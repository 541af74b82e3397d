import Conduit.Builtin.ControlFlow
import Conduit.Proofs.Context.Fork

/-!
The loop over the values of the input.  A whole run of it is a row of turns, each of which takes the
next value and calls the closure with it; what the turns and the bodies leave stays in the channel.
-/

namespace Conduit

open Proc Builtin

variable {h : Host} {s s' : System} {es : List Event}

namespace Signal

def GoesOn (r : Signal) : Prop := r = .ok ∨ r = .flow .continue

theorem stopsLoop_eq_none_iff {r : Signal} : r.stopsLoop = none ↔ r.GoesOn := by
  rcases r with _ | _ | _ | _ | _ <;> simp [stopsLoop, GoesOn]

theorem stopsLoop_eq_some_iff {r r' : Signal} :
    r.stopsLoop = some r' ↔ ¬ r.GoesOn ∧ r' = if r = .flow .break then .ok else r := by
  rcases r with _ | _ | _ | _ | _ <;> simp [stopsLoop, GoesOn, eq_comm]

end Signal

namespace ChannelEnd

def takeEvents : ChannelEnd → Option Value → List Event
  | reading c, x => [.asked (.take c) x]
  | _, _ => []

def taken : ChannelEnd → List Event → List Value
  | reading c, es => Conduit.taken c es
  | _, _ => []

@[simp] theorem taken_append (e : ChannelEnd) (es es' : List Event) :
    e.taken (es ++ es') = e.taken es ++ e.taken es' := by
  cases e with
  | reading c => exact Conduit.taken_append c
  | closed => rfl
  | writing c => rfl

theorem setsFrom_takeEvents (n : Nat) (e : ChannelEnd) (x : Option Value) :
    SetsFrom n (e.takeEvents x) := by
  intro scope name v y hm
  cases e <;> simp [takeEvents] at hm

theorem solvent_takeEvents (ports : List Port) (e : ChannelEnd) (x : Option Value) :
    Solvent ports (e.takeEvents x) ports :=
  solvent_of_released_eq_zero (fun _ => by cases e <;> rfl) fun _ => Nat.le_add_right ..

end ChannelEnd

theorem System.After.left {e : ChannelEnd} {vs : List Value} (after : s.After es s')
    (left : s.LeftToRead e vs) : ∃ vs', s'.LeftToRead e vs' ∧ vs = e.taken es ++ vs' := by
  cases e with
  | reading c => exact after.leftToRead left
  | closed => exact ⟨[], rfl, left⟩
  | writing c => exact ⟨[], rfl, left⟩

theorem runs_take {e : ChannelEnd} {o : Outcome (Option Value)} (run : Runs h e.take s es o s') :
    ∃ y, o = .returned y ∧ es = e.takeEvents y ∧ (y.isSome → ∃ c, e = .reading c) := by
  cases e with
  | closed =>
    obtain ⟨rfl, rfl, rfl⟩ := runs_done.1 run
    exact ⟨none, rfl, rfl, nofun⟩
  | writing c =>
    obtain ⟨rfl, rfl, rfl⟩ := runs_done.1 run
    exact ⟨none, rfl, rfl, nofun⟩
  | reading c =>
    obtain ⟨y, -, rfl, rfl⟩ := runs_ask.1 run
    exact ⟨y, rfl, rfl, fun _ => ⟨c, rfl⟩⟩

theorem nil_of_runs_take {e : ChannelEnd} {vs : List Value} (left : s.LeftToRead e vs)
    (run : Runs h e.take s es (.returned none) s') : vs = [] := by
  cases e with
  | closed => exact left
  | writing c => exact left
  | reading c =>
    obtain ⟨y, reply, rfl, ho⟩ := runs_ask.1 run
    cases ho
    obtain ⟨s₁, took, -⟩ := exists_takeValue? left
    rw [show (Request.take c).perform? s = _ from took] at reply
    cases vs with
    | nil => rfl
    | cons v vs => cases reply

theorem terminates_take {e : ChannelEnd} {vs : List Value} (left : s.LeftToRead e vs) :
    Terminates h e.take s := by
  cases e with
  | closed => exact terminates_done none
  | writing c => exact terminates_done none
  | reading c =>
    obtain ⟨s₁, took, -⟩ := exists_takeValue? left
    exact terminates_request took (terminates_done _)

structure EachCall where
  value : Value
  fork : ScopeId
  own : ScopeId
  events : List Event
  signal : Signal
  left : List Port

namespace EachCall

variable {ctx : Context} {f : Closure} {x : String}

def context (ctx : Context) (c : EachCall) : Context :=
  { ctx with name := "closure of each", scope := c.own }

def entering (ctx : Context) (f : Closure) (x : String) (c : EachCall) : List Event :=
  holdEvents ctx.ports ++ [.asked (.newScope (some ctx.scope)) c.fork] ++
    f.entryEvents x { ctx with name := "closure of each", scope := c.fork } c.value c.own

def inFork (ctx : Context) (f : Closure) (x : String) (c : EachCall) : List Event :=
  c.entering ctx f x ++ c.events ++ releaseEvents c.left

def trace (ctx : Context) (f : Closure) (x : String) (c : EachCall) : List Event :=
  ctx.input.channel.takeEvents (some c.value) ++ c.inFork ctx f x

def Ran (h : Host) (ctx : Context) (f : Closure) (c : EachCall) (s : System) (es : List Event) :
    Prop :=
  ∃ s₁ s₂, s.After es s₁ ∧
    Runs h (h.body f (c.context ctx) [c.value]) s₁ c.events (.returned (c.signal, c.left)) s₂

theorem taken_entering (c : EachCall) (e : ChannelEnd) : e.taken (c.entering ctx f x) = [] := by
  cases e with
  | reading d =>
    rw [ChannelEnd.taken, entering, taken_append, taken_append, taken_holdEvents]
    rfl
  | closed => rfl
  | writing d => rfl

theorem taken_inFork (c : EachCall) (e : ChannelEnd) :
    e.taken (c.inFork ctx f x) = e.taken c.events := by
  rw [inFork, ChannelEnd.taken_append, ChannelEnd.taken_append, taken_entering]
  cases e with
  | reading d =>
    simp only [ChannelEnd.taken]
    rw [taken_releaseEvents, List.append_nil, List.nil_append]
  | closed => rfl
  | writing d => rfl

theorem taken_trace {d : ChannelId} (c : EachCall) (reads : ctx.input.channel = .reading d) :
    ctx.input.channel.taken (c.trace ctx f x) =
      c.value :: ctx.input.channel.taken c.events := by
  rw [trace, ChannelEnd.taken_append, taken_inFork, reads]
  simp [ChannelEnd.taken, ChannelEnd.takeEvents, Conduit.taken, Event.takenFrom?]

theorem solvent_entering (c : EachCall) : Solvent [] (c.entering ctx f x) ctx.ports := by
  have scope : Solvent ctx.ports [.asked (.newScope (some ctx.scope)) c.fork] ctx.ports :=
    solvent_of_released_eq_zero (fun _ => rfl) fun _ => Nat.le_add_right ..
  refine solvent_append (solvent_append (solvent_holdEvents ctx.ports) scope) ?_
  exact solvent_of_released_eq_zero (fun _ => rfl) fun _ => Nat.le_add_right ..

theorem setsFrom_entering {c : EachCall} {n : Nat} (hn : n ≤ c.own.index) :
    SetsFrom n (c.entering ctx f x) := by
  refine setsFrom_append (setsFrom_append (setsFrom_holdEvents n ctx.ports) ?_) ?_
  · intro scope name v y hm
    simp at hm
  · intro scope name v y hm
    simp [Closure.entryEvents] at hm
    exact hm.1 ▸ hn

end EachCall

/-- A body that ends without a panic, sets variables in its own scope and in newer ones only, and
gives up no end of a port that it does not have. -/
def KeepsToItself (h : Host) (f : Closure) (ctx : Context) : Prop :=
  ∀ v scope s es o s', s.scopes.size = scope.index + 1 →
    Runs h (h.body f { ctx with name := "closure of each", scope } [v]) s es o s' →
      ∃ r left, o = .returned (r, left) ∧ SetsFrom scope.index es ∧ Solvent ctx.ports es left

section Each

variable {ctx : Context} {f : Closure} {x : String}

theorem runs_eachCall {v : Value} {o : Outcome Signal} (one : f.params = [x])
    (keeps : KeepsToItself h f ctx)
    (run : Runs h (ctx.inFork "closure of each" fun inner => f.call inner [v]) s es o s') :
    ∃ c : EachCall, c.value = v ∧ o = .returned c.signal ∧ es = c.inFork ctx f x ∧
      c.Ran h ctx f s (c.entering ctx f x) ∧ SetsFrom s.scopes.size es ∧ Solvent [] es [] := by
  obtain ⟨fork, o', es', s₁, s₂, rfl, rfl, forked, call⟩ := Context.runs_inFork run
  obtain ⟨own, o'', es'', s₃, rfl, entered, here, size, rfl, ran⟩ := Closure.runs_call one call
  obtain ⟨r, left, rfl, sets, solvent⟩ := keeps v own s₃ es'' o'' s₂ size ran
  let c : EachCall := ⟨v, fork, own, es'', r, left⟩
  have hes : holdEvents ctx.ports ++ [.asked (.newScope (some ctx.scope)) fork] ++
      (f.entryEvents x { ctx with name := "closure of each", scope := fork } v own ++ es'') ++
        releaseEvents left = c.inFork ctx f x := by
    simp [c, EachCall.inFork, EachCall.entering]
  have older : s.scopes.size ≤ own.index := by
    rw [← here]
    refine (forked.rows (setsFrom_append (setsFrom_holdEvents _ _) ?_) (Nat.le_refl _)).1
    intro scope name v y hm
    simp at hm
  refine ⟨c, rfl, rfl, hes, ⟨s₃, s₂, forked.append entered, ran⟩, ?_, ?_⟩
  · exact hes ▸ setsFrom_append (setsFrom_append (EachCall.setsFrom_entering older)
      (sets.mono older)) (setsFrom_releaseEvents _ _)
  · exact hes ▸ solvent_append (solvent_append c.solvent_entering solvent)
      (solvent_releaseEvents left)

def turnAnswer (r : Signal) : Unit ⊕ Signal :=
  match r.stopsLoop with
  | some r => .inr r
  | none => .inl ()

theorem turnAnswer_eq_inr {r r' : Signal} : turnAnswer r = .inr r' ↔ r.stopsLoop = some r' := by
  rw [turnAnswer]
  split <;> simp_all

theorem turnAnswer_eq_inl {r : Signal} : turnAnswer r = .inl () ↔ r.stopsLoop = none := by
  rw [turnAnswer]
  split <;> simp_all

theorem runs_eachTurn {o : Outcome (Unit ⊕ Signal)} (one : f.params = [x])
    (keeps : KeepsToItself h f ctx) (run : Runs h (eachTurn ctx f) s es o s') :
    SetsFrom s.scopes.size es ∧ Solvent [] es [] ∧
      ((o = .returned (.inr .ok) ∧ es = ctx.input.channel.takeEvents none ∧
          Runs h ctx.input.channel.take s es (.returned none) s') ∨
        ∃ c : EachCall, o = .returned (turnAnswer c.signal) ∧ es = c.trace ctx f x ∧
          (∃ d, ctx.input.channel = .reading d) ∧ c.Ran h ctx f s
            (ctx.input.channel.takeEvents (some c.value) ++ c.entering ctx f x)) := by
  rcases runs_bind.1 run with ⟨message, rfl, took⟩ | ⟨y, es₁, es₂, s₁, rfl, took, rest⟩
  · obtain ⟨y, ho, -⟩ := runs_take took
    cases ho
  · obtain ⟨y, ho, rfl, reads⟩ := runs_take took
    cases ho
    have solvent := ctx.input.channel.solvent_takeEvents [] y
    have sets := ctx.input.channel.setsFrom_takeEvents s.scopes.size y
    have grown := (took.after.rows sets (Nat.le_refl _)).1
    cases y with
    | none =>
      obtain ⟨rfl, rfl, rfl⟩ := runs_done.1 rest
      rw [List.append_nil]
      exact ⟨sets, solvent, .inl ⟨rfl, rfl, took⟩⟩
    | some v =>
      rcases runs_bind.1 rest with ⟨message, rfl, call⟩ | ⟨r, es₃, es₄, s₂, rfl, call, last⟩
      · obtain ⟨c, -, ho, -⟩ := runs_eachCall one keeps call
        cases ho
      · obtain ⟨c, rfl, ho, rfl, ⟨s₃, s₄, entered, ran⟩, sets', solvent'⟩ :=
          runs_eachCall one keeps call
        cases ho
        have answer : Runs h (done (turnAnswer c.signal)) s₂ es₄ o s' := by
          rw [turnAnswer]
          cases stops : c.signal.stopsLoop with
          | none => rwa [stops] at last
          | some r => rwa [stops] at last
        obtain ⟨rfl, rfl, rfl⟩ := runs_done.1 answer
        rw [List.append_nil]
        exact ⟨setsFrom_append sets (sets'.mono grown), solvent_append solvent solvent',
          .inr ⟨c, rfl, rfl, reads rfl, s₃, s₄, took.after.append entered, ran⟩⟩

theorem runs_each_keeps {o : Outcome Signal} (one : f.params = [x])
    (keeps : KeepsToItself h f ctx) (run : Runs h (each ctx f) s es o s') :
    (∃ r, o = .returned r) ∧ SetsFrom s.scopes.size es ∧ Solvent [] es [] := by
  refine runs_iterate (motive := fun _ s es o _ =>
    (∃ r, o = .returned r) ∧ SetsFrom s.scopes.size es ∧ Solvent [] es []) ?_ ?_ ?_ run
  · intro _ s es message s' turn
    rcases runs_eachTurn one keeps turn with ⟨-, -, ⟨ho, -⟩ | ⟨c, ho, -⟩⟩
    · cases ho
    · cases ho
  · intro _ s es r s' turn
    obtain ⟨sets, solvent, -⟩ := runs_eachTurn one keeps turn
    exact ⟨⟨r, rfl⟩, sets, solvent⟩
  · intro _ s es _ s₁ es' o s' turn ⟨returned, sets', solvent'⟩
    obtain ⟨sets, solvent, -⟩ := runs_eachTurn one keeps turn
    have grown := (turn.after.rows sets (Nat.le_refl _)).1
    exact ⟨returned, setsFrom_append sets (sets'.mono grown), solvent_append solvent solvent'⟩

theorem KeepsToItself.each {g : Closure} (one : g.params = [x]) (keeps : KeepsToItself h g ctx)
    (body : ∀ inner v, h.body f inner [v] = do return (← each inner g, inner.ports)) :
    KeepsToItself h f ctx := by
  intro v scope s es o s' size run
  rw [body] at run
  obtain ⟨o', rfl, loop⟩ := runs_map.1 run
  have keeps : KeepsToItself h g { ctx with name := "closure of each", scope } := keeps
  obtain ⟨⟨r, rfl⟩, sets, solvent⟩ := runs_each_keeps one keeps loop
  exact ⟨r, ctx.ports, rfl, sets.mono (by omega), solvent.frame ctx.ports⟩

/-- How a whole run of the loop went, over a channel that held `vs`: its calls of the closure in
order, and the values `rest` that were left. -/
structure EachRun (h : Host) (ctx : Context) (f : Closure) (x : String) (s : System)
    (vs : List Value) (es : List Event) (r : Signal) (s' : System) (calls : List EachCall)
    (rest : List Value) : Prop where
  ran : ∀ front c back, calls = front ++ c :: back →
    c.Ran h ctx f s (front.flatMap (EachCall.trace ctx f x) ++
      ctx.input.channel.takeEvents (some c.value) ++ c.entering ctx f x)
  ended : ((∀ c ∈ calls, c.signal.GoesOn) ∧ rest = [] ∧ r = .ok ∧
      es = calls.flatMap (EachCall.trace ctx f x) ++ ctx.input.channel.takeEvents none) ∨
    ∃ front c, calls = front ++ [c] ∧ (∀ c ∈ front, c.signal.GoesOn) ∧ ¬ c.signal.GoesOn ∧
      r = (if c.signal = .flow .break then .ok else c.signal) ∧
      es = calls.flatMap (EachCall.trace ctx f x)
  values : vs = calls.flatMap (fun c => c.value :: ctx.input.channel.taken c.events) ++ rest
  left : s'.LeftToRead ctx.input.channel rest

namespace EachRun

variable {vs vs' rest : List Value} {s₁ : System} {es' : List Event} {r : Signal} {c : EachCall}
  {calls : List EachCall}

theorem nil (left : s'.LeftToRead ctx.input.channel []) :
    EachRun h ctx f x s [] (ctx.input.channel.takeEvents none) .ok s' [] [] where
  ran front c back eq := by simp at eq
  ended := .inl ⟨by simp, rfl, rfl, rfl⟩
  values := rfl
  left := left

theorem stop (ran : c.Ran h ctx f s
      (ctx.input.channel.takeEvents (some c.value) ++ c.entering ctx f x))
    (stops : ¬ c.signal.GoesOn) (left : s'.LeftToRead ctx.input.channel vs') :
    EachRun h ctx f x s (c.value :: ctx.input.channel.taken c.events ++ vs') (c.trace ctx f x)
      (if c.signal = .flow .break then .ok else c.signal) s' [c] vs' where
  ran front d back eq := by
    rcases front with _ | ⟨c', front⟩
    · cases eq
      exact ran
    · simp at eq
  ended := .inr ⟨[], c, rfl, by simp, stops, rfl, by simp⟩
  values := by simp
  left := left

theorem cons (ran : c.Ran h ctx f s
      (ctx.input.channel.takeEvents (some c.value) ++ c.entering ctx f x))
    (goes : c.signal.GoesOn) (after : s.After (c.trace ctx f x) s₁)
    (others : EachRun h ctx f x s₁ vs' es' r s' calls rest) :
    EachRun h ctx f x s (c.value :: ctx.input.channel.taken c.events ++ vs')
      (c.trace ctx f x ++ es') r s' (c :: calls) rest where
  ran front d back eq := by
    rcases front with _ | ⟨c', front⟩
    · cases eq
      exact ran
    · obtain ⟨rfl, tail⟩ := List.cons.inj eq
      obtain ⟨s₂, s₃, entered, body⟩ := others.ran front d back tail
      exact ⟨s₂, s₃, by simpa using after.append entered, body⟩
  ended := by
    rcases others.ended with ⟨all, hr, ho, he⟩ | ⟨front, d, rfl, all, stops, hr, he⟩
    · refine .inl ⟨?_, hr, ho, by simp [he]⟩
      rintro d (_ | ⟨_, hd⟩)
      · exact goes
      · exact all d hd
    · refine .inr ⟨c :: front, d, rfl, ?_, stops, hr, by simp [he]⟩
      rintro d (_ | ⟨_, hd⟩)
      · exact goes
      · exact all d hd
  values := by simp [others.values]
  left := others.left

theorem ne_break (course : EachRun h ctx f x s vs es r s' calls rest) : r ≠ .flow .break := by
  rcases course.ended with ⟨-, -, rfl, -⟩ | ⟨front, c, -, -, -, rfl, -⟩
  · exact nofun
  · split
    · exact nofun
    · next other => exact other

theorem ne_continue (course : EachRun h ctx f x s vs es r s' calls rest) :
    r ≠ .flow .continue := by
  rcases course.ended with ⟨-, -, rfl, -⟩ | ⟨front, c, -, -, stops, rfl, -⟩
  · exact nofun
  · split
    · exact nofun
    · intro other
      exact stops (.inr other)

end EachRun

theorem runs_each {vs : List Value} {o : Outcome Signal} (one : f.params = [x])
    (keeps : KeepsToItself h f ctx) (left : s.LeftToRead ctx.input.channel vs)
    (run : Runs h (each ctx f) s es o s') :
    ∃ r calls rest, o = .returned r ∧ EachRun h ctx f x s vs es r s' calls rest := by
  refine runs_iterate (motive := fun _ s es o s' =>
    ∀ vs, s.LeftToRead ctx.input.channel vs →
      ∃ r calls rest, o = .returned r ∧ EachRun h ctx f x s vs es r s' calls rest)
    ?_ ?_ ?_ run vs left
  · intro _ s es message s' turn
    rcases runs_eachTurn one keeps turn with ⟨-, -, ⟨ho, -⟩ | ⟨c, ho, -⟩⟩
    · cases ho
    · cases ho
  · intro _ s es r s' turn vs left
    obtain ⟨vs', left', hvs⟩ := turn.after.left left
    rcases runs_eachTurn one keeps turn with
      ⟨-, -, ⟨ho, rfl, took⟩ | ⟨c, ho, rfl, ⟨d, reads⟩, ran⟩⟩
    · cases ho
      obtain rfl := nil_of_runs_take left took
      obtain ⟨-, rfl⟩ := List.nil_eq_append_iff.1 hvs
      exact ⟨.ok, [], [], rfl, .nil left'⟩
    · rw [c.taken_trace reads] at hvs
      subst hvs
      have stops := turnAnswer_eq_inr.1 (Outcome.returned.inj ho).symm
      obtain ⟨halts, rfl⟩ := Signal.stopsLoop_eq_some_iff.1 stops
      exact ⟨_, [c], vs', rfl, .stop ran halts left'⟩
  · intro _ s es _ s₁ es' o s' turn others vs left
    obtain ⟨vs', left', hvs⟩ := turn.after.left left
    obtain ⟨r, calls, rest, rfl, course⟩ := others vs' left'
    rcases runs_eachTurn one keeps turn with
      ⟨-, -, ⟨ho, -⟩ | ⟨c, ho, rfl, ⟨d, reads⟩, ran⟩⟩
    · cases ho
    · rw [c.taken_trace reads] at hvs
      subst hvs
      have goes := turnAnswer_eq_inl.1 (Outcome.returned.inj ho).symm
      exact ⟨r, c :: calls, rest, rfl,
        .cons ran (Signal.stopsLoop_eq_none_iff.1 goes) turn.after course⟩

theorem terminates_eachTurn {vs : List Value} (left : s.LeftToRead ctx.input.channel vs)
    (ends : CallsEnd h (eachTurn ctx f) s) : Terminates h (eachTurn ctx f) s := by
  refine terminates_bind (terminates_take left) fun es y s₁ took => ?_
  have ends := ends.bind took
  cases y with
  | none => exact terminates_done _
  | some v =>
    refine terminates_bind (Context.terminates_inFork fun es fork s₂ forked => ?_) ?_
    · exact Closure.terminates_call ((ends.of_bind.bind forked).of_bind.of_attempt)
    · intro es r s₂ _
      cases r.stopsLoop with
      | none => exact terminates_done _
      | some r => exact terminates_done _

theorem terminates_each {vs : List Value} (one : f.params = [x]) (keeps : KeepsToItself h f ctx)
    (left : s.LeftToRead ctx.input.channel vs) (ends : CallsEnd h (each ctx f) s) :
    Terminates h (each ctx f) s := by
  induction hn : vs.length using Nat.strongRecOn generalizing s vs with
  | _ n ih =>
  subst hn
  have ends := ends.of_loop
  refine terminates_loop (terminates_bind (terminates_eachTurn left ends.of_bind) ?_)
  intro es y s₁ turn
  have ends := ends.bind turn
  cases y with
  | inr r => exact terminates_done r
  | inl again =>
    obtain ⟨vs', left', hvs⟩ := turn.after.left left
    rcases runs_eachTurn one keeps turn with ⟨-, -, ⟨ho, -⟩ | ⟨c, -, rfl, ⟨d, reads⟩, -⟩⟩
    · cases ho
    · rw [c.taken_trace reads] at hvs
      have fewer : vs'.length < vs.length := by
        rw [hvs, List.length_append, List.length_cons]
        omega
      exact ih _ fewer left' ends rfl

theorem each_consumes_in_order {vs : List Value} (one : f.params = [x])
    (keeps : KeepsToItself h f ctx) (left : s.LeftToRead ctx.input.channel vs) :
    (CallsEnd h (each ctx f) s → Terminates h (each ctx f) s) ∧
      ∀ es o s', Runs h (each ctx f) s es o s' → ∃ r calls rest, o = .returned r ∧
        r ≠ .flow .break ∧ r ≠ .flow .continue ∧
        EachRun h ctx f x s vs es r s' calls rest ∧
        (∀ e, s.holders e ≤ s'.holders e) ∧
        ∀ scope name, scope.index < s.scopes.size →
          s'.scopes.get? scope name = s.scopes.get? scope name := by
  refine ⟨terminates_each one keeps left, fun es o s' run => ?_⟩
  obtain ⟨r, calls, rest, rfl, course⟩ := runs_each one keeps left run
  obtain ⟨-, sets, solvent⟩ := runs_each_keeps one keeps run
  obtain ⟨-, rows⟩ := run.after.rows sets (Nat.le_refl _)
  exact ⟨r, calls, rest, rfl, course.ne_break, course.ne_continue, course,
    run.after.holders_le solvent, fun scope name old => ScopeTable.get?_congr rows name scope old⟩

end Each

namespace TakingPairs

def host : Host where
  body _ ctx args := do
    let _ ← ctx.input.channel.take
    pure (if args == [.string "c"] then .flow .break else .flow .continue, ctx.ports)
  script _ _ _ := pure .ok

def pair : Closure := ⟨0, ["x"], ⟨0⟩⟩

def letters : List Value := ["a", "b", "c", "d", "e"].map .string

def system : System where
  scopes := ⟨#[{}]⟩
  channels := #[.ofList letters]

def context : Context := .ofPorts "top" [⟨.reading ⟨0⟩, .closed⟩] ⟨0⟩

theorem keepsToItself : KeepsToItself host pair context := by
  intro v scope s es o s' _ run
  obtain ⟨o', rfl, took⟩ := runs_map.1 run
  obtain ⟨y, rfl, rfl, -⟩ := runs_take took
  exact ⟨_, _, rfl, ChannelEnd.setsFrom_takeEvents _ _ _, ChannelEnd.solvent_takeEvents _ _ _⟩

theorem each_pair_consumes_in_order :
    KeepsToItself host pair context ∧ system.LeftToRead context.input.channel letters ∧
      (CallsEnd host (each context pair) system → Terminates host (each context pair) system) ∧
      ∀ es o s', Runs host (each context pair) system es o s' → ∃ r calls rest,
        o = .returned r ∧ EachRun host context pair "x" system letters es r s' calls rest := by
  have left : system.LeftToRead context.input.channel letters := ⟨_, rfl, rfl, rfl⟩
  obtain ⟨ends, runs⟩ := each_consumes_in_order (h := host) (f := pair) (x := "x") rfl
    keepsToItself left
  refine ⟨keepsToItself, left, ends, fun es o s' run => ?_⟩
  obtain ⟨r, calls, rest, ho, -, -, course, -⟩ := runs es o s' run
  exact ⟨r, calls, rest, ho, course⟩

example : (run host 60 (each context pair) system).1 = some (.returned .ok) := by rfl

example : ((run host 60 (each context pair) system).2.channels.toList.map (·.queue)) =
    [[.string "e"]] := by rfl

end TakingPairs

end Conduit
