import Conduit.Context.Call
import Conduit.Proofs.Proc.Termination
import Conduit.Proofs.System.Bindings
import Conduit.Proofs.System.Ownership

/-!
What is done by forking a context, by closing it, and by calling a closure in it.
-/

namespace Conduit

open Proc

variable {h : Host} {s s' : System} {es : List Event} {α : Type}

def holdEvents (ports : List Port) : List Event :=
  ports.flatMap fun p => [.asked (.holdChannel p.channel) (), .asked (.holdStream p.stream) ()]

def releaseEvents (ports : List Port) : List Event :=
  ports.flatMap fun p =>
    [.asked (.releaseChannel p.channel) (), .asked (.releaseStream p.stream) ()]

theorem acquired_holdEvents (e : PortEnd) (ports : List Port) :
    acquired e (holdEvents ports) = holdsOf e ports := by
  induction ports with
  | nil => rfl
  | cons p ports ih =>
    rw [holdsOf, ← ih]
    simp [acquired, holdEvents, Event.acquired, Port.holds, Nat.add_assoc]

theorem released_holdEvents (e : PortEnd) (ports : List Port) :
    released e (holdEvents ports) = 0 := by
  induction ports with
  | nil => rfl
  | cons p ports ih =>
    simpa [holdEvents, released, Event.released] using ih

theorem released_releaseEvents (e : PortEnd) (ports : List Port) :
    released e (releaseEvents ports) = holdsOf e ports := by
  induction ports with
  | nil => rfl
  | cons p ports ih =>
    rw [holdsOf, ← ih]
    simp [released, releaseEvents, Event.released, Port.holds, Nat.add_assoc]

theorem solvent_holdEvents (ports : List Port) : Solvent [] (holdEvents ports) ports :=
  solvent_of_released_eq_zero (fun e => released_holdEvents e ports) fun e => by
    rw [acquired_holdEvents]
    exact Nat.le_add_left ..

theorem solvent_releaseEvents (ports : List Port) : Solvent ports (releaseEvents ports) [] := by
  constructor
  · intro e front hf
    have := released_le_of_prefix (e := e) hf
    rw [released_releaseEvents] at this
    exact Nat.le_add_right_of_le this
  · intro e
    rw [released_releaseEvents]
    exact Nat.le_add_right ..

theorem taken_holdEvents (c : ChannelId) (ports : List Port) : taken c (holdEvents ports) = [] := by
  induction ports with
  | nil => rfl
  | cons p ports ih => exact ih

theorem taken_releaseEvents (c : ChannelId) (ports : List Port) :
    taken c (releaseEvents ports) = [] := by
  induction ports with
  | nil => rfl
  | cons p ports ih => exact ih

theorem setsFrom_holdEvents (n : Nat) (ports : List Port) : SetsFrom n (holdEvents ports) := by
  intro scope name v x hm
  simp [holdEvents] at hm

theorem setsFrom_releaseEvents (n : Nat) (ports : List Port) :
    SetsFrom n (releaseEvents ports) := by
  intro scope name v x hm
  simp [releaseEvents] at hm

theorem runs_eachPort {f : Port → Proc PUnit} {events : Port → List Event}
    (one : ∀ {p : Port} {s s' : System} {es : List Event} {o : Outcome PUnit},
      Runs h (f p) s es o s' → es = events p ∧ o = .returned ())
    {ports : List Port} {o : Outcome PUnit} (run : Runs h (ports.forM f) s es o s') :
    es = ports.flatMap events ∧ o = .returned () := by
  induction ports generalizing s es with
  | nil =>
    obtain ⟨rfl, rfl, rfl⟩ := runs_done.1 run
    exact ⟨rfl, rfl⟩
  | cons p ports ih =>
    rcases runs_bind.1 run with ⟨message, -, broken⟩ | ⟨x, es₁, es₂, s₁, rfl, first, rest⟩
    · cases (one broken).2
    · obtain ⟨rfl, -⟩ := one first
      obtain ⟨rfl, rfl⟩ := ih rest
      exact ⟨rfl, rfl⟩

theorem runs_hold {p : Port} {o : Outcome PUnit} (run : Runs h p.hold s es o s') :
    es = [.asked (.holdChannel p.channel) (), .asked (.holdStream p.stream) ()] ∧
      o = .returned () := by
  obtain ⟨x, s₁, es₁, -, rfl, rest⟩ := runs_request.1 run
  obtain ⟨y, s₂, es₂, -, rfl, last⟩ := runs_request.1 rest
  obtain ⟨rfl, rfl, rfl⟩ := runs_done.1 last
  exact ⟨rfl, rfl⟩

theorem runs_release {p : Port} {o : Outcome PUnit} (run : Runs h p.release s es o s') :
    es = [.asked (.releaseChannel p.channel) (), .asked (.releaseStream p.stream) ()] ∧
      o = .returned () := by
  obtain ⟨x, s₁, es₁, -, rfl, rest⟩ := runs_request.1 run
  obtain ⟨y, s₂, es₂, -, rfl, last⟩ := runs_request.1 rest
  obtain ⟨rfl, rfl, rfl⟩ := runs_done.1 last
  exact ⟨rfl, rfl⟩

theorem runs_holdAll {ports : List Port} {o : Outcome PUnit}
    (run : Runs h (ports.forM Port.hold) s es o s') :
    es = holdEvents ports ∧ o = .returned () := runs_eachPort runs_hold run

theorem runs_releaseAll {ports : List Port} {o : Outcome PUnit}
    (run : Runs h (ports.forM Port.release) s es o s') :
    es = releaseEvents ports ∧ o = .returned () := runs_eachPort runs_release run

theorem terminates_holdAll (ports : List Port) : Terminates h (ports.forM Port.hold) s := by
  induction ports generalizing s with
  | nil => exact terminates_done ()
  | cons p ports ih => exact terminates_request rfl (terminates_request rfl ih)

theorem terminates_releaseAll (ports : List Port) :
    Terminates h (ports.forM Port.release) s := by
  induction ports generalizing s with
  | nil => exact terminates_done ()
  | cons p ports ih => exact terminates_request rfl (terminates_request rfl ih)

namespace Context

theorem runs_fork {ctx : Context} {name : String} {o : Outcome Context}
    (run : Runs h (ctx.fork name) s es o s') :
    ∃ scope, es = holdEvents ctx.ports ++ [.asked (.newScope (some ctx.scope)) scope] ∧
      o = .returned { ctx with name, scope } := by
  rcases runs_bind.1 run with ⟨message, rfl, held⟩ | ⟨x, es₁, es₂, s₁, rfl, held, rest⟩
  · cases (runs_holdAll held).2
  · obtain ⟨rfl, -⟩ := runs_holdAll held
    obtain ⟨scope, s₂, es₂, reply, rfl, last⟩ := runs_request.1 rest
    obtain ⟨rfl, rfl, rfl⟩ := runs_done.1 last
    exact ⟨scope, rfl, rfl⟩

theorem terminates_fork (ctx : Context) (name : String) : Terminates h (ctx.fork name) s :=
  terminates_bind (terminates_holdAll ctx.ports) fun _ _ _ _ =>
    terminates_request rfl (terminates_done _)

theorem runs_setPort {ctx : Context} {i : Nat} {p : Port} {o : Outcome Context}
    (run : Runs h (ctx.setPort i p) s es o s') :
    es = releaseEvents [ctx.port i] ∧ o = .returned (ctx.putPort i p) := by
  obtain ⟨o', rfl, released⟩ := runs_map.1 run
  obtain ⟨rfl, rfl⟩ := runs_release released
  exact ⟨rfl, rfl⟩

theorem terminates_setPort (ctx : Context) (i : Nat) (p : Port) :
    Terminates h (ctx.setPort i p) s :=
  terminates_request rfl (terminates_request rfl (terminates_done _))

theorem runs_close {ctx : Context} {o : Outcome Context} (run : Runs h ctx.close s es o s') :
    es = releaseEvents ctx.ports ∧ o = .returned ctx.withoutPorts := by
  obtain ⟨o', rfl, all⟩ := runs_map.1 run
  obtain ⟨rfl, rfl⟩ := runs_releaseAll all
  exact ⟨rfl, rfl⟩

theorem terminates_close (ctx : Context) : Terminates h ctx.close s :=
  terminates_bind (terminates_releaseAll ctx.ports) fun _ _ _ _ => terminates_done _

theorem runs_closeThen {ctx : Context} {p : Proc α} {o : Outcome α}
    (run : Runs h (do discard ctx.close; p) s es o s') :
    ∃ es' s₁, es = releaseEvents ctx.ports ++ es' ∧ Runs h p s₁ es' o s' := by
  rcases runs_bind.1 run with ⟨message, rfl, shut⟩ | ⟨x, es₁, es₂, s₁, rfl, shut, rest⟩
  · obtain ⟨o', ho, shut⟩ := runs_map.1 shut
    rw [(runs_close shut).2] at ho
    cases ho
  · obtain ⟨o', ho, shut⟩ := runs_map.1 shut
    exact ⟨es₂, s₁, by rw [(runs_close shut).1], rest⟩

theorem terminates_closeThen (ctx : Context) {p : Proc α} (rest : ∀ s, Terminates h p s) :
    Terminates h (do discard ctx.close; p) s :=
  terminates_bind (terminates_bind (terminates_close ctx) fun _ _ _ _ => terminates_done _)
    fun _ _ s' _ => rest s'

def portsAfter (ctx : Context) : Outcome (α × Context) → List Port
  | .returned (_, left) => left.ports
  | .panicked _ => ctx.ports

theorem runs_closing {ctx : Context} {body : Context → Proc (α × Context)} {o : Outcome α}
    (run : Runs h (ctx.closing body) s es o s') :
    ∃ o' es' s₁, es = es' ++ releaseEvents (ctx.portsAfter o') ∧ o = o'.map Prod.fst ∧
      Runs h (body ctx) s es' o' s₁ := by
  rcases runs_bind.1 run with ⟨message, rfl, ran⟩ | ⟨x, es₁, es₂, s₁, rfl, ran, rest⟩
  · obtain ⟨o', ho, -⟩ := runs_attempt.1 ran
    cases ho
  · obtain ⟨o', ho, ran⟩ := runs_attempt.1 ran
    cases ho
    rcases x with ⟨a, left⟩ | message
    · obtain ⟨es₃, s₂, rfl, last⟩ := runs_closeThen rest
      obtain ⟨rfl, rfl, rfl⟩ := runs_done.1 last
      exact ⟨_, es₁, s₁, by rw [List.append_nil]; rfl, rfl, ran⟩
    · obtain ⟨es₃, s₂, rfl, last⟩ := runs_closeThen rest
      obtain ⟨rfl, rfl, rfl⟩ := runs_panic.1 last
      exact ⟨_, es₁, s₁, by rw [List.append_nil]; rfl, rfl, ran⟩

theorem terminates_closing {ctx : Context} {body : Context → Proc (α × Context)}
    (inner : Terminates h (body ctx) s) : Terminates h (ctx.closing body) s := by
  refine terminates_bind (terminates_attempt inner) fun es o s' _ => ?_
  rcases o with ⟨a, left⟩ | message
  · exact terminates_closeThen left fun _ => terminates_done a
  · exact terminates_closeThen ctx fun _ => .ended (o := .panicked message) rfl

theorem runs_inFork {ctx : Context} {name : String} {body : Context → Proc (α × Context)}
    {o : Outcome α} (run : Runs h (ctx.inFork name body) s es o s') :
    ∃ scope o' es' s₁ s₂, es = holdEvents ctx.ports ++
        [.asked (.newScope (some ctx.scope)) scope] ++ es' ++
          releaseEvents (({ ctx with name, scope } : Context).portsAfter o') ∧
      o = o'.map Prod.fst ∧
      s.After (holdEvents ctx.ports ++ [.asked (.newScope (some ctx.scope)) scope]) s₁ ∧
      Runs h (body { ctx with name, scope }) s₁ es' o' s₂ := by
  rcases runs_bind.1 run with ⟨message, rfl, forked⟩ | ⟨x, es₁, es₂, s₁, rfl, forked, rest⟩
  · obtain ⟨scope, -, ho⟩ := runs_fork forked
    cases ho
  · obtain ⟨scope, rfl, ho⟩ := runs_fork forked
    cases ho
    obtain ⟨o', es', s₂, rfl, rfl, ran⟩ := runs_closing rest
    exact ⟨scope, o', es', s₁, s₂, by simp, rfl, forked.after, ran⟩

theorem terminates_inFork {ctx : Context} {name : String} {body : Context → Proc (α × Context)}
    (inner : ∀ es scope s', Runs h (ctx.fork name) s es (.returned { ctx with name, scope }) s' →
      Terminates h (body { ctx with name, scope }) s') :
    Terminates h (ctx.inFork name body) s := by
  refine terminates_bind (terminates_fork ctx name) fun es inside s' forked => ?_
  obtain ⟨scope, -, ho⟩ := runs_fork forked
  cases ho
  exact terminates_closing (inner es scope s' forked)

end Context

namespace Closure

def entryEvents (f : Closure) (x : String) (ctx : Context) (v : Value) (scope : ScopeId) :
    List Event :=
  [.asked (.newScope (some f.captured)) scope, .asked (.setVar scope x v) (),
    .called (.body f { ctx with scope } [v])]

def bindEvents (scope : ScopeId) (pairs : List (String × Value)) : List Event :=
  pairs.map fun p => .asked (.setVar scope p.1 p.2) ()

def entering (f : Closure) (ctx : Context) (args : List Value) (scope : ScopeId) : List Event :=
  .asked (.newScope (some f.captured)) scope :: bindEvents scope (f.params.zip args) ++
    [.called (.body f { ctx with scope } args)]

def entered (f : Closure) (args : List Value) (s : System) : System :=
  { s with scopes :=
      (s.scopes.grow (some f.captured)).2.setAll ⟨s.scopes.size⟩ (f.params.zip args) }

theorem size_entered (f : Closure) (args : List Value) (s : System) :
    (f.entered args s).scopes.size = s.scopes.size + 1 :=
  (ScopeTable.size_setAll _ _).trans (Array.size_push _)

theorem get?_entered (f : Closure) (args : List Value) (s : System) (name : String) :
    (f.entered args s).scopes.get? ⟨s.scopes.size⟩ name =
      ((f.params.zip args).reverse.lookup name).or (s.scopes.get? f.captured name) := by
  have own : (s.scopes.grow f.captured).2.rows[s.scopes.size]? = some { parent := f.captured } :=
    Array.getElem?_push.trans (if_pos rfl)
  rw [← ScopeTable.get?_grow s.scopes f.captured name]
  exact ScopeTable.get?_setAll _ own name

theorem runs_bindAll {scope : ScopeId} {pairs : List (String × Value)} {o : Outcome Unit} :
    Runs h (bindAll scope pairs) s es o s' ↔ es = bindEvents scope pairs ∧
      o = .returned () ∧ s' = { s with scopes := s.scopes.setAll scope pairs } := by
  induction pairs generalizing s es with
  | nil => exact runs_done
  | cons b pairs ih =>
    refine runs_request.trans ⟨?_, ?_⟩
    · rintro ⟨x, s₁, es₁, reply, rfl, rest⟩
      cases reply
      obtain ⟨rfl, rfl, rfl⟩ := ih.1 rest
      exact ⟨rfl, rfl, rfl⟩
    · rintro ⟨rfl, rfl, rfl⟩
      exact ⟨(), _, _, rfl, rfl, ih.2 ⟨rfl, rfl, rfl⟩⟩

theorem after_entering (f : Closure) (ctx : Context) (args : List Value) (s : System) :
    s.After (f.entering ctx args ⟨s.scopes.size⟩) (f.entered args s) :=
  .asked rfl (((runs_bindAll (h := .none)).2 ⟨rfl, rfl, rfl⟩).after.append (.called .nil))

theorem runs_call_iff {f : Closure} {ctx : Context} {args : List Value}
    {o : Outcome (Signal × Context)} (arity : f.params.length = args.length) :
    Runs h (f.call ctx args) s es o s' ↔ ∃ o' body,
      es = f.entering ctx args ⟨s.scopes.size⟩ ++ body ∧
      o = o'.map (fun y => (y.1, { ctx with scope := ⟨s.scopes.size⟩, ports := y.2 })) ∧
      Runs h (h.body f { ctx with scope := ⟨s.scopes.size⟩ } args) (f.entered args s) body o'
        s' := by
  rw [call, if_neg (Decidable.not_not.2 arity)]
  refine runs_request.trans ⟨?_, ?_⟩
  · rintro ⟨scope, s₁, es₁, reply, rfl, rest⟩
    simp only [Proc.bind] at rest
    rcases runs_bind.1 rest with ⟨message, rfl, bound⟩ | ⟨x, es₂, es₃, s₂, rfl, bound, rest⟩
    · cases (runs_bindAll.1 bound).2.1
    · obtain ⟨o', rfl, called⟩ := runs_map.1 rest
      obtain ⟨body, rfl, ran⟩ := runs_runHost.1 called
      obtain ⟨rfl, -, rfl⟩ := runs_bindAll.1 bound
      cases reply
      exact ⟨o', body, by simp [entering], rfl, ran⟩
  · rintro ⟨o', body, rfl, rfl, ran⟩
    refine ⟨⟨s.scopes.size⟩, _, _, rfl, by rw [entering, List.append_assoc]; rfl, ?_⟩
    simp only [Proc.bind]
    exact runs_bind.2 (.inr ⟨(), _, _, _, rfl, runs_bindAll.2 ⟨rfl, rfl, rfl⟩,
      runs_map.2 ⟨o', rfl, runs_runHost.2 ⟨body, rfl, ran⟩⟩⟩)

theorem runs_call {f : Closure} {x : String} {ctx : Context} {v : Value}
    {o : Outcome (Signal × Context)} (one : f.params = [x])
    (run : Runs h (f.call ctx [v]) s es o s') :
    ∃ scope o' es' s₁, es = f.entryEvents x ctx v scope ++ es' ∧
      s.After (f.entryEvents x ctx v scope) s₁ ∧
      s.scopes.size = scope.index ∧ s₁.scopes.size = scope.index + 1 ∧
      o = o'.map (fun y => (y.1, { ctx with scope, ports := y.2 })) ∧
      Runs h (h.body f { ctx with scope } [v]) s₁ es' o' s' := by
  obtain ⟨o', es', rfl, rfl, ran⟩ := (runs_call_iff (by rw [one]; rfl)).1 run
  have same (scope : ScopeId) : f.entering ctx [v] scope = f.entryEvents x ctx v scope := by
    rw [entering, one]
    rfl
  exact ⟨⟨s.scopes.size⟩, o', es', f.entered [v] s, by rw [same],
    same _ ▸ f.after_entering ctx [v] s, rfl, f.size_entered [v] s, rfl, ran⟩

theorem terminates_bindAll (scope : ScopeId) (pairs : List (String × Value)) :
    Terminates h (bindAll scope pairs) s := by
  induction pairs generalizing s with
  | nil => exact terminates_done ()
  | cons p pairs ih => exact terminates_request rfl ih

theorem terminates_call {f : Closure} {ctx : Context} {args : List Value}
    (ends : CallsEnd h (f.call ctx args) s) : Terminates h (f.call ctx args) s := by
  by_cases arity : f.params.length ≠ args.length
  · rw [call, if_pos arity]
    exact terminates_done _
  · rw [call, if_neg arity] at ends ⊢
    have ends := ends.ask_bind rfl
    refine terminates_ask_bind rfl ?_
    refine terminates_bind (terminates_bindAll _ _) fun es y s' bound => ?_
    exact terminates_bind (terminates_runHost (ends.bind bound).run) fun _ _ _ _ => terminates_done _

end Closure

end Conduit
