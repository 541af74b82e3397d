import Conduit.Proofs.Pipeline.Sides

/-!
The stages of a pipeline one after another, each on all that the one before it has written: what they
do, and how each of them begins when it is its turn.
-/

namespace Conduit

open Proc

inductive InTurn {α : Type} (h : Host) :
    List (Proc α) → System → List (List Event × α) → System → Prop
  | nil {s : System} : InTurn h [] s [] s
  | cons {p : Proc α} {ps : List (Proc α)} {s s' s'' : System} {es : List Event} {a : α}
      {turns : List (List Event × α)} (run : Runs h p s es (.returned a) s')
      (rest : InTurn h ps s' turns s'') : InTurn h (p :: ps) s ((es, a) :: turns) s''

theorem Supply.append_def (first rest : Supply) :
    first ++ rest = ⟨first.values ++ rest.values, first.chunks ++ rest.chunks⟩ := rfl

@[simp] theorem Supply.empty_append (supply : Supply) : ({} : Supply) ++ supply = supply := rfl

@[simp] theorem Supply.append_empty (supply : Supply) : supply ++ ({} : Supply) = supply := by
  simp [append_def]

namespace Pipeline

variable {h : Host} {s₀ s s' t t' : System} {template : Context} {n j k : Nat} {es es' : List Event}
  {left : Supply} {reads writes : View} {due : Option Request} {r : Request} {x : r.Reply}

def linkSupply (s₀ : System) (k : Nat) (es : List Event) : Supply where
  values := valuesTo (.writing (linkChannel s₀ k)) es
  chunks := chunksTo (.writing (linkWriter s₀ k)) es

theorem linkSupply_append (k : Nat) :
    linkSupply s₀ k (es ++ es') = linkSupply s₀ k es ++ linkSupply s₀ k es' := by
  simp [linkSupply, Supply.append_def]

def supply (s₀ : System) (k : Nat) (es : List Event) : Supply :=
  if k = 0 then {} else linkSupply s₀ (k - 1) es

theorem supply_append (k : Nat) :
    supply s₀ k (es ++ es') = supply s₀ k es ++ supply s₀ k es' := by
  simp only [supply]
  split
  · rfl
  · exact linkSupply_append _

section Acts

variable (sound : template.Sound s₀) (act : (stageContext s₀ template n j).Act reads writes due r)
include sound act

theorem chunksInto_link (plumbed : Plumbed s₀ s (n - 1)) (lt : j < n) (k : Nat) :
    s.chunksInto (linkPipe s₀ k) [.asked r x] =
      chunksTo (.writing (linkWriter s₀ k)) [.asked r x] := by
  cases act with
  | @offerBytes _ _ w bytes output =>
    cases x with
    | error message => rfl
    | ok ticket =>
      have same : s.writingPipe? w = some (linkPipe s₀ k) ↔ StreamEnd.writing (linkWriter s₀ k) =
          .writing w := by
        rw [StreamEnd.writing.injEq]
        have place := place_of_write sound output
        constructor
        · intro pipe
          have := place_of_writingPipe sound plumbed output pipe
          grind [linkPipe, linkWriter]
        · rintro rfl
          refine plumbed.linkWriters k ?_
          grind [linkWriter]
      rw [System.chunksInto_offerBytes]
      by_cases here : s.writingPipe? w = some (linkPipe s₀ k)
      · simp [chunksTo, Event.chunkTo?, here, same.1 here]
      · simp [chunksTo, Event.chunkTo?, here, mt same.2 here]
  | _ => rfl

theorem linkSupply_other (differ : j ≠ k) : linkSupply s₀ k [.asked r x] = {} := by
  have values : valuesTo (.writing (linkChannel s₀ k)) [.asked r x] = [] := by
    refine valuesTo_of_act act fun output => ?_
    have place := place_of_offer sound output
    grind [linkChannel]
  have chunks : chunksTo (.writing (linkWriter s₀ k)) [.asked r x] = [] := by
    cases act with
    | @offerBytes _ _ w bytes output =>
      have place := place_of_write sound output
      have apart : linkWriter s₀ k ≠ w := by grind [linkWriter]
      cases x <;> simp [chunksTo, Event.chunkTo?, apart]
    | _ => rfl
  rw [linkSupply, values, chunks]

omit act in
theorem incoming_values {c : ChannelId}
    (input : (stageContext s₀ template n k).input.channel = .reading c) (later : 0 < k) :
    valuesTo (.writing c) [.asked r x] = (supply s₀ k [.asked r x]).values := by
  rcases place_of_take sound input with ⟨rfl, -⟩ | ⟨-, rfl⟩
  · cases later
  · rw [supply, if_neg (Nat.ne_of_gt later)]
    rfl

theorem incoming_chunks {q : ReaderId} {p : PipeId} (plumbed : Plumbed s₀ s (n - 1)) (ltj : j < n)
    (lt : k < n) (input : (stageContext s₀ template n k).input.stream = .reading q)
    (pipe : s.readingPipe? q = some p) (later : 0 < k) :
    s.chunksInto p [.asked r x] = (supply s₀ k [.asked r x]).chunks := by
  rcases place_of_readingPipe sound plumbed lt input pipe with ⟨rfl, -⟩ | ⟨-, rfl⟩
  · cases later
  · rw [supply, if_neg (Nat.ne_of_gt later), chunksInto_link sound act plumbed ltj]
    rfl

theorem before_turn (plumbed : Plumbed s₀ t (n - 1)) (earlier : j < k) (lt : k < n)
    (reply : r.perform? t = some (x, t'))
    (abreast : Abreast (stageContext s₀ template n k) s t {} left) :
    Abreast (stageContext s₀ template n k) s t' {} (left ++ supply s₀ k [.asked r x]) := by
  have ltj : j < n := by omega
  have later : 0 < k := by omega
  have apart := apart_stages sound plumbed ltj lt (Nat.ne_of_lt earlier)
  refine abreast.before (fares_of_act apart act reply) (fun c input => ?_) fun q p input pipe => ?_
  · rw [incoming_values sound input later]
    rfl
  · rw [incoming_chunks sound act plumbed ltj lt input pipe later]
    rfl

end Acts

theorem act_of_within {ctx : Context} {ev : Event} (asked : ∃ r x, ev = .asked r x ∧
      (ctx.Uses reads writes r ∨ ∃ r' y, ctx.Uses reads writes r' ∧ r'.due? y = some r)) :
    ∃ due r x, ev = .asked r x ∧ ctx.Act reads writes due r := by
  obtain ⟨r, x, rfl, uses | ⟨r', y, uses, due⟩⟩ := asked
  · exact ⟨none, r, x, rfl, Context.act_of_uses uses⟩
  · exact ⟨some r, r, x, rfl, Context.act_of_due uses due⟩

theorem before_turns (sound : template.Sound s₀) (earlier : j < k) (lt : k < n)
    (within : Within ((stageContext s₀ template n j).Uses reads writes) es) (after : t.After es t')
    (plumbed : Plumbed s₀ t (n - 1))
    (abreast : Abreast (stageContext s₀ template n k) s t {} left) :
    Abreast (stageContext s₀ template n k) s t' {} (left ++ supply s₀ k es) := by
  induction after generalizing left with
  | nil =>
    have none : supply s₀ k [] = {} := by simp [supply, linkSupply, valuesTo, chunksTo]
    rwa [none, Supply.append_empty]
  | @asked r x t₁ t₂ _ es reply _ ih =>
    obtain ⟨asked, others⟩ := List.forall_mem_cons.1 within
    obtain ⟨due, _, _, same, act⟩ := act_of_within asked
    cases same
    have plumbed₂ := plumbed.sameShape (Request.sameShape_perform act.isTransfer reply)
    have rest := ih others plumbed₂ (before_turn sound act plumbed earlier lt reply abreast)
    rw [show Event.asked r x :: es = [.asked r x] ++ es from rfl, supply_append]
    rwa [Supply.append_def, Supply.append_def, List.append_assoc, List.append_assoc] at rest
  | called _ _ =>
    obtain ⟨r, x, other, -⟩ := within _ (.head _)
    cases other

theorem supply_of_other (sound : template.Sound s₀)
    (within : Within ((stageContext s₀ template n j).Uses reads writes) es) (other : j + 1 ≠ k) :
    supply s₀ k es = {} := by
  by_cases first : k = 0
  · rw [supply, if_pos first]
  rw [supply, if_neg first]
  induction es with
  | nil => simp [linkSupply, valuesTo, chunksTo]
  | cons ev es ih =>
    obtain ⟨asked, others⟩ := List.forall_mem_cons.1 within
    obtain ⟨due, r, x, rfl, act⟩ := act_of_within asked
    rw [show Event.asked r x :: es = [.asked r x] ++ es from rfl, linkSupply_append, ih others,
      linkSupply_other sound act (by omega)]
    rfl

theorem sameShape_of_within {ctx : Context} (within : Within (ctx.Uses reads writes) es)
    (after : t.After es t') : t.SameShape t' := by
  induction after with
  | nil => exact .refl _
  | @asked r x t₁ t₂ _ es reply _ ih =>
    obtain ⟨asked, others⟩ := List.forall_mem_cons.1 within
    obtain ⟨due, _, _, same, act⟩ := act_of_within asked
    cases same
    exact (Request.sameShape_perform act.isTransfer reply).trans (ih others)
  | called _ _ =>
    obtain ⟨r, x, other, -⟩ := within _ (.head _)
    cases other

/-! ### Giving up the ends -/

theorem runs_releasing {α : Type} {a : α} {o : Outcome α} {ends : List PortEnd}
    {lefts : Nat → List PortEnd} (sound : template.Sound s₀) (lt : k < n)
    (accounts : Accounts s₀ template n t lefts) (whole : lefts k = ends)
    (run : Runs h (releasing a ends) t es o t') :
    Accounts s₀ template n t' (Function.update lefts k []) ∧ t.Alike t' ∧ Within Idle es := by
  induction ends generalizing t lefts es with
  | nil =>
    obtain ⟨rfl, -, rfl⟩ := runs_done.1 run
    exact ⟨by rwa [← whole, Function.update_eq_self], .refl t', nofun⟩
  | cons d ends ih =>
    obtain ⟨x, t₁, es₁, reply, rfl, rest⟩ := runs_request.1 run
    obtain ⟨y, released⟩ := perform_release (s := t) d
    rw [released] at reply
    cases reply
    obtain ⟨accounts', alike, idle⟩ :=
      ih (accounts.release sound lt whole) (Function.update_self ..) rest
    rw [Function.update_idem] at accounts'
    refine ⟨accounts', (System.alike_release t d).trans alike, fun ev mem => ?_⟩
    rcases List.mem_cons.1 mem with rfl | mem
    · exact ⟨d.releaseRequest, _, rfl, .inl (by cases d <;> rfl)⟩
    · exact idle ev mem

/-! ### All turns -/

structure Turns where
  start : Nat → System
  finish : Nat → System
  events : Nat → List Event
  signal : Nat → Signal

structure Turns.Of (turns : Turns) (h : Host) (s₀ : System) (template : Context) (n k i : Nat)
    (stage : Stage) (taken : Option (List Event × Signal)) : Prop where
  call : Runs h (stage.builtin.call (stageContext s₀ template n (k + i)) stage.args)
    (turns.start i) (turns.events i) (.returned (turns.signal i)) (turns.finish i)
  close : ∃ closing, taken = some (turns.events i ++ closing, turns.signal i) ∧
    Runs h (releasing (turns.signal i) (stageEnds s₀ template n (k + i))) (turns.finish i) closing
      (.returned (turns.signal i)) (turns.start (i + 1))

theorem runStage_eq (ctx : Context) (stage : Stage) : runStage ctx stage =
    (stage.builtin.call ctx stage.args).bind fun a => releasing a (endsOf ctx.ports) :=
  congrArg (Proc.bind (stage.builtin.call ctx stage.args)) (funext fun a => close_then ctx a)

theorem runs_releasing_answer {α : Type} {a : α} {o : Outcome α} {ends : List PortEnd}
    (run : Runs h (releasing a ends) t es o t') : o = .returned a := by
  obtain ⟨q, steps, outcome⟩ := run
  generalize hm : releasing a ends = m at steps
  induction steps generalizing ends with
  | refl => subst hm; exact (outcome_releasing outcome).2
  | head step _ ih =>
    subst hm
    obtain ⟨e, rest, x, -, rfl, -⟩ := step_releasing step
    exact ih outcome rfl

theorem exists_turns {stages : List Stage} {taken : List (List Event × Signal)}
    (inTurn : InTurn h ((stageContexts s₀ template n k stages.length).zipWith runStage stages) t
      taken t') :
    ∃ turns : Turns, turns.start 0 = t ∧ taken.length = stages.length ∧
      ∀ i stage, stages[i]? = some stage → turns.Of h s₀ template n k i stage taken[i]? := by
  induction stages generalizing k t taken with
  | nil =>
    cases inTurn
    exact ⟨⟨fun _ => t', fun _ => t', fun _ => [], fun _ => .ok⟩, rfl, rfl, nofun⟩
  | cons stage stages ih =>
    rw [List.length_cons, stageContexts_succ, List.zipWith_cons_cons] at inTurn
    cases inTurn with
    | @cons _ _ _ t₁ _ es sig others run rest =>
      obtain ⟨turns, begun, length, each⟩ := ih rest
      rw [runStage_eq] at run
      rcases runs_bind.1 run with ⟨message, other, -⟩ | ⟨a, T, closing, fin, rfl, call, close⟩
      · cases other
      · obtain rfl : sig = a := Outcome.returned.inj (runs_releasing_answer close)
        refine ⟨⟨fun i => i.casesOn t turns.start, fun i => i.casesOn fin turns.finish,
          fun i => i.casesOn T turns.events, fun i => i.casesOn sig turns.signal⟩, rfl,
          congrArg (· + 1) length, fun i stage' here => ?_⟩
        cases i with
        | zero =>
          cases here
          exact ⟨call, closing, rfl, by rw [← begun] at close; exact close⟩
        | succ i =>
          obtain ⟨call', closing', here', close'⟩ := each i stage' here
          rw [Nat.add_assoc, Nat.add_comm 1] at call' close'
          exact ⟨call', closing', here', close'⟩

def Viewed (stages : List Stage) (reads writes : Nat → View) : Prop :=
  ∀ (k : Nat) (stage : Stage), stages[k]? = some stage → ∀ (ctx : Context) (args : List Value),
    Heeds (ctx.Uses (reads k) (writes k)) Builtin.Refused none (stage.builtin.call ctx args)

theorem exists_viewed {stages : List Stage} (plain : ∀ stage ∈ stages,
      stage.builtin ∈ Builtin.standard ∧ stage.builtin.name ∈ Builtin.plainNames) :
    ∃ reads writes, Viewed stages reads writes := by
  induction stages with
  | nil => exact ⟨fun _ => .values, fun _ => .values, nofun⟩
  | cons stage stages ih =>
    obtain ⟨⟨standard, name⟩, others⟩ := List.forall_mem_cons.1 plain
    obtain ⟨reads₀, writes₀, heeds⟩ := Builtin.heeds_plain standard name
    obtain ⟨reads, writes, viewed⟩ := ih others
    refine ⟨fun i => i.casesOn reads₀ reads, fun i => i.casesOn writes₀ writes,
      fun k other here => ?_⟩
    cases k with
    | zero => cases here; exact heeds
    | succ k => exact viewed k other here

def endsAtTurn (s₀ : System) (template : Context) (n k : Nat) : Nat → List PortEnd :=
  fun j => if j < k then [] else stageEnds s₀ template n j

theorem update_endsAtTurn (k : Nat) : Function.update (endsAtTurn s₀ template n k) k [] =
    endsAtTurn s₀ template n (k + 1) := by
  funext j
  by_cases same : j = k
  · rw [same, Function.update_self, endsAtTurn, if_pos k.lt_succ_self]
  · rw [Function.update_of_ne same, endsAtTurn, endsAtTurn]
    by_cases earlier : j < k
    · rw [if_pos earlier, if_pos (by omega)]
    · rw [if_neg earlier, if_neg (by omega)]

theorem present_stage (sound : template.Sound s₀) (sized : Sized s₀ s (n - 1))
    (plumbed : Plumbed s₀ s (n - 1)) (lt : k < n) : (stageContext s₀ template n k).Present s := by
  obtain ⟨channels, pipes, readers, writers⟩ := sized
  constructor
  · intro c input
    have place := place_of_take sound input
    exact ⟨_, Array.getElem?_eq_getElem (by grind [linkChannel])⟩
  · intro q input
    have place := place_of_fill sound input
    exact ⟨_, Array.getElem?_eq_getElem (by grind [linkReader])⟩
  · intro q p input pipe
    have place := place_of_readingPipe sound plumbed lt input pipe
    exact ⟨_, Array.getElem?_eq_getElem (by grind [linkPipe])⟩
  · intro c output
    have place := place_of_offer sound output
    exact ⟨_, Array.getElem?_eq_getElem (by grind [linkChannel])⟩
  · intro w output
    have place := place_of_write sound output
    have here : s.writers[w.index]? = some _ := Array.getElem?_eq_getElem (by grind [linkWriter])
    exact ⟨_, by rw [System.target?, here]; rfl⟩
  · intro w p output pipe
    have place := place_of_writingPipe sound plumbed output pipe
    exact ⟨_, Array.getElem?_eq_getElem (by grind [linkPipe])⟩

structure Turns.Begun (turns : Turns) (s₀ : System) (template : Context) (n : Nat) (s : System)
    (k : Nat) : Prop where
  abreast : Abreast (stageContext s₀ template n k) s (turns.start k) {}
    (supply s₀ k (turns.events (k - 1)))
  accounts : Accounts s₀ template n (turns.start k) (endsAtTurn s₀ template n k)

section Begun

variable {stages : List Stage} {scopes : Nat} {turns : Turns}
  {taken : List (List Event × Signal)} {readsOf writesOf : Nat → View}

theorem begun_of_turns (sound : template.Sound s₀) (viewed : Viewed stages readsOf writesOf)
    (readyS : Ready s₀ s scopes (stages.length - 1) fun e =>
      holdsOf e ((stageContexts s₀ template stages.length 0 stages.length).flatMap (·.ports)))
    (readyT : Ready s₀ (turns.start 0) scopes (stages.length - 1) fun e =>
      holdsOf e ((stageContexts s₀ template stages.length 0 stages.length).flatMap (·.ports)))
    (each : ∀ i stage, stages[i]? = some stage →
      turns.Of h s₀ template stages.length 0 i stage taken[i]?) (lt : k < stages.length) :
    turns.Begun s₀ template stages.length s k := by
  -- The induction carries all stages that have not begun, as the turn of one of them must not
  -- disturb those that come later.
  suffices all : ∀ {k : Nat}, k < stages.length →
      Accounts s₀ template stages.length (turns.start k) (endsAtTurn s₀ template stages.length k) ∧
        ∀ j, k ≤ j → j < stages.length →
          Abreast (stageContext s₀ template stages.length j) s (turns.start k) {}
            (if j = k then supply s₀ k (turns.events (k - 1)) else {}) by
    obtain ⟨accounts, abreast⟩ := all lt
    have own := abreast k (Nat.le_refl k) lt
    rw [if_pos rfl] at own
    exact ⟨own, accounts⟩
  intro k lt
  induction k with
  | zero =>
    refine ⟨accounts_of_ready readyT, fun j _ ltj => ?_⟩
    have present := present_stage sound readyS.laid.sized readyS.kept.toPlumbed ltj
    have alike := System.alike_of_laid readyS.laid readyT.laid
    simpa [supply] using Abreast.of_alike present alike
  | succ k ih =>
    obtain ⟨accounts, abreast⟩ := ih (by omega)
    have here : stages[k]? = some stages[k] := List.getElem?_eq_getElem (by omega)
    obtain ⟨call, closing, -, close⟩ := each k stages[k] here
    rw [Nat.zero_add] at call close
    have within := (viewed k stages[k] here (stageContext s₀ template stages.length k)
      stages[k].args).runs call
    have called := accounts.sameShape (sameShape_of_within within call.after)
    have whole : endsAtTurn s₀ template stages.length k k =
        stageEnds s₀ template stages.length k := by
      rw [endsAtTurn, if_neg (Nat.lt_irrefl k)]
    obtain ⟨closed, alike, -⟩ := runs_releasing sound (by omega) called whole close
    rw [update_endsAtTurn] at closed
    refine ⟨closed, fun j le ltj => ?_⟩
    have waiting := abreast j (by omega) ltj
    rw [if_neg (by omega)] at waiting
    have after := before_turns sound (by omega) ltj within call.after accounts.kept.toPlumbed waiting
    rw [Supply.empty_append] at after
    split
    · next same =>
      subst same
      exact after.alike_second alike
    · next later =>
      rw [supply_of_other sound within (by omega)] at after
      exact after.alike_second alike

end Begun

end Pipeline

end Conduit
