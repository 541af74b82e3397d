import Conduit.Proofs.Proc.Steps

/-!
Processes that come to their end however they are scheduled, and what the runner finds of them.
-/

namespace Conduit.Proc

variable {α β γ : Type} {h : Host} {s s' s'' : System} {es es' : List Event}

theorem Follows.terminates {p : Proc α} {q : Proc (Outcome α)} (hf : Follows p q)
    (hp : Terminates h p s) : Terminates h q s := by
  induction hp generalizing q with
  | ended outcome => exact .ended (o := .returned _) (by rw [hf.outcome, outcome]; rfl)
  | step able _ ih =>
    refine .step ?_ fun es q' s' step => ?_
    · obtain ⟨es, p', s', step⟩ := able
      obtain ⟨q', step', -⟩ := hf.step step
      exact ⟨es, q', s', step'⟩
    · obtain ⟨p', step', hf'⟩ := hf.step_back step
      exact ih es p' s' step' hf'

theorem Follows.steps {p p' : Proc α} {q : Proc (Outcome α)} (hf : Follows p q)
    (steps : Steps h p s es p' s') : ∃ q', Steps h q s es q' s' ∧ Follows p' q' := by
  induction steps generalizing q with
  | refl => exact ⟨q, .refl, hf⟩
  | head step _ ih =>
    obtain ⟨q', step', hf'⟩ := hf.step step
    obtain ⟨q'', steps', hf''⟩ := ih hf'
    exact ⟨q'', .head step' steps', hf''⟩

theorem Follows.host {call : HostCall} {next : Outcome call.Answer → Proc α}
    {q : Proc (Outcome α)} (hf : Follows (host call next) q) : ∃ next', q = host call next' := by
  obtain ⟨γ, c, f, -, hp, rfl⟩ := hf
  cases c with
  | done a =>
    have hf : f a = Proc.host call next := hp.symm
    exact ⟨_, congrArg attempt hf⟩
  | host other rest =>
    cases hp
    exact ⟨_, rfl⟩
  | panic => cases hp
  | request => cases hp
  | loop => cases hp
  | both => cases hp

theorem terminates_attempt {p : Proc α} (hp : Terminates h p s) : Terminates h p.attempt s :=
  (follows_attempt p).terminates hp

theorem terminates_bind {p : Proc α} {f : α → Proc β} (hp : Terminates h p s)
    (hf : ∀ es a s', Runs h p s es (.returned a) s' → Terminates h (f a) s') :
    Terminates h (p.bind f) s := by
  induction hp with
  | @ended p s o outcome =>
    cases p with
    | done a => exact hf [] a s (runs_done.2 ⟨rfl, rfl, rfl⟩)
    | panic message => exact .ended (o := .panicked message) rfl
    | request => cases outcome
    | loop => cases outcome
    | host => cases outcome
    | both => cases outcome
  | step able _ ih =>
    obtain ⟨es, p', s', first⟩ := able
    refine .step ⟨es, _, s', first.bind f⟩ fun es q s₁ step => ?_
    rcases step.of_bind with ⟨a, rfl, -⟩ | ⟨p₁, rfl, next⟩
    · cases first
    · exact ih es p₁ s₁ next fun es' a s₂ run => hf _ a s₂ (run.head next)

theorem terminates_done (a : α) : Terminates h (done a) s := .ended (o := .returned a) rfl

theorem terminates_request {r : Request} {x : r.Reply} {next : r.Reply → Proc α}
    (reply : r.perform? s = some (x, s')) (rest : Terminates h (next x) s') :
    Terminates h (request r next) s := by
  refine .step ⟨_, _, _, .request reply⟩ fun es p' s₁ step => ?_
  cases step with
  | request other =>
    rw [reply] at other
    cases other
    exact rest

theorem terminates_ask_bind {r : Request} {x : r.Reply} {f : r.Reply → Proc α}
    (reply : r.perform? s = some (x, s')) (rest : Terminates h (f x) s') :
    Terminates h (ask r >>= f) s := terminates_request reply rest

theorem terminates_loop {σ : Type} {state : σ} {body : σ → Proc (σ ⊕ β)} {next : β → Proc α}
    (rest : Terminates h (unfold state body next) s) :
    Terminates h (loop state body next) s := by
  refine .step ⟨_, _, _, .loop⟩ fun es p' s₁ step => ?_
  cases step with
  | loop => exact rest

theorem terminates_host {call : HostCall} {next : Outcome call.Answer → Proc α}
    (body : Terminates h (h.run call) s)
    (rest : ∀ es o s', Runs h (h.run call) s es o s' → Terminates h (next o) s') :
    Terminates h (host call next) s := by
  refine .step ⟨_, _, _, .host⟩ fun es p' s₁ step => ?_
  cases step with
  | host =>
    refine terminates_bind (terminates_attempt body) fun es o s' run => ?_
    obtain ⟨o', ho, run⟩ := runs_attempt.1 run
    cases ho
    exact rest es o s' run

theorem terminates_ofOutcome (x : Outcome α) : Terminates h (ofOutcome x) s :=
  .ended (outcome?_ofOutcome x)

theorem terminates_runHost {call : HostCall} (body : Terminates h (h.run call) s) :
    Terminates h (runHost call) s :=
  terminates_host body fun _ o _ _ => terminates_ofOutcome o

/-! ### Processes that never wait for ever -/

/-- Whatever steps have been taken, there is one left to take until the process has ended. -/
def NeverBlocks (h : Host) (p : Proc α) (s : System) : Prop :=
  ∀ es q s', Steps h p s es q s' → q.outcome? = none → ∃ es' q' s'', Step h q s' es' q' s''

theorem neverBlocks_of_terminates {p : Proc α} (hp : Terminates h p s) : NeverBlocks h p s := by
  intro es q s' steps
  induction hp generalizing es with
  | ended outcome =>
    obtain ⟨-, rfl, -⟩ := steps.of_outcome outcome
    intro none
    rw [outcome] at none
    cases none
  | step able _ ih =>
    cases steps with
    | refl => exact fun _ => able
    | head first rest => exact ih _ _ _ first _ rest

theorem NeverBlocks.bind {p : Proc α} {f : α → Proc β} (first : NeverBlocks h p s)
    (rest : ∀ es a s', Runs h p s es (.returned a) s' → NeverBlocks h (f a) s') :
    NeverBlocks h (p.bind f) s := by
  intro es q s' steps unfinished
  rcases steps.of_bind with ⟨p', rfl, sofar⟩ | ⟨a, es₁, es₂, s₁, rfl, run, rest'⟩
  · cases outcome : p'.outcome? with
    | none =>
      obtain ⟨es', p'', s'', step⟩ := first es p' s' sofar outcome
      exact ⟨es', _, s'', step.bind f⟩
    | some o =>
      cases p' with
      | done a => exact rest es a s' ⟨_, sofar, rfl⟩ [] _ s' .refl unfinished
      | panic message => cases unfinished
      | request => cases outcome
      | loop => cases outcome
      | host => cases outcome
      | both => cases outcome
  · exact rest es₁ a s₁ run es₂ q s' rest' unfinished

/-- Every call of host code that the process comes to ends. -/
def CallsEnd (h : Host) (p : Proc α) (s : System) : Prop :=
  ∀ es call next s', Steps h p s es (.host call next) s' → Terminates h (h.run call) s'

namespace CallsEnd

theorem step {p p' : Proc α} (ends : CallsEnd h p s) (first : Step h p s es p' s') :
    CallsEnd h p' s' :=
  fun es' call next s₁ steps => ends (es ++ es') call next s₁ (.head first steps)

theorem ask_bind {r : Request} {x : r.Reply} {f : r.Reply → Proc α}
    (ends : CallsEnd h (ask r >>= f) s) (reply : r.perform? s = some (x, s')) :
    CallsEnd h (f x) s' := ends.step (.request reply)

theorem of_loop {σ : Type} {state : σ} {body : σ → Proc (σ ⊕ β)} {next : β → Proc α}
    (ends : CallsEnd h (loop state body next) s) : CallsEnd h (unfold state body next) s :=
  ends.step .loop

theorem of_bind {p : Proc α} {f : α → Proc β} (ends : CallsEnd h (p.bind f) s) : CallsEnd h p s :=
  fun es call _ s' steps => ends es call _ s' (steps.bind f)

theorem bind {p : Proc α} {f : α → Proc β} {a : α} (ends : CallsEnd h (p.bind f) s)
    (run : Runs h p s es (.returned a) s') : CallsEnd h (f a) s' := by
  obtain ⟨q, steps, hq⟩ := run
  intro es' call next s₁ rest
  cases q <;> cases hq
  exact ends (es ++ es') call next s₁ ((steps.bind f).trans rest)

theorem of_attempt {p : Proc α} (ends : CallsEnd h p.attempt s) : CallsEnd h p s := by
  intro es call next s' steps
  obtain ⟨q, steps', hf⟩ := (follows_attempt p).steps steps
  obtain ⟨next', rfl⟩ := hf.host
  exact ends es call next' s' steps'

theorem run {call : HostCall} {next : Outcome call.Answer → Proc α}
    (ends : CallsEnd h (host call next) s) : Terminates h (h.run call) s :=
  ends [] call next s .refl

end CallsEnd

def heard (h : Host) : {α : Type} → Proc α → System → List Event
  | _, .request r _, s => (r.perform? s).toList.map fun (x, _) => .asked r x
  | _, .host call _, _ => [.called call]
  | _, .both p q _, s => if (step? h p s).isSome then heard h p s else heard h q s
  | _, _, _ => []

theorem step_heard {p p' : Proc α} (step : step? h p s = some (p', s')) :
    Step h p s (heard h p s) p' s' := by
  induction p with
  | done a => cases step
  | panic message => cases step
  | request r next =>
    obtain ⟨⟨x, s₁⟩, reply, hs⟩ := Option.map_eq_some_iff.1 step
    cases hs
    rw [heard, reply]
    exact .request reply
  | loop state body next => cases step; exact .loop
  | host call next => cases step; exact .host
  | both p q next ihp ihq =>
    rw [heard]
    simp only [step?] at step
    split at step
    · next first =>
      cases step
      rw [first]
      exact .left (ihp first)
    · next waits =>
      rw [waits]
      split at step
      · next first =>
        cases step
        exact .right (ihq first)
      · split at step
        · next left right =>
          cases step
          have silent : heard h q s = [] := by cases q <;> first | rfl | cases right
          simp only [silent, Option.isSome_none, Bool.false_eq_true, ↓reduceIte]
          exact .join left right
        · cases step

theorem step_of_step? {p p' : Proc α} (step : step? h p s = some (p', s')) :
    ∃ es, Step h p s es p' s' := ⟨_, step_heard step⟩

theorem step?_isSome {p p' : Proc α} (step : Step h p s es p' s') : (step? h p s).isSome := by
  induction step with
  | request reply => simp [step?, reply]
  | loop => rfl
  | host => rfl
  | left _ ih =>
    obtain ⟨c, hc⟩ := Option.isSome_iff_exists.1 ih
    simp [step?, hc]
  | right _ ih =>
    obtain ⟨c, hc⟩ := Option.isSome_iff_exists.1 ih
    simp only [step?, hc]
    split <;> rfl
  | join left right =>
    simp only [step?, left, right]
    split
    · rfl
    · split <;> rfl

def trace (h : Host) : Nat → Proc α → System → List Event
  | 0, _, _ => []
  | fuel + 1, p, s =>
    match step? h p s with
    | some (p', s') => heard h p s ++ trace h fuel p' s'
    | none => []

theorem runs_trace {p : Proc α} {n : Nat} {o : Outcome α} (ran : run h n p s = (some o, s')) :
    Runs h p s (trace h n p s) o s' := by
  induction n generalizing p s with
  | zero =>
    obtain ⟨outcome, rfl⟩ := Prod.mk.inj ran
    exact ⟨p, .refl, outcome⟩
  | succ n ih =>
    rw [trace]
    cases first : step? h p s with
    | none =>
      rw [run, exec_of_no_step first] at ran
      obtain ⟨outcome, rfl⟩ := Prod.mk.inj ran
      exact ⟨p, .refl, outcome⟩
    | some c =>
      rw [run, exec_succ_of_step first] at ran
      exact (ih ran).head (step_heard first)

theorem runs_of_run {p : Proc α} {n : Nat} {o : Outcome α} (ran : run h n p s = (some o, s')) :
    ∃ es, Runs h p s es o s' := ⟨_, runs_trace ran⟩

theorem exists_run_of_terminates {p : Proc α} (hp : Terminates h p s) :
    ∃ n o s', run h n p s = (some o, s') := by
  induction hp with
  | @ended p s o outcome => exact ⟨0, o, s, by simp [run, exec, outcome]⟩
  | @step p s able _ ih =>
    obtain ⟨es, p', s', step⟩ := able
    obtain ⟨⟨p₁, s₁⟩, first⟩ := Option.isSome_iff_exists.1 (step?_isSome step)
    obtain ⟨es₁, step₁⟩ := step_of_step? first
    obtain ⟨n, o, s₂, ran⟩ := ih es₁ p₁ s₁ step₁
    exact ⟨n + 1, o, s₂, by rw [run, exec_succ_of_step first]; exact ran⟩

end Conduit.Proc
