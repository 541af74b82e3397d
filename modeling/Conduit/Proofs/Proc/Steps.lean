import Conduit.Proofs.Proc.Laws

/-!
Steps and runs of compound processes in terms of their parts.  A run of an attempt is a run of the
process attempted; what carries this is that the two stay in step.
-/

namespace Conduit

def Outcome.map {α β : Type} (f : α → β) : Outcome α → Outcome β
  | returned a => returned (f a)
  | panicked message => panicked message

namespace Proc

variable {α β : Type} {h : Host} {s s' s'' : System} {es es' : List Event}

theorem Step.safe {p p' : Proc α} (step : Step h p s es p' s') (hp : Safe p) : Safe p' := by
  cases step with
  | request => cases hp with | request rest => exact rest _
  | loop => cases hp with | loop turn rest => exact safe_unfold turn rest
  | host => cases hp with | host rest => exact safe_bind (safe_attempt _) rest
  | left => cases hp with | both rest => exact .both rest
  | right => cases hp with | both rest => exact .both rest
  | join => cases hp with | both rest => exact rest _ _

theorem unfold_bind {σ γ : Type} (state : σ) (body : σ → Proc (σ ⊕ β)) (next : β → Proc α)
    (f : α → Proc γ) :
    (unfold state body next).bind f = unfold state body fun b => (next b).bind f := by
  rw [unfold, bind_assoc]
  refine congrArg (Proc.bind (body state)) (funext fun x => ?_)
  cases x <;> rfl

theorem Step.bind {p p' : Proc α} (step : Step h p s es p' s') (f : α → Proc β) :
    Step h (p.bind f) s es (p'.bind f) s' := by
  cases step with
  | request reply => exact .request reply
  | loop => rw [unfold_bind]; exact .loop
  | host => rw [bind_assoc]; exact .host
  | left step => exact .left step
  | right step => exact .right step
  | join left right => exact .join left right

theorem Step.of_bind {p : Proc α} {f : α → Proc β} {q : Proc β}
    (step : Step h (p.bind f) s es q s') :
    (∃ a, p = .done a ∧ Step h (f a) s es q s') ∨
      ∃ p', q = p'.bind f ∧ Step h p s es p' s' := by
  cases p with
  | done a => exact .inl ⟨a, rfl, step⟩
  | panic message => cases step
  | request r next => cases step with | request reply => exact .inr ⟨_, rfl, .request reply⟩
  | loop state body next =>
    cases step with | loop => exact .inr ⟨_, (unfold_bind ..).symm, .loop⟩
  | host call next => cases step with | host => exact .inr ⟨_, (bind_assoc ..).symm, .host⟩
  | both p q next =>
    cases step with
    | left step => exact .inr ⟨_, rfl, .left step⟩
    | right step => exact .inr ⟨_, rfl, .right step⟩
    | join left right => exact .inr ⟨_, rfl, .join left right⟩

def Follows (p : Proc α) (q : Proc (Outcome α)) : Prop :=
  ∃ (γ : Type) (c : Proc γ) (f : γ → Proc α),
    Safe c ∧ p = c.bind f ∧ q = c.bind fun x => (f x).attempt

theorem follows_attempt (p : Proc α) : Follows p p.attempt :=
  ⟨Unit, .done (), fun _ => p, .done (), rfl, rfl⟩

theorem Follows.outcome {p : Proc α} {q : Proc (Outcome α)} (hf : Follows p q) :
    q.outcome? = p.outcome?.map .returned := by
  obtain ⟨γ, c, f, hc, rfl, rfl⟩ := hf
  cases hc with
  | done a =>
    simp only [Proc.bind]
    generalize f a = r
    cases r <;> rfl
  | request => rfl
  | loop => rfl
  | host => rfl
  | both => rfl

theorem attempt_unfold {σ : Type} (state : σ) (body : σ → Proc (σ ⊕ β)) (next : β → Proc α) :
    (unfold state body next).attempt =
      unfold state (fun x => (body x).attempt.bind fun o => done (endTurn o))
        (whenReturned fun b => (next b).attempt) := by
  rw [unfold, unfold, attempt_bind, bind_assoc]
  refine congrArg (Proc.bind (body state).attempt) (funext fun o => ?_)
  rcases o with (x | b) | message <;> rfl

theorem follows_of_step_attempt {p p' : Proc α} (step : Step h p s es p' s') :
    ∃ q', Step h p.attempt s es q' s' ∧ Follows p' q' := by
  cases step with
  | request reply => exact ⟨_, .request reply, follows_attempt _⟩
  | loop => exact ⟨_, .loop, by rw [← attempt_unfold]; exact follows_attempt _⟩
  | @host _ call next => exact ⟨_, .host, _, (h.run call).attempt, next, safe_attempt _, rfl, rfl⟩
  | left step => exact ⟨_, .left step, follows_attempt _⟩
  | right step => exact ⟨_, .right step, follows_attempt _⟩
  | join left right => exact ⟨_, .join left right, follows_attempt _⟩

theorem follows_of_attempt_step {p : Proc α} {q' : Proc (Outcome α)}
    (step : Step h p.attempt s es q' s') : ∃ p', Step h p s es p' s' ∧ Follows p' q' := by
  cases p with
  | done a => cases step
  | panic message => cases step
  | request r next =>
    cases step with | request reply => exact ⟨_, .request reply, follows_attempt _⟩
  | loop state body next =>
    cases step with
    | loop => exact ⟨_, .loop, by rw [← attempt_unfold]; exact follows_attempt _⟩
  | host call next =>
    cases step with
    | host => exact ⟨_, .host, _, (h.run call).attempt, next, safe_attempt _, rfl, rfl⟩
  | both p q next =>
    cases step with
    | left step => exact ⟨_, .left step, follows_attempt _⟩
    | right step => exact ⟨_, .right step, follows_attempt _⟩
    | join left right => exact ⟨_, .join left right, follows_attempt _⟩

theorem Follows.step {p p' : Proc α} {q : Proc (Outcome α)} (hf : Follows p q)
    (step : Step h p s es p' s') : ∃ q', Step h q s es q' s' ∧ Follows p' q' := by
  obtain ⟨γ, c, f, hc, rfl, rfl⟩ := hf
  rcases step.of_bind with ⟨a, rfl, first⟩ | ⟨c', rfl, first⟩
  · exact follows_of_step_attempt first
  · exact ⟨_, first.bind _, _, c', f, first.safe hc, rfl, rfl⟩

theorem Follows.step_back {p : Proc α} {q q' : Proc (Outcome α)} (hf : Follows p q)
    (step : Step h q s es q' s') : ∃ p', Step h p s es p' s' ∧ Follows p' q' := by
  obtain ⟨γ, c, f, hc, rfl, rfl⟩ := hf
  rcases step.of_bind with ⟨a, rfl, first⟩ | ⟨c', rfl, first⟩
  · exact follows_of_attempt_step first
  · exact ⟨_, first.bind _, _, c', f, first.safe hc, rfl, rfl⟩

theorem Steps.one {p p' : Proc α} (step : Step h p s es p' s') : Steps h p s es p' s' := by
  simpa using Steps.head step .refl

theorem Steps.trans {p p' p'' : Proc α} (first : Steps h p s es p' s')
    (rest : Steps h p' s' es' p'' s'') : Steps h p s (es ++ es') p'' s'' := by
  induction first with
  | refl => exact rest
  | head step _ ih => rw [List.append_assoc]; exact .head step (ih rest)

theorem Steps.bind {p p' : Proc α} (steps : Steps h p s es p' s') (f : α → Proc β) :
    Steps h (p.bind f) s es (p'.bind f) s' := by
  induction steps with
  | refl => exact .refl
  | head step _ ih => exact .head (step.bind f) ih

theorem no_step_of_outcome {p p' : Proc α} {o : Outcome α} (ho : p.outcome? = some o) :
    ¬ Step h p s es p' s' := by
  intro step
  cases step <;> cases ho

theorem Steps.of_outcome {p p' : Proc α} {o : Outcome α} (steps : Steps h p s es p' s')
    (ho : p.outcome? = some o) : es = [] ∧ p' = p ∧ s' = s := by
  cases steps with
  | refl => exact ⟨rfl, rfl, rfl⟩
  | head step _ => exact absurd step (no_step_of_outcome ho)

theorem runs_of_outcome {p : Proc α} {o : Outcome α} (ho : p.outcome? = some o)
    {o' : Outcome α} : Runs h p s es o' s' ↔ es = [] ∧ o' = o ∧ s' = s := by
  constructor
  · rintro ⟨q, steps, hq⟩
    obtain ⟨rfl, rfl, rfl⟩ := steps.of_outcome ho
    exact ⟨rfl, Option.some.inj (hq.symm.trans ho), rfl⟩
  · rintro ⟨rfl, rfl, rfl⟩
    exact ⟨p, .refl, ho⟩

theorem runs_done {a : α} {o : Outcome α} :
    Runs h (done a) s es o s' ↔ es = [] ∧ o = .returned a ∧ s' = s := runs_of_outcome rfl

theorem runs_panic {message : Option String} {o : Outcome α} :
    Runs h (panic message) s es o s' ↔ es = [] ∧ o = .panicked message ∧ s' = s :=
  runs_of_outcome rfl

theorem Runs.head {p p' : Proc α} {o : Outcome α} (step : Step h p s es p' s')
    (rest : Runs h p' s' es' o s'') : Runs h p s (es ++ es') o s'' := by
  obtain ⟨q, steps, hq⟩ := rest
  exact ⟨q, .head step steps, hq⟩

theorem runs_iff_step {p : Proc α} {o : Outcome α} (hp : p.outcome? = none) :
    Runs h p s es o s'' ↔ ∃ es₁ es₂ p' s', es = es₁ ++ es₂ ∧ Step h p s es₁ p' s' ∧
      Runs h p' s' es₂ o s'' := by
  constructor
  · rintro ⟨q, steps, hq⟩
    cases steps with
    | refl => rw [hp] at hq; cases hq
    | head step rest => exact ⟨_, _, _, _, rfl, step, q, rest, hq⟩
  · rintro ⟨es₁, es₂, p', s', rfl, step, rest⟩
    exact rest.head step

theorem runs_request {r : Request} {next : r.Reply → Proc α} {o : Outcome α} :
    Runs h (request r next) s es o s'' ↔ ∃ x s' es', r.perform? s = some (x, s') ∧
      es = .asked r x :: es' ∧ Runs h (next x) s' es' o s'' := by
  rw [runs_iff_step rfl]
  constructor
  · rintro ⟨es₁, es₂, p', s', rfl, step, rest⟩
    cases step with | request reply => exact ⟨_, _, _, reply, rfl, rest⟩
  · rintro ⟨x, s', es', reply, rfl, rest⟩
    exact ⟨_, _, _, _, rfl, .request reply, rest⟩

theorem runs_bind {p : Proc α} {f : α → Proc β} {o : Outcome β} :
    Runs h (p.bind f) s es o s'' ↔
      (∃ message, o = .panicked message ∧ Runs h p s es (.panicked message) s'') ∨
      ∃ a es₁ es₂ s', es = es₁ ++ es₂ ∧ Runs h p s es₁ (.returned a) s' ∧
        Runs h (f a) s' es₂ o s'' := by
  constructor
  · rintro ⟨q, steps, hq⟩
    -- By the steps of the whole: each is one of `p` until `p` has its answer, from where they are
    -- all of `f a`.
    generalize hm : p.bind f = m at steps
    induction steps generalizing p with
    | refl =>
      subst hm
      cases p with
      | done a => exact .inr ⟨a, [], [], _, rfl, runs_done.2 ⟨rfl, rfl, rfl⟩, _, .refl, hq⟩
      | panic message =>
        exact .inl ⟨message, (Option.some.inj hq).symm, runs_panic.2 ⟨rfl, rfl, rfl⟩⟩
      | request => cases hq
      | loop => cases hq
      | host => cases hq
      | both => cases hq
    | head step rest ih =>
      subst hm
      rcases step.of_bind with ⟨a, rfl, first⟩ | ⟨p', rfl, first⟩
      · exact .inr ⟨a, [], _, _, rfl, runs_done.2 ⟨rfl, rfl, rfl⟩, _, .head first rest, hq⟩
      · rcases ih hq rfl with ⟨message, rfl, run⟩ | ⟨a, es₁, es₂, s₁, rfl, run, final⟩
        · exact .inl ⟨message, rfl, run.head first⟩
        · exact .inr ⟨a, _, es₂, s₁, (List.append_assoc ..).symm, run.head first, final⟩
  · rintro (⟨message, rfl, q, steps, hq⟩ | ⟨a, es₁, es₂, s₁, rfl, ⟨q, steps, hq⟩, rest⟩)
    · cases q <;> cases hq
      exact ⟨_, steps.bind f, rfl⟩
    · cases q <;> cases hq
      obtain ⟨q', steps', hq'⟩ := rest
      exact ⟨q', (steps.bind f).trans steps', hq'⟩

theorem Steps.of_bind {p : Proc α} {f : α → Proc β} {q : Proc β}
    (steps : Steps h (p.bind f) s es q s') :
    (∃ p', q = p'.bind f ∧ Steps h p s es p' s') ∨
      ∃ a es₁ es₂ s₁, es = es₁ ++ es₂ ∧ Runs h p s es₁ (.returned a) s₁ ∧
        Steps h (f a) s₁ es₂ q s' := by
  generalize hm : p.bind f = m at steps
  induction steps generalizing p with
  | refl => exact .inl ⟨p, hm.symm, .refl⟩
  | head step rest ih =>
    subst hm
    rcases step.of_bind with ⟨a, rfl, first⟩ | ⟨p₁, rfl, first⟩
    · exact .inr ⟨a, [], _, _, rfl, runs_done.2 ⟨rfl, rfl, rfl⟩, .head first rest⟩
    · rcases ih rfl with ⟨p', rfl, others⟩ | ⟨a, es₁, es₂, s₁, rfl, run, others⟩
      · exact .inl ⟨p', rfl, .head first others⟩
      · exact .inr ⟨a, _, es₂, s₁, (List.append_assoc ..).symm, run.head first, others⟩

theorem runs_iterate {σ : Type} {body : σ → Proc (σ ⊕ β)}
    {motive : σ → System → List Event → Outcome β → System → Prop}
    (broken : ∀ {x s es message s'}, Runs h (body x) s es (.panicked message) s' →
      motive x s es (.panicked message) s')
    (answered : ∀ {x s es b s'}, Runs h (body x) s es (.returned (.inr b)) s' →
      motive x s es (.returned b) s')
    (again : ∀ {x s es y s₁ es' o s'}, Runs h (body x) s es (.returned (.inl y)) s₁ →
      motive y s₁ es' o s' → motive x s (es ++ es') o s')
    {x : σ} {o : Outcome β} (run : Runs h (iterate x body) s es o s') : motive x s es o s' := by
  let rest : σ ⊕ β → Proc β
    | .inl y => iterate y body
    | .inr b => done b
  have unfolded (x : σ) : unfold x body done = (body x).bind rest :=
    congrArg (Proc.bind (body x)) (funext fun y => by cases y <;> rfl)
  -- Where a run stands inside a turn, what is left of the turn is `c`, begun at `s₀`.
  suffices inside : ∀ {p q : Proc β} {s s' : System} {es : List Event}, Steps h p s es q s' →
      q.outcome? = some o → ∀ {x : σ} {c : Proc (σ ⊕ β)} {s₀ : System} {es₀ : List Event},
        Steps h (body x) s₀ es₀ c s → p = c.bind rest → motive x s₀ (es₀ ++ es) o s' by
    obtain ⟨es₁, es₂, p, s₁, rfl, step, q, steps, hq⟩ := (runs_iff_step rfl).1 run
    cases step with
    | loop => exact inside steps hq .refl (unfolded x)
  intro p q s s' es steps hq
  induction steps with
  | refl =>
    intro x c s₀ es₀ begun hp
    subst hp
    rw [List.append_nil]
    cases c with
    | done a =>
      rcases a with y | b
      · cases hq
      · cases hq
        exact answered ⟨_, begun, rfl⟩
    | panic message =>
      cases hq
      exact broken ⟨_, begun, rfl⟩
    | request => cases hq
    | loop => cases hq
    | host => cases hq
    | both => cases hq
  | @head p p' p'' s s₁ s₂ es₁ es₂ step others ih =>
    intro x c s₀ es₀ begun hp
    subst hp
    rcases step.of_bind with ⟨a, rfl, first⟩ | ⟨c', rfl, first⟩
    · rcases a with y | b
      · cases first with
        | loop => exact again ⟨_, begun, rfl⟩ (ih hq .refl (unfolded y))
      · cases first
    · rw [← List.append_assoc]
      exact ih hq (begun.trans (.one first)) rfl

theorem Follows.runs {p : Proc α} {q : Proc (Outcome α)} {o : Outcome α} (hf : Follows p q)
    (run : Runs h p s es o s') : Runs h q s es (.returned o) s' := by
  obtain ⟨p', steps, hp⟩ := run
  induction steps generalizing q with
  | refl => exact ⟨q, .refl, by rw [hf.outcome, hp]; rfl⟩
  | head step _ ih =>
    obtain ⟨q', step', hf'⟩ := hf.step step
    exact (ih hf' hp).head step'

theorem Follows.runs_back {p : Proc α} {q : Proc (Outcome α)} {o : Outcome (Outcome α)}
    (hf : Follows p q) (run : Runs h q s es o s') :
    ∃ o', o = .returned o' ∧ Runs h p s es o' s' := by
  obtain ⟨q', steps, hq⟩ := run
  induction steps generalizing p with
  | refl =>
    rw [hf.outcome, Option.map_eq_some_iff] at hq
    obtain ⟨o', ho, rfl⟩ := hq
    exact ⟨o', rfl, p, .refl, ho⟩
  | head step _ ih =>
    obtain ⟨p', step', hf'⟩ := hf.step_back step
    obtain ⟨o', rfl, run⟩ := ih hf' hq
    exact ⟨o', rfl, run.head step'⟩

theorem runs_attempt {p : Proc α} {o : Outcome (Outcome α)} :
    Runs h p.attempt s es o s' ↔ ∃ o', o = .returned o' ∧ Runs h p s es o' s' := by
  constructor
  · exact (follows_attempt p).runs_back
  · rintro ⟨o', rfl, run⟩
    exact (follows_attempt p).runs run

theorem runs_map {p : Proc α} {f : α → β} {o : Outcome β} :
    Runs h (p.bind fun a => done (f a)) s es o s' ↔ ∃ o', o = o'.map f ∧ Runs h p s es o' s' := by
  rw [runs_bind]
  constructor
  · rintro (⟨message, rfl, run⟩ | ⟨a, es₁, es₂, s₁, rfl, run, last⟩)
    · exact ⟨.panicked message, rfl, run⟩
    · obtain ⟨rfl, rfl, rfl⟩ := runs_done.1 last
      exact ⟨.returned a, rfl, by rwa [List.append_nil]⟩
  · rintro ⟨a | message, rfl, run⟩
    · exact .inr ⟨a, es, [], s', by rw [List.append_nil], run, runs_done.2 ⟨rfl, rfl, rfl⟩⟩
    · exact .inl ⟨message, rfl, run⟩

theorem runs_host {call : HostCall} {next : Outcome call.Answer → Proc α} {o : Outcome α} :
    Runs h (host call next) s es o s'' ↔ ∃ x es₁ es₂ s', es = .called call :: (es₁ ++ es₂) ∧
      Runs h (h.run call) s es₁ x s' ∧ Runs h (next x) s' es₂ o s'' := by
  rw [runs_iff_step rfl]
  constructor
  · rintro ⟨es₁, es₂, p', s', rfl, step, rest⟩
    cases step
    rcases runs_bind.1 rest with ⟨message, rfl, run⟩ | ⟨x, es₁, es₂, s₁, rfl, run, rest⟩
    · obtain ⟨o', h', -⟩ := runs_attempt.1 run
      cases h'
    · obtain ⟨o', h', run⟩ := runs_attempt.1 run
      cases h'
      exact ⟨x, es₁, es₂, s₁, rfl, run, rest⟩
  · rintro ⟨x, es₁, es₂, s', rfl, run, rest⟩
    exact ⟨_, _, _, _, rfl, .host, runs_bind.2 (.inr ⟨x, es₁, es₂, s', rfl,
      runs_attempt.2 ⟨x, rfl, run⟩, rest⟩)⟩

theorem runs_ask {r : Request} {o : Outcome r.Reply} :
    Runs h (ask r) s es o s' ↔
      ∃ x, r.perform? s = some (x, s') ∧ es = [.asked r x] ∧ o = .returned x := by
  rw [ask, runs_request]
  constructor
  · rintro ⟨x, s₁, es', reply, rfl, rest⟩
    obtain ⟨rfl, rfl, rfl⟩ := runs_done.1 rest
    exact ⟨x, reply, rfl, rfl⟩
  · rintro ⟨x, reply, rfl, rfl⟩
    exact ⟨x, s', [], reply, rfl, runs_done.2 ⟨rfl, rfl, rfl⟩⟩

theorem outcome?_ofOutcome (x : Outcome α) : (ofOutcome x).outcome? = some x := by
  cases x <;> rfl

theorem runs_ofOutcome {x o : Outcome α} :
    Runs h (ofOutcome x) s es o s' ↔ es = [] ∧ o = x ∧ s' = s :=
  runs_of_outcome (outcome?_ofOutcome x)

theorem runs_runHost {call : HostCall} {o : Outcome call.Answer} :
    Runs h (runHost call) s es o s' ↔
      ∃ es', es = .called call :: es' ∧ Runs h (h.run call) s es' o s' := by
  rw [runHost, runs_host]
  constructor
  · rintro ⟨x, es₁, es₂, s₁, rfl, run, rest⟩
    obtain ⟨rfl, rfl, rfl⟩ := runs_ofOutcome.1 rest
    exact ⟨es₁, by rw [List.append_nil], run⟩
  · rintro ⟨es', rfl, run⟩
    exact ⟨o, es', [], s', by rw [List.append_nil], run, runs_ofOutcome.2 ⟨rfl, rfl, rfl⟩⟩

end Proc

end Conduit
