import Conduit.Proofs.Proc.Termination

/-!
Processes side by side: what every step of one of them preserves holds until all have come to their
ends, in whatever order they take their steps; and while not all have ended, a step is left to take
if one of those that have not can go on.
-/

namespace Conduit.Proc

variable {α β γ : Type} {h : Host} {s s' : System} {es : List Event}

inductive Does (h : Host) (p : Proc α) : List Event → Proc α → Prop
  | nothing : Does h p [] p
  | next {p' p'' : Proc α} {s s' : System} {es es' : List Event} (before : Does h p es p')
      (step : Step h p' s es' p'' s') : Does h p (es ++ es') p''

section Both

variable {p : Proc β} {q : Proc γ} {next : Outcome β → Outcome γ → Proc α}

theorem steps_both {m : Proc α} {motive : Proc β → Proc γ → System → List Event → Prop}
    (start : motive p q s [])
    (left : ∀ {p q s es es' p' s'}, motive p q s es → Step h p s es' p' s' →
      motive p' q s' (es ++ es'))
    (right : ∀ {p q s es es' q' s'}, motive p q s es → Step h q s es' q' s' →
      motive p q' s' (es ++ es'))
    (steps : Steps h (both p q next) s es m s') :
    (∃ p' q', m = both p' q' next ∧ motive p' q' s' es) ∨
    ∃ p' q' x y s₁ es₁ es₂, es = es₁ ++ es₂ ∧ motive p' q' s₁ es₁ ∧ p'.outcome? = some x ∧
      q'.outcome? = some y ∧ Steps h (next x y) s₁ es₂ m s' := by
  suffices from_ : ∀ {m₀ : Proc α} {s : System} {es : List Event}, Steps h m₀ s es m s' →
      ∀ {p q es₀}, m₀ = both p q next → motive p q s es₀ →
        (∃ p' q', m = both p' q' next ∧ motive p' q' s' (es₀ ++ es)) ∨
        ∃ p' q' x y s₁ es₁ es₂, es₀ ++ es = es₁ ++ es₂ ∧ motive p' q' s₁ es₁ ∧
          p'.outcome? = some x ∧ q'.outcome? = some y ∧ Steps h (next x y) s₁ es₂ m s' by
    simpa using from_ steps rfl start
  clear steps
  intro m₀ s es steps
  induction steps with
  | refl =>
    rintro p q es₀ rfl holds
    exact .inl ⟨p, q, rfl, by rwa [List.append_nil]⟩
  | head step rest ih =>
    rintro p q es₀ rfl holds
    cases step with
    | left step => simpa using ih rfl (left holds step)
    | right step => simpa using ih rfl (right holds step)
    | join hx hy =>
      exact .inr ⟨p, q, _, _, _, es₀, _, by rw [List.nil_append], holds, hx, hy, rest⟩

theorem runs_both {o : Outcome α} {motive : Proc β → Proc γ → System → List Event → Prop}
    (start : motive p q s [])
    (left : ∀ {p q s es es' p' s'}, motive p q s es → Step h p s es' p' s' →
      motive p' q s' (es ++ es'))
    (right : ∀ {p q s es es' q' s'}, motive p q s es → Step h q s es' q' s' →
      motive p q' s' (es ++ es'))
    (run : Runs h (both p q next) s es o s') : ∃ p' q' x y s₁ es₁ es₂, es = es₁ ++ es₂ ∧
      motive p' q' s₁ es₁ ∧ p'.outcome? = some x ∧ q'.outcome? = some y ∧
      Runs h (next x y) s₁ es₂ o s' := by
  obtain ⟨r, steps, outcome⟩ := run
  rcases steps_both start left right steps with ⟨_, _, rfl, -⟩ |
    ⟨p', q', x, y, s₁, es₁, es₂, split, holds, hx, hy, rest⟩
  · cases outcome
  · exact ⟨p', q', x, y, s₁, es₁, es₂, split, holds, hx, hy, r, rest, outcome⟩

theorem terminates_both {motive : Nat → Proc β → Proc γ → System → Prop} {n : Nat}
    (start : motive n p q s)
    (left : ∀ {n p q s es p' s'}, motive n p q s → Step h p s es p' s' →
      ∃ m < n, motive m p' q s')
    (right : ∀ {n p q s es q' s'}, motive n p q s → Step h q s es q' s' →
      ∃ m < n, motive m p q' s')
    (able : ∀ {n p q s}, motive n p q s → p.outcome? = none ∨ q.outcome? = none →
      (∃ es p' s', Step h p s es p' s') ∨ ∃ es q' s', Step h q s es q' s')
    (rest : ∀ {n p q s x y}, motive n p q s → p.outcome? = some x → q.outcome? = some y →
      Terminates h (next x y) s) : Terminates h (both p q next) s := by
  induction n using Nat.strongRecOn generalizing p q s with
  | _ n ih =>
    refine .step ?_ fun es m s' step => ?_
    · by_cases busy : p.outcome? = none ∨ q.outcome? = none
      · rcases able start busy with ⟨es, p', s', step⟩ | ⟨es, q', s', step⟩
        · exact ⟨es, _, s', .left step⟩
        · exact ⟨es, _, s', .right step⟩
      · obtain ⟨first, second⟩ := not_or.1 busy
        obtain ⟨x, hx⟩ := Option.ne_none_iff_exists'.1 first
        obtain ⟨y, hy⟩ := Option.ne_none_iff_exists'.1 second
        exact ⟨[], _, s, .join hx hy⟩
    · cases step with
      | left step =>
        obtain ⟨m, lower, holds⟩ := left start step
        exact ih m lower holds
      | right step =>
        obtain ⟨m, lower, holds⟩ := right start step
        exact ih m lower holds
      | join hx hy => exact rest start hx hy

end Both

/-! ### Any number of processes -/

inductive Beside : Proc (List (Outcome α)) → List (Proc α) → Prop
  | nil : Beside (done []) []
  | both {p : Proc α} {q : Proc (List (Outcome α))} {ps : List (Proc α)} (rest : Beside q ps) :
      Beside (.both p q fun x xs => (ofOutcome xs).bind fun xs => done (x :: xs)) (p :: ps)
  | ended {p : Proc α} {ps : List (Proc α)} {x : Outcome α} {xs : List (Outcome α)}
      (outcome : p.outcome? = some x) (rest : Beside (done xs) ps) :
      Beside (done (x :: xs)) (p :: ps)

theorem beside_concurrently (ps : List (Proc α)) : Beside (concurrently ps) ps := by
  induction ps with
  | nil => exact .nil
  | cons p ps ih => exact .both ih

namespace Beside

variable {q q' : Proc (List (Outcome α))} {ps : List (Proc α)}

theorem outcomes {xs : List (Outcome α)} (beside : Beside (done xs) ps) :
    ps.map outcome? = xs.map some := by
  generalize hq : done xs = q at beside
  induction beside generalizing xs with
  | nil => cases hq; rfl
  | both => cases hq
  | ended outcome _ ih =>
    cases hq
    rw [List.map_cons, List.map_cons, outcome, ih rfl]

theorem outcome {o : Outcome (List (Outcome α))} (beside : Beside q ps)
    (outcome : q.outcome? = some o) : ∃ xs, q = done xs ∧ o = .returned xs := by
  cases beside with
  | nil => cases outcome; exact ⟨_, rfl, rfl⟩
  | both => cases outcome
  | ended _ _ => cases outcome; exact ⟨_, rfl, rfl⟩

theorem step (beside : Beside q ps) (step : Step h q s es q' s') :
    es = [] ∧ s' = s ∧ Beside q' ps ∨
      ∃ k p p', ps[k]? = some p ∧ Step h p s es p' s' ∧ Beside q' (ps.set k p') := by
  induction beside generalizing q' with
  | nil => cases step
  | ended => cases step
  | @both p q ps rest ih =>
    cases step with
    | left first => exact .inr ⟨0, p, _, rfl, first, .both rest⟩
    | right others =>
      rcases ih others with ⟨rfl, rfl, beside⟩ | ⟨k, p₁, p', here, first, beside⟩
      · exact .inl ⟨rfl, rfl, .both beside⟩
      · exact .inr ⟨k + 1, p₁, p', here, first, .both beside⟩
    | join left right =>
      obtain ⟨xs, rfl, rfl⟩ := rest.outcome right
      exact .inl ⟨rfl, rfl, .ended left rest⟩

theorem able_of_mem (beside : Beside q ps) {p : Proc α} (mem : p ∈ ps)
    (able : ∃ es p' s', Step h p s es p' s') : ∃ es q' s', Step h q s es q' s' := by
  induction beside with
  | nil => cases mem
  | both _ ih =>
    rcases List.mem_cons.1 mem with rfl | mem
    · obtain ⟨es, p', s', first⟩ := able
      exact ⟨es, _, s', .left first⟩
    · obtain ⟨es, q', s', step⟩ := ih mem
      exact ⟨es, _, s', .right step⟩
  | ended outcome _ ih =>
    rcases List.mem_cons.1 mem with rfl | mem
    · obtain ⟨es, p', s', first⟩ := able
      exact absurd first (no_step_of_outcome outcome)
    · obtain ⟨es, q', s', step⟩ := ih mem
      exact absurd step (no_step_of_outcome rfl)

theorem able (beside : Beside q ps) (unfinished : q.outcome? = none)
    (go : ∀ p ∈ ps, p.outcome? = none → ∃ p ∈ ps, ∃ es p' s', Step h p s es p' s') :
    ∃ es q' s', Step h q s es q' s' := by
  by_cases busy : ∃ p ∈ ps, p.outcome? = none
  · obtain ⟨p, mem, waits⟩ := busy
    obtain ⟨p, mem, able⟩ := go p mem waits
    exact beside.able_of_mem mem able
  · clear go
    induction beside with
    | nil => cases unfinished
    | ended => cases unfinished
    | @both p q ps rest ih =>
      obtain ⟨x, left⟩ := Option.ne_none_iff_exists'.1 fun waits => busy ⟨p, .head _, waits⟩
      cases right : q.outcome? with
      | some y => exact ⟨[], _, s, .join left right⟩
      | none =>
        obtain ⟨es, q', s', step⟩ := ih right fun ⟨p, mem, waits⟩ => busy ⟨p, .tail _ mem, waits⟩
        exact ⟨es, _, s', .right step⟩

end Beside

theorem steps_concurrently {ps : List (Proc α)} {q : Proc (List (Outcome α))}
    {motive : List (Proc α) → System → List Event → Prop} (start : motive ps s [])
    (keeps : ∀ {ps s es k p es' p' s'}, motive ps s es → ps[k]? = some p →
      Step h p s es' p' s' → motive (ps.set k p') s' (es ++ es'))
    (steps : Steps h (concurrently ps) s es q s') : ∃ ps', Beside q ps' ∧ motive ps' s' es := by
  suffices later : ∀ {m : Proc (List (Outcome α))} {s : System} {es : List Event},
      Steps h m s es q s' → ∀ {ps es₀}, Beside m ps → motive ps s es₀ →
        ∃ ps', Beside q ps' ∧ motive ps' s' (es₀ ++ es) from
    later steps (beside_concurrently ps) start
  clear steps
  intro m s es steps
  induction steps with
  | refl => exact fun beside holds => ⟨_, beside, by rwa [List.append_nil]⟩
  | head step _ ih =>
    intro ps es₀ beside holds
    rw [← List.append_assoc]
    rcases beside.step step with ⟨rfl, rfl, beside'⟩ | ⟨k, p, p', here, first, beside'⟩
    · exact ih beside' (by rwa [List.append_nil])
    · exact ih beside' (keeps holds here first)

end Conduit.Proc
