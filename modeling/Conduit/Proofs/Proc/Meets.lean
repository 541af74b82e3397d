import Conduit.Proofs.Proc.Termination

/-!
Total correctness of processes: a process that meets a postcondition ends on every schedule, never
in a panic, and what it answers and leaves behind is as the postcondition says.
-/

namespace Conduit.Proc

def Meets {α : Type} (h : Host) (p : Proc α) (s : System) (post : α → System → Prop) : Prop :=
  Terminates h p s ∧ ∀ es o s', Runs h p s es o s' → ∃ a, o = .returned a ∧ post a s'

variable {α β σ : Type} {h : Host} {s s' : System} {p : Proc α} {post : β → System → Prop}

theorem Meets.mono {mid post : α → System → Prop} (first : Meets h p s mid)
    (weaker : ∀ a s', mid a s' → post a s') : Meets h p s post := by
  refine ⟨first.1, fun es o s' run => ?_⟩
  obtain ⟨a, ho, holds⟩ := first.2 es o s' run
  exact ⟨a, ho, weaker a s' holds⟩

theorem meets_done {b : β} (holds : post b s) : Meets h (done b) s post := by
  refine ⟨terminates_done b, fun es o s' run => ?_⟩
  obtain ⟨-, rfl, rfl⟩ := runs_done.1 run
  exact ⟨b, rfl, holds⟩

theorem Meets.bind {mid : α → System → Prop} {f : α → Proc β} (first : Meets h p s mid)
    (rest : ∀ a s', mid a s' → Meets h (f a) s' post) : Meets h (p.bind f) s post := by
  refine ⟨terminates_bind first.1 fun es a s' run => ?_, fun es o s' run => ?_⟩
  · obtain ⟨_, ho, holds⟩ := first.2 es _ s' run
    cases ho
    exact (rest a s' holds).1
  · rcases runs_bind.1 run with ⟨message, -, broken⟩ | ⟨a, es₁, es₂, s₁, -, run₁, run₂⟩
    · obtain ⟨_, ho, -⟩ := first.2 es _ s' broken
      cases ho
    · obtain ⟨_, ho, holds⟩ := first.2 es₁ _ s₁ run₁
      cases ho
      exact (rest a s₁ holds).2 es₂ o s' run₂

theorem meets_ask {r : Request} {x : r.Reply} {post : r.Reply → System → Prop}
    (reply : r.perform? s = some (x, s')) (holds : post x s') : Meets h (ask r) s post := by
  refine ⟨terminates_request reply (terminates_done x), fun es o s₁ run => ?_⟩
  obtain ⟨y, other, -, rfl⟩ := runs_ask.1 run
  rw [reply] at other
  cases other
  exact ⟨x, rfl, holds⟩

theorem meets_iterate {x : σ} {body : σ → Proc (σ ⊕ β)} {mid : σ ⊕ β → System → Prop}
    (turn : Meets h (body x) s mid)
    (again : ∀ y s', mid (.inl y) s' → Meets h (iterate y body) s' post)
    (answered : ∀ b s', mid (.inr b) s' → post b s') : Meets h (iterate x body) s post := by
  have unfolded : Meets h (unfold x body done) s post := by
    refine turn.bind fun y s' holds => ?_
    cases y with
    | inl y => exact again y s' holds
    | inr b => exact meets_done (answered b s' holds)
  refine ⟨terminates_loop unfolded.1, fun es o s' run => ?_⟩
  obtain ⟨es₁, es₂, p, s₁, -, step, rest⟩ := (runs_iff_step rfl).1 run
  cases step with
  | loop => exact unfolded.2 es₂ o s' rest

theorem Meets.exists_runs {mid : α → System → Prop} (meets : Meets h p s mid) :
    ∃ es a s', Runs h p s es (.returned a) s' ∧ mid a s' := by
  obtain ⟨n, o, s', ran⟩ := exists_run_of_terminates meets.1
  obtain ⟨es, run⟩ := runs_of_run ran
  obtain ⟨a, rfl, holds⟩ := meets.2 es o s' run
  exact ⟨es, a, s', run, holds⟩

/-! ### Processes that may stop at an error -/

section Except

variable {ε ε' : Type}

theorem meets_run_bind {x : ExceptT ε Proc α} {f : α → ExceptT ε Proc β}
    {mid : Except ε α → System → Prop} {post : Except ε β → System → Prop}
    (first : Meets h x.run s mid) (ok : ∀ a s', mid (.ok a) s' → Meets h (f a).run s' post)
    (error : ∀ e s', mid (.error e) s' → post (.error e) s') : Meets h (x >>= f).run s post := by
  refine Meets.bind first fun r s' holds => ?_
  cases r with
  | ok a => exact ok a s' holds
  | error e => exact meets_done (error e s' holds)

theorem meets_run_adapt {x : ExceptT ε Proc α} {f : ε → ε'}
    {post : Except ε' α → System → Prop}
    (first : Meets h x.run s fun r s' => post (r.mapError f) s') :
    Meets h (ExceptT.adapt f x).run s post :=
  Meets.bind first fun _ _ holds => meets_done holds

end Except

end Conduit.Proc
