import Conduit.Proofs.Proc.Heeds

/-!
One process at a time, whoever replies to it: the system itself, or the system together with
somebody at the other end of a port.  Whatever the replies are made from, they are the same again
for the same state, so there is one way for the process to go.
-/

namespace Conduit

open Proc (Due Heeds Step Steps unfold)

abbrev Replies (σ : Type) := σ → (r : Request) → Option (r.Reply × σ)

def Replies.system : Replies System := fun s r => r.perform? s

variable {α β σ : Type} {m : Replies σ} {p p' q : Proc α} {x y z : σ} {es es' : List Event}
  {n k : Nat}

inductive Goes (m : Replies σ) : Nat → Proc α → σ → List Event → Proc α → σ → Prop
  | refl {p : Proc α} {x : σ} : Goes m 0 p x [] p x
  | request {n : Nat} {r : Request} {next : r.Reply → Proc α} {a : r.Reply} {x y z : σ}
      {es : List Event} {p' : Proc α} (reply : m x r = some (a, y))
      (rest : Goes m n (next a) y es p' z) :
      Goes m (n + 1) (.request r next) x (.asked r a :: es) p' z
  | loop {n : Nat} {ρ β : Type} {state : ρ} {body : ρ → Proc (ρ ⊕ β)} {next : β → Proc α}
      {x y : σ} {es : List Event} {p' : Proc α}
      (rest : Goes m n (unfold state body next) x es p' y) :
      Goes m (n + 1) (.loop state body next) x es p' y

/-- The process is done, or is kept waiting. -/
inductive Rests (m : Replies σ) : Proc α → σ → Prop
  | done {a : α} {x : σ} : Rests m (.done a) x
  | waiting {r : Request} {next : r.Reply → Proc α} {x : σ} (waits : m x r = none) :
      Rests m (.request r next) x

theorem Rests.bind {f : α → Proc β} (rests : Rests m p x) (other : ∀ a, p ≠ .done a) :
    Rests m (p.bind f) x := by
  cases rests with
  | done => exact absurd rfl (other _)
  | waiting waits => exact .waiting waits

namespace Goes

theorem trans (first : Goes m n p x es q y) (rest : Goes m k q y es' p' z) :
    Goes m (n + k) p x (es ++ es') p' z := by
  induction first with
  | refl => rwa [Nat.zero_add]
  | request reply _ ih =>
    rw [Nat.add_right_comm]
    exact .request reply (ih rest)
  | loop _ ih =>
    rw [Nat.add_right_comm]
    exact .loop (ih rest)

theorem bind (goes : Goes m n p x es p' y) (f : α → Proc β) :
    Goes m n (p.bind f) x es (p'.bind f) y := by
  induction goes with
  | refl => exact .refl
  | request reply _ ih => exact .request reply ih
  | loop _ ih =>
    rw [Proc.unfold_bind] at ih
    exact .loop ih

theorem of_rests (goes : Goes m n p x es p' y) (rests : Rests m p x) :
    n = 0 ∧ es = [] ∧ p' = p ∧ y = x := by
  cases goes with
  | refl => exact ⟨rfl, rfl, rfl, rfl⟩
  | request reply =>
    cases rests with
    | waiting waits =>
      rw [waits] at reply
      cases reply
  | loop => cases rests

theorem rest_of_steps (steps : Goes m k p x es' p' y) (goes : Goes m n p x es q z)
    (rests : Rests m q z) :
    k ≤ n ∧ ∃ es'', es = es' ++ es'' ∧ Goes m (n - k) p' y es'' q z := by
  induction steps generalizing n es with
  | refl => exact ⟨Nat.zero_le n, es, rfl, goes⟩
  | request reply _ ih =>
    cases goes with
    | refl =>
      obtain ⟨none, -⟩ := (Goes.request reply .refl).of_rests rests
      cases none
    | request reply' rest =>
      rw [reply] at reply'
      cases reply'
      obtain ⟨le, es'', same, rest⟩ := ih rest
      rw [Nat.add_sub_add_right]
      exact ⟨Nat.succ_le_succ le, es'', by rw [same, List.cons_append], rest⟩
  | loop _ ih =>
    cases goes with
    | refl => cases rests
    | loop rest =>
      obtain ⟨le, es'', same, rest⟩ := ih rest
      rw [Nat.add_sub_add_right]
      exact ⟨Nat.succ_le_succ le, es'', same, rest⟩

theorem unique {p'' : Proc α} (goes : Goes m n p x es p' y) (rests : Rests m p' y)
    (goes' : Goes m k p x es' p'' z) (rests' : Rests m p'' z) :
    es' = es ∧ p'' = p' ∧ z = y := by
  obtain ⟨-, es'', same, rest⟩ := goes.rest_of_steps goes' rests'
  obtain ⟨-, none, process, state⟩ := rest.of_rests rests
  rw [same, none, List.append_nil]
  exact ⟨rfl, process, state⟩

end Goes

/-! ### Steps in the system -/

variable {h : Host} {s s' : System} {fails : PortError → α → Prop} {due : Option Request}
  {may : Request → Prop}

theorem Goes.steps (goes : Goes .system n p s es q s') : Steps h p s es q s' := by
  induction goes with
  | refl => exact .refl
  | request reply _ ih => exact .head (.request reply) ih
  | loop _ ih => exact .head .loop ih

theorem exists_goes_of_steps (heeds : Heeds may fails due p) (owed : Due may due)
    (steps : Steps h p s es q s') : ∃ n, Goes .system n p s es q s' := by
  induction steps generalizing due with
  | refl => exact ⟨0, .refl⟩
  | head step _ ih =>
    obtain ⟨-, due', owed', heeds'⟩ := heeds.step owed step
    obtain ⟨n, rest⟩ := ih heeds' owed'
    cases heeds with
    | done => cases step
    | request =>
      cases step with
      | request reply => exact ⟨n + 1, .request reply rest⟩
    | loop =>
      cases step with
      | loop => exact ⟨n + 1, .loop rest⟩

end Conduit
