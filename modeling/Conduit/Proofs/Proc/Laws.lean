import Conduit.Proc.Run

/-!
Laws of processes: binding, what follows an attempt, and that an attempt never panics.
-/

namespace Conduit.Proc

variable {α β γ : Type}

theorem bind_done (p : Proc α) : p.bind done = p := by
  induction p with
  | done a => rfl
  | panic message => rfl
  | request r next ih => exact congrArg (request r) (funext ih)
  | loop state body next _ ih => exact congrArg (loop state body) (funext ih)
  | host call next ih => exact congrArg (host call) (funext ih)
  | both p q next _ _ ih =>
    exact congrArg (both p q) (funext fun x => funext fun y => ih x y)

theorem bind_assoc (p : Proc α) (f : α → Proc β) (g : β → Proc γ) :
    (p.bind f).bind g = p.bind fun a => (f a).bind g := by
  induction p with
  | done a => rfl
  | panic message => rfl
  | request r next ih => exact congrArg (request r) (funext fun x => ih x f)
  | loop state body next _ ih => exact congrArg (loop state body) (funext fun x => ih x f)
  | host call next ih => exact congrArg (host call) (funext fun x => ih x f)
  | both p q next _ _ ih =>
    exact congrArg (both p q) (funext fun x => funext fun y => ih x y f)

instance : LawfulMonad Proc :=
  LawfulMonad.mk' Proc (fun p => bind_done p) (fun _ _ => rfl) bind_assoc

theorem attempt_bind (p : Proc α) (f : α → Proc β) :
    (p.bind f).attempt = p.attempt.bind (whenReturned fun a => (f a).attempt) := by
  induction p with
  | done a => rfl
  | panic message => rfl
  | request r next ih => exact congrArg (request r) (funext fun x => ih x f)
  | loop state body next _ ih =>
    simp only [Proc.bind, attempt]
    refine congrArg (loop state _) (funext fun x => ?_)
    cases x with
    | returned b => exact ih b f
    | panicked message => rfl
  | host call next ih => exact congrArg (host call) (funext fun x => ih x f)
  | both p q next _ _ ih =>
    exact congrArg (both p q) (funext fun x => funext fun y => ih x y f)

inductive Safe : {α : Type} → Proc α → Prop
  | done {α : Type} (a : α) : Safe (done a)
  | request {α : Type} {r : Request} {next : r.Reply → Proc α} (rest : ∀ x, Safe (next x)) :
      Safe (request r next)
  | loop {σ β α : Type} {state : σ} {body : σ → Proc (σ ⊕ β)} {next : β → Proc α}
      (turn : ∀ x, Safe (body x)) (rest : ∀ b, Safe (next b)) : Safe (loop state body next)
  | host {α : Type} {call : HostCall} {next : Outcome call.Answer → Proc α}
      (rest : ∀ x, Safe (next x)) : Safe (host call next)
  | both {β γ α : Type} {p : Proc β} {q : Proc γ} {next : Outcome β → Outcome γ → Proc α}
      (rest : ∀ x y, Safe (next x y)) : Safe (both p q next)

theorem safe_bind {p : Proc α} {f : α → Proc β} (hp : Safe p) (hf : ∀ a, Safe (f a)) :
    Safe (p.bind f) := by
  induction hp with
  | done a => exact hf a
  | request _ ih => exact .request fun x => ih x hf
  | loop turn _ _ ih => exact .loop turn fun b => ih b hf
  | host _ ih => exact .host fun x => ih x hf
  | both _ ih => exact .both fun x y => ih x y hf

theorem safe_attempt (p : Proc α) : Safe p.attempt := by
  induction p with
  | done a => exact .done _
  | panic message => exact .done _
  | request r next ih => exact .request ih
  | loop state body next ihb ih =>
    refine .loop (fun x => safe_bind (ihb x) fun o => .done _) fun x => ?_
    cases x with
    | returned b => exact ih b
    | panicked message => exact .done _
  | host call next ih => exact .host ih
  | both p q next _ _ ih => exact .both ih

theorem safe_unfold {σ : Type} {state : σ} {body : σ → Proc (σ ⊕ β)} {next : β → Proc α}
    (turn : ∀ x, Safe (body x)) (rest : ∀ b, Safe (next b)) : Safe (unfold state body next) := by
  refine safe_bind (turn state) fun x => ?_
  cases x with
  | inl state => exact .loop turn rest
  | inr b => exact rest b

end Conduit.Proc
