import Conduit.Proc.Basic

/-!
Running processes.  A step of a process is one of its requests or the unfolding of a loop or of
a call of the host; of processes side by side any one that can go on may take the next step.
`Step` has every such step, and `step?` takes the leftmost.
-/

namespace Conduit

structure Host where
  body : Closure → Context → List Value → Proc (Signal × List Port)
  script : EvaluatorId → Context → String → Proc Signal

def Host.run (h : Host) : (call : HostCall) → Proc call.Answer
  | .body f ctx args => h.body f ctx args
  | .script e ctx path => h.script e ctx path

def Host.none : Host where
  body _ ctx _ := pure (.ok, ctx.ports)
  script _ _ _ := pure .ok

inductive Event
  | asked (r : Request) (reply : r.Reply)
  | called (call : HostCall)

namespace Proc

variable {α : Type}

def outcome? : Proc α → Option (Outcome α)
  | done a => some (.returned a)
  | panic message => some (.panicked message)
  | _ => none

def unfold {σ β : Type} (state : σ) (body : σ → Proc (σ ⊕ β)) (next : β → Proc α) : Proc α :=
  (body state).bind fun
    | .inl state => loop state body next
    | .inr b => next b

inductive Step (h : Host) : {α : Type} → Proc α → System → List Event → Proc α → System → Prop
  | request {α : Type} {r : Request} {next : r.Reply → Proc α} {s s' : System} {x : r.Reply}
      (reply : r.perform? s = some (x, s')) :
      Step h (.request r next) s [.asked r x] (next x) s'
  | loop {α σ β : Type} {state : σ} {body : σ → Proc (σ ⊕ β)} {next : β → Proc α} {s : System} :
      Step h (.loop state body next) s [] (unfold state body next) s
  | host {α : Type} {call : HostCall} {next : Outcome call.Answer → Proc α} {s : System} :
      Step h (.host call next) s [.called call] ((h.run call).attempt.bind next) s
  | left {α β γ : Type} {p p' : Proc β} {q : Proc γ} {next : Outcome β → Outcome γ → Proc α}
      {s s' : System} {es : List Event} (step : Step h p s es p' s') :
      Step h (.both p q next) s es (.both p' q next) s'
  | right {α β γ : Type} {p : Proc β} {q q' : Proc γ} {next : Outcome β → Outcome γ → Proc α}
      {s s' : System} {es : List Event} (step : Step h q s es q' s') :
      Step h (.both p q next) s es (.both p q' next) s'
  | join {α β γ : Type} {p : Proc β} {q : Proc γ} {next : Outcome β → Outcome γ → Proc α}
      {s : System} {x : Outcome β} {y : Outcome γ}
      (left : p.outcome? = some x) (right : q.outcome? = some y) :
      Step h (.both p q next) s [] (next x y) s

inductive Steps (h : Host) {α : Type} : Proc α → System → List Event → Proc α → System → Prop
  | refl {p : Proc α} {s : System} : Steps h p s [] p s
  | head {p p' p'' : Proc α} {s s' s'' : System} {es es' : List Event}
      (step : Step h p s es p' s') (rest : Steps h p' s' es' p'' s'') :
      Steps h p s (es ++ es') p'' s''

def Runs (h : Host) (p : Proc α) (s : System) (es : List Event) (o : Outcome α) (s' : System) :
    Prop :=
  ∃ q, Steps h p s es q s' ∧ q.outcome? = some o

/-- However its steps are scheduled, the process comes to its end: it neither goes on for ever
nor waits for ever. -/
inductive Terminates (h : Host) {α : Type} : Proc α → System → Prop
  | ended {p : Proc α} {s : System} {o : Outcome α} (outcome : p.outcome? = some o) :
      Terminates h p s
  | step {p : Proc α} {s : System} (able : ∃ es p' s', Step h p s es p' s')
      (after : ∀ es p' s', Step h p s es p' s' → Terminates h p' s') : Terminates h p s

def step? (h : Host) : {α : Type} → Proc α → System → Option (Proc α × System)
  | _, .done _, _ => none
  | _, .panic _, _ => none
  | _, .request r next, s => (r.perform? s).map fun (x, s) => (next x, s)
  | _, .loop state body next, s => some (unfold state body next, s)
  | _, .host call next, s => some ((h.run call).attempt.bind next, s)
  | _, .both p q next, s =>
    match step? h p s with
    | some (p, s) => some (.both p q next, s)
    | none =>
      match step? h q s with
      | some (q, s) => some (.both p q next, s)
      | none =>
        match p.outcome?, q.outcome? with
        | some x, some y => some (next x y, s)
        | _, _ => none

def exec (h : Host) : Nat → Proc α → System → Proc α × System
  | 0, p, s => (p, s)
  | fuel + 1, p, s =>
    match step? h p s with
    | some (p, s) => exec h fuel p s
    | none => (p, s)

def run (h : Host) (fuel : Nat) (p : Proc α) (s : System) : Option (Outcome α) × System :=
  let (p, s) := exec h fuel p s
  (p.outcome?, s)

theorem exec_succ_of_step {h : Host} {n : Nat} {p p' : Proc α} {s s' : System}
    (step : step? h p s = some (p', s')) : exec h (n + 1) p s = exec h n p' s' := by
  rw [exec, step]

theorem exec_of_no_step {h : Host} {n : Nat} {p : Proc α} {s : System}
    (stuck : step? h p s = none) : exec h n p s = (p, s) := by
  cases n with
  | zero => rfl
  | succ n => rw [exec, stuck]

end Proc

end Conduit
