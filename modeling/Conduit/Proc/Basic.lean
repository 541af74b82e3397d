import Conduit.Proc.Request

/-!
Processes: what a call does, as a tree of requests to the system, each followed by what it goes
on with for every possible reply.  A process may repeat a step until the step says it is done,
leave the rest to code of the host, and have two processes run side by side.
-/

namespace Conduit

inductive Outcome (α : Type)
  | returned (a : α)
  | panicked (message : Option String)
  deriving DecidableEq, Repr

/-- Code of the host, which runs in a context: the body of a closure, or a script that an evaluator
finds by its path. -/
inductive HostCall
  | body (f : Closure) (ctx : Context) (args : List Value)
  | script (e : EvaluatorId) (ctx : Context) (path : String)

abbrev HostCall.Answer : HostCall → Type
  | body _ _ _ => Signal × List Port
  | script _ _ _ => Signal

inductive Proc : Type → Type 1
  | done {α : Type} (a : α) : Proc α
  | panic {α : Type} (message : Option String) : Proc α
  | request {α : Type} (r : Request) (next : r.Reply → Proc α) : Proc α
  | loop {σ β α : Type} (state : σ) (body : σ → Proc (σ ⊕ β)) (next : β → Proc α) : Proc α
  | host {α : Type} (call : HostCall) (next : Outcome call.Answer → Proc α) : Proc α
  | both {β γ α : Type} (p : Proc β) (q : Proc γ) (next : Outcome β → Outcome γ → Proc α) :
      Proc α

namespace Proc

variable {α β : Type}

protected def bind : Proc α → (α → Proc β) → Proc β
  | done a, f => f a
  | panic message, _ => panic message
  | request r next, f => request r fun x => (next x).bind f
  | loop state body next, f => loop state body fun x => (next x).bind f
  | host call next, f => host call fun x => (next x).bind f
  | both p q next, f => both p q fun x y => (next x y).bind f

instance : Monad Proc where
  pure := done
  bind := Proc.bind

def endTurn {σ : Type} : Outcome (σ ⊕ β) → σ ⊕ Outcome β
  | .returned (.inl state) => .inl state
  | .returned (.inr b) => .inr (.returned b)
  | .panicked message => .inr (.panicked message)

def whenReturned (next : β → Proc (Outcome α)) : Outcome β → Proc (Outcome α)
  | .returned b => next b
  | .panicked message => done (.panicked message)

def attempt : {α : Type} → Proc α → Proc (Outcome α)
  | _, done a => done (.returned a)
  | _, panic message => done (.panicked message)
  | _, request r next => request r fun x => (next x).attempt
  | _, loop state body next =>
    loop state (fun state => (body state).attempt.bind fun x => done (endTurn x))
      (whenReturned fun b => (next b).attempt)
  | _, host call next => host call fun x => (next x).attempt
  | _, both p q next => both p q fun x y => (next x y).attempt

def ofOutcome : Outcome α → Proc α
  | .returned a => done a
  | .panicked message => panic message

def ask (r : Request) : Proc r.Reply := request r done

def iterate {σ : Type} (state : σ) (step : σ → Proc (σ ⊕ β)) : Proc β := loop state step done

def runHost (call : HostCall) : Proc call.Answer := host call ofOutcome

def concurrently : List (Proc α) → Proc (List (Outcome α))
  | [] => done []
  | p :: rest => both p (concurrently rest) fun x xs => (ofOutcome xs).bind fun xs => done (x :: xs)

end Proc

end Conduit
