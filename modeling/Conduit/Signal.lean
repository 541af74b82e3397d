/-!
Signals: the outcome of every call, and the rule by which loops pass them on.
-/

namespace Conduit

inductive Flow
  | return | break | continue
  deriving DecidableEq, Repr

def Flow.name : Flow → String
  | .return => "return"
  | .break => "break"
  | .continue => "continue"

inductive Signal
  | ok
  | failure (message : String)
  | flow (f : Flow)
  deriving DecidableEq, Repr

namespace Signal

def display : Signal → String
  | ok => "ok"
  | failure message => message
  | flow f => f.name

def message? : Signal → Option String
  | failure message => some message
  | _ => none

def stopsLoop : Signal → Option Signal
  | ok | flow .continue => none
  | flow .break => some ok
  | s => some s

end Signal

def runLoop {m : Type → Type} [Monad m] {α : Type} (step : α → m Signal) : List α → m Signal
  | [] => pure .ok
  | x :: rest => do
    match (← step x).stopsLoop with
    | some s => pure s
    | none => runLoop step rest

end Conduit
