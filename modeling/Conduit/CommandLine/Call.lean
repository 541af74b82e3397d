import Conduit.Builtin.Text
import Conduit.Pipeline

/-!
Calling one builtin with byte streams for its ports.  What it writes to its output channel is
printed on the output stream, one value a line.
-/

namespace Conduit.CommandLine

open Proc (ask iterate)

def printValues (values : ChannelEnd) (out : StreamEnd) : Proc Unit := do
  iterate () fun () => do
    match ← values.take with
    | none => pure (.inr ())
    | some v =>
      match ← (out.writeText (Builtin.line v.text)).run with
      | .ok () => pure (.inl ())
      | .error _ => pure (.inr ())
  values.release
  out.release

def callBuiltin (b : Builtin) (args : List String) (capacities : Capacities)
    (input output aux : StreamEnd) : Proc Signal := do
  let c ← ask (.newChannel { capacity := some capacities.channel })
  output.hold
  let store ← ask (.newStore (.inMemory []))
  let scope ← ask (.newScope none)
  let ports := [⟨.closed, input⟩, ⟨.writing c, output⟩, ⟨.closed, aux⟩]
  let ctx := { Context.ofPorts "top" ports scope with store := some store }
  let call := ctx.closing fun ctx => return (← b.call ctx (args.map .string), ctx)
  .both call (printValues (.reading c) output) fun s _ => Proc.ofOutcome s

/-- What to report of a signal at the top level, where `return` just ends the call and there is
no loop for the others to act on; none for a clean exit. -/
def exitMessage? : Signal → Option String
  | .ok => none
  | .flow .return => none
  | .failure message => some message
  | .flow f => some (f.name ++ " outside of a loop")

end Conduit.CommandLine
