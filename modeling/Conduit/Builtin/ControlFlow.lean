import Conduit.Builtin.Effect
import Conduit.Context.Call

/-!
Builtins that answer with a signal of their own, and the loop over the values of the input.
-/

namespace Conduit.Builtin

open Proc (iterate)

def failure (_ : Context) (message : String) : Proc Signal := pure (.failure message)

def flow (f : Flow) (_ : Context) : Proc Signal := pure (.flow f)

def eachTurn (ctx : Context) (f : Closure) : Proc (Unit ⊕ Signal) := do
  match ← ctx.input.channel.take with
  | none => pure (.inr .ok)
  | some v =>
    let s ← ctx.inFork "closure of each" fun inner => f.call inner [v]
    match s.stopsLoop with
    | some s => pure (.inr s)
    | none => pure (.inl ())

def each (ctx : Context) (f : Closure) : Proc Signal := iterate () fun () => eachTurn ctx f

end Conduit.Builtin
