import Conduit.Context.Fork

/-!
Calling closures.  The body of a closure sees its parameters and the scope the closure was made
in, never the scope of its caller.
-/

namespace Conduit.Closure

open Proc (ask runHost)

def arityMismatch (f : Closure) (count : Nat) : String :=
  "arity mismatch: closure takes " ++ toString f.params.length ++ " arguments, got " ++
    toString count

def bindAll (scope : ScopeId) : List (String × Value) → Proc Unit
  | [] => pure ()
  | (name, v) :: rest => do
    ask (.setVar scope name v)
    bindAll scope rest

/-- Runs the body in the context, with a new scope for this call that holds the parameters, and
answers with the context as the body leaves it.  The caller has normally forked the context for the
purpose. -/
def call (f : Closure) (ctx : Context) (args : List Value) : Proc (Signal × Context) :=
  if f.params.length ≠ args.length then pure (.failure (f.arityMismatch args.length), ctx)
  else do
    let scope ← ask (.newScope f.captured)
    bindAll scope (f.params.zip args)
    let (s, ports) ← runHost (.body f { ctx with scope } args)
    pure (s, { ctx with scope, ports })

end Conduit.Closure
