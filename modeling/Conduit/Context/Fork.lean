import Conduit.Port.Access

/-!
Deriving contexts from one another, and what becomes of the ends that they hold.
-/

namespace Conduit.Context

open Proc (ask panic)

def fork (ctx : Context) (name : String) : Proc Context := do
  ctx.ports.forM Port.hold
  let scope ← ask (.newScope ctx.scope)
  pure { ctx with name, scope }

def close (ctx : Context) : Proc Context := do
  ctx.ports.forM Port.release
  pure ctx.withoutPorts

def setPort (ctx : Context) (i : Nat) (p : Port) : Proc Context := do
  (ctx.port i).release
  pure (ctx.putPort i p)

def get? (ctx : Context) (name : String) : Proc (Option Value) := ask (.getVar ctx.scope name)

def set (ctx : Context) (name : String) (v : Value) : Proc Unit :=
  ask (.setVar ctx.scope name v)

def closing {α : Type} (ctx : Context) (body : Context → Proc (α × Context)) : Proc α := do
  match ← (body ctx).attempt with
  | .returned (a, left) =>
    discard left.close
    pure a
  | .panicked message =>
    discard ctx.close
    panic message

def inFork {α : Type} (ctx : Context) (name : String) (body : Context → Proc (α × Context)) :
    Proc α := do
  (← ctx.fork name).closing body

end Conduit.Context
