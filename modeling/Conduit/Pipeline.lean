import Conduit.Builtin.Basic

/-!
Pipelines: builtins that run side by side, each reading what the one before it writes.
-/

namespace Conduit

open Proc (concurrently)

structure Stage where
  builtin : Builtin
  args : List Value

structure Capacities where
  channel : Nat := 32
  pipe : Nat := 16
  deriving DecidableEq, Repr

namespace Pipeline

def stageName (template : Context) (i : Nat) : String :=
  template.name ++ " stage " ++ toString i

def forks (template : Context) (i : Nat) : Nat → Proc (List Context)
  | 0 => pure []
  | count + 1 => do
    let ctx ← template.fork (stageName template i)
    let rest ← forks template (i + 1) count
    pure (ctx :: rest)

def connect (capacities : Capacities) (ctx : Context) : List Context → Proc (List Context)
  | [] => pure [ctx]
  | next :: rest => do
    let (writer, reader) ← Port.conduit capacities.channel capacities.pipe
    let ctx ← ctx.setPort 1 writer
    let next ← next.setPort 0 reader
    let rest ← connect capacities next rest
    pure (ctx :: rest)

def connectAll (capacities : Capacities) : List Context → Proc (List Context)
  | [] => pure []
  | ctx :: rest => connect capacities ctx rest

def runStage (ctx : Context) (stage : Stage) : Proc Signal := do
  let s ← stage.builtin.call ctx stage.args
  discard ctx.close
  pure s

def stageSignal : Outcome Signal → Signal
  | .returned s => s
  | .panicked _ => .failure "pipeline stage panicked"

def run (template : Context) (capacities : Capacities) (stages : List Stage) :
    Proc (List Signal) := do
  let ctxs ← forks template 0 stages.length
  let ctxs ← connectAll capacities ctxs
  let outcomes ← concurrently (ctxs.zipWith runStage stages)
  pure (outcomes.map stageSignal)

def firstSignal (signals : List Signal) : Signal := (signals.find? (· ≠ .ok)).getD .ok

end Pipeline

end Conduit
