import Conduit.Builtin.Effect

/-!
Builtins that change the working directory and consult the history of visited directories.
-/

namespace Conduit.Builtin

open Effect
open Proc (ask)

/-- Moves to a directory and tells the store, if one is attached, where this has led.  That the
store cannot record it, or that the place has no path any more, does not matter. -/
def changeDirectory (ctx : Context) (target : String) : Effect Unit := do
  ExceptT.adapt BuiltinError.directory (ExceptT.mk (ask (.enterDirectory target)))
  match ctx.store with
  | none => pure ()
  | some store =>
    match ← liftM (ask .workingDirectory) with
    | none => pure ()
    | some path => discard (liftM (ask (.addVisit store path)))

def cd (ctx : Context) : List Value → Proc Signal
  | [] => do
    match ← ask .home with
    | none => pure BuiltinError.homeNotSet.signal
    | some home => (changeDirectory ctx home).signal
  | [v] => (changeDirectory ctx v.text).signal
  | _ => pure BuiltinError.arguments.signal

def requireStore (ctx : Context) : Effect StoreId :=
  match ctx.store with
  | some store => pure store
  | none => throw .storeNotConnected

def visitedEntry (v : Visited) : Value :=
  .map [(.string "path", .string v.path), (.string "score", .string v.score.format)]

def visitedDirectories (ctx : Context) : Proc Signal :=
  Effect.signal do
    let store ← requireStore ctx
    let visited ← ExceptT.adapt BuiltinError.store (ExceptT.mk (ask (.listVisited store)))
    emitAll ctx (visited.map visitedEntry)

def jumpDirectory (ctx : Context) (fragment : String) : Proc Signal :=
  Effect.signal do
    let store ← requireStore ctx
    let found ← ExceptT.adapt BuiltinError.store (ExceptT.mk (ask (.findVisited store fragment)))
    match found with
    | [] => throw .noMatchingDirectory
    | best :: _ =>
      ExceptT.adapt BuiltinError.directory (ExceptT.mk (ask (.enterDirectory best.path)))
      discard (liftM (ask (.addVisit store best.path)))

end Conduit.Builtin
