import Conduit.Builtin.Basic
import Conduit.Number.Shortest

/-!
Effects: processes that stop at the first error, from which the bodies of builtins are made.
-/

namespace Conduit

open Proc (iterate)

abbrev Effect := ExceptT BuiltinError Proc

namespace Effect

def signal (a : Effect Unit) : Proc Signal := do return Signal.ofResult (← a.run)

def emit (ctx : Context) (v : Value) : Effect Unit :=
  ExceptT.adapt BuiltinError.port (ctx.output.channel.put v)

def emitAll (ctx : Context) : List Value → Effect Unit
  | [] => pure ()
  | v :: rest => do
    emit ctx v
    emitAll ctx rest

def emitNumber (ctx : Context) (x : Binary64) : Effect Unit := emit ctx (.string x.format)

def writeText (ctx : Context) (text : String) : Effect Unit :=
  ExceptT.adapt BuiltinError.port (ctx.output.stream.writeText text)

def forInput (ctx : Context) (act : Value → Effect Unit) : Effect Unit :=
  ExceptT.mk <| iterate () fun () => do
    match ← ctx.input.channel.take with
    | none => pure (.inr (.ok ()))
    | some v =>
      match ← (act v).run with
      | .ok () => pure (.inl ())
      | .error e => pure (.inr (.error e))

end Effect

end Conduit
