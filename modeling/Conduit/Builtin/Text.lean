import Conduit.Builtin.Effect

/-!
Builtins that write text to the byte stream, and that convert between lines of bytes and values.
-/

namespace Conduit.Builtin

open Effect
open Proc (iterate)

def joined (texts : List String) : String := String.intercalate " " texts

def print (ctx : Context) (texts : List String) : Proc Signal :=
  (writeText ctx (joined texts)).signal

def line (text : String) : String := text ++ "\n"

def println (ctx : Context) (texts : List String) : Proc Signal :=
  (writeText ctx (line (joined texts))).signal

def intoLines (ctx : Context) : Proc Signal :=
  (forInput ctx fun v => writeText ctx (line v.text)).signal

def withoutNewline (bytes : Bytes) : Bytes :=
  if bytes.getLast? = some StreamEnd.newline then bytes.dropLast else bytes

def fromLines (ctx : Context) : Proc Signal :=
  Effect.signal <| ExceptT.mk <| iterate () fun () => do
    match ← ctx.input.stream.readLine with
    | (_, some message) => pure (.inr (.error (.port (.io message))))
    | ([], none) => pure (.inr (.ok ()))
    | (bytes, none) =>
      match ← (emit ctx (.string (Utf8.decodeLossy (withoutNewline bytes)))).run with
      | .ok () => pure (.inl ())
      | .error e => pure (.inr (.error e))

def stackText : String := "call stack\n"

def stack (ctx : Context) : Proc Signal :=
  Effect.signal <| ExceptT.adapt BuiltinError.port (ctx.aux.stream.writeText stackText)

end Conduit.Builtin
