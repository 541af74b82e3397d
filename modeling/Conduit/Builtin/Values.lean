import Conduit.Builtin.Effect

/-!
Builtins that write values made from their arguments or from the values of their input.
-/

namespace Conduit.Builtin

open Effect

def nop (_ : Context) (_ : List Value) : Proc Signal := pure .ok

def put (ctx : Context) (args : List Value) : Proc Signal := (emitAll ctx args).signal

def putAll (ctx : Context) (lists : List (List Value)) : Proc Signal :=
  (emitAll ctx lists.flatten).signal

def unpack (ctx : Context) : Proc Signal :=
  (forInput ctx fun
    | .list items => emitAll ctx items
    | _ => throw .input).signal

def typeOf (ctx : Context) (args : List Value) : Proc Signal :=
  (emitAll ctx (args.map fun v => .string v.kind.name)).signal

def toRational (ctx : Context) (v : Value) : Proc Signal :=
  match v.rat? with
  | some q => (emit ctx (.rat q)).signal
  | none => pure (BuiltinError.notRational v.repr).signal

def allEqual : List Value → Bool
  | v :: w :: rest => v == w && allEqual (w :: rest)
  | _ => true

def equality (ctx : Context) (args : List Value) : Proc Signal :=
  if args.isEmpty then pure BuiltinError.arguments.signal
  else (emit ctx (.bool (allEqual args))).signal

end Conduit.Builtin
