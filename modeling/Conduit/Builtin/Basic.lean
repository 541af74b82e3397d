import Conduit.Builtin.Signature
import Conduit.Context.Fork

/-!
Builtins: named operations with a signature.  A body written for typed parameters becomes a
builtin that checks the number of its arguments, then coerces all of them, and only then runs;
what goes wrong before is an arguments error, and a panic of the body is a failure too.
-/

namespace Conduit

def Typed : List ParamKind → Type 1 → Type 1
  | [], R => R
  | k :: ks, R => k.Carrier → Typed ks R

def Typed.applyTo? {R S : Type 1} (finish : R → List Value → Option S) :
    (ks : List ParamKind) → Typed ks R → List Value → Option S
  | [], f, args => finish f args
  | _ :: _, _, [] => none
  | k :: ks, f, v :: args =>
    match k.coerce? v with
    | some x => applyTo? finish ks (f x) args
    | none => none

structure Builtin where
  name : String
  signature : Signature
  invoke? : Context → List Value → Option (Proc Signal)

namespace Builtin

def fixed (name : String) (kinds : List ParamKind) (body : Context → Typed kinds (Proc Signal)) :
    Builtin where
  name
  signature := ⟨kinds, none⟩
  invoke? ctx args := Typed.applyTo? (fun p _ => some p) kinds (body ctx) args

def variadic (name : String) (kinds : List ParamKind) (rest : ParamKind)
    (body : Context → Typed kinds (List rest.Carrier → Proc Signal)) : Builtin where
  name
  signature := ⟨kinds, some rest⟩
  invoke? ctx args :=
    Typed.applyTo? (fun p tail => (tail.mapM rest.coerce?).map p) kinds (body ctx) args

def raw (name : String) (body : Context → List Value → Proc Signal) : Builtin where
  name
  signature := .raw
  invoke? ctx args := some (body ctx args)

def panicSignal (name : String) (message : Option String) : Signal :=
  .failure (name ++ " panicked: " ++ message.getD "unknown panic")

def settle (b : Builtin) : Outcome Signal → Signal
  | .returned s => s
  | .panicked message => panicSignal b.name message

def call (b : Builtin) (ctx : Context) (args : List Value) : Proc Signal :=
  if b.signature.accepts args.length then
    match b.invoke? ctx args with
    | some p => do return b.settle (← p.attempt)
    | none => pure BuiltinError.arguments.signal
  else pure BuiltinError.arguments.signal

end Builtin

end Conduit
