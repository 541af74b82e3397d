import Conduit.Builtin.Effect

/-!
Arithmetic on floats, from left to right.
-/

namespace Conduit.Builtin

open Effect

def sum (ctx : Context) (xs : List Binary64) : Proc Signal :=
  (emitNumber ctx (xs.foldl (· + ·) (.zero false))).signal

def difference (ctx : Context) (x : Binary64) (xs : List Binary64) : Proc Signal :=
  (emitNumber ctx (xs.foldl (· - ·) x)).signal

def product (ctx : Context) (xs : List Binary64) : Proc Signal :=
  (emitNumber ctx (xs.foldl (· * ·) (.ofNat 1))).signal

def quotient (ctx : Context) (x : Binary64) (xs : List Binary64) : Proc Signal :=
  (emitNumber ctx (xs.foldl (· / ·) x)).signal

end Conduit.Builtin
