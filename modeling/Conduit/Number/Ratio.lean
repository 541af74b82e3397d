import Conduit.Number.Literal
import Conduit.Text.Blank

/-!
Exact rational numbers as text: integers, fractions `n/d` and decimal literals.
-/

namespace Conduit.Ratio

def readNatural? : List Char → Option Nat
  | [] => none
  | '_' :: _ => none
  | cs =>
    let ds := cs.filter (· ≠ '_')
    if ds.all isDigit then some (digitsValue ds) else none

def readIntegral? (cs : List Char) : Option Int :=
  let (negative, ds) := splitSign cs
  (readNatural? ds).map (fun n => if negative then -(n : Int) else n)

def scaleLimit : Nat := 4096

def exponentLimit : Int := 0x8000000000000000

def ofLiteral? (l : Literal) : Option Rat :=
  if -exponentLimit ≤ l.exponent ∧ l.exponent < exponentLimit ∧ l.scale.natAbs ≤ scaleLimit then
    some l.value
  else none

def parse? (text : String) : Option Rat :=
  let cs := Text.trim text.toList
  match cs.span (· ≠ '/') with
  | (_, []) => (Literal.read? cs).bind ofLiteral?
  | (num, _ :: den) => do
    let n ← readIntegral? num
    let d ← readIntegral? den
    if d = 0 then none else some (Rat.divInt n d)

def format (q : Rat) : String :=
  if q.den = 1 then toString q.num else toString q.num ++ "/" ++ toString q.den

end Conduit.Ratio
