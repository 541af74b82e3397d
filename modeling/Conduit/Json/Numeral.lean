import Conduit.Number.Literal

/-!
What a JSON numeral is worth as a float.  Its digits are gathered in a word of 64 bits as far as
they fit, and the word is then scaled by powers of ten that are floats themselves, with one
rounding for each scaling; so the result need not be the float nearest to the numeral.
-/

namespace Conduit.Json

structure Numeral where
  negative : Bool
  whole : List Char
  fraction : Option (List Char)
  exponent : Option Int
  deriving DecidableEq, Repr

namespace Numeral

def wordLimit : Nat := 0x10000000000000000

def gather (word : Nat) : List Char → Nat × List Char
  | [] => (word, [])
  | d :: ds =>
    let longer := word * 10 + digitValue d
    if longer < wordLimit then gather longer ds else (word, d :: ds)

def greatestPower : Nat := 308

def powerOfTen (k : Nat) : Binary64 := .ofNat (Nat.pow 10 k)

def scale (x : Binary64) (e : Int) : Option Binary64 :=
  if e.natAbs ≤ greatestPower then
    if e < 0 then some (x / powerOfTen e.natAbs)
    else
      let y := x * powerOfTen e.natAbs
      if y.isInfinite then none else some y
  else if x.isZero then some x
  else if 0 ≤ e then none
  else scale (x / powerOfTen greatestPower) (e + greatestPower)
termination_by e.natAbs
decreasing_by simp only [greatestPower] at *; omega

/-- The magnitude, or none if it is out of range.  Whole digits that do not fit the word still
count as powers of ten; fraction digits that do not fit count for nothing. -/
def magnitude? (n : Numeral) : Option Binary64 :=
  let (word, excess) := gather 0 n.whole
  if excess.isEmpty && n.fraction.isNone && n.exponent.isNone then some (.ofNat word)
  else
    let fraction := n.fraction.getD []
    let (word, dropped) := gather word fraction
    let places : Int := excess.length - (fraction.length - dropped.length : Nat)
    scale (.ofNat word) (places + n.exponent.getD 0)

def value? (n : Numeral) : Option Binary64 :=
  n.magnitude?.map fun x => if n.negative then -x else x

end Numeral

end Conduit.Json
