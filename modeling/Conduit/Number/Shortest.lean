import Conduit.Number.Literal

/-!
The shortest decimal that reads back as a given float, and the general form in which floats
are printed.
-/

namespace Conduit

structure Scientific where
  coefficient : Nat
  exponent : Int
  deriving DecidableEq, Repr

namespace Scientific

def digits (s : Scientific) : List Char := Nat.toDigits 10 s.coefficient

def scale (s : Scientific) : Int := s.exponent + 1 - s.digits.length

def value (s : Scientific) : Rat := (s.coefficient : Rat) * 10 ^ s.scale

end Scientific

namespace Binary64

def floorLog10 (n d : Nat) : Int :=
  if d ≤ n then ((Nat.toDigits 10 (n / d)).length : Int) - 1
  else
    let k := (Nat.toDigits 10 (d / n)).length - 1
    if d ≤ n * Nat.pow 10 k then -k else -k - 1

def neighbours (n d : Nat) (e : Int) : List Nat :=
  let num := n * Nat.pow 10 (-e).toNat
  let den := d * Nat.pow 10 e.toNat
  let low := num / den
  if 2 * (num % den) < den then [low, low + 1] else [low + 1, low]

def decimalOf? (m : Magnitude) (count : Nat) : Option Scientific :=
  let n := m.value.num.natAbs
  let d := m.value.den
  let lead := floorLog10 n d
  let e := lead + 1 - count
  ((neighbours n d e).find? fun c =>
      nearestIndex (c * Nat.pow 10 e.toNat) (Nat.pow 10 (-e).toNat) = m.val).map fun c =>
    if c = Nat.pow 10 count then ⟨1, lead + 1⟩ else ⟨c, lead⟩

def exactDecimal (m : Magnitude) : Scientific :=
  let n := m.value.num.natAbs
  let d := m.value.den
  -- A denominator is a power of two, so multiplying by as many fives clears it.
  let c := n * Nat.pow 5 d.log2
  ⟨digitsValue ((Nat.toDigits 10 c).reverse.dropWhile (· = '0')).reverse, floorLog10 n d⟩

/-- The decimal with the fewest digits that reads back as `m`, the nearest of those. -/
def shortest (m : Magnitude) : Scientific :=
  ((List.range 17).findSome? fun k => decimalOf? m (k + 1)).getD (exactDecimal m)

end Binary64

namespace Scientific

def needsExponent (e : Int) : Bool := e < -4 || 6 ≤ e

def formatExponent (e : Int) : List Char :=
  let ds := Nat.toDigits 10 e.natAbs
  (if e < 0 then '-' else '+') :: if ds.length < 2 then '0' :: ds else ds

/-- The general form: positional for exponents from `-4` to `5`, otherwise one digit, the
rest behind a point, and an exponent with a sign and at least two digits. -/
def format (s : Scientific) : List Char :=
  let ds := s.digits
  if needsExponent s.exponent then
    ds.take 1 ++ (if ds.length ≤ 1 then [] else '.' :: ds.drop 1) ++ 'e' :: formatExponent s.exponent
  else if s.exponent < 0 then
    '0' :: '.' :: List.replicate (s.exponent.natAbs - 1) '0' ++ ds
  else
    let point := s.exponent.toNat + 1
    if ds.length ≤ point then ds ++ List.replicate (point - ds.length) '0'
    else ds.take point ++ '.' :: ds.drop point

end Scientific

def Binary64.format : Binary64 → String
  | nan => "NaN"
  | signed negative m =>
    if m = .infinity then if negative then "-Inf" else "+Inf"
    else
      let body := if m = .zero then ['0'] else (shortest m).format
      String.ofList (if negative then '-' :: body else body)

end Conduit
