/-!
Binary floating-point numbers of 64 bits with exact semantics: every operation takes the exact
rational result and rounds it once to the nearest number, a tie going to the even neighbour.
-/

namespace Conduit

namespace Binary64

def blockSize : Nat := 0x10000000000000

def top : Nat := 0x7ff * blockSize

def signBit : Nat := 0x8000000000000000

abbrev Magnitude := Fin (top + 1)

namespace Magnitude

def zero : Magnitude := ⟨0, Nat.succ_pos _⟩

def infinity : Magnitude := ⟨top, Nat.lt_succ_self _⟩

def ulpExponent (m : Magnitude) : Int :=
  if m.val < blockSize then -1074 else (m.val / blockSize : Nat) - 1075

def significand (m : Magnitude) : Nat :=
  if m.val < blockSize then m.val else blockSize + m.val % blockSize

def value (m : Magnitude) : Rat := (m.significand : Rat) * 2 ^ m.ulpExponent

end Magnitude

def nearestEven (n d : Nat) : Nat :=
  let q := n / d
  let r := n % d
  if 2 * r < d ∨ (2 * r = d ∧ q % 2 = 0) then q else q + 1

def scaledNearest (n d : Nat) (e : Int) : Nat :=
  nearestEven (n * Nat.pow 2 (-e).toNat) (d * Nat.pow 2 e.toNat)

def floorLog2 (n d : Nat) : Int :=
  let e : Int := (n.log2 : Int) - d.log2
  if d * Nat.pow 2 e.toNat ≤ n * Nat.pow 2 (-e).toNat then e else e - 1

/-- The place of the magnitude nearest to `n / d` in the sequence that goes on beyond `top`
without an end.  A significand that rounds up to the next power of two carries into the next
block by itself. -/
def nearestIndex (n d : Nat) : Nat :=
  if n = 0 then 0 else
  let e := max (floorLog2 n d - 52) (-1074)
  (e + 1074).toNat * blockSize + scaledNearest n d e

def Magnitude.nearest (q : Rat) : Magnitude :=
  ⟨min (nearestIndex q.num.natAbs q.den) top, by omega⟩

end Binary64

open Binary64 (Magnitude)

inductive Binary64
  | nan
  | signed (negative : Bool) (magnitude : Magnitude)
  deriving DecidableEq, Repr

namespace Binary64

def zero (negative : Bool) : Binary64 := signed negative .zero

def infinity (negative : Bool) : Binary64 := signed negative .infinity

def round (q : Rat) (negativeZero : Bool) : Binary64 :=
  signed (if q = 0 then negativeZero else q < 0) (.nearest q)

def ofNat (n : Nat) : Binary64 := round n false

def toRat : Binary64 → Rat
  | nan => 0
  | signed false m => if m = .infinity then 0 else m.value
  | signed true m => if m = .infinity then 0 else -m.value

def isZero : Binary64 → Bool
  | nan => false
  | signed _ m => m = .zero

def isInfinite : Binary64 → Bool
  | nan => false
  | signed _ m => m = .infinity

def rank? : Binary64 → Option Int
  | nan => none
  | signed negative m => some (if negative then -(m.val : Int) else m.val)

def ofBits (bits : UInt64) : Binary64 :=
  let place := bits.toNat % signBit
  if h : place < top + 1 then signed (signBit ≤ bits.toNat) ⟨place, h⟩ else nan

def toBits : Binary64 → UInt64
  | nan => 0x7ff8000000000000
  | signed negative m => .ofNat ((if negative then signBit else 0) + m.val)

protected def neg : Binary64 → Binary64
  | nan => nan
  | signed negative m => signed (!negative) m

protected def add : Binary64 → Binary64 → Binary64
  | nan, _ => nan
  | _, nan => nan
  | x@(signed s a), y@(signed t b) =>
    if a = .infinity then if b = .infinity ∧ s ≠ t then nan else x
    else if b = .infinity then y
    else round (x.toRat + y.toRat) (s && t)

protected def sub (x y : Binary64) : Binary64 := x.add y.neg

protected def mul : Binary64 → Binary64 → Binary64
  | nan, _ => nan
  | _, nan => nan
  | signed s a, signed t b =>
    if a = .infinity ∨ b = .infinity then
      if a = .zero ∨ b = .zero then nan else infinity (s ^^ t)
    else signed (s ^^ t) (.nearest (a.value * b.value))

protected def div : Binary64 → Binary64 → Binary64
  | nan, _ => nan
  | _, nan => nan
  | signed s a, signed t b =>
    if a = .infinity then if b = .infinity then nan else infinity (s ^^ t)
    else if b = .infinity then zero (s ^^ t)
    else if b = .zero then if a = .zero then nan else infinity (s ^^ t)
    else signed (s ^^ t) (.nearest (a.value / b.value))

instance : Neg Binary64 := ⟨Binary64.neg⟩
instance : Add Binary64 := ⟨Binary64.add⟩
instance : Sub Binary64 := ⟨Binary64.sub⟩
instance : Mul Binary64 := ⟨Binary64.mul⟩
instance : Div Binary64 := ⟨Binary64.div⟩

end Binary64

end Conduit
