import Conduit.Number.Binary64

/-!
Decimal literals such as `-1.25e3`: their grammar, their exact value, and the float that a
literal or one of the words for infinity and not-a-number denotes.
-/

namespace Conduit

def isDigit (c : Char) : Bool := '0' ≤ c && c ≤ '9'

def digitValue (c : Char) : Nat := c.toNat - '0'.toNat

def digitsValue (ds : List Char) : Nat := ds.foldl (fun n c => 10 * n + digitValue c) 0

def splitSign : List Char → Bool × List Char
  | '-' :: cs => (true, cs)
  | '+' :: cs => (false, cs)
  | cs => (false, cs)

def readInteger? (cs : List Char) : Option Int :=
  let (negative, ds) := splitSign cs
  if ds.isEmpty || !ds.all isDigit then none
  else some (if negative then -(digitsValue ds : Int) else digitsValue ds)

structure Literal where
  negative : Bool
  whole : List Char
  fraction : List Char
  exponent : Int
  deriving DecidableEq, Repr

namespace Literal

def digits (l : Literal) : List Char := l.whole ++ l.fraction

def scale (l : Literal) : Int := l.exponent - l.fraction.length

def magnitude (l : Literal) : Rat := (digitsValue l.digits : Rat) * 10 ^ l.scale

def value (l : Literal) : Rat := if l.negative then -l.magnitude else l.magnitude

def readExponent? : List Char → Option Int
  | [] => some 0
  | c :: cs => if c = 'e' ∨ c = 'E' then readInteger? cs else none

def read? (cs : List Char) : Option Literal :=
  let (negative, body) := splitSign cs
  let (whole, rest) := body.span isDigit
  let (fraction, rest) := match rest with
    | '.' :: rest => rest.span isDigit
    | rest => ([], rest)
  if whole.isEmpty && fraction.isEmpty then none
  else (readExponent? rest).map (⟨negative, whole, fraction, ·⟩)

def toBinary64 (l : Literal) : Binary64 :=
  let significant := l.digits.dropWhile (· = '0')
  let leading : Int := significant.length + l.scale
  if significant.isEmpty || leading < -400 then .zero l.negative
  else if 400 < leading then .infinity l.negative
  else .signed l.negative (.nearest l.magnitude)

end Literal

def readSpecial? (cs : List Char) : Option Binary64 :=
  let (negative, word) := splitSign cs
  let word := String.ofList (word.map Char.toLower)
  if word = "inf" ∨ word = "infinity" then some (.infinity negative)
  else if word = "nan" then some .nan
  else none

def Binary64.parse? (text : String) : Option Binary64 :=
  match Literal.read? text.toList with
  | some l => some l.toBinary64
  | none => readSpecial? text.toList

end Conduit
