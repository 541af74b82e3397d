/-!
UTF-8: the bytes of a text, and reading bytes that need not be a text.  Bytes are read in units,
each either a character or a longest piece that starts like one and is none.
-/

namespace Conduit.Utf8

def encode (s : String) : List UInt8 := s.toUTF8.data.toList

def tailLength? (lead : Nat) : Option Nat :=
  if lead < 0x80 then some 0
  else if 0xc2 ≤ lead ∧ lead ≤ 0xdf then some 1
  else if 0xe0 ≤ lead ∧ lead ≤ 0xef then some 2
  else if 0xf0 ≤ lead ∧ lead ≤ 0xf4 then some 3
  else none

/-- The least and the greatest byte that may come second.  These bounds leave out longer forms
of a shorter code, surrogates, and what lies beyond the last code point. -/
def secondBounds (lead : Nat) : Nat × Nat :=
  if lead = 0xe0 then (0xa0, 0xbf)
  else if lead = 0xed then (0x80, 0x9f)
  else if lead = 0xf0 then (0x90, 0xbf)
  else if lead = 0xf4 then (0x80, 0x8f)
  else (0x80, 0xbf)

def leadBits (lead tail : Nat) : Nat :=
  match tail with
  | 0 => lead
  | 1 => lead - 0xc0
  | 2 => lead - 0xe0
  | _ => lead - 0xf0

def takeTail (code : Nat) : Nat → Nat × Nat → List UInt8 → Option Nat × List UInt8
  | 0, _, bytes => (some code, bytes)
  | _ + 1, _, [] => (none, [])
  | n + 1, (low, high), b :: rest =>
    if low ≤ b.toNat ∧ b.toNat ≤ high then
      takeTail (code * 0x40 + (b.toNat - 0x80)) n (0x80, 0xbf) rest
    else (none, b :: rest)

theorem length_takeTail_le (code n : Nat) (bounds : Nat × Nat) (bytes : List UInt8) :
    (takeTail code n bounds bytes).2.length ≤ bytes.length := by
  induction bytes generalizing code n bounds with
  | nil => cases n <;> simp [takeTail]
  | cons b rest ih =>
    cases n with
    | zero => simp [takeTail]
    | succ n =>
      obtain ⟨low, high⟩ := bounds
      rw [takeTail]
      split
      · exact Nat.le_succ_of_le (ih _ _ _)
      · exact Nat.le_refl _

def takeUnit (lead : UInt8) (rest : List UInt8) : Option Char × List UInt8 :=
  match tailLength? lead.toNat with
  | none => (none, rest)
  | some n =>
    let (code, rest) := takeTail (leadBits lead.toNat n) n (secondBounds lead.toNat) rest
    (code.map Char.ofNat, rest)

theorem length_takeUnit_le (lead : UInt8) (rest : List UInt8) :
    (takeUnit lead rest).2.length ≤ rest.length := by
  unfold takeUnit
  split
  · exact Nat.le_refl _
  · exact length_takeTail_le _ _ _ _

def units : List UInt8 → List (Option Char)
  | [] => []
  | b :: rest =>
    have : (takeUnit b rest).2.length < rest.length + 1 :=
      Nat.lt_succ_of_le (length_takeUnit_le b rest)
    (takeUnit b rest).1 :: units (takeUnit b rest).2
termination_by bytes => bytes.length

def decodeLossy (bytes : List UInt8) : String :=
  String.ofList ((units bytes).map (·.getD '\ufffd'))

def decode? (bytes : List UInt8) : Option String :=
  let us := units bytes
  if us.all Option.isSome then some (String.ofList (us.filterMap id)) else none

def notText : String := "stream did not contain valid UTF-8"

def validLength : List UInt8 → Nat
  | [] => 0
  | b :: rest =>
    have : (takeUnit b rest).2.length < rest.length + 1 :=
      Nat.lt_succ_of_le (length_takeUnit_le b rest)
    if (takeUnit b rest).1.isNone then 0
    else (rest.length + 1 - (takeUnit b rest).2.length) + validLength (takeUnit b rest).2
termination_by bytes => bytes.length

end Conduit.Utf8
