import Conduit.Json.Decode

/-!
The texts of JSON documents, as a relation between trees and the bytes that spell them: any white
space between the tokens, any escapes in the strings.  How numbers are spelled is a parameter, so
that a result may be about all numerals or only about some.
-/

namespace Conduit.Json

open Decoder (byte isBlank isHighSurrogate isLowSurrogate hexValue?)

def Blanks (bytes : Bytes) : Prop := ∀ b ∈ bytes, isBlank b = true

instance (bytes : Bytes) : Decidable (Blanks bytes) := List.decidableBAll _ bytes

theorem blanks_nil : Blanks [] := nofun

theorem Blanks.append {bytes bytes' : Bytes} (first : Blanks bytes) (second : Blanks bytes') :
    Blanks (bytes ++ bytes') := fun b mem => (List.mem_append.1 mem).elim (first b) (second b)

/-! ### Strings -/

def HexCode (n : Nat) (digits : Bytes) : Prop :=
  digits.length = 4 ∧ ∃ ds, digits.mapM hexValue? = some ds ∧ ds.foldl (fun n d => n * 16 + d) 0 = n

def shortEscapes : List (Char × Char) :=
  [('"', '"'), ('\\', '\\'), ('/', '/'), ('b', '\x08'), ('f', '\x0c'), ('n', '\n'), ('r', '\r'),
    ('t', '\t')]

inductive Escape : Char → Bytes → Prop
  | letter {letter c : Char} (names : (letter, c) ∈ shortEscapes) : Escape c [byte letter]
  | code {c : Char} {digits : Bytes} (code : HexCode c.toNat digits) :
    Escape c (byte 'u' :: digits)
  | pair {c : Char} {high low : Nat} {digits digits' : Bytes} (first : HexCode high digits)
    (second : HexCode low digits') (isHigh : isHighSurrogate high = true)
    (isLow : isLowSurrogate low = true)
    (value : c.toNat = (high - 0xd800) * 0x400 + (low - 0xdc00) + 0x10000) :
    Escape c (byte 'u' :: digits ++ byte '\\' :: byte 'u' :: digits')

def Plain (c : Char) : Prop := 0x20 ≤ c.toNat ∧ c ≠ '"' ∧ c ≠ '\\'

instance (c : Char) : Decidable (Plain c) :=
  inferInstanceAs (Decidable (0x20 ≤ c.toNat ∧ c ≠ '"' ∧ c ≠ '\\'))

inductive Quoted : List Char → Bytes → Prop
  | nil : Quoted [] []
  | plain {c : Char} {cs : List Char} {text : Bytes} (plain : Plain c) (rest : Quoted cs text) :
    Quoted (c :: cs) (String.utf8EncodeChar c ++ text)
  | escaped {c : Char} {cs : List Char} {escape text : Bytes} (escaped : Escape c escape)
    (rest : Quoted cs text) : Quoted (c :: cs) (byte '\\' :: escape ++ text)

def StringText (s : String) (text : Bytes) : Prop :=
  ∃ body, Quoted s.toList body ∧ text = byte '"' :: body ++ [byte '"']

/-! ### Numbers -/

structure Digits where
  chars : List Char
  digits : chars.all isDigit = true
  nonempty : chars ≠ []

inductive ExponentSign
  | none | plus | minus
  deriving DecidableEq

def ExponentSign.chars : ExponentSign → List Char
  | none => []
  | plus => ['+']
  | minus => ['-']

def exponentOf? (allZero negative : Bool) (size : Nat) : Option Int :=
  if size < Decoder.exponentLimit then some (if negative then -(size : Int) else size)
  else if allZero || negative then some (-Decoder.exponentLimit)
  else none

structure Exponent where
  letter : Char
  isLetter : letter = 'e' ∨ letter = 'E'
  sign : ExponentSign
  digits : Digits

def Exponent.chars (e : Exponent) : List Char := e.letter :: e.sign.chars ++ e.digits.chars

structure NumberText where
  negative : Bool
  whole : Digits
  noLeadingZero : whole.chars.head? = some '0' → whole.chars = ['0']
  fraction : Option Digits
  exponent : Option Exponent

namespace NumberText

def body (n : NumberText) : List Char :=
  n.whole.chars ++ (n.fraction.elim [] fun ds => '.' :: ds.chars) ++ n.exponent.elim [] (·.chars)

def chars (n : NumberText) : List Char := if n.negative then '-' :: n.body else n.body

def bytes (n : NumberText) : Bytes := n.chars.map byte

def fractionDigits (n : NumberText) : Option (List Char) := n.fraction.map (·.chars)

def allZero (n : NumberText) : Bool :=
  (n.whole.chars ++ n.fractionDigits.getD []).all (· = '0')

def exponentValue? (n : NumberText) (e : Exponent) : Option Int :=
  exponentOf? n.allZero (e.sign = .minus) (digitsValue e.digits.chars)

def numeral? (n : NumberText) : Option Numeral :=
  match n.exponent with
  | none => some ⟨n.negative, n.whole.chars, n.fractionDigits, none⟩
  | some e =>
    (n.exponentValue? e).map fun e => ⟨n.negative, n.whole.chars, n.fractionDigits, some e⟩

def value? (n : NumberText) : Option Binary64 := n.numeral?.bind Numeral.value?

end NumberText

def Number (x : Binary64) (text : Bytes) : Prop :=
  ∃ n : NumberText, text = n.bytes ∧ n.value? = some x

/-! ### Trees -/

section Trees

variable {α : Type}

inductive More (spells : α → Bytes → Prop) : List α → Bytes → Prop
  | nil {blanks : Bytes} (all : Blanks blanks) : More spells [] blanks
  | cons {x : α} {xs : List α} {before after text rest : Bytes} (allBefore : Blanks before)
    (allAfter : Blanks after) (first : spells x text) (others : More spells xs rest) :
    More spells (x :: xs) (before ++ byte ',' :: after ++ text ++ rest)

inductive Elements (spells : α → Bytes → Prop) : List α → Bytes → Prop
  | nil {blanks : Bytes} (all : Blanks blanks) : Elements spells [] blanks
  | cons {x : α} {xs : List α} {before text rest : Bytes} (allBefore : Blanks before)
    (first : spells x text) (others : More spells xs rest) :
    Elements spells (x :: xs) (before ++ text ++ rest)

inductive Field (spells : Json → Bytes → Prop) : String × Json → Bytes → Prop
  | mk {key : String} {j : Json} {name before after text : Bytes} (named : StringText key name)
    (allBefore : Blanks before) (allAfter : Blanks after) (value : spells j text) :
    Field spells (key, j) (name ++ before ++ byte ':' :: after ++ text)

def word (w : String) : Bytes := w.toList.map byte

def literals : List (String × Json) :=
  [("null", .null), ("true", .bool true), ("false", .bool false)]

inductive Scalar (number : Binary64 → Bytes → Prop) : Json → Bytes → Prop
  | literal {w : String} {j : Json} (names : (w, j) ∈ literals) : Scalar number j (word w)
  | number {x : Binary64} {text : Bytes} (reads : number x text) : Scalar number (.number x) text
  | string {s : String} {text : Bytes} (quoted : StringText s text) :
    Scalar number (.string s) text

inductive Compound (spells : Json → Bytes → Prop) : Json → Bytes → Prop
  | array {js : List Json} {text : Bytes} (elements : Elements spells js text) :
    Compound spells (.array js) (byte '[' :: text ++ [byte ']'])
  | object {fs : List (String × Json)} {text : Bytes} (elements : Elements (Field spells) fs text) :
    Compound spells (.object fs) (byte '{' :: text ++ [byte '}'])

/-- A tree whose arrays and objects are nested no more than so many levels deep, and the bytes that
spell it where numbers are spelled in the given way. -/
def Spells (number : Binary64 → Bytes → Prop) : Nat → Json → Bytes → Prop
  | 0, j, text => Scalar number j text
  | depth + 1, j, text => Scalar number j text ∨ Compound (Spells number depth) j text

/-- Trees spelled one after the other, each with white space or nothing behind it, and then a
tail. -/
inductive Stream (spells : Json → Bytes → Prop) (tail : Bytes) : List Json → Bytes → Prop
  | nil : Stream spells tail [] tail
  | cons {j : Json} {js : List Json} {before text rest : Bytes} (all : Blanks before)
    (first : spells j text) (separated : ∀ b ∈ rest.head?, isBlank b = true)
    (others : Stream spells tail js rest) : Stream spells tail (j :: js) (before ++ (text ++ rest))

theorem Stream.one {spells : Json → Bytes → Prop} {j : Json} {text : Bytes}
    (spelled : spells j text) : Stream spells [] [j] text := by
  have stream : Stream spells [] [j] ([] ++ (text ++ [])) := .cons blanks_nil spelled nofun .nil
  rwa [List.nil_append, List.append_nil] at stream

end Trees

/-! ### Fewer ways to spell numbers -/

section Mono

variable {α : Type} {spells spells' : α → Bytes → Prop} {text : Bytes}

theorem More.mono {xs : List α} (fewer : ∀ x text, spells x text → spells' x text)
    (more : More spells xs text) : More spells' xs text := by
  induction more with
  | nil all => exact .nil all
  | cons allBefore allAfter first _ ih => exact .cons allBefore allAfter (fewer _ _ first) ih

theorem Elements.mono {xs : List α} (fewer : ∀ x text, spells x text → spells' x text)
    (elements : Elements spells xs text) : Elements spells' xs text := by
  cases elements with
  | nil all => exact .nil all
  | cons allBefore first others => exact .cons allBefore (fewer _ _ first) (others.mono fewer)

end Mono

theorem Spells.mono {number number' : Binary64 → Bytes → Prop}
    (fewer : ∀ x text, number x text → number' x text) {depth : Nat} {j : Json} {text : Bytes}
    (spelled : Spells number depth j text) : Spells number' depth j text := by
  have scalars {j : Json} {text : Bytes} (scalar : Scalar number j text) :
      Scalar number' j text := by
    cases scalar with
    | literal names => exact .literal names
    | number reads => exact .number (fewer _ _ reads)
    | string quoted => exact .string quoted
  induction depth generalizing j text with
  | zero => exact scalars spelled
  | succ depth ih =>
    refine Or.imp scalars (fun compound => ?_) spelled
    cases compound with
    | array elements => exact .array (elements.mono fun _ _ => ih)
    | object elements =>
      refine .object (elements.mono fun f text field => ?_)
      cases field with
      | mk named allBefore allAfter value => exact .mk named allBefore allAfter (ih value)

theorem Stream.mono {spells spells' : Json → Bytes → Prop} {tail bytes : Bytes} {js : List Json}
    (fewer : ∀ j text, spells j text → spells' j text) (stream : Stream spells tail js bytes) :
    Stream spells' tail js bytes := by
  induction stream with
  | nil => exact .nil
  | cons all first separated _ ih => exact .cons all (fewer _ _ first) separated ih

end Conduit.Json
