import Conduit.Json.Basic
import Conduit.Json.Cursor
import Conduit.Json.Numeral
import Conduit.Text.Utf8

/-!
Decoding JSON documents, one after the other, from a stream of bytes.
-/

namespace Conduit.Json.Decoder

def byte (c : Char) : UInt8 := c.toNat.toUInt8

def isBlank (b : UInt8) : Bool := b = 0x20 || b = 0x0a || b = 0x09 || b = 0x0d

def isDigitByte (b : UInt8) : Bool := byte '0' ≤ b && b ≤ byte '9'

def skipBlank : Decoder (Option UInt8) := do
  let _ ← takeWhile isBlank
  peek

def expect : List UInt8 → Decoder Unit
  | [] => pure ()
  | b :: rest => do
    if (← nextOr .endInValue) = b then expect rest else fail .expectedIdent

/-! ### Numbers -/

def digits : Decoder (List Char) := do
  let ds ← takeWhile isDigitByte
  pure (ds.map fun b => Char.ofNat b.toNat)

def wholePart : Decoder (List Char) := do
  let first ← nextOr .endInValue
  if first = byte '0' then
    match ← peek with
    | some b => if isDigitByte b then fail .invalidNumber else pure ['0']
    | none => pure ['0']
  else if isDigitByte first then
    let ds ← digits
    pure (Char.ofNat first.toNat :: ds)
  else fail .invalidNumber

def fractionPart : Decoder (Option (List Char)) := do
  if (← peek) ≠ some (byte '.') then pure none
  else
    discard
    let ds ← digits
    if ds.isEmpty then
      let _ ← peekOr .endInValue
      fail .invalidNumber
    else pure (some ds)

def exponentLimit : Nat := 0x80000000

def exponentDigits : Nat → Nat → Decoder (Option Nat)
  | 0, e => pure (some e)
  | fuel + 1, e => do
    match ← peek with
    | some b =>
      if isDigitByte b then
        discard
        let longer := e * 10 + digitValue (Char.ofNat b.toNat)
        if longer < exponentLimit then exponentDigits fuel longer else pure none
      else pure (some e)
    | none => pure (some e)

def exponentPart (allZero : Bool) : Decoder (Option Int) := do
  let b ← peek
  if b ≠ some (byte 'e') ∧ b ≠ some (byte 'E') then pure none
  else
    discard
    let sign ← peek
    let negative := sign = some (byte '-')
    if negative ∨ sign = some (byte '+') then discard
    let first ← nextOr .endInValue
    if !isDigitByte first then fail .invalidNumber
    else
      let e ← fun c => exponentDigits (c.rest.length + 2) (digitValue (Char.ofNat first.toNat)) c
      match e with
      | some e => pure (some (if negative then -(e : Int) else e))
      | none =>
        if !allZero ∧ !negative then fail .numberOutOfRange
        else
          let _ ← digits
          pure (some (-exponentLimit))

def number (negative : Bool) : Decoder Json := do
  let whole ← wholePart
  let fraction ← fractionPart
  let exponent ← exponentPart ((whole ++ fraction.getD []).all (· = '0'))
  match Numeral.value? ⟨negative, whole, fraction, exponent⟩ with
  | some x => pure (.number x)
  | none => fail .numberOutOfRange

/-! ### Strings -/

def hexValue? (b : UInt8) : Option Nat :=
  let c := Char.ofNat b.toNat
  if '0' ≤ c ∧ c ≤ '9' then some (c.toNat - '0'.toNat)
  else if 'a' ≤ c ∧ c ≤ 'f' then some (c.toNat - 'a'.toNat + 10)
  else if 'A' ≤ c ∧ c ≤ 'F' then some (c.toNat - 'A'.toNat + 10)
  else none

def hexCode : Decoder Nat := do
  let a ← nextOr .endInString
  let b ← nextOr .endInString
  let c ← nextOr .endInString
  let d ← nextOr .endInString
  match [a, b, c, d].mapM hexValue? with
  | some ds => pure (ds.foldl (fun n d => n * 16 + d) 0)
  | none => fail .invalidEscape

def isHighSurrogate (n : Nat) : Bool := 0xd800 ≤ n && n ≤ 0xdbff

def isLowSurrogate (n : Nat) : Bool := 0xdc00 ≤ n && n ≤ 0xdfff

def continueEscape (b : UInt8) : Decoder Unit := do
  let found ← peekOr .endInString
  discard
  if found ≠ b then fail .unfinishedSurrogate

def codeEscape : Decoder Char := do
  let n ← hexCode
  if isLowSurrogate n then fail .loneSurrogate
  else if isHighSurrogate n then
    continueEscape (byte '\\')
    continueEscape (byte 'u')
    let low ← hexCode
    if isLowSurrogate low then
      pure (Char.ofNat ((n - 0xd800) * 0x400 + (low - 0xdc00) + 0x10000))
    else fail .loneSurrogate
  else pure (Char.ofNat n)

def escape : Decoder Char := do
  let b ← nextOr .endInString
  match Char.ofNat b.toNat with
  | '"' => pure '"'
  | '\\' => pure '\\'
  | '/' => pure '/'
  | 'b' => pure '\x08'
  | 'f' => pure '\x0c'
  | 'n' => pure '\n'
  | 'r' => pure '\r'
  | 't' => pure '\t'
  | 'u' => codeEscape
  | _ => fail .invalidEscape

def isPlain (b : UInt8) : Bool := 0x20 ≤ b && b ≠ byte '"' && b ≠ byte '\\'

def stringBytes : Nat → Bytes → Decoder Bytes
  | 0, _ => fail .endInString
  | fuel + 1, read => do
    let plain ← takeWhile isPlain
    let b ← nextOr .endInString
    if b = byte '"' then pure (read ++ plain)
    else if b = byte '\\' then
      let c ← escape
      stringBytes fuel (read ++ plain ++ Utf8.encode (String.singleton c))
    else fail .controlCharacter

def stringText : Decoder String := do
  let bytes ← fun c => stringBytes (c.rest.length + 1) [] c
  match Utf8.decode? bytes with
  | some s => pure s
  | none => failBefore (bytes.length - Utf8.validLength bytes) .invalidCodePoint

/-! ### Arrays and objects -/

def items (value : Decoder Json) : Nat → List Json → Decoder (List Json)
  | 0, _ => fail .endInList
  | fuel + 1, read => do
    match ← skipBlank with
    | none => fail .endInList
    | some b =>
      if b = byte ']' then pure read.reverse
      else if read.isEmpty then
        let j ← value
        items value fuel (j :: read)
      else if b = byte ',' then
        discard
        match ← skipBlank with
        | none => fail .endInValue
        | some b =>
          if b = byte ']' then fail .trailingComma
          else
            let j ← value
            items value fuel (j :: read)
      else fail .expectedListCommaOrEnd

def field (value : Decoder Json) : Decoder (String × Json) := do
  discard
  let key ← stringText
  match ← skipBlank with
  | none => fail .endInObject
  | some b =>
    if b = byte ':' then
      discard
      let j ← value
      pure (key, j)
    else fail .expectedColon

def fields (value : Decoder Json) : Nat → List (String × Json) → Decoder (List (String × Json))
  | 0, _ => fail .endInObject
  | fuel + 1, read => do
    match ← skipBlank with
    | none => fail .endInObject
    | some b =>
      if b = byte '}' then pure read.reverse
      else if read.isEmpty then
        if b = byte '"' then
          let f ← field value
          fields value fuel (f :: read)
        else fail .keyMustBeString
      else if b = byte ',' then
        discard
        match ← skipBlank with
        | none => fail .endInValue
        | some b =>
          if b = byte '"' then
            let f ← field value
            fields value fuel (f :: read)
          else if b = byte '}' then fail .trailingComma
          else fail .keyMustBeString
      else fail .expectedObjectCommaOrEnd

def closeList : Decoder Unit := do
  match ← skipBlank with
  | none => fail .endInList
  | some b =>
    if b = byte ']' then discard
    else if b = byte ',' then
      discard
      let _ ← skipBlank
      fail .trailingComma
    else fail .trailingCharacters

def closeObject : Decoder Unit := do
  match ← skipBlank with
  | none => fail .endInObject
  | some b => if b = byte '}' then discard else fail .trailingCharacters

def withTurns {α : Type} (loop : Nat → Decoder α) : Decoder α := fun c =>
  loop (c.rest.length + 2) c

def value : Nat → Decoder Json
  | 0 => fail .recursionLimit
  | levels + 1 => do
    match ← skipBlank with
    | none => fail .endInValue
    | some b =>
      match Char.ofNat b.toNat with
      | 'n' => do
        discard
        expect ("ull".toList.map byte)
        pure .null
      | 't' => do
        discard
        expect ("rue".toList.map byte)
        pure (.bool true)
      | 'f' => do
        discard
        expect ("alse".toList.map byte)
        pure (.bool false)
      | '-' => do
        discard
        number true
      | '"' => do
        discard
        let s ← stringText
        pure (.string s)
      | '[' =>
        if levels = 0 then fail .recursionLimit
        else do
          discard
          let js ← closing (withTurns fun n => items (value levels) n []) closeList
          pure (.array js)
      | '{' =>
        if levels = 0 then fail .recursionLimit
        else do
          discard
          let fs ← closing (withTurns fun n => fields (value levels) n []) closeObject
          pure (.object fs)
      | _ => if isDigitByte b then number false else fail .expectedValue

/-! ### Streams of documents -/

def levelLimit : Nat := 128

def mayFollow (b : UInt8) : Bool := isBlank b || ("\"[]\x7b\x7d,:".toList.map byte).contains b

def delimitsItself (b : UInt8) : Bool := b = byte '[' || b = byte '"' || b = byte '{'

def document : Decoder (Option Json) := do
  match ← skipBlank with
  | none => pure none
  | some b =>
    let j ← value levelLimit
    if delimitsItself b then pure (some j)
    else
      match ← peek with
      | none => pure (some j)
      | some b => if mayFollow b then pure (some j) else fail .trailingCharacters

end Conduit.Json.Decoder
