import Conduit.System.Stream

/-!
Reading JSON text byte by byte from a stream of which only a part may be at hand.  A decoder
either answers, or fails with an error that has a position, or finds that the bytes at hand end
where it cannot tell yet how the text goes on.
-/

namespace Conduit.Json

inductive Fault
  | endInList | endInObject | endInString | endInValue
  | expectedColon | expectedListCommaOrEnd | expectedObjectCommaOrEnd
  | expectedIdent | expectedValue
  | invalidEscape | invalidNumber | numberOutOfRange | invalidCodePoint
  | controlCharacter | keyMustBeString | loneSurrogate
  | trailingComma | trailingCharacters | unfinishedSurrogate
  | recursionLimit
  | io (message : String)
  deriving DecidableEq, Repr

def Fault.message : Fault → String
  | endInList => "EOF while parsing a list"
  | endInObject => "EOF while parsing an object"
  | endInString => "EOF while parsing a string"
  | endInValue => "EOF while parsing a value"
  | expectedColon => "expected \x60:\x60"
  | expectedListCommaOrEnd => "expected \x60,\x60 or \x60]\x60"
  | expectedObjectCommaOrEnd => "expected \x60,\x60 or \x60\x7d\x60"
  | expectedIdent => "expected ident"
  | expectedValue => "expected value"
  | invalidEscape => "invalid escape"
  | invalidNumber => "invalid number"
  | numberOutOfRange => "number out of range"
  | invalidCodePoint => "invalid unicode code point"
  | controlCharacter => "control character (\\u0000-\\u001F) found while parsing a string"
  | keyMustBeString => "key must be a string"
  | loneSurrogate => "lone leading surrogate in hex escape"
  | trailingComma => "trailing comma"
  | trailingCharacters => "trailing characters"
  | unfinishedSurrogate => "unexpected end of hex escape"
  | recursionLimit => "recursion limit exceeded"
  | io message => message

structure Position where
  line : Nat := 1
  column : Nat := 0
  deriving DecidableEq, Repr, Inhabited

def Position.after (p : Position) (b : UInt8) : Position :=
  if b = 0x0a then ⟨p.line + 1, 0⟩ else ⟨p.line, p.column + 1⟩

structure Error where
  fault : Fault
  position : Option Position
  deriving DecidableEq, Repr

def Error.message (e : Error) : String :=
  match e.position with
  | none => e.fault.message
  | some p =>
    e.fault.message ++ " at line " ++ toString p.line ++ " column " ++ toString p.column

inductive Ending
  | open
  | finished
  | failing (message : String)
  deriving DecidableEq, Repr

structure Cursor where
  rest : Bytes
  ending : Ending
  peeked : Option UInt8
  position : Position
  deriving Repr

inductive Result (α : Type)
  | ok (a : α) (c : Cursor)
  | failed (e : Error) (c : Cursor)
  | starved

abbrev Decoder (α : Type) := Cursor → Result α

namespace Decoder

variable {α β : Type}

protected def pure (a : α) : Decoder α := fun c => .ok a c

protected def bind (d : Decoder α) (f : α → Decoder β) : Decoder β := fun c =>
  match d c with
  | .ok a c => f a c
  | .failed e c => .failed e c
  | .starved => .starved

instance : Monad Decoder where
  pure := Decoder.pure
  bind := Decoder.bind

def fail (fault : Fault) : Decoder α := fun c => .failed ⟨fault, some c.position⟩ c

def failBefore (back : Nat) (fault : Fault) : Decoder α := fun c =>
  .failed ⟨fault, some { c.position with column := c.position.column - back }⟩ c

def closing (d : Decoder α) (close : Decoder Unit) : Decoder α := fun c =>
  let settle (e : Error) (c : Cursor) : Result α :=
    .failed { e with position := e.position.or (some c.position) } c
  match d c with
  | .starved => .starved
  | .ok a c =>
    match close c with
    | .ok () c => .ok a c
    | .failed e c => settle e c
    | .starved => .starved
  | .failed e c =>
    match close c with
    | .ok () c | .failed _ c => settle e c
    | .starved => .starved

def peek : Decoder (Option UInt8) := fun c =>
  match c.peeked, c.rest, c.ending with
  | some b, _, _ => .ok (some b) c
  | none, b :: rest, _ =>
    .ok (some b) { c with rest, peeked := some b, position := c.position.after b }
  | none, [], .open => .starved
  | none, [], .finished => .ok none c
  | none, [], .failing message => .failed ⟨.io message, none⟩ c

def discard : Decoder Unit := fun c => .ok () { c with peeked := none }

def next : Decoder (Option UInt8) := do
  let b ← peek
  discard
  pure b

def nextOr (fault : Fault) : Decoder UInt8 := do
  match ← next with
  | some b => pure b
  | none => fail fault

def peekOr (fault : Fault) : Decoder UInt8 := do
  match ← peek with
  | some b => pure b
  | none => fail fault

def takeWhile (test : UInt8 → Bool) : Decoder Bytes := fun c =>
  let pending := match c.peeked with
    | some b => [b]
    | none => []
  if !pending.all test then .ok [] c
  else
    let fitting := c.rest.takeWhile test
    let position := fitting.foldl Position.after c.position
    (do
      let _ ← peek
      pure (pending ++ fitting) : Decoder Bytes)
      { c with rest := c.rest.dropWhile test, peeked := none, position }

end Decoder

end Conduit.Json
