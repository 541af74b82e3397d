import Conduit.Proofs.Builtin.Lines
import Conduit.Proofs.Text.Lossy

/-!
Lines read from bytes that need not be a text: they are the lines of what the bytes come to as a
text, up to their end or to an error in front of it.
-/

namespace Conduit

open Proc (Meets)
open StreamEnd (newline)
open Text (lines)

variable {h : Host} {ctx : Context} {s : System} {vs : List Value} {bytes : Bytes} {count : Nat}

namespace Builtin

def textLines (text : String) : List String := (lines '\n' text.toList).map String.ofList

def endedLines (text : String) : List String := (pieces text).dropLast

theorem map_stringOf (rows : List Bytes) : rows.map stringOf =
    ((rows.map fun row => (Utf8.decodeLossy row).toList).map String.ofList).map .string := by
  simp [stringOf, Function.comp_def]

theorem stringOf_lines (bytes : Bytes) : (lines newline bytes).map stringOf =
    (textLines (Utf8.decodeLossy bytes)).map .string := by
  rw [map_stringOf, textLines, Utf8.lines_decodeLossy]

theorem stringOf_endedLines (bytes : Bytes) : (bytes.splitOn newline).dropLast.map stringOf =
    (endedLines (Utf8.decodeLossy bytes)).map .string := by
  rw [map_stringOf, endedLines, pieces, Utf8.splitOn_decodeLossy, List.map_dropLast,
    List.map_dropLast]

/-- Whatever the bytes are, their lines are those of the text that all of them come to, and no byte
ends the reading or joins two lines: all lines up to the end, or in front of an error those that
are ended. -/
theorem lines_of_any_bytes (h : Host) (ctx : Context) (s : System) (bytes : Bytes)
    (vs : List Value) (count : Nat) :
    (s.BytesLeft ctx.input.stream bytes none →
      s.ValuesWritten ctx.output.channel vs
        ((textLines (Utf8.decodeLossy bytes)).length + count) →
      Meets h (fromLines ctx) s fun r s' => r = .ok ∧ s'.ValuesWritten ctx.output.channel
        (vs ++ (textLines (Utf8.decodeLossy bytes)).map .string) count) ∧
    ∀ message, s.BytesLeft ctx.input.stream bytes (some message) →
      s.ValuesWritten ctx.output.channel vs
        ((endedLines (Utf8.decodeLossy bytes)).length + count) →
      Meets h (fromLines ctx) s fun r s' => r = .failure message ∧
        s'.ValuesWritten ctx.output.channel
          (vs ++ (endedLines (Utf8.decodeLossy bytes)).map .string) count := by
  constructor
  · intro left room
    have same := congrArg List.length (stringOf_lines bytes)
    rw [List.length_map, List.length_map] at same
    rw [← same] at room
    rw [← stringOf_lines]
    exact meets_fromLines left room
  · intro message left room
    have same := congrArg List.length (stringOf_endedLines bytes)
    rw [List.length_map, List.length_map] at same
    rw [← same] at room
    rw [← stringOf_endedLines]
    exact meets_fromLines_upTo left room

end Builtin

namespace LinesOfBrokenText

open Builtin

def broken : Bytes := [0xe2, 0x82, newline, 0x61, newline, 0xff]

def system (failure : Option String) : System where
  channels := #[{ capacity := none }]
  readers := #[{ source := .fixed broken failure, bufferSize := 2 }]

def reader : Context := .ofPorts "reader" [⟨.closed, .reading ⟨0⟩⟩, ⟨.writing ⟨0⟩, .closed⟩] ⟨0⟩

theorem bytesLeft (failure : Option String) :
    (system failure).BytesLeft reader.input.stream broken failure :=
  ⟨[], broken, ⟨_, rfl, Nat.two_pos, rfl, rfl, rfl⟩, rfl⟩

theorem valuesWritten (failure : Option String) (count : Nat) :
    (system failure).ValuesWritten reader.output.channel [] count :=
  ⟨_, rfl, rfl, Nat.one_ne_zero, Nat.one_ne_zero, nofun⟩

theorem decodeLossy_broken : Utf8.decodeLossy broken = "\ufffd\na\n\ufffd" := by
  have start : Utf8.takeUnit 0xe2 [0x82, newline, 0x61, newline, 0xff] =
    (none, [newline, 0x61, newline, 0xff]) := rfl
  have letter : Utf8.takeUnit 0x61 [newline, 0xff] = (some 'a', [newline, 0xff]) := rfl
  have stray : Utf8.takeUnit 0xff [] = (none, []) := rfl
  simp only [Utf8.decodeLossy, broken, Utf8.units, start, Utf8.takeUnit_newline, letter, stray]
  rfl

theorem broken_lines_read :
    (Meets Host.none (fromLines reader) (system none) fun r s' => r = .ok ∧
      s'.ValuesWritten reader.output.channel (["\ufffd", "a", "\ufffd"].map .string) 0) ∧
    Meets Host.none (fromLines reader) (system (some "gone")) fun r s' => r = .failure "gone" ∧
      s'.ValuesWritten reader.output.channel (["\ufffd", "a"].map .string) 0 := by
  have all : textLines (Utf8.decodeLossy broken) = ["\ufffd", "a", "\ufffd"] := by
    rw [decodeLossy_broken]
    decide
  have ended : endedLines (Utf8.decodeLossy broken) = ["\ufffd", "a"] := by
    rw [decodeLossy_broken]
    decide
  rw [← all, ← ended]
  exact ⟨(lines_of_any_bytes _ reader _ broken [] 0).1 (bytesLeft none) (valuesWritten none _),
    (lines_of_any_bytes _ reader _ broken [] 0).2 "gone" (bytesLeft _) (valuesWritten _ _)⟩

end LinesOfBrokenText

end Conduit
