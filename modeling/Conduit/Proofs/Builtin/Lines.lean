import Conduit.Builtin.Text
import Conduit.Proofs.Builtin.Effect

/-!
Values into lines of bytes and back: each of the two builtins undoes the other, up to the newlines
inside of values and the one that may be missing at the end.
-/

namespace Conduit

open Proc (Meets meets_done meets_iterate)
open StreamEnd (newline)
open Text (lines)

variable {h : Host} {ctx : Context} {s : System} {vs : List Value} {bytes : Bytes} {count : Nat}

namespace Builtin

open Effect

/-! ### Into lines -/

def bytesOf (vs : List Value) : Bytes := vs.flatMap fun v => Utf8.encode (line v.text)

theorem encode_line (text : String) : Utf8.encode (line text) = Utf8.encode text ++ [newline] :=
  Utf8.encode_append text "\n"

theorem meets_intoLines {written : Bytes} (left : s.LeftToRead ctx.input.channel vs)
    (room : s.BytesWritten ctx.output.stream written (vs.length + count)) :
    Meets h (intoLines ctx) s fun r s' => r = .ok ∧
      s'.BytesWritten ctx.output.stream (written ++ bytesOf vs) count := by
  refine meets_signal ?_
  rw [run_forInput]
  induction vs generalizing s written with
  | nil =>
    refine meets_iterate (meets_inputTurn_nil left) ?_ ?_
    · rintro _ _ ⟨other, -⟩
      cases other
    · rintro _ s' ⟨⟨⟩, writers, pipes⟩
      refine ⟨rfl, ?_⟩
      simpa [bytesOf] using room.congr writers pipes
  | cons v vs ih =>
    rw [List.length_cons, Nat.add_right_comm] at room
    have nonempty : Utf8.encode (line v.text) ≠ [] := by simp [encode_line]
    have one (s' : System) (left' : s'.LeftToRead ctx.input.channel vs)
        (writers : s'.writers = s.writers) (pipes : s'.pipes = s.pipes) :
        Meets h (writeText ctx (line v.text)).run s' fun r s'' => r = .ok () ∧
          s''.LeftToRead ctx.input.channel vs ∧ s''.BytesWritten ctx.output.stream
            (written ++ Utf8.encode (line v.text)) (vs.length + count) := by
      refine (meets_writeText (room.congr writers pipes) nonempty).mono ?_
      rintro r s'' ⟨ok, room', channels⟩
      exact ⟨ok, left'.congr channels, room'⟩
    refine meets_iterate (meets_inputTurn_cons left one) ?_ ?_
    · rintro _ s' ⟨-, left', room'⟩
      refine (ih left' room').mono ?_
      rintro r s'' ⟨ok, room''⟩
      refine ⟨ok, ?_⟩
      simpa [bytesOf] using room''
    · rintro _ s' ⟨other, -⟩
      cases other

/-! ### From lines -/

def stringOf (bytes : Bytes) : Value := .string (Utf8.decodeLossy bytes)

def afterLine (ctx : Context) : Bytes × Option String → Proc (Unit ⊕ Except BuiltinError Unit)
  | (_, some message) => pure (.inr (.error (.port (.io message))))
  | ([], none) => pure (.inr (.ok ()))
  | (bytes, none) => do
    match ← (emit ctx (.string (Utf8.decodeLossy (withoutNewline bytes)))).run with
    | .ok () => pure (.inl ())
    | .error e => pure (.inr (.error e))

theorem fromLines_eq (ctx : Context) : fromLines ctx = Effect.signal
    (ExceptT.mk (Proc.iterate () fun () => ctx.input.stream.readLine.bind (afterLine ctx))) := by
  refine congrArg (fun body => Effect.signal (ExceptT.mk (Proc.iterate () body))) ?_
  funext _
  refine congrArg (Proc.bind ctx.input.stream.readLine) (funext fun x => ?_)
  rcases x with ⟨_ | ⟨b, bytes⟩, _ | message⟩ <;> rfl

theorem withoutNewline_line (piece : Bytes) : withoutNewline (piece ++ [newline]) = piece := by
  simp [withoutNewline]

theorem withoutNewline_of_not_mem (whole : newline ∉ bytes) : withoutNewline bytes = bytes :=
  if_neg fun ends => whole (List.mem_of_getLast? ends)

theorem meets_afterLine (nonempty : bytes ≠ [])
    (room : s.ValuesWritten ctx.output.channel vs (count + 1)) :
    Meets h (afterLine ctx (bytes, none)) s fun y s' => y = .inl () ∧
      s'.ValuesWritten ctx.output.channel (vs ++ [stringOf (withoutNewline bytes)]) count ∧
      s'.readers = s.readers ∧ s'.pipes = s.pipes := by
  obtain ⟨b, more, rfl⟩ := List.exists_cons_of_ne_nil nonempty
  refine (meets_emit room _).bind ?_
  rintro _ s' ⟨rfl, room', same⟩
  exact meets_done ⟨rfl, room', same⟩

def linesRead : Option String → Bytes → List Bytes
  | none, bytes => lines newline bytes
  | some _, bytes => (bytes.splitOn newline).dropLast

def endOfLines : Option String → Except BuiltinError Unit
  | none => .ok ()
  | some message => .error (.port (.io message))

theorem linesRead_terminated {piece : Bytes} (whole : newline ∉ piece) (failure : Option String)
    (rest : Bytes) :
    linesRead failure (piece ++ newline :: rest) = piece :: linesRead failure rest := by
  cases failure with
  | none => exact Text.lines_terminated whole rest
  | some message =>
    rw [linesRead, List.splitOn_append_cons_self, List.splitOn_eq_singleton whole,
      List.dropLast_append_of_ne_nil (List.splitOn_ne_nil newline rest)]
    rfl

theorem meets_fromLinesTurn {failure : Option String}
    (left : s.BytesLeft ctx.input.stream bytes failure)
    (room : s.ValuesWritten ctx.output.channel vs ((linesRead failure bytes).length + count)) :
    Meets h (ctx.input.stream.readLine.bind (afterLine ctx)) s fun y s' =>
      (linesRead failure bytes = [] ∧ y = .inr (endOfLines failure) ∧
        s'.ValuesWritten ctx.output.channel vs count) ∨
        ∃ piece rest, rest.length < bytes.length ∧ y = .inl () ∧
          linesRead failure bytes = piece :: linesRead failure rest ∧
          s'.BytesLeft ctx.input.stream rest failure ∧ s'.ValuesWritten ctx.output.channel
            (vs ++ [stringOf piece]) ((linesRead failure rest).length + count) := by
  refine (StreamEnd.meets_readLine left).bind ?_
  rintro x s₁ ⟨channels, gives⟩
  have room := room.congr channels
  cases gives with
  | @line piece rest whole left' =>
    rw [linesRead_terminated whole, List.length_cons, Nat.add_right_comm] at room
    refine (meets_afterLine (by simp) room).mono ?_
    rintro _ s₂ ⟨rfl, room', readers, pipes⟩
    rw [List.nil_append, withoutNewline_line] at room'
    have shorter : rest.length < (piece ++ newline :: rest).length := by
      rw [List.length_append, List.length_cons]
      omega
    exact .inr ⟨piece, rest, shorter, rfl, linesRead_terminated whole failure rest,
      left'.congr readers pipes, room'⟩
  | last whole left' =>
    cases failure with
    | some message =>
      have none : linesRead (some message) bytes = [] := by
        rw [linesRead, List.splitOn_eq_singleton whole]
        rfl
      refine meets_done (.inl ⟨none, rfl, ?_⟩)
      simpa [none] using room
    | none =>
      by_cases empty : bytes = []
      · subst empty
        refine meets_done (.inl ⟨Text.lines_nil newline, rfl, ?_⟩)
        simpa [linesRead] using room
      · have one := Text.lines_unterminated whole empty
        rw [linesRead, one, List.length_singleton, Nat.add_comm] at room
        refine (meets_afterLine empty room).mono ?_
        rintro _ s₂ ⟨rfl, room', readers, pipes⟩
        rw [withoutNewline_of_not_mem whole] at room'
        refine .inr ⟨bytes, [], List.length_pos_iff.2 empty, rfl, ?_, ?_, ?_⟩
        · simpa [linesRead] using one
        · exact left'.congr readers pipes
        · simpa [linesRead] using room'

theorem meets_fromLines_upTo {failure : Option String}
    (left : s.BytesLeft ctx.input.stream bytes failure)
    (room : s.ValuesWritten ctx.output.channel vs ((linesRead failure bytes).length + count)) :
    Meets h (fromLines ctx) s fun r s' => r = Signal.ofResult (endOfLines failure) ∧
      s'.ValuesWritten ctx.output.channel
        (vs ++ (linesRead failure bytes).map stringOf) count := by
  rw [fromLines_eq]
  refine meets_signal ?_
  induction hn : bytes.length using Nat.strongRecOn generalizing bytes vs s with
  | _ n ih =>
  refine meets_iterate (meets_fromLinesTurn left room) ?_ ?_
  · rintro _ s' (⟨-, other, -⟩ | ⟨piece, rest, shorter, -, cut, left', room'⟩)
    · cases other
    · refine (ih rest.length (hn ▸ shorter) left' room' rfl).mono ?_
      rintro r s'' ⟨answer, room''⟩
      refine ⟨answer, ?_⟩
      simpa [cut] using room''
  · rintro _ s' (⟨none, ⟨⟩, room'⟩ | ⟨_, _, _, other, _⟩)
    · exact ⟨rfl, by simpa [none] using room'⟩
    · cases other

theorem meets_fromLines (left : s.BytesLeft ctx.input.stream bytes none)
    (room : s.ValuesWritten ctx.output.channel vs ((lines newline bytes).length + count)) :
    Meets h (fromLines ctx) s fun r s' => r = .ok ∧ s'.ValuesWritten ctx.output.channel
      (vs ++ (lines newline bytes).map stringOf) count := meets_fromLines_upTo left room

/-! ### There and back -/

def pieces (text : String) : List String := (text.toList.splitOn '\n').map String.ofList

theorem pieces_of_not_mem {text : String} (whole : '\n' ∉ text.toList) : pieces text = [text] := by
  rw [pieces, List.splitOn_eq_singleton whole, List.map_singleton, String.ofList_toList]

theorem stringOf_flatMap (cs : List Char) :
    stringOf (cs.flatMap String.utf8EncodeChar) = .string (String.ofList cs) := by
  have bytes : cs.flatMap String.utf8EncodeChar = Utf8.encode (String.ofList cs) := by
    rw [Utf8.encode_eq, String.toList_ofList]
  rw [stringOf, bytes, Utf8.decodeLossy_encode]

theorem bytesOf_eq (vs : List Value) : bytesOf vs =
    (Text.terminated '\n' (vs.map fun v => v.text.toList)).flatMap String.utf8EncodeChar := by
  induction vs with
  | nil => rfl
  | cons v vs ih =>
    rw [bytesOf, List.flatMap_cons, ← bytesOf, ih, Text.terminated, Text.terminated]
    simp [Utf8.encode_eq, line]

theorem lines_bytesOf (vs : List Value) : (lines newline (bytesOf vs)).map stringOf =
    (vs.flatMap fun v => pieces v.text).map .string := by
  rw [bytesOf_eq, Text.lines_flatMap_utf8EncodeChar, Text.lines_terminated_pieces, List.map_map,
    List.flatMap_map, List.map_flatMap, List.map_flatMap]
  refine congrArg (List.flatMap · vs) (funext fun v => ?_)
  simp [pieces, Function.comp_def, stringOf_flatMap]

def lastEnded (bytes : Bytes) : Bytes :=
  if bytes = [] ∨ bytes.getLast? = some newline then bytes else bytes ++ [newline]

theorem bytesOf_lines (text : String) :
    bytesOf ((lines newline (Utf8.encode text)).map stringOf) = lastEnded (Utf8.encode text) := by
  rw [lastEnded, ← Text.terminated_lines, Utf8.encode_eq, Text.lines_flatMap_utf8EncodeChar,
    bytesOf, List.map_map, List.flatMap_map, Text.terminated, List.flatMap_map]
  refine congrArg (List.flatMap · (lines '\n' text.toList)) (funext fun cs => ?_)
  rw [Function.comp_apply, stringOf_flatMap, encode_line, Value.text, Utf8.encode_eq,
    String.toList_ofList]

/-- Values written as lines and read back are their texts, split at the newlines inside.  Lines read
as values and written back are the bytes they were read from, with the last line ended. -/
theorem lines_there_and_back (h : Host) :
    (∀ ctx s vs written count, s.LeftToRead ctx.input.channel vs →
      s.BytesWritten ctx.output.stream written (vs.length + count) →
      Meets h (intoLines ctx) s fun r s' => r = .ok ∧
        ∃ bytes, s'.BytesWritten ctx.output.stream (written ++ bytes) count ∧
          ∀ back t emitted room, t.BytesLeft back.input.stream bytes none →
            t.ValuesWritten back.output.channel emitted
              ((vs.flatMap fun v => pieces v.text).length + room) →
            Meets h (fromLines back) t fun r t' => r = .ok ∧ t'.ValuesWritten back.output.channel
              (emitted ++ (vs.flatMap fun v => pieces v.text).map .string) room) ∧
    (∀ texts : List String, (∀ text ∈ texts, '\n' ∉ text.toList) →
      ((texts.map Value.string).flatMap fun v => pieces v.text) = texts) ∧
    ∀ ctx s text emitted count, s.BytesLeft ctx.input.stream (Utf8.encode text) none →
      s.ValuesWritten ctx.output.channel emitted
        ((lines newline (Utf8.encode text)).length + count) →
      Meets h (fromLines ctx) s fun r s' => r = .ok ∧
        ∃ vs, s'.ValuesWritten ctx.output.channel (emitted ++ vs) count ∧
          ∀ back t written room, t.LeftToRead back.input.channel vs →
            t.BytesWritten back.output.stream written (vs.length + room) →
            Meets h (intoLines back) t fun r t' => r = .ok ∧ t'.BytesWritten back.output.stream
              (written ++ lastEnded (Utf8.encode text)) room := by
  refine ⟨?_, ?_, ?_⟩
  · intro ctx s vs written count left room
    refine (meets_intoLines left room).mono ?_
    rintro r s' ⟨ok, written'⟩
    refine ⟨ok, bytesOf vs, written', fun back t emitted room left room' => ?_⟩
    have same := congrArg List.length (lines_bytesOf vs)
    rw [List.length_map, List.length_map] at same
    rw [← same] at room'
    refine (meets_fromLines left room').mono ?_
    rintro r t' ⟨ok, emitted'⟩
    rw [lines_bytesOf] at emitted'
    exact ⟨ok, emitted'⟩
  · intro texts whole
    induction texts with
    | nil => rfl
    | cons text texts ih =>
      obtain ⟨first, others⟩ := List.forall_mem_cons.1 whole
      rw [List.map_cons, List.flatMap_cons, ih others, Value.text, pieces_of_not_mem first]
      rfl
  · intro ctx s text emitted count left room
    refine (meets_fromLines left room).mono ?_
    rintro r s' ⟨ok, emitted'⟩
    refine ⟨ok, _, emitted', fun back t written room left room' => ?_⟩
    refine (meets_intoLines left room').mono ?_
    rintro r t' ⟨ok, written'⟩
    rw [bytesOf_lines] at written'
    exact ⟨ok, written'⟩

end Builtin

namespace LinesOfWords

open Builtin

def words : List Value := [.string "a\nb", .string "", .bool true]

def writing (vs : List Value) : System where
  channels := #[.ofList vs]
  writers := #[{ target := .sink #[] none none }]

def reading (bytes : Bytes) : System where
  channels := #[{ capacity := none }]
  readers := #[{ source := .fixed bytes none, bufferSize := 2 }]

def writer : Context := .ofPorts "writer" [⟨.reading ⟨0⟩, .closed⟩, ⟨.closed, .writing ⟨0⟩⟩] ⟨0⟩

def reader : Context := .ofPorts "reader" [⟨.closed, .reading ⟨0⟩⟩, ⟨.writing ⟨0⟩, .closed⟩] ⟨0⟩

theorem leftToRead (vs : List Value) : (writing vs).LeftToRead writer.input.channel vs :=
  ⟨_, rfl, rfl, rfl⟩

theorem bytesWritten (vs : List Value) (count : Nat) :
    (writing vs).BytesWritten writer.output.stream [] count := .inl ⟨#[], rfl, rfl⟩

theorem bytesLeft (bytes : Bytes) : (reading bytes).BytesLeft reader.input.stream bytes none :=
  ⟨[], bytes, ⟨_, rfl, Nat.two_pos, rfl, rfl, rfl⟩, rfl⟩

theorem valuesWritten (bytes : Bytes) (count : Nat) :
    (reading bytes).ValuesWritten reader.output.channel [] count :=
  ⟨_, rfl, rfl, Nat.one_ne_zero, Nat.one_ne_zero, nofun⟩

theorem words_there_and_back :
    (Meets Host.none (intoLines writer) (writing words) fun r s' => r = .ok ∧
      ∃ bytes, s'.BytesWritten writer.output.stream bytes 0 ∧
        Meets Host.none (fromLines reader) (reading bytes) fun r t' => r = .ok ∧
          t'.ValuesWritten reader.output.channel (["a", "b", "", "$true"].map .string) 0) ∧
    Meets Host.none (fromLines reader) (reading (Utf8.encode "é\r\nx")) fun r s' => r = .ok ∧
      ∃ vs, s'.ValuesWritten reader.output.channel vs 0 ∧
        Meets Host.none (intoLines writer) (writing vs) fun r t' => r = .ok ∧
          t'.BytesWritten writer.output.stream (Utf8.encode "é\r\nx\n") 0 := by
  obtain ⟨into, -, out⟩ := lines_there_and_back Host.none
  constructor
  · refine (into writer _ words [] 0 (leftToRead words) (bytesWritten words _)).mono ?_
    rintro r s' ⟨ok, bytes, written, again⟩
    refine ⟨ok, bytes, written, ?_⟩
    exact again reader _ [] 0 (bytesLeft bytes) (valuesWritten bytes _)
  · refine (out reader _ "é\r\nx" [] 0 (bytesLeft _) (valuesWritten _ _)).mono ?_
    rintro r s' ⟨ok, vs, written, again⟩
    refine ⟨ok, vs, written, ?_⟩
    exact again writer _ [] 0 (leftToRead vs) (bytesWritten vs _)

end LinesOfWords

end Conduit
