import Conduit.Proofs.System.Trace

/-!
What can be done at the ends of ports: the bytes that are left to read at one, and the values or
bytes that have been written to another, with the room that is left there.
-/

namespace Conduit

structure Channel.Room {α : Type} (ch : Channel α) (count : Nat) : Prop where
  readers : ch.readers ≠ 0
  writers : ch.writers ≠ 0
  capacity : ∀ k, ch.capacity = some k → ch.queue.length + count ≤ k

theorem Channel.Room.exists_offer? {α : Type} {ch : Channel α} {count : Nat}
    (room : ch.Room (count + 1)) (x : α) : ∃ ch', ch.offer? x = some ch' ∧
      ch'.queue = ch.queue ++ [x] ∧ ch'.Room count ∧ ch'.settled? ch'.offered = some true := by
  have held : ¬ (ch.readers = 0 ∨ ch.writers = 0) := not_or.2 ⟨room.readers, room.writers⟩
  refine ⟨{ ch with queue := ch.queue ++ [x] }, if_neg held, rfl, ?_, ?_⟩
  · refine ⟨room.readers, room.writers, fun k limit => ?_⟩
    have fits := room.capacity k limit
    simp only [List.length_append, List.length_singleton]
    omega
  · refine if_pos ?_
    simp only [hasRoomFor]
    split
    · rfl
    · next k limit =>
      have fits := room.capacity k limit
      simp only [offered, List.length_append, List.length_singleton, decide_eq_true_eq]
      omega

namespace System

variable {s s' : System} {r : ReaderId} {w : WriterId} {c : ChannelId} {vs : List Value}
  {bytes chunk rest : Bytes} {failure : Option String} {count : Nat}

theorem LeftToRead.congr {e : ChannelEnd} (channels : s'.channels = s.channels)
    (left : s.LeftToRead e vs) : s'.LeftToRead e vs := by
  cases e with
  | reading c => rwa [LeftToRead, channels]
  | closed => exact left
  | writing c => exact left

theorem writers_takeValue? {x : Option Value} (take : s.takeValue? c = some (x, s')) :
    s'.writers = s.writers ∧ s'.pipes = s.pipes := by
  simp only [takeValue?] at take
  split at take
  · cases take
    exact ⟨rfl, rfl⟩
  · obtain ⟨y, -, same⟩ := Option.map_eq_some_iff.1 take
    cases same
    exact ⟨rfl, rfl⟩

/-! ### Reading bytes -/

def Ahead (s : System) : Source → Bytes → Option String → Prop
  | .fixed rest failure, bytes, ending => bytes = rest ∧ ending = failure
  | .pipe p rest, bytes, ending => ending = none ∧ ∃ ch, s.pipes[p.index]? = some ch ∧
      ch.writers = 0 ∧ [] ∉ ch.queue ∧ bytes = rest ++ ch.queue.flatten

def Buffered (s : System) (r : ReaderId) (chunk ahead : Bytes) (failure : Option String) : Prop :=
  ∃ reader, s.readers[r.index]? = some reader ∧ 0 < reader.bufferSize ∧ reader.buffer = chunk ∧
    s.Ahead reader.source ahead failure

/-- The bytes that are left to read at a stream end that nobody writes to any more, and the error
that comes after them, if any. -/
def BytesLeft (s : System) : StreamEnd → Bytes → Option String → Prop
  | .reading r, bytes, failure => ∃ chunk ahead, s.Buffered r chunk ahead failure ∧
      bytes = chunk ++ ahead
  | _, bytes, failure => bytes = [] ∧ failure = none

theorem Ahead.congr {source : Source} (pipes : s'.pipes = s.pipes)
    (ahead : s.Ahead source bytes failure) : s'.Ahead source bytes failure := by
  cases source with
  | fixed rest failure => exact ahead
  | pipe p rest => rwa [Ahead, pipes]

theorem Buffered.congr (readers : s'.readers = s.readers) (pipes : s'.pipes = s.pipes)
    (buffered : s.Buffered r chunk rest failure) : s'.Buffered r chunk rest failure := by
  obtain ⟨reader, hr, size, buffer, ahead⟩ := buffered
  exact ⟨reader, by rw [readers, hr], size, buffer, ahead.congr pipes⟩

theorem BytesLeft.congr {e : StreamEnd} (readers : s'.readers = s.readers)
    (pipes : s'.pipes = s.pipes) (left : s.BytesLeft e bytes failure) :
    s'.BytesLeft e bytes failure := by
  cases e with
  | reading r =>
    obtain ⟨chunk, ahead, buffered, split⟩ := left
    exact ⟨chunk, ahead, buffered.congr readers pipes, split⟩
  | closed => exact left
  | writing w => exact left

theorem buffered_onReader {reader : ByteReader} {ahead : Bytes} {f : ByteReader → ByteReader}
    (hr : s.readers[r.index]? = some reader) (size : 0 < (f reader).bufferSize)
    (source : s.Ahead (f reader).source ahead failure) :
    (s.onReader r f).Buffered r (f reader).buffer ahead failure := by
  refine ⟨f reader, ?_, size, rfl, source.congr rfl⟩
  simp [onReader, Array.getElem?_modify, hr]

theorem Buffered.consume {n : Nat} (buffered : s.Buffered r chunk rest failure) :
    (s.consume r n).Buffered r (chunk.drop n) rest failure := by
  obtain ⟨reader, hr, size, rfl, ahead⟩ := buffered
  exact buffered_onReader hr size ahead

def endReply : Option String → Except String Bytes
  | none => .ok []
  | some message => .error message

inductive SourceRead (s : System) (r : ReaderId) (reader : ByteReader) (failure : Option String) :
    Bytes → Except String Bytes → Prop
  | ended {source : Source} (kept : s.readers[r.index]? = some { reader with source })
      (ahead : s.Ahead source [] failure) : SourceRead s r reader failure [] (endReply failure)
  | chunk {source : Source} {chunk rest : Bytes} (nonempty : chunk ≠ [])
      (kept : s.readers[r.index]? = some { reader with source })
      (ahead : s.Ahead source rest failure) :
      SourceRead s r reader failure (chunk ++ rest) (.ok chunk)

theorem readers_onReader {reader : ByteReader} (same : s'.readers = s.readers)
    (hr : s.readers[r.index]? = some reader) (source : Source) :
    (s'.onReader r ({ · with source })).readers[r.index]? = some { reader with source } := by
  simp [onReader, Array.getElem?_modify, same, hr]

theorem take_ne_nil {n : Nat} (positive : 0 < n) (some : chunk ≠ []) : chunk.take n ≠ [] := by
  simp [some]
  omega

theorem exists_readSource?_fixed {reader : ByteReader} {n : Nat}
    (hr : s.readers[r.index]? = some reader) (positive : 0 < n)
    (fixed : reader.source = .fixed bytes failure) :
    ∃ x s', s.readSource? r n = some (x, s') ∧ s'.SourceRead r reader failure bytes x := by
  have source? : s.source? r = some (.fixed bytes failure) := by rw [source?, hr, ← fixed]; rfl
  rw [readSource?, source?]
  cases bytes with
  | nil =>
    cases failure with
    | some message =>
      have ahead : s.Ahead reader.source [] (some message) := by rw [fixed]; exact ⟨rfl, rfl⟩
      exact ⟨_, s, rfl, .ended hr ahead⟩
    | none =>
      refine ⟨_, _, rfl, ?_⟩
      rw [List.take_nil, List.drop_nil]
      exact .ended (readers_onReader rfl hr _) ⟨rfl, rfl⟩
  | cons b bytes =>
    have chunk : SourceRead
        (s.onReader r ({ · with source := .fixed ((b :: bytes).drop n) failure }))
        r reader failure _ _ :=
      .chunk (take_ne_nil positive (List.cons_ne_nil b bytes)) (readers_onReader rfl hr _)
        ⟨rfl, rfl⟩
    rw [List.take_append_drop] at chunk
    exact ⟨_, _, rfl, chunk⟩

theorem exists_readSource?_pipe {reader : ByteReader} {n : Nat} {p : PipeId} {ch : Channel Bytes}
    (hr : s.readers[r.index]? = some reader) (positive : 0 < n)
    (pipe : reader.source = .pipe p rest) (hp : s.pipes[p.index]? = some ch)
    (noWriters : ch.writers = 0) (noEmpty : [] ∉ ch.queue) :
    ∃ x s', s.readSource? r n = some (x, s') ∧
      s'.SourceRead r reader none (rest ++ ch.queue.flatten) x := by
  have source? : s.source? r = some (.pipe p rest) := by rw [source?, hr, ← pipe]; rfl
  simp only [readSource?, source?, Nat.ne_of_gt positive, ↓reduceIte]
  cases rest with
  | cons b rest =>
    have chunk : SourceRead (s.onReader r ({ · with source := .pipe p ((b :: rest).drop n) }))
        r reader none _ _ :=
      .chunk (take_ne_nil positive (List.cons_ne_nil b rest)) (readers_onReader rfl hr _)
        ⟨rfl, ch, hp, noWriters, noEmpty, rfl⟩
    rw [← List.append_assoc, List.take_append_drop] at chunk
    exact ⟨_, _, rfl, chunk⟩
  | nil =>
    simp only [List.isEmpty_nil, Bool.not_true, Bool.false_eq_true, ↓reduceIte, hp,
      List.nil_append]
    cases hq : ch.queue with
    | nil =>
      have ahead : s.Ahead reader.source [] none := by
        rw [pipe]
        exact ⟨rfl, ch, hp, noWriters, noEmpty, by rw [hq]; rfl⟩
      simp only [Channel.take?, hq, noWriters, ↓reduceIte, Option.map_some]
      exact ⟨_, s, rfl, .ended hr ahead⟩
    | cons first queue =>
      rw [hq, List.mem_cons, not_or] at noEmpty
      let ch' : Channel Bytes := { ch with queue, taken := ch.taken + 1 }
      have here : (s.onPipe p fun _ => ch').pipes[p.index]? = some ch' := by
        simp [onPipe, Array.getElem?_modify, hp]
      have chunk : SourceRead ((s.onPipe p fun _ => ch').onReader r
          ({ · with source := .pipe p (first.drop n) })) r reader none _ _ :=
        .chunk (take_ne_nil positive (Ne.symm noEmpty.1)) (readers_onReader rfl hr _)
          ⟨rfl, ch', here, noWriters, noEmpty.2, rfl⟩
      rw [← List.append_assoc, List.take_append_drop] at chunk
      simp only [Channel.take?, hq, Option.map_some]
      exact ⟨_, _, rfl, chunk⟩

theorem exists_readSource? {reader : ByteReader} {n : Nat}
    (hr : s.readers[r.index]? = some reader) (positive : 0 < n)
    (ahead : s.Ahead reader.source bytes failure) :
    ∃ x s', s.readSource? r n = some (x, s') ∧ s'.SourceRead r reader failure bytes x := by
  cases hs : reader.source with
  | fixed rest ending =>
    rw [hs] at ahead
    obtain ⟨rfl, rfl⟩ := ahead
    exact exists_readSource?_fixed hr positive hs
  | pipe p rest =>
    rw [hs] at ahead
    obtain ⟨rfl, ch, hp, noWriters, noEmpty, rfl⟩ := ahead
    exact exists_readSource?_pipe hr positive hs hp noWriters noEmpty

inductive Filled (s : System) (r : ReaderId) (failure : Option String) :
    Bytes → Except String Bytes → Prop
  | ended (left : s.BytesLeft (.reading r) [] failure) : Filled s r failure [] (endReply failure)
  | chunk {chunk rest : Bytes} (nonempty : chunk ≠ [])
      (buffered : s.Buffered r chunk rest failure) :
      Filled s r failure (chunk ++ rest) (.ok chunk)

theorem exists_fillBuffer? (left : s.BytesLeft (.reading r) bytes failure) :
    ∃ x s', s.fillBuffer? r = some (x, s') ∧ s'.Filled r failure bytes x := by
  obtain ⟨buffer, ahead, ⟨reader, hr, size, rfl, source⟩, rfl⟩ := left
  cases hb : reader.buffer with
  | cons b rest =>
    refine ⟨.ok (b :: rest), s, ?_, .chunk (List.cons_ne_nil b rest) ⟨reader, hr, size, hb, source⟩⟩
    simp [fillBuffer?, hr, hb]
  | nil =>
    rw [List.nil_append]
    obtain ⟨x, s', read, gives⟩ := exists_readSource? hr size source
    let filled (bytes : Bytes) : System := s'.onReader r ({ · with buffer := bytes })
    cases gives with
    | ended kept ahead' =>
      cases failure with
      | some message =>
        refine ⟨_, s', ?_, .ended ⟨[], [], ⟨_, kept, size, hb, ahead'⟩, rfl⟩⟩
        simp [fillBuffer?, hr, hb, read, endReply]
      | none =>
        have buffered : (filled []).Buffered r [] [] none := buffered_onReader kept size ahead'
        refine ⟨_, filled [], ?_, .ended ⟨[], [], buffered, rfl⟩⟩
        simp [fillBuffer?, hr, hb, read, endReply, filled]
    | @chunk _ chunk rest nonempty kept ahead' =>
      have buffered : (filled chunk).Buffered r chunk rest failure :=
        buffered_onReader kept size ahead'
      refine ⟨_, filled chunk, ?_, .chunk nonempty buffered⟩
      simp [fillBuffer?, hr, hb, read, filled]

/-! ### Writing -/

/-- The values that have been written to a channel end and not yet been read, where there is room
for so many more. -/
def ValuesWritten (s : System) : ChannelEnd → List Value → Nat → Prop
  | .writing c, vs, count => ∃ ch, s.channels[c.index]? = some ch ∧ ch.queue = vs ∧ ch.Room count
  | _, _, _ => False

def BytesWritten (s : System) : StreamEnd → Bytes → Nat → Prop
  | .writing w, bytes, count =>
    (∃ written, s.target? w = some (.sink written none none) ∧ written.toList = bytes) ∨
      ∃ p ch, s.target? w = some (.pipe p) ∧ s.pipes[p.index]? = some ch ∧
        ch.queue.flatten = bytes ∧ ch.Room count
  | _, _, _ => False

theorem ValuesWritten.congr {e : ChannelEnd} (channels : s'.channels = s.channels)
    (written : s.ValuesWritten e vs count) : s'.ValuesWritten e vs count := by
  cases e with
  | writing c => rwa [ValuesWritten, channels]
  | closed => exact written
  | reading c => exact written

theorem BytesWritten.congr {e : StreamEnd} (writers : s'.writers = s.writers)
    (pipes : s'.pipes = s.pipes) (written : s.BytesWritten e bytes count) :
    s'.BytesWritten e bytes count := by
  cases e with
  | writing w => rwa [BytesWritten, target?, writers, pipes]
  | closed => exact written
  | reading r => exact written

theorem exists_offerValue (written : s.ValuesWritten (.writing c) vs (count + 1)) (v : Value) :
    ∃ ticket s', s.offerValue c v = (.ok ticket, s') ∧
      s'.ValuesWritten (.writing c) (vs ++ [v]) count ∧
      s'.settleValue? c ticket = some (.ok ()) ∧
      s'.readers = s.readers ∧ s'.pipes = s.pipes := by
  obtain ⟨ch, hc, rfl, room⟩ := written
  obtain ⟨ch', offer, queue, room', settled⟩ := room.exists_offer? v
  have here : (s.onChannel c fun _ => ch').channels[c.index]? = some ch' := by
    simp [onChannel, Array.getElem?_modify, hc]
  refine ⟨ch'.offered, s.onChannel c fun _ => ch', ?_, ⟨ch', here, queue, room'⟩, ?_, rfl, rfl⟩
  · simp [offerValue, hc, offer]
  · simp [settleValue?, here, settled]

theorem exists_offerBytes (written : s.BytesWritten (.writing w) bytes (count + 1))
    (chunk : Bytes) : ∃ ticket s', s.offerBytes w chunk = (.ok ticket, s') ∧
      s'.BytesWritten (.writing w) (bytes ++ chunk) count ∧
      s'.settleBytes? w ticket = some (.ok ()) ∧ s'.flush w = .ok () ∧
      s'.channels = s.channels := by
  rcases written with ⟨written, ht, rfl⟩ | ⟨p, ch, ht, hp, rfl, room⟩
  · have here : (s.onWriter w ({ · with target := .sink (written ++ chunk) none none })).target? w =
        some (.sink (written ++ chunk) none none) := by
      obtain ⟨writer, hw, -⟩ := Option.map_eq_some_iff.1 ht
      simp [target?, onWriter, Array.getElem?_modify, hw]
    refine ⟨0, s.onWriter w ({ · with target := .sink (written ++ chunk) none none }),
      by rw [offerBytes, ht], .inl ⟨_, here, by simp⟩, ?_, ?_, rfl⟩
    · rw [settleBytes?, here]
    · rw [flush, here]
  · obtain ⟨ch', offer, queue, room', settled⟩ := room.exists_offer? chunk
    have here : (s.onPipe p fun _ => ch').pipes[p.index]? = some ch' := by
      simp [onPipe, Array.getElem?_modify, hp]
    have target : (s.onPipe p fun _ => ch').target? w = some (.pipe p) := ht
    refine ⟨ch'.offered, s.onPipe p fun _ => ch', ?_,
      .inr ⟨p, ch', target, here, by simp [queue], room'⟩, ?_, ?_, rfl⟩
    · simp [offerBytes, ht, hp, offer]
    · simp [settleBytes?, target, here, settled]
    · simp [flush, target]

end System

end Conduit
