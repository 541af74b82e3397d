import Conduit.Proofs.System.Refill
import Conduit.Proofs.System.Shape

/-!
What waits at an end for whoever reads from it next, whether or not more may follow.
-/

namespace Conduit

namespace ByteReader

variable {x : ByteReader} {p : PipeId}

theorem needs?_eq_some_iff :
    x.needs? = some p ↔ x.source = .pipe p [] ∧ x.buffer = [] ∧ x.bufferSize ≠ 0 := by
  obtain ⟨source, size, buffer, holders⟩ := x
  cases source with
  | fixed rest failure => simp [needs?]
  | pipe q rest => cases rest <;> simp [needs?, and_comm]

theorem refill_pipe? (x : ByteReader) : x.refill.2.1.pipe? = x.source.pipe? := by
  rw [refill]
  split
  · rfl
  · rfl
  · next source => rw [source]; rfl
  · next source => rw [source]; rfl

theorem refill_buffer {chunk : Bytes} (given : x.refill.1 = .ok chunk) : x.refill.2.2 = chunk := by
  rw [refill] at given ⊢
  split at given
  · cases given; rfl
  · cases given
  · cases given; rfl
  · cases given; rfl

theorem exists_fixed_of_refill (size : x.bufferSize ≠ 0) (needs : x.needs? = none)
    (given : x.refill.1 = .ok []) : x.buffer = [] ∧ ∃ failure, x.source = .fixed [] failure := by
  rw [refill] at given
  split at given
  · cases given
  · cases given
  · next rest failure _ buffer source =>
    have none : rest = [] := by simpa [size] using given
    rw [none] at source
    exact ⟨buffer, failure, source⟩
  · next p rest buffer source =>
    have none : rest = [] := by simpa [size] using given
    rw [none] at source
    rw [needs?_eq_some_iff.2 ⟨source, buffer, size⟩] at needs
    cases needs

end ByteReader

namespace System

variable {s s' : System} {c : ChannelId} {r : ReaderId} {x : ByteReader} {a : Except String Bytes}
  {v : Value} {vs : List Value} {chunk : Bytes}

/-! ### Values -/

def valuesIn (s : System) : ChannelEnd → List Value
  | .reading c => ((s.channels[c.index]?).map (·.queue)).getD []
  | _ => []

theorem exists_channel_of_valuesIn (waiting : s.valuesIn (.reading c) = v :: vs) :
    ∃ ch, s.channels[c.index]? = some ch ∧ ch.queue = v :: vs := by
  rw [valuesIn] at waiting
  cases here : s.channels[c.index]? with
  | none => rw [here] at waiting; cases waiting
  | some ch => rw [here] at waiting; exact ⟨ch, rfl, waiting⟩

theorem taken_of_empty {x : Option Value} (empty : s.valuesIn (.reading c) = [])
    (take : s.takeValue? c = some (x, s')) : x = none := by
  cases here : s.channels[c.index]? with
  | none =>
    rw [takeValue?, here] at take
    cases take
    rfl
  | some ch =>
    rw [valuesIn, here] at empty
    rcases takeValue?_cases here take with ⟨v, rest, queue, -⟩ | ⟨-, -, none, -⟩
    · exact absurd (queue.symm.trans empty) (List.cons_ne_nil v rest)
    · exact none

/-! ### Bytes -/

def ahead (s : System) : Source → Bytes
  | .fixed rest _ => rest
  | .pipe p rest => rest ++ ((s.pipes[p.index]?).map (·.queue.flatten)).getD []

def buffered (s : System) (r : ReaderId) : Bytes := ((s.readers[r.index]?).map (·.buffer)).getD []

def behind (s : System) (r : ReaderId) : Bytes :=
  ((s.readers[r.index]?).map fun x => s.ahead x.source).getD []

def bytesIn (s : System) : StreamEnd → Bytes
  | .reading r => s.buffered r ++ s.behind r
  | _ => []

def Sound (s : System) : StreamEnd → Prop
  | .reading r => ∀ x, s.readers[r.index]? = some x → x.bufferSize ≠ 0 ∧
      ∀ p ∈ x.source.pipe?, ∀ ch, s.pipes[p.index]? = some ch → [] ∉ ch.queue
  | _ => True

theorem buffered_eq (here : s.readers[r.index]? = some x) : s.buffered r = x.buffer := by
  rw [buffered, here]
  rfl

theorem behind_eq (here : s.readers[r.index]? = some x) : s.behind r = s.ahead x.source := by
  rw [behind, here]
  rfl

theorem ahead_congr (pipes : s'.pipes = s.pipes) (source : Source) :
    s'.ahead source = s.ahead source := by
  cases source with
  | fixed rest failure => rfl
  | pipe p rest => rw [ahead, ahead, pipes]

theorem refill_bytes (s : System) (x : ByteReader) :
    x.refill.2.2 ++ s.ahead x.refill.2.1 = x.buffer ++ s.ahead x.source := by
  rw [ByteReader.refill]
  split
  · next buffer => rw [buffer]
  · next buffer _ => rw [buffer]
  · next buffer source => simp [buffer, source, ahead]
  · next buffer source => simp [buffer, source, ahead, ← List.append_assoc]

theorem take_first {p : PipeId} {ch : Channel Bytes} {queue : List Bytes} {n : Nat}
    (pipe : s.pipes[p.index]? = some ch) (first : ch.queue = chunk :: queue)
    (pipes : s'.pipes = s.pipes.modify p.index fun _ => { ch with queue, taken := ch.taken + 1 }) :
    chunk.take n ++ s'.ahead (.pipe p (chunk.drop n)) = s.ahead (.pipe p []) := by
  simp [ahead, pipes, pipe, first, Array.getElem?_modify, ← List.append_assoc]

theorem bytesIn_fillBuffer? (fill : s.fillBuffer? r = some (a, s')) :
    s'.bytesIn (.reading r) = s.bytesIn (.reading r) := by
  cases here : s.readers[r.index]? with
  | none =>
    simp only [fillBuffer?, here] at fill
    cases fill
    rfl
  | some x =>
    rw [bytesIn, bytesIn, buffered_eq here, behind_eq here]
    cases refill_of_fillBuffer? here fill with
    | atHand needs refilled pipes =>
      rw [buffered_eq refilled.here, behind_eq refilled.here, ahead_congr pipes]
      exact refill_bytes s x
    | @took _ p ch chunk queue needs pipe first refilled pipes =>
      obtain ⟨source, buffer, -⟩ := ByteReader.needs?_eq_some_iff.1 needs
      rw [buffered_eq refilled.here, behind_eq refilled.here, source, buffer]
      exact take_first pipe first pipes
    | ended needs none refilled pipes =>
      obtain ⟨-, buffer, -⟩ := ByteReader.needs?_eq_some_iff.1 needs
      rw [buffered_eq refilled.here, behind_eq refilled.here, ahead_congr pipes, buffer]

theorem buffered_fillBuffer? (fill : s.fillBuffer? r = some (.ok chunk, s')) :
    s'.buffered r = chunk := by
  cases here : s.readers[r.index]? with
  | none =>
    have none := here
    simp only [fillBuffer?, here] at fill
    cases fill
    rw [buffered, none]
    rfl
  | some x =>
    have gives := refill_of_fillBuffer? here fill
    generalize answer : Except.ok chunk = a at gives
    cases gives with
    | atHand needs refilled pipes =>
      rw [buffered_eq refilled.here]
      exact ByteReader.refill_buffer answer.symm
    | took needs pipe first refilled pipes =>
      cases answer
      rw [buffered_eq refilled.here]
    | ended needs none refilled pipes =>
      cases answer
      rw [buffered_eq refilled.here]

theorem bytesIn_of_fillBuffer?_nil (sound : s.Sound (.reading r))
    (fill : s.fillBuffer? r = some (.ok [], s')) : s'.bytesIn (.reading r) = [] := by
  cases here : s.readers[r.index]? with
  | none =>
    have none := here
    simp only [fillBuffer?, here] at fill
    cases fill
    rw [bytesIn, buffered, behind, none]
    rfl
  | some x =>
    obtain ⟨size, chunks⟩ := sound x here
    have gives := refill_of_fillBuffer? here fill
    generalize answer : Except.ok [] = a at gives
    cases gives with
    | atHand needs refilled pipes =>
      obtain ⟨buffer, failure, source⟩ := ByteReader.exists_fixed_of_refill size needs answer.symm
      rw [bytesIn, buffered_eq refilled.here, behind_eq refilled.here, ahead_congr pipes,
        refill_bytes, buffer, source]
      rfl
    | @took _ p ch chunk queue needs pipe first refilled pipes =>
      obtain ⟨source, -, -⟩ := ByteReader.needs?_eq_some_iff.1 needs
      have full : [] ∉ ch.queue := chunks p (by rw [source]; exact rfl) ch pipe
      have none : chunk = [] := by
        have none := Except.ok.inj answer.symm
        simpa [size] using none
      exact absurd (by simp [first, none]) full
    | @ended _ p needs none refilled pipes =>
      obtain ⟨source, -, -⟩ := ByteReader.needs?_eq_some_iff.1 needs
      rw [bytesIn, buffered_eq refilled.here, behind_eq refilled.here, source, ahead, pipes]
      cases pipe : s.pipes[p.index]? with
      | none => rfl
      | some ch => simp [(none ch pipe).1]

theorem sound_fillBuffer? (sound : s.Sound (.reading r)) (fill : s.fillBuffer? r = some (a, s')) :
    s'.Sound (.reading r) := by
  cases here : s.readers[r.index]? with
  | none =>
    simp only [fillBuffer?, here] at fill
    cases fill
    exact sound
  | some x =>
    obtain ⟨size, chunks⟩ := sound x here
    intro y there
    cases refill_of_fillBuffer? here fill with
    | atHand needs refilled pipes =>
      rw [refilled.here] at there
      cases there
      rw [pipes]
      exact ⟨size, by rwa [ByteReader.refill_pipe?]⟩
    | @took _ p ch chunk queue needs pipe first refilled pipes =>
      obtain ⟨source, -, -⟩ := ByteReader.needs?_eq_some_iff.1 needs
      rw [refilled.here] at there
      cases there
      refine ⟨size, ?_⟩
      rintro _ ⟨⟩ ch' pipe'
      have full : [] ∉ ch.queue := chunks p (by rw [source]; exact rfl) ch pipe
      rw [pipes, Array.getElem?_modify, if_pos rfl, pipe] at pipe'
      cases pipe'
      rw [first, List.mem_cons, not_or] at full
      exact full.2
    | ended needs none refilled pipes =>
      rw [refilled.here] at there
      cases there
      rw [pipes]
      exact ⟨size, chunks⟩

/-! ### Consuming -/

theorem buffered_consume (n : Nat) : (s.consume r n).buffered r = (s.buffered r).drop n := by
  rw [buffered, buffered, consume, onReader]
  cases here : s.readers[r.index]? <;> simp [Array.getElem?_modify, here]

theorem behind_consume (n : Nat) : (s.consume r n).behind r = s.behind r := by
  rw [behind, behind, consume, onReader]
  cases here : s.readers[r.index]? <;> simp [Array.getElem?_modify, here, ahead]

theorem bytesIn_eq_append_consume {first rest : Bytes} (front : s.buffered r = first ++ rest) :
    s.bytesIn (.reading r) = first ++ (s.consume r first.length).bytesIn (.reading r) := by
  rw [bytesIn, bytesIn, buffered_consume, behind_consume, front, List.drop_left, List.append_assoc]

theorem sound_consume (sound : s.Sound (.reading r)) (n : Nat) :
    (s.consume r n).Sound (.reading r) := by
  intro x here
  rw [consume, onReader, Array.getElem?_modify, if_pos rfl] at here
  obtain ⟨y, there, rfl⟩ := Option.map_eq_some_iff.1 here
  exact sound y there

end System

end Conduit
