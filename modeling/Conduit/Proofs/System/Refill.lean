import Conduit.Proofs.System.Channels

/-!
How the buffer of a reader is filled: from what the reader has at hand, which is the same in all
systems, or by taking the next chunk from the pipe behind it.
-/

namespace Conduit

namespace ByteReader

def needs? (x : ByteReader) : Option PipeId :=
  match x.source with
  | .pipe p [] => if x.buffer = [] ∧ x.bufferSize ≠ 0 then some p else none
  | _ => none

def refill (x : ByteReader) : Except String Bytes × Source × Bytes :=
  match x.buffer, x.source with
  | b :: bytes, source => (.ok (b :: bytes), source, b :: bytes)
  | [], .fixed [] (some message) => (.error message, x.source, [])
  | [], .fixed rest failure =>
    (.ok (rest.take x.bufferSize), .fixed (rest.drop x.bufferSize) failure,
      rest.take x.bufferSize)
  | [], .pipe p rest =>
    (.ok (rest.take x.bufferSize), .pipe p (rest.drop x.bufferSize), rest.take x.bufferSize)

def SameData (x y : ByteReader) : Prop :=
  x.source = y.source ∧ x.bufferSize = y.bufferSize ∧ x.buffer = y.buffer

variable {x y : ByteReader}

theorem SameData.needs? (same : x.SameData y) : x.needs? = y.needs? := by
  obtain ⟨source, size, buffer⟩ := same
  rw [ByteReader.needs?, ByteReader.needs?, source, size, buffer]

theorem SameData.refill (same : x.SameData y) : x.refill = y.refill := by
  obtain ⟨source, size, buffer⟩ := same
  rw [ByteReader.refill, ByteReader.refill, source, size, buffer]

end ByteReader

namespace System

variable {s s' s'' : System} {r : ReaderId} {x : ByteReader} {source source' : Source}
  {buffer buffer' : Bytes}

structure Refilled (s s' : System) (r : ReaderId) (x : ByteReader) (source : Source)
    (buffer : Bytes) : Prop where
  here : s'.readers[r.index]? = some { x with source, buffer }
  others : ∀ i, i ≠ r.index → s'.readers[i]? = s.readers[i]?
  channels : s'.channels = s.channels
  writers : s'.writers = s.writers

theorem refilled_self (here : s.readers[r.index]? = some x) :
    s.Refilled s r x x.source x.buffer := ⟨here, fun _ _ => rfl, rfl, rfl⟩

theorem Refilled.onReader (first : s.Refilled s' r x source buffer) {f : ByteReader → ByteReader}
    (hf : ∀ holders, f ⟨source, x.bufferSize, buffer, holders⟩ =
      ⟨source', x.bufferSize, buffer', holders⟩) :
    s.Refilled (s'.onReader r f) r x source' buffer' := by
  refine ⟨?_, fun i other => ?_, first.channels, first.writers⟩
  · simp [System.onReader, Array.getElem?_modify, first.here, hf]
  · simp [System.onReader, Array.getElem?_modify, Ne.symm other, first.others i other]

theorem Refilled.onPipe (first : s.Refilled s' r x source buffer) (p : PipeId)
    (f : Channel Bytes → Channel Bytes) : s.Refilled (s'.onPipe p f) r x source buffer :=
  ⟨first.here, first.others, first.channels, first.writers⟩

inductive Refill (s : System) (r : ReaderId) (x : ByteReader) : Except String Bytes → System → Prop
  | atHand {s' : System} (needs : x.needs? = none)
      (refilled : s.Refilled s' r x x.refill.2.1 x.refill.2.2) (pipes : s'.pipes = s.pipes) :
      Refill s r x x.refill.1 s'
  | took {s' : System} {p : PipeId} {ch : Channel Bytes} {chunk : Bytes} {queue : List Bytes}
      (needs : x.needs? = some p) (here : s.pipes[p.index]? = some ch)
      (first : ch.queue = chunk :: queue)
      (refilled : s.Refilled s' r x (.pipe p (chunk.drop x.bufferSize)) (chunk.take x.bufferSize))
      (pipes : s'.pipes = s.pipes.modify p.index fun _ => { ch with queue, taken := ch.taken + 1 }) :
      Refill s r x (.ok (chunk.take x.bufferSize)) s'
  | ended {s' : System} {p : PipeId} (needs : x.needs? = some p)
      (none : ∀ ch, s.pipes[p.index]? = some ch → ch.queue = [] ∧ ch.writers = 0)
      (refilled : s.Refilled s' r x x.source []) (pipes : s'.pipes = s.pipes) :
      Refill s r x (.ok []) s'

theorem refill_of_needs {p : PipeId} {size : Nat} {holders : Nat} {a : Except String Bytes}
    (asks : size ≠ 0) (here : s.readers[r.index]? = some ⟨.pipe p [], size, [], holders⟩)
    (fill : s.fillBuffer? r = some (a, s')) : s.Refill r ⟨.pipe p [], size, [], holders⟩ a s' := by
  have self := refilled_self here
  have source? : s.source? r = some (.pipe p []) := by rw [System.source?, here]; rfl
  have needs : ByteReader.needs? ⟨.pipe p [], size, [], holders⟩ = some p := by
    simp [ByteReader.needs?, asks]
  simp only [fillBuffer?, here, List.isEmpty_nil, Bool.not_true, Bool.false_eq_true, ↓reduceIte,
    readSource?, source?, asks] at fill
  cases pipe : s.pipes[p.index]? with
  | none =>
    rw [pipe] at fill
    cases fill
    refine .ended needs (fun ch other => ?_) (self.onReader fun _ => rfl) rfl
    rw [pipe] at other
    cases other
  | some ch =>
    rw [pipe] at fill
    obtain ⟨⟨y, s₁⟩, read, same⟩ := Option.map_eq_some_iff.1 fill
    obtain ⟨⟨z, ch'⟩, take, rest⟩ := Option.map_eq_some_iff.1 read
    rcases Channel.take?_cases take with ⟨chunk, queue, first, rfl, rfl⟩ | ⟨empty, ended, rfl, rfl⟩
    · cases rest
      cases same
      exact .took needs pipe first
        (((self.onPipe p _).onReader fun _ => rfl).onReader fun _ => rfl) rfl
    · cases rest
      cases same
      refine .ended needs (fun ch' other => ?_) (self.onReader fun _ => rfl) rfl
      rw [pipe] at other
      cases other
      exact ⟨empty, ended⟩

theorem refill_of_fillBuffer? {a : Except String Bytes} (here : s.readers[r.index]? = some x)
    (fill : s.fillBuffer? r = some (a, s')) : s.Refill r x a s' := by
  have self := refilled_self here
  have source? : s.source? r = some x.source := by rw [System.source?, here]; rfl
  obtain ⟨source, size, buffer, holders⟩ := x
  -- A buffer that is not empty is answered as it is; else the source decides, and only a pipe whose
  -- chunk is used up is read from.
  cases buffer with
  | cons b bytes =>
    simp only [fillBuffer?, here] at fill
    cases fill
    refine .atHand ?_ self rfl
    cases source with
    | fixed rest failure => rfl
    | pipe p rest => cases rest <;> rfl
  | nil =>
    have whole := fill
    simp only [fillBuffer?, here, List.isEmpty_nil, Bool.not_true, Bool.false_eq_true, ↓reduceIte,
      readSource?, source?] at fill
    cases source with
    | fixed rest failure =>
      cases rest with
      | nil =>
        cases failure with
        | some message => cases fill; exact .atHand rfl self rfl
        | none =>
          cases fill
          exact .atHand rfl ((self.onReader fun _ => rfl).onReader fun _ => rfl) rfl
      | cons b rest =>
        cases fill
        exact .atHand rfl ((self.onReader fun _ => rfl).onReader fun _ => rfl) rfl
    | pipe p rest =>
      by_cases none : size = 0
      · subst none
        cases fill
        have refilled := self.onReader (f := ({ · with buffer := [] })) fun _ => rfl
        cases rest with
        | nil => exact .atHand rfl refilled rfl
        | cons b rest => exact .atHand rfl refilled rfl
      · cases rest with
        | nil => exact refill_of_needs none here whole
        | cons b rest =>
          simp only [none, ↓reduceIte] at fill
          cases fill
          exact .atHand rfl ((self.onReader fun _ => rfl).onReader fun _ => rfl) rfl

end System

end Conduit
