import Conduit.Proofs.System.Channels
import Conduit.Proofs.System.Written

/-!
A pipe with one writer and one reader without a buffer: what the requests to its sides do.  The
reader is told what is left of a chunk; one that keeps the whole chunk and a place in it instead
reads the same, and never looks outside the chunk.
-/

namespace Conduit

inductive PipeRead (rest : Bytes) (ch : Channel Bytes) : Nat → Bytes → Bytes → Channel Bytes → Prop
  | unasked : PipeRead rest ch 0 [] rest ch
  | atHand {n : Nat} (asked : n ≠ 0) (left : rest ≠ []) :
      PipeRead rest ch n (rest.take n) (rest.drop n) ch
  | next {n : Nat} {chunk : Bytes} {queue : List Bytes} (asked : n ≠ 0) (used : rest = [])
      (first : ch.queue = chunk :: queue) :
      PipeRead rest ch n (chunk.take n) (chunk.drop n) { ch with queue, taken := ch.taken + 1 }
  | ended {n : Nat} (asked : n ≠ 0) (used : rest = []) (empty : ch.queue = [])
      (gone : ch.writers = 0) : PipeRead rest ch n [] rest ch

namespace PipeRead

variable {rest bytes rest' : Bytes} {ch ch' : Channel Bytes} {n : Nat}

theorem conserved (read : PipeRead rest ch n bytes rest' ch') :
    bytes ++ (rest' ++ ch'.queue.flatten) = rest ++ ch.queue.flatten := by
  cases read with
  | unasked => rfl
  | atHand => rw [← List.append_assoc, List.take_append_drop]
  | next _ used first =>
    rw [← List.append_assoc, List.take_append_drop, used, first, List.flatten_cons, List.nil_append]
  | ended => rfl

theorem length_le (read : PipeRead rest ch n bytes rest' ch') : bytes.length ≤ n := by
  cases read with
  | unasked => exact Nat.le_refl 0
  | atHand => exact List.length_take_le ..
  | next => exact List.length_take_le ..
  | ended => exact Nat.zero_le n

theorem same (read : PipeRead rest ch n bytes rest' ch') : ch'.capacity = ch.capacity ∧
    ch'.writers = ch.writers ∧ ch'.readers = ch.readers ∧ ch'.offered = ch.offered := by
  cases read with
  | next _ _ first =>
    refine ⟨rfl, rfl, rfl, ?_⟩
    simp only [Channel.offered, first, List.length_cons]
    omega
  | _ => exact ⟨rfl, rfl, rfl, rfl⟩

theorem subset (read : PipeRead rest ch n bytes rest' ch') :
    ∀ chunk ∈ ch'.queue, chunk ∈ ch.queue := by
  cases read with
  | next _ _ first => exact fun chunk mem => first ▸ List.mem_cons_of_mem _ mem
  | _ => exact fun _ mem => mem

theorem at_end (read : PipeRead rest ch n [] rest' ch') (asked : n ≠ 0) (solid : [] ∉ ch.queue) :
    rest = [] ∧ ch.queue = [] ∧ ch.writers = 0 := by
  generalize nothing : ([] : Bytes) = bytes at read
  cases read with
  | unasked => exact absurd rfl asked
  | atHand _ left => exact absurd (List.take_eq_nil_iff.1 nothing.symm) (by simp [asked, left])
  | @next _ chunk _ _ _ first =>
    rcases List.take_eq_nil_iff.1 nothing.symm with zero | empty
    · exact absurd zero asked
    · exact absurd (by rw [first, empty]; exact List.mem_cons_self) solid
  | ended _ used empty gone => exact ⟨used, empty, gone⟩

end PipeRead

/-! ### Reading by places -/

structure PlaceReader where
  chunk : Bytes := []
  place : Nat := 0

namespace PlaceReader

def refill (x : PlaceReader) : List Bytes → PlaceReader × List Bytes
  | [] => (x, [])
  | chunk :: queue =>
    if x.chunk.length ≤ x.place then refill ⟨chunk, 0⟩ queue else (x, chunk :: queue)

def slice? (bytes : Bytes) (first last : Nat) : Option Bytes :=
  if first ≤ last ∧ last ≤ bytes.length then some ((bytes.take last).drop first) else none

def copy? (x : PlaceReader) (n : Nat) : Option (Bytes × PlaceReader) := do
  let available ← slice? x.chunk x.place x.chunk.length
  let count := min available.length n
  let bytes ← slice? available 0 count
  pure (bytes, { x with place := x.place + count })

def read? (x : PlaceReader) (queue : List Bytes) (n : Nat) :
    Option (Bytes × PlaceReader × List Bytes) :=
  if n = 0 then some ([], x, queue)
  else
    let (x, queue) := x.refill queue
    if x.chunk.length ≤ x.place then some ([], x, queue)
    else (x.copy? n).map fun (bytes, x) => (bytes, x, queue)

structure Has (x : PlaceReader) (rest : Bytes) : Prop where
  inside : x.place ≤ x.chunk.length
  rest : x.chunk.drop x.place = rest

variable {x : PlaceReader} {rest bytes rest' : Bytes} {ch ch' : Channel Bytes} {n : Nat}

theorem Has.copy? (has : x.Has rest) (n : Nat) :
    ∃ x', x.copy? n = some (rest.take n, x') ∧ x'.Has (rest.drop n) := by
  obtain ⟨inside, left⟩ := has
  have size : rest.length = x.chunk.length - x.place := by rw [← left, List.length_drop]
  have available : slice? x.chunk x.place x.chunk.length = some rest := by
    rw [slice?, if_pos ⟨inside, Nat.le_refl _⟩, List.take_length, left]
  have part : slice? rest 0 (min rest.length n) = some (rest.take n) := by
    rw [slice?, if_pos ⟨Nat.zero_le _, Nat.min_le_left ..⟩, List.drop_zero, ← List.take_take,
      List.take_of_length_le (List.length_take_le' ..)]
  have behind : rest.drop (min rest.length n) = rest.drop n := by
    rcases Nat.le_total rest.length n with short | long
    · rw [Nat.min_eq_left short, List.drop_length, List.drop_eq_nil_of_le short]
    · rw [Nat.min_eq_right long]
  refine ⟨{ x with place := x.place + min rest.length n }, ?_, ?_, ?_⟩
  · simp only [PlaceReader.copy?, available, part, Option.bind_eq_bind, Option.bind_some]
    rfl
  · simp only
    omega
  · rw [← List.drop_drop, left, behind]

theorem Has.read? (has : x.Has rest) (read : PipeRead rest ch n bytes rest' ch')
    (solid : [] ∉ ch.queue) :
    ∃ x', x.read? ch.queue n = some (bytes, x', ch'.queue) ∧ x'.Has rest' := by
  have used_up (used : rest = []) : x.chunk.length ≤ x.place :=
    List.drop_eq_nil_iff.1 (has.rest.trans used)
  cases read with
  | unasked => exact ⟨x, rfl, has⟩
  | atHand asked left =>
    have more : ¬x.chunk.length ≤ x.place := fun used =>
      left (has.rest.symm.trans (List.drop_eq_nil_of_le used))
    have kept : x.refill ch.queue = (x, ch.queue) := by
      cases ch.queue with
      | nil => rfl
      | cons => rw [refill, if_neg more]
    obtain ⟨x', copied, has'⟩ := has.copy? n
    refine ⟨x', ?_, has'⟩
    simp [PlaceReader.read?, asked, kept, more, copied]
  | @next _ chunk queue asked used first =>
    have left : chunk ≠ [] := fun empty => solid (by rw [first, empty]; exact List.mem_cons_self)
    have more : ¬chunk.length ≤ 0 := fun none => left (List.length_eq_zero_iff.1 (by omega))
    have taken : x.refill (chunk :: queue) = (⟨chunk, 0⟩, queue) := by
      rw [refill, if_pos (used_up used)]
      cases queue with
      | nil => rfl
      | cons => rw [refill, if_neg more]
    have fresh : Has ⟨chunk, 0⟩ chunk := ⟨Nat.zero_le _, rfl⟩
    obtain ⟨x', copied, has'⟩ := fresh.copy? n
    refine ⟨x', ?_, has'⟩
    simp [PlaceReader.read?, asked, first, taken, left, copied]
  | ended asked used empty =>
    refine ⟨x, ?_, has⟩
    simp [PlaceReader.read?, asked, empty, refill, used_up used]

end PlaceReader

/-! ### A pipe of a system -/

structure System.Piped (s : System) (w : WriterId) (r : ReaderId) (rest : Bytes)
    (ch : Channel Bytes) : Prop where
  between : ∃ p : PipeId, s.pipes[p.index]? = some ch ∧
    s.readers[r.index]? = some { source := .pipe p rest, bufferSize := 0 } ∧
    s.writers[w.index]? = some { target := .pipe p, holders := ch.writers }
  readers : ch.readers = 1

namespace System

variable {s s' : System} {w : WriterId} {r : ReaderId} {rest bytes : Bytes} {ch : Channel Bytes}
  {n : Nat}

theorem piped_addPipe (s : System) (capacity : Nat) : (s.addPipe capacity 0).2.Piped
    (s.addPipe capacity 0).1.1 (s.addPipe capacity 0).1.2 [] { capacity := some capacity } := by
  refine ⟨⟨⟨s.pipes.size⟩, ?_, ?_, ?_⟩, rfl⟩
  · exact Array.getElem?_push.trans (if_pos rfl)
  · exact Array.getElem?_push.trans (if_pos rfl)
  · exact Array.getElem?_push.trans (if_pos rfl)

namespace Piped

theorem read (piped : s.Piped w r rest ch) {x : Except String Bytes}
    (reply : s.readSome? r n = some (x, s')) : ∃ bytes rest' ch', x = .ok bytes ∧
      PipeRead rest ch n bytes rest' ch' ∧ s'.Piped w r rest' ch' := by
  obtain ⟨⟨p, pipe, reader, writer⟩, readers⟩ := piped
  have source : s.source? r = some (.pipe p rest) := by rw [source?, reader]; rfl
  have onward : s.readSource? r n = some (x, s') := by
    simpa [readSome?, reader] using reply
  simp only [readSource?, source] at onward
  by_cases asked : n = 0
  · rw [if_pos asked] at onward
    cases onward
    exact ⟨[], rest, ch, rfl, asked ▸ .unasked, ⟨⟨p, pipe, reader, writer⟩, readers⟩⟩
  rw [if_neg asked] at onward
  by_cases left : rest = []
  · subst left
    simp only [List.isEmpty_nil, Bool.not_true, Bool.false_eq_true, if_false, pipe] at onward
    obtain ⟨⟨y, ch'⟩, take, same⟩ := Option.map_eq_some_iff.1 onward
    rcases Channel.take?_cases take with ⟨chunk, queue, first, rfl, rfl⟩ | ⟨empty, gone, rfl, rfl⟩
    · cases same
      refine ⟨_, _, _, rfl, .next asked rfl first, ⟨⟨p, ?_, ?_, ?_⟩, readers⟩⟩
      · simp [onReader, onPipe, Array.getElem?_modify, pipe]
      · simp [onReader, onPipe, Array.getElem?_modify, reader]
      · exact writer
    · cases same
      exact ⟨_, _, _, rfl, .ended asked rfl empty gone, ⟨⟨p, pipe, reader, writer⟩, readers⟩⟩
  · have some : (!rest.isEmpty) = true := by simp [left]
    rw [if_pos some] at onward
    cases onward
    refine ⟨_, _, _, rfl, .atHand asked left, ⟨⟨p, pipe, ?_, writer⟩, readers⟩⟩
    simp [onReader, Array.getElem?_modify, reader]

theorem exists_read (piped : s.Piped w r rest ch)
    (ready : rest ≠ [] ∨ ch.queue ≠ [] ∨ ch.writers = 0) (n : Nat) :
    ∃ x s', s.readSome? r n = some (x, s') := by
  obtain ⟨⟨p, pipe, reader, -⟩, -⟩ := piped
  have source : s.source? r = some (.pipe p rest) := by rw [source?, reader]; rfl
  suffices able : (s.readSource? r n).isSome by
    obtain ⟨⟨x, s'⟩, reply⟩ := Option.isSome_iff_exists.1 able
    exact ⟨x, s', by simpa [readSome?, reader] using reply⟩
  simp only [readSource?, source]
  split
  · rfl
  · split
    · rfl
    · next left =>
      have used : rest = [] := by simpa using left
      have take : ch.take?.isSome := by
        rw [Channel.take?]
        split
        · rfl
        · next empty => rw [if_pos (by simpa [used, empty] using ready)]; rfl
      simpa [pipe] using take

theorem offer (piped : s.Piped w r rest ch) (held : ch.writers ≠ 0) (bytes : Bytes) :
    ∃ s', s.offerBytes w bytes = (.ok (ch.offered + 1), s') ∧
      s'.Piped w r rest { ch with queue := ch.queue ++ [bytes] } := by
  obtain ⟨⟨p, pipe, reader, writer⟩, readers⟩ := piped
  have target : s.target? w = some (.pipe p) := by rw [target?, writer]; rfl
  have offered : ch.offer? bytes = some { ch with queue := ch.queue ++ [bytes] } :=
    Channel.offer?_eq_some.2 ⟨by rw [readers]; decide, held, rfl⟩
  refine ⟨s.onPipe p fun _ => { ch with queue := ch.queue ++ [bytes] }, ?_,
    ⟨⟨p, ?_, reader, writer⟩, readers⟩⟩
  · simp [offerBytes, target, pipe, offered, Channel.offered, Nat.add_assoc]
  · simp [onPipe, Array.getElem?_modify, pipe]

theorem settle (piped : s.Piped w r rest ch) (ticket : Nat) : s.settleBytes? w ticket =
    if ch.hasRoomFor ticket then some (.ok ()) else none := by
  obtain ⟨⟨p, pipe, reader, writer⟩, readers⟩ := piped
  have target : s.target? w = some (.pipe p) := by rw [target?, writer]; rfl
  simp only [settleBytes?, target, pipe, Channel.settled?, readers]
  split <;> rfl

theorem flush (piped : s.Piped w r rest ch) : s.flush w = .ok () := by
  obtain ⟨⟨p, pipe, reader, writer⟩, readers⟩ := piped
  have target : s.target? w = some (.pipe p) := by rw [target?, writer]; rfl
  rw [System.flush, target]

theorem release (piped : s.Piped w r rest ch) (held : ch.writers = 1) :
    (s.releaseStream (.writing w)).Piped w r rest { ch with writers := 0 } := by
  obtain ⟨⟨p, pipe, reader, writer⟩, readers⟩ := piped
  refine ⟨⟨p, ?_, ?_, ?_⟩, readers⟩
  · simp [releaseStream, writer, held, onPipe, onWriter, Array.getElem?_modify, pipe,
      Channel.dropWriter]
  · simp [releaseStream, writer, held, onPipe, onWriter, reader]
  · simp [releaseStream, writer, held, onPipe, onWriter, Array.getElem?_modify]

end Piped

end System

/-! ### What is read -/

namespace Event

def readReply? (r : ReaderId) : Event → Option (Except String Bytes)
  | asked (.read q _) x => if q = r then some x else none
  | _ => none

def byPlace? (w : WriterId) (r : ReaderId) (c : PlaceReader × List Bytes) :
    Event → Option (PlaceReader × List Bytes)
  | asked (.offerBytes u bytes) (.ok _) => some (if u = w then (c.1, c.2 ++ [bytes]) else c)
  | asked (.read q n) (.ok bytes) =>
    if q = r then
      (c.1.read? c.2 n).bind fun (got, x, queue) => if got = bytes then some (x, queue) else none
    else some c
  | _ => some c

end Event

def readsFrom (r : ReaderId) (es : List Event) : List (Except String Bytes) :=
  es.filterMap (Event.readReply? r)

def bytesFrom (r : ReaderId) (es : List Event) : Bytes :=
  ((readsFrom r es).filterMap Except.toOption).flatten

def byPlace? (w : WriterId) (r : ReaderId) (es : List Event) : Option (PlaceReader × List Bytes) :=
  es.foldlM (Event.byPlace? w r) ({}, [])

section Events

variable {r : ReaderId} {w : WriterId} {es : List Event} {n : Nat} {x : Except String Bytes}

theorem readsFrom_append (es' : List Event) : readsFrom r (es ++ es') =
    readsFrom r es ++ readsFrom r es' := List.filterMap_append

theorem bytesFrom_append (es' : List Event) : bytesFrom r (es ++ es') =
    bytesFrom r es ++ bytesFrom r es' := by
  rw [bytesFrom, readsFrom_append, List.filterMap_append, List.flatten_append]
  rfl

theorem readsFrom_read : readsFrom r [.asked (.read r n) x] = [x] := by
  simp [readsFrom, Event.readReply?]

theorem bytesFrom_read {bytes : Bytes} : bytesFrom r [.asked (.read r n) (.ok bytes)] = bytes := by
  simp [bytesFrom, readsFrom_read, Except.toOption]

theorem readsFrom_concat {ev : Event} (other : ev.readReply? r = none) :
    readsFrom r (es ++ [ev]) = readsFrom r es := by
  simp [readsFrom, other]

theorem mem_readsFrom : x ∈ readsFrom r es ↔ ∃ n, .asked (.read r n) x ∈ es := by
  rw [readsFrom, List.mem_filterMap]
  constructor
  · rintro ⟨ev, mem, reply⟩
    cases ev with
    | called call => cases reply
    | asked q y =>
      cases q with
      | read q n =>
        rw [Event.readReply?, Option.ite_none_right_eq_some] at reply
        obtain ⟨rfl, same⟩ := reply
        cases same
        exact ⟨n, mem⟩
      | _ => cases reply
  · rintro ⟨n, mem⟩
    exact ⟨_, mem, if_pos rfl⟩

theorem byPlace?_concat (ev : Event) : byPlace? w r (es ++ [ev]) =
    (byPlace? w r es).bind fun c => ev.byPlace? w r c := by
  simp [byPlace?]

end Events

end Conduit
