import Conduit.Proofs.System.Trace

/-!
What the events of a run write to an end of a port, and where a writer writes to, which nothing
changes but what is written.
-/

namespace Conduit

namespace Event

def valueTo? (e : ChannelEnd) : Event → Option Value
  | asked (.offer c v) (.ok _) => if e = .writing c then some v else none
  | _ => none

def chunkTo? (e : StreamEnd) : Event → Option Bytes
  | asked (.offerBytes w bytes) (.ok _) => if e = .writing w then some bytes else none
  | _ => none

end Event

variable {s s' : System} {es es' : List Event} {w : WriterId}

def valuesTo (e : ChannelEnd) (es : List Event) : List Value := es.filterMap (Event.valueTo? e)

def chunksTo (e : StreamEnd) (es : List Event) : List Bytes := es.filterMap (Event.chunkTo? e)

def bytesTo (e : StreamEnd) (es : List Event) : Bytes := (chunksTo e es).flatten

@[simp] theorem valuesTo_append (e : ChannelEnd) :
    valuesTo e (es ++ es') = valuesTo e es ++ valuesTo e es' := List.filterMap_append

@[simp] theorem chunksTo_append (e : StreamEnd) :
    chunksTo e (es ++ es') = chunksTo e es ++ chunksTo e es' := List.filterMap_append

@[simp] theorem bytesTo_append (e : StreamEnd) :
    bytesTo e (es ++ es') = bytesTo e es ++ bytesTo e es' := by
  rw [bytesTo, chunksTo_append, List.flatten_append]
  rfl

section Event

variable {r : Request} {x : r.Reply}

@[simp] theorem valuesTo_offer (c : ChannelId) (v : Value) (ticket : Nat) :
    valuesTo (.writing c) [.asked (.offer c v) (.ok ticket)] = [v] := by
  simp [valuesTo, Event.valueTo?]

@[simp] theorem bytesTo_offerBytes (w : WriterId) (bytes : Bytes) (ticket : Nat) :
    bytesTo (.writing w) [.asked (.offerBytes w bytes) (.ok ticket)] = bytes := by
  simp [bytesTo, chunksTo, Event.chunkTo?]

theorem valuesTo_eq_nil (other : ∀ c v, r ≠ .offer c v) (e : ChannelEnd) :
    valuesTo e [.asked r x] = [] := by
  cases r <;> first | rfl | exact absurd rfl (other _ _)

theorem bytesTo_eq_nil (other : ∀ w bytes, r ≠ .offerBytes w bytes) (e : StreamEnd) :
    bytesTo e [.asked r x] = [] := by
  cases r <;> first | rfl | exact absurd rfl (other _ _)

theorem bytesTo_offerBytes_other {u : WriterId} (other : u ≠ w) (bytes : Bytes)
    (x : Except String Nat) : bytesTo (.writing w) [.asked (.offerBytes u bytes) x] = [] := by
  have apart : StreamEnd.writing w ≠ .writing u := fun h => other (StreamEnd.writing.inj h).symm
  cases x <;> simp [bytesTo, chunksTo, Event.chunkTo?, apart]

end Event

/-! ### Where a writer writes to -/

theorem sink_append {bytes : Array UInt8} (first rest : Bytes) :
    bytes ++ first ++ rest = bytes ++ (first ++ rest) := by
  apply Array.ext'
  simp

namespace System

theorem target?_congr {t : Target} (writers : s'.writers = s.writers)
    (target : s.target? w = some t) : s'.target? w = some t := by
  rwa [target?, writers]

theorem target?_onWriter {u : WriterId} {f : ByteWriter → ByteWriter}
    (hf : ∀ x, (f x).target = x.target) : (s.onWriter u f).target? w = s.target? w := by
  rw [target?, target?, onWriter, map_getElem?_modify s.writers u.index w.index f _ hf]

theorem target?_releaseStream (e : StreamEnd) : (s.releaseStream e).target? w = s.target? w := by
  cases e with
  | closed => rfl
  | reading r => simp only [releaseStream]; split <;> rfl
  | writing u =>
    have kept := target?_onWriter (s := s) (w := w) (u := u)
      (f := fun x => { x with holders := x.holders - 1 }) fun _ => rfl
    simp only [releaseStream]
    split <;> exact kept

theorem target?_offerBytes {u : WriterId} (other : u ≠ w) (bytes : Bytes) :
    (s.offerBytes u bytes).2.target? w = s.target? w := by
  have apart : u.index ≠ w.index := fun same => other (by cases u; cases w; cases same; rfl)
  simp only [offerBytes]
  split
  · rfl
  · rfl
  · simp [target?, onWriter, Array.getElem?_modify, apart]
  · split <;> rfl

theorem target?_perform {r : Request} {x : r.Reply} {t : Target}
    (other : ∀ bytes, r ≠ .offerBytes w bytes) (target : s.target? w = some t)
    (reply : r.perform? s = some (x, s')) : s'.target? w = some t := by
  -- Most requests do not touch the writers at all; those that do change other fields of a writer,
  -- or put a new one behind.
  cases r with
  | newPipe capacity size =>
    cases reply
    obtain ⟨writer, here, same⟩ := Option.map_eq_some_iff.1 target
    have older : w.index ≠ s.writers.size :=
      Nat.ne_of_lt (Array.getElem?_eq_some_iff.1 here).1
    simp [target?, Array.getElem?_push, older, here, same]
  | offerBytes u bytes =>
    have apart : u ≠ w := fun same => other bytes (by rw [same])
    have kept := target?_offerBytes (s := s) apart bytes
    rw [Option.some.inj reply] at kept
    exact kept.trans target
  | holdStream e =>
    cases reply
    cases e with
    | closed => exact target
    | reading r => exact target
    | writing u =>
      refine Eq.trans ?_ target
      exact target?_onWriter (f := fun x => { x with holders := oneMore x.holders }) fun _ => rfl
  | releaseStream e => cases reply; exact (target?_releaseStream e).trans target
  | holdChannel e => cases reply; cases e <;> exact target
  | releaseChannel e => cases reply; cases e <;> exact target
  | take c =>
    simp only [Request.perform?, takeValue?] at reply
    split at reply
    · cases reply; exact target
    · obtain ⟨y, -, same⟩ := Option.map_eq_some_iff.1 reply
      cases same
      exact target
  | offer c v =>
    simp only [Request.perform?, offerValue] at reply
    split at reply <;> cases reply <;> exact target
  | fill r => exact target?_congr ((reads_fillBuffer? reply).writers) target
  | read r n => exact target?_congr ((reads_readSome? reply).writers) target
  | settle c ticket =>
    obtain ⟨y, -, same⟩ := Option.map_eq_some_iff.1 reply
    cases same
    exact target
  | settleBytes u ticket =>
    obtain ⟨y, -, same⟩ := Option.map_eq_some_iff.1 reply
    cases same
    exact target
  | enterDirectory path =>
    simp only [Request.perform?] at reply
    split at reply <;> cases reply <;> exact target
  | addVisit store path =>
    simp only [Request.perform?] at reply
    split at reply <;> cases reply <;> exact target
  | askEditor editor r =>
    simp only [Request.perform?] at reply
    split at reply <;> cases reply <;> exact target
  | _ => cases reply; exact target

end System

end Conduit
