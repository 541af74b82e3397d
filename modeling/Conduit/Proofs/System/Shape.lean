import Conduit.Proofs.System.Refill
import Conduit.Proofs.System.Written

/-!
What the transfer of values and bytes leaves as it is: who holds which side of a conduit, and which
pipe is behind a reader or a writer.
-/

namespace Conduit

def Channel.sides {α : Type} (ch : Channel α) : Nat × Nat := (ch.readers, ch.writers)

def Source.pipe? : Source → Option PipeId
  | fixed _ _ => none
  | pipe p _ => some p

def Target.pipe? : Target → Option PipeId
  | sink _ _ _ => none
  | pipe p => some p

def ByteReader.shape (x : ByteReader) : Option PipeId × Nat × Nat :=
  (x.source.pipe?, x.bufferSize, x.holders)

def ByteWriter.shape (x : ByteWriter) : Option PipeId × Nat := (x.target.pipe?, x.holders)

namespace System

structure SameShape (s s' : System) : Prop where
  channels : ∀ i : Nat, (s'.channels[i]?).map Channel.sides = (s.channels[i]?).map Channel.sides
  pipes : ∀ i : Nat, (s'.pipes[i]?).map Channel.sides = (s.pipes[i]?).map Channel.sides
  readers : ∀ i : Nat, (s'.readers[i]?).map ByteReader.shape = (s.readers[i]?).map ByteReader.shape
  writers : ∀ i : Nat, (s'.writers[i]?).map ByteWriter.shape = (s.writers[i]?).map ByteWriter.shape

variable {s s' s'' : System}

theorem SameShape.refl (s : System) : s.SameShape s :=
  ⟨fun _ => rfl, fun _ => rfl, fun _ => rfl, fun _ => rfl⟩

theorem SameShape.trans (first : s.SameShape s') (rest : s'.SameShape s'') : s.SameShape s'' :=
  ⟨fun i => (rest.channels i).trans (first.channels i),
    fun i => (rest.pipes i).trans (first.pipes i),
    fun i => (rest.readers i).trans (first.readers i),
    fun i => (rest.writers i).trans (first.writers i)⟩

theorem SameShape.holders (same : s.SameShape s') (e : PortEnd) : s'.holders e = s.holders e := by
  have channels := fun (c : ChannelId) => same.channels c.index
  have readers := fun (r : ReaderId) => congrArg (Option.map (·.2.2)) (same.readers r.index)
  have writers := fun (w : WriterId) => congrArg (Option.map Prod.snd) (same.writers w.index)
  simp only [Option.map_map] at readers writers
  match e with
  | .channel .closed | .stream .closed => rfl
  | .channel (.reading c) =>
    have sides := congrArg (Option.map Prod.fst) (channels c)
    simp only [Option.map_map] at sides
    exact congrArg (Option.getD · 0) sides
  | .channel (.writing c) =>
    have sides := congrArg (Option.map Prod.snd) (channels c)
    simp only [Option.map_map] at sides
    exact congrArg (Option.getD · 0) sides
  | .stream (.reading r) => exact congrArg (Option.getD · 0) (readers r)
  | .stream (.writing w) => exact congrArg (Option.getD · 0) (writers w)

theorem map_getElem?_modify_here {α β : Type} {xs : Array α} {i : Nat} (j : Nat) {f : α → α}
    {g : α → β} (hf : ∀ x, xs[i]? = some x → g (f x) = g x) :
    (xs.modify i f)[j]?.map g = xs[j]?.map g := by
  rw [Array.getElem?_modify]
  split
  · next same =>
    subst same
    cases here : xs[i]? with
    | none => rfl
    | some x => exact congrArg some (hf x here)
  · rfl

theorem sameShape_onChannel {c : ChannelId} {f : Channel Value → Channel Value}
    (hf : ∀ x, s.channels[c.index]? = some x → (f x).sides = x.sides) :
    s.SameShape (s.onChannel c f) :=
  { SameShape.refl s with channels := fun i => map_getElem?_modify_here i hf }

theorem sameShape_onPipe {p : PipeId} {f : Channel Bytes → Channel Bytes}
    (hf : ∀ x, s.pipes[p.index]? = some x → (f x).sides = x.sides) :
    s.SameShape (s.onPipe p f) :=
  { SameShape.refl s with pipes := fun i => map_getElem?_modify_here i hf }

theorem sameShape_onReader {r : ReaderId} {f : ByteReader → ByteReader}
    (hf : ∀ x, s.readers[r.index]? = some x → (f x).shape = x.shape) :
    s.SameShape (s.onReader r f) :=
  { SameShape.refl s with readers := fun i => map_getElem?_modify_here i hf }

theorem sameShape_onWriter {w : WriterId} {f : ByteWriter → ByteWriter}
    (hf : ∀ x, s.writers[w.index]? = some x → (f x).shape = x.shape) :
    s.SameShape (s.onWriter w f) :=
  { SameShape.refl s with writers := fun i => map_getElem?_modify_here i hf }

theorem source?_eq_some {r : ReaderId} {source : Source} (here : s.source? r = some source) :
    ∃ x, s.readers[r.index]? = some x ∧ x.source = source :=
  Option.map_eq_some_iff.1 here

theorem sameShape_takeValue? {c : ChannelId} {x : Option Value}
    (take : s.takeValue? c = some (x, s')) : s.SameShape s' := by
  cases here : s.channels[c.index]? with
  | none => rw [takeValue?, here] at take; cases take; exact .refl s
  | some ch =>
    rcases takeValue?_cases here take with ⟨v, rest, -, -, rfl⟩ | ⟨-, -, -, rfl⟩ <;>
      exact sameShape_onChannel fun _ same => by rw [here] at same; cases same; rfl

theorem sameShape_offerValue {c : ChannelId} {v : Value} {x : Except PortError Nat}
    (offer : s.offerValue c v = (x, s')) : s.SameShape s' := by
  rcases offerValue_cases offer with ⟨ch, here, -, -, -, rfl⟩ | ⟨-, rfl, -⟩
  · exact sameShape_onChannel fun _ same => by rw [here] at same; cases same; rfl
  · exact .refl _

theorem Refilled.shape {r : ReaderId} {x : ByteReader} {source : Source} {buffer : Bytes}
    (refilled : s.Refilled s' r x source buffer) (here : s.readers[r.index]? = some x)
    (pipe : source.pipe? = x.source.pipe?) (i : Nat) :
    (s'.readers[i]?).map ByteReader.shape = (s.readers[i]?).map ByteReader.shape := by
  by_cases same : i = r.index
  · rw [same, refilled.here, here]
    simp [ByteReader.shape, pipe]
  · rw [refilled.others i same]

theorem pipe?_refill (x : ByteReader) : x.refill.2.1.pipe? = x.source.pipe? := by
  obtain ⟨source, size, buffer, holders⟩ := x
  match buffer, source with
  | _ :: _, _ => rfl
  | [], .fixed [] (some _) | [], .fixed [] none | [], .fixed (_ :: _) _ | [], .pipe _ _ => rfl

theorem pipe?_of_needs? {x : ByteReader} {p : PipeId} (needs : x.needs? = some p) :
    x.source = .pipe p [] := by
  rw [ByteReader.needs?] at needs
  split at needs
  · next q source =>
    split at needs <;> cases needs
    exact source
  · cases needs

theorem sameShape_fillBuffer? {r : ReaderId} {a : Except String Bytes}
    (fill : s.fillBuffer? r = some (a, s')) : s.SameShape s' := by
  cases here : s.readers[r.index]? with
  | none => rw [fillBuffer?, here] at fill; cases fill; exact .refl s
  | some x =>
    have unchanged {t : System} {source : Source} {buffer : Bytes}
        (refilled : s.Refilled t r x source buffer) (pipe : source.pipe? = x.source.pipe?)
        (pipes : ∀ i : Nat, (t.pipes[i]?).map Channel.sides = (s.pipes[i]?).map Channel.sides) :
        s.SameShape t :=
      ⟨fun i => by rw [refilled.channels], pipes, refilled.shape here pipe,
        fun i => by rw [refilled.writers]⟩
    cases refill_of_fillBuffer? here fill with
    | atHand needs refilled pipes =>
      exact unchanged refilled (pipe?_refill x) fun i => by rw [pipes]
    | ended needs none refilled pipes => exact unchanged refilled rfl fun i => by rw [pipes]
    | took needs pipe first refilled pipes =>
      refine unchanged refilled (by rw [pipe?_of_needs? needs]; rfl) fun i => ?_
      rw [pipes]
      exact map_getElem?_modify_here i fun y other => by rw [pipe] at other; cases other; rfl

theorem sameShape_offerBytes {w : WriterId} {bytes : Bytes} {x : Except String Nat}
    (offer : s.offerBytes w bytes = (x, s')) : s.SameShape s' := by
  cases sent_of_offerBytes offer with
  | @sunk written flushError target =>
    obtain ⟨writer, here, same⟩ := Option.map_eq_some_iff.1 target
    refine sameShape_onWriter fun y other => ?_
    rw [here] at other
    cases other
    simp [ByteWriter.shape, same, Target.pipe?]
  | piped _ here =>
    exact sameShape_onPipe fun y other => by rw [here] at other; cases other; rfl
  | refused => exact .refl s
  | gone => exact .refl s

end System

namespace Request

def isTransfer : Request → Bool
  | take _ | offer _ _ | settle _ _ | fill _ | consume _ _ | offerBytes _ _ | settleBytes _ _
  | flush _ => true
  | _ => false

theorem sameShape_perform {r : Request} {x : r.Reply} {s s' : System} (transfer : r.isTransfer)
    (reply : r.perform? s = some (x, s')) : s.SameShape s' := by
  cases r with
  | take c => exact System.sameShape_takeValue? reply
  | offer c v => exact System.sameShape_offerValue (Option.some.inj reply)
  | settle c ticket =>
    obtain ⟨y, -, reply⟩ := Option.map_eq_some_iff.1 reply
    cases reply
    exact .refl s
  | fill r => exact System.sameShape_fillBuffer? reply
  | consume r n => cases reply; exact System.sameShape_onReader fun _ _ => rfl
  | offerBytes w bytes => exact System.sameShape_offerBytes (Option.some.inj reply)
  | settleBytes w ticket =>
    obtain ⟨y, -, reply⟩ := Option.map_eq_some_iff.1 reply
    cases reply
    exact .refl s
  | flush w => cases reply; exact .refl s
  | _ => cases transfer

end Request

end Conduit
