import Conduit.Proofs.System.Moves

/-!
What a write leaves in the system, and what is read beside it: where the two do not meet, it does
not matter which of them comes first.
-/

namespace Conduit

inductive Deposit
  | nothing
  | channel (c : ChannelId) (ch : Channel Value)
  | sink (w : WriterId) (target : Target)
  | pipe (p : PipeId) (ch : Channel Bytes)

theorem modify_comm {α : Type} (xs : Array α) {i j : Nat} (apart : i ≠ j) (f g : α → α) :
    (xs.modify i f).modify j g = (xs.modify j g).modify i f := by
  apply Array.ext_getElem?
  intro k
  simp only [Array.getElem?_modify]
  by_cases first : i = k
  · have other : j ≠ k := fun same => apart (first.trans same.symm)
    simp [first, other]
  · simp [first]

namespace Deposit

variable {d : Deposit} {s t : System} {c : ChannelId} {q : ReaderId} {p : PipeId} {r : Request}

def into (s : System) : Deposit → System
  | nothing => s
  | channel c ch => s.onChannel c fun _ => ch
  | sink w target => s.onWriter w ({ · with target })
  | pipe p ch => s.onPipe p fun _ => ch

def Apart (d : Deposit) (s : System) : Request → Prop
  | .take c => ∀ ch, d ≠ .channel c ch
  | .fill q => ∀ p, s.readingPipe? q = some p → ∀ ch, d ≠ .pipe p ch
  | .consume _ _ | .home | .workingDirectory | .listVisited _ | .findVisited _ _ => True
  | _ => False

/-! ### Where the deposit is -/

theorem channels_into_congr (d : Deposit) {i : Nat} (same : t.channels[i]? = s.channels[i]?) :
    (d.into t).channels[i]? = (d.into s).channels[i]? := by
  cases d with
  | channel => simp only [into, System.onChannel, Array.getElem?_modify, same]
  | _ => exact same

theorem writers_into_congr (d : Deposit) {i : Nat} (same : t.writers[i]? = s.writers[i]?) :
    (d.into t).writers[i]? = (d.into s).writers[i]? := by
  cases d with
  | sink => simp only [into, System.onWriter, Array.getElem?_modify, same]
  | _ => exact same

theorem pipes_into_congr (d : Deposit) {i : Nat} (same : t.pipes[i]? = s.pipes[i]?) :
    (d.into t).pipes[i]? = (d.into s).pipes[i]? := by
  cases d with
  | pipe => simp only [into, System.onPipe, Array.getElem?_modify, same]
  | _ => exact same

/-! ### Where the deposit is not -/

theorem channel_index_ne {e : ChannelId} {ch : Channel Value}
    (apart : ∀ ch', channel e ch ≠ channel c ch') : e.index ≠ c.index := by
  intro same
  cases e
  cases c
  cases same
  exact apart ch rfl

theorem pipe_index_ne {e : PipeId} {ch : Channel Bytes}
    (apart : ∀ ch', pipe e ch ≠ pipe p ch') : e.index ≠ p.index := by
  intro same
  cases e
  cases p
  cases same
  exact apart ch rfl

theorem readers_into (d : Deposit) (s : System) : (d.into s).readers = s.readers := by
  cases d <;> rfl

theorem source?_into (d : Deposit) (s : System) (q : ReaderId) :
    (d.into s).source? q = s.source? q := by
  cases d <;> rfl

theorem onReader_into (d : Deposit) (s : System) (q : ReaderId) (f : ByteReader → ByteReader) :
    (d.into s).onReader q f = d.into (s.onReader q f) := by
  cases d <;> rfl

theorem getElem?_channels_into (apart : ∀ ch, d ≠ .channel c ch) :
    (d.into s).channels[c.index]? = s.channels[c.index]? := by
  cases d with
  | channel e ch =>
    simp [into, System.onChannel, Array.getElem?_modify, channel_index_ne apart]
  | _ => rfl

theorem onChannel_into (apart : ∀ ch, d ≠ .channel c ch) (f : Channel Value → Channel Value) :
    (d.into s).onChannel c f = d.into (s.onChannel c f) := by
  cases d with
  | channel e ch =>
    simp [into, System.onChannel, modify_comm _ (channel_index_ne apart)]
  | _ => rfl

theorem getElem?_pipes_into (apart : ∀ ch, d ≠ .pipe p ch) :
    (d.into s).pipes[p.index]? = s.pipes[p.index]? := by
  cases d with
  | pipe e ch =>
    simp [into, System.onPipe, Array.getElem?_modify, pipe_index_ne apart]
  | _ => rfl

theorem onPipe_into (apart : ∀ ch, d ≠ .pipe p ch) (f : Channel Bytes → Channel Bytes) :
    (d.into s).onPipe p f = d.into (s.onPipe p f) := by
  cases d with
  | pipe e ch =>
    simp [into, System.onPipe, modify_comm _ (pipe_index_ne apart)]
  | _ => rfl

/-! ### What is read -/

theorem takeValue?_into (apart : ∀ ch, d ≠ .channel c ch) :
    (d.into s).takeValue? c = (s.takeValue? c).map fun (x, t) => (x, d.into t) := by
  rw [System.takeValue?, System.takeValue?, getElem?_channels_into apart]
  cases s.channels[c.index]? with
  | none => rfl
  | some ch =>
    simp only [Option.map_map, Function.comp_def]
    exact congrArg (Option.map · ch.take?) (funext fun x => by rw [onChannel_into apart])

theorem readSource?_into (apart : ∀ p, s.readingPipe? q = some p → ∀ ch, d ≠ .pipe p ch) (n : Nat) :
    (d.into s).readSource? q n = (s.readSource? q n).map fun (x, t) => (x, d.into t) := by
  rw [System.readSource?, System.readSource?, source?_into]
  cases source : s.source? q with
  | none => rfl
  | some source' =>
    cases source' with
    | fixed rest failure =>
      cases rest <;> cases failure <;> simp only [onReader_into, Option.map_some]
    | pipe p rest =>
      have behind : s.readingPipe? q = some p := by rw [System.readingPipe?, source]; rfl
      have apart := apart p behind
      simp only [getElem?_pipes_into apart]
      split
      · rfl
      · split
        · simp only [onReader_into, Option.map_some]
        · cases s.pipes[p.index]? with
          | none => rfl
          | some ch =>
            simp only [Option.map_map, Function.comp_def]
            refine congrArg (Option.map · ch.take?) (funext fun x => ?_)
            obtain ⟨_ | chunk, ch'⟩ := x
            · rfl
            · simp only [onPipe_into apart, onReader_into]

theorem fillBuffer?_into (apart : ∀ p, s.readingPipe? q = some p → ∀ ch, d ≠ .pipe p ch) :
    (d.into s).fillBuffer? q = (s.fillBuffer? q).map fun (x, t) => (x, d.into t) := by
  rw [System.fillBuffer?, System.fillBuffer?, readers_into]
  cases s.readers[q.index]? with
  | none => rfl
  | some reader =>
    simp only [readSource?_into apart]
    split
    · rfl
    · simp only [Option.map_map, Function.comp_def]
      refine congrArg (Option.map · (s.readSource? q reader.bufferSize)) (funext fun x => ?_)
      obtain ⟨_ | bytes, t⟩ := x
      · rfl
      · simp only [onReader_into]

theorem perform?_into (apart : d.Apart s r) :
    r.perform? (d.into s) = (r.perform? s).map fun (x, t) => (x, d.into t) := by
  cases r with
  | take c => exact takeValue?_into apart
  | fill q => exact fillBuffer?_into apart
  | consume q n => exact congrArg (fun t => some ((), t)) (onReader_into d s q _)
  | home | workingDirectory | listVisited | findVisited => cases d <;> rfl
  | _ => cases apart

end Deposit

namespace System

variable {s t : System}

/-! ### What an offer leaves -/

def valueDeposit (s : System) (c : ChannelId) (v : Value) : Deposit :=
  match (s.channels[c.index]?).bind (·.offer? v) with
  | none => .nothing
  | some ch => .channel c ch

def bytesDeposit (s : System) (w : WriterId) (b : Bytes) : Deposit :=
  match s.target? w with
  | some (.sink written none flushError) => .sink w (.sink (written ++ b) none flushError)
  | some (.pipe p) =>
    match (s.pipes[p.index]?).bind (·.offer? b) with
    | none => .nothing
    | some ch => .pipe p ch
  | _ => .nothing

theorem valueDeposit_cases (s : System) (c : ChannelId) (v : Value) :
    s.valueDeposit c v = .nothing ∨ ∃ ch, s.valueDeposit c v = .channel c ch := by
  rw [valueDeposit]
  split
  · exact .inl rfl
  · exact .inr ⟨_, rfl⟩

theorem bytesDeposit_cases (s : System) (w : WriterId) (b : Bytes) :
    s.bytesDeposit w b = .nothing ∨ (∃ target, s.bytesDeposit w b = .sink w target) ∨
      ∃ p ch, s.writingPipe? w = some p ∧ s.bytesDeposit w b = .pipe p ch := by
  rw [bytesDeposit]
  split
  · exact .inr (.inl ⟨_, rfl⟩)
  · next p target =>
    split
    · exact .inl rfl
    · exact .inr (.inr ⟨p, _, by rw [writingPipe?, target]; rfl, rfl⟩)
  · exact .inl rfl

theorem offerValue_snd (s : System) (c : ChannelId) (v : Value) :
    (s.offerValue c v).2 = (s.valueDeposit c v).into s := by
  rw [offerValue, valueDeposit]
  split <;> simp only [*] <;> rfl

theorem offerBytes_snd (s : System) (w : WriterId) (b : Bytes) :
    (s.offerBytes w b).2 = (s.bytesDeposit w b).into s := by
  rw [offerBytes, bytesDeposit]
  cases s.target? w with
  | none => rfl
  | some target =>
    cases target with
    | sink written writeError flushError => cases writeError <;> rfl
    | pipe p =>
      simp only
      cases (s.pipes[p.index]?).bind (·.offer? b) <;> rfl

end System

end Conduit
