import Conduit.Proofs.Pipeline.Neighbours

/-!
Where the stages of a pipeline read and write: each at a place of its own, the first at the
template's input and the last at the template's output.
-/

namespace Conduit.Pipeline

variable {s₀ s : System} {template : Context} {n j k : Nat} {c : ChannelId} {q : ReaderId}
  {w : WriterId} {p : PipeId} {e : PortEnd}

theorem index_lt_of_holders : 0 < s.holders e → match e with
    | .channel (.reading c) | .channel (.writing c) => c.index < s.channels.size
    | .stream (.reading q) => q.index < s.readers.size
    | .stream (.writing w) => w.index < s.writers.size
    | _ => True := by
  have inside {α : Type} {xs : Array α} {g : α → Nat} {i : Nat}
      (held : 0 < ((xs[i]?).map g).getD 0) : i < xs.size := by
    by_contra outside
    rw [Array.getElem?_eq_none (Nat.le_of_not_lt outside)] at held
    cases held
  rcases e with (_ | _ | _) | (_ | _ | _) <;> first | exact inside | exact fun _ => trivial

section Places

variable (sound : template.Sound s₀)
include sound

theorem held_of_input {e : PortEnd} (isOpen : e.isOpen) (mem : e ∈ template.input.ends) :
    0 < s₀.holders e := sound.held e (Context.mem_endsOf_port isOpen mem) isOpen

theorem held_of_output {e : PortEnd} (isOpen : e.isOpen) (mem : e ∈ template.output.ends) :
    0 < s₀.holders e := sound.held e (Context.mem_endsOf_port isOpen mem) isOpen

theorem place_of_take (input : (stageContext s₀ template n k).input.channel = .reading c) :
    k = 0 ∧ c.index < s₀.channels.size ∨ 0 < k ∧ c = linkChannel s₀ (k - 1) := by
  rw [input_stageContext] at input
  split at input
  · next later => cases input; exact .inr ⟨later, rfl⟩
  · next first =>
    have held := held_of_input sound (e := .channel (.reading c)) rfl (by simp [Port.ends, input])
    exact .inl ⟨by omega, index_lt_of_holders held⟩

theorem place_of_fill (input : (stageContext s₀ template n k).input.stream = .reading q) :
    k = 0 ∧ template.input.stream = .reading q ∧ q.index < s₀.readers.size ∨
      0 < k ∧ q = linkReader s₀ (k - 1) := by
  rw [input_stageContext] at input
  split at input
  · next later => cases input; exact .inr ⟨later, rfl⟩
  · next first =>
    have held := held_of_input sound (e := .stream (.reading q)) rfl (by simp [Port.ends, input])
    exact .inl ⟨by omega, input, index_lt_of_holders held⟩

theorem place_of_offer (output : (stageContext s₀ template n k).output.channel = .writing c) :
    k + 1 < n ∧ c = linkChannel s₀ k ∨ n ≤ k + 1 ∧ template.output.channel = .writing c ∧
      c.index < s₀.channels.size := by
  rw [output_stageContext] at output
  split at output
  · next inner => cases output; exact .inl ⟨inner, rfl⟩
  · next last =>
    have held := held_of_output sound (e := .channel (.writing c)) rfl (by simp [Port.ends, output])
    exact .inr ⟨by omega, output, index_lt_of_holders held⟩

theorem place_of_write (output : (stageContext s₀ template n k).output.stream = .writing w) :
    k + 1 < n ∧ w = linkWriter s₀ k ∨ n ≤ k + 1 ∧ template.output.stream = .writing w ∧
      w.index < s₀.writers.size := by
  rw [output_stageContext] at output
  split at output
  · next inner => cases output; exact .inl ⟨inner, rfl⟩
  · next last =>
    have held := held_of_output sound (e := .stream (.writing w)) rfl (by simp [Port.ends, output])
    exact .inr ⟨by omega, output, index_lt_of_holders held⟩

variable (plumbed : Plumbed s₀ s (n - 1))
include plumbed

theorem place_of_readingPipe (lt : k < n)
    (input : (stageContext s₀ template n k).input.stream = .reading q)
    (pipe : s.readingPipe? q = some p) :
    k = 0 ∧ p.index < s₀.pipes.size ∨ 0 < k ∧ p = linkPipe s₀ (k - 1) := by
  rcases place_of_fill sound input with ⟨first, reading, old⟩ | ⟨later, rfl⟩
  · rw [plumbed.oldReaders q old, System.readingPipe?] at pipe
    obtain ⟨source, here, same⟩ := Option.bind_eq_some_iff.1 pipe
    cases source with
    | fixed => cases same
    | pipe p' rest =>
      cases same
      exact .inl ⟨first, sound.reader q p rest reading here⟩
  · rw [plumbed.linkReaders (k - 1) (by omega)] at pipe
    cases pipe
    exact .inr ⟨later, rfl⟩

theorem place_of_writingPipe (output : (stageContext s₀ template n k).output.stream = .writing w)
    (pipe : s.writingPipe? w = some p) :
    k + 1 < n ∧ p = linkPipe s₀ k ∨ n ≤ k + 1 ∧ p.index < s₀.pipes.size := by
  rcases place_of_write sound output with ⟨inner, rfl⟩ | ⟨last, writing, old⟩
  · rw [plumbed.linkWriters k (by omega)] at pipe
    cases pipe
    exact .inl ⟨inner, rfl⟩
  · rw [plumbed.oldWriters w old, System.writingPipe?] at pipe
    obtain ⟨target, here, same⟩ := Option.bind_eq_some_iff.1 pipe
    cases target with
    | sink => cases same
    | pipe p' =>
      cases same
      exact .inr ⟨last, sound.writer w p writing here⟩

theorem apart_stages (ltj : j < n) (ltk : k < n) (differ : j ≠ k) :
    Apart s (stageContext s₀ template n j) (stageContext s₀ template n k) where
  input c hj hk := by
    have first := place_of_take sound hj
    have second := place_of_take sound hk
    grind [linkChannel]
  reader q hj hk := by
    have first := place_of_fill sound hj
    have second := place_of_fill sound hk
    grind [linkReader]
  bytes q q' p hj hk pj pk := by
    have first := place_of_readingPipe sound plumbed ltj hj pj
    have second := place_of_readingPipe sound plumbed ltk hk pk
    grind [linkPipe]
  output c hj hk := by
    have first := place_of_offer sound hj
    have second := place_of_offer sound hk
    grind [linkChannel]
  writer w hj hk := by
    have first := place_of_write sound hj
    have second := place_of_write sound hk
    grind [linkWriter]
  sent w w' p hj hk pj pk := by
    have first := place_of_writingPipe sound plumbed hj pj
    have second := place_of_writingPipe sound plumbed hk pk
    grind [linkPipe]

theorem not_looped (lt : k < n) (some : 1 < n) : ¬ (stageContext s₀ template n k).Looped s := by
  rintro (⟨c, input, output⟩ | ⟨q, w, p, input, output, pipe, pipe'⟩)
  · have first := place_of_take sound input
    have second := place_of_offer sound output
    grind [linkChannel]
  · have first := place_of_readingPipe sound plumbed lt input pipe
    have second := place_of_writingPipe sound plumbed output pipe'
    grind [linkPipe]

end Places

end Conduit.Pipeline
