import Conduit.Proofs.Pipeline.Accounts

/-!
Who can see that a conduit of a pipeline has ended, and whose writes are refused: only a link can end
or refuse in one run of the stages and not in the other, and only when the stage on its other side
has begun to give up its ends.
-/

namespace Conduit.Pipeline

variable {s₀ s t : System} {template : Context} {n k : Nat} {e : PortEnd}
  {left leftT : Nat → List PortEnd} {toCome : Supply}

theorem writing_mem_stageEnds (lt : k + 1 < n) (mem : e ∈ (writingPort s₀ k).ends) :
    e ∈ stageEnds s₀ template n k := by
  have isOpen : e.isOpen := by
    simp only [Port.ends, writingPort, List.mem_cons, List.not_mem_nil, or_false] at mem
    rcases mem with rfl | rfl <;> rfl
  refine Context.mem_endsOf_port (i := 1) isOpen ?_
  have output := output_stageContext s₀ template n k
  rw [if_pos lt] at output
  rwa [show (stageContext s₀ template n k).port 1 = writingPort s₀ k from output]

theorem reading_mem_stageEnds (mem : e ∈ (readingPort s₀ k).ends) :
    e ∈ stageEnds s₀ template n (k + 1) := by
  have isOpen : e.isOpen := by
    simp only [Port.ends, readingPort, List.mem_cons, List.not_mem_nil, or_false] at mem
    rcases mem with rfl | rfl <;> rfl
  refine Context.mem_endsOf_port (i := 0) isOpen ?_
  have input := input_stageContext_succ s₀ template n k
  rwa [show (stageContext s₀ template n (k + 1)).port 0 = readingPort s₀ k from input]

theorem holders_of_channel {c : ChannelId} {x : Channel Value}
    (here : s.channels[c.index]? = some x) :
    s.holders (.channel (.reading c)) = x.readers ∧
      s.holders (.channel (.writing c)) = x.writers := by
  simp [System.holders, here]

theorem not_isLinkEnd_channel {c : ChannelId} (made : Nat) (old : c.index < s₀.channels.size) :
    ¬ IsLinkEnd s₀ made (.channel (.reading c)) ∧ ¬ IsLinkEnd s₀ made (.channel (.writing c)) := by
  constructor <;> rintro ⟨k, -, mem⟩ <;>
    simp only [Port.ends, writingPort, readingPort, List.mem_cons, List.not_mem_nil, or_false,
      PortEnd.channel.injEq, reduceCtorEq, ChannelEnd.writing.injEq, ChannelEnd.reading.injEq,
      false_or] at mem <;>
    · subst mem
      simp [linkChannel] at old

namespace Accounts

variable (accounts : Accounts s₀ template n s left) (sound : template.Sound s₀)
include accounts sound

theorem channel_link (lt : k + 1 < n) {x : Channel Value}
    (here : s.channels[(linkChannel s₀ k).index]? = some x) :
    x.writers = (left k).count (.channel (.writing (linkChannel s₀ k))) ∧
      x.readers = (left (k + 1)).count (.channel (.reading (linkChannel s₀ k))) := by
  obtain ⟨readers, writers⟩ := holders_of_channel here
  rw [← readers, ← writers]
  exact ⟨accounts.holders_writing sound lt (by simp [Port.ends, writingPort]),
    accounts.holders_reading sound lt (by simp [Port.ends, readingPort])⟩

theorem pipe_link (lt : k + 1 < n) {x : Channel Bytes}
    (here : s.pipes[(linkPipe s₀ k).index]? = some x) :
    x.writers = min 1 ((left k).count (.stream (.writing (linkWriter s₀ k)))) ∧
      x.readers = min 1 ((left (k + 1)).count (.stream (.reading (linkReader s₀ k)))) := by
  have sides := accounts.kept.linkPipes k (by omega)
  have writing := accounts.holders_writing sound lt (e := .stream (.writing (linkWriter s₀ k)))
    (by simp [Port.ends, writingPort])
  have reading := accounts.holders_reading sound lt (e := .stream (.reading (linkReader s₀ k)))
    (by simp [Port.ends, readingPort])
  rw [here, writing, reading] at sides
  simp only [Option.map_some, Channel.sides, Option.some.injEq, Prod.mk.injEq] at sides
  exact ⟨sides.2, sides.1⟩

theorem channel_link_writers (lt : k + 1 < n) (whole : left k = stageEnds s₀ template n k)
    {x : Channel Value} (here : s.channels[(linkChannel s₀ k).index]? = some x) :
    x.writers ≠ 0 := by
  rw [(accounts.channel_link sound lt here).1, whole]
  exact Nat.ne_of_gt (List.count_pos_iff.2
    (writing_mem_stageEnds lt (by simp [Port.ends, writingPort])))

theorem channel_link_readers (lt : k + 1 < n)
    (whole : left (k + 1) = stageEnds s₀ template n (k + 1)) {x : Channel Value}
    (here : s.channels[(linkChannel s₀ k).index]? = some x) : x.readers ≠ 0 := by
  rw [(accounts.channel_link sound lt here).2, whole]
  exact Nat.ne_of_gt (List.count_pos_iff.2
    (reading_mem_stageEnds (by simp [Port.ends, readingPort])))

theorem pipe_link_writers (lt : k + 1 < n) (whole : left k = stageEnds s₀ template n k)
    {x : Channel Bytes} (here : s.pipes[(linkPipe s₀ k).index]? = some x) : x.writers ≠ 0 := by
  have mem : .stream (.writing (linkWriter s₀ k)) ∈ stageEnds s₀ template n k :=
    writing_mem_stageEnds lt (by simp [Port.ends, writingPort])
  have some := List.count_pos_iff.2 mem
  rw [(accounts.pipe_link sound lt here).1, whole]
  omega

theorem pipe_link_readers (lt : k + 1 < n)
    (whole : left (k + 1) = stageEnds s₀ template n (k + 1)) {x : Channel Bytes}
    (here : s.pipes[(linkPipe s₀ k).index]? = some x) : x.readers ≠ 0 := by
  have mem : .stream (.reading (linkReader s₀ k)) ∈ stageEnds s₀ template n (k + 1) :=
    reading_mem_stageEnds (by simp [Port.ends, readingPort])
  have some := List.count_pos_iff.2 mem
  rw [(accounts.pipe_link sound lt here).2, whole]
  omega

theorem channel_old {c : ChannelId} (old : c.index < s₀.channels.size) {x : Channel Value}
    (here : s.channels[c.index]? = some x) :
    (x.readers = 0 ↔ s₀.holders (.channel (.reading c)) = 0) ∧
      (x.writers = 0 ↔ s₀.holders (.channel (.writing c)) = 0) := by
  obtain ⟨readers, writers⟩ := holders_of_channel here
  obtain ⟨reading, writing⟩ := not_isLinkEnd_channel (n - 1) old
  rw [← readers, ← writers]
  exact ⟨accounts.holders_old sound rfl reading, accounts.holders_old sound rfl writing⟩

end Accounts

variable (sound : template.Sound s₀) (accS : Accounts s₀ template n s left)
  (accT : Accounts s₀ template n t leftT)
include sound accS accT

theorem refuses_old {c : ChannelId} (old : c.index < s₀.channels.size) {x y : Channel Value}
    (hs : s.channels[c.index]? = some x) (ht : t.channels[c.index]? = some y) :
    x.Refuses ↔ y.Refuses := by
  obtain ⟨readers, writers⟩ := accS.channel_old sound old hs
  obtain ⟨readers', writers'⟩ := accT.channel_old sound old ht
  rw [Channel.Refuses, Channel.Refuses, readers, writers, readers', writers']

omit sound in
theorem sides_old {p : PipeId} (old : p.index < s₀.pipes.size) {x y : Channel Bytes}
    (hs : s.pipes[p.index]? = some x) (ht : t.pipes[p.index]? = some y) : x.sides = y.sides := by
  have same := (accS.kept.oldPipes p.index old).trans (accT.kept.oldPipes p.index old).symm
  rw [hs, ht] at same
  exact Option.some.inj same

theorem level_of_accounts (lt : k < n)
    (wholeT : ∀ j, k ≤ j → j < n → leftT j = stageEnds s₀ template n j)
    (source : toCome = {} ∨ 0 < k ∧ left (k - 1) = stageEnds s₀ template n (k - 1)) :
    Level (stageContext s₀ template n k) s t toCome where
  values c x input here none := by
    rcases source with rfl | ⟨later, whole⟩
    · rfl
    · rcases place_of_take sound input with ⟨first, -⟩ | ⟨-, rfl⟩
      · omega
      · exact absurd none (accS.channel_link_writers sound (by omega) whole here)
  bytes q p x input pipe here none := by
    rcases source with rfl | ⟨later, whole⟩
    · rfl
    · rcases place_of_readingPipe sound accS.kept.toPlumbed lt input pipe with
        ⟨first, -⟩ | ⟨-, rfl⟩
      · omega
      · exact absurd none (accS.pipe_link_writers sound (by omega) whole here)
  -- The output is a link that is still read in `t`, or it is the template's and has the same
  -- sides in both runs.
  output c x y output hs ht refuses := by
    rcases place_of_offer sound output with ⟨inner, rfl⟩ | ⟨-, -, old⟩
    · rcases refuses with none | none
      · exact absurd none
          (accT.channel_link_readers sound inner (wholeT (k + 1) (by omega) inner) ht)
      · exact absurd none (accT.channel_link_writers sound inner (wholeT k (Nat.le_refl k) lt) ht)
    · exact (refuses_old sound accS accT old hs ht).2 refuses
  sent w p x y output pipe hs ht refuses := by
    rcases place_of_writingPipe sound accS.kept.toPlumbed output pipe with ⟨inner, rfl⟩ | ⟨-, old⟩
    · rcases refuses with none | none
      · exact absurd none
          (accT.pipe_link_readers sound inner (wholeT (k + 1) (by omega) inner) ht)
      · exact absurd none (accT.pipe_link_writers sound inner (wholeT k (Nat.le_refl k) lt) ht)
    · have sides := sides_old accS accT old hs ht
      simp only [Channel.sides, Prod.mk.injEq] at sides
      rwa [Channel.Refuses, sides.1, sides.2]

theorem inner_of_cut (whole : left k = stageEnds s₀ template n k) {writes : View}
    (cut : Cut (stageContext s₀ template n k) s t writes) :
    k + 1 < n ∧ left (k + 1) ≠ stageEnds s₀ template n (k + 1) := by
  cases cut with
  | values output hs ht refuses accepts =>
    rcases place_of_offer sound output with ⟨inner, rfl⟩ | ⟨-, -, old⟩
    · refine ⟨inner, fun next => ?_⟩
      rcases refuses with none | none
      · exact accS.channel_link_readers sound inner next hs none
      · exact accS.channel_link_writers sound inner whole hs none
    · exact absurd ((refuses_old sound accS accT old hs ht).1 refuses) accepts
  | bytes output pipe hs ht refuses accepts =>
    rcases place_of_writingPipe sound accS.kept.toPlumbed output pipe with ⟨inner, rfl⟩ | ⟨-, old⟩
    · refine ⟨inner, fun next => ?_⟩
      rcases refuses with none | none
      · exact accS.pipe_link_readers sound inner next hs none
      · exact accS.pipe_link_writers sound inner whole hs none
    · have sides := sides_old accS accT old hs ht
      simp only [Channel.sides, Prod.mk.injEq] at sides
      rw [Channel.Refuses, sides.1, sides.2] at refuses
      exact absurd refuses accepts

end Conduit.Pipeline
