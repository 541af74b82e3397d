import Conduit.Proofs.Json.Grammar
import Conduit.Proofs.Json.Steady

/-!
What the small decoders do, on a cursor with all bytes at hand: which bytes they answer and which
they leave.  Conversely, what they have answered they have found.
-/

namespace Conduit.Json

structure Cursor.Holds (c : Cursor) (bytes : Bytes) : Prop where
  ending : c.ending = .finished
  ahead : c.ahead = bytes

structure Cursor.Sees (c : Cursor) (bytes : Bytes) : Prop where
  ending : c.ending = .finished
  peeked : c.peeked = bytes.head?
  rest : c.rest = bytes.tail

variable {α β : Type} {d : Decoder α} {f : α → Decoder β} {c c' : Cursor} {a : α} {b : UInt8}
  {bytes rest : Bytes}

theorem Cursor.Sees.holds (sees : c.Sees bytes) : c.Holds bytes := by
  refine ⟨sees.ending, ?_⟩
  rw [Cursor.ahead, sees.peeked, sees.rest]
  cases bytes <;> rfl

namespace Decoder

/-! ### Answers -/

theorem exists_bind_ok {P : Cursor → Prop} {y : β} {c₁ : Cursor} (first : d c = .ok a c₁)
    (second : ∃ c', f a c₁ = .ok y c' ∧ P c') : ∃ c', (d >>= f) c = .ok y c' ∧ P c' := by
  rwa [bind_of_ok first]

theorem exists_pure_ok {P : Cursor → Prop} (holds : P c) :
    ∃ c', (pure a : Decoder α) c = .ok a c' ∧ P c' := ⟨c, rfl, holds⟩

theorem exists_peek (holds : c.Holds bytes) :
    ∃ c', peek c = .ok bytes.head? c' ∧ c'.Sees bytes := by
  obtain ⟨ending, rfl⟩ := holds
  obtain ⟨rest, _, peeked, position⟩ := c
  obtain rfl : _ = Ending.finished := ending
  rcases peeked with _ | b
  · rcases rest with _ | ⟨b, rest⟩
    · exact ⟨_, rfl, rfl, rfl, rfl⟩
    · exact ⟨_, rfl, rfl, rfl, rfl⟩
  · exact ⟨_, rfl, rfl, rfl, rfl⟩

theorem exists_discard (sees : c.Sees (b :: bytes)) :
    ∃ c', discard c = .ok () c' ∧ c'.Holds bytes := ⟨_, rfl, sees.ending, sees.rest⟩

theorem exists_nextOr (holds : c.Holds (b :: bytes)) (fault : Fault) :
    ∃ c', nextOr fault c = .ok b c' ∧ c'.Holds bytes := by
  obtain ⟨c₁, look, sees⟩ := exists_peek holds
  obtain ⟨c₂, past, holds⟩ := exists_discard sees
  have next : next c = .ok (some b) c₂ := by
    rw [next, bind_of_ok look, bind_of_ok past]
    rfl
  exact exists_bind_ok next (exists_pure_ok holds)

theorem exists_takeWhile (holds : c.Holds bytes) (test : UInt8 → Bool) :
    ∃ c', takeWhile test c = .ok (bytes.takeWhile test) c' ∧ c'.Sees (bytes.dropWhile test) := by
  obtain ⟨ending, rfl⟩ := holds
  rw [takeWhile_apply]
  split
  · next pass =>
    have front : ∀ b ∈ c.peeked.toList, test b = true := by
      simpa [Option.all_eq_true] using pass
    have holds : (passing test c).Holds (c.ahead.dropWhile test) := by
      refine ⟨ending, ?_⟩
      rw [Cursor.ahead, Cursor.ahead, List.dropWhile_append_of_pos front]
      rfl
    obtain ⟨c', look, sees⟩ := exists_peek holds
    rw [Cursor.ahead, List.takeWhile_append_of_pos front]
    exact exists_bind_ok look (exists_pure_ok sees)
  · next stop =>
    obtain ⟨b, peeked⟩ := Option.ne_none_iff_exists'.1 (show c.peeked ≠ none by
      intro none
      simp [none] at stop)
    have stop : test b = false := by simpa [peeked] using stop
    have ahead : c.ahead = b :: c.rest := by
      rw [Cursor.ahead, peeked]
      rfl
    rw [ahead, List.takeWhile_cons_of_neg (by simp [stop]),
      List.dropWhile_cons_of_neg (by simp [stop])]
    exact ⟨c, rfl, ending, peeked, rfl⟩

theorem takeWhile_front {test : UInt8 → Bool} {front : Bytes} (all : ∀ b ∈ front, test b = true)
    (stops : ∀ b ∈ rest.head?, test b = false) :
    (front ++ rest).takeWhile test = front ∧ (front ++ rest).dropWhile test = rest := by
  rw [List.takeWhile_append_of_pos all, List.dropWhile_append_of_pos all]
  cases rest with
  | nil => simp
  | cons b rest =>
    have stop := stops b rfl
    simp [stop]

theorem exists_takeWhile_front {test : UInt8 → Bool} {front : Bytes}
    (holds : c.Holds (front ++ rest)) (all : ∀ b ∈ front, test b = true)
    (stops : ∀ b ∈ rest.head?, test b = false) :
    ∃ c', takeWhile test c = .ok front c' ∧ c'.Sees rest := by
  have parts := takeWhile_front all stops
  obtain ⟨c', run, sees⟩ := exists_takeWhile holds test
  rw [parts.1] at run
  rw [parts.2] at sees
  exact ⟨c', run, sees⟩

theorem exists_skipBlank {blanks : Bytes} (holds : c.Holds (blanks ++ rest))
    (all : Blanks blanks) (stops : ∀ b ∈ rest.head?, isBlank b = false) :
    ∃ c', skipBlank c = .ok rest.head? c' ∧ c'.Sees rest := by
  obtain ⟨c₁, run, sees⟩ := exists_takeWhile_front holds all stops
  obtain ⟨c₂, look, sees⟩ := exists_peek sees.holds
  exact exists_bind_ok run ⟨c₂, look, sees⟩

theorem exists_expect (text : List UInt8) (holds : c.Holds (text ++ rest)) :
    ∃ c', expect text c = .ok () c' ∧ c'.Holds rest := by
  induction text generalizing c with
  | nil => exact exists_pure_ok holds
  | cons b text ih =>
    obtain ⟨c₁, next, holds⟩ := exists_nextOr holds .endInValue
    refine exists_bind_ok next ?_
    rw [if_pos rfl]
    exact ih holds

/-! ### What has been answered -/

theorem of_peek {x : Option UInt8} (look : peek c = .ok x c') :
    c.ahead.head? = x ∧ c'.ahead = c.ahead ∧ c'.peeked = x := by
  obtain ⟨rest, ending, peeked, position⟩ := c
  rcases peeked with _ | b
  · rcases rest with _ | ⟨b, rest⟩
    · cases ending <;> cases look
      exact ⟨rfl, rfl, rfl⟩
    · cases look
      exact ⟨rfl, rfl, rfl⟩
  · cases look
    exact ⟨rfl, rfl, rfl⟩

theorem of_discard {u : Unit} (past : discard c = .ok u c') (peeked : c.peeked = some b) :
    c.ahead = b :: c'.ahead := by
  cases past
  rw [Cursor.ahead, Cursor.ahead, peeked]
  rfl

theorem of_pure {x : α} (found : (pure a : Decoder α) c = .ok x c') : a = x ∧ c = c' := by
  cases found
  exact ⟨rfl, rfl⟩

theorem of_nextOr {fault : Fault} (found : nextOr fault c = .ok b c') :
    c.ahead = b :: c'.ahead := by
  obtain ⟨x, c₁, next, answer⟩ := exists_of_bind_ok found
  obtain ⟨y, c₂, look, onwards⟩ := exists_of_bind_ok next
  obtain ⟨_, c₃, past, same⟩ := exists_of_bind_ok onwards
  obtain ⟨rfl, rfl⟩ := of_pure same
  cases y with
  | none => cases answer
  | some y =>
    obtain ⟨rfl, rfl⟩ := of_pure answer
    obtain ⟨-, ahead, peeked⟩ := of_peek look
    rw [← ahead, of_discard past peeked]

theorem of_peekOr {fault : Fault} (found : peekOr fault c = .ok b c') :
    c'.ahead = c.ahead ∧ c'.peeked = some b := by
  obtain ⟨x, c₁, look, answer⟩ := exists_of_bind_ok found
  cases x with
  | none => cases answer
  | some x =>
    obtain ⟨rfl, rfl⟩ := of_pure answer
    exact (of_peek look).2

theorem of_takeWhile {test : UInt8 → Bool} {front : Bytes}
    (found : takeWhile test c = .ok front c') :
    c.ahead = front ++ c'.ahead ∧ ∀ b ∈ front, test b = true := by
  rw [takeWhile_apply] at found
  split at found
  · next pass =>
    obtain ⟨x, c₁, look, answer⟩ := exists_of_bind_ok found
    obtain ⟨rfl, rfl⟩ := of_pure answer
    rw [(of_peek look).2.1]
    constructor
    · simp [Cursor.ahead, passing]
    · intro b mem
      rcases List.mem_append.1 mem with mem | mem
      · exact (Option.all_eq_true _ _).1 pass b (Option.mem_toList.1 mem)
      · exact List.mem_takeWhile_imp mem
  · cases found
    exact ⟨rfl, List.forall_mem_nil _⟩

theorem of_skipBlank {x : Option UInt8} (skip : skipBlank c = .ok x c') :
    ∃ blanks, c.ahead = blanks ++ c'.ahead ∧ Blanks blanks ∧ c'.ahead.head? = x ∧
      c'.peeked = x := by
  obtain ⟨blanks, c₁, run, look⟩ := exists_of_bind_ok skip
  obtain ⟨ahead, all⟩ := of_takeWhile run
  obtain ⟨head, same, peeked⟩ := of_peek look
  rw [← same] at ahead head
  exact ⟨blanks, ahead, all, head, peeked⟩

theorem of_expect {text : List UInt8} {u : Unit} (found : expect text c = .ok u c') :
    c.ahead = text ++ c'.ahead := by
  induction text generalizing c with
  | nil =>
    obtain ⟨-, rfl⟩ := of_pure found
    rfl
  | cons b text ih =>
    obtain ⟨x, c₁, next, rest⟩ := exists_of_bind_ok found
    split at rest
    · next same =>
      rw [of_nextOr next, ih rest, same]
      rfl
    · cases rest

end Decoder

end Conduit.Json
