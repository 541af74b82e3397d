import Conduit.Port.Access
import Conduit.Proofs.Text.Utf8

/-!
Lines: the pieces of a row of characters or bytes that end at a separator, and what follows the
last separator.
-/

namespace Conduit.Text

section Lines

variable {α : Type} [DecidableEq α] {sep : α} {piece rest : List α}

def lines (sep : α) (xs : List α) : List (List α) :=
  if (xs.splitOn sep).getLast? = some [] then (xs.splitOn sep).dropLast else xs.splitOn sep

@[simp] theorem lines_nil (sep : α) : lines sep [] = [] := by simp [lines]

theorem lines_append_cons (sep : α) (xs rest : List α) :
    lines sep (xs ++ sep :: rest) = xs.splitOn sep ++ lines sep rest := by
  have some : rest.splitOn sep ≠ [] := List.splitOn_ne_nil sep rest
  rw [lines, lines, List.splitOn_append_cons_self, List.getLast?_append_of_ne_nil _ some]
  split
  · exact List.dropLast_append_of_ne_nil some
  · rfl

theorem lines_terminated (whole : sep ∉ piece) (rest : List α) :
    lines sep (piece ++ sep :: rest) = piece :: lines sep rest := by
  rw [lines_append_cons, List.splitOn_eq_singleton whole]
  rfl

theorem lines_unterminated (whole : sep ∉ piece) (some : piece ≠ []) :
    lines sep piece = [piece] := by
  simp [lines, List.splitOn_eq_singleton whole, some]

omit [DecidableEq α] in
theorem append_cons_cases (sep : α) (xs : List α) :
    sep ∉ xs ∨ ∃ piece rest, xs = piece ++ sep :: rest ∧ sep ∉ piece := by
  by_cases occurs : sep ∈ xs
  · exact .inr (List.eq_append_cons_of_mem occurs)
  · exact .inl occurs

omit [DecidableEq α] in
theorem lines_induction {motive : List α → Prop} (sep : α) (nil : motive [])
    (last : ∀ piece, sep ∉ piece → piece ≠ [] → motive piece)
    (line : ∀ piece rest, sep ∉ piece → motive rest → motive (piece ++ sep :: rest))
    (xs : List α) : motive xs := by
  induction hn : xs.length using Nat.strongRecOn generalizing xs with
  | _ n ih =>
  rcases append_cons_cases sep xs with whole | ⟨piece, rest, rfl, whole⟩
  · by_cases empty : xs = []
    · exact empty ▸ nil
    · exact last xs whole empty
  · have shorter : rest.length < n := by
      rw [← hn, List.length_append, List.length_cons]
      omega
    exact line piece rest whole (ih rest.length shorter rest rfl)

def terminated (sep : α) (pieces : List (List α)) : List α := pieces.flatMap (· ++ [sep])

theorem lines_terminated_pieces (sep : α) (pieces : List (List α)) :
    lines sep (terminated sep pieces) = pieces.flatMap (List.splitOn sep) := by
  induction pieces with
  | nil => exact lines_nil sep
  | cons piece pieces ih =>
    have split : terminated sep (piece :: pieces) = piece ++ sep :: terminated sep pieces := by
      simp [terminated]
    rw [split, lines_append_cons, ih, List.flatMap_cons]

theorem terminated_lines (sep : α) (xs : List α) : terminated sep (lines sep xs) =
    if xs = [] ∨ xs.getLast? = some sep then xs else xs ++ [sep] := by
  induction xs using lines_induction sep with
  | nil => simp [terminated]
  | last piece whole some =>
    have open_ : piece.getLast? ≠ .some sep := fun ends => whole (List.mem_of_getLast? ends)
    simp [lines_unterminated whole some, terminated, some, open_]
  | line piece rest whole ih =>
    rw [lines_terminated whole, terminated, List.flatMap_cons, ← terminated, ih]
    cases rest with
    | nil => simp
    | cons x rest => by_cases ends : (x :: rest).getLast? = some sep <;> simp [ends]

end Lines

/-! ### Lines of bytes -/

open String (utf8EncodeChar)
open StreamEnd (newline)

theorem utf8EncodeChar_newline : utf8EncodeChar '\n' = [newline] := by decide

theorem newline_mem_utf8EncodeChar {c : Char} : newline ∈ utf8EncodeChar c ↔ c = '\n' := by
  constructor
  · intro occurs
    have small : newline.toNat = '\n'.toNat := rfl
    rcases Utf8.utf8EncodeChar_cases c with ⟨-, a, h, va⟩ | ⟨hc, -, a, b, h, va, vb⟩ |
        ⟨hc, -, a, b, d, h, va, vb, vd⟩ | ⟨hc, -, a, b, d, e, h, va, vb, vd, ve⟩ <;>
      simp only [h, List.mem_cons, List.not_mem_nil, or_false] at occurs
    · rw [← Char.toNat_inj, ← va, ← occurs, small]
    · have small : newline.toNat = 10 := rfl
      rcases occurs with rfl | rfl <;> omega
    · have small : newline.toNat = 10 := rfl
      rcases occurs with rfl | rfl | rfl <;> omega
    · have small : newline.toNat = 10 := rfl
      rcases occurs with rfl | rfl | rfl | rfl <;> omega
  · rintro rfl
    rw [utf8EncodeChar_newline]
    exact List.mem_singleton_self _

theorem newline_mem_flatMap {cs : List Char} :
    newline ∈ cs.flatMap utf8EncodeChar ↔ '\n' ∈ cs := by
  simp [List.mem_flatMap, newline_mem_utf8EncodeChar]

theorem lines_flatMap_utf8EncodeChar (cs : List Char) :
    lines newline (cs.flatMap utf8EncodeChar) = (lines '\n' cs).map (·.flatMap utf8EncodeChar) := by
  induction cs using lines_induction '\n' with
  | nil => simp
  | last piece whole some =>
    have bytes : piece.flatMap utf8EncodeChar ≠ [] := by
      obtain ⟨c, piece, rfl⟩ := List.exists_cons_of_ne_nil some
      simp
    rw [lines_unterminated whole some, lines_unterminated (mt newline_mem_flatMap.1 whole) bytes]
    rfl
  | line piece rest whole ih =>
    rw [lines_terminated whole, List.flatMap_append, List.flatMap_cons, utf8EncodeChar_newline]
    rw [List.singleton_append, lines_terminated (mt newline_mem_flatMap.1 whole), ih, List.map_cons]

end Conduit.Text
