import Conduit.Text.Blank
import Mathlib.Data.List.Basic
import Mathlib.Data.List.TakeWhile

/-!
White space around a text: what is left of the characters without it.
-/

namespace Conduit

namespace Text

variable {cs u : List Char}

def Bare (cs : List Char) : Prop :=
  (∀ c ∈ cs.head?, isBlank c = false) ∧ ∀ c ∈ cs.getLast?, isBlank c = false

def Trimmed (cs u : List Char) : Prop :=
  ∃ front back, cs = front ++ (u ++ back) ∧ (∀ c ∈ front, isBlank c = true) ∧
    (∀ c ∈ back, isBlank c = true) ∧ Bare u

theorem dropWhile_of_head? (head : ∀ c ∈ cs.head?, isBlank c = false) :
    cs.dropWhile isBlank = cs := by
  cases cs with
  | nil => rfl
  | cons c cs =>
    have first : isBlank c = false := head c rfl
    simp [first]

theorem Trimmed.eq_trim (trimmed : Trimmed cs u) : u = trim cs := by
  obtain ⟨front, back, rfl, before, after, first, last⟩ := trimmed
  have back' : ∀ c ∈ back.reverse, isBlank c = true := by simpa using after
  have last' : ∀ c ∈ u.reverse.head?, isBlank c = false := by simpa using last
  rw [trim, List.dropWhile_append_of_pos before]
  cases u with
  | nil =>
    have none : back.dropWhile isBlank = [] := List.dropWhile_eq_nil_iff.2 after
    simp [none]
  | cons c u =>
    have head : ∀ d ∈ (c :: u ++ back).head?, isBlank d = false := first
    rw [dropWhile_of_head? head, List.reverse_append, List.dropWhile_append_of_pos back',
      dropWhile_of_head? last', List.reverse_reverse]

theorem head?_dropWhile_blank (cs : List Char) :
    ∀ c ∈ (cs.dropWhile isBlank).head?, isBlank c = false := by
  intro c first
  have stop := List.head?_dropWhile_not isBlank cs
  rw [Option.mem_def.1 first] at stop
  simpa using stop

theorem dropWhile_eq_trim_append (cs : List Char) : cs.dropWhile isBlank =
    trim cs ++ ((cs.dropWhile isBlank).reverse.takeWhile isBlank).reverse := by
  rw [trim, ← List.reverse_append, List.takeWhile_append_dropWhile, List.reverse_reverse]

theorem bare_trim (cs : List Char) : Bare (trim cs) := by
  constructor
  · intro c first
    refine head?_dropWhile_blank cs c ?_
    rw [dropWhile_eq_trim_append cs]
    exact List.mem_head?_append_of_mem_head? first
  · rw [trim, List.getLast?_reverse]
    exact head?_dropWhile_blank _

theorem trimmed_trim (cs : List Char) : Trimmed cs (trim cs) := by
  refine ⟨cs.takeWhile isBlank, ((cs.dropWhile isBlank).reverse.takeWhile isBlank).reverse, ?_,
    ?_, ?_, bare_trim cs⟩
  · rw [← dropWhile_eq_trim_append, List.takeWhile_append_dropWhile]
  · intro c mem
    exact List.mem_takeWhile_imp mem
  · intro c mem
    exact List.mem_takeWhile_imp (List.mem_reverse.1 mem)

theorem trimmed_iff : Trimmed cs u ↔ u = trim cs := by
  constructor
  · exact Trimmed.eq_trim
  · rintro rfl
    exact trimmed_trim cs

theorem Bare.trim_eq (bare : Bare cs) : trim cs = cs := by
  have trimmed : Trimmed cs cs := ⟨[], [], by simp, by simp, by simp, bare⟩
  exact trimmed.eq_trim.symm

end Text

end Conduit
