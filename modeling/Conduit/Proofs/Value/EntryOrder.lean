import Conduit.Proofs.Text.Utf8
import Conduit.Proofs.Value.Delimiting
import Conduit.Proofs.Value.Printing
import Mathlib.Data.List.Pairwise

/-!
The order in which a map prints its entries: that of the bytes of the whole texts `&key=value`.  It
is the order of the keys as well, unless the text of one key goes on where that of another ends,
with a character below `=`.
-/

namespace Conduit.Value

def textOf (p : Value × Value) : String := entryText p.1.repr p.2.repr

def TextOrder (p q : Value × Value) : Prop := ¬ Utf8.Before (textOf q) (textOf p)

def KeyOrder (p q : Value × Value) : Prop := ¬ Utf8.Before q.1.repr p.1.repr

/-- The map prints its entries, each of them once, in this order. -/
def WrittenIn (order : Value × Value → Value × Value → Prop) (pairs : List (Value × Value)) :
    Prop :=
  ∃ l : List (Value × Value), l.Perm (entries pairs) ∧ l.Pairwise order ∧
    (map pairs).repr = between "[" (l.map textOf) "]"

variable {p q : Value × Value} {pairs : List (Value × Value)} {x y : List Char}

theorem toList_textOf (p : Value × Value) : (textOf p).toList = entryChars p := by
  simp [textOf, entryText, entryChars, chars]

theorem textOrder_iff : TextOrder p q ↔ ¬ List.Lex (· < ·) (entryChars q) (entryChars p) := by
  rw [TextOrder, Utf8.before_iff, ← toList_textOf, ← toList_textOf]
  exact .rfl

theorem keyOrder_iff : KeyOrder p q ↔ ¬ List.Lex (· < ·) (chars q.1) (chars p.1) := by
  rw [KeyOrder, Utf8.before_iff]
  exact .rfl

/-! ### Two texts against their keys -/

theorem append_lex_of_lex {k k' : List Char} (less : List.Lex (· < ·) k' k)
    (goesOn : ∀ c rest, k = k' ++ c :: rest → '=' < c) :
    List.Lex (· < ·) (k' ++ '=' :: x) (k ++ '=' :: y) := by
  induction less with
  | @nil c rest => exact .rel (goesOn c rest rfl)
  | @cons a k k' _ ih => exact .cons (ih fun c rest same => goesOn c rest (by rw [same]; rfl))
  | rel first => exact .rel first

theorem lex_append_cons (k : List Char) (c : Char) (rest : List Char) :
    List.Lex (· < ·) k (k ++ c :: rest) := by
  induction k with
  | nil => exact .nil
  | cons a k ih => exact .cons ih

theorem entryChars_lex_of_goesOn {c : Char} {rest : List Char} (below : c < '=')
    (key : chars p.1 = chars q.1 ++ c :: rest) :
    List.Lex (· < ·) (entryChars p) (entryChars q) := by
  have split : entryChars p =
      '&' :: (chars q.1 ++ c :: (rest ++ '=' :: chars p.2)) := by
    simp [entryChars, key]
  rw [split, entryChars, List.cons_append]
  exact .cons (List.Lex.append_left _ (.rel below) (chars q.1))

theorem chars_ne_append_equals (a b : Value) (rest : List Char) :
    chars a ≠ chars b ++ '=' :: rest := by
  intro same
  have ends := ended a b [] ('=' :: rest) ends_nil (ends_equals rest) (by simpa using same)
  cases ends

def NeverBelow (l : List (Value × Value)) : Prop :=
  ∀ p ∈ l, ∀ q ∈ l, ∀ c rest, chars p.1 = chars q.1 ++ c :: rest → '=' < c

theorem keyOrder_of_textOrder {l : List (Value × Value)} (never : NeverBelow l) (hp : p ∈ l)
    (hq : q ∈ l) (order : TextOrder p q) : KeyOrder p q := by
  rw [keyOrder_iff]
  intro less
  rw [textOrder_iff] at order
  refine order ?_
  rw [entryChars, entryChars, List.cons_append, List.cons_append]
  exact .cons (append_lex_of_lex less (never p hp q hq))

/-! ### The texts in the order printed -/

theorem texts_eq_of_between_eq {l l' : List (Value × Value)} (some : l ≠ []) (some' : l' ≠ [])
    (same : between "[" (l.map textOf) "]" = between "[" (l'.map textOf) "]") :
    l.map textOf = l'.map textOf := by
  have same := congrArg String.toList same
  rw [toList_between, toList_between, List.map_map, List.map_map] at same
  have asChars : String.toList ∘ textOf = entryChars := funext toList_textOf
  rw [asChars] at same
  obtain ⟨p, l, rfl⟩ := List.exists_cons_of_ne_nil some
  obtain ⟨q, l', rfl⟩ := List.exists_cons_of_ne_nil some'
  have rows := congrArg (· ++ []) same
  simp only [bracketed_append] at rows
  obtain ⟨alike, -⟩ := bracketed_inj (R := fun p q => textOf p = textOf q)
    (fun p _ q _ x y hx hy same => by
      obtain rfl := entryChars_append_inj (ended p.1) (ended p.2) hx hy same
      refine ⟨String.toList_inj.1 ?_, rfl⟩
      rw [toList_textOf, toList_textOf]
      exact List.append_cancel_right same) (List.cons.inj rows).2
  exact List.forall₂_eq_eq_eq ▸ (List.forall₂_map_left_iff.2 (List.forall₂_map_right_iff.2 alike))

theorem writtenIn_textOrder (p : Value × Value) (pairs : List (Value × Value)) :
    WrittenIn TextOrder (p :: pairs) := by
  refine ⟨(entries (p :: pairs)).mergeSort fun p q => textOf p ≤ textOf q,
    List.mergeSort_perm _ _, ?_, ?_⟩
  · have sorted := List.pairwise_mergeSort' (fun p q => textOf p ≤ textOf q) (entries (p :: pairs))
    exact sorted.imp fun order => mt Utf8.before_iff.1 (String.not_lt.2 order)
  · rw [List.map_mergeSort (s := fun a b => decide (a ≤ b)) fun _ _ _ _ => rfl, repr,
      reprEntries_eq]
    · rfl
    · exact List.cons_ne_nil p pairs

theorem neverBelow_of_writtenIn (written : WrittenIn KeyOrder (p :: pairs)) :
    NeverBelow (entries (p :: pairs)) := by
  obtain ⟨l, perm, sorted, text⟩ := writtenIn_textOrder p pairs
  obtain ⟨l', perm', byKey, text'⟩ := written
  have texts : l.map textOf = l'.map textOf := by
    refine texts_eq_of_between_eq ?_ ?_ (text.symm.trans text')
    · exact fun none => entries_ne_nil p pairs (perm.symm.trans (.of_eq none)).eq_nil
    · exact fun none => entries_ne_nil p pairs (perm'.symm.trans (.of_eq none)).eq_nil
  have byText : l'.Pairwise TextOrder := by
    have sorted : (l.map textOf).Pairwise fun a b => ¬ Utf8.Before b a :=
      List.pairwise_map.2 sorted
    rw [texts] at sorted
    exact (List.pairwise_map (f := textOf)).1 sorted
  intro a ha b hb c rest goesOn
  -- `b` comes first by its key, and `a` by its whole text unless the key goes on above `=`.
  have less : List.Lex (· < ·) (chars b.1) (chars a.1) := goesOn ▸ lex_append_cons _ c rest
  by_contra notAbove
  have other : c ≠ '=' := fun same => chars_ne_append_equals a.1 b.1 rest (same ▸ goesOn)
  have below : c < '=' := lt_of_le_of_ne (not_lt.1 notAbove) other
  have before := entryChars_lex_of_goesOn below goesOn
  have both := (byKey.and byText).imp (S := fun p q =>
    (KeyOrder p q ∧ TextOrder p q) ∨ KeyOrder q p ∧ TextOrder q p) .inl
  have : Std.Symm fun p q => (KeyOrder p q ∧ TextOrder p q) ∨ KeyOrder q p ∧ TextOrder q p :=
    ⟨fun _ _ => Or.symm⟩
  have apart : a ≠ b := fun same =>
    List.lex_irrefl Std.Irrefl.irrefl (chars b.1) (same ▸ less)
  rcases both.forall (perm'.mem_iff.2 ha) (perm'.mem_iff.2 hb) apart with ⟨key, -⟩ | ⟨-, text⟩
  · exact keyOrder_iff.1 key less
  · exact textOrder_iff.1 text before

theorem writtenIn_of_neverBelow (never : NeverBelow (entries (p :: pairs))) :
    WrittenIn KeyOrder (p :: pairs) := by
  obtain ⟨l, perm, sorted, text⟩ := writtenIn_textOrder p pairs
  refine ⟨l, perm, sorted.imp_of_mem fun hp hq => ?_, text⟩
  exact keyOrder_of_textOrder never (perm.mem_iff.1 hp) (perm.mem_iff.1 hq)

/-- The entries are printed in the order of their texts; that is the order of their keys exactly
if no key goes on where another ends with a character below `=`. -/
theorem written_by_key_iff (p : Value × Value) (pairs : List (Value × Value)) :
    WrittenIn TextOrder (p :: pairs) ∧
      (WrittenIn KeyOrder (p :: pairs) ↔ ∀ a ∈ entries (p :: pairs), ∀ b ∈ entries (p :: pairs),
        ∀ c rest, a.1.repr.toList = b.1.repr.toList ++ c :: rest → '=' < c) :=
  ⟨writtenIn_textOrder p pairs, neverBelow_of_writtenIn, writtenIn_of_neverBelow⟩

def numbered : List (Value × Value) :=
  [(.string "a", .string "x"), (.string "a1", .string "y")]

theorem repr_numbered : (map numbered).repr = "[&a1=y &a=x]" := by
  have listed : entries numbered = numbered := rfl
  have swap : (numbered.map textOf).Perm ["&a1=y", "&a=x"] := .swap _ _ _
  have sorted : ["&a1=y", "&a=x"].mergeSort (fun a b => a ≤ b) = ["&a1=y", "&a=x"] :=
    List.mergeSort_of_pairwise (by simp)
  rw [repr_map, listed]
  change between "[" ((numbered.map textOf).mergeSort fun a b => a ≤ b) "]" = _
  rw [mergeSort_congr swap, sorted]
  rfl

theorem numbered_not_written_by_key : (map numbered).repr = "[&a1=y &a=x]" ∧
    ¬ ∀ p pairs, WrittenIn KeyOrder (p :: pairs) := by
  refine ⟨repr_numbered, fun all => ?_⟩
  have never := neverBelow_of_writtenIn
    (all (.string "a", .string "x") [(.string "a1", .string "y")])
  have above : '=' < '1' := never (.string "a1", .string "y") (.tail _ (.head _))
    (.string "a", .string "x") (.head _) '1' [] rfl
  exact absurd above (by decide)

end Conduit.Value
