import Conduit.Proofs.Text.Decoding
import Conduit.Proofs.Text.Lines

/-!
Bytes that need not be a text, cut at their newlines: whether they are cut first and each piece is
decoded, or decoded as a whole and the text is cut, the lines are the same.
-/

namespace Conduit.Utf8

open StreamEnd (newline)
open Text (lines)

theorem takeTail_append_newline {n code low high : Nat} (low_le : 0x80 ≤ low)
    (xs ys : List UInt8) : takeTail code n (low, high) (xs ++ newline :: ys) =
      ((takeTail code n (low, high) xs).1, (takeTail code n (low, high) xs).2 ++ newline :: ys) := by
  induction xs generalizing n code low high with
  | nil =>
    cases n with
    | zero => rfl
    | succ n =>
      have below : ¬ (low ≤ newline.toNat ∧ newline.toNat ≤ high) := by
        have : newline.toNat = 0x0a := rfl
        omega
      simp only [List.nil_append, takeTail, if_neg below]
  | cons b xs ih =>
    cases n with
    | zero => rfl
    | succ n =>
      rw [List.cons_append, takeTail, takeTail]
      split
      · exact ih (Nat.le_refl _)
      · rfl

theorem takeUnit_append_newline (lead : UInt8) (xs ys : List UInt8) :
    takeUnit lead (xs ++ newline :: ys) =
      ((takeUnit lead xs).1, (takeUnit lead xs).2 ++ newline :: ys) := by
  rw [takeUnit, takeUnit]
  cases tailLength? lead.toNat with
  | none => rfl
  | some n =>
    have within := (secondBounds_within lead.toNat).1
    generalize secondBounds lead.toNat = bounds at within
    obtain ⟨low, high⟩ := bounds
    simp only [takeTail_append_newline within]

theorem takeUnit_newline (ys : List UInt8) : takeUnit newline ys = (some '\n', ys) := by
  have length : tailLength? newline.toNat = some 0 := rfl
  simp only [takeUnit, length, takeTail]
  rfl

theorem units_append_newline (xs ys : List UInt8) :
    units (xs ++ newline :: ys) = units xs ++ some '\n' :: units ys := by
  induction hn : xs.length using Nat.strongRecOn generalizing xs with
  | _ n ih =>
  cases xs with
  | nil =>
    rw [List.nil_append, units, units, List.nil_append]
    simp only [takeUnit_newline]
  | cons b xs =>
    have shorter := length_takeUnit_le b xs
    rw [List.cons_append, units, takeUnit_append_newline, units, List.cons_append]
    rw [ih _ (by rw [← hn, List.length_cons]; omega) _ rfl]

theorem suffix_takeTail (code n : Nat) (bounds : Nat × Nat) (bytes : List UInt8) :
    (takeTail code n bounds bytes).2 <:+ bytes := by
  induction bytes generalizing code n bounds with
  | nil => cases n <;> exact List.suffix_rfl
  | cons b rest ih =>
    cases n with
    | zero => exact List.suffix_rfl
    | succ n =>
      obtain ⟨low, high⟩ := bounds
      rw [takeTail]
      split
      · exact (ih _ _ _).trans (List.suffix_cons b rest)
      · exact List.suffix_rfl

theorem suffix_takeUnit (lead : UInt8) (rest : List UInt8) : (takeUnit lead rest).2 <:+ rest := by
  rw [takeUnit]
  split
  · exact List.suffix_rfl
  · exact suffix_takeTail _ _ _ _

theorem newline_mem_of_mem_units {bytes : List UInt8} (mem : some '\n' ∈ units bytes) :
    newline ∈ bytes := by
  induction hn : bytes.length using Nat.strongRecOn generalizing bytes with
  | _ n ih =>
  cases bytes with
  | nil => simp [units] at mem
  | cons b rest =>
    rw [units] at mem
    rcases List.mem_cons.1 mem with first | mem
    · have unit : takeUnit b rest = (some '\n', (takeUnit b rest).2) := Prod.ext first.symm rfl
      rw [takeUnit_some unit, Text.utf8EncodeChar_newline]
      exact .head _
    · have shorter := length_takeUnit_le b rest
      have inside := ih _ (by rw [← hn, List.length_cons]; omega) mem rfl
      exact .tail b ((suffix_takeUnit b rest).subset inside)

theorem toList_decodeLossy (bytes : List UInt8) :
    (decodeLossy bytes).toList = (units bytes).map (·.getD '\ufffd') := String.toList_ofList

theorem newline_not_mem_decodeLossy {bytes : List UInt8} (whole : newline ∉ bytes) :
    '\n' ∉ (decodeLossy bytes).toList := by
  rw [toList_decodeLossy, List.mem_map]
  rintro ⟨_ | c, mem, same⟩
  · cases same
  · exact whole (newline_mem_of_mem_units (same ▸ mem))

theorem toList_decodeLossy_append_newline (xs ys : List UInt8) :
    (decodeLossy (xs ++ newline :: ys)).toList =
      (decodeLossy xs).toList ++ '\n' :: (decodeLossy ys).toList := by
  simp only [toList_decodeLossy, units_append_newline, List.map_append, List.map_cons,
    Option.getD_some]

theorem splitOn_decodeLossy (bytes : List UInt8) : (decodeLossy bytes).toList.splitOn '\n' =
    (bytes.splitOn newline).map fun piece => (decodeLossy piece).toList := by
  induction hn : bytes.length using Nat.strongRecOn generalizing bytes with
  | _ n ih =>
  rcases Text.append_cons_cases newline bytes with whole | ⟨piece, rest, rfl, whole⟩
  · rw [List.splitOn_eq_singleton whole,
      List.splitOn_eq_singleton (newline_not_mem_decodeLossy whole)]
    rfl
  · have shorter : rest.length < n := by
      rw [← hn, List.length_append, List.length_cons]
      omega
    rw [toList_decodeLossy_append_newline, List.splitOn_append_cons_self,
      List.splitOn_append_cons_self, ih _ shorter rest rfl, List.map_append,
      List.splitOn_eq_singleton whole,
      List.splitOn_eq_singleton (newline_not_mem_decodeLossy whole)]
    rfl

theorem toList_decodeLossy_eq_nil {bytes : List UInt8} :
    (decodeLossy bytes).toList = [] ↔ bytes = [] := by
  cases bytes with
  | nil => simp [toList_decodeLossy, units]
  | cons b rest => simp [toList_decodeLossy, units]

theorem lines_decodeLossy (bytes : List UInt8) : lines '\n' (decodeLossy bytes).toList =
    (lines newline bytes).map fun piece => (decodeLossy piece).toList := by
  have last : ((bytes.splitOn newline).map fun piece => (decodeLossy piece).toList).getLast? =
      some [] ↔ (bytes.splitOn newline).getLast? = some [] := by
    rw [List.getLast?_map, Option.map_eq_some_iff]
    simp only [toList_decodeLossy_eq_nil, exists_eq_right]
  rw [lines, lines, splitOn_decodeLossy, ite_congr (propext last) (fun _ => rfl) fun _ => rfl]
  split
  · exact List.map_dropLast.symm
  · rfl

end Conduit.Utf8
