import Conduit.Proofs.Value.Written

/-!
Where the text of a value ends can be told from the characters alone, whatever the value: what may
follow a text never goes on with it.
-/

namespace Conduit

section Digits

theorem isBare_of_isDigit {c : Char} (digit : c.isDigit = true) : isBare c = true := by
  have ascii : c.toNat < 0x80 := by
    simp only [Char.isDigit, Bool.and_eq_true, decide_eq_true_eq] at digit
    exact Nat.lt_of_le_of_lt digit.2 (by decide)
  simp [isBare, Text.isAlphanumeric, ascii, Char.isAlphanum, digit]

theorem all_isBare_toDigits (n : Nat) : (Nat.toDigits 10 n).all isBare = true :=
  List.all_eq_true.2 fun _ hc =>
    isBare_of_isDigit (Nat.isDigit_of_mem_toDigits (by decide) (by decide) hc)

theorem toList_toString_nat (n : Nat) : (toString n).toList = Nat.toDigits 10 n := Nat.toList_repr

theorem all_isBare_int (n : Int) : (toString n).toList.all isBare = true := by
  have minus : isBare '-' = true := by decide
  cases n with
  | ofNat m =>
    change (Nat.repr m).toList.all isBare = true
    rw [Nat.toList_repr, all_isBare_toDigits]
  | negSucc m =>
    change ("-" ++ Nat.repr (m + 1)).toList.all isBare = true
    simp [String.toList_append, Nat.toList_repr, minus, all_isBare_toDigits]

theorem toList_toString_int_ne_nil (n : Int) : (toString n).toList ≠ [] := by
  cases n with
  | ofNat m =>
    change (Nat.repr m).toList ≠ []
    rw [Nat.toList_repr]
    exact Nat.toDigits_ne_nil
  | negSucc m =>
    change ("-" ++ Nat.repr (m + 1)).toList ≠ []
    simp [String.toList_append]

theorem quoted_format (q : Rat) : quoted (Ratio.format q).toList = (Ratio.format q).toList := by
  have slash : isBare '/' = true := by decide
  refine quoted_of_bare ?_
  rw [Bool.and_eq_true, Bool.not_eq_true', List.isEmpty_eq_false_iff, Ratio.format]
  split
  · exact ⟨toList_toString_int_ne_nil _, all_isBare_int _⟩
  · simp only [String.toList_append, List.all_append, Bool.and_eq_true, ne_eq,
      List.append_eq_nil_iff, toList_toString_nat, all_isBare_toDigits, all_isBare_int]
    simp [slash]

end Digits

namespace Value

def markOf (c : Char) : Nat :=
  if isBare c ∨ c = '\'' then 0
  else if c = '$' then 1
  else if c = '[' then 2
  else if c = '<' then 3
  else 4

def mark : Value → Nat
  | string _ | rat _ => 0
  | bool _ => 1
  | list _ | map _ => 2
  | closure _ => 3

theorem exists_quoted {v : Value} (word : v.mark = 0) : ∃ s, chars v = quoted s := by
  cases v with
  | string s => exact ⟨s.toList, chars_string s⟩
  | rat q => exact ⟨(Ratio.format q).toList, (quoted_format q).symm⟩
  | _ => cases word

theorem markOf_bracket : markOf '[' = 2 := by decide

theorem exists_head (v : Value) : ∃ c r, chars v = c :: r ∧ markOf c = v.mark := by
  cases v with
  | string s =>
    obtain ⟨c, r, hc, head⟩ := head_quoted s.toList
    exact ⟨c, r, (chars_string s).trans hc, if_pos head⟩
  | rat q =>
    obtain ⟨s, hs⟩ := exists_quoted (v := .rat q) rfl
    obtain ⟨c, r, hc, head⟩ := head_quoted s
    exact ⟨c, r, hs.trans hc, if_pos head⟩
  | bool b => cases b <;> exact ⟨'$', _, rfl, by decide⟩
  | list items => exact ⟨'[', _, chars_list items, markOf_bracket⟩
  | map pairs =>
    cases pairs with
    | nil => exact ⟨'[', _, rfl, markOf_bracket⟩
    | cons p pairs =>
      obtain ⟨first, others, -, written⟩ := exists_chars_map p pairs
      exact ⟨'[', _, written, markOf_bracket⟩
  | closure f => exact ⟨'<', "closure>".toList, by simp [chars, repr], by rw [mark]; decide⟩

section Rest

variable {a b v : Value} {x y z : List Char}

theorem mark_eq (same : chars a ++ x = chars b ++ y) : a.mark = b.mark := by
  obtain ⟨c, r, hc, markA⟩ := exists_head a
  obtain ⟨d, r', hd, markB⟩ := exists_head b
  rw [hc, hd] at same
  rw [← markA, ← markB, (List.cons.inj same).1]

theorem chars_append_ne {d : Char} (other : markOf d = 4) : chars v ++ x ≠ d :: z := by
  intro same
  obtain ⟨c, r, hc, marked⟩ := exists_head v
  rw [hc] at same
  rw [(List.cons.inj same).1, other] at marked
  cases v <;> cases marked

theorem list_ne_map (items : List Value) (pairs : List (Value × Value)) :
    chars (list items) ++ x ≠ chars (map pairs) ++ y := by
  have second : ∃ r, chars (map pairs) ++ y = '[' :: '&' :: r := by
    cases pairs with
    | nil => exact ⟨_, rfl⟩
    | cons p pairs =>
      obtain ⟨first, others, -, written⟩ := exists_chars_map_append p pairs
      exact ⟨_, written y⟩
  obtain ⟨r, hr⟩ := second
  rw [hr]
  cases items with
  | nil =>
    rw [chars_list_nil_append]
    simp
  | cons v items =>
    rw [chars_list_cons_append]
    intro same
    exact chars_append_ne (by decide) (List.cons.inj same).2

def Ended (a : Value) : Prop :=
  ∀ b x y, Ends x → Ends y → chars a ++ x = chars b ++ y → x = y

theorem ended_list {items : List Value} (inside : ∀ v ∈ items, Ended v) : Ended (list items) := by
  intro b x y hx hy same
  have marks := mark_eq same
  cases b with
  | list others =>
    cases items with
    | nil =>
      rw [chars_list_nil_append] at same
      cases others with
      | nil => exact (List.cons.inj (List.cons.inj same).2).2
      | cons w others =>
        rw [chars_list_cons_append] at same
        exact absurd (List.cons.inj same).2.symm (chars_append_ne (by decide))
    | cons v items =>
      rw [chars_list_cons_append] at same
      cases others with
      | nil => exact absurd (List.cons.inj same).2 (chars_append_ne (by decide))
      | cons w others =>
        rw [chars_list_cons_append] at same
        exact (bracketed_inj (R := fun _ _ => True) (fun a ha b _ x y hx hy same =>
          ⟨trivial, inside a ha b x y hx hy same⟩) (List.cons.inj same).2).2
  | map pairs => exact absurd same (list_ne_map items pairs)
  | _ => cases marks

theorem entryChars_append_inj {p q : Value × Value} (key : Ended p.1) (value : Ended p.2)
    (hx : Ends x) (hy : Ends y) (same : entryChars p ++ x = entryChars q ++ y) : x = y := by
  simp only [entryChars, List.append_assoc, List.cons_append, List.cons.injEq, true_and] at same
  have rest := key q.1 _ _ (ends_equals _) (ends_equals _) same
  exact value q.2 x y hx hy (List.cons.inj rest).2

theorem ended_map {pairs : List (Value × Value)} (inside : ∀ p ∈ pairs, Ended p.1 ∧ Ended p.2) :
    Ended (map pairs) := by
  intro b x y hx hy same
  have marks := mark_eq same
  cases b with
  | list others => exact absurd same.symm (list_ne_map others pairs)
  | map others =>
    cases pairs with
    | nil =>
      rw [chars_map_nil_append] at same
      cases others with
      | nil =>
        rw [chars_map_nil_append] at same
        simpa using same
      | cons q others =>
        obtain ⟨first, l, -, written⟩ := exists_chars_map_append q others
        rw [written, entryChars, List.append_assoc, List.cons_append] at same
        exact absurd (List.cons.inj (List.cons.inj same).2).2.symm (chars_append_ne (by decide))
    | cons p pairs =>
      obtain ⟨first, l, perm, written⟩ := exists_chars_map_append p pairs
      rw [written] at same
      cases others with
      | nil =>
        rw [chars_map_nil_append, entryChars, List.append_assoc, List.cons_append] at same
        exact absurd (List.cons.inj (List.cons.inj same).2).2 (chars_append_ne (by decide))
      | cons q others =>
        obtain ⟨first', l', -, written'⟩ := exists_chars_map_append q others
        rw [written'] at same
        -- The order in which the entries stand is not known, but each of them is one of the map's.
        refine (bracketed_inj (R := fun _ _ => True) (fun p hp q _ x y hx hy same => ?_)
          (List.cons.inj same).2).2
        have within := inside p (entries_subset (perm.mem_iff.1 hp))
        exact ⟨trivial, entryChars_append_inj within.1 within.2 hx hy same⟩
  | _ => cases marks

theorem ended_word (word : a.mark = 0) : Ended a := by
  intro b x y hx hy same
  obtain ⟨s, hs⟩ := exists_quoted word
  obtain ⟨t, ht⟩ := exists_quoted ((mark_eq same).symm.trans word)
  rw [hs, ht] at same
  exact (quoted_append_inj hx hy same).2

theorem ended (a : Value) : Ended a := by
  induction a using over_induction with
  | step a inside =>
    cases a with
    | string s => exact ended_word rfl
    | rat q => exact ended_word rfl
    | list items => exact ended_list inside
    | map pairs => exact ended_map inside
    | bool c =>
      intro b x y _ _ same
      have marks := mark_eq same
      cases b with
      | bool d => cases c <;> cases d <;> simp [chars, repr] at same <;> exact same
      | _ => cases marks
    | closure f =>
      intro b x y _ _ same
      have marks := mark_eq same
      cases b with
      | closure g => exact List.append_cancel_left same
      | _ => cases marks

end Rest

end Value

end Conduit
