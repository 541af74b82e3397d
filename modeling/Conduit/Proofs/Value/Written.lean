import Conduit.Proofs.Value.Table
import Conduit.Value.Repr
import Mathlib.Data.List.Perm.Basic

/-!
The written form of a value can be read in one way only, wherever it ends, as long as no rational and
no closure is in it.
-/

namespace Conduit

def Ends (x : List Char) : Prop := ∀ c, x.head? = some c → isBare c = false ∧ c ≠ '\''

theorem ends_nil : Ends [] := nofun

theorem ends_cons {c : Char} (bare : isBare c = false) (quote : c ≠ '\'') (x : List Char) :
    Ends (c :: x) := by
  rintro _ ⟨⟩
  exact ⟨bare, quote⟩

theorem ends_space (x : List Char) : Ends (' ' :: x) := ends_cons (by decide) (by decide) x

theorem ends_bracket (x : List Char) : Ends (']' :: x) := ends_cons (by decide) (by decide) x

theorem ends_equals (x : List Char) : Ends ('=' :: x) := ends_cons (by decide) (by decide) x

section Words

variable {s t x y : List Char}

theorem bare_append_inj (hs : s.all isBare) (ht : t.all isBare) (hx : Ends x) (hy : Ends y)
    (same : s ++ x = t ++ y) : s = t ∧ x = y := by
  induction s generalizing t with
  | nil =>
    cases t with
    | nil => exact ⟨rfl, same⟩
    | cons d t =>
      have bare : isBare d = true := (List.all_eq_true.1 ht) d List.mem_cons_self
      rw [(hx d (by rw [show x = _ from same]; rfl)).1] at bare
      cases bare
  | cons c s ih =>
    cases t with
    | nil =>
      have bare : isBare c = true := (List.all_eq_true.1 hs) c List.mem_cons_self
      rw [(hy c (by rw [show y = _ from same.symm]; rfl)).1] at bare
      cases bare
    | cons d t =>
      obtain ⟨rfl, rest⟩ := List.cons.inj same
      rw [List.all_cons, Bool.and_eq_true] at hs ht
      obtain ⟨rfl, rfl⟩ := ih hs.2 ht.2 rest
      exact ⟨rfl, rfl⟩

def doubled (s : List Char) : List Char := s.flatMap fun c => if c = '\'' then ['\'', '\''] else [c]

theorem doubled_cons_quote (s : List Char) : doubled ('\'' :: s) = '\'' :: '\'' :: doubled s := rfl

theorem doubled_cons {c : Char} (other : c ≠ '\'') (s : List Char) :
    doubled (c :: s) = c :: doubled s := by
  simp [doubled, other]

theorem doubled_cons_append_ne {c : Char} {z : List Char} (hx : Ends x) :
    doubled (c :: s) ++ z ≠ '\'' :: x := by
  intro same
  by_cases quote : c = '\''
  · subst quote
    rw [doubled_cons_quote] at same
    obtain ⟨-, rfl⟩ := List.cons.inj same
    exact (hx '\'' rfl).2 rfl
  · rw [doubled_cons quote] at same
    exact quote (List.cons.inj same).1

theorem doubled_append_inj (hx : Ends x) (hy : Ends y)
    (same : doubled s ++ '\'' :: x = doubled t ++ '\'' :: y) : s = t ∧ x = y := by
  induction s generalizing t with
  | nil =>
    cases t with
    | nil => exact ⟨rfl, (List.cons.inj same).2⟩
    | cons d t => exact absurd same.symm (doubled_cons_append_ne hx)
  | cons c s ih =>
    cases t with
    | nil => exact absurd same (doubled_cons_append_ne hy)
    | cons d t =>
      by_cases hc : c = '\''
      · by_cases hd : d = '\''
        · subst hc hd
          rw [doubled_cons_quote, doubled_cons_quote] at same
          obtain ⟨rfl, rfl⟩ := ih (List.cons.inj (List.cons.inj same).2).2
          exact ⟨rfl, rfl⟩
        · subst hc
          rw [doubled_cons_quote, doubled_cons hd] at same
          exact absurd (List.cons.inj same).1.symm hd
      · by_cases hd : d = '\''
        · subst hd
          rw [doubled_cons_quote, doubled_cons hc] at same
          exact absurd (List.cons.inj same).1 hc
        · rw [doubled_cons hc, doubled_cons hd] at same
          obtain ⟨rfl, rest⟩ := List.cons.inj same
          obtain ⟨rfl, rfl⟩ := ih rest
          exact ⟨rfl, rfl⟩

theorem quoted_of_bare (bare : (!s.isEmpty && s.all isBare) = true) : quoted s = s := if_pos bare

theorem quoted_of_not_bare (other : ¬ (!s.isEmpty && s.all isBare) = true) :
    quoted s = '\'' :: doubled s ++ ['\''] := if_neg other

theorem exists_bare_head (bare : (!s.isEmpty && s.all isBare) = true) :
    ∃ c r, s = c :: r ∧ isBare c = true := by
  cases s with
  | nil => cases bare
  | cons c s =>
    rw [Bool.and_eq_true, List.all_cons, Bool.and_eq_true] at bare
    exact ⟨c, s, rfl, bare.2.1⟩

theorem head_quoted (s : List Char) :
    ∃ c r, quoted s = c :: r ∧ (isBare c = true ∨ c = '\'') := by
  by_cases bare : (!s.isEmpty && s.all isBare) = true
  · obtain ⟨c, r, hs, hc⟩ := exists_bare_head bare
    exact ⟨c, r, (quoted_of_bare bare).trans hs, .inl hc⟩
  · exact ⟨'\'', _, quoted_of_not_bare bare, .inr rfl⟩

theorem bare_append_ne {z : List Char} (bare : (!s.isEmpty && s.all isBare) = true) :
    s ++ x ≠ '\'' :: z := by
  obtain ⟨c, r, rfl, hc⟩ := exists_bare_head bare
  intro same
  rw [(List.cons.inj same).1] at hc
  exact absurd hc (by decide)

theorem quoted_append_inj (hx : Ends x) (hy : Ends y) (same : quoted s ++ x = quoted t ++ y) :
    s = t ∧ x = y := by
  by_cases hs : (!s.isEmpty && s.all isBare) = true
  · rw [quoted_of_bare hs] at same
    by_cases ht : (!t.isEmpty && t.all isBare) = true
    · rw [quoted_of_bare ht] at same
      rw [Bool.and_eq_true] at hs ht
      exact bare_append_inj hs.2 ht.2 hx hy same
    · rw [quoted_of_not_bare ht] at same
      exact absurd same (bare_append_ne hs)
  · rw [quoted_of_not_bare hs] at same
    by_cases ht : (!t.isEmpty && t.all isBare) = true
    · rw [quoted_of_bare ht] at same
      exact absurd same.symm (bare_append_ne ht)
    · rw [quoted_of_not_bare ht] at same
      simp only [List.cons_append, List.append_assoc, List.nil_append, List.cons.injEq,
        true_and] at same
      exact doubled_append_inj hx hy same

end Words

/-! ### Rows of written pieces -/

section Rows

variable {α : Type} {f : α → List Char} {R : α → α → Prop} {items others : List α}
  {x y : List Char}

def row (f : α → List Char) (items : List α) (x : List Char) : List Char :=
  items.flatMap (fun a => ' ' :: f a) ++ ']' :: x

theorem row_cons (a : α) (items : List α) (x : List Char) :
    row f (a :: items) x = ' ' :: (f a ++ row f items x) := by
  simp [row]

theorem ends_row (f : α → List Char) (items : List α) (x : List Char) : Ends (row f items x) := by
  cases items with
  | nil => exact ends_bracket x
  | cons a items => rw [row_cons]; exact ends_space _

theorem row_inj (read : ∀ a ∈ items, ∀ b ∈ others, ∀ x y, Ends x → Ends y →
      f a ++ x = f b ++ y → R a b ∧ x = y)
    (same : row f items x = row f others y) : List.Forall₂ R items others ∧ x = y := by
  induction items generalizing others with
  | nil =>
    cases others with
    | nil => exact ⟨.nil, (List.cons.inj same).2⟩
    | cons b others =>
      rw [row_cons] at same
      exact absurd (List.cons.inj same).1 (by decide)
  | cons a items ih =>
    cases others with
    | nil =>
      rw [row_cons] at same
      exact absurd (List.cons.inj same).1 (by decide)
    | cons b others =>
      rw [row_cons, row_cons] at same
      obtain ⟨first, rest⟩ := read a List.mem_cons_self b List.mem_cons_self _ _
        (ends_row f items x) (ends_row f others y) (List.cons.inj same).2
      obtain ⟨all, rfl⟩ := ih (fun a ha b hb => read a (List.mem_cons_of_mem _ ha) b
        (List.mem_cons_of_mem _ hb)) rest
      exact ⟨.cons first all, rfl⟩

theorem intercalate_space (first : α) (items : List α) :
    [' '].intercalate ((first :: items).map f) = f first ++ items.flatMap fun a => ' ' :: f a := by
  induction items generalizing first with
  | nil => simp
  | cons a items ih =>
    rw [List.map_cons, List.map_cons, List.intercalate_cons_cons, ← List.map_cons, ih]
    simp

theorem bracketed_append (first : α) (items : List α) (x : List Char) :
    '[' :: [' '].intercalate ((first :: items).map f) ++ [']'] ++ x =
      '[' :: (f first ++ row f items x) := by
  rw [intercalate_space]
  simp [row]

theorem bracketed_inj {first other : α} (read : ∀ a ∈ first :: items, ∀ b ∈ other :: others,
      ∀ x y, Ends x → Ends y → f a ++ x = f b ++ y → R a b ∧ x = y)
    (same : f first ++ row f items x = f other ++ row f others y) :
    List.Forall₂ R (first :: items) (other :: others) ∧ x = y :=
  row_inj read (by rw [row_cons, row_cons, same])

end Rows

namespace Value

/-- A value in which no rational and no closure is, at any depth. -/
inductive Plain : Value → Prop
  | string (s : String) : Plain (.string s)
  | bool (b : Bool) : Plain (.bool b)
  | list {items : List Value} (inside : ∀ v ∈ items, Plain v) : Plain (.list items)
  | map {pairs : List (Value × Value)} (keys : ∀ p ∈ entries pairs, Plain p.1)
      (values : ∀ p ∈ entries pairs, Plain p.2) : Plain (.map pairs)

def chars (v : Value) : List Char := v.repr.toList

def entryChars (p : Value × Value) : List Char := '&' :: chars p.1 ++ '=' :: chars p.2

theorem chars_string (s : String) : chars (string s) = quoted s.toList := String.toList_ofList

theorem reprItems_eq (items : List Value) : reprItems items = items.map repr := by
  induction items with
  | nil => rfl
  | cons v items ih => rw [reprItems, ih, List.map_cons]

theorem reprEntries_eq (pairs : List (Value × Value)) : reprEntries pairs =
    (entries pairs).map fun p => "&" ++ repr p.1 ++ "=" ++ repr p.2 := by
  induction pairs with
  | nil => rfl
  | cons p pairs ih =>
    rw [reprEntries, entries]
    split
    · exact ih
    · rw [ih, List.map_cons]

theorem toList_between (items : List String) : (between "[" items "]").toList =
    '[' :: [' '].intercalate (items.map String.toList) ++ [']'] := by
  simp [between]

theorem chars_list (items : List Value) : chars (list items) =
    '[' :: [' '].intercalate (items.map chars) ++ [']'] := by
  rw [chars, repr, reprItems_eq, toList_between, List.map_map]
  rfl

theorem entries_ne_nil (p : Value × Value) (pairs : List (Value × Value)) :
    entries (p :: pairs) ≠ [] := by
  intro none
  have answers := (lists_entries (p :: pairs)).answers p.1
  rw [none, lookup_cons, equal_self] at answers
  cases found : lookup pairs p.1 <;> rw [found] at answers <;> cases answers

theorem exists_chars_map (p : Value × Value) (pairs : List (Value × Value)) :
    ∃ first others, (first :: others).Perm (entries (p :: pairs)) ∧ chars (map (p :: pairs)) =
      '[' :: [' '].intercalate ((first :: others).map entryChars) ++ [']'] := by
  let written (p : Value × Value) : String := "&" ++ repr p.1 ++ "=" ++ repr p.2
  have sorted : ((reprEntries (p :: pairs)).mergeSort fun a b => a ≤ b).Perm
      ((entries (p :: pairs)).map written) := reprEntries_eq _ ▸ List.mergeSort_perm _ _
  obtain ⟨l, order, perm⟩ :=
    (congrFun (congrFun (List.eq_map_comp_perm written) _) _).mpr sorted
  cases l with
  | nil => exact absurd perm.nil_eq.symm (entries_ne_nil p pairs)
  | cons first others =>
    refine ⟨first, others, perm, ?_⟩
    rw [chars, repr, order, toList_between, List.map_map]
    · congr 4
      funext q
      simp [written, entryChars, chars]
    · exact nofun

def Opens (c : Char) : Value → Prop
  | string _ => isBare c = true ∨ c = '\''
  | bool _ => c = '$'
  | list _ | map _ => c = '['
  | _ => False

theorem Plain.opens {v : Value} (plain : Plain v) : ∃ c r, chars v = c :: r ∧ Opens c v := by
  cases plain with
  | string s =>
    rw [chars_string]
    exact head_quoted s.toList
  | bool b => cases b <;> exact ⟨'$', _, rfl, rfl⟩
  | list => exact ⟨'[', _, chars_list _, rfl⟩
  | @map pairs =>
    cases pairs with
    | nil => exact ⟨'[', _, rfl, rfl⟩
    | cons p pairs =>
      obtain ⟨first, others, -, written⟩ := exists_chars_map p pairs
      exact ⟨'[', _, written, rfl⟩

theorem Opens.ne {c d : Char} {v : Value} (opens : Opens c v) (other : ¬ isBare d = true)
    (quote : d ≠ '\'') (dollar : d ≠ '$') (bracket : d ≠ '[') : c ≠ d := by
  rintro rfl
  cases v with
  | string s => exact opens.elim other quote
  | bool b => exact dollar opens
  | list items => exact bracket opens
  | map pairs => exact bracket opens
  | _ => exact opens

def form : Value → Nat
  | string _ => 0
  | bool _ => 1
  | list _ | map _ => 2
  | _ => 3

theorem form_eq_of_opens {c : Char} {a b : Value} (ha : Opens c a) (hb : Opens c b) :
    a.form = b.form := by
  have dollar : isBare '$' = false := by decide
  have bracket : isBare '[' = false := by decide
  cases a <;> cases b <;> simp_all [Opens, form]

theorem Plain.form_eq {a b : Value} (ha : Plain a) (hb : Plain b) {x y : List Char}
    (same : chars a ++ x = chars b ++ y) : a.form = b.form := by
  obtain ⟨c, r, hr, opensA⟩ := ha.opens
  obtain ⟨d, r', hr', opensB⟩ := hb.opens
  rw [hr, hr'] at same
  rw [← (List.cons.inj same).1] at opensB
  exact form_eq_of_opens opensA opensB

theorem chars_list_nil_append (x : List Char) : chars (list []) ++ x = '[' :: ']' :: x := rfl

theorem chars_list_cons_append (v : Value) (items : List Value) (x : List Char) :
    chars (list (v :: items)) ++ x = '[' :: (chars v ++ row chars items x) := by
  rw [chars_list, bracketed_append]

theorem chars_map_nil_append (x : List Char) : chars (map []) ++ x = '[' :: '&' :: ']' :: x := rfl

theorem exists_chars_map_append (p : Value × Value) (pairs : List (Value × Value)) :
    ∃ first others, (first :: others).Perm (entries (p :: pairs)) ∧ ∀ x,
      chars (map (p :: pairs)) ++ x = '[' :: (entryChars first ++ row entryChars others x) := by
  obtain ⟨first, others, perm, written⟩ := exists_chars_map p pairs
  exact ⟨first, others, perm, fun x => by rw [written, bracketed_append]⟩

theorem Plain.append_ne {v : Value} (plain : Plain v) {d : Char} {x z : List Char}
    (other : ¬ isBare d = true) (quote : d ≠ '\'') (dollar : d ≠ '$') (bracket : d ≠ '[') :
    chars v ++ x ≠ d :: z := by
  intro same
  obtain ⟨c, r, hr, opens⟩ := plain.opens
  rw [hr] at same
  exact opens.ne other quote dollar bracket (List.cons.inj same).1

theorem map_nil_append_ne {p : Value × Value} {pairs : List (Value × Value)}
    (keys : ∀ q ∈ entries (p :: pairs), Plain q.1) {x y : List Char} :
    chars (map []) ++ x ≠ chars (map (p :: pairs)) ++ y := by
  obtain ⟨first, others, perm, written⟩ := exists_chars_map_append p pairs
  have plain := keys first (perm.mem_iff.1 List.mem_cons_self)
  rw [written, chars_map_nil_append, entryChars, List.append_assoc, List.cons_append]
  intro same
  refine plain.append_ne (by decide) (by decide) (by decide) (by decide)
    (List.cons.inj (List.cons.inj same).2).2.symm

theorem list_nil_append_ne {v : Value} {items : List Value} (first : Plain v) {x y : List Char} :
    chars (list []) ++ x ≠ chars (list (v :: items)) ++ y := by
  rw [chars_list_nil_append, chars_list_cons_append]
  intro same
  exact first.append_ne (by decide) (by decide) (by decide) (by decide) (List.cons.inj same).2.symm

theorem list_append_ne_map {items : List Value} (inside : ∀ v ∈ items, Plain v)
    (pairs : List (Value × Value)) {x y : List Char} :
    chars (list items) ++ x ≠ chars (map pairs) ++ y := by
  have second : ∃ r, chars (map pairs) ++ y = '[' :: '&' :: r := by
    cases pairs with
    | nil => exact ⟨_, rfl⟩
    | cons p pairs =>
      obtain ⟨first, others, -, written⟩ := exists_chars_map_append p pairs
      exact ⟨_, written y⟩
  obtain ⟨r, hr⟩ := second
  rw [hr]
  cases items with
  | nil =>
    rw [chars_list_nil_append]
    simp
  | cons v items =>
    rw [chars_list_cons_append]
    intro same
    exact (inside v List.mem_cons_self).append_ne (by decide) (by decide) (by decide) (by decide)
      (List.cons.inj same).2

theorem map_beq_of_forall₂ {xs ys l l' : List (Value × Value)} (permX : l.Perm (entries xs))
    (permY : l'.Perm (entries ys))
    (same : List.Forall₂ (fun p q => (p.1 == q.1) = true ∧ (p.2 == q.2) = true) l l') :
    (map xs == map ys) = true := by
  have listsX := (lists_entries xs).perm permX
  have listsY := (lists_entries ys).perm permY
  rw [listsX.map_beq_map_iff, ← listsX.length_eq_card, ← listsY.length_eq_card]
  refine ⟨same.length_eq, fun p hp => ?_⟩
  obtain ⟨i, hi, rfl⟩ := List.getElem_of_mem hp
  have hi' : i < l'.length := same.length_eq ▸ hi
  obtain ⟨sameKey, sameValue⟩ := same.get hi hi'
  exact ⟨_, (lookup_congr sameKey).trans (listsY.lookup_of_mem (List.getElem_mem hi')), sameValue⟩

def ReadsOneWay (a : Value) : Prop :=
  ∀ b, Plain b → ∀ x y, Ends x → Ends y → chars a ++ x = chars b ++ y → (a == b) = true ∧ x = y

theorem list_append_inj {items others : List Value} {x y : List Char}
    (inside : ∀ v ∈ items, Plain v) (inside' : ∀ v ∈ others, Plain v)
    (read : ∀ v ∈ items, ReadsOneWay v)
    (same : chars (list items) ++ x = chars (list others) ++ y) :
    (list items == list others) = true ∧ x = y := by
  cases items with
  | nil =>
    cases others with
    | nil =>
      rw [chars_list_nil_append, chars_list_nil_append] at same
      exact ⟨rfl, (List.cons.inj (List.cons.inj same).2).2⟩
    | cons w others => exact absurd same (list_nil_append_ne (inside' w List.mem_cons_self))
  | cons v items =>
    cases others with
    | nil => exact absurd same.symm (list_nil_append_ne (inside v List.mem_cons_self))
    | cons w others =>
      rw [chars_list_cons_append, chars_list_cons_append] at same
      obtain ⟨all, rfl⟩ := bracketed_inj (fun a ha b hb => read a ha b (inside' b hb))
        (List.cons.inj same).2
      exact ⟨list_beq_list_iff.2 all, rfl⟩

theorem ReadsOneWay.entry {p q : Value × Value} {x y : List Char} (key : ReadsOneWay p.1)
    (value : ReadsOneWay p.2) (plainKey : Plain q.1) (plainValue : Plain q.2) (hx : Ends x)
    (hy : Ends y) (same : entryChars p ++ x = entryChars q ++ y) :
    ((p.1 == q.1) = true ∧ (p.2 == q.2) = true) ∧ x = y := by
  simp only [entryChars, List.append_assoc, List.cons_append, List.cons.injEq, true_and] at same
  obtain ⟨sameKey, rest⟩ := key _ plainKey _ _ (ends_equals _) (ends_equals _) same
  obtain ⟨sameValue, rfl⟩ := value _ plainValue _ _ hx hy (List.cons.inj rest).2
  exact ⟨⟨sameKey, sameValue⟩, rfl⟩

-- The entries stand in the order of their texts, so the two rows are read as they are written and
-- only then compared as tables.
theorem map_append_inj {pairs others : List (Value × Value)} {x y : List Char}
    (keys : ∀ p ∈ entries pairs, Plain p.1) (keys' : ∀ p ∈ entries others, Plain p.1)
    (values' : ∀ p ∈ entries others, Plain p.2)
    (readKeys : ∀ p ∈ entries pairs, ReadsOneWay p.1)
    (readValues : ∀ p ∈ entries pairs, ReadsOneWay p.2)
    (same : chars (map pairs) ++ x = chars (map others) ++ y) :
    (map pairs == map others) = true ∧ x = y := by
  cases pairs with
  | nil =>
    cases others with
    | nil =>
      rw [chars_map_nil_append, chars_map_nil_append] at same
      exact ⟨rfl, by simpa using same⟩
    | cons q others => exact absurd same (map_nil_append_ne keys')
  | cons p pairs =>
    cases others with
    | nil => exact absurd same.symm (map_nil_append_ne keys)
    | cons q others =>
      obtain ⟨first, l, perm, written⟩ := exists_chars_map_append p pairs
      obtain ⟨first', l', perm', written'⟩ := exists_chars_map_append q others
      rw [written, written'] at same
      obtain ⟨all, rfl⟩ := bracketed_inj (fun p hp q hq _ _ hx hy same =>
        have hp := perm.mem_iff.1 hp
        have hq := perm'.mem_iff.1 hq
        (readKeys p hp).entry (readValues p hp) (keys' q hq) (values' q hq) hx hy same)
        (List.cons.inj same).2
      exact ⟨map_beq_of_forall₂ perm perm' all, rfl⟩

theorem Plain.readsOneWay {a : Value} (ha : Plain a) : ReadsOneWay a := by
  -- By the value read first: the opening of the text tells the shape of the other one, and what is
  -- inside reads one way by the induction.
  induction ha with
  | string s =>
    intro b hb x y hx hy same
    have form := (Plain.string s).form_eq hb same
    cases hb with
    | string t =>
      rw [chars_string, chars_string] at same
      obtain ⟨hs, rfl⟩ := quoted_append_inj hx hy same
      obtain rfl := String.toList_inj.1 hs
      exact ⟨BEq.rfl, rfl⟩
    | _ => cases form
  | bool c =>
    intro b hb x y _ _ same
    have form := (Plain.bool c).form_eq hb same
    cases hb with
    | bool d =>
      cases c <;> cases d <;> simp [chars, repr] at same
      · exact ⟨BEq.rfl, same⟩
      · exact ⟨BEq.rfl, same⟩
    | _ => cases form
  | list inside ih =>
    intro b hb x y _ _ same
    have form := (Plain.list inside).form_eq hb same
    cases hb with
    | list inside' => exact list_append_inj inside inside' ih same
    | map => exact absurd same (list_append_ne_map inside _)
    | _ => cases form
  | map keys values ihk ihv =>
    intro b hb x y _ _ same
    have form := (Plain.map keys values).form_eq hb same
    cases hb with
    | list inside' => exact absurd same.symm (list_append_ne_map inside' _)
    | map keys' values' => exact map_append_inj keys keys' values' ihk ihv same
    | _ => cases form

theorem beq_of_repr_eq {a b : Value} (ha : Plain a) (hb : Plain b) (same : a.repr = b.repr) :
    (a == b) = true := by
  refine (ha.readsOneWay b hb [] [] ends_nil ends_nil ?_).1
  rw [chars, same, chars]

section Overridden

def words : Value := .list [.string "two words", .bool true]

def overridden : Value := .map [(words, .rat 1), (words, .string "it's")]

def single : Value := .map [(words, .string "it's")]

theorem plain_words : Plain words := by
  refine .list fun v hv => ?_
  simp only [List.mem_cons, List.not_mem_nil, or_false] at hv
  rcases hv with rfl | rfl
  · exact .string _
  · exact .bool _

theorem plain_of_single_entry {pairs : List (Value × Value)}
    (one : entries pairs = [(words, .string "it's")]) : Plain (.map pairs) := by
  constructor <;> rw [one] <;> rintro p (_ | ⟨_, ⟨⟩⟩)
  · exact plain_words
  · exact .string _

theorem overridden_beq_single_of_repr_eq : Plain overridden ∧ Plain single ∧
    overridden.repr = single.repr ∧ (overridden == single) = true := by
  have plain : Plain overridden := plain_of_single_entry rfl
  have plain' : Plain single := plain_of_single_entry rfl
  exact ⟨plain, plain', rfl, beq_of_repr_eq plain plain' rfl⟩

end Overridden

end Value

end Conduit
