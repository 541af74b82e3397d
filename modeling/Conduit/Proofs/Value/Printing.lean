import Conduit.Proofs.Value.Written
import Mathlib.Data.List.Sort

/-!
What a value prints as does not depend on how it was built: equal values print alike, in whatever
order the tables of the maps inside them hand out their entries.
-/

namespace Conduit.Value

def entryText (key value : String) : String := "&" ++ key ++ "=" ++ value

def mapText : List String → String
  | [] => "[&]"
  | texts => between "[" (texts.mergeSort fun a b => a ≤ b) "]"

/-- A text that the value may print as, where each map inside prints the pairs of its table in some
order. -/
inductive Prints : Value → String → Prop
  | string (s : String) : Prints (.string s) (String.ofList (quoted s.toList))
  | true : Prints (.bool true) "$true"
  | false : Prints (.bool false) "$false"
  | rat (q : Rat) : Prints (.rat q) (Ratio.format q)
  | list {items : List Value} {texts : List String} (each : List.Forall₂ Prints items texts) :
      Prints (.list items) (between "[" texts "]")
  | map {pairs handed : List (Value × Value)} {hash : List HashPiece → UInt64}
      {keys values : List String} (order : handed.Perm (Table.ofPairs hash pairs).pairs)
      (eachKey : List.Forall₂ Prints (handed.map Prod.fst) keys)
      (eachValue : List.Forall₂ Prints (handed.map Prod.snd) values) :
      Prints (.map pairs) (mapText (List.zipWith entryText keys values))
  | closure (f : Closure) : Prints (.closure f) "<closure>"

/-! ### Entries of equal maps -/

section Matching

variable {α β : Type} {R : α → β → Prop} {l : List α} {l' : List β}

theorem exists_perm_forall₂ (length : l.length = l'.length) (partner : ∀ b ∈ l', ∃ a ∈ l, R a b)
    (apart : l'.Pairwise fun b c => ∀ a, R a b → ¬ R a c) :
    ∃ m, m.Perm l ∧ List.Forall₂ R m l' := by
  induction l' generalizing l with
  | nil =>
    have none : l = [] := List.eq_nil_of_length_eq_zero length
    exact ⟨[], by simp [none], .nil⟩
  | cons b l' ih =>
    obtain ⟨first, apart⟩ := List.pairwise_cons.1 apart
    obtain ⟨a, ha, hab⟩ := partner b List.mem_cons_self
    obtain ⟨front, back, rfl⟩ := List.append_of_mem ha
    have others : ∀ c ∈ l', ∃ x ∈ front ++ back, R x c := by
      intro c hc
      obtain ⟨x, hx, hxc⟩ := partner c (List.mem_cons_of_mem b hc)
      have other : x ≠ a := fun same => first c hc a hab (same ▸ hxc)
      exact ⟨x, by simpa [other] using hx, hxc⟩
    have shorter : (front ++ back).length = l'.length := by
      simp only [List.length_append, List.length_cons] at length ⊢
      omega
    obtain ⟨m, perm, alike⟩ := ih shorter others apart
    exact ⟨a :: m, (perm.cons a).trans List.perm_middle.symm, .cons hab alike⟩

end Matching

variable {xs ys l : List (Value × Value)}

def Alike (p q : Value × Value) : Prop := (p.1 == q.1) = true ∧ (p.2 == q.2) = true

theorem Lists.exists_alike (lists : Lists l ys) (same : map xs == map ys) {q : Value × Value}
    (hq : q ∈ l) : ∃ p ∈ entries xs, Alike p q := by
  have related := Value.map_beq_map_iff.1 same q.1
  rw [lists.lookup_of_mem hq, ← (lists_entries xs).answers] at related
  cases found : lookup (entries xs) q.1 with
  | none => rw [found] at related; cases related
  | some v =>
    rw [found] at related
    cases related with
    | some sameValue =>
      obtain ⟨k, hk, sameKey⟩ := mem_of_lastWhere found
      exact ⟨(k, v), hk, sameKey, sameValue⟩

theorem Lists.exists_perm_alike (lists : Lists l ys) (same : map xs == map ys) :
    ∃ m, m.Perm (entries xs) ∧ List.Forall₂ Alike m l := by
  refine exists_perm_forall₂ ?_ (fun q hq => lists.exists_alike same hq) ?_
  · rw [length_entries_of_map_beq same, (lists_entries ys).length_eq_card, lists.length_eq_card]
  · refine lists.distinct.imp fun {q r} other p first second => ?_
    have same : q.1 == r.1 := BEq.trans (BEq.symm first.1) second.1
    rw [same] at other
    cases other

/-! ### The one text of a value -/

theorem mergeSort_congr {texts texts' : List String} (perm : texts.Perm texts') :
    (texts.mergeSort fun a b => a ≤ b) = texts'.mergeSort fun a b => a ≤ b :=
  List.Perm.eq_of_pairwise' (List.pairwise_mergeSort' (· ≤ ·) texts)
    (List.pairwise_mergeSort' (· ≤ ·) texts')
    ((List.mergeSort_perm texts _).trans (perm.trans (List.mergeSort_perm texts' _).symm))

theorem mapText_congr {texts texts' : List String} (perm : texts.Perm texts') :
    mapText texts = mapText texts' := by
  cases texts with
  | nil => rw [perm.nil_eq]
  | cons t texts =>
    cases texts' with
    | nil => exact absurd perm.eq_nil nofun
    | cons t' texts' => exact congrArg (between "[" · "]") (mergeSort_congr perm)

theorem repr_map (xs : List (Value × Value)) :
    (map xs).repr = mapText ((entries xs).map fun p => entryText p.1.repr p.2.repr) := by
  cases xs with
  | nil => rfl
  | cons p xs =>
    rw [repr, reprEntries_eq]
    · cases listed : entries (p :: xs) with
      | nil => exact absurd listed (entries_ne_nil p xs)
      | cons q l => rfl
    · exact List.cons_ne_nil p xs

def PrintsAs (a : Value) : Prop := ∀ b t, (a == b) = true → Prints b t → t = a.repr

theorem texts_eq_of_printsAs {items others : List Value} {texts : List String}
    (inside : ∀ v ∈ items, PrintsAs v)
    (same : List.Forall₂ (fun a b => (a == b) = true) items others)
    (each : List.Forall₂ Prints others texts) : texts = items.map repr := by
  induction same generalizing texts with
  | nil => cases each; rfl
  | @cons a b items others head _ ih =>
    cases each with
    | cons first rest =>
      rw [List.map_cons, inside a List.mem_cons_self b _ head first,
        ih (fun v hv => inside v (List.mem_cons_of_mem a hv)) rest]

theorem printsAs (a : Value) : PrintsAs a := by
  induction a using over_induction with
  | step a inside =>
    intro b t same prints
    cases prints with
    | string s =>
      cases a with
      | string r => rw [eq_of_beq (show (r == s) = true from same)]; rfl
      | _ => cases same
    | true =>
      cases a with
      | bool c => rw [eq_of_beq (show (c == true) = true from same)]; rfl
      | _ => cases same
    | false =>
      cases a with
      | bool c => rw [eq_of_beq (show (c == false) = true from same)]; rfl
      | _ => cases same
    | rat q =>
      cases a with
      | rat r => rw [eq_of_beq (show (r == q) = true from same)]; rfl
      | _ => cases same
    | closure f =>
      cases a with
      | closure g => rfl
      | _ => cases same
    | list each =>
      cases a with
      | list items =>
        rw [texts_eq_of_printsAs inside (list_beq_list_iff.1 same) each, repr, reprItems_eq]
      | _ => cases same
    | @map ys handed hash keys values order eachKey eachValue =>
      cases a with
      | map xs =>
        -- The table lists its entries in an order of its own. Matched with the entries of the equal
        -- map they print the same texts, which sorting puts into one order.
        have lists := (Table.lists_ofPairs hash ys).perm order
        obtain ⟨m, perm, alike⟩ := lists.exists_perm_alike same
        have within : ∀ p ∈ m, PrintsAs p.1 ∧ PrintsAs p.2 := fun p hp =>
          inside p (entries_subset (perm.mem_iff.1 hp))
        have keyTexts : keys = (m.map Prod.fst).map repr := by
          refine texts_eq_of_printsAs ?_ ?_ eachKey
          · simpa using fun k v hp => (within (k, v) hp).1
          · exact List.rel_map (fun p q alike => alike.1) alike
        have valueTexts : values = (m.map Prod.snd).map repr := by
          refine texts_eq_of_printsAs ?_ ?_ eachValue
          · simpa using fun v k hp => (within (k, v) hp).2
          · exact List.rel_map (fun p q alike => alike.2) alike
        rw [keyTexts, valueTexts, repr_map]
        refine mapText_congr ?_
        simpa [List.zipWith_map, Function.comp_def] using perm.map fun p =>
          entryText p.1.repr p.2.repr
      | _ => cases same

def Printable (a : Value) : Prop := ∀ b, (a == b) = true → ∃ t, Prints b t

theorem exists_texts_of_printable {items others : List Value} (inside : ∀ v ∈ items, Printable v)
    (same : List.Forall₂ (fun a b => (a == b) = true) items others) :
    ∃ texts, List.Forall₂ Prints others texts := by
  induction same with
  | nil => exact ⟨[], .nil⟩
  | @cons a b items others head _ ih =>
    obtain ⟨t, first⟩ := inside a List.mem_cons_self b head
    obtain ⟨texts, rest⟩ := ih fun v hv => inside v (List.mem_cons_of_mem a hv)
    exact ⟨t :: texts, .cons first rest⟩

theorem printable (a : Value) : Printable a := by
  -- The key that a table has kept need not be the one given last, so the induction is on a value
  -- equal to the one printed.
  induction a using over_induction with
  | step a inside =>
    intro b same
    cases b with
    | string s => exact ⟨_, .string s⟩
    | bool c => cases c <;> [exact ⟨_, .false⟩; exact ⟨_, .true⟩]
    | rat q => exact ⟨_, .rat q⟩
    | closure f => exact ⟨_, .closure f⟩
    | list others =>
      cases a with
      | list items =>
        obtain ⟨texts, each⟩ := exists_texts_of_printable inside (list_beq_list_iff.1 same)
        exact ⟨_, .list each⟩
      | _ => cases same
    | map ys =>
      cases a with
      | map xs =>
        have lists := Table.lists_ofPairs (fun _ => 0) ys
        obtain ⟨m, perm, alike⟩ := lists.exists_perm_alike same
        have within : ∀ p ∈ m, Printable p.1 ∧ Printable p.2 := fun p hp =>
          inside p (entries_subset (perm.mem_iff.1 hp))
        obtain ⟨keys, eachKey⟩ := exists_texts_of_printable
          (by simpa using fun k v hp => (within (k, v) hp).1)
          (List.rel_map (fun p q alike => alike.1) alike)
        obtain ⟨values, eachValue⟩ := exists_texts_of_printable
          (by simpa using fun v k hp => (within (k, v) hp).2)
          (List.rel_map (fun p q alike => alike.2) alike)
        exact ⟨_, .map (.refl _) eachKey eachValue⟩
      | _ => cases same

theorem prints_iff {a b : Value} (same : a == b) (t : String) : Prints b t ↔ t = a.repr := by
  constructor
  · exact printsAs a b t same
  · rintro rfl
    obtain ⟨t, prints⟩ := printable a b same
    rwa [← printsAs a b t same prints]

theorem repr_congr {a b : Value} (same : a == b) : a.repr = b.repr :=
  ((prints_iff BEq.rfl a.repr).1 ((prints_iff same a.repr).2 rfl))

theorem kind_congr {a b : Value} (same : a == b) : a.kind = b.kind := by
  cases a <;> cases b <;> first | rfl | cases same

theorem text_congr {a b : Value} (same : a == b) : a.text = b.text := by
  have written := repr_congr same
  cases a with
  | string s =>
    cases b with
    | string t => exact eq_of_beq same
    | _ => cases same
  | _ =>
    cases b with
    | string t => cases same
    | _ => exact written

theorem equal_values_print_alike (a b : Value) (same : a == b) :
    a.repr = b.repr ∧ a.text = b.text ∧ a.kind = b.kind ∧ ∀ t, Prints b t ↔ t = a.repr :=
  ⟨repr_congr same, text_congr same, kind_congr same, prints_iff same⟩

section Shuffled

def ones : Value :=
  .map [(.string "1", .rat 1), (.rat 1, .string "1"),
    (.map [(.bool true, .list []), (.rat 2, .rat 3)], .bool false)]

def onesShuffled : Value :=
  .map [(.rat 1, .bool true), (.map [(.rat 2, .rat 3), (.bool true, .list [])], .bool false),
    (.string "1", .rat 1), (.rat 1, .string "1")]

theorem ones_print_alike : (ones == onesShuffled) = true ∧ ones.repr = onesShuffled.repr ∧
    ones.text = onesShuffled.text ∧ ones.kind = onesShuffled.kind ∧
      ∀ t, Prints onesShuffled t ↔ t = ones.repr := by
  have same : (ones == onesShuffled) = true := by rfl
  exact ⟨same, equal_values_print_alike ones onesShuffled same⟩

end Shuffled

end Conduit.Value
