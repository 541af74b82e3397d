import Conduit.Proofs.Value.Equality
import Conduit.Value.Table
import Mathlib.Data.Finset.Card

/-!
What a map holds, and that a table built from its pairs holds the same.  A map has one entry for each
class of equal keys; counting these classes turns a one-sided comparison into a two-sided one.
-/

namespace Conduit.Value

variable {xs ys : List (Value × Value)} {k k' v : Value}

theorem equal_self (v : Value) : equal v v = true := equivOn_all.refl v trivial

section Rel

variable {R : Value → Value → Prop} {o o' : Option Value}

theorem isSome_eq_of_rel (related : Option.Rel R o o') : o.isSome = o'.isSome := by
  cases related <;> rfl

theorem exists_of_rel_some (related : Option.Rel R (some v) o') : ∃ w, o' = some w ∧ R v w := by
  cases related with
  | some same => exact ⟨_, rfl, same⟩

end Rel

theorem Over.mono {S S' : Value → Prop} (inside : Over S v) (sub : ∀ w, S w → S' w) :
    Over S' v := by
  cases v with
  | list items => exact fun w hw => sub w (inside w hw)
  | map pairs => exact fun p hp => ⟨sub _ (inside p hp).1, sub _ (inside p hp).2⟩
  | _ => trivial

theorem over_induction {P : Value → Prop} (step : ∀ v, Over P v → P v) (v : Value) : P v := by
  suffices bounded : ∀ n v, sizeOf v ≤ n → P v from bounded _ v (Nat.le_refl _)
  intro n
  induction n with
  | zero =>
    intro v small
    cases v <;> simp at small
  | succ n ih => exact fun v small => step v ((over_of_size small).mono ih)

/-! ### Classes of equal keys -/

instance sameness : Setoid Value where
  r a b := (a == b) = true
  iseqv := ⟨fun _ => BEq.rfl, BEq.symm, BEq.trans⟩

instance (a b : Value) : Decidable (a ≈ b) := inferInstanceAs (Decidable ((a == b) = true))

def keyClasses (pairs : List (Value × Value)) : Finset (Quotient sameness) :=
  (pairs.map fun p => Quotient.mk sameness p.1).toFinset

theorem mem_keyClasses_iff : Quotient.mk sameness k ∈ keyClasses xs ↔ (lookup xs k).isSome := by
  rw [← hasKey_eq_isSome, hasKey_iff, keyClasses, List.mem_toFinset, List.mem_map]
  constructor
  · rintro ⟨p, hp, same⟩
    exact ⟨p, hp, Quotient.exact same⟩
  · rintro ⟨p, hp, same⟩
    exact ⟨p, hp, Quotient.sound same⟩

structure Lists (l xs : List (Value × Value)) : Prop where
  distinct : l.Pairwise fun p q => (p.1 == q.1) = false
  answers : ∀ k, lookup l k = lookup xs k

namespace Lists

variable {l : List (Value × Value)}

theorem keyClasses_eq (lists : Lists l xs) : keyClasses l = keyClasses xs := by
  ext q
  induction q using Quotient.ind with
  | _ k => rw [mem_keyClasses_iff, mem_keyClasses_iff, lists.answers]

theorem length_eq_card (lists : Lists l xs) : l.length = (keyClasses xs).card := by
  have nodup : (l.map fun p => Quotient.mk sameness p.1).Nodup := by
    rw [List.Nodup, List.pairwise_map]
    refine lists.distinct.imp fun {p q} other same => ?_
    rw [show (p.1 == q.1) = true from Quotient.exact same] at other
    cases other
  rw [← lists.keyClasses_eq, keyClasses, List.toFinset_card_of_nodup nodup, List.length_map]

theorem lookup_of_mem (lists : Lists l xs) {p : Value × Value} (hp : p ∈ l) :
    lookup xs p.1 = some p.2 := by
  rw [← lists.answers]
  have distinct := lists.distinct
  clear lists
  induction l with
  | nil => cases hp
  | cons q l ih =>
    obtain ⟨first, distinct⟩ := List.pairwise_cons.1 distinct
    rw [lookup_cons]
    rcases List.mem_cons.1 hp with rfl | hp
    · have absent : lookup l p.1 = none := by
        refine lastWhere_eq_none_iff.2 fun q hq => ?_
        rw [BEq.comm]
        exact first q hq
      rw [absent, equal_self]
      rfl
    · rw [ih hp distinct]
      rfl

theorem perm {l' : List (Value × Value)} (lists : Lists l xs) (same : l'.Perm l) : Lists l' xs := by
  have distinct : l'.Pairwise fun p q => (p.1 == q.1) = false := by
    refine (same.pairwise_iff fun {p q} other => ?_).2 lists.distinct
    rwa [BEq.comm]
  have itself : Lists l' l' := ⟨distinct, fun _ => rfl⟩
  refine ⟨distinct, fun k => Option.ext fun v => ?_⟩
  constructor
  · intro found
    obtain ⟨k', hp, same'⟩ := mem_of_lastWhere found
    rw [← lookup_congr same']
    exact lists.lookup_of_mem (same.mem_iff.1 hp)
  · intro found
    rw [← lists.answers] at found
    obtain ⟨k', hp, same'⟩ := mem_of_lastWhere found
    rw [← lookup_congr same']
    exact itself.lookup_of_mem (same.mem_iff.2 hp)

end Lists

theorem Lists.map_beq_map_iff {l : List (Value × Value)} (lists : Lists l xs) :
    (map xs == map ys) = true ↔ (keyClasses xs).card = (keyClasses ys).card ∧
      ∀ p ∈ l, ∃ w, lookup ys p.1 = some w ∧ (p.2 == w) = true := by
  rw [Value.map_beq_map_iff]
  constructor
  · intro alike
    have classes : keyClasses xs = keyClasses ys := by
      ext q
      induction q using Quotient.ind with
      | _ k => rw [mem_keyClasses_iff, mem_keyClasses_iff, isSome_eq_of_rel (alike k)]
    refine ⟨congrArg _ classes, fun p hp => ?_⟩
    have related := alike p.1
    rw [lists.lookup_of_mem hp] at related
    exact exists_of_rel_some related
  · rintro ⟨size, covered⟩
    have found (k v : Value) (hk : lookup xs k = some v) :
        ∃ w, lookup ys k = some w ∧ (v == w) = true := by
      rw [← lists.answers] at hk
      obtain ⟨k', hp, same⟩ := mem_of_lastWhere hk
      rw [← lookup_congr same]
      exact covered _ hp
    -- The keys of `xs` are all in `ys` and are as many, so that `ys` has no others.
    have classes : keyClasses xs = keyClasses ys := by
      refine Finset.eq_of_subset_of_card_le (fun q hq => ?_) (Nat.le_of_eq size.symm)
      induction q using Quotient.ind with
      | _ k =>
        rw [mem_keyClasses_iff, Option.isSome_iff_exists] at hq
        obtain ⟨v, hv⟩ := hq
        obtain ⟨w, hw, -⟩ := found k v hv
        rw [mem_keyClasses_iff, hw]
        rfl
    intro k
    cases hk : lookup xs k with
    | some v =>
      obtain ⟨w, hw, same⟩ := found k v hk
      rw [hw]
      exact .some same
    | none =>
      have absent : ¬ Quotient.mk sameness k ∈ keyClasses ys := by
        rw [← classes, mem_keyClasses_iff, hk]
        exact nofun
      rw [mem_keyClasses_iff, Option.not_isSome_iff_eq_none] at absent
      rw [absent]
      exact .none

theorem lookup_append : lookup (xs ++ ys) k = (lookup ys k).or (lookup xs k) := by
  induction xs with
  | nil => simp [lookup, lastWhere]
  | cons p xs ih => rw [List.cons_append, lookup_cons, lookup_cons, ih, Option.or_assoc]

theorem entries_subset {p : Value × Value} (hp : p ∈ entries xs) : p ∈ xs := by
  induction xs with
  | nil => cases hp
  | cons q xs ih =>
    rw [entries] at hp
    split at hp
    · exact List.mem_cons_of_mem q (ih hp)
    · rcases List.mem_cons.1 hp with rfl | hp
      · exact List.mem_cons_self
      · exact List.mem_cons_of_mem q (ih hp)

theorem lists_entries (xs : List (Value × Value)) : Lists (entries xs) xs := by
  induction xs with
  | nil => exact ⟨.nil, fun _ => rfl⟩
  | cons p xs ih =>
    rw [entries]
    cases known : hasKey xs p.1 with
    | true =>
      refine ⟨ih.distinct, fun k => ?_⟩
      rw [if_pos rfl, ih.answers, lookup_cons]
      cases same : equal p.1 k with
      | false => simp
      | true =>
        rw [hasKey_eq_isSome, lookup_congr same, Option.isSome_iff_exists] at known
        obtain ⟨v, hv⟩ := known
        rw [hv]
        rfl
    | false =>
      refine ⟨.cons (fun q hq => ?_) ih.distinct, fun k => ?_⟩
      · rw [← Bool.not_eq_true, BEq.comm]
        intro same
        rw [hasKey_iff.2 ⟨q, entries_subset hq, same⟩] at known
        cases known
      · rw [if_neg nofun, lookup_cons, lookup_cons, ih.answers]

theorem length_entries_of_map_beq (same : map xs == map ys) :
    (entries xs).length = (entries ys).length := by
  rw [(lists_entries xs).length_eq_card, (lists_entries ys).length_eq_card]
  exact ((lists_entries xs).map_beq_map_iff.1 same).1

theorem pieces_congr (a b : Value) (same : a == b) : a.pieces = b.pieces := by
  induction a using over_induction generalizing b with
  | step a inside =>
    cases a with
    | list items =>
      cases b with
      | list others =>
        rw [list_beq_list_iff] at same
        have fed : piecesOfItems items = piecesOfItems others := by
          induction same with
          | nil => rfl
          | @cons v w _ _ head _ ih =>
            have ⟨hv, hs⟩ := List.forall_mem_cons.1 inside
            rw [piecesOfItems, piecesOfItems, hv w head, ih hs]
        rw [pieces, pieces, same.length_eq, fed]
      | _ => cases same
    | map xs =>
      cases b with
      | map ys => rw [pieces, pieces, length_entries_of_map_beq same]
      | _ => cases same
    | _ => cases b <;> simp_all [BEq.beq, equal, pieces]

theorem lookup_eq_some_iff : lookup xs k = some v ↔ ∃ front k' back,
    xs = front ++ (k', v) :: back ∧ (k' == k) = true ∧ ∀ p ∈ back, (p.1 == k) = false := by
  constructor
  · intro found
    induction xs with
    | nil => cases found
    | cons p xs ih =>
      rw [lookup_cons, Option.or_eq_some_iff] at found
      rcases found with found | ⟨absent, found⟩
      · obtain ⟨front, k', back, rfl, same, others⟩ := ih found
        exact ⟨p :: front, k', back, rfl, same, others⟩
      · split at found
        · next same =>
          cases found
          exact ⟨[], p.1, xs, rfl, same, lastWhere_eq_none_iff.1 absent⟩
        · cases found
  · rintro ⟨front, k', back, rfl, same, others⟩
    have absent : lookup back k = none := lastWhere_eq_none_iff.2 others
    rw [lookup_append, lookup_cons, absent, show equal k' k = true from same]
    rfl

theorem lookup_eq_none_iff : lookup xs k = none ↔ ∀ p ∈ xs, (p.1 == k) = false :=
  lastWhere_eq_none_iff

end Conduit.Value

namespace Conduit.Table

open Value

variable {t t' : Table} {xs ys : List (Value × Value)} {k v : Value}

theorem stopsAt_eq (t : Table) (k : Value) (p : Value × Value) : t.stopsAt k p = (p.1 == k) := by
  rw [stopsAt, BEq.comm (a := k)]
  cases same : p.1 == k with
  | false => simp
  | true => simp [pieces_congr p.1 k same]

theorem lookup_eq_none_of_distinct {p : Value × Value} {l : List (Value × Value)}
    (first : ∀ q ∈ l, (p.1 == q.1) = false) (same : (p.1 == k) = true) : lookup l k = none := by
  refine lookup_eq_none_iff.2 fun q hq => ?_
  rw [← BEq.congr_right (a := q.1) same, BEq.comm]
  exact first q hq

theorem get?_eq_lookup (lists : Lists t.pairs xs) (k : Value) : t.get? k = lookup xs k := by
  rw [get?, ← lists.answers]
  have distinct := lists.distinct
  clear lists
  generalize t.pairs = l at distinct
  induction l with
  | nil => rfl
  | cons p l ih =>
    obtain ⟨first, distinct⟩ := List.pairwise_cons.1 distinct
    rw [lookup_cons, List.find?_cons, stopsAt_eq]
    cases same : p.1 == k with
    | true =>
      rw [lookup_eq_none_of_distinct first same, show equal p.1 k = true from same]
      rfl
    | false =>
      rw [show equal p.1 k = false from same, ← ih distinct]
      simp

theorem mem_put_key {l : List (Value × Value)} {q : Value × Value} (hq : q ∈ t.put k v l) :
    q.1 = k ∨ ∃ p ∈ l, p.1 = q.1 := by
  induction l with
  | nil =>
    cases List.mem_singleton.1 hq
    exact .inl rfl
  | cons p l ih =>
    rw [put] at hq
    split at hq
    · rcases List.mem_cons.1 hq with rfl | hq
      · exact .inr ⟨p, List.mem_cons_self, rfl⟩
      · exact .inr ⟨q, List.mem_cons_of_mem p hq, rfl⟩
    · rcases List.mem_cons.1 hq with rfl | hq
      · exact .inr ⟨q, List.mem_cons_self, rfl⟩
      · rcases ih hq with rfl | ⟨r, hr, same⟩
        · exact .inl rfl
        · exact .inr ⟨r, List.mem_cons_of_mem p hr, same⟩

section Put

variable {l : List (Value × Value)}

theorem distinct_put (distinct : l.Pairwise fun p q => (p.1 == q.1) = false) (k v : Value) :
    (t.put k v l).Pairwise fun p q => (p.1 == q.1) = false := by
  induction l with
  | nil => exact List.pairwise_singleton ..
  | cons p l ih =>
    obtain ⟨first, distinct⟩ := List.pairwise_cons.1 distinct
    rw [put, stopsAt_eq]
    cases same : p.1 == k with
    | true => exact .cons first distinct
    | false =>
      refine .cons (fun q hq => ?_) (ih distinct)
      rcases mem_put_key hq with rfl | ⟨r, hr, hk⟩
      · exact same
      · exact hk ▸ first r hr

theorem lookup_put (distinct : l.Pairwise fun p q => (p.1 == q.1) = false) (k v k' : Value) :
    lookup (t.put k v l) k' = (if equal k k' then some v else none).or (lookup l k') := by
  induction l with
  | nil =>
    rw [put, lookup_cons]
    cases equal k k' <;> rfl
  | cons p l ih =>
    obtain ⟨first, distinct⟩ := List.pairwise_cons.1 distinct
    rw [put, stopsAt_eq, lookup_cons]
    cases same : p.1 == k with
    | true =>
      have turned : equal p.1 k' = equal k k' := BEq.congr_left same
      rw [if_pos rfl, lookup_cons, turned]
      cases found : equal k k' with
      | true =>
        rw [lookup_eq_none_of_distinct first (turned.trans found)]
        rfl
      | false => simp
    | false => rw [if_neg nofun, lookup_cons, ih distinct, Option.or_assoc]

theorem lists_put (lists : Lists l xs) (k v : Value) :
    Lists (t.put k v l) (xs ++ [(k, v)]) where
  distinct := distinct_put lists.distinct k v
  answers k' := by rw [lookup_put lists.distinct, lookup_append, lists.answers]; rfl

end Put

theorem lists_ofPairs (hash : List HashPiece → UInt64) (xs : List (Value × Value)) :
    Lists (ofPairs hash xs).pairs xs := by
  suffices going : ∀ (front : List (Value × Value)) (t : Table), Lists t.pairs front →
      Lists (xs.foldl (fun t p => t.insert p.1 p.2) t).pairs (front ++ xs) from
    going [] ⟨hash, []⟩ ⟨.nil, fun _ => rfl⟩
  induction xs with
  | nil => exact fun front t lists => by rwa [List.append_nil]
  | cons p xs ih =>
    intro front t lists
    rw [List.append_cons]
    exact ih _ _ (lists_put lists p.1 p.2)

theorem agrees_eq (listsX : Lists t.pairs xs) (listsY : Lists t'.pairs ys) :
    t.agrees t' = (map xs == map ys) := by
  rw [Bool.eq_iff_iff, listsX.map_beq_map_iff, agrees, Bool.and_eq_true, beq_iff_eq, size, size,
    listsX.length_eq_card, listsY.length_eq_card, List.all_eq_true]
  refine and_congr_right fun _ => forall₂_congr fun p _ => ?_
  simp only [get?_eq_lookup listsY]
  cases lookup ys p.1 <;> simp

end Conduit.Table

namespace Conduit.Value

open Table

theorem equality_and_lookup :
    Equivalence (fun a b : Value => (a == b) = true) ∧
    (∀ a b : Value, a == b → a.pieces = b.pieces) ∧
    (∀ hash pairs,
      ((ofPairs hash pairs).pairs.Pairwise fun p q => (p.1 == q.1) = false) ∧
      (∀ k, (∃ p ∈ (ofPairs hash pairs).pairs, p.1 == k) ↔ ∃ p ∈ pairs, p.1 == k) ∧
      (ofPairs hash pairs).size = (keyClasses pairs).card ∧
      (∀ k v, (ofPairs hash pairs).get? k = some v ↔ ∃ front k' back,
        pairs = front ++ (k', v) :: back ∧ (k' == k) = true ∧ ∀ p ∈ back, (p.1 == k) = false) ∧
      (∀ k, (ofPairs hash pairs).get? k = none ↔ ∀ p ∈ pairs, (p.1 == k) = false) ∧
      (∀ k, lookup pairs k = (ofPairs hash pairs).get? k) ∧
      (entries pairs).length = (ofPairs hash pairs).size) ∧
    ∀ hash hash' xs ys,
      (map xs == map ys) = (ofPairs hash xs).agrees (ofPairs hash' ys) ∧
      ((map xs == map ys) = true ↔ ∀ k, Option.Rel (fun v w => (v == w) = true)
        ((ofPairs hash xs).get? k) ((ofPairs hash' ys).get? k)) := by
  refine ⟨sameness.iseqv, pieces_congr, fun hash pairs => ?_, fun hash hash' xs ys => ?_⟩
  · have lists := lists_ofPairs hash pairs
    have get (k : Value) := get?_eq_lookup lists k
    refine ⟨lists.distinct, fun k => ?_, lists.length_eq_card, fun k v => ?_, fun k => ?_,
      fun k => (get k).symm, ?_⟩
    · have known : hasKey (ofPairs hash pairs).pairs k = hasKey pairs k := by
        rw [hasKey_eq_isSome, hasKey_eq_isSome, lists.answers]
      rwa [Bool.eq_iff_iff, hasKey_iff, hasKey_iff] at known
    · rw [get, lookup_eq_some_iff]
    · rw [get, lookup_eq_none_iff]
    · rw [(lists_entries pairs).length_eq_card, size, lists.length_eq_card]
  · have listsX := lists_ofPairs hash xs
    have listsY := lists_ofPairs hash' ys
    refine ⟨(agrees_eq listsX listsY).symm, map_beq_map_iff.trans (forall_congr' fun k => ?_)⟩
    rw [get?_eq_lookup listsX, get?_eq_lookup listsY]

end Conduit.Value
