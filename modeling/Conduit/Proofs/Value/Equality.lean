import Conduit.Value.Basic
import Mathlib.Data.List.Forall2

/-!
Equality of values is an equivalence, and maps are equal when they answer every look-up alike.  What
carries the proof is that a comparison of two maps or lists only ever compares what is inside them.
-/

namespace Conduit.Value

/-! ### The last pair that passes a test -/

section LastWhere

variable {test : Value → Bool} {pairs : List (Value × Value)} {v : Value}

theorem lastWhere_cons (p : Value × Value) : lastWhere test (p :: pairs) =
    (lastWhere test pairs).or (if test p.1 then some p.2 else none) := rfl

theorem lookup_cons (p : Value × Value) (key : Value) : lookup (p :: pairs) key =
    (lookup pairs key).or (if equal p.1 key then some p.2 else none) := rfl

theorem lastWhere_congr {test' : Value → Bool} (same : ∀ p ∈ pairs, test p.1 = test' p.1) :
    lastWhere test pairs = lastWhere test' pairs := by
  induction pairs with
  | nil => rfl
  | cons p pairs ih =>
    rw [lastWhere_cons, lastWhere_cons, same p List.mem_cons_self,
      ih fun q hq => same q (List.mem_cons_of_mem p hq)]

theorem lastWhere_eq_none_iff :
    lastWhere test pairs = none ↔ ∀ p ∈ pairs, test p.1 = false := by
  induction pairs with
  | nil => simp [lastWhere]
  | cons p pairs ih => simp [lastWhere_cons, ih, and_comm]

theorem mem_of_lastWhere (found : lastWhere test pairs = some v) :
    ∃ k, (k, v) ∈ pairs ∧ test k = true := by
  induction pairs with
  | nil => cases found
  | cons p pairs ih =>
    rw [lastWhere_cons, Option.or_eq_some_iff] at found
    rcases found with found | ⟨-, found⟩
    · obtain ⟨k, hk, passed⟩ := ih found
      exact ⟨k, List.mem_cons_of_mem p hk, passed⟩
    · split at found
      · next passed =>
        cases found
        exact ⟨p.1, List.mem_cons_self, passed⟩
      · cases found

theorem hasKey_iff {key : Value} :
    hasKey pairs key = true ↔ ∃ p ∈ pairs, equal p.1 key = true := by
  induction pairs with
  | nil => simp [hasKey]
  | cons p pairs ih => simp [hasKey, ih]

theorem hasKey_eq_isSome (key : Value) : hasKey pairs key = (lookup pairs key).isSome := by
  induction pairs with
  | nil => rfl
  | cons p pairs ih =>
    rw [lookup_cons, Option.isSome_or, ← ih, hasKey, Bool.or_comm]
    cases equal p.1 key <;> rfl

end LastWhere

/-! ### From the values inside to those around them -/

structure EquivOn (S : Value → Prop) : Prop where
  refl : ∀ a, S a → equal a a = true
  symm : ∀ a b, S a → S b → equal a b = true → equal b a = true
  trans : ∀ a b c, S a → S b → S c → equal a b = true → equal b c = true → equal a c = true

def Over (S : Value → Prop) : Value → Prop
  | list items => ∀ v ∈ items, S v
  | map pairs => ∀ p ∈ pairs, S p.1 ∧ S p.2
  | _ => True

section Over

variable {S : Value → Prop} {xs ys : List (Value × Value)}

theorem EquivOn.equal_comm (equiv : EquivOn S) {a b : Value} (ha : S a) (hb : S b) :
    equal a b = equal b a :=
  Bool.eq_iff_iff.2 ⟨equiv.symm a b ha hb, equiv.symm b a hb ha⟩

theorem EquivOn.equal_congr (equiv : EquivOn S) {a b c : Value} (ha : S a) (hb : S b) (hc : S c)
    (same : equal b c = true) : equal a b = equal a c :=
  Bool.eq_iff_iff.2 ⟨fun h => equiv.trans a b c ha hb hc h same,
    fun h => equiv.trans a c b ha hc hb h (equiv.symm b c hb hc same)⟩

theorem EquivOn.lookup_congr (equiv : EquivOn S) (inside : Over S (map xs)) {k k' : Value}
    (hk : S k) (hk' : S k') (same : equal k k' = true) : lookup xs k = lookup xs k' :=
  lastWhere_congr fun p hp => equiv.equal_congr (inside p hp).1 hk hk' same

theorem Over.tail {p : Value × Value} (inside : Over S (map (p :: xs))) : Over S (map xs) :=
  fun q hq => inside q (List.mem_cons_of_mem p hq)

theorem EquivOn.covers_iff (equiv : EquivOn S) (insideX : Over S (map xs))
    (insideY : Over S (map ys)) : covers xs ys = true ↔
      ∀ k v, S k → lookup xs k = some v → ∃ w, lookup ys k = some w ∧ equal v w = true := by
  -- By the pairs of the covered map: the last pair with a key decides, so a pair counts only if its
  -- key does not come again.
  induction xs with
  | nil => simp [covers, lookup, lastWhere]
  | cons p xs ih =>
    obtain ⟨k₀, v₀⟩ := p
    have hk₀ : S k₀ := (insideX _ List.mem_cons_self).1
    have turned : lastWhere (fun key => equal k₀ key) ys = lookup ys k₀ :=
      lastWhere_congr fun q hq => equiv.equal_comm hk₀ (insideY q hq).1
    rw [covers, turned, Bool.and_eq_true, Bool.or_eq_true, ih insideX.tail, hasKey_eq_isSome]
    constructor
    · rintro ⟨first, others⟩ k v hk found
      rw [lookup_cons, Option.or_eq_some_iff] at found
      rcases found with found | ⟨absent, found⟩
      · exact others k v hk found
      · split at found
        · next same =>
          cases found
          rw [← equiv.lookup_congr insideX.tail hk₀ hk same] at absent
          rw [← equiv.lookup_congr insideY hk₀ hk same]
          rw [absent] at first
          rcases first with present | first
          · cases present
          · split at first
            · next w found => exact ⟨w, found, first⟩
            · cases first
        · cases found
    · intro all
      refine ⟨?_, fun k v hk found => all k v hk ?_⟩
      · cases absent : lookup xs k₀ with
        | some v => exact .inl rfl
        | none =>
          obtain ⟨w, found, same⟩ := all k₀ v₀ hk₀ (by
            rw [lookup_cons, absent, equiv.refl k₀ hk₀]
            rfl)
          rw [found]
          exact .inr same
      · rw [lookup_cons, found]
        rfl

theorem EquivOn.equal_map_iff (equiv : EquivOn S) (insideX : Over S (map xs))
    (insideY : Over S (map ys)) : equal (map xs) (map ys) = true ↔
      ∀ k, S k → Option.Rel (fun v w => equal v w = true) (lookup xs k) (lookup ys k) := by
  rw [equal, Bool.and_eq_true, equiv.covers_iff insideX insideY, List.all_eq_true]
  constructor
  · rintro ⟨covered, known⟩ k hk
    cases found : lookup xs k with
    | some v =>
      obtain ⟨w, other, same⟩ := covered k v hk found
      rw [other]
      exact .some same
    | none =>
      cases other : lookup ys k with
      | none => exact .none
      | some w =>
        obtain ⟨k', hk', same⟩ := mem_of_lastWhere other
        -- A key of `ys` only: the test that every key of `ys` is known to `xs` rules it out.
        have present : hasKey xs k' = true := known _ hk'
        rw [hasKey_eq_isSome, equiv.lookup_congr insideX (insideY _ hk').1 hk same, found] at present
        cases present
  · intro alike
    constructor
    · intro k v hk found
      have related := alike k hk
      rw [found] at related
      cases other : lookup ys k with
      | none => rw [other] at related; cases related
      | some w => rw [other] at related; cases related with | some same => exact ⟨w, rfl, same⟩
    · rintro ⟨k, v⟩ hk
      have related := alike k (insideY _ hk).1
      change hasKey xs k = true
      rw [hasKey_eq_isSome]
      cases found : lookup xs k with
      | some v => rfl
      | none =>
        rw [found] at related
        cases other : lookup ys k with
        | some w => rw [other] at related; cases related
        | none =>
          have absent := lastWhere_eq_none_iff.1 other _ hk
          rw [show (k == k) = equal k k from rfl, equiv.refl k (insideY _ hk).1] at absent
          cases absent

theorem Over.lookup_mem (inside : Over S (map xs)) {k v : Value} (found : lookup xs k = some v) :
    S v := by
  obtain ⟨k', hk', -⟩ := mem_of_lastWhere found
  exact (inside _ hk').2

section Rel

variable {o o' o'' : Option Value}

theorem EquivOn.rel_refl (equiv : EquivOn S) (ho : ∀ v, o = some v → S v) :
    Option.Rel (fun v w => equal v w = true) o o := by
  cases o with
  | none => exact .none
  | some v => exact .some (equiv.refl v (ho v rfl))

theorem EquivOn.rel_symm (equiv : EquivOn S) (ho : ∀ v, o = some v → S v)
    (ho' : ∀ v, o' = some v → S v) (same : Option.Rel (fun v w => equal v w = true) o o') :
    Option.Rel (fun v w => equal v w = true) o' o := by
  cases same with
  | none => exact .none
  | some same => exact .some (equiv.symm _ _ (ho _ rfl) (ho' _ rfl) same)

theorem EquivOn.rel_trans (equiv : EquivOn S) (ho : ∀ v, o = some v → S v)
    (ho' : ∀ v, o' = some v → S v) (ho'' : ∀ v, o'' = some v → S v)
    (first : Option.Rel (fun v w => equal v w = true) o o')
    (rest : Option.Rel (fun v w => equal v w = true) o' o'') :
    Option.Rel (fun v w => equal v w = true) o o'' := by
  cases first with
  | none => exact rest
  | some first =>
    cases rest with
    | some rest => exact .some (equiv.trans _ _ _ (ho _ rfl) (ho' _ rfl) (ho'' _ rfl) first rest)

end Rel

theorem equalItems_iff {items others : List Value} : equalItems items others = true ↔
    List.Forall₂ (fun a b => equal a b = true) items others := by
  induction items generalizing others with
  | nil => cases others <;> simp [equalItems]
  | cons x items ih => cases others <;> simp [equalItems, ih]

theorem EquivOn.items_symm (equiv : EquivOn S) {items others : List Value}
    (inside : Over S (list items)) (inside' : Over S (list others))
    (same : List.Forall₂ (fun a b => equal a b = true) items others) :
    List.Forall₂ (fun a b => equal a b = true) others items := by
  induction same with
  | nil => exact .nil
  | @cons a b _ _ head _ ih =>
    have ⟨ha, hs⟩ := List.forall_mem_cons.1 inside
    have ⟨hb, hs'⟩ := List.forall_mem_cons.1 inside'
    exact .cons (equiv.symm a b ha hb head) (ih hs hs')

theorem EquivOn.items_trans (equiv : EquivOn S) {items others last : List Value}
    (inside : Over S (list items)) (inside' : Over S (list others))
    (inside'' : Over S (list last))
    (first : List.Forall₂ (fun a b => equal a b = true) items others)
    (rest : List.Forall₂ (fun a b => equal a b = true) others last) :
    List.Forall₂ (fun a b => equal a b = true) items last := by
  induction first generalizing last with
  | nil => cases rest; exact .nil
  | @cons a b _ _ head _ ih =>
    cases rest with
    | @cons _ c _ _ next others =>
      have ⟨ha, hs⟩ := List.forall_mem_cons.1 inside
      have ⟨hb, hs'⟩ := List.forall_mem_cons.1 inside'
      have ⟨hc, hs''⟩ := List.forall_mem_cons.1 inside''
      exact .cons (equiv.trans a b c ha hb hc head next) (ih hs hs' hs'' others)

theorem EquivOn.over (equiv : EquivOn S) : EquivOn (Over S) where
  -- Each of the three goes by the shape of the values. Lists are compared item by item and maps key
  -- by key, and for items, keys and values the same is known already.
  refl a ha := by
    cases a with
    | list items =>
      rw [equal, equalItems_iff, List.forall₂_same]
      exact fun v hv => equiv.refl v (ha v hv)
    | map pairs =>
      rw [equiv.equal_map_iff ha ha]
      exact fun k _ => equiv.rel_refl fun _ => ha.lookup_mem
    | _ => simp [equal]
  symm a b ha hb same := by
    cases a with
    | list xs =>
      cases b with
      | list ys =>
        rw [equal, equalItems_iff] at same ⊢
        exact equiv.items_symm ha hb same
      | _ => cases same
    | map xs =>
      cases b with
      | map ys =>
        rw [equiv.equal_map_iff ha hb] at same
        rw [equiv.equal_map_iff hb ha]
        exact fun k hk =>
          equiv.rel_symm (fun _ => ha.lookup_mem) (fun _ => hb.lookup_mem) (same k hk)
      | _ => cases same
    | _ => cases b <;> simp_all [equal]
  trans a b c ha hb hc first rest := by
    cases a with
    | list xs =>
      cases b with
      | list ys =>
        cases c with
        | list zs =>
          rw [equal, equalItems_iff] at first rest ⊢
          exact equiv.items_trans ha hb hc first rest
        | _ => cases rest
      | _ => cases first
    | map xs =>
      cases b with
      | map ys =>
        cases c with
        | map zs =>
          rw [equiv.equal_map_iff ha hb] at first
          rw [equiv.equal_map_iff hb hc] at rest
          rw [equiv.equal_map_iff ha hc]
          exact fun k hk => equiv.rel_trans (fun _ => ha.lookup_mem) (fun _ => hb.lookup_mem)
            (fun _ => hc.lookup_mem) (first k hk) (rest k hk)
        | _ => cases rest
      | _ => cases first
    | _ => cases b <;> cases c <;> simp_all [equal]

end Over

/-! ### Equality of all values -/

theorem EquivOn.mono {S S' : Value → Prop} (equiv : EquivOn S) (sub : ∀ v, S' v → S v) :
    EquivOn S' where
  refl a ha := equiv.refl a (sub a ha)
  symm a b ha hb := equiv.symm a b (sub a ha) (sub b hb)
  trans a b c ha hb hc := equiv.trans a b c (sub a ha) (sub b hb) (sub c hc)

theorem over_of_size {n : Nat} {v : Value} (small : sizeOf v ≤ n + 1) :
    Over (fun w => sizeOf w ≤ n) v := by
  cases v with
  | list items =>
    intro w hw
    have := List.sizeOf_lt_of_mem hw
    rw [list.sizeOf_spec] at small
    omega
  | map pairs =>
    rintro ⟨k, w⟩ hp
    have := List.sizeOf_lt_of_mem hp
    rw [map.sizeOf_spec] at small
    rw [Prod.mk.sizeOf_spec] at this
    constructor <;> simp only <;> omega
  | _ => trivial

theorem equivOn_size (n : Nat) : EquivOn fun v => sizeOf v ≤ n := by
  induction n with
  | zero =>
    have empty (v : Value) : ¬ sizeOf v ≤ 0 := by cases v <;> simp
    exact ⟨fun a ha => absurd ha (empty a), fun a _ ha => absurd ha (empty a),
      fun a _ _ ha => absurd ha (empty a)⟩
  | succ n ih => exact ih.over.mono fun v => over_of_size

theorem equivOn_all : EquivOn fun _ => True where
  refl a _ := (equivOn_size (sizeOf a)).refl a (Nat.le_refl _)
  symm a b _ _ := (equivOn_size (sizeOf a + sizeOf b)).symm a b (by omega) (by omega)
  trans a b c _ _ _ := (equivOn_size (sizeOf a + sizeOf b + sizeOf c)).trans a b c
    (by omega) (by omega) (by omega)

instance : EquivBEq Value where
  rfl := equivOn_all.refl _ trivial
  symm := equivOn_all.symm _ _ trivial trivial
  trans := equivOn_all.trans _ _ _ trivial trivial trivial

theorem over_all (v : Value) : Over (fun _ => True) v := by
  cases v with
  | list items => exact fun _ _ => trivial
  | map pairs => exact fun _ _ => ⟨trivial, trivial⟩
  | _ => trivial

section Maps

variable {xs ys : List (Value × Value)} {k k' : Value}

theorem lookup_congr (same : k == k') : lookup xs k = lookup xs k' :=
  equivOn_all.lookup_congr (over_all _) trivial trivial same

theorem map_beq_map_iff : (map xs == map ys) = true ↔
    ∀ k, Option.Rel (fun v w => (v == w) = true) (lookup xs k) (lookup ys k) := by
  refine (equivOn_all.equal_map_iff (over_all _) (over_all _)).trans ?_
  exact forall_congr' fun k => ⟨fun alike => alike trivial, fun alike _ => alike⟩

theorem list_beq_list_iff {items others : List Value} : (list items == list others) = true ↔
    List.Forall₂ (fun a b => (a == b) = true) items others := equalItems_iff

end Maps

end Conduit.Value
