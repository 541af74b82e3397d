import Conduit.Builtin.Registry
import Mathlib.Data.List.Nodup

/-!
Registries: what their table and their index hold after any calls of `register`.
-/

namespace Conduit.Registry

variable {r : Registry} {b : Builtin} {name : String} {place : Nat}

@[simp] theorem names_empty : empty.names = [] := rfl

@[simp] theorem names_enter : (r.enter b).names = r.names ++ [b.name] := by
  simp [names, enter]

@[simp] theorem size_enter : (r.enter b).size = r.size + 1 := by
  simp [size, enter]

theorem length_names : r.names.length = r.size := List.length_map _

structure Consistent (r : Registry) : Prop where
  named : "" ∉ r.names
  distinct : r.names.Nodup
  indexed : ∀ name place, (name, place) ∈ r.index ↔ r.names[place]? = some name

theorem consistent_empty : empty.Consistent where
  named := by simp
  distinct := by simp
  indexed _ _ := by simp [empty, names]

namespace Consistent

theorem entry (consistent : r.Consistent) (listed : (name, place) ∈ r.index) :
    ∃ b, r.builtins[place]? = some b ∧ b.name = name := by
  have there := (consistent.indexed name place).1 listed
  simpa [names] using there

theorem place?_eq_some (consistent : r.Consistent) :
    r.place? name = some place ↔ r.names[place]? = some name := by
  have listed {found : Nat} (placed : r.place? name = some found) :
      r.names[found]? = some name := by
    obtain ⟨before, after, index, -⟩ := List.lookup_eq_some_iff.1 placed
    exact (consistent.indexed name found).1 (by simp [index])
  refine ⟨listed, fun there => ?_⟩
  have entered := (consistent.indexed name place).2 there
  obtain ⟨found, placed⟩ : ∃ found, r.place? name = some found := by
    rw [← Option.isSome_iff_exists, ← Option.ne_none_iff_isSome]
    intro unplaced
    simpa using List.lookup_eq_none_iff.1 unplaced _ entered
  -- a name stands in the table only once
  have same : found = place :=
    (List.getElem?_inj (List.getElem?_eq_some_iff.1 (listed placed)).1 consistent.distinct).1
      ((listed placed).trans there.symm)
  rw [placed, same]

theorem place?_isSome (consistent : r.Consistent) :
    (r.place? name).isSome ↔ name ∈ r.names := by
  simp only [Option.isSome_iff_exists, consistent.place?_eq_some, List.mem_iff_getElem?]

theorem get?_eq_some (consistent : r.Consistent) :
    r.get? name = some b ↔ b ∈ r.builtins ∧ b.name = name := by
  simp only [get?, Option.bind_eq_some_iff, consistent.place?_eq_some, List.mem_iff_getElem?]
  constructor
  · rintro ⟨place, there, entry⟩
    have same : b.name = name := by simpa [names, entry] using there
    exact ⟨⟨place, entry⟩, same⟩
  · rintro ⟨⟨place, entry⟩, same⟩
    exact ⟨place, by simp [names, entry, same], entry⟩

theorem get?_eq_none (consistent : r.Consistent) : r.get? name = none ↔ name ∉ r.names := by
  simp [Option.eq_none_iff_forall_ne_some, consistent.get?_eq_some, names]

/-! ### One call -/

theorem enter (consistent : r.Consistent) (named : b.name ≠ "") (free : b.name ∉ r.names) :
    (r.enter b).Consistent where
  named := by
    have still := consistent.named
    simp [still, named.symm]
  distinct := by
    rw [names_enter]
    exact consistent.distinct.append (List.nodup_singleton _) (by simpa using free)
  indexed name place := by
    have before := consistent.indexed name place
    rw [names_enter, Registry.enter, List.mem_cons, before, Prod.mk.injEq, ← length_names]
    rcases Nat.lt_trichotomy place r.names.length with old | new | past
    · simp [List.getElem?_append_left old, Nat.ne_of_lt old]
    · simp [new, eq_comm]
    · have outside : r.names[place]? = none := List.getElem?_eq_none (Nat.le_of_lt past)
      have beyond : (r.names ++ [b.name])[place]? = none :=
        List.getElem?_eq_none (by rw [List.length_append]; exact past)
      simp [outside, beyond, Nat.ne_of_gt past]

theorem register_cases (consistent : r.Consistent) (b : Builtin) :
    (b.name = "" ∧ r.register b = (.error .emptyName, r)) ∨
    (b.name ∈ r.names ∧ r.register b = (.error (.duplicate b.name), r)) ∨
    (b.name ≠ "" ∧ b.name ∉ r.names ∧ r.register b = (.ok (), r.enter b)) := by
  unfold register
  by_cases unnamed : b.name = ""
  · exact .inl ⟨unnamed, by simp [unnamed]⟩
  by_cases taken : b.name ∈ r.names
  · exact .inr (.inl ⟨taken, by simp [unnamed, consistent.place?_isSome, taken]⟩)
  · exact .inr (.inr ⟨unnamed, taken, by simp [unnamed, consistent.place?_isSome, taken]⟩)

theorem register (consistent : r.Consistent) (b : Builtin) : (r.register b).2.Consistent := by
  rcases consistent.register_cases b with ⟨-, call⟩ | ⟨-, call⟩ | ⟨named, free, call⟩ <;> rw [call]
  · exact consistent
  · exact consistent
  · exact consistent.enter named free

theorem get?_enter (consistent : r.Consistent) (b : Builtin) (name : String) :
    (r.enter b).get? name = if name = b.name then some b else r.get? name := by
  by_cases same : name = b.name
  · simp [Registry.get?, place?, Registry.enter, size, same]
  have unmoved : (r.enter b).place? name = r.place? name := by
    rw [place?, Registry.enter, List.lookup_cons, beq_false_of_ne same]
    rfl
  rw [if_neg same, Registry.get?, Registry.get?, unmoved]
  refine Option.bind_congr fun place placed => ?_
  obtain ⟨inside, -⟩ := List.getElem?_eq_some_iff.1 (consistent.place?_eq_some.1 placed)
  rw [length_names] at inside
  exact List.getElem?_append_left inside

theorem get?_register (consistent : r.Consistent) (b : Builtin) (name : String) :
    (r.register b).2.get? name =
      (r.get? name).or (if name ≠ "" ∧ b.name = name then some b else none) := by
  rcases consistent.register_cases b with ⟨unnamed, call⟩ | ⟨taken, call⟩ | ⟨named, free, call⟩
  · have other : ¬(name ≠ "" ∧ b.name = name) := fun ⟨named, same⟩ => named (same ▸ unnamed)
    simp [call, other]
  · cases known : r.get? name with
    | some => simp [call, known]
    | none =>
      have other : b.name ≠ name := fun same => consistent.get?_eq_none.1 known (same ▸ taken)
      simp [call, known, other]
  · rw [call, consistent.get?_enter]
    by_cases same : b.name = name
    · have unknown : r.get? name = none := consistent.get?_eq_none.2 (same ▸ free)
      simp [unknown, same, same ▸ named]
    · simp [same, Ne.symm same]

/-! ### Any calls -/

variable (bs : List Builtin)

theorem registerAll (consistent : r.Consistent) : (r.registerAll bs).2.Consistent := by
  induction bs generalizing r with
  | nil => exact consistent
  | cons b bs ih => exact ih (consistent.register b)

theorem names_registerAll (consistent : r.Consistent) :
    (r.registerAll bs).2.names =
      r.names ++ ((bs.map Builtin.name).filter fun n => n ≠ "" ∧ n ∉ r.names).eraseDups := by
  induction bs generalizing r with
  | nil => simp [Registry.registerAll]
  | cons b bs ih =>
    have rest := ih (consistent.register b)
    simp only [Registry.registerAll, rest, List.map_cons]
    rcases consistent.register_cases b with ⟨unnamed, call⟩ | ⟨taken, call⟩ | ⟨named, free, call⟩
    · simp [call, unnamed]
    · simp [call, taken]
    · rw [call, List.filter_cons_of_pos (by simp [named, free]), List.eraseDups_cons,
        List.filter_filter]
      simp only [names_enter, List.append_assoc, List.singleton_append]
      congr 3
      refine List.filter_congr fun n _ => ?_
      by_cases same : n = b.name <;> simp [same]

theorem get?_registerAll (consistent : r.Consistent) (name : String) :
    (r.registerAll bs).2.get? name =
      (r.get? name).or (if name = "" then none else bs.find? (·.name = name)) := by
  induction bs generalizing r with
  | nil => simp [Registry.registerAll]
  | cons b bs ih =>
    rw [Registry.registerAll, ih (consistent.register b), consistent.get?_register, Option.or_assoc]
    congr 1
    by_cases unnamed : name = ""
    · simp [unnamed]
    · by_cases same : b.name = name <;> simp [unnamed, same]

theorem size_registerAll (consistent : r.Consistent) :
    (r.registerAll bs).2.size = r.size + (r.registerAll bs).1.countP Except.isOk := by
  induction bs generalizing r with
  | nil => simp [Registry.registerAll]
  | cons b bs ih =>
    have rest := ih (consistent.register b)
    simp only [Registry.registerAll, rest, List.countP_cons]
    rcases consistent.register_cases b with ⟨-, call⟩ | ⟨-, call⟩ | ⟨-, -, call⟩
    · simp [call, Except.isOk, Except.toBool]
    · simp [call, Except.isOk, Except.toBool]
    · rw [call, size_enter]
      simp only [Except.isOk, Except.toBool, if_true]
      omega

end Consistent

theorem get?_ofList (bs : List Builtin) (name : String) :
    (ofList bs).get? name = if name = "" then none else bs.find? (·.name = name) :=
  consistent_empty.get?_registerAll bs name

theorem register_error {error : RegistryError} (consistent : r.Consistent)
    (rejected : (r.register b).1 = .error error) :
    (r.register b).2 = r ∧
      (error = .emptyName ∧ b.name = "" ∨ error = .duplicate b.name ∧ b.name ∈ r.names) := by
  rcases consistent.register_cases b with ⟨unnamed, call⟩ | ⟨taken, call⟩ | ⟨-, -, call⟩ <;>
    rw [call] at rejected ⊢ <;> cases rejected
  · exact ⟨rfl, .inl ⟨rfl, unnamed⟩⟩
  · exact ⟨rfl, .inr ⟨rfl, taken⟩⟩

/-- What the table, the lookups and the index are after any calls on a new registry. -/
theorem after_any_calls (bs : List Builtin) :
    let calls := empty.registerAll bs
    let r := calls.2
    (r.names = ((bs.map Builtin.name).filter (· ≠ "")).eraseDups ∧ r.names.Nodup) ∧
    (∀ name b, r.get? name = some b ↔
      name ≠ "" ∧ ∃ before after, bs = before ++ b :: after ∧
        b.name = name ∧ ∀ c ∈ before, c.name ≠ name) ∧
    (∀ name, r.get? name = none ↔ name ∉ r.names) ∧
    r.size = calls.1.countP Except.isOk ∧
    (∀ name place, (name, place) ∈ r.index → ∃ b, r.builtins[place]? = some b ∧ b.name = name) ∧
    ∀ b error, (r.register b).1 = .error error →
      (r.register b).2 = r ∧
        (error = .emptyName ∧ b.name = "" ∨ error = .duplicate b.name ∧ b.name ∈ r.names) := by
  intro calls r
  have consistent : r.Consistent := consistent_empty.registerAll bs
  refine ⟨⟨?_, consistent.distinct⟩, fun name b => ?_, fun _ => consistent.get?_eq_none, ?_,
    fun _ _ => consistent.entry, fun _ _ => register_error consistent⟩
  · simpa using consistent_empty.names_registerAll bs
  · have found : r.get? name = _ := get?_ofList bs name
    rw [found]
    by_cases unnamed : name = ""
    · simp [unnamed]
    · simp only [unnamed, if_false, List.find?_eq_some_iff_append, ne_eq, not_false_eq_true,
        true_and, decide_eq_true_eq, Bool.not_eq_true', decide_eq_false_iff_not]
      constructor
      · rintro ⟨same, before, after, split, others⟩
        exact ⟨before, after, split, same, others⟩
      · rintro ⟨before, after, split, same, others⟩
        exact ⟨same, before, after, split, others⟩
  · exact (consistent_empty.size_registerAll bs).trans (Nat.zero_add _)

end Conduit.Registry
