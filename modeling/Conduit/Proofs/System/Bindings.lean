import Conduit.Proofs.System.Trace

/-!
What names are bound to in a scope that has just been begun, or in which variables have just been
set.
-/

namespace Conduit

namespace Scope

theorem lookup_filter {vars : List (String × Value)} {name other : String} (apart : other ≠ name) :
    (vars.filter (·.1 ≠ name)).lookup other = vars.lookup other := by
  induction vars with
  | nil => rfl
  | cons b vars ih =>
    by_cases same : b.1 = name
    · have different : (other == b.1) = false := by simpa [same] using apart
      rw [List.filter_cons_of_neg (by simpa using same), ih, List.lookup_cons, different]
    · rw [List.filter_cons_of_pos (by simpa using same), List.lookup_cons, List.lookup_cons, ih]

theorem get?_set (row : Scope) (name other : String) (v : Value) :
    (row.set name v).get? other = if other = name then some v else row.get? other := by
  rw [get?, set, List.lookup_cons]
  by_cases same : other = name
  · simp [same]
  · rw [if_neg same, beq_false_of_ne same]
    exact lookup_filter same

end Scope

namespace ScopeTable

variable {t : ScopeTable} {scope : ScopeId} {row : Scope}

theorem get?_of_row (here : t.rows[scope.index]? = some row) (name : String) :
    t.get? scope name = (row.get? name).or
      (row.parent.bind fun p => if p.index < scope.index then t.get? p name else none) := by
  rw [get?, here]
  cases found : row.get? name with
  | some v => simp [found]
  | none => cases parent : row.parent <;> simp [found, parent]

theorem get?_grow (t : ScopeTable) (parent : ScopeId) (name : String) :
    (t.grow parent).2.get? ⟨t.size⟩ name = t.get? parent name := by
  have older : ∀ i < t.size, (t.grow parent).2.rows[i]? = t.rows[i]? := fun i below =>
    Array.getElem?_push.trans (if_neg (Nat.ne_of_lt below))
  have here : (t.grow parent).2.rows[t.size]? = some { parent := some parent } :=
    Array.getElem?_push.trans (if_pos rfl)
  refine (get?_of_row here name).trans ?_
  change (if parent.index < t.size then (t.grow parent).2.get? parent name else none) = _
  split
  · next below => exact get?_congr older name parent below
  · next beyond =>
    rw [get?, Array.getElem?_eq_none (Nat.not_lt.1 beyond)]

theorem get?_set (here : t.rows[scope.index]? = some row) (name other : String) (v : Value) :
    (t.set scope name v).get? scope other =
      if other = name then some v else t.get? scope other := by
  have older : ∀ i < scope.index, (t.set scope name v).rows[i]? = t.rows[i]? := by
    intro i below
    rw [set, Array.getElem?_modify, if_neg (Nat.ne_of_gt below)]
  have found : (t.set scope name v).rows[scope.index]? = some (row.set name v) := by
    rw [set, Array.getElem?_modify, if_pos rfl, here]
    rfl
  have above : ∀ p : ScopeId, (if p.index < scope.index then (t.set scope name v).get? p other
      else none) = if p.index < scope.index then t.get? p other else none := by
    intro p
    split
    · next below => exact get?_congr older other p below
    · rfl
  rw [get?_of_row found, get?_of_row here, Scope.get?_set]
  simp only [above]
  split
  · rfl
  · rfl

def setAll (t : ScopeTable) (scope : ScopeId) (pairs : List (String × Value)) : ScopeTable :=
  pairs.foldl (fun t p => t.set scope p.1 p.2) t

theorem size_setAll (pairs : List (String × Value)) (t : ScopeTable) :
    (t.setAll scope pairs).size = t.size := by
  induction pairs generalizing t with
  | nil => rfl
  | cons b pairs ih =>
    rw [setAll, List.foldl_cons, ← setAll, ih]
    exact Array.size_modify

theorem get?_setAll (pairs : List (String × Value)) (here : t.rows[scope.index]? = some row)
    (name : String) : (t.setAll scope pairs).get? scope name =
      (pairs.reverse.lookup name).or (t.get? scope name) := by
  induction pairs generalizing t row with
  | nil => rfl
  | cons b pairs ih =>
    have found : (t.set scope b.1 b.2).rows[scope.index]? = some (row.set b.1 b.2) := by
      rw [set, Array.getElem?_modify, if_pos rfl, here]
      rfl
    rw [setAll, List.foldl_cons, ← setAll, ih found, get?_set here, List.reverse_cons,
      List.lookup_append, Option.or_assoc, List.lookup_cons]
    congr 1
    by_cases same : name = b.1
    · simp [same]
    · rw [if_neg same, beq_false_of_ne same]
      rfl

end ScopeTable

end Conduit
