import Conduit.Proofs.Number.Naturals
import Conduit.System.DirectoryStore
import Mathlib.Algebra.BigOperators.Group.List.Basic
import Mathlib.Data.List.Nodup

/-!
What the store kept in memory answers, by the visits it has been told of: each path once, with a
score that every visit of the path has added to.
-/

namespace Conduit.DirectoryStore

variable {visits : List String} {vs : List Visited} {path : String}

def tally : ℕ → Binary64
  | 0 => .zero false
  | k + 1 => tally k + visitScore

/-- No path has been visited so often that its score had to be rounded. -/
def Exact (visits : List String) : Prop := ∀ path, 10 * visits.count path < 2 ^ 53

theorem Exact.of_append {more : List String} (exact_ : Exact (visits ++ more)) : Exact visits := by
  intro path
  have bound := exact_ path
  rw [List.count_append] at bound
  omega

theorem tally_eq {k : ℕ} (small : 10 * k < 2 ^ 53) : tally k = .ofNat (10 * k) := by
  induction k with
  | zero => rw [tally, Binary64.ofNat_eq, Nat.mul_zero, Nat.cast_zero, Binary64.nearest_zero]; rfl
  | succ k ih =>
    rw [Nat.mul_succ] at small ⊢
    rw [tally, ih (by omega), visitScore, Binary64.ofNat_add small]

theorem toRat_tally {k : ℕ} (small : 10 * k < 2 ^ 53) : (tally k).toRat = 10 * k := by
  have isFloat : Binary64.IsFloat (10 * k) := Binary64.isFloat_of_lt small
  rw [tally_eq small, isFloat, Nat.cast_mul, Nat.cast_ofNat]

/-! ### Counting a visit -/

theorem scores_append (visits : List String) (path : String) :
    scores (visits ++ [path]) = countVisit (scores visits) path := List.foldl_concat ..

theorem path_mem_countVisit {p : String} :
    p ∈ (countVisit vs path).map Visited.path ↔ p ∈ vs.map Visited.path ∨ p = path := by
  induction vs with
  | nil => simp [countVisit]
  | cons v vs ih =>
    rw [countVisit]
    split
    · next same => simp only [List.map_cons, List.mem_cons, same]; tauto
    · simp only [List.map_cons, List.mem_cons, ih]; tauto

theorem nodup_countVisit (once : (vs.map Visited.path).Nodup) :
    ((countVisit vs path).map Visited.path).Nodup := by
  induction vs with
  | nil => simp [countVisit]
  | cons v vs ih =>
    obtain ⟨new, once'⟩ := List.nodup_cons.1 once
    rw [countVisit]
    split
    · exact once
    · next other =>
      refine List.nodup_cons.2 ⟨fun mem => ?_, ih once'⟩
      rcases path_mem_countVisit.1 mem with mem | same
      · exact new mem
      · exact other same

theorem mem_countVisit (once : (vs.map Visited.path).Nodup) {v : Visited} :
    v ∈ countVisit vs path ↔ (v.path ≠ path ∧ v ∈ vs) ∨ v.path = path ∧
      ((∃ w ∈ vs, w.path = path ∧ v.score = w.score + visitScore) ∨
        path ∉ vs.map Visited.path ∧ v.score = .zero false + visitScore) := by
  -- The paths differ, so that at most one directory in the store is the one visited.
  induction vs with
  | nil =>
    obtain ⟨p, score⟩ := v
    simp [countVisit]
  | cons u vs ih =>
    obtain ⟨new, once'⟩ := List.nodup_cons.1 once
    have apart : ∀ w ∈ vs, w.path ≠ u.path := fun w hw same =>
      new (same ▸ List.mem_map_of_mem hw)
    rw [countVisit]
    split
    · next same =>
      subst same
      obtain ⟨p, score⟩ := v
      simp only [List.mem_cons, List.map_cons, true_or, not_true_eq_false, false_and, or_false,
        Visited.mk.injEq, ne_eq]
      constructor
      · rintro (⟨rfl, rfl⟩ | mem)
        · exact .inr ⟨rfl, u, .inl rfl, rfl, rfl⟩
        · exact .inl ⟨apart _ mem, .inr mem⟩
      · rintro (⟨other, rfl | mem⟩ | ⟨rfl, w, rfl | mem, same, rfl⟩)
        · exact absurd rfl other
        · exact .inr mem
        · exact .inl ⟨rfl, rfl⟩
        · exact absurd same (apart w mem)
    · next other =>
      rw [List.mem_cons, ih once']
      simp only [List.mem_cons, List.map_cons, not_or, exists_eq_or_imp]
      constructor
      · rintro (rfl | ⟨apart, mem⟩ | ⟨same, ⟨w, mem, hw, score⟩ | ⟨none, score⟩⟩)
        · exact .inl ⟨other, .inl rfl⟩
        · exact .inl ⟨apart, .inr mem⟩
        · exact .inr ⟨same, .inl (.inr ⟨w, mem, hw, score⟩)⟩
        · exact .inr ⟨same, .inr ⟨⟨Ne.symm other, none⟩, score⟩⟩
      · rintro (⟨apart, rfl | mem⟩ | ⟨same, (⟨hw, score⟩ | ⟨w, mem, hw, score⟩) | ⟨⟨-, none⟩, score⟩⟩)
        · exact .inl rfl
        · exact .inr (.inl ⟨apart, mem⟩)
        · exact absurd hw other
        · exact .inr (.inr ⟨same, .inl ⟨w, mem, hw, score⟩⟩)
        · exact .inr (.inr ⟨same, .inr ⟨none, score⟩⟩)

/-! ### The scores of all visits -/

structure Recorded (visits : List String) (vs : List Visited) : Prop where
  once : (vs.map Visited.path).Nodup
  mem : ∀ v, v ∈ vs ↔ v.path ∈ visits ∧ v.score = tally (visits.count v.path)

theorem Recorded.path_mem_iff (recorded : Recorded visits vs) :
    path ∈ vs.map Visited.path ↔ path ∈ visits := by
  constructor
  · intro listed
    obtain ⟨w, hw, rfl⟩ := List.mem_map.1 listed
    exact ((recorded.mem w).1 hw).1
  · intro visited
    have listed : ⟨path, tally (visits.count path)⟩ ∈ vs := (recorded.mem _).2 ⟨visited, rfl⟩
    exact List.mem_map_of_mem (f := Visited.path) listed

theorem Recorded.countVisit (recorded : Recorded visits vs) (path : String) :
    Recorded (visits ++ [path]) (countVisit vs path) := by
  refine ⟨nodup_countVisit recorded.once, fun v => ?_⟩
  rw [mem_countVisit recorded.once, recorded.path_mem_iff, List.count_append, List.mem_append,
    List.mem_singleton]
  by_cases same : v.path = path
  · subst same
    have one : List.count v.path [v.path] = 1 := by simp
    simp only [ne_eq, not_true_eq_false, false_and, true_and, or_true, false_or, one, tally]
    constructor
    · rintro (⟨w, mem, hw, score⟩ | ⟨new, score⟩)
      · rw [score, ((recorded.mem w).1 mem).2, hw]
      · rw [score, List.count_eq_zero_of_not_mem new, tally]
    · intro score
      by_cases visited : v.path ∈ visits
      · have listed : ⟨v.path, tally (visits.count v.path)⟩ ∈ vs :=
          (recorded.mem _).2 ⟨visited, rfl⟩
        exact .inl ⟨_, listed, rfl, score⟩
      · rw [List.count_eq_zero_of_not_mem visited, tally] at score
        exact .inr ⟨visited, score⟩
  · have none : List.count v.path [path] = 0 := by simp [Ne.symm same]
    simp [same, none, recorded.mem v]

theorem Recorded.perm {vs' : List Visited} (recorded : Recorded visits vs) (perm : vs'.Perm vs) :
    Recorded visits vs' :=
  ⟨((perm.map Visited.path).nodup_iff).2 recorded.once,
    fun v => perm.mem_iff.trans (recorded.mem v)⟩

theorem recorded_scores (visits : List String) : Recorded visits (scores visits) := by
  induction visits using List.reverseRecOn with
  | nil => exact ⟨List.nodup_nil, fun v => by simp [scores]⟩
  | append_singleton visits path ih =>
    rw [scores_append]
    exact ih.countVisit path

theorem sorted_perm (keep : String → Bool) (entries : List Visited) :
    (sorted keep entries).Perm (entries.filter fun v => keep v.path) :=
  List.mergeSort_perm _ _

theorem ranked_perm (visits : List String) : (ranked visits).Perm (scores visits) := by
  have perm := sorted_perm (fun _ => true) (scores visits)
  rwa [List.filter_true] at perm

theorem recorded_ranked (visits : List String) : Recorded visits (ranked visits) :=
  (recorded_scores visits).perm (ranked_perm visits)

/-! ### The total of the scores -/

def total (vs : List Visited) : ℚ := (vs.map fun v => v.score.toRat).sum

theorem total_perm {vs' : List Visited} (perm : vs'.Perm vs) : total vs' = total vs :=
  (perm.map _).sum_eq

theorem total_countVisit (grows : ∀ v ∈ vs, v.path = path →
    (v.score + visitScore).toRat = v.score.toRat + 10) :
    total (countVisit vs path) = total vs + 10 := by
  induction vs with
  | nil =>
    have first : (tally 1).toRat = 10 := by
      rw [toRat_tally (by decide), Nat.cast_one, mul_one]
    simpa [countVisit, total, tally] using first
  | cons v vs ih =>
    rw [countVisit]
    split
    · next same =>
      have grown := grows v List.mem_cons_self same
      simp only [total, List.map_cons, List.sum_cons, grown]
      ring
    · have rest := ih fun w hw => grows w (List.mem_cons_of_mem v hw)
      simp only [total, List.map_cons, List.sum_cons] at rest ⊢
      rw [rest]
      ring

theorem total_scores (exact_ : Exact visits) : total (scores visits) = 10 * visits.length := by
  induction visits using List.reverseRecOn with
  | nil => simp [scores, total]
  | append_singleton visits path ih =>
    have grows : ∀ v ∈ scores visits, v.path = path →
        (v.score + visitScore).toRat = v.score.toRat + 10 := by
      intro v hv same
      have score := (((recorded_scores visits).mem v).1 hv).2
      have bound := exact_ v.path
      have one : List.count v.path [path] = 1 := by simp [same]
      rw [List.count_append, one] at bound
      have next : (tally (visits.count v.path + 1)).toRat = _ := toRat_tally bound
      rw [tally] at next
      rw [score, next, toRat_tally (by omega)]
      push_cast
      ring
    rw [scores_append, total_countVisit grows, ih exact_.of_append, List.length_append,
      List.length_singleton]
    push_cast
    ring

theorem total_ranked (exact_ : Exact visits) : total (ranked visits) = 10 * visits.length :=
  (total_perm (ranked_perm visits)).trans (total_scores exact_)

end Conduit.DirectoryStore
