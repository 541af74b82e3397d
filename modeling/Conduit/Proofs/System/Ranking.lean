import Conduit.Proofs.Number.Nearest
import Conduit.Proofs.System.DirectoryStore
import Mathlib.Data.Prod.Lex
import Mathlib.Data.List.Permutation
import Mathlib.Data.List.Sort
import Mathlib.Data.String.Basic

/-!
The order in which the store kept in memory lists the paths.  Scores are compared by their places
among all numbers, and paths break the ties, so that any two entries of the table are in order in
just one way: a listing depends on which entries there are and on nothing else.
-/

namespace Conduit.DirectoryStore

variable {visits : List String} {vs : List Visited} {v w : Visited} {i j : ℕ}

def rank (x : Binary64) : ℤ := x.rank?.getD 0

def standing (v : Visited) : ℤᵒᵈ ×ₗ String := toLex (OrderDual.toDual (rank v.score), v.path)

def Numeric (vs : List Visited) : Prop := ∀ v ∈ vs, v.score ≠ .nan

theorem standing_le : standing v ≤ standing w ↔
    rank w.score < rank v.score ∨ rank v.score = rank w.score ∧ v.path ≤ w.path := by
  rw [standing, standing, Prod.Lex.toLex_le_toLex]
  simp

theorem standing_lt : standing v < standing w ↔
    rank w.score < rank v.score ∨ rank v.score = rank w.score ∧ v.path < w.path := by
  rw [standing, standing, Prod.Lex.toLex_lt_toLex]
  simp

theorem precedes_iff (first : v.score ≠ .nan) (second : w.score ≠ .nan) :
    precedes v w = true ↔ standing v ≤ standing w := by
  obtain ⟨p, x⟩ := v
  obtain ⟨q, y⟩ := w
  cases x with
  | nan => exact absurd rfl first
  | signed s m =>
    cases y with
    | nan => exact absurd rfl second
    | signed t m' =>
      rw [standing_le]
      simp [precedes, rank, Binary64.rank?]

/-! ### Scores of many visits -/

theorem exists_add_visitScore (m : Binary64.Magnitude) :
    ∃ m' : Binary64.Magnitude, Binary64.signed false m + visitScore = .signed false m' ∧
      m.val ≤ m'.val := by
  have ten : Binary64.Magnitude.nearest ((10 : ℕ) : ℚ) ≠ .infinity :=
    Binary64.nearest_natCast_finite (by decide)
  have ten_value : (Binary64.Magnitude.nearest ((10 : ℕ) : ℚ)).value = 10 :=
    Binary64.value_nearest_natCast (by decide)
  rw [visitScore, Binary64.ofNat_eq]
  by_cases infinite : m = .infinity
  · refine ⟨m, ?_, le_refl _⟩
    change Binary64.add _ _ = _
    rw [Binary64.add, if_pos infinite, if_neg fun both => ten both.1]
  · have nonneg := Binary64.Magnitude.value_nonneg m
    have positive : ¬ m.value + 10 < 0 := by linarith
    have nonzero : m.value + 10 ≠ 0 := by linarith
    refine ⟨.nearest (m.value + 10), ?_, ?_⟩
    · change Binary64.add _ _ = _
      rw [Binary64.add, if_neg infinite, if_neg ten, Binary64.toRat, if_neg infinite,
        Binary64.toRat, if_neg ten, ten_value, Binary64.round, if_neg nonzero]
      simp [positive]
    · rw [Binary64.nearest_val, abs_of_nonneg (by linarith)]
      apply le_min
      · rw [← Binary64.Magnitude.place_value m]
        exact Binary64.place_mono nonneg (by linarith)
      · exact Nat.le_of_lt_succ m.isLt

theorem exists_tally (k : ℕ) : ∃ m : Binary64.Magnitude, tally k = .signed false m := by
  induction k with
  | zero => exact ⟨.zero, rfl⟩
  | succ k ih =>
    obtain ⟨m, score⟩ := ih
    obtain ⟨m', next, -⟩ := exists_add_visitScore m
    exact ⟨m', by rw [tally, score, next]⟩

theorem tally_ne_nan (k : ℕ) : tally k ≠ .nan := by
  obtain ⟨m, score⟩ := exists_tally k
  rw [score]
  intro same
  cases same

theorem rank_tally_succ (k : ℕ) : rank (tally k) ≤ rank (tally (k + 1)) := by
  obtain ⟨m, score⟩ := exists_tally k
  obtain ⟨m', next, le⟩ := exists_add_visitScore m
  rw [tally, score, next]
  simpa [rank, Binary64.rank?] using le

theorem rank_tally_mono (le : i ≤ j) : rank (tally i) ≤ rank (tally j) := by
  induction le with
  | refl => exact le_rfl
  | step _ ih => exact ih.trans (rank_tally_succ _)

theorem rank_tally_inj (small : 10 * i < 2 ^ 53) (small' : 10 * j < 2 ^ 53)
    (same : rank (tally i) = rank (tally j)) : i = j := by
  obtain ⟨m, score⟩ := exists_tally i
  obtain ⟨m', score'⟩ := exists_tally j
  rw [score, score'] at same
  have place : m = m' := Fin.ext (by simpa [rank, Binary64.rank?] using same)
  have value : (tally i).toRat = (tally j).toRat := by rw [score, score', place]
  rw [toRat_tally small, toRat_tally small'] at value
  have value : (i : ℚ) = j := by linarith
  exact_mod_cast value

theorem rank_tally_lt (less : rank (tally i) < rank (tally j)) : i < j := by
  by_contra notLess
  exact absurd (rank_tally_mono (not_lt.1 notLess)) (not_le.2 less)

/-! ### Sorting the entries -/

theorem Recorded.numeric (recorded : Recorded visits vs) : Numeric vs := by
  intro v hv
  rw [((recorded.mem v).1 hv).2]
  exact tally_ne_nan _

theorem map_standing_mergeSort (numeric : Numeric vs) :
    (vs.mergeSort precedes).map standing = (vs.map standing).mergeSort fun a b => decide (a ≤ b) := by
  apply List.map_mergeSort
  intro v hv w hw
  rw [Bool.eq_iff_iff, decide_eq_true_iff]
  exact precedes_iff (numeric v hv) (numeric w hw)

theorem sorted_pairwise (keep : String → Bool) (numeric : Numeric vs) :
    (sorted keep vs).Pairwise fun v w => standing v ≤ standing w := by
  have kept : Numeric (vs.filter fun v => keep v.path) :=
    fun v hv => numeric v (List.mem_of_mem_filter hv)
  have inOrder := List.pairwise_mergeSort' (· ≤ ·) ((vs.filter fun v => keep v.path).map standing)
  rw [← map_standing_mergeSort kept] at inOrder
  exact (List.pairwise_map (f := standing)).1 inOrder

theorem eq_of_standing {vs' : List Visited} (once : (vs.map Visited.path).Nodup)
    (perm : vs.Perm vs') (inOrder : vs.Pairwise fun v w => standing v ≤ standing w)
    (inOrder' : vs'.Pairwise fun v w => standing v ≤ standing w) : vs = vs' := by
  refine List.Perm.eq_of_pairwise ?_ inOrder inOrder' perm
  intro v w hv hw first second
  have same : standing v = standing w := le_antisymm first second
  have path : v.path = w.path := congrArg (fun s => (ofLex s).2) same
  exact List.inj_on_of_nodup_map once hv (perm.mem_iff.2 hw) path

theorem sorted_eq_filter_ranked {entries : List Visited} (keep : String → Bool)
    (perm : entries.Perm (scores visits)) :
    sorted keep entries = (ranked visits).filter fun v => keep v.path := by
  have recorded : Recorded visits entries := (recorded_scores visits).perm perm
  have inOrder := sorted_pairwise (fun _ => true) (recorded_scores visits).numeric
  apply eq_of_standing _ _ (sorted_pairwise keep recorded.numeric) (inOrder.filter _)
  · apply ((sorted_perm keep entries).map Visited.path).nodup_iff.2
    exact recorded.once.sublist (List.filter_sublist.map Visited.path)
  · calc (sorted keep entries).Perm (entries.filter fun v => keep v.path) := sorted_perm keep entries
      _ |>.Perm ((scores visits).filter fun v => keep v.path) := perm.filter _
      _ |>.Perm ((ranked visits).filter fun v => keep v.path) := ((ranked_perm visits).filter _).symm

theorem list_inMemory (visits : List String) : (inMemory visits).list = .ok (ranked visits) := rfl

theorem find_inMemory (visits : List String) (fragment : String) :
    (inMemory visits).find fragment =
      .ok ((ranked visits).filter fun v => occursIn fragment.toList v.path.toList) := by
  let keep := fun path : String => occursIn fragment.toList path.toList
  exact congrArg Except.ok (sorted_eq_filter_ranked keep (.refl (scores visits)))

theorem scores_perm {visits' : List String} (perm : visits.Perm visits') :
    (scores visits).Perm (scores visits') := by
  have recorded := recorded_scores visits
  have recorded' := recorded_scores visits'
  apply (List.perm_ext_iff_of_nodup recorded.once.of_map recorded'.once.of_map).2
  intro v
  rw [recorded.mem, recorded'.mem, perm.mem_iff, perm.count_eq]

theorem ranked_congr {visits' : List String} (perm : visits.Perm visits') :
    ranked visits = ranked visits' := by
  rw [ranked, sorted_eq_filter_ranked _ (scores_perm perm), List.filter_true]

theorem occursIn_iff {fragment text : List Char} : occursIn fragment text ↔ fragment <:+: text := by
  induction text with
  | nil => simp [occursIn]
  | cons c text ih => simp [occursIn, List.infix_cons_iff, ih]

/-! ### What the store answers after any visits -/

def Outranks (v w : Visited) : Prop :=
  w.score.toRat < v.score.toRat ∨ v.score = w.score ∧ v.path < w.path

theorem exact_of_few (few : ∀ path, visits.count path < 2 ^ 49) : Exact visits := by
  intro path
  have bound := few path
  omega

theorem Recorded.outranks (recorded : Recorded visits vs) (exact_ : Exact visits) (hv : v ∈ vs)
    (hw : w ∈ vs) (less : standing v < standing w) : Outranks v w := by
  have first := ((recorded.mem v).1 hv).2
  have second := ((recorded.mem w).1 hw).2
  rw [standing_lt, first, second] at less
  rcases less with less | ⟨same, path⟩
  · left
    have more := rank_tally_lt less
    rw [first, second, toRat_tally (exact_ _), toRat_tally (exact_ _)]
    have more : ((visits.count w.path : ℕ) : ℚ) < visits.count v.path := by exact_mod_cast more
    linarith
  · right
    have count := rank_tally_inj (exact_ _) (exact_ _) same
    exact ⟨by rw [first, second, count], path⟩

theorem ranked_outranks (exact_ : Exact visits) : (ranked visits).Pairwise Outranks := by
  have recorded := recorded_ranked visits
  have once := List.pairwise_map.1 (List.nodup_iff_pairwise_ne.1 recorded.once)
  have inOrder := sorted_pairwise (fun _ => true) (recorded_scores visits).numeric
  apply (once.and inOrder).imp_of_mem
  intro v w hv hw both
  apply recorded.outranks exact_ hv hw
  apply lt_of_le_of_ne both.2
  intro same
  exact both.1 (congrArg (fun s => (ofLex s).2) same)

def addAll (s : DirectoryStore) : List String → Except StoreError DirectoryStore
  | [] => .ok s
  | path :: rest =>
    match s.add path with
    | (.ok _, s') => s'.addAll rest
    | (.error e, _) => .error e

theorem addAll_inMemory (seen visits : List String) :
    (inMemory seen).addAll visits = .ok (inMemory (seen ++ visits)) := by
  induction visits generalizing seen with
  | nil => rw [addAll, List.append_nil]
  | cons path visits ih =>
    have next := ih (seen ++ [path])
    rw [List.append_assoc] at next
    exact next

/-- The store kept in memory is an ordered counter of visits. -/
theorem visits_counted_in_order (visits : List String)
    (few : ∀ path, visits.count path < 2 ^ 49) :
    ∃ s listing, (inMemory []).addAll visits = .ok s ∧ s.list = .ok listing ∧
      (listing.map Visited.path).Nodup ∧
      (∀ v, v ∈ listing ↔ v.path ∈ visits ∧ v.score = .ofNat (10 * visits.count v.path)) ∧
      listing.Pairwise Outranks ∧
      (∀ fragment : String, s.find fragment =
        .ok (listing.filter fun v => decide (fragment.toList <:+: v.path.toList))) ∧
      (∀ visits' : List String, visits'.Perm visits → ∃ s', (inMemory []).addAll visits' = .ok s' ∧
        s'.list = s.list ∧ ∀ fragment, s'.find fragment = s.find fragment) ∧
      ∀ (entries : List Visited) (keep : String → Bool), entries.Perm (scores visits) →
        sorted keep entries = listing.filter fun v => keep v.path := by
  have exact_ := exact_of_few few
  refine ⟨inMemory visits, ranked visits, addAll_inMemory [] visits, list_inMemory visits,
    (recorded_ranked visits).once, ?_, ranked_outranks exact_, ?_, ?_, ?_⟩
  · intro v
    rw [(recorded_ranked visits).mem, tally_eq (exact_ _)]
  · intro fragment
    rw [find_inMemory]
    simp only [← occursIn_iff, Bool.decide_eq_true]
  · intro visits' perm
    refine ⟨inMemory visits', addAll_inMemory [] visits', ?_, ?_⟩
    · rw [list_inMemory, list_inMemory, ranked_congr perm]
    · intro fragment
      rw [find_inMemory, find_inMemory, ranked_congr perm]
  · intro entries keep perm
    exact sorted_eq_filter_ranked keep perm

theorem three_visits_in_order : ∃ s, (inMemory []).addAll ["/b", "/a", "/b"] = .ok s ∧
    s.list = .ok [⟨"/b", .ofNat 20⟩, ⟨"/a", .ofNat 10⟩] := by
  have few : ∀ path, ["/b", "/a", "/b"].count path < 2 ^ 49 := fun path =>
    List.count_le_length.trans_lt (by decide)
  obtain ⟨s, listing, added, listed, once, mem, inOrder, -⟩ :=
    visits_counted_in_order ["/b", "/a", "/b"] few
  refine ⟨s, added, ?_⟩
  have perm : listing.Perm [⟨"/b", .ofNat 20⟩, ⟨"/a", .ofNat 10⟩] := by
    apply (List.perm_ext_iff_of_nodup once.of_map (by simp)).2
    rintro ⟨path, score⟩
    rw [mem]
    by_cases b : path = "/b" <;> by_cases a : path = "/a" <;> simp [b, a]
  have ten : (Binary64.ofNat 10).toRat = 10 := Binary64.isFloat_of_lt (by decide)
  have twenty : (Binary64.ofNat 20).toRat = 20 := Binary64.isFloat_of_lt (by decide)
  rcases List.perm_pair.1 perm with rfl | rfl
  · exact listed
  · obtain ⟨first, -⟩ := List.pairwise_cons.1 inOrder
    rcases first _ List.mem_cons_self with less | ⟨same, -⟩
    · simp only [ten, twenty] at less
      norm_num at less
    · have same : Binary64.ofNat 10 = .ofNat 20 := same
      rw [← same, ten] at twenty
      norm_num at twenty

end Conduit.DirectoryStore
