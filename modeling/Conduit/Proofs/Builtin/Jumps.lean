import Conduit.Proofs.Builtin.Directories
import Conduit.Proofs.System.Ranking

/-!
Jumps to the directory visited most often.  A jump is itself a visit of the directory that it leads
to, which thereby stays ahead of all others: the same jump made again leads to the same place.
-/

namespace Conduit

open Proc (Meets Runs)

namespace FileSystem

variable {fs fs' : FileSystem}

theorem resolve_congr (dirs : fs'.directories = fs.directories) (files : fs'.files = fs.files)
    (links : fs'.links = fs.links) (budget : ℕ) (base : Path) (names : List String) :
    fs'.resolve budget base names = fs.resolve budget base names := by
  induction budget generalizing base names with
  | zero =>
    induction names generalizing base with
    | nil => rw [resolve, resolve]
    | cons name rest ih =>
      rw [resolve]
      conv_rhs => rw [resolve]
      simp only [isDirectory, ih, dirs, files, links]
      rfl
  | succ budget within =>
    induction names generalizing base with
    | nil => rw [resolve, resolve]
    | cons name rest ih =>
      rw [resolve]
      conv_rhs => rw [resolve]
      simp only [isDirectory, ih, within, dirs, files, links]
      rfl

theorem find_congr_of_absolute {text : String} (absolute : text.startsWith "/")
    (dirs : fs'.directories = fs.directories) (files : fs'.files = fs.files)
    (links : fs'.links = fs.links) : fs'.find text = fs.find text := by
  rw [find, find]
  simp only [start, absolute, if_true, resolve_congr dirs files links]

end FileSystem

namespace DirectoryStore

variable {visits : List String} {fragment d : String}

def entry (visits : List String) (path : String) : Visited := ⟨path, tally (visits.count path)⟩

structure Foremost (visits : List String) (fragment d : String) : Prop where
  visited : d ∈ visits
  inside : fragment.toList <:+: d.toList
  first : ∀ path ∈ visits, fragment.toList <:+: path.toList →
    standing (entry visits d) ≤ standing (entry visits path)

def MostVisited (visits : List String) (fragment d : String) : Prop :=
  d ∈ visits ∧ fragment.toList <:+: d.toList ∧
    ∀ path ∈ visits, fragment.toList <:+: path.toList →
      visits.count path < visits.count d ∨ visits.count path = visits.count d ∧ d ≤ path

theorem mem_ranked {v : Visited} :
    v ∈ ranked visits ↔ v.path ∈ visits ∧ v = entry visits v.path := by
  rw [(recorded_ranked visits).mem]
  obtain ⟨path, score⟩ := v
  simp [entry]

theorem mem_found {v : Visited} :
    v ∈ ((ranked visits).filter fun v => occursIn fragment.toList v.path.toList) ↔
      (v.path ∈ visits ∧ fragment.toList <:+: v.path.toList) ∧ v = entry visits v.path := by
  rw [List.mem_filter, mem_ranked, occursIn_iff]
  tauto

theorem found_pairwise (visits : List String) (fragment : String) :
    ((ranked visits).filter fun v => occursIn fragment.toList v.path.toList).Pairwise
      fun v w => standing v ≤ standing w :=
  (sorted_pairwise _ (recorded_scores visits).numeric).filter _

theorem find_eq_cons_iff : (∃ best others, best.path = d ∧
    (inMemory visits).find fragment = .ok (best :: others)) ↔ Foremost visits fragment d := by
  rw [find_inMemory]
  have mem := @mem_found visits fragment
  have inOrder := found_pairwise visits fragment
  generalize ((ranked visits).filter fun v => occursIn fragment.toList v.path.toList) = found
    at mem inOrder
  constructor
  · rintro ⟨best, others, rfl, same⟩
    cases same
    obtain ⟨⟨visited, inside⟩, same⟩ := mem.1 List.mem_cons_self
    refine ⟨visited, inside, ?_⟩
    intro path visited' inside'
    rw [← same]
    have listed : entry visits path ∈ best :: others := mem.2 ⟨⟨visited', inside'⟩, rfl⟩
    rcases List.mem_cons.1 listed with here | later
    · rw [here]
    · exact (List.pairwise_cons.1 inOrder).1 _ later
  · intro foremost
    have listed : entry visits d ∈ found := mem.2 ⟨⟨foremost.visited, foremost.inside⟩, rfl⟩
    cases found with
    | nil => cases listed
    | cons best others =>
      obtain ⟨⟨visited, inside⟩, same⟩ := mem.1 List.mem_cons_self
      have after := foremost.first best.path visited inside
      rw [← same] at after
      have before : standing best ≤ standing (entry visits d) := by
        rcases List.mem_cons.1 listed with here | later
        · rw [here]
        · exact (List.pairwise_cons.1 inOrder).1 _ later
      have alike : standing best = standing (entry visits d) := le_antisymm before after
      exact ⟨best, others, congrArg (fun s => (ofLex s).2) alike, rfl⟩

theorem Foremost.mostVisited (foremost : Foremost visits fragment d) (exact_ : Exact visits) :
    MostVisited visits fragment d := by
  refine ⟨foremost.visited, foremost.inside, ?_⟩
  intro path visited inside
  rcases standing_le.1 (foremost.first path visited inside) with more | ⟨same, le⟩
  · exact .inl (rank_tally_lt more)
  · exact .inr ⟨(rank_tally_inj (exact_ d) (exact_ path) same).symm, le⟩

theorem Foremost.visit (foremost : Foremost visits fragment d) :
    Foremost (visits ++ [d]) fragment d := by
  refine ⟨List.mem_append_left _ foremost.visited, foremost.inside, ?_⟩
  intro path visited inside
  by_cases same : path = d
  · rw [same]
  · have visited : path ∈ visits := by simpa [same] using visited
    have kept : entry (visits ++ [d]) path = entry visits path := by
      simp [entry, List.count_append, Ne.symm same]
    have raised : rank (entry visits d).score ≤ rank (entry (visits ++ [d]) d).score := by
      apply rank_tally_mono
      simp
    rw [kept]
    have before := foremost.first path visited inside
    rw [standing_le] at before ⊢
    rcases before with more | ⟨level, le⟩
    · exact .inl (more.trans_le raised)
    · rw [level] at raised
      rcases raised.lt_or_eq with more | level
      · exact .inl more
      · exact .inr ⟨level.symm, le⟩

theorem Foremost.replicate (foremost : Foremost visits fragment d) (n : ℕ) :
    Foremost (visits ++ List.replicate n d) fragment d := by
  induction n with
  | zero => rwa [List.replicate_zero, List.append_nil]
  | succ n ih =>
    rw [List.replicate_succ', ← List.append_assoc]
    exact ih.visit

theorem entry_visits_other {path : String} (other : path ≠ d) (n : ℕ) :
    entry (visits ++ List.replicate n d) path = entry visits path := by
  simp [entry, List.count_append, List.count_replicate, Ne.symm other]

theorem count_visits (n : ℕ) : (visits ++ List.replicate n d).count d = visits.count d + n := by
  rw [List.count_append, List.count_replicate_self]

end DirectoryStore

/-! ### One jump after another -/

section Jumps

open DirectoryStore

variable {h : Host} {ctx : Context} {store : StoreId} {s s' t : System} {visits : List String}
  {v : Value} {d : String} {n : ℕ}
def System.Lists (s : System) (store : StoreId) (w : Visited) : Prop :=
  ∃ d listing, s.stores[store.index]? = some d ∧ d.list = .ok listing ∧ w ∈ listing

def System.Gains (s s' : System) (store : StoreId) (d : String) : Prop :=
  (∀ w : Visited, w.path ≠ d → (s'.Lists store w ↔ s.Lists store w)) ∧
    ∃ x, (∀ y, s.Lists store ⟨d, y⟩ ↔ y = x) ∧ ∀ y, s'.Lists store ⟨d, y⟩ ↔ y = x + visitScore

/-- So many calls of `jump-dir` with the same fragment, each of them at a time when the directory
could be entered.  Between them anything may be done that leaves the store alone. -/
inductive Jumps (h : Host) (store : StoreId) (v : Value) (d : String) :
    ℕ → System → System → Prop
  | none {s : System} : Jumps h store v d 0 s s
  | apart {n : ℕ} {s t t' : System} (before : Jumps h store v d n s t)
      (alone : t'.stores[store.index]? = t.stores[store.index]?) : Jumps h store v d n s t'
  | call {n : ℕ} {s t t' : System} {ctx : Context} {es : List Event} {r : Signal} {p : Path}
      (before : Jumps h store v d n s t) (shared : ctx.store = some store)
      (there : t.files.find d = .ok p)
      (run : Runs h (Mover.jumpDirectory.builtin.call ctx [v]) t es (.returned r) t') :
      Jumps h store v d (n + 1) s t'

theorem lists_iff (here : s.stores[store.index]? = some (.inMemory visits)) {w : Visited} :
    s.Lists store w ↔ w.path ∈ visits ∧ w = entry visits w.path := by
  rw [← mem_ranked, System.Lists, here]
  constructor
  · rintro ⟨_, _, ⟨⟩, ⟨⟩, listed⟩
    exact listed
  · intro listed
    exact ⟨inMemory visits, ranked visits, rfl, rfl, listed⟩

theorem lists_self_iff (here : s.stores[store.index]? = some (.inMemory visits))
    (visited : d ∈ visits) {y : Binary64} :
    s.Lists store ⟨d, y⟩ ↔ y = tally (visits.count d) := by
  rw [lists_iff here]
  simp [entry, visited]

theorem lists_other_iff (here : s.stores[store.index]? = some (.inMemory visits))
    (later : t.stores[store.index]? = some (.inMemory (visits ++ List.replicate n d)))
    {w : Visited} (other : w.path ≠ d) : t.Lists store w ↔ s.Lists store w := by
  rw [lists_iff here, lists_iff later, entry_visits_other other]
  simp [List.mem_replicate, other]

theorem gains_of_visit (here : s.stores[store.index]? = some (.inMemory visits))
    (later : s'.stores[store.index]? = some (.inMemory (visits ++ [d]))) (visited : d ∈ visits) :
    s.Gains s' store d := by
  refine ⟨?_, tally (visits.count d), ?_, ?_⟩
  · intro w other
    exact lists_other_iff (n := 1) here later other
  · intro y
    exact lists_self_iff here visited
  · intro y
    rw [lists_self_iff later (List.mem_append_left _ visited)]
    simp [tally]

theorem target_eq_iff (shared : ctx.store = some store)
    (here : s.stores[store.index]? = some (.inMemory visits)) :
    Mover.jumpDirectory.target s ctx [v] = .ok d ↔ Foremost visits v.text d := by
  have found : Mover.found s store v.text = (inMemory visits).find v.text := by
    rw [Mover.found, here]
    rfl
  rw [← find_eq_cons_iff, Mover.target, shared]
  simp only [found]
  split
  · next failed => simp [failed]
  · next none => simp [none]
  · next best others some => simp [some]

theorem stores_moved (shared : ctx.store = some store) (p : Path)
    (here : s.stores[store.index]? = some (.inMemory visits)) :
    (Mover.jumpDirectory.moved s ctx d p).stores[store.index]? =
      some (.inMemory (visits ++ [d])) := by
  simp [Mover.moved, Mover.visit?, Mover.told, shared, Array.getElem?_modify, here, inMemory]

theorem meets_jump (shared : ctx.store = some store)
    (here : s.stores[store.index]? = some (.inMemory visits))
    (foremost : Foremost visits v.text d) {p : Path} (there : s.files.find d = .ok p) :
    Meets h (Mover.jumpDirectory.builtin.call ctx [v]) s fun r s' =>
      r = .ok ∧ s' = Mover.jumpDirectory.moved s ctx d p := by
  apply (Mover.jumpDirectory.meets_call ctx [v] s).mono
  intro r s' ended
  exact ended.eq_moved ((target_eq_iff shared here).2 foremost) there

theorem Jumps.visited (jumps : Jumps h store v d n s t)
    (here : s.stores[store.index]? = some (.inMemory visits))
    (foremost : Foremost visits v.text d) :
    t.stores[store.index]? = some (.inMemory (visits ++ List.replicate n d)) := by
  induction jumps with
  | none => rwa [List.replicate_zero, List.append_nil]
  | apart _ alone ih => exact alone.trans (ih here)
  | @call n s t t' ctx es r p _ shared there run ih =>
    obtain ⟨r', same, -, rfl⟩ :=
      (meets_jump shared (ih here) (foremost.replicate n) there).2 es _ t' run
    rw [stores_moved shared p (ih here), List.append_assoc, ← List.replicate_succ']

/-- A jump that ends well leads to the directory visited most often of those that match, and the
same jump leads there again for as long as it can be entered. -/
theorem jumps_lead_to_one_directory (h : Host) (s s₁ : System) (ctx : Context) (store : StoreId)
    (visits : List String) (v : Value) (es : List Event) (shared : ctx.store = some store)
    (here : s.stores[store.index]? = some (.inMemory visits))
    (absolute : ∀ path ∈ visits, path.startsWith "/")
    (few : ∀ path, visits.count path < 2 ^ 49)
    (run : Runs h (Mover.jumpDirectory.builtin.call ctx [v]) s es (.returned .ok) s₁) :
    Registry.standard.get? "jump-dir" = some Mover.jumpDirectory.builtin ∧
    ∃ d p, MostVisited visits v.text d ∧ s.files.find d = .ok p ∧
      s₁.files = { s.files with current := p } ∧ s.Gains s₁ store d ∧
      (∀ files : FileSystem, files.directories = s.files.directories →
        files.files = s.files.files → files.links = s.files.links → files.find d = .ok p) ∧
      ∀ n t, Jumps h store v d n s₁ t →
        (∀ ctx' q, ctx'.store = some store → t.files.find d = .ok q →
          Meets h (Mover.jumpDirectory.builtin.call ctx' [v]) t fun r t' =>
            r = .ok ∧ t'.files = { t.files with current := q } ∧ t.Gains t' store d) ∧
        (∀ w : Visited, w.path ≠ d → (t.Lists store w ↔ s.Lists store w)) ∧
        (visits.count d + n < 2 ^ 49 → ∀ x y, s.Lists store ⟨d, x⟩ → t.Lists store ⟨d, y⟩ →
          y.toRat = x.toRat + 10 * (n + 1)) := by
  obtain ⟨_, ⟨⟩, ended⟩ := (Mover.jumpDirectory.meets_call ctx [v] s).2 es _ s₁ run
  cases ended with
  | @moved d p aimed found =>
    have foremost := (target_eq_iff shared here).1 aimed
    have visited := foremost.visited
    have first := stores_moved (d := d) shared p here
    refine ⟨Mover.jumpDirectory.get?_standard, d, p, foremost.mostVisited (exact_of_few few), found,
      rfl, gains_of_visit here first visited, ?_, ?_⟩
    · intro files dirs plain links
      rw [← found]
      exact FileSystem.find_congr_of_absolute (absolute d visited) dirs plain links
    · intro n t jumps
      have now := jumps.visited first foremost.visit
      refine ⟨?_, ?_, ?_⟩
      · intro ctx' q shared' there
        apply (meets_jump shared' now (foremost.visit.replicate n) there).mono
        rintro r t' ⟨rfl, rfl⟩
        refine ⟨rfl, rfl, gains_of_visit now (stores_moved shared' q now) ?_⟩
        exact (foremost.visit.replicate n).visited
      all_goals
        have now : t.stores[store.index]? =
            some (.inMemory (visits ++ List.replicate (n + 1) d)) := by
          simpa [List.replicate_succ] using now
      · intro w other
        exact lists_other_iff here now other
      · intro small x y before after
        rw [lists_self_iff here visited] at before
        rw [lists_self_iff now (List.mem_append_left _ visited), count_visits] at after
        rw [before, after, toRat_tally (by omega), toRat_tally (by omega)]
        push_cast
        ring

end Jumps

namespace ThereAgain

open DirectoryStore

def start : System where
  files := { directories := [["a"], ["b"]] }
  stores := #[.inMemory ["/b", "/a"]]

def ctx : Context := { Context.ofPorts "top" [] ⟨0⟩ with store := some ⟨0⟩ }

theorem start_visited : start.stores[0]? = some (.inMemory ["/b", "/a"]) := rfl

theorem rooted : ∀ path ∈ ["/b", "/a"], path.startsWith "/" := by
  intro path visited
  rcases List.mem_pair.1 visited with rfl | rfl <;> simp

theorem foremost : Foremost ["/b", "/a"] (Value.string "").text "/a" := by
  refine ⟨by decide, List.nil_infix, ?_⟩
  intro path visited _
  rw [standing_le]
  rcases List.mem_pair.1 visited with rfl | rfl
  · exact .inr ⟨rfl, by decide⟩
  · exact .inr ⟨rfl, le_rfl⟩

theorem eq_of_mostVisited {d : String} (most : MostVisited ["/b", "/a"] "" d) : d = "/a" := by
  obtain ⟨visited, -, first⟩ := most
  rcases List.mem_pair.1 visited with rfl | rfl
  · rcases first "/a" (by decide) List.nil_infix with fewer | ⟨-, le⟩
    · exact absurd fewer (by decide)
    · exact absurd le (by decide)
  · rfl

theorem two_jumps : ∃ (es : List Event) (s₁ s₂ : System),
    Runs .none (Mover.jumpDirectory.builtin.call ctx [.string ""]) start es (.returned .ok) s₁ ∧
    Jumps .none ⟨0⟩ (.string "") "/a" 1 s₁ s₂ ∧ s₁.files.current = ["a"] ∧
    s₂.files.current = ["a"] ∧
    ∀ x y, start.Lists ⟨0⟩ ⟨"/a", x⟩ → s₂.Lists ⟨0⟩ ⟨"/a", y⟩ → y.toRat = x.toRat + 20 := by
  have few : ∀ path, ["/b", "/a"].count path < 2 ^ 49 := fun path =>
    List.count_le_length.trans_lt (by decide)
  have shared : ctx.store = some ⟨0⟩ := rfl
  have there : start.files.find "/a" = .ok ["a"] := HomeAndBack.find_below_root (.head _) rfl
  have first : Meets .none (Mover.jumpDirectory.builtin.call ctx [.string ""]) start fun r s' =>
      r = .ok ∧ s' = Mover.jumpDirectory.moved start ctx "/a" ["a"] :=
    meets_jump shared start_visited foremost there
  obtain ⟨es, r, s₁, run, rfl, -⟩ := first.exists_runs
  obtain ⟨-, d, p, most, found, files, -, same, again⟩ := jumps_lead_to_one_directory .none start
    s₁ ctx ⟨0⟩ ["/b", "/a"] (.string "") es rfl start_visited rooted few run
  obtain rfl := eq_of_mostVisited most
  rw [there] at found
  cases found
  have there₁ : s₁.files.find "/a" = .ok ["a"] :=
    same s₁.files (by rw [files]) (by rw [files]) (by rw [files])
  obtain ⟨es', r, s₂, run', rfl, files', -⟩ := ((again 0 s₁ .none).1 ctx _ rfl there₁).exists_runs
  have jumps : Jumps .none ⟨0⟩ (.string "") "/a" 1 s₁ s₂ := .call .none rfl there₁ run'
  refine ⟨es, s₁, s₂, run, jumps, by rw [files], by rw [files'], ?_⟩
  intro x y before after
  have grown := (again 1 s₂ jumps).2.2 (by decide) x y before after
  norm_num at grown
  exact grown

end ThereAgain

end Conduit
