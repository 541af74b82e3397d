import Conduit.Proofs.System.Bindings

/-!
Scopes that are shared by handles.  Whatever has been done with them, a look-up finds what was last
set in the nearest scope in which the name was ever set.
-/

namespace Conduit

inductive ScopeAct
  | new (made : ScopeId)
  | child (parent made : ScopeId)
  | clone (scope : ScopeId)
  | set (scope : ScopeId) (name : String) (v : Value)
  | get (scope : ScopeId) (name : String)

inductive ScopeHistory : List ScopeAct → ScopeTable → List ScopeId → Prop
  | start : ScopeHistory [] {} []
  | new {acts : List ScopeAct} {t : ScopeTable} {handles : List ScopeId}
      (before : ScopeHistory acts t handles) :
      ScopeHistory (.new (t.grow none).1 :: acts) (t.grow none).2 ((t.grow none).1 :: handles)
  | child {acts : List ScopeAct} {t : ScopeTable} {handles : List ScopeId} {p : ScopeId}
      (before : ScopeHistory acts t handles) (held : p ∈ handles) :
      ScopeHistory (.child p (t.grow (some p)).1 :: acts) (t.grow (some p)).2
        ((t.grow (some p)).1 :: handles)
  | clone {acts : List ScopeAct} {t : ScopeTable} {handles : List ScopeId} {s : ScopeId}
      (before : ScopeHistory acts t handles) (held : s ∈ handles) :
      ScopeHistory (.clone s :: acts) t (s :: handles)
  | set {acts : List ScopeAct} {t : ScopeTable} {handles : List ScopeId} {s : ScopeId}
      (before : ScopeHistory acts t handles) (held : s ∈ handles) (name : String) (v : Value) :
      ScopeHistory (.set s name v :: acts) (t.set s name v) handles
  | get {acts : List ScopeAct} {t : ScopeTable} {handles : List ScopeId} {s : ScopeId}
      (before : ScopeHistory acts t handles) (held : s ∈ handles) (name : String) :
      ScopeHistory (.get s name :: acts) t handles

namespace ScopeAct

def parentOf? (s : ScopeId) : ScopeAct → Option ScopeId
  | child p made => if made = s then some p else none
  | _ => none

def setting? (s : ScopeId) (name : String) : ScopeAct → Option Value
  | set scope other v => if scope = s ∧ other = name then some v else none
  | _ => none

end ScopeAct

variable {acts : List ScopeAct} {t : ScopeTable} {handles : List ScopeId} {s d : ScopeId}
  {name : String} {v : Value} {chain : List ScopeId}

def parentAfter (acts : List ScopeAct) (s : ScopeId) : Option ScopeId :=
  acts.findSome? (·.parentOf? s)

def lastSet (acts : List ScopeAct) (s : ScopeId) (name : String) : Option Value :=
  acts.findSome? (·.setting? s name)

theorem setting?_eq_some {act : ScopeAct} :
    act.setting? s name = some v ↔ act = .set s name v := by
  cases act with
  | set scope other w =>
    rw [ScopeAct.setting?, ScopeAct.set.injEq]
    split
    · next same =>
      obtain ⟨rfl, rfl⟩ := same
      simp
    · next other => exact ⟨nofun, fun ⟨scope, name, _⟩ => absurd ⟨scope, name⟩ other⟩
  | _ => exact ⟨nofun, nofun⟩

theorem lastSet_eq_none : lastSet acts s name = none ↔ ∀ v, .set s name v ∉ acts := by
  rw [lastSet, List.findSome?_eq_none_iff]
  constructor
  · intro none v mem
    have set := setting?_eq_some.2 (rfl : ScopeAct.set s name v = .set s name v)
    rw [none _ mem] at set
    cases set
  · intro never act mem
    refine Option.eq_none_iff_forall_ne_some.2 fun v set => ?_
    rw [setting?_eq_some] at set
    exact never v (set ▸ mem)

theorem lastSet_set (acts : List ScopeAct) (s a : ScopeId) (name other : String) (v : Value) :
    lastSet (.set s name v :: acts) a other =
      if a = s ∧ other = name then some v else lastSet acts a other := by
  by_cases same : s = a ∧ name = other
  · obtain ⟨rfl, rfl⟩ := same
    simp [lastSet, ScopeAct.setting?]
  · have apart : ¬(a = s ∧ other = name) := fun ⟨scope, name⟩ => same ⟨scope.symm, name.symm⟩
    rw [lastSet, List.findSome?_cons, ScopeAct.setting?, if_neg same, if_neg apart]
    rfl

theorem lastSet_cons {act : ScopeAct} (unset : ∀ s name, act.setting? s name = none)
    (acts : List ScopeAct) (s : ScopeId) (name : String) :
    lastSet (act :: acts) s name = lastSet acts s name := by
  rw [lastSet, List.findSome?_cons, unset]
  rfl

theorem lastSet_of_later {later early : List ScopeAct} (last : ∀ w, .set s name w ∉ later) :
    lastSet (later ++ .set s name v :: early) s name = some v := by
  have none : later.findSome? (·.setting? s name) = none := lastSet_eq_none.2 last
  rw [lastSet, List.findSome?_append, none, Option.none_or]
  simp [ScopeAct.setting?]

inductive Ancestry (acts : List ScopeAct) : ScopeId → List ScopeId → Prop
  | root {s : ScopeId} (top : parentAfter acts s = none) : Ancestry acts s [s]
  | inner {s p : ScopeId} {chain : List ScopeId} (below : parentAfter acts s = some p)
      (above : Ancestry acts p chain) : Ancestry acts s (s :: chain)

theorem Ancestry.of_set (ancestry : Ancestry (.set s name v :: acts) d chain) :
    Ancestry acts d chain := by
  induction ancestry with
  | root top => exact .root top
  | inner below _ ih => exact .inner below ih

inductive Climbs (t : ScopeTable) (name : String) : Option ScopeId → Option Value → Prop
  | off : Climbs t name none none
  | found {s : ScopeId} {row : Scope} {v : Value} (here : t.rows[s.index]? = some row)
      (bound : row.get? name = some v) : Climbs t name (some s) (some v)
  | up {s : ScopeId} {row : Scope} {x : Option Value} (here : t.rows[s.index]? = some row)
      (unbound : row.get? name = none) (rest : Climbs t name row.parent x) :
      Climbs t name (some s) x

theorem findSome?_cons_eq_or {α β : Type} (f : α → Option β) (a : α) (l : List α) :
    (a :: l).findSome? f = (f a).or (l.findSome? f) := by
  rw [List.findSome?_cons]
  cases f a <;> rfl

structure RowsAfter (acts : List ScopeAct) (t : ScopeTable) : Prop where
  row : ∀ s : ScopeId, s.index < t.size → ∃ row, t.rows[s.index]? = some row ∧
    row.parent = parentAfter acts s ∧ ∀ name, row.get? name = lastSet acts s name
  older : ∀ s p, parentAfter acts s = some p → p.index < s.index
  fresh : ∀ s : ScopeId, t.size ≤ s.index →
    parentAfter acts s = none ∧ ∀ name, lastSet acts s name = none

namespace RowsAfter

theorem start : RowsAfter [] {} where
  row _ inside := absurd inside (Nat.not_lt_zero _)
  older _ _ parent := by cases parent
  fresh _ _ := ⟨rfl, fun _ => rfl⟩

theorem quiet {act : ScopeAct} (rows : RowsAfter acts t) (orphan : ∀ s, act.parentOf? s = none)
    (unset : ∀ s name, act.setting? s name = none) : RowsAfter (act :: acts) t := by
  have parents (s : ScopeId) : parentAfter (act :: acts) s = parentAfter acts s := by
    rw [parentAfter, List.findSome?_cons, orphan]
    rfl
  obtain ⟨row, older, fresh⟩ := rows
  constructor
  · simpa only [parents, lastSet_cons unset] using row
  · simpa only [parents] using older
  · simpa only [parents, lastSet_cons unset] using fresh

theorem grow {act : ScopeAct} {parent : Option ScopeId} (rows : RowsAfter acts t)
    (made : ∀ s, act.parentOf? s = if s = ⟨t.size⟩ then parent else none)
    (unset : ∀ s name, act.setting? s name = none)
    (inside : ∀ p, parent = some p → p.index < t.size) :
    RowsAfter (act :: acts) (t.grow parent).2 := by
  have size : (t.grow parent).2.size = t.size + 1 := Array.size_push _
  have old {s : ScopeId} (other : s ≠ ⟨t.size⟩) :
      parentAfter (act :: acts) s = parentAfter acts s := by
    rw [parentAfter, List.findSome?_cons, made, if_neg other]
    rfl
  have own : parentAfter (act :: acts) ⟨t.size⟩ = parent := by
    have none := (rows.fresh ⟨t.size⟩ (Nat.le_refl _)).1
    rw [parentAfter, List.findSome?_cons, made, if_pos rfl, ← parentAfter, none]
    cases parent <;> rfl
  refine ⟨fun s below => ?_, fun s p below => ?_, fun s beyond => ?_⟩
  · by_cases newest : s = ⟨t.size⟩
    · subst newest
      have none := (rows.fresh ⟨t.size⟩ (Nat.le_refl _)).2
      refine ⟨{ parent }, Array.getElem?_push.trans (if_pos rfl), own.symm, fun name => ?_⟩
      rw [lastSet_cons unset, none]
      rfl
    · have apart : s.index ≠ t.size := fun same => newest (by rw [← same])
      obtain ⟨row, here, parent, vars⟩ := rows.row s (by omega)
      refine ⟨row, (Array.getElem?_push.trans (if_neg apart)).trans here, ?_, fun name => ?_⟩
      · rw [old newest, parent]
      · rw [lastSet_cons unset, vars]
  · by_cases newest : s = ⟨t.size⟩
    · subst newest
      exact inside p (own.symm.trans below)
    · exact rows.older s p ((old newest).symm.trans below)
  · rw [size] at beyond
    have other : s ≠ ⟨t.size⟩ := fun same => absurd beyond (by rw [same]; exact Nat.lt_irrefl _)
    obtain ⟨orphan, none⟩ := rows.fresh s (Nat.le_of_succ_le beyond)
    refine ⟨(old other).trans orphan, fun name => ?_⟩
    rw [lastSet_cons unset, none]

theorem set (rows : RowsAfter acts t) (inside : s.index < t.size) (name : String) (v : Value) :
    RowsAfter (.set s name v :: acts) (t.set s name v) := by
  have size : (t.set s name v).size = t.size := Array.size_modify
  have parents (d : ScopeId) : parentAfter (.set s name v :: acts) d = parentAfter acts d := rfl
  refine ⟨fun d below => ?_, rows.older, fun d beyond => ?_⟩
  · rw [size] at below
    obtain ⟨row, here, parent, vars⟩ := rows.row d below
    by_cases same : d = s
    · subst same
      refine ⟨row.set name v, ?_, parent, fun other => ?_⟩
      · rw [ScopeTable.set, Array.getElem?_modify, if_pos rfl, here]
        rfl
      · rw [Scope.get?_set, lastSet_set, vars]
        simp
    · have apart : s.index ≠ d.index := fun index => same (by cases s; cases d; cases index; rfl)
      refine ⟨row, ?_, parent, fun other => ?_⟩
      · rw [ScopeTable.set, Array.getElem?_modify, if_neg apart, here]
      · rw [lastSet_set, if_neg fun both => same both.1, vars]
  · rw [size] at beyond
    obtain ⟨orphan, unset⟩ := rows.fresh d beyond
    refine ⟨orphan, fun other => ?_⟩
    have apart : ¬(d = s ∧ other = name) := by
      rintro ⟨rfl, -⟩
      omega
    rw [lastSet_set, if_neg apart, unset]

theorem exists_ancestry (rows : RowsAfter acts t) (s : ScopeId) :
    ∃ chain, Ancestry acts s chain := by
  induction place : s.index using Nat.strongRecOn generalizing s with
  | _ n ih =>
    cases parent : parentAfter acts s with
    | none => exact ⟨[s], .root parent⟩
    | some p =>
      have older := rows.older s p parent
      obtain ⟨chain, above⟩ := ih p.index (place ▸ older) p rfl
      exact ⟨s :: chain, .inner parent above⟩

theorem climb {x : Option Value} (rows : RowsAfter acts t) (inside : s.index < t.size)
    (above : Climbs t name (parentAfter acts s) x) :
    Climbs t name (some s) ((lastSet acts s name).or x) := by
  obtain ⟨row, here, parent, vars⟩ := rows.row s inside
  cases set : lastSet acts s name with
  | some v => exact .found here ((vars name).trans set)
  | none => exact .up here ((vars name).trans set) (parent ▸ above)

theorem climbs (rows : RowsAfter acts t) (ancestry : Ancestry acts s chain)
    (inside : s.index < t.size) (name : String) :
    Climbs t name (some s) (chain.findSome? (lastSet acts · name)) := by
  induction ancestry with
  | root top =>
    rw [findSome?_cons_eq_or]
    exact rows.climb inside (top ▸ .off)
  | @inner s p _ below _ ih =>
    rw [findSome?_cons_eq_or]
    have above := ih (Nat.lt_trans (rows.older s p below) inside)
    exact rows.climb inside (below ▸ above)

theorem get?_of_climbs {scope : Option ScopeId} {x : Option Value} (rows : RowsAfter acts t)
    (climbs : Climbs t name scope x) : (scope.bind fun s => t.get? s name) = x := by
  induction climbs with
  | off => rfl
  | found here bound =>
    rw [Option.bind_some, ScopeTable.get?_of_row here, bound]
    rfl
  | @up s row x here unbound _ ih =>
    have inside : s.index < t.size := (Array.getElem?_eq_some_iff.1 here).1
    obtain ⟨row', here', parent, -⟩ := rows.row s inside
    cases here.symm.trans here'
    rw [Option.bind_some, ScopeTable.get?_of_row here, unbound, Option.none_or, ← ih]
    refine Option.bind_congr fun p above => if_pos ?_
    exact rows.older s p (parent.symm.trans above)

theorem climbs_iff (rows : RowsAfter acts t) (inside : s.index < t.size) (name : String)
    (x : Option Value) : Climbs t name (some s) x ↔ x = t.get? s name := by
  constructor
  · intro climbs
    exact (rows.get?_of_climbs climbs).symm
  · rintro rfl
    obtain ⟨chain, ancestry⟩ := rows.exists_ancestry s
    have climbs := rows.climbs ancestry inside name
    have found : t.get? s name = _ := rows.get?_of_climbs climbs
    rwa [found]

theorem get?_eq (rows : RowsAfter acts t) (ancestry : Ancestry acts s chain)
    (inside : s.index < t.size) (name : String) :
    t.get? s name = chain.findSome? (lastSet acts · name) :=
  rows.get?_of_climbs (rows.climbs ancestry inside name)

end RowsAfter

/-! ### Histories -/

theorem index_lt_grow {parent : Option ScopeId} (inside : ∀ s ∈ handles, s.index < t.size) :
    ∀ s ∈ (t.grow parent).1 :: handles, s.index < (t.grow parent).2.size := by
  have size : (t.grow parent).2.size = t.size + 1 := Array.size_push _
  rw [size]
  exact List.forall_mem_cons.2 ⟨Nat.lt_succ_self _, fun s held => Nat.lt_succ_of_lt (inside s held)⟩

theorem ScopeHistory.rowsAfter (history : ScopeHistory acts t handles) :
    RowsAfter acts t ∧ ∀ s ∈ handles, s.index < t.size := by
  induction history with
  | start => exact ⟨.start, nofun⟩
  | new _ ih =>
    obtain ⟨rows, inside⟩ := ih
    refine ⟨rows.grow (fun s => ?_) (fun _ _ => rfl) nofun, index_lt_grow inside⟩
    rw [ite_self]
    rfl
  | @child acts t handles p _ held ih =>
    obtain ⟨rows, inside⟩ := ih
    refine ⟨rows.grow (fun s => ?_) (fun _ _ => rfl) fun q same => ?_, index_lt_grow inside⟩
    · simp only [ScopeAct.parentOf?, eq_comm]
      rfl
    · cases same
      exact inside p held
  | clone _ held ih =>
    obtain ⟨rows, inside⟩ := ih
    exact ⟨rows.quiet (fun _ => rfl) fun _ _ => rfl,
      List.forall_mem_cons.2 ⟨inside _ held, inside⟩⟩
  | @set acts t handles s _ held name v ih =>
    obtain ⟨rows, inside⟩ := ih
    have size : (t.set s name v).size = t.size := Array.size_modify
    exact ⟨rows.set (inside s held) name v, fun d mem => size ▸ inside d mem⟩
  | get _ _ _ ih =>
    obtain ⟨rows, inside⟩ := ih
    exact ⟨rows.quiet (fun _ => rfl) fun _ _ => rfl, inside⟩

/-- A look-up of the name from the first scope comes up to the second, for the name was set in none
of the scopes between. -/
def ComesUp (acts : List ScopeAct) (name : String) (d s : ScopeId) : Prop :=
  ∃ near far, Ancestry acts d (near ++ s :: far) ∧ ∀ a ∈ near, ∀ v, .set a name v ∉ acts

theorem findSome?_of_comesUp {near far : List ScopeId}
    (unset : ∀ a ∈ near, ∀ v, .set a name v ∉ acts) (set : lastSet acts s name = some v) :
    (near ++ s :: far).findSome? (lastSet acts · name) = some v := by
  have none : near.findSome? (lastSet acts · name) = none :=
    List.findSome?_eq_none_iff.2 fun a mem => lastSet_eq_none.2 (unset a mem)
  rw [List.findSome?_append, none, Option.none_or, List.findSome?_cons, set]

theorem findSome?_set {other : String}
    (apart : ∀ near far, chain = near ++ s :: far → other = name →
      ¬∀ a ∈ near, ∀ w, .set a name w ∉ ScopeAct.set s name v :: acts) :
    chain.findSome? (lastSet (.set s name v :: acts) · other) =
      chain.findSome? (lastSet acts · other) := by
  induction chain with
  | nil => rfl
  | cons a chain ih =>
    by_cases same : other = name
    · subst same
      have elsewhere : a ≠ s := fun here => apart [] chain (by rw [here]; rfl) rfl nofun
      have own := lastSet_set acts s a other other v
      rw [if_neg fun both => elsewhere both.1] at own
      rw [List.findSome?_cons, List.findSome?_cons, own]
      cases set : lastSet acts a other with
      | some w => rfl
      | none =>
        refine ih fun near far split _ unset => ?_
        refine apart (a :: near) far (by rw [split]; rfl) rfl ?_
        exact List.forall_mem_cons.2 ⟨lastSet_eq_none.1 (own.trans set), unset⟩
    · simp only [lastSet_set, same, and_false, if_false]

/-- Look-ups in scopes with parents, after whatever has been done with them.  A setting is what the
scope and those within it find, now and later on, unless they have a nearer one, and nothing else is
found otherwise for it. -/
theorem lexical_scoping (history : ScopeHistory acts t handles) :
    (∀ d ∈ handles, ∃ chain, Ancestry acts d chain ∧
      ∀ name, (∀ x, Climbs t name (some d) x ↔ x = t.get? d name) ∧
        t.get? d name = chain.findSome? (lastSet acts · name)) ∧
    (∀ later early s name v, acts = later ++ .set s name v :: early →
      (∀ w, .set s name w ∉ later) →
      ∀ d ∈ handles, ComesUp acts name d s → t.get? d name = some v) ∧
    ∀ s ∈ handles, ∀ name v, ScopeHistory (.set s name v :: acts) (t.set s name v) handles ∧
      ∀ d ∈ handles, ∀ other, ¬(other = name ∧ ComesUp (.set s name v :: acts) name d s) →
        (t.set s name v).get? d other = t.get? d other := by
  obtain ⟨rows, inside⟩ := history.rowsAfter
  refine ⟨fun d held => ?_, fun later early s name v past last d held comes => ?_,
    fun s held name v => ⟨history.set held name v, fun d held' other apart => ?_⟩⟩
  · obtain ⟨chain, ancestry⟩ := rows.exists_ancestry d
    exact ⟨chain, ancestry, fun name => ⟨rows.climbs_iff (inside d held) name,
      rows.get?_eq ancestry (inside d held) name⟩⟩
  · obtain ⟨near, far, ancestry, unset⟩ := comes
    have set : lastSet acts s name = some v := past ▸ lastSet_of_later last
    rw [rows.get?_eq ancestry (inside d held)]
    exact findSome?_of_comesUp unset set
  · obtain ⟨rows', inside'⟩ := (history.set held name v).rowsAfter
    obtain ⟨chain, ancestry⟩ := rows'.exists_ancestry d
    rw [rows'.get?_eq ancestry (inside' d held'),
      rows.get?_eq ancestry.of_set (inside d held')]
    refine findSome?_set fun near far split same unset => apart ⟨same, near, far, ?_, unset⟩
    exact split ▸ ancestry

namespace InnerScope

def outer : ScopeId := ⟨0⟩

def inner : ScopeId := ⟨1⟩

def early : List ScopeAct :=
  [.child outer inner, .set outer "x" (.string "a"), .clone outer, .new outer]

def later : List ScopeAct := [.get inner "x", .set inner "y" (.string "c")]

def all : List ScopeAct := later ++ .set outer "x" (.string "b") :: early

def outset : ScopeTable := (({} : ScopeTable).grow none).2.set outer "x" (.string "a")

def table : ScopeTable :=
  ((outset.grow (some outer)).2.set outer "x" (.string "b")).set inner "y" (.string "c")

theorem history : ScopeHistory all table [inner, outer, outer] := by
  have created : ScopeHistory [.set outer "x" (.string "a"), .clone outer, .new outer] outset
      [outer, outer] :=
    .set (.clone (s := outer) (.new .start) (by decide)) (by decide) "x" (.string "a")
  have nested : ScopeHistory early (outset.grow (some outer)).2 [inner, outer, outer] :=
    .child (p := outer) created (by decide)
  have within : ScopeHistory (.set inner "y" (.string "c") :: .set outer "x" (.string "b") :: early)
      table [inner, outer, outer] :=
    .set (.set nested (by decide) "x" (.string "b")) (by decide) "y" (.string "c")
  exact .get (s := inner) within (by decide) "x"

theorem comesUp : ComesUp all "x" inner outer := by
  refine ⟨[inner], [], .inner rfl (.root rfl), ?_⟩
  simp [all, later, early, inner, outer]

theorem outer_setting_found_within : table.get? inner "x" = some (.string "b") ∧
    (table.set outer "x" (.string "d")).get? inner "y" = table.get? inner "y" := by
  obtain ⟨-, found, kept⟩ := lexical_scoping history
  refine ⟨found later early outer "x" (.string "b") rfl ?_ inner (by decide) comesUp, ?_⟩
  · simp [later]
  · exact (kept outer (by decide) "x" (.string "d")).2 inner (by decide) "y" (by simp)

end InnerScope

end Conduit
