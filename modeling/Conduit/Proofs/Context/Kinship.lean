import Conduit.Proofs.Context.Family

/-!
The variables of a family of contexts.  Each fork has a scope of its own inside that of the context
it was derived from, so that a name is looked up along its lineage and in the end as the first
context of the family would look it up.
-/

namespace Conduit

structure Kin where
  scope : ScopeId
  lineage : List Nat
  vars : List (String × Value)

def Relative.kin (r : Relative) : Kin := ⟨r.context.scope, r.lineage, r.vars⟩

def Kin.bound? (m : Kin) (name : String) : Option Value := m.vars.reverse.lookup name

theorem Kin.bound?_append (scope : ScopeId) (lineage : List Nat) (vars : List (String × Value))
    (name other : String) (v : Value) :
    bound? ⟨scope, lineage, vars ++ [(name, v)]⟩ other =
      if other = name then some v else bound? ⟨scope, lineage, vars⟩ other := by
  rw [bound?, List.reverse_append, List.reverse_singleton, List.singleton_append, List.lookup_cons]
  by_cases same : other = name
  · simp [same]
  · rw [if_neg same, beq_false_of_ne same]
    rfl

theorem Kin.get?_set {m : Kin} {row : Scope} {base : String → Option Value}
    (vars : ∀ name, row.get? name = (m.bound? name).or (base name)) (name : String) (v : Value)
    (other : String) : (row.set name v).get? other =
      (bound? { m with vars := m.vars ++ [(name, v)] } other).or (base other) := by
  rw [Scope.get?_set, bound?_append, vars]
  split <;> rfl

theorem Kin.exists_set {kin : List Kin} {k i : Nat} {m origin : Kin} (here : kin[k]? = some m)
    (there : kin[i]? = some origin) (vars : List (String × Value)) :
    ∃ origin', (kin.set k { m with vars })[i]? = some origin' ∧ origin'.scope = origin.scope ∧
      origin'.lineage = origin.lineage := by
  by_cases same : k = i
  · subst same
    rw [here] at there
    cases there
    exact ⟨_, List.getElem?_set_self (List.getElem?_eq_some_iff.1 here).1, rfl, rfl⟩
  · exact ⟨origin, by rw [List.getElem?_set_ne same, there], rfl, rfl⟩

structure ScopeTable.Houses (t₀ : ScopeTable) (scope : ScopeId) (kin : List Kin) (t : ScopeTable) :
    Prop where
  size : t.size + 1 = t₀.size + kin.length
  older : ∀ i < t₀.size, i ≠ scope.index → t.rows[i]? = t₀.rows[i]?
  first : ∃ m row₀ row, kin[0]? = some m ∧ m.scope = scope ∧ m.lineage = [] ∧
    t₀.rows[scope.index]? = some row₀ ∧ t.rows[scope.index]? = some row ∧
    row.parent = row₀.parent ∧ ∀ name, row.get? name = (m.bound? name).or (row₀.get? name)
  forks : ∀ k m, kin[k + 1]? = some m → m.scope = ⟨t₀.size + k⟩ ∧
    ∃ i origin row, i ≤ k ∧ kin[i]? = some origin ∧ m.lineage = (k + 1) :: origin.lineage ∧
      t.rows[t₀.size + k]? = some row ∧ row.parent = some origin.scope ∧
      ∀ name, row.get? name = m.bound? name

namespace ScopeTable.Houses

variable {t₀ t : ScopeTable} {scope : ScopeId} {kin : List Kin}

theorem alone {c : Kin} {row : Scope} (here : t₀.rows[c.scope.index]? = some row)
    (lineage : c.lineage = []) (vars : c.vars = []) : t₀.Houses c.scope [c] t₀ where
  size := rfl
  older _ _ _ := rfl
  first := ⟨c, row, row, rfl, rfl, lineage, here, here, rfl, fun name => by
    rw [Kin.bound?, vars]; rfl⟩
  forks k m there := by cases there

theorem index_lt (houses : t₀.Houses scope kin t) : scope.index < t₀.size := by
  obtain ⟨m, row₀, row, -, -, -, here, -⟩ := houses.first
  exact (Array.getElem?_eq_some_iff.1 here).1

theorem scope_index (houses : t₀.Houses scope kin t) {k : Nat} {m : Kin} (here : kin[k]? = some m) :
    m.scope.index = if k = 0 then scope.index else t₀.size + k - 1 := by
  cases k with
  | zero =>
    obtain ⟨m', _, _, first, same, -⟩ := houses.first
    rw [first] at here
    cases here
    rw [if_pos rfl, same]
  | succ k => rw [if_neg (Nat.succ_ne_zero k), (houses.forks k m here).1]; rfl

theorem fork (houses : t₀.Houses scope kin t) {k : Nat} {m : Kin} (here : kin[k]? = some m) :
    t₀.Houses scope (kin ++ [⟨⟨t.size⟩, kin.length :: m.lineage, []⟩]) (t.grow (some m.scope)).2 := by
  have size := houses.size
  have inside := houses.index_lt
  have lt := (List.getElem?_eq_some_iff.1 here).1
  have kept {i : Nat} (below : i < t.size) :
      (t.grow (some m.scope)).2.rows[i]? = t.rows[i]? :=
    Array.getElem?_push.trans (if_neg (Nat.ne_of_lt below))
  refine ⟨?_, fun i below other => ?_, ?_, fun j n there => ?_⟩
  · simp only [ScopeTable.size, grow, Array.size_push, List.length_append, List.length_singleton]
      at size ⊢
    omega
  · rw [kept (by omega), houses.older i below other]
  · obtain ⟨n, row₀, row, first, own, lineage, before, now, parent, vars⟩ := houses.first
    refine ⟨n, row₀, row, ?_, own, lineage, before, ?_, parent, vars⟩
    · rw [List.getElem?_append_left (by omega), first]
    · rw [kept (by omega), now]
  · rw [List.getElem?_append] at there
    split at there
    · next below =>
      obtain ⟨own, i, origin, row, le, from', lineage, now, parent, vars⟩ := houses.forks j n there
      refine ⟨own, i, origin, row, le, ?_, lineage, ?_, parent, vars⟩
      · rw [List.getElem?_append_left (by omega), from']
      · rw [kept (by omega), now]
    · next beyond =>
      have last : j + 1 = kin.length := by
        have := (List.getElem?_eq_some_iff.1 there).1
        simp only [List.length_singleton] at this
        omega
      rw [last, Nat.sub_self] at there
      cases there
      have place : t₀.size + j = t.size := by omega
      refine ⟨by rw [place], k, m, { parent := some m.scope }, by omega, ?_, by rw [last], ?_, rfl,
        fun _ => rfl⟩
      · rw [List.getElem?_append_left lt, here]
      · rw [place]
        exact Array.getElem?_push.trans (if_pos rfl)

theorem set (houses : t₀.Houses scope kin t) {k : Nat} {m : Kin} (here : kin[k]? = some m)
    (name : String) (v : Value) : t₀.Houses scope
      (kin.set k { m with vars := m.vars ++ [(name, v)] }) (t.set m.scope name v) := by
  have size := houses.size
  have inside := houses.index_lt
  have lt := (List.getElem?_eq_some_iff.1 here).1
  have place := houses.scope_index here
  have kept {i : Nat} (other : m.scope.index ≠ i) : (t.set m.scope name v).rows[i]? = t.rows[i]? := by
    rw [ScopeTable.set, Array.getElem?_modify, if_neg other]
  have changed {row : Scope} (now : t.rows[m.scope.index]? = some row) :
      (t.set m.scope name v).rows[m.scope.index]? = some (row.set name v) := by
    rw [ScopeTable.set, Array.getElem?_modify, if_pos rfl, now]
    rfl
  refine ⟨?_, fun i below other => ?_, ?_, fun j n there => ?_⟩
  · rw [List.length_set]
    simpa [ScopeTable.size, ScopeTable.set] using size
  · rw [kept (by split at place <;> omega), houses.older i below other]
  · obtain ⟨n, row₀, row, first, own, lineage, before, now, parent, vars⟩ := houses.first
    by_cases zero : k = 0
    · subst zero
      rw [first] at here
      cases here
      rw [← own] at now
      refine ⟨_, row₀, row.set name v, List.getElem?_set_self lt, own, lineage, before, ?_, parent,
        Kin.get?_set vars name v⟩
      rw [← own]
      exact changed now
    · rw [if_neg zero] at place
      refine ⟨n, row₀, row, ?_, own, lineage, before, ?_, parent, vars⟩
      · rw [List.getElem?_set_ne zero, first]
      · rw [kept (by omega), now]
  · -- The fork that the variable is set in has its row changed; all others keep theirs.
    by_cases same : k = j + 1
    · subst same
      rw [List.getElem?_set_self lt] at there
      cases there
      obtain ⟨own, i, origin, row, le, from', lineage, now, parent, vars⟩ := houses.forks j m here
      obtain ⟨origin', there, scope', lineage'⟩ :=
        Kin.exists_set here from' (m.vars ++ [(name, v)])
      refine ⟨own, i, origin', row.set name v, le, there, by rw [lineage']; exact lineage, ?_,
        by rw [scope']; exact parent, fun other => ?_⟩
      · have index : m.scope.index = t₀.size + j := by rw [own]
        rw [← index] at now ⊢
        exact changed now
      · have none : ∀ other, row.get? other = (m.bound? other).or none :=
          fun other => by rw [vars, Option.or_none]
        have all := Kin.get?_set none name v other
        rwa [Option.or_none] at all
    · rw [List.getElem?_set_ne same] at there
      obtain ⟨own, i, origin, row, le, from', lineage, now, parent, vars⟩ := houses.forks j n there
      obtain ⟨origin', there', scope', lineage'⟩ :=
        Kin.exists_set here from' (m.vars ++ [(name, v)])
      refine ⟨own, i, origin', row, le, there', by rw [lineage']; exact lineage, ?_,
        by rw [scope']; exact parent, vars⟩
      rw [kept (by split at place <;> omega), now]

theorem get?_first (houses : t₀.Houses scope kin t) {m : Kin} (here : kin[0]? = some m)
    (name : String) : t.get? scope name = (m.bound? name).or (t₀.get? scope name) := by
  obtain ⟨n, row₀, row, first, -, -, before, now, parent, vars⟩ := houses.first
  rw [first] at here
  cases here
  have inside := houses.index_lt
  have above (p : ScopeId) : (if p.index < scope.index then t.get? p name else none) =
      if p.index < scope.index then t₀.get? p name else none := by
    split
    · next below =>
      exact ScopeTable.get?_congr (fun i lt => houses.older i (by omega) (by omega)) name p below
    · rfl
  rw [ScopeTable.get?_of_row now, ScopeTable.get?_of_row before, vars, parent, Option.or_assoc]
  simp only [above]

theorem get?_fork (houses : t₀.Houses scope kin t) {k : Nat} {m : Kin} (here : kin[k]? = some m)
    (name : String) : t.get? m.scope name =
      (m.lineage.findSome? fun i => (kin[i]?).bind (·.bound? name)).or (t.get? scope name) := by
  induction k using Nat.strongRecOn generalizing m with
  | _ k ih =>
    cases k with
    | zero =>
      obtain ⟨n, _, _, first, own, lineage, -⟩ := houses.first
      rw [first] at here
      cases here
      rw [lineage, own]
      rfl
    | succ k =>
      obtain ⟨own, i, origin, row, le, from', lineage, now, parent, vars⟩ := houses.forks k m here
      have older : origin.scope.index < t₀.size + k := by
        have place := houses.scope_index from'
        have inside := houses.index_lt
        split at place <;> omega
      have index : m.scope.index = t₀.size + k := by rw [own]
      rw [← index] at now
      rw [ScopeTable.get?_of_row now, parent, Option.bind_some, index, if_pos older,
        ih i (by omega) from', vars, lineage, List.findSome?_cons, here, Option.bind_some]
      cases m.bound? name <;> rfl

end ScopeTable.Houses

/-! ### Deeds and variables -/

namespace Family

variable {s s' : System} {es : List Event} {family family' : Family} {d : Deed}
  {deeds : List Deed} {t₀ : ScopeTable} {scope : ScopeId}

theorem scopes_after (after : s.After es s')
    (others : ∀ r x, .asked r x ∈ es → r.isOnScopes = false) : s'.scopes = s.scopes := by
  induction after with
  | nil => rfl
  | called _ ih => exact ih fun r x mem => others r x (.tail _ mem)
  | asked reply _ ih =>
    exact (ih fun r x mem => others r x (.tail _ mem)).trans
      (Request.scopes_perform (others _ _ (.head _)) reply)

theorem scopes_holdEvents {ports : List Port} (after : s.After (holdEvents ports) s') :
    s'.scopes = s.scopes := by
  refine scopes_after after fun r x mem => ?_
  simp only [holdEvents, List.mem_flatMap, List.mem_cons, List.not_mem_nil, or_false] at mem
  obtain ⟨p, -, same | same⟩ := mem <;> cases same <;> rfl

theorem scopes_releaseEvents {ports : List Port} (after : s.After (releaseEvents ports) s') :
    s'.scopes = s.scopes := by
  refine scopes_after after fun r x mem => ?_
  simp only [releaseEvents, List.mem_flatMap, List.mem_cons, List.not_mem_nil, or_false] at mem
  obtain ⟨p, -, same | same⟩ := mem <;> cases same <;> rfl

theorem getElem?_kin {relatives : List Relative} {k : Nat} {r : Relative}
    (here : relatives[k]? = some r) : (relatives.map Relative.kin)[k]? = some r.kin := by
  rw [List.getElem?_map, here]
  rfl

theorem kin_replace {relatives : List Relative} {k : Nat} {q r : Relative}
    (here : relatives[k]? = some r) (same : q.kin = r.kin) :
    (relatives.set k q).map Relative.kin = relatives.map Relative.kin := by
  refine List.ext_getElem? fun i => ?_
  rw [List.getElem?_map, List.getElem?_map, List.getElem?_set]
  split
  · next own =>
    rw [← own, if_pos (List.getElem?_eq_some_iff.1 here).1, here, Option.map_some, same]
    rfl
  · rfl

theorem Does.houses (does : family.Does s d es family') (after : s.After es s')
    (houses : t₀.Houses scope (family.relatives.map Relative.kin) s.scopes) :
    t₀.Houses scope (family'.relatives.map Relative.kin) s'.scopes := by
  cases does with
  | nothing => cases after; exact houses
  | @forked k name r scope' here =>
    obtain ⟨s₁, held, opened⟩ := after.split
    obtain - | ⟨reply, rest⟩ := opened
    cases rest
    cases reply
    have same := scopes_holdEvents held
    have all := houses.fork (getElem?_kin here)
    rw [List.length_map, ← same] at all
    rw [List.map_append]
    exact all
  | @bound k name v r here =>
    obtain - | ⟨reply, rest⟩ := after
    cases rest
    cases reply
    have all := houses.set (getElem?_kin here) name v
    simp only [replace, List.map_set]
    exact all
  | @closed k r here =>
    have same := kin_replace (q := { r with context := r.context.withoutPorts }) here rfl
    rw [scopes_releaseEvents after]
    exact same ▸ houses
  | @rebound k i j r p here =>
    have same := kin_replace (q := { r with context := r.context.putPort i p }) here rfl
    rw [scopes_releaseEvents after]
    exact same ▸ houses
  | borrowed => rw [scopes_holdEvents after]; exact houses
  | wrote _ writes =>
    rw [scopes_after after fun r x mem => ?_]
    · exact houses
    · have writing := writes r x mem
      cases r <;> first | rfl | cases writing

theorem Course.houses (course : Course family s deeds es family' s')
    (houses : t₀.Houses scope (family.relatives.map Relative.kin) s.scopes) :
    t₀.Houses scope (family'.relatives.map Relative.kin) s'.scopes := by
  induction course with
  | nil => exact houses
  | cons does after _ ih => exact ih (does.houses after houses)

end Family

end Conduit
