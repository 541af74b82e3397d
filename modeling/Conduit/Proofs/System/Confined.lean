import Conduit.Proofs.System.Trace
import Mathlib.Data.Set.Basic

/-!
Events that reach variables through contexts only: they look up, set and begin scopes only where a
context or a closure that they have come by leads.
-/

namespace Conduit

namespace Value

mutual

def scopes : Value → List ScopeId
  | string _ | bool _ | rat _ => []
  | list items => itemScopes items
  | map pairs => pairScopes pairs
  | closure f => [f.captured]
termination_by structural v => v

def itemScopes : List Value → List ScopeId
  | [] => []
  | v :: rest => scopes v ++ itemScopes rest
termination_by structural vs => vs

def pairScopes : List (Value × Value) → List ScopeId
  | [] => []
  | (k, v) :: rest => scopes k ++ scopes v ++ pairScopes rest
termination_by structural ps => ps

end

def MadeIn (v : Value) (within : Set ScopeId) : Prop := ∀ scope ∈ v.scopes, scope ∈ within

def scopesOf (vs : List Value) : Set ScopeId := {scope | ∃ v ∈ vs, scope ∈ v.scopes}

theorem MadeIn.mono {v : Value} {within more : Set ScopeId} (made : v.MadeIn within)
    (subset : within ⊆ more) : v.MadeIn more := fun scope mem => subset (made scope mem)

end Value

variable {s s' : System} {es es' : List Event} {own own' known known' : Set ScopeId}

namespace Event

def Allowed (own known : Set ScopeId) : Event → Prop
  | asked (.newScope parent) _ => ∀ scope ∈ parent, scope ∈ own ∪ known
  | asked (.getVar scope _) _ => scope ∈ own
  | asked (.setVar scope _ v) _ => scope ∈ own ∧ v.MadeIn (own ∪ known)
  | asked (.newChannel c) _ => ∀ v ∈ c.queue, v.MadeIn (own ∪ known)
  | asked (.offer _ v) _ => v.MadeIn (own ∪ known)
  | _ => True

def opened : Event → Set ScopeId
  | asked (.newScope _) scope => {scope}
  | _ => ∅

def learnt : Event → Set ScopeId
  | asked (.getVar _ _) (some v) => {scope | scope ∈ v.scopes}
  | asked (.take _) (some v) => {scope | scope ∈ v.scopes}
  | _ => ∅

def source? : Event → Option ChannelId
  | asked (.take c) _ => some c
  | _ => none

theorem Allowed.mono {e : Event} (allowed : e.Allowed own known) (owns : own ⊆ own')
    (knows : known ⊆ own' ∪ known') : e.Allowed own' known' := by
  have reach : own ∪ known ⊆ own' ∪ known' :=
    Set.union_subset (owns.trans Set.subset_union_left) knows
  cases e with
  | called call => trivial
  | asked r x =>
    cases r with
    | newScope parent => exact fun scope mem => reach (allowed scope mem)
    | getVar scope name => exact owns allowed
    | setVar scope name v => exact ⟨owns allowed.1, allowed.2.mono reach⟩
    | newChannel c => exact fun v mem => (allowed v mem).mono reach
    | offer c v => exact Value.MadeIn.mono allowed reach
    | _ => trivial

end Event

def sources (es : List Event) : Set ChannelId := {c | ∃ e ∈ es, e.source? = some c}

/-- Variables are reached through contexts only, by one who begins with the scopes `own` in contexts
and with closures made in the scopes `known`. -/
inductive Confined : Set ScopeId → Set ScopeId → List Event → Prop
  | nil {own known : Set ScopeId} : Confined own known []
  | cons {own known : Set ScopeId} {e : Event} {es : List Event} (allowed : e.Allowed own known)
    (rest : Confined (own ∪ e.opened) (known ∪ e.learnt) es) : Confined own known (e :: es)

theorem Confined.mono (confined : Confined own known es) (owns : own ⊆ own')
    (knows : known ⊆ own' ∪ known') : Confined own' known' es := by
  induction confined generalizing own' known' with
  | nil => exact .nil
  | cons allowed _ ih =>
    refine .cons (allowed.mono owns knows) (ih (Set.union_subset_union_left _ owns) ?_)
    rintro scope (mem | mem)
    · exact (knows mem).imp .inl .inl
    · exact .inr (.inr mem)

theorem Confined.append (first : Confined own known es) (rest : Confined own known es') :
    Confined own known (es ++ es') := by
  induction first with
  | nil => exact rest
  | cons allowed _ ih =>
    exact .cons allowed (ih (rest.mono Set.subset_union_left fun _ mem => .inr (.inl mem)))

theorem Confined.of_allowed {e : Event} (allowed : e.Allowed own known)
    (rest : Confined own known es) : Confined own known (e :: es) :=
  .cons allowed (rest.mono Set.subset_union_left fun _ mem => .inr (.inl mem))

theorem Confined.setsFrom {n : Nat} (confined : Confined own known es) (after : s.After es s')
    (new : ∀ scope ∈ own, n ≤ scope.index) (older : n ≤ s.scopes.size) : SetsFrom n es := by
  induction confined generalizing s with
  | nil => nofun
  | @cons own known e es allowed _ ih =>
    cases after with
    | called rest =>
      have sets := ih rest (by simpa [Event.opened] using new) older
      intro scope name v x mem
      rcases List.mem_cons.1 mem with other | mem
      · cases other
      · exact sets scope name v x mem
    | @asked r x _ s₁ _ _ reply rest =>
      have first : SetsFrom n [.asked r x] := by
        intro scope name v y mem
        obtain ⟨rfl⟩ := List.mem_singleton.1 mem
        exact new scope allowed.1
      have grown := (System.After.rows (.asked reply .nil) first older).1
      refine setsFrom_append first (ih rest ?_ grown)
      rintro scope (mem | mem)
      · exact new scope mem
      · cases r with
        | newScope parent =>
          obtain rfl : scope = x := mem
          cases reply
          exact older
        | _ => cases mem

end Conduit
