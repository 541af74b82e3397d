import Conduit.Value.Basic

/-!
Variable scopes.  A scope belongs to a table and may name an older scope of the table as its
parent; a look-up that finds nothing in a scope goes on in the parent.
-/

namespace Conduit

structure Scope where
  vars : List (String × Value) := []
  parent : Option ScopeId := none
  deriving Inhabited

namespace Scope

def get? (s : Scope) (name : String) : Option Value := s.vars.lookup name

def set (s : Scope) (name : String) (v : Value) : Scope :=
  { s with vars := (name, v) :: s.vars.filter (·.1 ≠ name) }

end Scope

structure ScopeTable where
  rows : Array Scope := #[]
  deriving Inhabited

namespace ScopeTable

def size (t : ScopeTable) : Nat := t.rows.size

def grow (t : ScopeTable) (parent : Option ScopeId) : ScopeId × ScopeTable :=
  (⟨t.size⟩, ⟨t.rows.push { parent }⟩)

def set (t : ScopeTable) (s : ScopeId) (name : String) (v : Value) : ScopeTable :=
  ⟨t.rows.modify s.index (·.set name v)⟩

def get? (t : ScopeTable) (s : ScopeId) (name : String) : Option Value :=
  match t.rows[s.index]? with
  | none => none
  | some scope =>
    match scope.get? name, scope.parent with
    | some v, _ => some v
    | none, none => none
    -- A parent is older than its child, so the way up ends.
    | none, some p => if p.index < s.index then get? t p name else none
termination_by s.index

end ScopeTable

end Conduit
