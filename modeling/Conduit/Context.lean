import Conduit.Port

/-!
Contexts: all that a call runs with.  A context has a name, an array of ports of which the
first three have a role, a scope for variables, and the collaborators attached to it, if any.
-/

namespace Conduit

structure StoreId where
  index : Nat
  deriving DecidableEq, Repr, Inhabited

structure EditorId where
  index : Nat
  deriving DecidableEq, Repr, Inhabited

structure EvaluatorId where
  index : Nat
  deriving DecidableEq, Repr, Inhabited

structure Context where
  name : String
  ports : List Port
  scope : ScopeId
  store : Option StoreId := none
  editor : Option EditorId := none
  evaluator : Option EvaluatorId := none
  deriving DecidableEq, Repr, Inhabited

namespace Context

def roles : Nat := 3

def padded (ports : List Port) (count : Nat) : List Port :=
  ports ++ List.replicate (count - ports.length) .closed

def ofPorts (name : String) (ports : List Port) (scope : ScopeId) : Context :=
  { name, ports := padded ports roles, scope }

def port? (ctx : Context) (i : Nat) : Option Port := ctx.ports[i]?

def port (ctx : Context) (i : Nat) : Port := (ctx.port? i).getD .closed

def input (ctx : Context) : Port := ctx.port 0

def output (ctx : Context) : Port := ctx.port 1

def aux (ctx : Context) : Port := ctx.port 2

def putPort (ctx : Context) (i : Nat) (p : Port) : Context :=
  { ctx with ports := (padded ctx.ports (i + 1)).set i p }

def withoutPorts (ctx : Context) : Context :=
  { ctx with ports := ctx.ports.map fun _ => .closed }

end Context

end Conduit
