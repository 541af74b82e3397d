/-!
Values: what flows through the channels of ports, is bound to variables and passed to builtins.
A map keeps the pairs it was built from, in order; of equal keys the last one counts, and all
that is told of a map (its entries, its size, a look-up, equality) follows from that rule.
-/

namespace Conduit

structure ScopeId where
  index : Nat
  deriving DecidableEq, Repr, Inhabited

/-- A function made by the host: its parameters, and the scope it was made in.  Two closures
are the same when their identities are; the host knows the body by the identity. -/
structure Closure where
  identity : Nat
  params : List String
  captured : ScopeId
  deriving DecidableEq, Repr, Inhabited

inductive Kind
  | string | bool | rat | list | map | fn
  deriving DecidableEq, Repr

def Kind.name : Kind → String
  | string => "string"
  | bool => "bool"
  | rat => "rat"
  | list => "list"
  | map => "map"
  | fn => "fn"

inductive Value
  | string (text : String)
  | bool (b : Bool)
  | rat (q : Rat)
  | list (items : List Value)
  | map (pairs : List (Value × Value))
  | closure (f : Closure)
  deriving Inhabited

namespace Value

def kind : Value → Kind
  | string _ => .string
  | bool _ => .bool
  | rat _ => .rat
  | list _ => .list
  | map _ => .map
  | closure _ => .fn

def lastWhere (test : Value → Bool) : List (Value × Value) → Option Value
  | [] => none
  | (k, v) :: rest => (lastWhere test rest).or (if test k then some v else none)

mutual

/-- Structural equality; closures are compared by identity, and two maps are equal when each
key of either has equal values in both. -/
def equal : Value → Value → Bool
  | string a, string b => a == b
  | bool a, bool b => a == b
  | rat a, rat b => a == b
  | list xs, list ys => equalItems xs ys
  | map xs, map ys => covers xs ys && ys.all fun (k, _) => hasKey xs k
  | closure f, closure g => f.identity == g.identity
  | _, _ => false
termination_by structural a => a

def equalItems : List Value → List Value → Bool
  | [], [] => true
  | x :: xs, y :: ys => equal x y && equalItems xs ys
  | _, _ => false
termination_by structural a => a

def hasKey : List (Value × Value) → Value → Bool
  | [], _ => false
  | (k, _) :: rest, key => equal k key || hasKey rest key
termination_by structural a => a

def covers : List (Value × Value) → List (Value × Value) → Bool
  | [], _ => true
  | (k, v) :: rest, ys =>
    (hasKey rest k ||
      match lastWhere (fun key => equal k key) ys with
      | some w => equal v w
      | none => false) && covers rest ys
termination_by structural a => a

end

instance : BEq Value := ⟨equal⟩

def entries : List (Value × Value) → List (Value × Value)
  | [] => []
  | (k, v) :: rest => if hasKey rest k then entries rest else (k, v) :: entries rest

def lookup (pairs : List (Value × Value)) (key : Value) : Option Value :=
  lastWhere (· == key) pairs

def string? : Value → Option String
  | string s => some s
  | _ => none

end Value

end Conduit
