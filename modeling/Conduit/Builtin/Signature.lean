import Conduit.Number.Literal
import Conduit.Value.Repr

/-!
Signatures: how many arguments a builtin takes, of which kinds, and what it gets in their place.
-/

namespace Conduit

inductive ParamKind
  | text
  | number
  | value (kind : Option Kind)
  deriving DecidableEq, Repr

namespace ParamKind

def name : ParamKind → String
  | text => "text"
  | number => "number"
  | value none => "value"
  | value (some k) => k.name

abbrev OfKind : Kind → Type
  | .string => String
  | .bool => Bool
  | .rat => Rat
  | .list => List Value
  | .map => List (Value × Value)
  | .fn => Closure

abbrev Carrier : ParamKind → Type
  | text => String
  | number => Binary64
  | value none => Value
  | value (some k) => OfKind k

def ofKind? : (k : Kind) → Value → Option (OfKind k)
  | .string, .string s => some s
  | .bool, .bool b => some b
  | .rat, .rat q => some q
  | .list, .list items => some items
  | .map, .map pairs => some pairs
  | .fn, .closure f => some f
  | _, _ => none

def coerce? : (k : ParamKind) → Value → Option k.Carrier
  | text, v => some v.text
  | number, v => v.string?.bind Binary64.parse?
  | value none, v => some v
  | value (some k), v => ofKind? k v

end ParamKind

structure Signature where
  required : List ParamKind
  rest : Option ParamKind
  deriving DecidableEq, Repr

namespace Signature

def raw : Signature := ⟨[], some (.value none)⟩

def isVariadic (s : Signature) : Bool := s.rest.isSome

def accepts (s : Signature) (count : Nat) : Bool :=
  if s.isVariadic then s.required.length ≤ count else count = s.required.length

def display (s : Signature) : String :=
  let rest := s.rest.toList.map fun k => k.name ++ "..."
  "(" ++ String.intercalate " " (s.required.map ParamKind.name ++ rest) ++ ")"

end Signature

end Conduit
