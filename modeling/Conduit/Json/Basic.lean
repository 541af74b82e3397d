import Conduit.Number.Shortest
import Conduit.Value.Basic

/-!
JSON documents, and the values that stand for them.
-/

namespace Conduit

inductive Json
  | null
  | bool (b : Bool)
  | number (x : Binary64)
  | string (s : String)
  | array (items : List Json)
  | object (fields : List (String × Json))
  deriving Inhabited

namespace Json

mutual

def toValue : Json → Value
  | null => .string ""
  | bool b => .bool b
  | number x => .string x.format
  | string s => .string s
  | array items => .list (itemValues items)
  | object fields => .map (fieldValues fields)
termination_by structural j => j

def itemValues : List Json → List Value
  | [] => []
  | j :: rest => toValue j :: itemValues rest
termination_by structural js => js

def fieldValues : List (String × Json) → List (Value × Value)
  | [] => []
  | (k, j) :: rest => (.string k, toValue j) :: fieldValues rest
termination_by structural fs => fs

end

end Json

end Conduit
