import Conduit.Number.Ratio
import Conduit.Text.Alphanumeric
import Conduit.Value.Basic

/-!
The written form of values, which quotes a string only where it has to, and the text of a
value, which for a string is the string itself.
-/

namespace Conduit

def isBare (c : Char) : Bool := Text.isAlphanumeric c || "-_./:%+,@!".toList.contains c

def quoted (cs : List Char) : List Char :=
  if !cs.isEmpty && cs.all isBare then cs
  else '\'' :: cs.flatMap (fun c => if c = '\'' then ['\'', '\''] else [c]) ++ ['\'']

namespace Value

def between (left : String) (items : List String) (right : String) : String :=
  left ++ String.intercalate " " items ++ right

mutual

def repr : Value → String
  | string s => String.ofList (quoted s.toList)
  | bool true => "$true"
  | bool false => "$false"
  | rat q => Ratio.format q
  | list items => between "[" (reprItems items) "]"
  | map [] => "[&]"
  | map pairs => between "[" ((reprEntries pairs).mergeSort fun a b => a ≤ b) "]"
  | closure _ => "<closure>"
termination_by structural v => v

def reprItems : List Value → List String
  | [] => []
  | v :: rest => repr v :: reprItems rest
termination_by structural vs => vs

def reprEntries : List (Value × Value) → List String
  | [] => []
  | (k, v) :: rest =>
    if hasKey rest k then reprEntries rest
    else ("&" ++ repr k ++ "=" ++ repr v) :: reprEntries rest
termination_by structural ps => ps

end

def text : Value → String
  | string s => s
  | v => v.repr

def rat? : Value → Option Rat
  | rat q => some q
  | string s => Ratio.parse? s
  | _ => none

end Value

end Conduit
