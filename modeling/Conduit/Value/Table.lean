import Conduit.Value.Basic

/-!
Tables that hold the pairs of a map: a pair is found by the hash of its key and then by equality,
under a hash function that may differ from one table to the next.
-/

namespace Conduit

inductive HashPiece
  | kind (k : Kind)
  | text (s : String)
  | flag (b : Bool)
  | ratio (q : Rat)
  | size (n : Nat)
  | identity (n : Nat)
  deriving DecidableEq

namespace Value

mutual

def pieces : Value → List HashPiece
  | string s => [.kind .string, .text s]
  | bool b => [.kind .bool, .flag b]
  | rat q => [.kind .rat, .ratio q]
  | list items => .kind .list :: .size items.length :: piecesOfItems items
  | map pairs => [.kind .map, .size (entries pairs).length]
  | closure f => [.kind .fn, .identity f.identity]
termination_by structural v => v

def piecesOfItems : List Value → List HashPiece
  | [] => []
  | v :: rest => pieces v ++ piecesOfItems rest
termination_by structural vs => vs

end

end Value

structure Table where
  hash : List HashPiece → UInt64
  pairs : List (Value × Value)

namespace Table

def stopsAt (t : Table) (key : Value) (p : Value × Value) : Bool :=
  t.hash p.1.pieces == t.hash key.pieces && key == p.1

def get? (t : Table) (key : Value) : Option Value := (t.pairs.find? (t.stopsAt key)).map (·.2)

def size (t : Table) : Nat := t.pairs.length

def put (t : Table) (key v : Value) : List (Value × Value) → List (Value × Value)
  | [] => [(key, v)]
  | p :: rest => if t.stopsAt key p then (p.1, v) :: rest else p :: put t key v rest

def insert (t : Table) (key v : Value) : Table := { t with pairs := t.put key v t.pairs }

def ofPairs (hash : List HashPiece → UInt64) (pairs : List (Value × Value)) : Table :=
  pairs.foldl (fun t p => t.insert p.1 p.2) ⟨hash, []⟩

def agrees (t t' : Table) : Bool :=
  t.size == t'.size && t.pairs.all fun (key, v) =>
    match t'.get? key with
    | some w => v == w
    | none => false

end Table

end Conduit
