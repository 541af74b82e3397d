import Conduit.Failure
import Conduit.Number.Binary64

/-!
Histories of visited directories.  A store answers from the visits it has been told of; the
store kept in memory counts them and ranks the paths by their scores.
-/

namespace Conduit

structure Visited where
  path : String
  score : Binary64
  deriving DecidableEq, Repr

structure StoreBehaviour where
  add : List String → String → Except StoreError Unit
  list : List String → Except StoreError (List Visited)
  find : List String → String → Except StoreError (List Visited)

structure DirectoryStore where
  behaviour : StoreBehaviour
  visits : List String := []

namespace DirectoryStore

/-- Every visit told of is part of the history, also one that the store fails to record. -/
def add (s : DirectoryStore) (path : String) : Except StoreError Unit × DirectoryStore :=
  (s.behaviour.add s.visits path, { s with visits := s.visits ++ [path] })

def list (s : DirectoryStore) : Except StoreError (List Visited) := s.behaviour.list s.visits

def find (s : DirectoryStore) (fragment : String) : Except StoreError (List Visited) :=
  s.behaviour.find s.visits fragment

def visitScore : Binary64 := .ofNat 10

def countVisit (scores : List Visited) (path : String) : List Visited :=
  match scores with
  | [] => [⟨path, .zero false + visitScore⟩]
  | v :: rest =>
    if v.path = path then { v with score := v.score + visitScore } :: rest
    else v :: countVisit rest path

def scores (visits : List String) : List Visited := visits.foldl countVisit []

def precedes (a b : Visited) : Bool :=
  match a.score.rank?, b.score.rank? with
  | some s, some t => t < s || (s = t && a.path ≤ b.path)
  | _, _ => a.path ≤ b.path

def sorted (keep : String → Bool) (entries : List Visited) : List Visited :=
  (entries.filter fun v => keep v.path).mergeSort precedes

def ranked (visits : List String) : List Visited := sorted (fun _ => true) (scores visits)

def occursIn (fragment : List Char) : List Char → Bool
  | [] => fragment.isEmpty
  | c :: cs => fragment.isPrefixOf (c :: cs) || occursIn fragment cs

def counting : StoreBehaviour where
  add _ _ := .ok ()
  list visits := .ok (ranked visits)
  find visits fragment :=
    .ok (sorted (fun path => occursIn fragment.toList path.toList) (scores visits))

def inMemory (visits : List String) : DirectoryStore := ⟨counting, visits⟩

end DirectoryStore

end Conduit
