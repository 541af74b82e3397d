import Conduit.Builtin.Basic

/-!
Registries: builtins in the order of their registration, each under a name of its own, with an index
of the places of the names.
-/

namespace Conduit

structure Registry where
  builtins : List Builtin
  index : List (String × Nat)

namespace Registry

def empty : Registry := ⟨[], []⟩

def names (r : Registry) : List String := r.builtins.map Builtin.name

def size (r : Registry) : Nat := r.builtins.length

def place? (r : Registry) (name : String) : Option Nat := r.index.lookup name

def get? (r : Registry) (name : String) : Option Builtin :=
  (r.place? name).bind fun place => r.builtins[place]?

def enter (r : Registry) (b : Builtin) : Registry :=
  ⟨r.builtins ++ [b], (b.name, r.size) :: r.index⟩

def register (r : Registry) (b : Builtin) : Except RegistryError Unit × Registry :=
  if b.name.isEmpty then (.error .emptyName, r)
  else if (r.place? b.name).isSome then (.error (.duplicate b.name), r)
  else (.ok (), r.enter b)

def registerAll (r : Registry) : List Builtin → List (Except RegistryError Unit) × Registry
  | [] => ([], r)
  | b :: bs =>
    let (answer, r) := r.register b
    let (answers, r) := r.registerAll bs
    (answer :: answers, r)

def ofList (bs : List Builtin) : Registry := (empty.registerAll bs).2

end Registry

end Conduit
