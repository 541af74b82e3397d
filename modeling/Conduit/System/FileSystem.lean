import Conduit.Failure

/-!
The part of a file system that changing the working directory depends on: which paths are
directories, files or symbolic links, and where the process is.
-/

namespace Conduit

abbrev Path := List String

def Path.text (p : Path) : String := "/" ++ String.intercalate "/" p

structure FileSystem where
  directories : List Path := []
  files : List Path := []
  links : List (Path × String) := []
  /-- The working directory, which may have been removed since it was entered. -/
  current : Path := []
  home : Option String := none
  deriving Repr, Inhabited

namespace FileSystem

def isDirectory (fs : FileSystem) (p : Path) : Bool := p.isEmpty || fs.directories.contains p

def linkLimit : Nat := 40

def nameLimit : Nat := 255

def pathLimit : Nat := 4095

def start (base : Path) (text : String) : Path × List String :=
  (if text.startsWith "/" then [] else base, text.splitOn "/")

/-- The directory that the names lead to, each symbolic link replaced by its target where it
stands.  A directory that was removed while it was entered has no names in it, but it still
leads to itself and to its parent. -/
def resolve (fs : FileSystem) (links : Nat) (base : Path) :
    List String → Except DirectoryError Path
  | [] => .ok base
  | name :: rest =>
    if name = "" ∨ name = "." then resolve fs links base rest
    else if name = ".." then resolve fs links base.dropLast rest
    else if !fs.isDirectory base then .error .notFound
    else if nameLimit < name.utf8ByteSize then .error .nameTooLong
    else
      let p := base ++ [name]
      match fs.links.lookup p with
      | some target =>
        match links with
        | 0 => .error .tooManyLinks
        | links + 1 =>
          let (base, names) := start base target
          resolve fs links base (names ++ rest)
      | none =>
        if fs.isDirectory p then resolve fs links p rest
        else .error (if fs.files.contains p then .notDirectory else .notFound)
termination_by names => (links, names.length)

def find (fs : FileSystem) (text : String) : Except DirectoryError Path :=
  if text.contains '\x00' then .error .nulInName
  else if text.isEmpty then .error .notFound
  else if pathLimit < text.utf8ByteSize then .error .nameTooLong
  else
    let (base, names) := start fs.current text
    fs.resolve linkLimit base names

def enter (fs : FileSystem) (text : String) : Except DirectoryError FileSystem :=
  (fs.find text).map fun p => { fs with current := p }

def workingDirectory? (fs : FileSystem) : Option String :=
  if fs.isDirectory fs.current then some (Path.text fs.current) else none

def addDirectory (fs : FileSystem) (p : Path) : FileSystem :=
  let upwards := (List.range p.length).map fun n => p.take (n + 1)
  { fs with directories := fs.directories ++ upwards.filter (!fs.directories.contains ·) }

def isEmptyDirectory (fs : FileSystem) (p : Path) : Bool :=
  let inside (q : Path) := p.length < q.length && p.isPrefixOf q
  !(fs.directories.any inside || fs.files.any inside || fs.links.any (inside ·.1))

def remove? (fs : FileSystem) (text : String) : Option FileSystem :=
  let (base, names) := start fs.current text
  match (names.reverse.dropWhile (· = "")) with
  | [] => none
  | name :: above =>
    match fs.resolve linkLimit base above.reverse with
    | .error _ => none
    | .ok parent =>
      let p := parent ++ [name]
      if name ≠ "." ∧ name ≠ ".." ∧ fs.directories.contains p ∧ fs.isEmptyDirectory p then
        some { fs with directories := fs.directories.erase p }
      else none

end FileSystem

end Conduit
