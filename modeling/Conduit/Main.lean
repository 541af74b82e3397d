import Conduit.CommandLine.Run

/-!
The command line program: it reads what a run depends on, and writes what the run reports.
-/

namespace Conduit.CommandLine

def stepLimit : Nat := 1000000000000000000

def reason : IO.Error → String
  | .noFileOrDirectory _ _ _ => DirectoryError.notFound.message
  | .permissionDenied _ code text => words code text
  | .inappropriateType _ code text => words code text
  | .invalidArgument _ code text => words code text
  | .otherError code text => words code text
  | e => toString e
where
  words (code : UInt32) (text : String) : String :=
    text ++ " (os error " ++ toString code ++ ")"

def readText (path : String) : IO (Except String String) := do
  try
    let bytes ← IO.FS.readBinFile path
    match Utf8.decode? bytes.data.toList with
    | some text => return .ok text
    | none => return .error Utf8.notText
  catch e => return .error (reason e)

def survey (files : FileSystem) (place : Path) : IO FileSystem := do
  try
    let found ← IO.FS.realPath place.text
    if ← found.isDir then return files.addDirectory place
    else return { files with files := files.files ++ [place] }
  catch _ => return files

def filesFor (command : Command) : IO FileSystem := do
  let here := ((← IO.currentDir).toString.splitOn "/").filter (· ≠ "")
  let home ← IO.getEnv "HOME"
  let files := { FileSystem.addDirectory {} here with current := here, home }
  (command.placesOnTheWay files).foldlM survey files

def runCommand (i : Invocation) : IO UInt32 := do
  let config ← match i.config with
    | none => pure none
    | some path => do pure (some (path, ← readText path))
  let input ← match i.command with
    | .list _ => pure []
    | .call _ _ => do pure (← (← IO.getStdin).readBinToEnd).data.toList
  write (report stepLimit i.command config input (← filesFor i.command))
where
  write (r : Report) : IO UInt32 := do
    (← IO.getStdout).write ⟨r.out.toArray⟩
    (← IO.getStderr).write ⟨r.err.toArray⟩
    return r.code.toUInt32

end Conduit.CommandLine

def main (args : List String) : IO UInt32 :=
  match Conduit.CommandLine.parse none args with
  | some i => Conduit.CommandLine.runCommand i
  | none => Conduit.CommandLine.runCommand.write Conduit.CommandLine.usage
