import Conduit.Builtin.Standard
import Conduit.CommandLine.Arguments
import Conduit.CommandLine.Call
import Conduit.CommandLine.Settings
import Conduit.Proc.Run

/-!
What a run of the program writes and how it ends.
-/

namespace Conduit.CommandLine

structure Report where
  code : Nat
  out : Bytes := []
  err : Bytes := []
  deriving DecidableEq, Repr

def listLines (r : Registry) (long : Bool) : List String :=
  r.builtins.map fun b => if long then b.name ++ "\t" ++ b.signature.display else b.name

def errorLine (message : String) : Bytes := Utf8.encode ("error: " ++ message ++ "\n")

def usage : Report :=
  { code := 2, err := Utf8.encode "usage: [--config FILE] list [--long] | call NAME [ARGS...]\n" }

def callReport? (fuel : Nat) (b : Builtin) (args : List String) (capacities : Capacities)
    (input : Bytes) (files : FileSystem) : Option (Signal × Bytes × Bytes) :=
  let s : System := { files }
  let source := Source.fixed input none
  let (r, s) := s.addReader { source, bufferSize := ByteReader.standardBuffer }
  let (w, s) := s.addWriter { target := .sink #[] none none }
  let (a, s) := s.addWriter { target := .sink #[] none none }
  let call := callBuiltin b args capacities (.reading r) (.writing w) (.writing a)
  match call.run Host.none fuel s with
  | (some (.returned signal), s) =>
    let (out, s) := s.drainSink w
    let (aux, _) := s.drainSink a
    some (signal, out, aux)
  | _ => none

inductive ConfigError
  | unreadable (path reason : String)
  | invalid (path : String)
  deriving DecidableEq, Repr

def ConfigError.message : ConfigError → String
  | unreadable path reason => "cannot read config file '" ++ path ++ "': " ++ reason
  | invalid path => "invalid config file '" ++ path ++ "': "

def settings (config : Option (String × Except String String)) : Except ConfigError Settings :=
  match config with
  | none => .ok {}
  | some (path, .error reason) => .error (.unreadable path reason)
  | some (path, .ok text) =>
    match Settings.parse? text with
    | some s => .ok s
    | none => .error (.invalid path)

def Command.target? (files : FileSystem) : Command → Option String
  | .call "cd" [] => files.home
  | .call "cd" [text] => some text
  | _ => none

def Command.placesOnTheWay (c : Command) (files : FileSystem) : List Path :=
  match c.target? files with
  | none => []
  | some text =>
    let (base, names) := FileSystem.start files.current text
    along base names
where
  along (base : Path) : List String → List Path
    | [] => [base]
    | name :: rest =>
      if name = "" ∨ name = "." then along base rest
      else if name = ".." then along base.dropLast rest
      else base :: along (base ++ [name]) rest

def perform (fuel : Nat) (s : Settings) (input : Bytes) (files : FileSystem) : Command → Report
  | .list long =>
    { code := 0, out := Utf8.encode (String.join ((listLines .standard long).map Builtin.line)) }
  | .call name args =>
    match Registry.standard.get? name with
    | none => { code := 1, err := errorLine ("unknown builtin '" ++ name ++ "'") }
    | some b =>
      match callReport? fuel b args s.capacities input files with
      | none => { code := 1, err := errorLine "the call does not end" }
      | some (signal, out, aux) =>
        match exitMessage? signal with
        | none => { code := 0, out, err := aux }
        | some message => { code := 1, out, err := aux ++ errorLine message }

def report (fuel : Nat) (command : Command) (config : Option (String × Except String String))
    (input : Bytes) (files : FileSystem) : Report :=
  match settings config with
  | .error e => { code := 1, err := errorLine e.message }
  | .ok s => perform fuel s input files command

end Conduit.CommandLine
