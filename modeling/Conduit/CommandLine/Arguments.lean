/-!
The arguments of the command line: `list [-l | --long]` or `call NAME ARGS...`, and in front of
either or behind it `--config FILE`.
-/

namespace Conduit.CommandLine

inductive Command
  | list (long : Bool)
  | call (name : String) (args : List String)
  deriving DecidableEq, Repr

structure Invocation where
  config : Option String
  command : Command
  deriving DecidableEq, Repr

def attached? (w : String) : Option String :=
  let mark := "--config=".toList
  if mark.isPrefixOf w.toList then some (String.ofList (w.toList.drop mark.length)) else none

def setConfig (config : Option String) (file : String) : Option (Option String) :=
  if config.isSome || file.isEmpty then none else some (some file)

def looksLikeOption (w : String) : Bool := w.startsWith "-" && w ≠ "-"

def parseList (config : Option String) (long : Bool) : List String → Option Invocation
  | [] => some ⟨config, .list long⟩
  | ["--"] => some ⟨config, .list long⟩
  | "--config" :: file :: rest =>
    if looksLikeOption file then none
    else (setConfig config file).bind fun config => parseList config long rest
  | w :: rest =>
    if w = "-l" ∨ w = "--long" then if long then none else parseList config true rest
    else (attached? w).bind fun file =>
      (setConfig config file).bind fun config => parseList config long rest

def parseCall (config : Option String) (name : Option String) (escaped : Bool) :
    List String → Option Invocation
  | [] => name.map fun name => ⟨config, .call name []⟩
  | w :: rest =>
    let positional :=
      match name with
      | none => parseCall config (some w) escaped rest
      | some name => some ⟨config, .call name (w :: rest)⟩
    if escaped then positional
    else if w = "--" then parseCall config name true rest
    else if w = "--config" then
      match rest with
      | [] => none
      | file :: rest =>
        if file = "--" ∨ file = "--config" ∨ (attached? file).isSome then none
        else (setConfig config file).bind fun config => parseCall config name false rest
    else
      match attached? w with
      | some file => (setConfig config file).bind fun config => parseCall config name false rest
      | none => positional

def withOuter (outer : Option String) (i : Invocation) : Invocation :=
  { i with config := i.config.or outer }

def parse (config : Option String) : List String → Option Invocation
  | [] => none
  | "list" :: rest => (parseList none false rest).map (withOuter config)
  | "call" :: rest => (parseCall none none false rest).map (withOuter config)
  | "--config" :: file :: rest =>
    if looksLikeOption file then none
    else (setConfig config file).bind fun config => parse config rest
  | w :: rest =>
    (attached? w).bind fun file => (setConfig config file).bind fun config => parse config rest

end Conduit.CommandLine
