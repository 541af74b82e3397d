import Conduit.Pipeline
import Conduit.Value.Basic

/-!
A small language of statements, in which the bodies of closures and the contents of scripts are
written.
-/

namespace Conduit.Script

inductive Expr
  | value (v : Value)
  | var (name : String)
  | arg (i : Nat)
  | list (items : List Expr)
  | map (pairs : List (Expr × Expr))
  deriving Inhabited

structure Feed where
  values : Option (List Expr) := none
  bytes : Option Bytes := none
  failure : Option String := none

inductive Statement
  | call (name : String) (args : List Expr) (feed : Option Feed) (capture : Option String)
  | set (var : String) (value : Expr)
  | name (var : String)
  | branch (left right : Expr) (whenEqual otherwise : List Statement)
  | invoke (function : Expr) (args : List Expr)
  | pipeline (stages : List (String × List Expr)) (capacities : Capacities)
  deriving Inhabited

inductive Error
  | unboundVariable (name : String)
  | noArgument (i : Nat)
  | unknownBuiltin (name : String)
  | notFunction
  | noScript (path : String)
  deriving DecidableEq, Repr

def Error.message : Error → String
  | unboundVariable name => "unbound variable: " ++ name
  | noArgument i => "no argument " ++ toString i
  | unknownBuiltin name => "unknown builtin " ++ name
  | notFunction => "not a function"
  | noScript path => "no script " ++ path

def Error.signal (e : Error) : Signal := .failure e.message

end Conduit.Script
