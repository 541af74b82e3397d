import Conduit.Signal

/-!
The causes of failures and the texts that report them.
-/

namespace Conduit

inductive PortError
  | closed
  | readerGone
  | io (message : String)
  deriving DecidableEq, Repr

def PortError.message : PortError → String
  | closed => "port closed"
  | readerGone => "port reader gone"
  | io message => message

inductive StoreError
  | backend (message : String)
  deriving DecidableEq, Repr

def StoreError.message : StoreError → String
  | backend message => "store error: " ++ message

inductive RegistryError
  | duplicate (name : String)
  | emptyName
  deriving DecidableEq, Repr

def RegistryError.message : RegistryError → String
  | duplicate name => "builtin \x60" ++ name ++ "\x60 registered twice"
  | emptyName => "builtin name must not be empty"

inductive DirectoryError
  | notFound
  | notDirectory
  | nameTooLong
  | tooManyLinks
  | nulInName
  deriving DecidableEq, Repr

def DirectoryError.message : DirectoryError → String
  | notFound => "No such file or directory (os error 2)"
  | notDirectory => "Not a directory (os error 20)"
  | nameTooLong => "File name too long (os error 36)"
  | tooManyLinks => "Too many levels of symbolic links (os error 40)"
  | nulInName => "file name contained an unexpected NUL byte"

inductive BuiltinError
  | arguments
  | input
  | notRational (written : String)
  | port (e : PortError)
  | store (e : StoreError)
  | directory (e : DirectoryError)
  | external (message : String)
  | homeNotSet
  | storeNotConnected
  | noEditor
  | noEvaluator
  | noMatchingDirectory
  deriving DecidableEq, Repr

def BuiltinError.message : BuiltinError → String
  | arguments => "arguments error"
  | input => "input error"
  | notRational written => "cannot parse " ++ written ++ " as rat"
  | port e => e.message
  | store e => e.message
  | directory e => e.message
  | external message => message
  | homeNotSet => "HOME is not set"
  | storeNotConnected => "store not connected"
  | noEditor => "no line editor"
  | noEvaluator => "no evaluator"
  | noMatchingDirectory => "no matching directory"

def BuiltinError.signal (e : BuiltinError) : Signal := .failure e.message

def Signal.ofResult : Except BuiltinError Unit → Signal
  | .ok () => .ok
  | .error e => e.signal

end Conduit
