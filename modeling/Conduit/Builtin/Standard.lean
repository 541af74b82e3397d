import Conduit.Builtin.Arithmetic
import Conduit.Builtin.Collaborators
import Conduit.Builtin.ControlFlow
import Conduit.Builtin.Directories
import Conduit.Builtin.Documents
import Conduit.Builtin.Registry
import Conduit.Builtin.Text
import Conduit.Builtin.Values

/-!
The standard builtins, in the order in which they are listed.
-/

namespace Conduit.Builtin

open ParamKind (text number)

def anyValue : ParamKind := .value none

def ofList : ParamKind := .value (some .list)

def ofFunction : ParamKind := .value (some .fn)

def standard : List Builtin := [
  raw ":" nop,
  raw "true" nop,
  raw "put" put,
  variadic "put-all" [] ofList putAll,
  fixed "unpack" [] unpack,
  raw "typeof" typeOf,
  fixed "rat" [anyValue] toRational,
  raw "=" equality,
  variadic "print" [] text print,
  variadic "println" [] text println,
  fixed "into-lines" [] intoLines,
  fixed "from-lines" [] fromLines,
  fixed "from-json" [] fromJson,
  fixed "-stack" [] stack,
  fixed "failure" [text] failure,
  fixed "return" [] (flow .return),
  fixed "break" [] (flow .break),
  fixed "continue" [] (flow .continue),
  fixed "each" [ofFunction] each,
  variadic "+" [] number sum,
  variadic "-" [number] number difference,
  variadic "*" [] number product,
  variadic "/" [number] number quotient,
  raw "cd" cd,
  fixed "visited-dirs" [] visitedDirectories,
  fixed "jump-dir" [text] jumpDirectory,
  fixed "bind" [text, text] bindKey,
  variadic "le" [text] anyValue editorCommand,
  fixed "source" [text] source]

end Conduit.Builtin

namespace Conduit.Registry

def standard : Registry := ofList Builtin.standard

end Conduit.Registry
