import Conduit.Signal
import Conduit.Value.Basic

/-!
The line editor as builtins see it: it is asked to bind a key or to run a command, and answers
with a signal.
-/

namespace Conduit

inductive EditorRequest
  | bind (key command : String)
  | run (command : String) (args : List Value)

structure LineEditor where
  answer : List EditorRequest → EditorRequest → Signal
  history : List EditorRequest := []

def LineEditor.ask (e : LineEditor) (r : EditorRequest) : Signal × LineEditor :=
  (e.answer e.history r, { e with history := e.history ++ [r] })

end Conduit
