import Conduit.Builtin.Effect

/-!
Builtins that hand their work to the line editor or to an evaluator of scripts.
-/

namespace Conduit.Builtin

open Proc (ask runHost)

def askEditor (ctx : Context) (r : EditorRequest) : Proc Signal :=
  match ctx.editor with
  | some editor => ask (.askEditor editor r)
  | none => pure BuiltinError.noEditor.signal

def bindKey (ctx : Context) (key command : String) : Proc Signal :=
  askEditor ctx (.bind key command)

def editorCommand (ctx : Context) (command : String) (args : List Value) : Proc Signal :=
  askEditor ctx (.run command args)

def source (ctx : Context) (path : String) : Proc Signal :=
  match ctx.evaluator with
  | some e => runHost (.script e ctx path)
  | none => pure BuiltinError.noEvaluator.signal

end Conduit.Builtin
