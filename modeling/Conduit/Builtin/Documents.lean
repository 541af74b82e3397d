import Conduit.Builtin.Effect
import Conduit.Json.Decode

/-!
The builtin that decodes the JSON documents of the input bytes.  It reads no byte that it does
not need: after an error, and at the end of a document, the rest stays for the next reader.
-/

namespace Conduit.Builtin

open Effect
open Json (Cursor Position)
open Proc (ask iterate)

structure DocumentStart where
  peeked : Option UInt8 := none
  position : Position := {}
  read : Bytes := []

def DocumentStart.cursor (s : DocumentStart) (bytes : Bytes) (ending : Json.Ending) : Cursor :=
  { rest := bytes, ending, peeked := s.peeked, position := s.position }

def afterDocument (ctx : Context) :
    Json.Result (Option Json) → Proc (DocumentStart ⊕ Except BuiltinError Unit)
  | .ok none _ => pure (.inr (.ok ()))
  | .ok (some j) c => do
    match ← (emit ctx j.toValue).run with
    | .ok () => pure (.inl { peeked := c.peeked, position := c.position })
    | .error e => pure (.inr (.error e))
  | .failed e _ => pure (.inr (.error (.external e.message)))
  | .starved => pure (.inr (.ok ()))

def unread : Json.Result (Option Json) → Bytes
  | .ok _ c | .failed _ c => c.rest
  | .starved => []

def atHand : Except String Bytes → Bytes × Json.Ending
  | .error message => ([], .failing message)
  | .ok [] => ([], .finished)
  | .ok chunk => (chunk, .open)

def nextDocument (ctx : Context) (r : ReaderId) (s : DocumentStart) :
    Proc (DocumentStart ⊕ Except BuiltinError Unit) :=
  match Json.Decoder.document (s.cursor s.read .open) with
  | .starved => do
    let (chunk, ending) := atHand (← ask (.fill r))
    match Json.Decoder.document (s.cursor (s.read ++ chunk) ending) with
    | .starved => do
      ask (.consume r chunk.length)
      pure (.inl { s with read := s.read ++ chunk })
    | result => do
      ask (.consume r (chunk.length - (unread result).length))
      afterDocument ctx result
  | result => afterDocument ctx result

def fromJson (ctx : Context) : Proc Signal :=
  match ctx.input.stream with
  | .reading r => Effect.signal <| ExceptT.mk <| iterate ({} : DocumentStart) (nextDocument ctx r)
  | _ => pure .ok

end Conduit.Builtin
