import Conduit.Proc.Basic
import Conduit.Text.Utf8

/-!
What the holder of a port does with its ends.  A closed end, or one of the wrong side, reads as
at its end and refuses every write.
-/

namespace Conduit

open Proc (ask iterate)

abbrev PortEffect := ExceptT PortError Proc

namespace ChannelEnd

def take : ChannelEnd → Proc (Option Value)
  | reading c => ask (.take c)
  | _ => pure none

def put (e : ChannelEnd) (v : Value) : PortEffect Unit :=
  match e with
  | writing c => do
    let ticket ← ExceptT.mk (ask (.offer c v))
    ExceptT.mk (ask (.settle c ticket))
  | _ => throw .closed

def hold (e : ChannelEnd) : Proc Unit := ask (.holdChannel e)

def release (e : ChannelEnd) : Proc Unit := ask (.releaseChannel e)

def takeAll (e : ChannelEnd) : Proc (List Value) :=
  iterate [] fun taken => do
    match ← e.take with
    | some v => pure (.inl (taken ++ [v]))
    | none => pure (.inr taken)

end ChannelEnd

namespace StreamEnd

def write (e : StreamEnd) (bytes : Bytes) : PortEffect Unit :=
  match e with
  | writing w =>
    ExceptT.adapt PortError.io do
      unless bytes.isEmpty do
        let ticket ← ExceptT.mk (ask (.offerBytes w bytes))
        ExceptT.mk (ask (.settleBytes w ticket))
      ExceptT.mk (ask (.flush w))
  | _ => throw .closed

def writeText (e : StreamEnd) (text : String) : PortEffect Unit := e.write (Utf8.encode text)

def newline : UInt8 := 0x0a

def throughNewline? (chunk : Bytes) : Option Bytes :=
  let line := chunk.takeWhile (· ≠ newline)
  if line.length = chunk.length then none else some (line ++ [newline])

def readLine (e : StreamEnd) : Proc (Bytes × Option String) :=
  match e with
  | reading r =>
    iterate ([] : Bytes) fun read => do
      match ← ask (.fill r) with
      | .error message => pure (.inr (read, some message))
      | .ok [] => pure (.inr (read, none))
      | .ok chunk =>
        match throughNewline? chunk with
        | some line => do
          ask (.consume r line.length)
          pure (.inr (read ++ line, none))
        | none => do
          ask (.consume r chunk.length)
          pure (.inl (read ++ chunk))
  | _ => pure ([], none)

def readTextLine (e : StreamEnd) : Proc (String × Except String Nat) := do
  let (bytes, failure) ← e.readLine
  let size := match failure with
    | some message => .error message
    | none => .ok bytes.length
  match Utf8.decode? bytes with
  | some text => pure (text, size)
  | none => pure ("", .error (failure.getD Utf8.notText))

def readSome (e : StreamEnd) (n : Nat) : Proc (Except String Bytes) :=
  match e with
  | reading r => ask (.read r n)
  | _ => pure (.ok [])

def hold (e : StreamEnd) : Proc Unit := ask (.holdStream e)

def release (e : StreamEnd) : Proc Unit := ask (.releaseStream e)

end StreamEnd

namespace Port

def hold (p : Port) : Proc Unit := do
  p.channel.hold
  p.stream.hold

def release (p : Port) : Proc Unit := do
  p.channel.release
  p.stream.release

def conduit (channelCapacity pipeCapacity : Nat) : Proc (Port × Port) := do
  let c ← ask (.newChannel { capacity := some channelCapacity })
  let (w, r) ← ask (.newPipe pipeCapacity ByteReader.standardBuffer)
  pure (⟨.writing c, .writing w⟩, ⟨.reading c, .reading r⟩)

end Port

end Conduit
