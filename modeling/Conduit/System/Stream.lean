import Conduit.Port
import Conduit.System.Channel

/-!
Byte streams: readers with a buffer over bytes at hand or over a pipe, and writers into a sink
or into a pipe.  A pipe is a channel whose items are chunks of bytes.
-/

namespace Conduit

abbrev Bytes := List UInt8

inductive Source
  | fixed (rest : Bytes) (failure : Option String)
  | pipe (p : PipeId) (rest : Bytes)
  deriving Repr, Inhabited

structure ByteReader where
  source : Source
  bufferSize : Nat
  buffer : Bytes := []
  holders : Nat := 1
  deriving Repr, Inhabited

def ByteReader.standardBuffer : Nat := 8192

inductive Target
  | sink (written : Array UInt8) (writeError flushError : Option String)
  | pipe (p : PipeId)
  deriving Repr, Inhabited

structure ByteWriter where
  target : Target
  holders : Nat := 1
  deriving Repr, Inhabited

def pipeReaderGone : String := "pipe reader closed"

end Conduit
