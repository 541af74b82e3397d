import Conduit.Value.Basic

/-!
Ports: what one holder has of a conduit.  The channel end carries values and the stream end
carries bytes; each is the reading or the writing side of something shared, or closed.
-/

namespace Conduit

structure ChannelId where
  index : Nat
  deriving DecidableEq, Repr, Inhabited

structure PipeId where
  index : Nat
  deriving DecidableEq, Repr, Inhabited

structure ReaderId where
  index : Nat
  deriving DecidableEq, Repr, Inhabited

structure WriterId where
  index : Nat
  deriving DecidableEq, Repr, Inhabited

inductive ChannelEnd
  | closed
  | reading (c : ChannelId)
  | writing (c : ChannelId)
  deriving DecidableEq, Repr, Inhabited

namespace ChannelEnd

def canRead : ChannelEnd → Bool
  | reading _ => true
  | _ => false

def canWrite : ChannelEnd → Bool
  | writing _ => true
  | _ => false

end ChannelEnd

inductive StreamEnd
  | closed
  | reading (r : ReaderId)
  | writing (w : WriterId)
  deriving DecidableEq, Repr, Inhabited

namespace StreamEnd

def canRead : StreamEnd → Bool
  | reading _ => true
  | _ => false

def canWrite : StreamEnd → Bool
  | writing _ => true
  | _ => false

end StreamEnd

structure Port where
  channel : ChannelEnd
  stream : StreamEnd
  deriving DecidableEq, Repr, Inhabited

def Port.closed : Port := ⟨.closed, .closed⟩

end Conduit
