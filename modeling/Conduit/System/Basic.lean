import Conduit.Context
import Conduit.System.DirectoryStore
import Conduit.System.FileSystem
import Conduit.System.LineEditor
import Conduit.System.Scope
import Conduit.System.Stream

/-!
The system: all that calls share and act on.  Every operation here is one indivisible step; one
that has to wait for another holder answers none and changes nothing.
-/

namespace Conduit

structure System where
  scopes : ScopeTable := {}
  channels : Array (Channel Value) := #[]
  pipes : Array (Channel Bytes) := #[]
  readers : Array ByteReader := #[]
  writers : Array ByteWriter := #[]
  stores : Array DirectoryStore := #[]
  editors : Array LineEditor := #[]
  files : FileSystem := {}

namespace System

/-! ### Making conduits -/

def addChannel (s : System) (c : Channel Value) : ChannelId × System :=
  (⟨s.channels.size⟩, { s with channels := s.channels.push c })

def addReader (s : System) (r : ByteReader) : ReaderId × System :=
  (⟨s.readers.size⟩, { s with readers := s.readers.push r })

def addWriter (s : System) (w : ByteWriter) : WriterId × System :=
  (⟨s.writers.size⟩, { s with writers := s.writers.push w })

def addStore (s : System) (d : DirectoryStore) : StoreId × System :=
  (⟨s.stores.size⟩, { s with stores := s.stores.push d })

def addEditor (s : System) (e : LineEditor) : EditorId × System :=
  (⟨s.editors.size⟩, { s with editors := s.editors.push e })

def addPipe (s : System) (capacity bufferSize : Nat) : (WriterId × ReaderId) × System :=
  let p : PipeId := ⟨s.pipes.size⟩
  let s := { s with pipes := s.pipes.push { capacity := some capacity } }
  let (w, s) := s.addWriter { target := .pipe p }
  let (r, s) := s.addReader { source := .pipe p [], bufferSize }
  ((w, r), s)

/-! ### Holding and releasing ends -/

def onChannel (s : System) (c : ChannelId) (f : Channel Value → Channel Value) : System :=
  { s with channels := s.channels.modify c.index f }

def onPipe (s : System) (p : PipeId) (f : Channel Bytes → Channel Bytes) : System :=
  { s with pipes := s.pipes.modify p.index f }

def onReader (s : System) (r : ReaderId) (f : ByteReader → ByteReader) : System :=
  { s with readers := s.readers.modify r.index f }

def onWriter (s : System) (w : WriterId) (f : ByteWriter → ByteWriter) : System :=
  { s with writers := s.writers.modify w.index f }

def holdChannel (s : System) : ChannelEnd → System
  | .closed => s
  | .reading c => s.onChannel c (·.addReader)
  | .writing c => s.onChannel c (·.addWriter)

def releaseChannel (s : System) : ChannelEnd → System
  | .closed => s
  | .reading c => s.onChannel c (·.dropReader)
  | .writing c => s.onChannel c (·.dropWriter)

def holdStream (s : System) : StreamEnd → System
  | .closed => s
  | .reading r => s.onReader r fun x => { x with holders := oneMore x.holders }
  | .writing w => s.onWriter w fun x => { x with holders := oneMore x.holders }

/-- The last holder of a reader or writer takes its side of the pipe behind it along. -/
def releaseStream (s : System) : StreamEnd → System
  | .closed => s
  | .reading r =>
    let s' := s.onReader r fun x => { x with holders := x.holders - 1 }
    match s.readers[r.index]? with
    | some { holders := 1, source := .pipe p _, .. } => s'.onPipe p (·.dropReader)
    | _ => s'
  | .writing w =>
    let s' := s.onWriter w fun x => { x with holders := x.holders - 1 }
    match s.writers[w.index]? with
    | some { holders := 1, target := .pipe p } => s'.onPipe p (·.dropWriter)
    | _ => s'

/-! ### Values -/

def takeValue? (s : System) (c : ChannelId) : Option (Option Value × System) :=
  match s.channels[c.index]? with
  | none => some (none, s)
  | some ch => ch.take?.map fun (v, ch) => (v, s.onChannel c fun _ => ch)

def offerValue (s : System) (c : ChannelId) (v : Value) : Except PortError Nat × System :=
  match (s.channels[c.index]?).bind (·.offer? v) with
  | none => (.error .readerGone, s)
  | some ch => (.ok ch.offered, s.onChannel c fun _ => ch)

def settleValue? (s : System) (c : ChannelId) (ticket : Nat) : Option (Except PortError Unit) :=
  match s.channels[c.index]? with
  | none => some (.error .readerGone)
  | some ch =>
    (ch.settled? ticket).map fun accepted => if accepted then .ok () else .error .readerGone

/-! ### Bytes -/

def source? (s : System) (r : ReaderId) : Option Source := (s.readers[r.index]?).map (·.source)

def target? (s : System) (w : WriterId) : Option Target := (s.writers[w.index]?).map (·.target)

def readSource? (s : System) (r : ReaderId) (n : Nat) : Option (Except String Bytes × System) :=
  let keep (s : System) (source : Source) : System := s.onReader r ({ · with source })
  match s.source? r with
  | none => some (.ok [], s)
  | some (.fixed [] (some message)) => some (.error message, s)
  | some (.fixed rest failure) => some (.ok (rest.take n), keep s (.fixed (rest.drop n) failure))
  | some (.pipe p rest) =>
    if n = 0 then some (.ok [], s)
    else if !rest.isEmpty then some (.ok (rest.take n), keep s (.pipe p (rest.drop n)))
    else
      match s.pipes[p.index]? with
      | none => some (.ok [], s)
      | some ch => ch.take?.map fun
        | (none, _) => (.ok [], s)
        | (some chunk, ch) =>
          (.ok (chunk.take n), keep (s.onPipe p fun _ => ch) (.pipe p (chunk.drop n)))

def fillBuffer? (s : System) (r : ReaderId) : Option (Except String Bytes × System) :=
  match s.readers[r.index]? with
  | none => some (.ok [], s)
  | some reader =>
    if !reader.buffer.isEmpty then some (.ok reader.buffer, s)
    else (s.readSource? r reader.bufferSize).map fun
      | (.ok bytes, s) => (.ok bytes, s.onReader r ({ · with buffer := bytes }))
      | failed => failed

def consume (s : System) (r : ReaderId) (n : Nat) : System :=
  s.onReader r fun x => { x with buffer := x.buffer.drop n }

def readSome? (s : System) (r : ReaderId) (n : Nat) : Option (Except String Bytes × System) :=
  match s.readers[r.index]? with
  | none => some (.ok [], s)
  | some reader =>
    if reader.buffer.isEmpty && reader.bufferSize ≤ n then s.readSource? r n
    else (s.fillBuffer? r).map fun
      | (.ok bytes, s) => (.ok (bytes.take n), s.consume r n)
      | failed => failed

def offerBytes (s : System) (w : WriterId) (bytes : Bytes) : Except String Nat × System :=
  match s.target? w with
  | none => (.error pipeReaderGone, s)
  | some (.sink _ (some message) _) => (.error message, s)
  | some (.sink written none flushError) =>
    (.ok 0, s.onWriter w ({ · with target := .sink (written ++ bytes) none flushError }))
  | some (.pipe p) =>
    match (s.pipes[p.index]?).bind (·.offer? bytes) with
    | none => (.error pipeReaderGone, s)
    | some ch => (.ok ch.offered, s.onPipe p fun _ => ch)

def settleBytes? (s : System) (w : WriterId) (ticket : Nat) : Option (Except String Unit) :=
  match s.target? w with
  | some (.pipe p) =>
    match s.pipes[p.index]? with
    | none => some (.error pipeReaderGone)
    | some ch =>
      (ch.settled? ticket).map fun accepted => if accepted then .ok () else .error pipeReaderGone
  | _ => some (.ok ())

def flush (s : System) (w : WriterId) : Except String Unit :=
  match s.target? w with
  | some (.sink _ _ (some message)) => .error message
  | _ => .ok ()

/-! ### Looking from outside -/

def drainChannel (s : System) (c : ChannelId) : List Value × System :=
  match s.channels[c.index]? with
  | none => ([], s)
  | some ch =>
    (ch.queue, s.onChannel c fun ch => { ch with queue := [], taken := ch.offered })

def drainSink (s : System) (w : WriterId) : Bytes × System :=
  match s.target? w with
  | some (.sink written writeError flushError) =>
    (written.toList, s.onWriter w ({ · with target := .sink #[] writeError flushError }))
  | _ => ([], s)

end System

end Conduit
