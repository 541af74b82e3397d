import Conduit.System.Basic

/-!
Requests: the single steps by which a running call acts on the system, with the reply that each
one is answered by.
-/

namespace Conduit

inductive Request
  | newScope (parent : Option ScopeId)
  | getVar (scope : ScopeId) (name : String)
  | setVar (scope : ScopeId) (name : String) (v : Value)
  | newChannel (c : Channel Value)
  | newPipe (capacity bufferSize : Nat)
  | newReader (r : ByteReader)
  | newStore (d : DirectoryStore)
  | holdChannel (e : ChannelEnd)
  | releaseChannel (e : ChannelEnd)
  | holdStream (e : StreamEnd)
  | releaseStream (e : StreamEnd)
  | take (c : ChannelId)
  | offer (c : ChannelId) (v : Value)
  | settle (c : ChannelId) (ticket : Nat)
  | fill (r : ReaderId)
  | consume (r : ReaderId) (n : Nat)
  | read (r : ReaderId) (n : Nat)
  | offerBytes (w : WriterId) (bytes : Bytes)
  | settleBytes (w : WriterId) (ticket : Nat)
  | flush (w : WriterId)
  | home
  | workingDirectory
  | enterDirectory (path : String)
  | addVisit (store : StoreId) (path : String)
  | listVisited (store : StoreId)
  | findVisited (store : StoreId) (fragment : String)
  | askEditor (editor : EditorId) (r : EditorRequest)

namespace Request

abbrev Reply : Request → Type
  | newScope _ => ScopeId
  | getVar _ _ => Option Value
  | setVar _ _ _ => Unit
  | newChannel _ => ChannelId
  | newPipe _ _ => WriterId × ReaderId
  | newReader _ => ReaderId
  | newStore _ => StoreId
  | holdChannel _ | releaseChannel _ | holdStream _ | releaseStream _ => Unit
  | take _ => Option Value
  | offer _ _ => Except PortError Nat
  | settle _ _ => Except PortError Unit
  | fill _ => Except String Bytes
  | consume _ _ => Unit
  | read _ _ => Except String Bytes
  | offerBytes _ _ => Except String Nat
  | settleBytes _ _ => Except String Unit
  | flush _ => Except String Unit
  | home => Option String
  | workingDirectory => Option String
  | enterDirectory _ => Except DirectoryError Unit
  | addVisit _ _ => Except StoreError Unit
  | listVisited _ => Except StoreError (List Visited)
  | findVisited _ _ => Except StoreError (List Visited)
  | askEditor _ _ => Signal

/-- The reply to a request and the system after it, or none while the request has to wait. -/
def perform? (s : System) : (r : Request) → Option (r.Reply × System)
  | newScope parent =>
    let (id, scopes) := s.scopes.grow parent
    some (id, { s with scopes })
  | getVar scope name => some (s.scopes.get? scope name, s)
  | setVar scope name v => some ((), { s with scopes := s.scopes.set scope name v })
  | newChannel c => some (s.addChannel c)
  | newPipe capacity bufferSize => some (s.addPipe capacity bufferSize)
  | newReader r => some (s.addReader r)
  | newStore d => some (s.addStore d)
  | holdChannel e => some ((), s.holdChannel e)
  | releaseChannel e => some ((), s.releaseChannel e)
  | holdStream e => some ((), s.holdStream e)
  | releaseStream e => some ((), s.releaseStream e)
  | take c => s.takeValue? c
  | offer c v => some (s.offerValue c v)
  | settle c ticket => (s.settleValue? c ticket).map (·, s)
  | fill r => s.fillBuffer? r
  | consume r n => some ((), s.consume r n)
  | read r n => s.readSome? r n
  | offerBytes w bytes => some (s.offerBytes w bytes)
  | settleBytes w ticket => (s.settleBytes? w ticket).map (·, s)
  | flush w => some (s.flush w, s)
  | home => some (s.files.home, s)
  | workingDirectory => some (s.files.workingDirectory?, s)
  | enterDirectory path =>
    match s.files.enter path with
    | .ok files => some (.ok (), { s with files })
    | .error e => some (.error e, s)
  | addVisit store path =>
    match s.stores[store.index]? with
    | none => some (.ok (), s)
    | some d =>
      let (result, d) := d.add path
      some (result, { s with stores := s.stores.set! store.index d })
  | listVisited store => some (((s.stores[store.index]?).map (·.list)).getD (.ok []), s)
  | findVisited store fragment =>
    some (((s.stores[store.index]?).map (·.find fragment)).getD (.ok []), s)
  | askEditor editor r =>
    match s.editors[editor.index]? with
    | none => some (.ok, s)
    | some e =>
      let (answer, e) := e.ask r
      some (answer, { s with editors := s.editors.set! editor.index e })

end Request

end Conduit
