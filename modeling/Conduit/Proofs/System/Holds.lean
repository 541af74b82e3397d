import Conduit.Proofs.System.Reads

/-!
Who holds what, and which requests leave all channels, scopes and holds as they are.
-/

namespace Conduit

inductive PortEnd
  | channel (e : ChannelEnd)
  | stream (e : StreamEnd)
  deriving DecidableEq

namespace System

def holders (s : System) : PortEnd → Nat
  | .channel (.reading c) => ((s.channels[c.index]?).map Channel.readers).getD 0
  | .channel (.writing c) => ((s.channels[c.index]?).map Channel.writers).getD 0
  | .stream (.reading r) => ((s.readers[r.index]?).map ByteReader.holders).getD 0
  | .stream (.writing w) => ((s.writers[w.index]?).map ByteWriter.holders).getD 0
  | .channel .closed | .stream .closed => 0

structure SameHolds (s s' : System) : Prop where
  channels : s'.channels = s.channels
  scopes : s'.scopes = s.scopes
  holders : ∀ e, s'.holders e = s.holders e

variable {s s' s'' : System}

theorem SameHolds.refl (s : System) : s.SameHolds s := ⟨rfl, rfl, fun _ => rfl⟩

theorem SameHolds.trans (first : s.SameHolds s') (rest : s'.SameHolds s'') : s.SameHolds s'' :=
  ⟨rest.channels.trans first.channels, rest.scopes.trans first.scopes,
    fun e => (rest.holders e).trans (first.holders e)⟩

theorem sameHolds_of_eq (channels : s'.channels = s.channels) (scopes : s'.scopes = s.scopes)
    (readers : s'.readers = s.readers) (writers : s'.writers = s.writers) : s.SameHolds s' := by
  refine ⟨channels, scopes, fun e => ?_⟩
  rcases e with (_ | _ | _) | (_ | _ | _) <;> simp [holders, channels, readers, writers]

theorem map_getElem?_modify {α β : Type} (xs : Array α) (i j : Nat) (f : α → α) (g : α → β)
    (hf : ∀ x, g (f x) = g x) : (xs.modify i f)[j]?.map g = xs[j]?.map g := by
  rw [Array.getElem?_modify]
  split
  · cases xs[j]? <;> simp [hf]
  · rfl

theorem sameHolds_onPipe (s : System) (p : PipeId) (f : Channel Bytes → Channel Bytes) :
    s.SameHolds (s.onPipe p f) := sameHolds_of_eq rfl rfl rfl rfl

theorem sameHolds_onReader (s : System) (r : ReaderId) {f : ByteReader → ByteReader}
    (hf : ∀ x, (f x).holders = x.holders) : s.SameHolds (s.onReader r f) := by
  refine ⟨rfl, rfl, fun e => ?_⟩
  rcases e with (_ | _ | _) | (_ | q | _) <;> try rfl
  exact congrArg (Option.getD · 0) (map_getElem?_modify s.readers r.index q.index f _ hf)

theorem sameHolds_onWriter (s : System) (w : WriterId) {f : ByteWriter → ByteWriter}
    (hf : ∀ x, (f x).holders = x.holders) : s.SameHolds (s.onWriter w f) := by
  refine ⟨rfl, rfl, fun e => ?_⟩
  rcases e with (_ | _ | _) | (_ | _ | q) <;> try rfl
  exact congrArg (Option.getD · 0) (map_getElem?_modify s.writers w.index q.index f _ hf)

theorem Reads.sameHolds {r : ReaderId} (reads : s.Reads r s') : s.SameHolds s' := by
  induction reads with
  | refl => exact .refl s
  | onReader _ kept ih => exact ih.trans (sameHolds_onReader _ r kept)
  | onPipe _ _ _ ih => exact ih.trans (sameHolds_onPipe _ _ _)

theorem sameHolds_offerBytes (s : System) (w : WriterId) (bytes : Bytes) :
    s.SameHolds (s.offerBytes w bytes).2 := by
  simp only [offerBytes]
  split
  · exact .refl _
  · exact .refl _
  · exact sameHolds_onWriter _ _ fun _ => rfl
  · split
    · exact .refl _
    · exact sameHolds_onPipe _ _ _

theorem releaseStream_same (s : System) (e : StreamEnd) :
    (s.releaseStream e).channels = s.channels ∧ (s.releaseStream e).scopes = s.scopes := by
  cases e with
  | closed => exact ⟨rfl, rfl⟩
  | reading r => simp only [releaseStream]; split <;> exact ⟨rfl, rfl⟩
  | writing w => simp only [releaseStream]; split <;> exact ⟨rfl, rfl⟩

theorem scopes_takeValue? {c : ChannelId} {x : Option Value}
    (take : s.takeValue? c = some (x, s')) : s'.scopes = s.scopes := by
  simp only [takeValue?] at take
  split at take
  · cases take; rfl
  · obtain ⟨y, -, hs⟩ := Option.map_eq_some_iff.1 take
    cases hs
    rfl

theorem scopes_offerValue (s : System) (c : ChannelId) (v : Value) :
    (s.offerValue c v).2.scopes = s.scopes := by
  simp only [offerValue]
  split <;> rfl

end System

namespace Request

def isQuiet : Request → Bool
  | getVar _ _ | newStore _ | settle _ _ | fill _ | consume _ _ | read _ _ | offerBytes _ _
  | settleBytes _ _ | flush _ | home | workingDirectory | enterDirectory _ | addVisit _ _
  | listVisited _ | findVisited _ _ | askEditor _ _ => true
  | _ => false

theorem sameHolds_of_isQuiet {r : Request} {x : r.Reply} {s s' : System} (quiet : r.isQuiet)
    (reply : r.perform? s = some (x, s')) : s.SameHolds s' := by
  cases r with
  | getVar => cases reply; exact .refl _
  | newStore => cases reply; exact System.sameHolds_of_eq rfl rfl rfl rfl
  | settle =>
    obtain ⟨y, -, reply⟩ := Option.map_eq_some_iff.1 reply
    cases reply
    exact .refl _
  | fill => exact (System.reads_fillBuffer? reply).sameHolds
  | consume => cases reply; exact System.sameHolds_onReader _ _ fun _ => rfl
  | read => exact (System.reads_readSome? reply).sameHolds
  | offerBytes w bytes =>
    have same := System.sameHolds_offerBytes s w bytes
    rwa [Option.some.inj reply] at same
  | settleBytes =>
    obtain ⟨y, -, reply⟩ := Option.map_eq_some_iff.1 reply
    cases reply
    exact .refl _
  | flush => cases reply; exact .refl _
  | home => cases reply; exact .refl _
  | workingDirectory => cases reply; exact .refl _
  | enterDirectory path =>
    simp only [perform?] at reply
    split at reply <;> cases reply
    · exact System.sameHolds_of_eq rfl rfl rfl rfl
    · exact .refl _
  | addVisit store path =>
    simp only [perform?] at reply
    split at reply <;> cases reply
    · exact .refl _
    · exact System.sameHolds_of_eq rfl rfl rfl rfl
  | listVisited => cases reply; exact .refl _
  | findVisited => cases reply; exact .refl _
  | askEditor editor r =>
    simp only [perform?] at reply
    split at reply <;> cases reply
    · exact .refl _
    · exact System.sameHolds_of_eq rfl rfl rfl rfl
  | _ => cases quiet

def isOnChannels : Request → Bool
  | newChannel _ | holdChannel _ | releaseChannel _ | take _ | offer _ _ => true
  | _ => false

theorem channels_perform {r : Request} {x : r.Reply} {s s' : System}
    (other : r.isOnChannels = false) (reply : r.perform? s = some (x, s')) :
    s'.channels = s.channels := by
  cases r with
  | newScope => cases reply; rfl
  | setVar => cases reply; rfl
  | newPipe => cases reply; rfl
  | newReader => cases reply; rfl
  | holdStream e => cases reply; cases e <;> rfl
  | releaseStream e => cases reply; exact (System.releaseStream_same _ e).1
  | newChannel => cases other
  | holdChannel => cases other
  | releaseChannel => cases other
  | take => cases other
  | offer => cases other
  | _ => exact (sameHolds_of_isQuiet rfl reply).channels

def isOnScopes : Request → Bool
  | newScope _ | setVar _ _ _ => true
  | _ => false

theorem scopes_perform {r : Request} {x : r.Reply} {s s' : System}
    (other : r.isOnScopes = false) (reply : r.perform? s = some (x, s')) :
    s'.scopes = s.scopes := by
  cases r with
  | newScope => cases other
  | setVar => cases other
  | newPipe => cases reply; rfl
  | newReader => cases reply; rfl
  | newChannel => cases reply; rfl
  | holdStream e => cases reply; cases e <;> rfl
  | releaseStream e => cases reply; exact (System.releaseStream_same _ e).2
  | holdChannel e => cases reply; cases e <;> rfl
  | releaseChannel e => cases reply; cases e <;> rfl
  | take c => exact System.scopes_takeValue? reply
  | offer c v =>
    have same := System.scopes_offerValue s c v
    rwa [Option.some.inj reply] at same
  | _ => exact (sameHolds_of_isQuiet rfl reply).scopes

end Request

end Conduit
