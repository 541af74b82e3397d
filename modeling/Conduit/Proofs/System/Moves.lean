import Conduit.Proofs.System.Shape

/-!
What a transfer takes from the front of a conduit and what it puts behind, for every conduit and
every transfer.
-/

namespace Conduit

structure Channel.Moved {α : Type} (ch ch' : Channel α) (out new : List α) : Prop where
  queue : ch.queue ++ new = out ++ ch'.queue
  taken : ch'.taken = ch.taken + out.length
  capacity : ch'.capacity = ch.capacity
  readers : ch'.readers = ch.readers
  writers : ch'.writers = ch.writers

namespace Channel

variable {α : Type} {ch ch' : Channel α} {out new : List α}

theorem Moved.refl (ch : Channel α) : ch.Moved ch [] [] :=
  ⟨List.append_nil _, rfl, rfl, rfl, rfl⟩

theorem Moved.eq (moved : ch.Moved ch' [] []) : ch' = ch := by
  obtain ⟨queue, taken, capacity, readers, writers⟩ := moved
  rw [List.append_nil, List.nil_append] at queue
  cases ch
  cases ch'
  simp_all

theorem Moved.offered (moved : ch.Moved ch' out new) :
    ch'.offered = ch.offered + new.length := by
  have lengths := congrArg List.length moved.queue
  have taken := moved.taken
  simp only [List.length_append] at lengths
  simp only [Channel.offered]
  omega

theorem moved_take {x : α} {rest : List α} (queue : ch.queue = x :: rest) :
    ch.Moved { ch with queue := rest, taken := ch.taken + 1 } [x] [] :=
  ⟨by simp [queue], rfl, rfl, rfl, rfl⟩

theorem moved_offer (x : α) : ch.Moved { ch with queue := ch.queue ++ [x] } [] [x] :=
  ⟨rfl, rfl, rfl, rfl, rfl⟩

end Channel

def Request.sparesBytes : Request → Bool
  | take _ | offer _ _ | settle _ _ | settleBytes _ _ | flush _ => true
  | _ => false

namespace System

variable {s s' : System} {r : Request} {x : r.Reply} {c : ChannelId} {ch : Channel Value}

theorem channels_onChannel_other {d : ChannelId} (other : d ≠ c) (f : Channel Value → Channel Value) :
    (s.onChannel d f).channels[c.index]? = s.channels[c.index]? := by
  have apart : d.index ≠ c.index := fun same => other (by cases d; cases c; cases same; rfl)
  simp [onChannel, Array.getElem?_modify, apart]

theorem channels_takeValue?_other {d : ChannelId} {y : Option Value} (other : d ≠ c)
    (take : s.takeValue? d = some (y, s')) : s'.channels[c.index]? = s.channels[c.index]? := by
  rw [takeValue?] at take
  split at take
  · cases take; rfl
  · obtain ⟨z, -, same⟩ := Option.map_eq_some_iff.1 take
    cases same
    exact channels_onChannel_other other _

theorem channels_offerValue_other {d : ChannelId} {v : Value} {y : Except PortError Nat}
    (other : d ≠ c) (offer : s.offerValue d v = (y, s')) :
    s'.channels[c.index]? = s.channels[c.index]? := by
  rcases offerValue_cases offer with ⟨ch', -, -, -, -, rfl⟩ | ⟨-, rfl, -⟩
  · exact channels_onChannel_other other _
  · rfl

theorem moved_takeValue? {d : ChannelId} {y : Option Value} (here : s.channels[c.index]? = some ch)
    (take : s.takeValue? d = some (y, s')) : ∃ ch', s'.channels[c.index]? = some ch' ∧
      ch.Moved ch' (taken c [.asked (.take d) y]) [] := by
  by_cases same : d = c
  · subst same
    rcases takeValue?_cases here take with ⟨v, rest, queue, rfl, rfl⟩ | ⟨-, -, rfl, rfl⟩
    · refine ⟨_, channels_onChannel here, ?_⟩
      simpa [Conduit.taken, Event.takenFrom?] using Channel.moved_take queue
    · exact ⟨ch, channels_onChannel here, .refl ch⟩
  · have none : taken c [.asked (.take d) y] = [] := by
      cases y <;> simp [Conduit.taken, Event.takenFrom?, same]
    rw [none]
    exact ⟨ch, by rwa [channels_takeValue?_other same take], .refl ch⟩

theorem moved_offerValue {d : ChannelId} {v : Value} {y : Except PortError Nat}
    (here : s.channels[c.index]? = some ch) (offer : s.offerValue d v = (y, s')) :
    ∃ ch', s'.channels[c.index]? = some ch' ∧
      ch.Moved ch' [] (valuesTo (.writing c) [.asked (.offer d v) y]) := by
  by_cases same : d = c
  · subst same
    rcases offerValue_cases offer with ⟨ch', there, -, -, rfl, rfl⟩ | ⟨rfl, rfl, -⟩
    · rw [here] at there
      cases there
      refine ⟨_, channels_onChannel here, ?_⟩
      simpa using Channel.moved_offer v
    · exact ⟨ch, here, .refl ch⟩
  · have none : valuesTo (.writing c) [.asked (.offer d v) y] = [] := by
      have apart : ChannelEnd.writing c ≠ .writing d :=
        fun h => same (ChannelEnd.writing.inj h).symm
      cases y <;> simp [valuesTo, Event.valueTo?, apart]
    rw [none]
    exact ⟨ch, by rwa [channels_offerValue_other same offer], .refl ch⟩

theorem exists_channels_perform (spares : r.sparesBytes) (reply : r.perform? s = some (x, s')) :
    ∃ channels, s' = { s with channels } := by
  cases r with
  | take d =>
    simp only [Request.perform?, takeValue?] at reply
    split at reply
    · cases reply; exact ⟨s.channels, rfl⟩
    · obtain ⟨z, -, same⟩ := Option.map_eq_some_iff.1 reply
      cases same
      exact ⟨_, rfl⟩
  | offer d v =>
    rcases offerValue_cases (Option.some.inj reply) with ⟨_, -, -, -, -, rfl⟩ | ⟨-, rfl, -⟩
    · exact ⟨_, rfl⟩
    · exact ⟨s'.channels, rfl⟩
  | settle | settleBytes =>
    obtain ⟨y, -, same⟩ := Option.map_eq_some_iff.1 reply
    cases same
    exact ⟨s.channels, rfl⟩
  | flush => cases reply; exact ⟨s.channels, rfl⟩
  | _ => cases spares

theorem writers_of_valuesTo (reply : r.perform? s = some (x, s'))
    (accepted : valuesTo (.writing c) [.asked r x] ≠ []) (here : s.channels[c.index]? = some ch) :
    ch.writers ≠ 0 := by
  cases r with
  | offer d v =>
    rcases offerValue_cases (Option.some.inj reply) with
      ⟨ch', there, -, writers, -, -⟩ | ⟨rfl, -, -⟩
    · by_cases same : d = c
      · subst same
        rw [here] at there
        cases there
        exact writers
      · have apart : ChannelEnd.writing c ≠ .writing d :=
          fun h => same (ChannelEnd.writing.inj h).symm
        cases x <;> simp [valuesTo, Event.valueTo?, apart] at accepted
    · exact absurd rfl accepted
  | _ => exact absurd rfl accepted

theorem moved_channel (transfer : r.isTransfer) (reply : r.perform? s = some (x, s'))
    (here : s.channels[c.index]? = some ch) : ∃ ch', s'.channels[c.index]? = some ch' ∧
      ch.Moved ch' (taken c [.asked r x]) (valuesTo (.writing c) [.asked r x]) := by
  cases r with
  | take d => exact moved_takeValue? here reply
  | offer d v => exact moved_offerValue here (Option.some.inj reply)
  | settle | fill | consume | offerBytes | settleBytes | flush =>
    exact ⟨ch, by rw [Request.channels_perform rfl reply, here], .refl ch⟩
  | _ => cases transfer

end System

def Target.written (bytes : Bytes) : Target → Target
  | sink written none flushError => sink (written ++ bytes) none flushError
  | other => other

namespace System

variable {s s' : System}

/-! ### Pipes -/

def readingPipe? (s : System) (q : ReaderId) : Option PipeId := (s.source? q).bind Source.pipe?

def writingPipe? (s : System) (w : WriterId) : Option PipeId := (s.target? w).bind Target.pipe?

theorem SameShape.readingPipe? (same : s.SameShape s') (r : ReaderId) :
    s'.readingPipe? r = s.readingPipe? r := by
  have shapes := congrArg (Option.map Prod.fst) (same.readers r.index)
  simp only [System.readingPipe?, source?]
  cases here : s.readers[r.index]? <;> cases there : s'.readers[r.index]? <;>
    simp_all [ByteReader.shape]

theorem SameShape.writingPipe? (same : s.SameShape s') (w : WriterId) :
    s'.writingPipe? w = s.writingPipe? w := by
  have shapes := congrArg (Option.map Prod.fst) (same.writers w.index)
  simp only [System.writingPipe?, target?]
  cases here : s.writers[w.index]? <;> cases there : s'.writers[w.index]? <;>
    simp_all [ByteWriter.shape]

end System

def Event.chunkInto? (s : System) (p : PipeId) : Event → Option Bytes
  | asked (.offerBytes w bytes) (.ok _) => if s.writingPipe? w = some p then some bytes else none
  | _ => none

namespace System

variable {s s' : System} {r : Request} {x : r.Reply} {p : PipeId} {ch : Channel Bytes}

def chunksInto (s : System) (p : PipeId) (es : List Event) : List Bytes :=
  es.filterMap (Event.chunkInto? s p)

theorem chunksInto_offerBytes (w : WriterId) (bytes : Bytes) (ticket : Nat) :
    s.chunksInto p [.asked (.offerBytes w bytes) (.ok ticket)] =
      if s.writingPipe? w = some p then [bytes] else [] := by
  by_cases here : s.writingPipe? w = some p <;> simp [chunksInto, Event.chunkInto?, here]

theorem pipes_modify_other {q : PipeId} (other : q ≠ p) (f : Channel Bytes → Channel Bytes) :
    (s.pipes.modify q.index f)[p.index]? = s.pipes[p.index]? := by
  have apart : q.index ≠ p.index := fun same => other (by cases q; cases p; cases same; rfl)
  simp [Array.getElem?_modify, apart]

theorem moved_fillBuffer? {q : ReaderId} {a : Except String Bytes}
    (here : s.pipes[p.index]? = some ch) (fill : s.fillBuffer? q = some (a, s')) :
    ∃ ch' out, s'.pipes[p.index]? = some ch' ∧ ch.Moved ch' out [] ∧
      (out = [] ∨ s.readingPipe? q = some p) := by
  cases reader : s.readers[q.index]? with
  | none =>
    rw [fillBuffer?, reader] at fill
    cases fill
    exact ⟨ch, [], here, .refl ch, .inl rfl⟩
  | some y =>
    cases refill_of_fillBuffer? reader fill with
    | atHand needs refilled pipes => exact ⟨ch, [], by rw [pipes, here], .refl ch, .inl rfl⟩
    | ended needs none refilled pipes => exact ⟨ch, [], by rw [pipes, here], .refl ch, .inl rfl⟩
    | @took _ p' ch' chunk queue needs there first refilled pipes =>
      have source := pipe?_of_needs? needs
      by_cases same : p' = p
      · subst same
        rw [here] at there
        cases there
        refine ⟨_, [chunk], ?_, Channel.moved_take first, .inr ?_⟩
        · rw [pipes]
          simp [Array.getElem?_modify, here]
        · simp [readingPipe?, source?, reader, source, Source.pipe?]
      · exact ⟨ch, [], by rwa [pipes, pipes_modify_other same], .refl ch, .inl rfl⟩

theorem moved_offerBytes {w : WriterId} {bytes : Bytes} {y : Except String Nat}
    (here : s.pipes[p.index]? = some ch) (offer : s.offerBytes w bytes = (y, s')) :
    ∃ ch', s'.pipes[p.index]? = some ch' ∧
      ch.Moved ch' [] (s.chunksInto p [.asked (.offerBytes w bytes) y]) := by
  cases sent_of_offerBytes offer with
  | sunk target =>
    rw [chunksInto_offerBytes]
    exact ⟨ch, here, by simpa [writingPipe?, target, Target.pipe?] using Channel.Moved.refl ch⟩
  | @piped q ch' target there =>
    rw [chunksInto_offerBytes]
    by_cases same : q = p
    · subst same
      rw [here] at there
      cases there
      refine ⟨{ ch with queue := ch.queue ++ [bytes] }, ?_, ?_⟩
      · simp [onPipe, Array.getElem?_modify, here]
      · simpa [writingPipe?, target, Target.pipe?] using Channel.moved_offer bytes
    · refine ⟨ch, ?_, ?_⟩
      · rwa [onPipe, pipes_modify_other same]
      · simpa [writingPipe?, target, Target.pipe?, same] using Channel.Moved.refl ch
  | refused => exact ⟨ch, here, .refl ch⟩
  | gone => exact ⟨ch, here, .refl ch⟩

theorem moved_pipe (transfer : r.isTransfer) (reply : r.perform? s = some (x, s'))
    (here : s.pipes[p.index]? = some ch) : ∃ ch' out, s'.pipes[p.index]? = some ch' ∧
      ch.Moved ch' out (s.chunksInto p [.asked r x]) ∧
      (out = [] ∨ ∃ q, r = .fill q ∧ s.readingPipe? q = some p) := by
  cases r with
  | fill q =>
    obtain ⟨ch', out, there, moved, own⟩ := moved_fillBuffer? here reply
    exact ⟨ch', out, there, moved, own.imp_right fun own => ⟨q, rfl, own⟩⟩
  | offerBytes w bytes =>
    obtain ⟨ch', there, moved⟩ := moved_offerBytes here (Option.some.inj reply)
    exact ⟨ch', [], there, moved, .inl rfl⟩
  | take | offer | settle | settleBytes | flush =>
    obtain ⟨channels, rfl⟩ := exists_channels_perform rfl reply
    exact ⟨ch, [], here, .refl ch, .inl rfl⟩
  | consume => cases reply; exact ⟨ch, [], here, .refl ch, .inl rfl⟩
  | _ => cases transfer

theorem writers_of_chunksInto (reply : r.perform? s = some (x, s'))
    (accepted : s.chunksInto p [.asked r x] ≠ []) (here : s.pipes[p.index]? = some ch) :
    ch.writers ≠ 0 := by
  cases r with
  | offerBytes w bytes =>
    cases sent_of_offerBytes (Option.some.inj reply) with
    | sunk target =>
      rw [chunksInto_offerBytes, writingPipe?, target] at accepted
      exact absurd rfl accepted
    | @piped q ch' target there readers writers =>
      rw [chunksInto_offerBytes, writingPipe?, target] at accepted
      by_cases same : q = p
      · subst same
        rw [here] at there
        cases there
        exact writers
      · simp [Target.pipe?, same] at accepted
    | refused => exact absurd rfl accepted
    | gone => exact absurd rfl accepted
  | _ => exact absurd rfl accepted

/-! ### Writers -/

theorem target?_offerBytes_own {w : WriterId} {bytes : Bytes} {k : Target} {y : Except String Nat}
    (target : s.target? w = some k) (offer : s.offerBytes w bytes = (y, s')) :
    s'.target? w = some (k.written bytes) := by
  cases sent_of_offerBytes offer with
  | sunk same =>
    obtain ⟨writer, here, -⟩ := Option.map_eq_some_iff.1 target
    rw [target] at same
    cases same
    simp [target?, onWriter, Array.getElem?_modify, here, Target.written]
  | piped same =>
    rw [target] at same
    cases same
    exact target
  | refused same =>
    rw [target] at same
    cases same
    exact target
  | gone sinks =>
    cases k with
    | sink written error flushError => exact absurd target (sinks _ _ _)
    | pipe p => exact target

theorem writers_offerBytes_other {w w' : WriterId} {bytes : Bytes} {y : Except String Nat}
    (other : w' ≠ w) (offer : s.offerBytes w' bytes = (y, s')) :
    s'.writers[w.index]? = s.writers[w.index]? := by
  have apart : w'.index ≠ w.index := fun same => other (by cases w; cases w'; cases same; rfl)
  cases sent_of_offerBytes offer with
  | sunk => simp [onWriter, Array.getElem?_modify, apart]
  | piped | refused | gone => rfl

/-! ### What stays as it is -/

theorem channels_perform_other {c : ChannelId} (transfer : r.isTransfer) (take : r ≠ .take c)
    (offer : ∀ v, r ≠ .offer c v) (reply : r.perform? s = some (x, s')) :
    s'.channels[c.index]? = s.channels[c.index]? := by
  cases r with
  | take d => exact channels_takeValue?_other (fun same => take (same ▸ rfl)) reply
  | offer d v =>
    exact channels_offerValue_other (fun same => offer v (same ▸ rfl)) (Option.some.inj reply)
  | settle | fill | consume | offerBytes | settleBytes | flush =>
    rw [Request.channels_perform rfl reply]
  | _ => cases transfer

theorem pipes_perform_other (transfer : r.isTransfer)
    (fill : ∀ q, r = .fill q → s.readingPipe? q ≠ some p)
    (offer : ∀ w bytes, r = .offerBytes w bytes → s.writingPipe? w ≠ some p)
    (reply : r.perform? s = some (x, s')) : s'.pipes[p.index]? = s.pipes[p.index]? := by
  cases here : s.pipes[p.index]? with
  | none =>
    have sides := (Request.sameShape_perform transfer reply).pipes p.index
    rw [here, Option.map_none, Option.map_eq_none_iff] at sides
    exact sides
  | some ch =>
    obtain ⟨ch', out, there, moved, own⟩ := moved_pipe transfer reply here
    obtain rfl : out = [] := own.resolve_right fun ⟨q, same, reading⟩ => fill q same reading
    have none : s.chunksInto p [.asked r x] = [] := by
      cases r with
      | offerBytes w bytes =>
        cases x with
        | ok ticket => rw [chunksInto_offerBytes, if_neg (offer w bytes rfl)]
        | error message => rfl
      | _ => rfl
    rw [none] at moved
    rw [there, moved.eq]

theorem writers_perform {w : WriterId} (transfer : r.isTransfer)
    (offer : ∀ bytes, r ≠ .offerBytes w bytes) (reply : r.perform? s = some (x, s')) :
    s'.writers[w.index]? = s.writers[w.index]? := by
  cases r with
  | offerBytes w' bytes =>
    exact writers_offerBytes_other (fun same => offer bytes (same ▸ rfl)) (Option.some.inj reply)
  | fill q => rw [(reads_fillBuffer? reply).writers]
  | take | offer | settle | settleBytes | flush =>
    obtain ⟨channels, rfl⟩ := exists_channels_perform rfl reply
    rfl
  | consume => cases reply; rfl
  | _ => cases transfer

theorem readers_perform {q : ReaderId} (transfer : r.isTransfer) (fill : r ≠ .fill q)
    (consume : ∀ n, r ≠ .consume q n) (reply : r.perform? s = some (x, s')) :
    s'.readers[q.index]? = s.readers[q.index]? := by
  have apart {q' : ReaderId} (other : q' ≠ q) : q.index ≠ q'.index :=
    fun same => other (by cases q; cases q'; cases same; rfl)
  cases r with
  | fill q' =>
    exact (reads_fillBuffer? reply).others (apart fun same => fill (congrArg Request.fill same))
  | consume q' n =>
    have other := apart fun same => consume n (congrArg (Request.consume · n) same)
    cases reply
    simp [System.consume, onReader, Array.getElem?_modify, Ne.symm other]
  | offerBytes w bytes =>
    cases sent_of_offerBytes (Option.some.inj reply) with
    | sunk | piped | refused | gone => rfl
  | take | offer | settle | settleBytes | flush =>
    obtain ⟨channels, rfl⟩ := exists_channels_perform rfl reply
    rfl
  | _ => cases transfer

/-! ### What is no conduit -/

structure SameSurroundings (s s' : System) : Prop where
  scopes : s'.scopes = s.scopes
  stores : s'.stores = s.stores
  editors : s'.editors = s.editors
  files : s'.files = s.files

theorem SameSurroundings.refl (s : System) : s.SameSurroundings s := ⟨rfl, rfl, rfl, rfl⟩

theorem SameSurroundings.trans {s'' : System} (first : s.SameSurroundings s')
    (rest : s'.SameSurroundings s'') : s.SameSurroundings s'' :=
  ⟨rest.scopes.trans first.scopes, rest.stores.trans first.stores,
    rest.editors.trans first.editors, rest.files.trans first.files⟩

theorem Reads.sameSurroundings {q : ReaderId} (reads : s.Reads q s') : s.SameSurroundings s' := by
  induction reads with
  | refl => exact .refl s
  | onReader _ _ ih => exact ih.trans ⟨rfl, rfl, rfl, rfl⟩
  | onPipe _ _ _ ih => exact ih.trans ⟨rfl, rfl, rfl, rfl⟩

theorem sameSurroundings_perform (transfer : r.isTransfer) (reply : r.perform? s = some (x, s')) :
    s.SameSurroundings s' := by
  cases r with
  | take | offer | settle | settleBytes | flush =>
    obtain ⟨channels, rfl⟩ := exists_channels_perform rfl reply
    exact ⟨rfl, rfl, rfl, rfl⟩
  | fill q => exact (reads_fillBuffer? reply).sameSurroundings
  | consume => cases reply; exact ⟨rfl, rfl, rfl, rfl⟩
  | offerBytes w bytes =>
    cases sent_of_offerBytes (Option.some.inj reply) with
    | sunk | piped | refused | gone => exact ⟨rfl, rfl, rfl, rfl⟩
  | _ => cases transfer

end System

end Conduit
