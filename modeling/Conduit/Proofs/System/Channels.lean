import Conduit.Proofs.System.Trace

/-!
What taking from a channel and offering to one come to, for a channel by itself and for one of those
of a system.
-/

namespace Conduit

namespace Channel

variable {α : Type} {ch ch' : Channel α} {x : Option α} {v : α}

theorem take?_cases (take : ch.take? = some (x, ch')) :
    (∃ v rest, ch.queue = v :: rest ∧ x = some v ∧
      ch' = { ch with queue := rest, taken := ch.taken + 1 }) ∨
      ch.queue = [] ∧ ch.writers = 0 ∧ x = none ∧ ch' = ch := by
  rw [take?] at take
  split at take
  · next v rest queue => cases take; exact .inl ⟨v, rest, queue, rfl, rfl⟩
  · next queue =>
    split at take
    · next none => cases take; exact .inr ⟨queue, none, rfl, rfl⟩
    · cases take

theorem offer?_eq_some : ch.offer? v = some ch' ↔
    ch.readers ≠ 0 ∧ ch.writers ≠ 0 ∧ ch' = { ch with queue := ch.queue ++ [v] } := by
  rw [offer?]
  split
  · next none =>
    constructor
    · intro taken
      cases taken
    · rintro ⟨readers, writers, -⟩
      exact absurd none (not_or.2 ⟨readers, writers⟩)
  · next held =>
    obtain ⟨readers, writers⟩ := not_or.1 held
    rw [Option.some.injEq, eq_comm]
    exact ⟨fun same => ⟨readers, writers, same⟩, fun all => all.2.2⟩

theorem offer?_eq_none : ch.offer? v = none ↔ ch.readers = 0 ∨ ch.writers = 0 := by
  rw [offer?]
  split
  · next none => exact ⟨fun _ => none, fun _ => rfl⟩
  · next held => exact ⟨fun refused => (by cases refused), fun none => absurd none held⟩

theorem settled?_cases {ticket : Nat} {accepted : Bool}
    (settled : ch.settled? ticket = some accepted) : accepted = true ∨ ch.readers = 0 := by
  rw [settled?] at settled
  split at settled
  · cases settled; exact .inl rfl
  · split at settled
    · next none => exact .inr none
    · cases settled

end Channel

namespace System

variable {s s' : System} {c : ChannelId} {ch ch' : Channel Value}

theorem channels_onChannel (here : s.channels[c.index]? = some ch) :
    (s.onChannel c fun _ => ch').channels[c.index]? = some ch' := by
  simp [onChannel, Array.getElem?_modify, here]

theorem takeValue?_cases {x : Option Value} (here : s.channels[c.index]? = some ch)
    (take : s.takeValue? c = some (x, s')) :
    (∃ v rest, ch.queue = v :: rest ∧ x = some v ∧
      s' = s.onChannel c fun _ => { ch with queue := rest, taken := ch.taken + 1 }) ∨
      ch.queue = [] ∧ ch.writers = 0 ∧ x = none ∧ s' = s.onChannel c fun _ => ch := by
  rw [takeValue?, here] at take
  obtain ⟨⟨y, ch'⟩, took, same⟩ := Option.map_eq_some_iff.1 take
  cases same
  rcases Channel.take?_cases took with ⟨v, rest, queue, rfl, rfl⟩ | ⟨queue, none, rfl, rfl⟩
  · exact .inl ⟨v, rest, queue, rfl, rfl⟩
  · exact .inr ⟨queue, none, rfl, rfl⟩

theorem offerValue_cases {v : Value} {x : Except PortError Nat}
    (offer : s.offerValue c v = (x, s')) :
    (∃ ch, s.channels[c.index]? = some ch ∧ ch.readers ≠ 0 ∧ ch.writers ≠ 0 ∧
      x = .ok (ch.offered + 1) ∧ s' = s.onChannel c fun _ => { ch with queue := ch.queue ++ [v] }) ∨
      x = .error .readerGone ∧ s' = s ∧
        ∀ ch, s.channels[c.index]? = some ch → ch.readers = 0 ∨ ch.writers = 0 := by
  rw [offerValue] at offer
  cases here : s.channels[c.index]? with
  | none => rw [here] at offer; cases offer; exact .inr ⟨rfl, rfl, fun _ there => by cases there⟩
  | some ch =>
    rw [here, Option.bind_some] at offer
    cases offered : ch.offer? v with
    | none =>
      rw [offered] at offer
      cases offer
      refine .inr ⟨rfl, rfl, fun _ same => ?_⟩
      cases same
      exact Channel.offer?_eq_none.1 offered
    | some ch' =>
      rw [offered] at offer
      cases offer
      obtain ⟨readers, writers, rfl⟩ := Channel.offer?_eq_some.1 offered
      refine .inl ⟨ch, rfl, readers, writers, ?_, rfl⟩
      simp [Channel.offered, Nat.add_assoc]

variable {w : WriterId} {bytes : Bytes}

inductive Sent (s : System) (w : WriterId) (bytes : Bytes) : Except String Nat → System → Prop
  | sunk {written : Array UInt8} {flushError : Option String}
      (target : s.target? w = some (.sink written none flushError)) :
      Sent s w bytes (.ok 0)
        (s.onWriter w ({ · with target := .sink (written ++ bytes) none flushError }))
  | piped {p : PipeId} {ch : Channel Bytes} (target : s.target? w = some (.pipe p))
      (here : s.pipes[p.index]? = some ch) (readers : ch.readers ≠ 0) (writers : ch.writers ≠ 0) :
      Sent s w bytes (.ok (ch.offered + 1))
        (s.onPipe p fun _ => { ch with queue := ch.queue ++ [bytes] })
  | refused {written : Array UInt8} {message : String} {flushError : Option String}
      (target : s.target? w = some (.sink written (some message) flushError)) :
      Sent s w bytes (.error message) s
  | gone (sinks : ∀ written error flushError, s.target? w ≠ some (.sink written error flushError))
      (sides : ∀ p ch, s.target? w = some (.pipe p) → s.pipes[p.index]? = some ch →
        ch.readers = 0 ∨ ch.writers = 0) : Sent s w bytes (.error pipeReaderGone) s

theorem sent_of_offerBytes {x : Except String Nat} (offer : s.offerBytes w bytes = (x, s')) :
    s.Sent w bytes x s' := by
  rw [offerBytes] at offer
  cases target : s.target? w with
  | none =>
    rw [target] at offer
    cases offer
    exact .gone (by simp [target]) (by simp [target])
  | some kind =>
    rw [target] at offer
    cases kind with
    | sink written error flushError =>
      cases error with
      | some message => cases offer; exact .refused target
      | none => cases offer; exact .sunk target
    | pipe p =>
      cases here : s.pipes[p.index]? with
      | none =>
        simp only [here, Option.bind_none] at offer
        cases offer
        refine .gone (by simp [target]) fun q ch same other => ?_
        rw [target] at same
        cases same
        rw [here] at other
        cases other
      | some ch =>
        simp only [here, Option.bind_some] at offer
        cases offered : ch.offer? bytes with
        | none =>
          simp only [offered] at offer
          cases offer
          refine .gone (by simp [target]) fun q ch' same other => ?_
          rw [target] at same
          cases same
          rw [here] at other
          cases other
          exact Channel.offer?_eq_none.1 offered
        | some ch' =>
          simp only [offered] at offer
          cases offer
          obtain ⟨readers, writers, rfl⟩ := Channel.offer?_eq_some.1 offered
          have sent : s.Sent w bytes _ _ := .piped target here readers writers
          simpa [Channel.offered, Nat.add_assoc] using sent

end System

end Conduit
