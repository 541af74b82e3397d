import Conduit.Proofs.System.Moves

/-!
How much a conduit holds is settled when it is made.
-/

namespace Conduit

namespace System

variable {s s' s'' : System} {c : ChannelId} {p : PipeId} {q : ReaderId}

structure SameRoom (s s' : System) : Prop where
  channels : ∀ i : Nat, ∀ ch, s.channels[i]? = some ch →
    ∃ ch', s'.channels[i]? = some ch' ∧ ch'.capacity = ch.capacity
  pipes : ∀ i : Nat, ∀ ch, s.pipes[i]? = some ch →
    ∃ ch', s'.pipes[i]? = some ch' ∧ ch'.capacity = ch.capacity

namespace SameRoom

theorem refl (s : System) : s.SameRoom s :=
  ⟨fun _ ch here => ⟨ch, here, rfl⟩, fun _ ch here => ⟨ch, here, rfl⟩⟩

theorem of_eq (channels : s'.channels = s.channels) (pipes : s'.pipes = s.pipes) : s.SameRoom s' :=
  ⟨fun _ ch here => ⟨ch, by rw [channels, here], rfl⟩,
    fun _ ch here => ⟨ch, by rw [pipes, here], rfl⟩⟩

theorem trans (first : s.SameRoom s') (rest : s'.SameRoom s'') : s.SameRoom s'' := by
  constructor
  · intro i ch here
    obtain ⟨ch', there, same⟩ := first.channels i ch here
    obtain ⟨ch'', there', same'⟩ := rest.channels i ch' there
    exact ⟨ch'', there', same'.trans same⟩
  · intro i ch here
    obtain ⟨ch', there, same⟩ := first.pipes i ch here
    obtain ⟨ch'', there', same'⟩ := rest.pipes i ch' there
    exact ⟨ch'', there', same'.trans same⟩

end SameRoom

section Arrays

variable {α : Type} {xs : Array (Channel α)} {i : Nat} {ch : Channel α}

theorem capacity_push (here : xs[i]? = some ch) (new : Channel α) :
    ∃ ch', (xs.push new)[i]? = some ch' ∧ ch'.capacity = ch.capacity := by
  obtain ⟨lt, -⟩ := Array.getElem?_eq_some_iff.1 here
  exact ⟨ch, by rw [Array.getElem?_push, if_neg (Nat.ne_of_lt lt), here], rfl⟩

theorem capacity_modify (here : xs[i]? = some ch) (j : Nat) {f : Channel α → Channel α}
    (same : ∀ x, xs[j]? = some x → (f x).capacity = x.capacity) :
    ∃ ch', (xs.modify j f)[i]? = some ch' ∧ ch'.capacity = ch.capacity := by
  rw [Array.getElem?_modify]
  split
  · next own => exact ⟨f ch, by rw [here]; rfl, same ch (own ▸ here)⟩
  · exact ⟨ch, here, rfl⟩

end Arrays

theorem SameRoom.onChannel {f : Channel Value → Channel Value}
    (same : ∀ x, s.channels[c.index]? = some x → (f x).capacity = x.capacity) :
    s.SameRoom (s.onChannel c f) :=
  { refl s with channels := fun _ _ here => capacity_modify here c.index same }

theorem SameRoom.onPipe {f : Channel Bytes → Channel Bytes}
    (same : ∀ x, s.pipes[p.index]? = some x → (f x).capacity = x.capacity) :
    s.SameRoom (s.onPipe p f) :=
  { refl s with pipes := fun _ _ here => capacity_modify here p.index same }

theorem sameRoom_releaseStream (e : StreamEnd) : s.SameRoom (s.releaseStream e) := by
  cases e with
  | closed => exact .refl s
  | reading r =>
    have first : s.SameRoom (s.onReader r fun x => { x with holders := x.holders - 1 }) :=
      .of_eq rfl rfl
    rw [releaseStream]
    split
    · exact first.trans (.onPipe fun _ _ => rfl)
    · exact first
  | writing w =>
    have first : s.SameRoom (s.onWriter w fun x => { x with holders := x.holders - 1 }) :=
      .of_eq rfl rfl
    rw [releaseStream]
    split
    · exact first.trans (.onPipe fun _ _ => rfl)
    · exact first

theorem Reads.sameRoom (reads : s.Reads q s') : s.SameRoom s' := by
  induction reads with
  | refl => exact .refl s
  | onReader _ _ ih => exact ih.trans (.of_eq rfl rfl)
  | @onPipe s' p ch ch' chunk _ here took ih =>
    have room : ch'.capacity = ch.capacity := by
      rcases Channel.take?_cases took with ⟨v, rest, -, -, rfl⟩ | ⟨-, -, none, -⟩
      · rfl
      · cases none
    refine ih.trans (.onPipe fun y there => ?_)
    rw [here] at there
    cases there
    exact room

theorem sameRoom_of_isTransfer {r : Request} {x : r.Reply} (transfer : r.isTransfer)
    (reply : r.perform? s = some (x, s')) : s.SameRoom s' := by
  constructor
  · intro i ch here
    obtain ⟨ch', there, moved⟩ := moved_channel (c := ⟨i⟩) transfer reply here
    exact ⟨ch', there, moved.capacity⟩
  · intro i ch here
    obtain ⟨ch', out, there, moved, -⟩ := moved_pipe (p := ⟨i⟩) transfer reply here
    exact ⟨ch', there, moved.capacity⟩

theorem sameRoom_perform {r : Request} {x : r.Reply} (reply : r.perform? s = some (x, s')) :
    s.SameRoom s' := by
  cases r with
  | newChannel ch =>
    cases reply
    exact { SameRoom.refl s with channels := fun _ _ here => capacity_push here ch }
  | newPipe capacity bufferSize =>
    cases reply
    exact { SameRoom.refl s with pipes := fun _ _ here => capacity_push here _ }
  | holdChannel e => cases reply; cases e <;> first | exact .refl s | exact .onChannel fun _ _ => rfl
  | releaseChannel e =>
    cases reply; cases e <;> first | exact .refl s | exact .onChannel fun _ _ => rfl
  | holdStream e => cases reply; cases e <;> exact .of_eq rfl rfl
  | releaseStream e => cases reply; exact sameRoom_releaseStream e
  | read q n => exact (reads_readSome? reply).sameRoom
  | take | offer | settle | fill | consume | offerBytes | settleBytes | flush =>
    exact sameRoom_of_isTransfer rfl reply
  | newScope | getVar | setVar | newReader | newStore | home | workingDirectory | listVisited
  | findVisited => cases reply; exact .of_eq rfl rfl
  | enterDirectory path =>
    simp only [Request.perform?] at reply
    split at reply <;> cases reply <;> exact .of_eq rfl rfl
  | addVisit store path =>
    simp only [Request.perform?] at reply
    split at reply <;> cases reply <;> exact .of_eq rfl rfl
  | askEditor editor r =>
    simp only [Request.perform?] at reply
    split at reply <;> cases reply <;> exact .of_eq rfl rfl

theorem After.sameRoom {es : List Event} (after : s.After es s') : s.SameRoom s' := by
  induction after with
  | nil => exact .refl _
  | asked reply _ ih => exact (sameRoom_perform reply).trans ih
  | called _ ih => exact ih

end System

end Conduit
