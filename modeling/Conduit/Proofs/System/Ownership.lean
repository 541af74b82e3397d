import Conduit.Proofs.System.Trace

/-!
Who owns the ends of ports: how the events of a run change the number of holders of an end, and what
a run that gives up only what it has leaves open.
-/

namespace Conduit

namespace Event

def acquired (e : PortEnd) : Event → Nat
  | asked (.holdChannel d) _ => if e = .channel d then 1 else 0
  | asked (.holdStream d) _ => if e = .stream d then 1 else 0
  | asked (.newChannel ch) c =>
    (if e = .channel (.reading c) then ch.readers else 0) +
      (if e = .channel (.writing c) then ch.writers else 0)
  | asked (.newPipe _ _) (w, r) =>
    (if e = .stream (.writing w) then 1 else 0) + (if e = .stream (.reading r) then 1 else 0)
  | asked (.newReader x) r => if e = .stream (.reading r) then x.holders else 0
  | _ => 0

def released (e : PortEnd) : Event → Nat
  | asked (.releaseChannel d) _ => if e = .channel d then 1 else 0
  | asked (.releaseStream d) _ => if e = .stream d then 1 else 0
  | _ => 0

end Event

variable {s s' : System} {es es' : List Event}

def acquired (e : PortEnd) : List Event → Nat
  | [] => 0
  | ev :: es => ev.acquired e + acquired e es

def released (e : PortEnd) : List Event → Nat
  | [] => 0
  | ev :: es => ev.released e + released e es

@[simp] theorem acquired_append (e : PortEnd) :
    acquired e (es ++ es') = acquired e es + acquired e es' := by
  induction es with
  | nil => simp [acquired]
  | cons ev es ih => simp [acquired, ih, Nat.add_assoc]

@[simp] theorem released_append (e : PortEnd) :
    released e (es ++ es') = released e es + released e es' := by
  induction es with
  | nil => simp [released]
  | cons ev es ih => simp [released, ih, Nat.add_assoc]

section Holders

variable {e : PortEnd}

theorem count_modify {α : Type} {xs : Array α} {j : Nat} (i : Nat) {g : α → Nat} {f : α → α}
    {u : Nat → Nat} (hf : ∀ x, g (f x) = u (g x)) (zero : u 0 = 0) :
    ((xs.modify i f)[j]?.map g).getD 0 =
      if j = i then u ((xs[j]?.map g).getD 0) else (xs[j]?.map g).getD 0 := by
  cases hx : xs[j]? with
  | none => by_cases hi : i = j <;> simp [Array.getElem?_modify, hi, Ne.symm, hx, zero]
  | some x => by_cases hi : i = j <;> simp [Array.getElem?_modify, hi, Ne.symm, hx, hf]

theorem count_push {α : Type} {xs : Array α} {j : Nat} (x : α) {g : α → Nat}
    (held : 0 < (xs[j]?.map g).getD 0) :
    j ≠ xs.size ∧ ((xs.push x)[j]?.map g).getD 0 = (xs[j]?.map g).getD 0 := by
  have hj : j ≠ xs.size := by
    rintro rfl
    simp at held
  exact ⟨hj, by rw [Array.getElem?_push, if_neg hj]⟩

theorem count_modify_same {α : Type} {xs : Array α} (i j : Nat) {g : α → Nat} {f : α → α}
    (hf : ∀ x, g (f x) = g x) : ((xs.modify i f)[j]?.map g).getD 0 = (xs[j]?.map g).getD 0 :=
  congrArg (Option.getD · 0) (System.map_getElem?_modify xs i j f g hf)

def System.recount (s : System) (u : Nat → Nat) : PortEnd → System
  | .channel (.reading c) => s.onChannel c fun ch => { ch with readers := u ch.readers }
  | .channel (.writing c) => s.onChannel c fun ch => { ch with writers := u ch.writers }
  | .stream (.reading r) => s.onReader r fun x => { x with holders := u x.holders }
  | .stream (.writing w) => s.onWriter w fun x => { x with holders := u x.holders }
  | .channel .closed | .stream .closed => s

theorem holders_recount {u : Nat → Nat} (zero : u 0 = 0) (d : PortEnd) :
    (s.recount u d).holders e = if e = d then u (s.holders e) else s.holders e := by
  match e, d with
  | .channel .closed, _ | .stream .closed, _ => simp [System.holders, zero]
  | .channel (.reading ⟨j⟩), .channel (.reading ⟨i⟩) =>
    simp only [PortEnd.channel.injEq, ChannelEnd.reading.injEq, ChannelId.mk.injEq]
    exact count_modify i (fun _ => rfl) zero
  | .channel (.writing ⟨j⟩), .channel (.writing ⟨i⟩) =>
    simp only [PortEnd.channel.injEq, ChannelEnd.writing.injEq, ChannelId.mk.injEq]
    exact count_modify i (fun _ => rfl) zero
  | .stream (.reading ⟨j⟩), .stream (.reading ⟨i⟩) =>
    simp only [PortEnd.stream.injEq, StreamEnd.reading.injEq, ReaderId.mk.injEq]
    exact count_modify i (fun _ => rfl) zero
  | .stream (.writing ⟨j⟩), .stream (.writing ⟨i⟩) =>
    simp only [PortEnd.stream.injEq, StreamEnd.writing.injEq, WriterId.mk.injEq]
    exact count_modify i (fun _ => rfl) zero
  | .channel (.reading ⟨j⟩), .channel (.writing ⟨i⟩) => exact count_modify_same i j fun _ => rfl
  | .channel (.writing ⟨j⟩), .channel (.reading ⟨i⟩) => exact count_modify_same i j fun _ => rfl
  | .channel (.reading _), .channel .closed | .channel (.reading _), .stream .closed
  | .channel (.reading _), .stream (.reading _) | .channel (.reading _), .stream (.writing _)
  | .channel (.writing _), .channel .closed | .channel (.writing _), .stream .closed
  | .channel (.writing _), .stream (.reading _) | .channel (.writing _), .stream (.writing _)
  | .stream (.reading _), .channel .closed | .stream (.reading _), .channel (.reading _)
  | .stream (.reading _), .channel (.writing _) | .stream (.reading _), .stream .closed
  | .stream (.reading _), .stream (.writing _) | .stream (.writing _), .channel .closed
  | .stream (.writing _), .channel (.reading _) | .stream (.writing _), .channel (.writing _)
  | .stream (.writing _), .stream .closed | .stream (.writing _), .stream (.reading _) => rfl

theorem holders_recount_oneMore (d : PortEnd) (held : 0 < s.holders e) :
    (s.recount oneMore d).holders e = s.holders e + if e = d then 1 else 0 := by
  rw [holders_recount rfl d]
  split
  · simp [oneMore, Nat.ne_of_gt held]
  · rfl

theorem holders_recount_oneLess (d : PortEnd) (held : 0 < s.holders e) :
    (s.recount (· - 1) d).holders e + (if e = d then 1 else 0) = s.holders e := by
  rw [holders_recount rfl d]
  split
  · exact Nat.sub_add_cancel held
  · rfl

theorem holdChannel_eq (s : System) (d : ChannelEnd) :
    s.holdChannel d = s.recount oneMore (.channel d) := by
  cases d <;> rfl

theorem releaseChannel_eq (s : System) (d : ChannelEnd) :
    s.releaseChannel d = s.recount (· - 1) (.channel d) := by
  cases d <;> rfl

theorem holdStream_eq (s : System) (d : StreamEnd) :
    s.holdStream d = s.recount oneMore (.stream d) := by
  cases d <;> rfl

theorem holders_releaseStream (d : StreamEnd) :
    (s.releaseStream d).holders e = (s.recount (· - 1) (.stream d)).holders e := by
  cases d with
  | closed => rfl
  | reading r =>
    simp only [System.releaseStream]
    split
    · exact (System.sameHolds_onPipe _ _ _).holders e
    · rfl
  | writing w =>
    simp only [System.releaseStream]
    split
    · exact (System.sameHolds_onPipe _ _ _).holders e
    · rfl

theorem holders_replace {c : ChannelId} {ch ch' : Channel Value}
    (hc : s.channels[c.index]? = some ch) (readers : ch'.readers = ch.readers)
    (writers : ch'.writers = ch.writers) : (s.onChannel c fun _ => ch').holders e = s.holders e := by
  match e with
  | .channel .closed | .stream .closed | .stream (.reading _) | .stream (.writing _) => rfl
  | .channel (.reading d) =>
    by_cases hd : c.index = d.index
    · rw [hd] at hc
      simp [System.holders, System.onChannel, Array.getElem?_modify, hd, hc, readers]
    · simp [System.holders, System.onChannel, Array.getElem?_modify, hd]
  | .channel (.writing d) =>
    by_cases hd : c.index = d.index
    · rw [hd] at hc
      simp [System.holders, System.onChannel, Array.getElem?_modify, hd, hc, writers]
    · simp [System.holders, System.onChannel, Array.getElem?_modify, hd]

theorem holders_takeValue? {c : ChannelId} {x : Option Value}
    (take : s.takeValue? c = some (x, s')) : s'.holders e = s.holders e := by
  simp only [System.takeValue?] at take
  cases hc : s.channels[c.index]? with
  | none => rw [hc] at take; cases take; rfl
  | some ch =>
    rw [hc] at take
    obtain ⟨⟨y, ch'⟩, took, hs⟩ := Option.map_eq_some_iff.1 take
    cases hs
    have sides : ch'.readers = ch.readers ∧ ch'.writers = ch.writers := by
      simp only [Channel.take?] at took
      split at took
      · cases took; exact ⟨rfl, rfl⟩
      · split at took <;> cases took
        exact ⟨rfl, rfl⟩
    exact holders_replace hc sides.1 sides.2

theorem holders_offerValue (c : ChannelId) (v : Value) :
    (s.offerValue c v).2.holders e = s.holders e := by
  simp only [System.offerValue]
  cases hc : s.channels[c.index]? with
  | none => rfl
  | some ch =>
    simp only [Option.bind_some, Channel.offer?]
    split
    · rfl
    · next ch' offered =>
      split at offered <;> cases offered
      exact holders_replace hc rfl rfl

theorem holders_newPipe (n m : Nat) (held : 0 < s.holders e) :
    (s.addPipe n m).2.holders e =
      s.holders e + Event.acquired e (.asked (.newPipe n m) (s.addPipe n m).1) := by
  match e with
  | .channel .closed | .stream .closed => cases held
  | .channel (.reading _) | .channel (.writing _) => rfl
  | .stream (.reading ⟨j⟩) =>
    obtain ⟨hj, same⟩ := count_push _ held
    refine same.trans ?_
    simp [Event.acquired, System.addPipe, System.addReader, System.addWriter, System.holders, hj]
  | .stream (.writing ⟨j⟩) =>
    obtain ⟨hj, same⟩ := count_push _ held
    refine same.trans ?_
    simp [Event.acquired, System.addPipe, System.addReader, System.addWriter, System.holders, hj]

theorem holders_newChannel (ch : Channel Value) (held : 0 < s.holders e) :
    (s.addChannel ch).2.holders e =
      s.holders e + Event.acquired e (.asked (.newChannel ch) (s.addChannel ch).1) := by
  match e with
  | .channel .closed | .stream .closed => cases held
  | .stream (.reading _) | .stream (.writing _) => rfl
  | .channel (.reading ⟨j⟩) =>
    obtain ⟨hj, same⟩ := count_push ch held
    refine same.trans ?_
    simp [Event.acquired, System.addChannel, System.holders, hj]
  | .channel (.writing ⟨j⟩) =>
    obtain ⟨hj, same⟩ := count_push ch held
    refine same.trans ?_
    simp [Event.acquired, System.addChannel, System.holders, hj]

theorem holders_newReader (x : ByteReader) (held : 0 < s.holders e) :
    (s.addReader x).2.holders e =
      s.holders e + Event.acquired e (.asked (.newReader x) (s.addReader x).1) := by
  match e with
  | .channel .closed | .stream .closed => cases held
  | .channel (.reading _) | .channel (.writing _) | .stream (.writing _) => rfl
  | .stream (.reading ⟨j⟩) =>
    obtain ⟨hj, same⟩ := count_push x held
    refine same.trans ?_
    simp [Event.acquired, System.addReader, System.holders, hj]

theorem holders_perform {r : Request} {x : r.Reply} (reply : r.perform? s = some (x, s'))
    (held : 0 < s.holders e) :
    s'.holders e + Event.released e (.asked r x) =
      s.holders e + Event.acquired e (.asked r x) := by
  cases r with
  | newScope => cases reply; rfl
  | setVar => cases reply; rfl
  | newChannel ch => cases reply; exact holders_newChannel ch held
  | newPipe n m => cases reply; exact holders_newPipe n m held
  | newReader y => cases reply; exact holders_newReader y held
  | holdChannel d =>
    cases reply
    rw [holdChannel_eq]
    exact holders_recount_oneMore (.channel d) held
  | releaseChannel d =>
    cases reply
    rw [releaseChannel_eq]
    exact holders_recount_oneLess (.channel d) held
  | holdStream d =>
    cases reply
    rw [holdStream_eq]
    exact holders_recount_oneMore (.stream d) held
  | releaseStream d =>
    cases reply
    rw [holders_releaseStream]
    exact holders_recount_oneLess (.stream d) held
  | take c => exact holders_takeValue? reply
  | offer c v =>
    have same := holders_offerValue (s := s) (e := e) c v
    rwa [Option.some.inj reply] at same
  | _ => exact (Request.sameHolds_of_isQuiet rfl reply).holders e

theorem System.After.holders_add {k : Nat} (after : s.After es s') (held : k < s.holders e)
    (bound : ∀ front, front <+: es → released e front ≤ k + acquired e front) :
    s'.holders e + released e es = s.holders e + acquired e es := by
  induction after generalizing k with
  | nil => rfl
  | @called call _ _ es _ ih =>
    rw [acquired, released]
    have rest := ih held fun front hf => by
      have := bound (.called call :: front) ((List.prefix_cons_inj _).2 hf)
      rw [acquired, released] at this
      simpa [Event.acquired, Event.released] using this
    simpa [Event.acquired, Event.released] using rest
  | @asked r x s s₁ _ es reply _ ih =>
    have first := holders_perform reply (Nat.lt_of_le_of_lt (Nat.zero_le k) held)
    have one := bound [.asked r x] ((List.prefix_cons_inj _).2 (List.nil_prefix))
    rw [released, acquired, released, acquired] at one
    have rest := ih (k := k + Event.acquired e (.asked r x) - Event.released e (.asked r x))
      (by omega) fun front hf => by
        have := bound (.asked r x :: front) ((List.prefix_cons_inj _).2 hf)
        rw [acquired, released] at this
        omega
    rw [acquired, released]
    omega

end Holders

/-! ### Runs that give up what they have -/

def Port.holds (e : PortEnd) (p : Port) : Nat :=
  (if e = .channel p.channel then 1 else 0) + if e = .stream p.stream then 1 else 0

def holdsOf (e : PortEnd) : List Port → Nat
  | [] => 0
  | p :: ports => p.holds e + holdsOf e ports

structure Solvent (given : List Port) (es : List Event) (left : List Port) : Prop where
  throughout : ∀ e front, front <+: es → released e front ≤ holdsOf e given + acquired e front
  ending : ∀ e, released e es + holdsOf e left ≤ holdsOf e given + acquired e es

section Solvent

variable {given left : List Port}

theorem solvent_append {between : List Port} (first : Solvent given es between)
    (rest : Solvent between es' left) : Solvent given (es ++ es') left := by
  constructor
  · rintro e front ⟨tail, ht⟩
    rcases List.append_eq_append_iff.1 ht with ⟨back, rfl, -⟩ | ⟨back, rfl, hb⟩
    · exact first.throughout e front (List.prefix_append ..)
    · have h₁ := first.ending e
      have h₂ := rest.throughout e back ⟨tail, hb.symm⟩
      simp only [acquired_append, released_append]
      omega
  · intro e
    have h₁ := first.ending e
    have h₂ := rest.ending e
    simp only [acquired_append, released_append]
    omega

theorem released_le_of_prefix {e : PortEnd} {front : List Event} (hf : front <+: es) :
    released e front ≤ released e es := by
  obtain ⟨back, rfl⟩ := hf
  rw [released_append]
  omega

theorem solvent_of_released_eq_zero (none : ∀ e, released e es = 0)
    (kept : ∀ e, holdsOf e left ≤ holdsOf e given + acquired e es) : Solvent given es left := by
  constructor
  · intro e front hf
    have := released_le_of_prefix (e := e) hf
    have := none e
    omega
  · intro e
    have := none e
    have := kept e
    omega

theorem Solvent.frame (solvent : Solvent [] es []) (ports : List Port) :
    Solvent ports es ports := by
  constructor
  · intro e front hf
    have := solvent.throughout e front hf
    rw [holdsOf] at this
    omega
  · intro e
    have := solvent.ending e
    rw [holdsOf] at this
    omega

theorem System.After.holders_le (after : s.After es s') (solvent : Solvent [] es left)
    (e : PortEnd) : s.holders e ≤ s'.holders e := by
  by_cases held : 0 < s.holders e
  · have total := after.holders_add held fun front hf => solvent.throughout e front hf
    have all := solvent.ending e
    rw [holdsOf] at all
    omega
  · omega

end Solvent

end Conduit
