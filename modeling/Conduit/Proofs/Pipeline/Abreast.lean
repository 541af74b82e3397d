import Conduit.Proofs.Builtin.Views
import Conduit.Proofs.Context.Holds
import Mathlib.Tactic.ByContra

/-!
One call in two systems: in one it has all of its input at hand, in the other its input still
arrives and its output is still being taken.  As long as no write is refused that the first system
accepts, every request is answered alike in both.
-/

namespace Conduit

open Proc (Due)

namespace Channel

variable {α : Type} {x x' y y' : Channel α} {beyond left left' out new : List α}

structure Fed (x y : Channel α) (beyond left : List α) : Prop where
  queue : y.queue ++ beyond = x.queue ++ left
  unended : beyond ≠ [] → y.writers ≠ 0

def Refuses (ch : Channel α) : Prop := ch.readers = 0 ∨ ch.writers = 0

theorem Fed.moved (fed : x.Fed y beyond left) (hx : x.Moved x' out new) (hy : y.Moved y' out new)
    (only : new ≠ [] → beyond = [] ∧ left = []) : x'.Fed y' beyond left := by
  have all : out ++ (y'.queue ++ beyond) = out ++ (x'.queue ++ left) := by
    rw [← List.append_assoc, ← List.append_assoc, ← hx.queue, ← hy.queue]
    by_cases none : new = []
    · rw [none, List.append_nil, List.append_nil, fed.queue]
    · have queue := fed.queue
      obtain ⟨rfl, rfl⟩ := only none
      rw [List.append_nil, List.append_nil] at queue ⊢
      rw [queue]
  exact ⟨List.append_cancel_left all, by rw [hy.writers]; exact fed.unended⟩

theorem Fed.offered (fed : x.Fed y beyond left) (hx : x.Moved x' [] new) {more : List α}
    (account : left ++ more = new ++ left') (unended : more ≠ [] → y.writers ≠ 0) :
    x'.Fed y (beyond ++ more) left' := by
  refine ⟨?_, fun some => ?_⟩
  · have queue := hx.queue
    rw [List.nil_append] at queue
    rw [← queue, ← List.append_assoc, fed.queue, List.append_assoc, account, List.append_assoc]
  · by_cases none : more = []
    · rw [none, List.append_nil] at some
      exact fed.unended some
    · exact unended none

theorem Fed.provided (fed : x.Fed y [] left) (hy : y.Moved y' [] new) :
    x.Fed y' [] (left ++ new) := by
  refine ⟨?_, nofun⟩
  have queue := hy.queue
  have before := fed.queue
  rw [List.append_nil] at before ⊢
  rw [List.nil_append] at queue
  rw [← queue, before, List.append_assoc]

theorem Fed.ended (fed : x.Fed y beyond left) (queue : y.queue = []) (none : y.writers = 0) :
    x.queue = [] := by
  have all := fed.queue
  have nothing : beyond = [] := Decidable.not_not.1 fun some => fed.unended some none
  rw [queue, nothing] at all
  exact (List.append_eq_nil_iff.1 all.symm).1

theorem Fed.empty (fed : x.Fed y beyond left) (queue : x.queue = []) (none : left = []) :
    y.queue = [] := by
  have all := fed.queue
  rw [queue, none] at all
  exact (List.append_eq_nil_iff.1 all).1

theorem Fed.first (fed : x.Fed y beyond left) {v w : α} {xs ys : List α} (hx : x.queue = v :: xs)
    (hy : y.queue = w :: ys) : v = w := by
  have all := fed.queue
  rw [hx, hy] at all
  exact (List.cons.inj all).1.symm

end Channel

namespace ByteReader

theorem sameData_refill {x y : ByteReader} (same : x.SameData y) :
    SameData { x with source := x.refill.2.1, buffer := x.refill.2.2 }
      { y with source := y.refill.2.1, buffer := y.refill.2.2 } := by
  rw [same.refill]
  exact ⟨rfl, same.2.1, rfl⟩

end ByteReader

namespace System

variable {s s' t t' : System} {c : ChannelId} {w : WriterId} {q : ReaderId} {p : PipeId}

theorem readingPipe?_congr {x y : ByteReader} (hs : s.readers[q.index]? = some x)
    (ht : t.readers[q.index]? = some y) (same : x.source = y.source) :
    s.readingPipe? q = t.readingPipe? q := by
  simp [readingPipe?, source?, hs, ht, same]

theorem agree_take {x y : Channel Value} {a b : Option Value} {beyond left : List Value}
    (hs : s.channels[c.index]? = some x) (ht : t.channels[c.index]? = some y)
    (fed : x.Fed y beyond left) (drained : x.writers = 0 → left = [])
    (inS : s.takeValue? c = some (a, s')) (inT : t.takeValue? c = some (b, t')) : a = b := by
  rcases takeValue?_cases hs inS with ⟨v, xs, hx, rfl, -⟩ | ⟨hx, none, rfl, -⟩ <;>
    rcases takeValue?_cases ht inT with ⟨w, ys, hy, rfl, -⟩ | ⟨hy, none', rfl, -⟩
  · rw [fed.first hx hy]
  · rw [fed.ended hy none'] at hx
    cases hx
  · rw [fed.empty hx (drained none)] at hy
    cases hy
  · rfl

structure AgreeFill (s t s' t' : System) (q : ReaderId) (a b : Except String Bytes) : Prop where
  reply : a = b
  reader : ∃ x y, s'.readers[q.index]? = some x ∧ t'.readers[q.index]? = some y ∧ x.SameData y
  pipe : ∀ p x y, s.readingPipe? q = some p → s.pipes[p.index]? = some x →
    t.pipes[p.index]? = some y → ∃ x' y' out, s'.pipes[p.index]? = some x' ∧
      t'.pipes[p.index]? = some y' ∧ x.Moved x' out [] ∧ y.Moved y' out []

section Fills

variable {x y : ByteReader} (hs : s.readers[q.index]? = some x) (ht : t.readers[q.index]? = some y)
  (same : x.SameData y)

include same

theorem agreeFill_took {u v : Channel Bytes} {chunk : Bytes} {xs ys : List Bytes}
    (reads : s.readingPipe? q = some p) (hu : s.pipes[p.index]? = some u)
    (hv : t.pipes[p.index]? = some v) (first : u.queue = chunk :: xs) (first' : v.queue = chunk :: ys)
    (hs' : s.Refilled s' q x (.pipe p (chunk.drop x.bufferSize)) (chunk.take x.bufferSize))
    (ht' : t.Refilled t' q y (.pipe p (chunk.drop y.bufferSize)) (chunk.take y.bufferSize))
    (ps : s'.pipes = s.pipes.modify p.index fun _ => { u with queue := xs, taken := u.taken + 1 })
    (pt : t'.pipes = t.pipes.modify p.index fun _ => { v with queue := ys, taken := v.taken + 1 }) :
    AgreeFill s t s' t' q (.ok (chunk.take x.bufferSize)) (.ok (chunk.take y.bufferSize)) := by
  refine ⟨by rw [same.2.1], ⟨_, _, hs'.here, ht'.here, by rw [same.2.1], same.2.1, ?_⟩, ?_⟩
  · exact congrArg (chunk.take ·) same.2.1
  · intro p' u' v' hp hu' hv'
    obtain rfl : p = p' := Option.some.inj (reads.symm.trans hp)
    rw [hu] at hu'
    rw [hv] at hv'
    cases hu'
    cases hv'
    refine ⟨_, _, [chunk], ?_, ?_, Channel.moved_take first, Channel.moved_take first'⟩
    · rw [ps]; simp [Array.getElem?_modify, hu]
    · rw [pt]; simp [Array.getElem?_modify, hv]

include hs ht

-- Both readers need the same pipe or none, so two refills of different kinds contradict that, or the
-- chunk one of them has found.
theorem agree_fill {a b : Except String Bytes} {beyond left : List Bytes}
    (fed : ∀ p, s.readingPipe? q = some p → ∃ u v, s.pipes[p.index]? = some u ∧
      t.pipes[p.index]? = some v ∧ u.Fed v beyond left ∧ (u.writers = 0 → left = []))
    (inS : s.fillBuffer? q = some (a, s')) (inT : t.fillBuffer? q = some (b, t')) :
    AgreeFill s t s' t' q a b := by
  have unmoved (hs : s'.pipes = s.pipes) (ht : t'.pipes = t.pipes) : ∀ p u v,
      s.readingPipe? q = some p → s.pipes[p.index]? = some u → t.pipes[p.index]? = some v →
        ∃ u' v' out, s'.pipes[p.index]? = some u' ∧ t'.pipes[p.index]? = some v' ∧
          u.Moved u' out [] ∧ v.Moved v' out [] :=
    fun p u v _ hu hv => ⟨u, v, [], by rw [hs, hu], by rw [ht, hv], .refl u, .refl v⟩
  have behind {p : PipeId} (needs : x.needs? = some p) : s.readingPipe? q = some p := by
    simp [readingPipe?, source?, hs, pipe?_of_needs? needs, Source.pipe?]
  have needs := same.needs?
  cases refill_of_fillBuffer? hs inS with
  | atHand hx hs' ps =>
    cases refill_of_fillBuffer? ht inT with
    | atHand hy ht' pt =>
      exact ⟨by rw [same.refill], ⟨_, _, hs'.here, ht'.here, ByteReader.sameData_refill same⟩,
        unmoved ps pt⟩
    | took hy => rw [hx, hy] at needs; cases needs
    | ended hy => rw [hx, hy] at needs; cases needs
  | @took _ p u chunk xs hx hu first hs' ps =>
    obtain ⟨u', v, hu', hv, fed, drained⟩ := fed p (behind hx)
    obtain rfl : u = u' := Option.some.inj (hu.symm.trans hu')
    cases refill_of_fillBuffer? ht inT with
    | atHand hy => rw [hx, hy] at needs; cases needs
    | @took _ p' v' chunk' ys hy hv' first' ht' pt =>
      obtain rfl : p = p' := Option.some.inj (hx.symm.trans (needs.trans hy))
      obtain rfl : v = v' := Option.some.inj (hv.symm.trans hv')
      obtain rfl := fed.first first first'
      exact agreeFill_took same (behind hx) hu hv first first' hs' ht' ps pt
    | @ended _ p' hy none ht' pt =>
      obtain rfl : p = p' := Option.some.inj (hx.symm.trans (needs.trans hy))
      obtain ⟨queue, ended⟩ := none v hv
      rw [fed.ended queue ended] at first
      cases first
  | @ended _ p hx none hs' ps =>
    obtain ⟨u, v, hu, hv, fed, drained⟩ := fed p (behind hx)
    obtain ⟨queue, ended⟩ := none u hu
    cases refill_of_fillBuffer? ht inT with
    | atHand hy => rw [hx, hy] at needs; cases needs
    | @took _ p' v' chunk' ys hy hv' first' ht' pt =>
      obtain rfl : p = p' := Option.some.inj (hx.symm.trans (needs.trans hy))
      obtain rfl : v = v' := Option.some.inj (hv.symm.trans hv')
      rw [fed.empty queue (drained ended)] at first'
      cases first'
    | ended hy none' ht' pt =>
      exact ⟨rfl, ⟨_, _, hs'.here, ht'.here, same.1, same.2.1, rfl⟩, unmoved ps pt⟩

end Fills

end System

/-! ### A call -/

inductive Context.Act (ctx : Context) : View → View → Option Request → Request → Prop
  | take {writes : View} {due : Option Request} {c : ChannelId}
      (input : ctx.input.channel = .reading c) : Act ctx .values writes due (.take c)
  | fill {writes : View} {due : Option Request} {q : ReaderId}
      (input : ctx.input.stream = .reading q) : Act ctx .bytes writes due (.fill q)
  | consume {writes : View} {due : Option Request} {q : ReaderId} (n : Nat)
      (input : ctx.input.stream = .reading q) : Act ctx .bytes writes due (.consume q n)
  | offer {reads : View} {due : Option Request} {c : ChannelId} (v : Value)
      (output : ctx.output.channel = .writing c) : Act ctx reads .values due (.offer c v)
  | offerBytes {reads : View} {due : Option Request} {w : WriterId} {bytes : Bytes}
      (output : ctx.output.stream = .writing w) (some : bytes ≠ []) :
      Act ctx reads .bytes due (.offerBytes w bytes)
  | flush {reads : View} {due : Option Request} {w : WriterId}
      (output : ctx.output.stream = .writing w) : Act ctx reads .bytes due (.flush w)
  | settle {reads : View} {c : ChannelId} (ticket : Nat)
      (output : ctx.output.channel = .writing c) :
      Act ctx reads .values (some (.settle c ticket)) (.settle c ticket)
  | settleBytes {reads : View} {w : WriterId} (ticket : Nat)
      (output : ctx.output.stream = .writing w) :
      Act ctx reads .bytes (some (.settleBytes w ticket)) (.settleBytes w ticket)

namespace Context

variable {ctx : Context} {reads writes : View} {due : Option Request} {r : Request}

theorem act_of_due {r' : Request} {y : r'.Reply} (uses : ctx.Uses reads writes r')
    (due : r'.due? y = some r) : ctx.Act reads writes (some r) r := by
  cases r' with
  | offer c v =>
    cases y with
    | ok ticket =>
      cases due
      rcases uses with reading | writing
      · cases reads <;> cases reading
      · cases writes with
        | values => exact .settle ticket writing
        | bytes => cases writing
    | error e => cases due
  | offerBytes w bytes =>
    cases y with
    | ok ticket =>
      cases due
      rcases uses with reading | writing
      · cases reads <;> cases reading
      · cases writes with
        | values => cases writing
        | bytes => exact .settleBytes ticket writing.1
    | error e => cases due
  | _ => cases due

theorem act_of_uses (uses : ctx.Uses reads writes r) : ctx.Act reads writes due r := by
  rcases uses with reading | writing
  · cases reads <;> cases r <;> first | exact reading.elim | skip
    · exact .take reading
    · exact .fill reading
    · exact .consume _ reading
  · cases writes <;> cases r <;> first | exact writing.elim | skip
    · exact .offer _ writing
    · exact .offerBytes writing.1 writing.2
    · exact .flush writing

theorem act_of_asks (owed : Due (ctx.Uses reads writes) due)
    (asks : ctx.Uses reads writes r ∨ due = some r) : ctx.Act reads writes due r := by
  rcases asks with uses | rfl
  · exact act_of_uses uses
  · obtain ⟨r', y, uses, due⟩ := owed r rfl
    exact act_of_due uses due

theorem Act.isTransfer (act : ctx.Act reads writes due r) : r.isTransfer := by
  cases act <;> rfl

end Context

structure Supply where
  values : List Value := []
  chunks : List Bytes := []

structure Abreast (ctx : Context) (s t : System) (beyond left : Supply) : Prop where
  values : ∀ c, ctx.input.channel = .reading c → ∃ x y, s.channels[c.index]? = some x ∧
    t.channels[c.index]? = some y ∧ x.Fed y beyond.values left.values
  reader : ∀ q, ctx.input.stream = .reading q → ∃ x y, s.readers[q.index]? = some x ∧
    t.readers[q.index]? = some y ∧ x.SameData y
  bytes : ∀ q p, ctx.input.stream = .reading q → s.readingPipe? q = some p →
    ∃ x y, s.pipes[p.index]? = some x ∧ t.pipes[p.index]? = some y ∧
      x.Fed y beyond.chunks left.chunks
  output : ∀ c, ctx.output.channel = .writing c → ∃ x y, s.channels[c.index]? = some x ∧
    t.channels[c.index]? = some y ∧ x.offered = y.offered
  target : ∀ w, ctx.output.stream = .writing w → ∃ k, s.target? w = some k ∧ t.target? w = some k
  sent : ∀ w p, ctx.output.stream = .writing w → s.writingPipe? w = some p →
    ∃ x y, s.pipes[p.index]? = some x ∧ t.pipes[p.index]? = some y ∧ x.offered = y.offered

namespace Abreast

variable {ctx : Context} {s s' t t' : System} {beyond left : Supply} {reads writes : View}
  {due : Option Request} {r : Request} {x : r.Reply}

theorem writingPipe? (abreast : Abreast ctx s t beyond left) {w : WriterId}
    (output : ctx.output.stream = .writing w) : s.writingPipe? w = t.writingPipe? w := by
  obtain ⟨k, hs, ht⟩ := abreast.target w output
  rw [System.writingPipe?, System.writingPipe?, hs, ht]

theorem chunksInto (abreast : Abreast ctx s t beyond left) (act : ctx.Act reads writes due r)
    (p : PipeId) : s.chunksInto p [.asked r x] = t.chunksInto p [.asked r x] := by
  cases act with
  | offerBytes output =>
    cases x with
    | ok ticket =>
      rw [System.chunksInto_offerBytes, System.chunksInto_offerBytes, abreast.writingPipe? output]
    | error message => rfl
  | _ => rfl

/-! #### The same event in both systems -/

section Alike

variable (abreast : Abreast ctx s t beyond left) (act : ctx.Act reads writes due r)
  (inS : r.perform? s = some (x, s')) (inT : r.perform? t = some (x, t'))
include abreast act inS inT

theorem alike_values (own : ctx.Looped s → beyond = {} ∧ left = {}) {c : ChannelId}
    (input : ctx.input.channel = .reading c) : ∃ u v, s'.channels[c.index]? = some u ∧
      t'.channels[c.index]? = some v ∧ u.Fed v beyond.values left.values := by
  obtain ⟨u, v, hu, hv, fed⟩ := abreast.values c input
  obtain ⟨u', hu', movedS⟩ := System.moved_channel act.isTransfer inS hu
  obtain ⟨v', hv', movedT⟩ := System.moved_channel act.isTransfer inT hv
  refine ⟨u', v', hu', hv', fed.moved movedS movedT fun some => ?_⟩
  cases act with
  | @offer _ _ d v output =>
    have same : d = c := by
      by_contra other
      have apart : ChannelEnd.writing c ≠ .writing d := fun h => other (ChannelEnd.writing.inj h).symm
      cases x <;> simp [valuesTo, Event.valueTo?, apart] at some
    obtain ⟨rfl, rfl⟩ := own (.inl ⟨c, input, same ▸ output⟩)
    exact ⟨rfl, rfl⟩
  | _ => exact absurd rfl some

theorem alike_output {c : ChannelId} (output : ctx.output.channel = .writing c) :
    ∃ u v, s'.channels[c.index]? = some u ∧ t'.channels[c.index]? = some v ∧
      u.offered = v.offered := by
  obtain ⟨u, v, hu, hv, offered⟩ := abreast.output c output
  obtain ⟨u', hu', movedS⟩ := System.moved_channel act.isTransfer inS hu
  obtain ⟨v', hv', movedT⟩ := System.moved_channel act.isTransfer inT hv
  exact ⟨u', v', hu', hv', by rw [movedS.offered, movedT.offered, offered]⟩

theorem alike_target {w : WriterId} (output : ctx.output.stream = .writing w) :
    ∃ k, s'.target? w = some k ∧ t'.target? w = some k := by
  obtain ⟨k, hs, ht⟩ := abreast.target w output
  by_cases own : ∃ bytes, r = .offerBytes w bytes
  · obtain ⟨bytes, rfl⟩ := own
    exact ⟨_, System.target?_offerBytes_own hs (Option.some.inj inS),
      System.target?_offerBytes_own ht (Option.some.inj inT)⟩
  · have other (bytes : Bytes) : r ≠ .offerBytes w bytes := fun same => own ⟨bytes, same⟩
    exact ⟨k, System.target?_perform other hs inS, System.target?_perform other ht inT⟩

theorem alike_sent {w : WriterId} {p : PipeId} (output : ctx.output.stream = .writing w)
    (pipe : s'.writingPipe? w = some p) : ∃ u v, s'.pipes[p.index]? = some u ∧
      t'.pipes[p.index]? = some v ∧ u.offered = v.offered := by
  rw [(Request.sameShape_perform act.isTransfer inS).writingPipe?] at pipe
  obtain ⟨u, v, hu, hv, offered⟩ := abreast.sent w p output pipe
  obtain ⟨u', _, hu', movedS, -⟩ := System.moved_pipe act.isTransfer inS hu
  obtain ⟨v', _, hv', movedT, -⟩ := System.moved_pipe act.isTransfer inT hv
  refine ⟨u', v', hu', hv', ?_⟩
  rw [movedS.offered, movedT.offered, offered, abreast.chunksInto act]

theorem alike_reader (other : ∀ q, r ≠ .fill q) {q : ReaderId}
    (input : ctx.input.stream = .reading q) : ∃ u v, s'.readers[q.index]? = some u ∧
      t'.readers[q.index]? = some v ∧ u.SameData v := by
  obtain ⟨u, v, hu, hv, same⟩ := abreast.reader q input
  by_cases own : ∃ n, r = .consume q n
  · obtain ⟨n, rfl⟩ := own
    cases inS
    cases inT
    refine ⟨{ u with buffer := u.buffer.drop n }, { v with buffer := v.buffer.drop n }, ?_, ?_,
      same.1, same.2.1, congrArg (List.drop n) same.2.2⟩
    · simp [System.consume, System.onReader, Array.getElem?_modify, hu]
    · simp [System.consume, System.onReader, Array.getElem?_modify, hv]
  · have keeps (n : Nat) : r ≠ .consume q n := fun same => own ⟨n, same⟩
    exact ⟨u, v, by rw [System.readers_perform act.isTransfer (other q) keeps inS, hu],
      by rw [System.readers_perform act.isTransfer (other q) keeps inT, hv], same⟩

theorem alike_bytes (own : ctx.Looped s → beyond = {} ∧ left = {}) (other : ∀ q, r ≠ .fill q)
    {q : ReaderId} {p : PipeId} (input : ctx.input.stream = .reading q)
    (pipe : s'.readingPipe? q = some p) : ∃ u v, s'.pipes[p.index]? = some u ∧
      t'.pipes[p.index]? = some v ∧ u.Fed v beyond.chunks left.chunks := by
  rw [(Request.sameShape_perform act.isTransfer inS).readingPipe?] at pipe
  obtain ⟨u, v, hu, hv, fed⟩ := abreast.bytes q p input pipe
  obtain ⟨u', outS, hu', movedS, noneS⟩ := System.moved_pipe act.isTransfer inS hu
  obtain ⟨v', outT, hv', movedT, noneT⟩ := System.moved_pipe act.isTransfer inT hv
  obtain rfl : outS = [] := noneS.resolve_right fun ⟨q, same, _⟩ => other q same
  obtain rfl : outT = [] := noneT.resolve_right fun ⟨q, same, _⟩ => other q same
  rw [← abreast.chunksInto act] at movedT
  refine ⟨u', v', hu', hv', fed.moved movedS movedT fun some => ?_⟩
  cases act with
  | @offerBytes _ _ w bytes output =>
    have same : s.writingPipe? w = .some p := by
      by_contra apart
      cases x with
      | ok ticket =>
        rw [System.chunksInto_offerBytes, if_neg apart] at some
        exact some rfl
      | error message => exact some rfl
    obtain ⟨rfl, rfl⟩ := own (.inr ⟨q, w, p, input, output, pipe, same⟩)
    exact ⟨rfl, rfl⟩
  | _ => exact absurd rfl some

theorem alike (own : ctx.Looped s → beyond = {} ∧ left = {}) (other : ∀ q, r ≠ .fill q) :
    Abreast ctx s' t' beyond left where
  values _ input := abreast.alike_values act inS inT own input
  reader _ input := abreast.alike_reader act inS inT other input
  bytes _ _ input pipe := abreast.alike_bytes act inS inT own other input pipe
  output _ output := abreast.alike_output act inS inT output
  target _ output := abreast.alike_target act inS inT output
  sent _ _ output pipe := abreast.alike_sent act inS inT output pipe

end Alike

end Abreast

/-! #### Where the two can part -/

theorem Channel.settled?_or_gone {α : Type} {x y : Channel α} {ticket : Nat} {a b : Bool}
    (settled : x.settled? ticket = some a) (settled' : y.settled? ticket = some b)
    (accepts : ¬ y.Refuses) : a = b ∨ x.Refuses ∧ a = false := by
  obtain rfl : b = true :=
    (settled?_cases settled').resolve_right fun none => accepts (.inl none)
  rcases settled?_cases settled with rfl | none
  · exact .inl rfl
  · cases a with
    | true => exact .inl rfl
    | false => exact .inr ⟨.inl none, rfl⟩

def Honoured (t : System) : Option Request → Prop
  | some (.settle c ticket) => ∀ y, t.channels[c.index]? = some y →
    ¬ y.Refuses ∧ ticket ≤ y.offered
  | some (.settleBytes w ticket) => ∀ p y, t.writingPipe? w = some p →
    t.pipes[p.index]? = some y → ¬ y.Refuses ∧ ticket ≤ y.offered
  | _ => True

theorem Channel.honoured_offer {α : Type} {ch : Channel α} (readers : ch.readers ≠ 0)
    (writers : ch.writers ≠ 0) (v : α) :
    ¬ { ch with queue := ch.queue ++ [v] }.Refuses ∧
      ch.offered + 1 ≤ { ch with queue := ch.queue ++ [v] }.offered := by
  refine ⟨not_or.2 ⟨readers, writers⟩, ?_⟩
  simp only [offered, List.length_append, List.length_singleton]
  omega

theorem honoured_due {t t' : System} {r : Request} {x : r.Reply}
    (reply : r.perform? t = some (x, t')) : Honoured t' (r.due? x) := by
  cases r with
  | offer c v =>
    rcases System.offerValue_cases (Option.some.inj reply) with
      ⟨ch, here, readers, writers, rfl, rfl⟩ | ⟨rfl, -, -⟩
    · intro y there
      rw [System.channels_onChannel here] at there
      cases there
      exact Channel.honoured_offer readers writers v
    · trivial
  | offerBytes w bytes =>
    cases System.sent_of_offerBytes (Option.some.inj reply) with
    | sunk target =>
      intro p y pipe there
      have sink := System.target?_offerBytes_own target (Option.some.inj reply)
      rw [System.writingPipe?, sink] at pipe
      cases pipe
    | @piped q ch target here readers writers =>
      intro p y pipe there
      have same : t.writingPipe? w = some p := pipe
      rw [System.writingPipe?, target] at same
      cases same
      simp only [System.onPipe, Array.getElem?_modify, ↓reduceIte, here, Option.map_some,
        Option.some.injEq] at there
      subst there
      exact Channel.honoured_offer readers writers bytes
    | refused => trivial
    | gone => trivial
  | _ => trivial

structure Level (ctx : Context) (s t : System) (left : Supply) : Prop where
  values : ∀ c x, ctx.input.channel = .reading c → s.channels[c.index]? = some x →
    x.writers = 0 → left.values = []
  bytes : ∀ q p x, ctx.input.stream = .reading q → s.readingPipe? q = some p →
    s.pipes[p.index]? = some x → x.writers = 0 → left.chunks = []
  output : ∀ c x y, ctx.output.channel = .writing c → s.channels[c.index]? = some x →
    t.channels[c.index]? = some y → y.Refuses → x.Refuses
  sent : ∀ w p x y, ctx.output.stream = .writing w → s.writingPipe? w = some p →
    s.pipes[p.index]? = some x → t.pipes[p.index]? = some y → y.Refuses → x.Refuses

inductive Cut (ctx : Context) (s t : System) : View → Prop
  | values {c : ChannelId} {x y : Channel Value} (output : ctx.output.channel = .writing c)
      (hs : s.channels[c.index]? = some x) (ht : t.channels[c.index]? = some y)
      (refuses : x.Refuses) (accepts : ¬ y.Refuses) : Cut ctx s t .values
  | bytes {w : WriterId} {p : PipeId} {x y : Channel Bytes}
      (output : ctx.output.stream = .writing w) (pipe : s.writingPipe? w = some p)
      (hs : s.pipes[p.index]? = some x) (ht : t.pipes[p.index]? = some y) (refuses : x.Refuses)
      (accepts : ¬ y.Refuses) : Cut ctx s t .bytes

def PortError.IsCut (e : PortError) : Prop := e = .readerGone ∨ e = .io pipeReaderGone

namespace Abreast

variable {ctx : Context} {s s' t t' : System} {beyond left : Supply} {reads writes : View}
  {due : Option Request}

theorem offer_or_cut (abreast : Abreast ctx s t beyond left) (level : Level ctx s t left)
    {c : ChannelId} {v : Value} {x y : Except PortError Nat}
    (output : ctx.output.channel = .writing c) (inS : s.offerValue c v = (x, s'))
    (inT : t.offerValue c v = (y, t')) :
    x = y ∨ Cut ctx s t .values ∧ s' = s ∧ x = .error .readerGone := by
  obtain ⟨u, w, hu, hw, offered⟩ := abreast.output c output
  rcases System.offerValue_cases inS with ⟨u', hu', readers, writers, rfl, -⟩ | ⟨rfl, rfl, gone⟩ <;>
    rcases System.offerValue_cases inT with ⟨w', hw', readers', writers', rfl, -⟩ | ⟨rfl, -, gone'⟩
  · rw [hu] at hu'
    rw [hw] at hw'
    cases hu'
    cases hw'
    exact .inl (by rw [offered])
  · rw [hu] at hu'
    cases hu'
    exact absurd (level.output c u w output hu hw (gone' w hw)) (not_or.2 ⟨readers, writers⟩)
  · rw [hw] at hw'
    cases hw'
    exact .inr ⟨.values output hu hw (gone u hu) (not_or.2 ⟨readers', writers'⟩), rfl, rfl⟩
  · exact .inl rfl

theorem settle_or_cut (abreast : Abreast ctx s t beyond left) {c : ChannelId} {ticket : Nat}
    {x y : Except PortError Unit} (output : ctx.output.channel = .writing c)
    (honoured : Honoured t (some (.settle c ticket))) (inS : s.settleValue? c ticket = some x)
    (inT : t.settleValue? c ticket = some y) :
    x = y ∨ Cut ctx s t .values ∧ x = .error .readerGone := by
  obtain ⟨u, w, hu, hw, offered⟩ := abreast.output c output
  have accepts := (honoured w hw).1
  rw [System.settleValue?, hu] at inS
  rw [System.settleValue?, hw] at inT
  obtain ⟨a, settled, rfl⟩ := Option.map_eq_some_iff.1 inS
  obtain ⟨b, settled', rfl⟩ := Option.map_eq_some_iff.1 inT
  rcases Channel.settled?_or_gone settled settled' accepts with rfl | ⟨refuses, rfl⟩
  · exact .inl rfl
  · exact .inr ⟨.values output hu hw refuses accepts, rfl⟩

theorem offerBytes_or_cut (abreast : Abreast ctx s t beyond left) (level : Level ctx s t left)
    {w : WriterId} {bytes : Bytes} {x y : Except String Nat}
    (output : ctx.output.stream = .writing w) (inS : s.offerBytes w bytes = (x, s'))
    (inT : t.offerBytes w bytes = (y, t')) :
    x = y ∨ Cut ctx s t .bytes ∧ s' = s ∧ x = .error pipeReaderGone := by
  obtain ⟨k, hs, ht⟩ := abreast.target w output
  have pipe {p : PipeId} (same : k = .pipe p) : s.writingPipe? w = some p := by
    rw [System.writingPipe?, hs, same]; rfl
  -- Both writers have the same target, so of the ways to answer in `t` only two are left: the one
  -- in `s`, or that the pipe is read in `t` while its reader has gone in `s`.
  cases System.sent_of_offerBytes inS with
  | sunk sink =>
    cases System.sent_of_offerBytes inT with
    | sunk => exact .inl rfl
    | piped other => rw [ht, ← hs, sink] at other; cases other
    | refused other => rw [ht, ← hs, sink] at other; cases other
    | gone sinks => exact absurd (by rw [ht, ← hs, sink]) (sinks _ _ _)
  | refused sink =>
    cases System.sent_of_offerBytes inT with
    | refused other => rw [ht, ← hs, sink] at other; cases other; exact .inl rfl
    | piped other => rw [ht, ← hs, sink] at other; cases other
    | sunk other => rw [ht, ← hs, sink] at other; cases other
    | gone sinks => exact absurd (by rw [ht, ← hs, sink]) (sinks _ _ _)
  | @piped p u target hu readers writers =>
    rw [hs] at target
    cases target
    obtain ⟨u', v, hu', hv, offered⟩ := abreast.sent w p output (pipe rfl)
    rw [hu] at hu'
    cases hu'
    cases System.sent_of_offerBytes inT with
    | sunk other => rw [ht] at other; cases other
    | refused other => rw [ht] at other; cases other
    | piped other hv' =>
      rw [ht] at other
      cases other
      rw [hv] at hv'
      cases hv'
      exact .inl (by rw [offered])
    | gone sinks sides =>
      exact absurd (level.sent w p u v output (pipe rfl) hu hv (sides p v ht hv))
        (not_or.2 ⟨readers, writers⟩)
  | gone sinks sides =>
    cases System.sent_of_offerBytes inT with
    | sunk other => exact absurd (by rw [hs, ← ht, other]) (sinks _ _ _)
    | refused other => exact absurd (by rw [hs, ← ht, other]) (sinks _ _ _)
    | gone => exact .inl rfl
    | @piped p v target hv readers writers =>
      rw [ht] at target
      cases target
      obtain ⟨u, v', hu, hv', -⟩ := abreast.sent w p output (pipe rfl)
      rw [hv] at hv'
      cases hv'
      exact .inr ⟨.bytes output (pipe rfl) hu hv (sides p u hs hu) (not_or.2 ⟨readers, writers⟩),
        rfl, rfl⟩

theorem settleBytes_or_cut (abreast : Abreast ctx s t beyond left) {w : WriterId} {ticket : Nat}
    {x y : Except String Unit} (output : ctx.output.stream = .writing w)
    (honoured : Honoured t (some (.settleBytes w ticket)))
    (inS : s.settleBytes? w ticket = some x) (inT : t.settleBytes? w ticket = some y) :
    x = y ∨ Cut ctx s t .bytes ∧ x = .error pipeReaderGone := by
  obtain ⟨k, hs, ht⟩ := abreast.target w output
  rw [System.settleBytes?, hs] at inS
  rw [System.settleBytes?, ht] at inT
  cases k with
  | sink => cases inS; cases inT; exact .inl rfl
  | pipe p =>
    have pipe : s.writingPipe? w = some p := by rw [System.writingPipe?, hs]; rfl
    obtain ⟨u, v, hu, hv, offered⟩ := abreast.sent w p output pipe
    have accepts := (honoured p v ((abreast.writingPipe? output).symm.trans pipe) hv).1
    simp only [hu] at inS
    simp only [hv] at inT
    obtain ⟨a, settled, rfl⟩ := Option.map_eq_some_iff.1 inS
    obtain ⟨b, settled', rfl⟩ := Option.map_eq_some_iff.1 inT
    rcases Channel.settled?_or_gone settled settled' accepts with rfl | ⟨refuses, rfl⟩
    · exact .inl rfl
    · exact .inr ⟨.bytes output pipe hu hv refuses accepts, rfl⟩

theorem fill (abreast : Abreast ctx s t beyond left) (level : Level ctx s t left)
    (own : ctx.Looped s → beyond = {} ∧ left = {}) {q : ReaderId} {x y : Except String Bytes}
    (input : ctx.input.stream = .reading q) (inS : s.fillBuffer? q = some (x, s'))
    (inT : t.fillBuffer? q = some (y, t')) : x = y ∧ Abreast ctx s' t' beyond left := by
  have act : ctx.Act .bytes .bytes none (.fill q) := .fill input
  obtain ⟨u, v, hu, hv, same⟩ := abreast.reader q input
  obtain ⟨rfl, reader, pipes⟩ := System.agree_fill hu hv same (fun p pipe => by
    obtain ⟨u, v, hu, hv, fed⟩ := abreast.bytes q p input pipe
    exact ⟨u, v, hu, hv, fed, level.bytes q p u input pipe hu⟩) inS inT
  refine ⟨rfl, ⟨fun c => abreast.alike_values act inS inT own, fun q' input' => ?_,
    fun q' p input' pipe => ?_, fun c => abreast.alike_output act inS inT,
    fun w => abreast.alike_target act inS inT, fun w p => abreast.alike_sent act inS inT⟩⟩
  · rw [input] at input'
    cases input'
    exact reader
  · rw [input] at input'
    cases input'
    rw [(Request.sameShape_perform act.isTransfer inS).readingPipe?] at pipe
    obtain ⟨u, v, hu, hv, fed⟩ := abreast.bytes q p input pipe
    obtain ⟨u', v', out, hu', hv', movedS, movedT⟩ := pipes p u v pipe hu hv
    exact ⟨u', v', hu', hv', fed.moved movedS movedT nofun⟩

theorem perform (abreast : Abreast ctx s t beyond left) (level : Level ctx s t left)
    (own : ctx.Looped s → beyond = {} ∧ left = {}) (honoured : Honoured t due) {r : Request}
    {x y : r.Reply} (act : ctx.Act reads writes due r) (inS : r.perform? s = some (x, s'))
    (inT : r.perform? t = some (y, t')) :
    x = y ∧ Abreast ctx s' t' beyond left ∨
      Cut ctx s t writes ∧ s' = s ∧ ∃ e, r.refusal? x = some e ∧ e.IsCut := by
  have alike (other : ∀ q, r ≠ .fill q) (same : x = y) :
      x = y ∧ Abreast ctx s' t' beyond left := by
    subst same
    exact ⟨rfl, abreast.alike act inS inT own other⟩
  -- Reads are answered alike because the conduits hold the same in front; for writes there is the
  -- second way.
  cases act with
  | @take _ _ c input =>
    obtain ⟨u, v, hu, hv, fed⟩ := abreast.values c input
    exact .inl (alike (by simp)
      (System.agree_take hu hv fed (level.values c u input hu) inS inT))
  | fill input => exact .inl (abreast.fill level own input inS inT)
  | consume => exact .inl (alike (by simp) rfl)
  | offer v output =>
    rcases abreast.offer_or_cut level output (Option.some.inj inS) (Option.some.inj inT) with
      same | ⟨cut, rfl, rfl⟩
    · exact .inl (alike (by simp) same)
    · exact .inr ⟨cut, rfl, _, rfl, .inl rfl⟩
  | offerBytes output =>
    rcases abreast.offerBytes_or_cut level output (Option.some.inj inS) (Option.some.inj inT) with
      same | ⟨cut, rfl, rfl⟩
    · exact .inl (alike (by simp) same)
    · exact .inr ⟨cut, rfl, _, rfl, .inr rfl⟩
  | @flush _ _ w output =>
    obtain ⟨k, hs, ht⟩ := abreast.target w output
    have same : s.flush w = t.flush w := by rw [System.flush, System.flush, hs, ht]
    refine .inl (alike (by simp) ?_)
    cases inS
    cases inT
    exact same
  | settle ticket output =>
    obtain ⟨x, settledS, same⟩ := Option.map_eq_some_iff.1 inS
    cases same
    obtain ⟨y, settledT, same⟩ := Option.map_eq_some_iff.1 inT
    cases same
    rcases abreast.settle_or_cut output honoured settledS settledT with same | ⟨cut, rfl⟩
    · exact .inl (alike (by simp) same)
    · exact .inr ⟨cut, rfl, _, rfl, .inl rfl⟩
  | settleBytes ticket output =>
    obtain ⟨x, settledS, same⟩ := Option.map_eq_some_iff.1 inS
    cases same
    obtain ⟨y, settledT, same⟩ := Option.map_eq_some_iff.1 inT
    cases same
    rcases abreast.settleBytes_or_cut output honoured settledS settledT with same | ⟨cut, rfl⟩
    · exact .inl (alike (by simp) same)
    · exact .inr ⟨cut, rfl, _, rfl, .inr rfl⟩

end Abreast

end Conduit
