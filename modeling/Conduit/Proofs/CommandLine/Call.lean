import Conduit.Proofs.CommandLine.Printer
import Conduit.Proofs.CommandLine.Views
import Conduit.Proofs.Proc.Beside

/-!
Calls from the command line lose and mix nothing: of the two views of its output a builtin writes one
only, and when the call returns, all that was written is on the output.
-/

namespace Conduit

open Proc

/-- No write to the port is refused. -/
def Unrefused (p : Port) (es : List Event) : Prop :=
  ∀ view r x, Event.asked r x ∈ es → p.Writes view r → r.refusal? x = none

theorem unrefused_append {p : Port} {es es' : List Event} (first : Unrefused p es)
    (rest : Unrefused p es') : Unrefused p (es ++ es') := fun view r x mem writes =>
  (List.mem_append.1 mem).elim (first view r x · writes) (rest view r x · writes)

namespace CommandLine

variable {h : Host} {s s' : System} {es called : List Event} {c : ChannelId} {w : WriterId}
  {ctx : Context} {writes : View} {start : Array UInt8} {printed pending : List Value}
  {ch : Channel Value} {left : List PortEnd}

def callContext (s : System) (input output aux : StreamEnd) : Context :=
  { Context.ofPorts "top"
      [⟨.closed, input⟩, ⟨.writing ⟨s.channels.size⟩, output⟩, ⟨.closed, aux⟩]
      ⟨s.scopes.size⟩ with store := some ⟨s.stores.size⟩ }

structure Outlet (ctx : Context) (c : ChannelId) (w : WriterId) : Prop where
  input : ctx.input.channel = .closed
  output : ctx.output = ⟨.writing c, .writing w⟩
  aux : ctx.aux.channel = .closed
  once : (endsOf ctx.ports).count (.channel (.writing c)) = 1
  never : .channel (.reading c) ∉ endsOf ctx.ports
  unassisted : ctx.Unassisted

/-! ### What the call does -/

section Acts

variable {r : Request}

theorem acts_cases (outlet : Outlet ctx c w) (acts : ctx.Acts writes r ∨
      ∃ r' y, ctx.Acts writes r' ∧ r'.due? y = some r) :
    (∃ v, r = .offer c v ∧ writes = .values) ∨
      (∃ u bytes, r = .offerBytes u bytes ∧ writes = .bytes) ∨
      r.isOnChannels = false ∧ ∀ u bytes, r ≠ .offerBytes u bytes := by
  rcases acts with (⟨reads, reading | writing⟩ | aux | elsewhere) | ⟨r', y, -, due⟩
  · cases reads <;> cases r <;> simp_all [Port.Reads, outlet.input, Request.isOnChannels]
  · cases writes <;> cases r <;> simp_all [Port.Writes, outlet.output, Request.isOnChannels]
  · cases writes <;> cases r <;> simp_all [Port.Writes, outlet.aux, Request.isOnChannels]
  · cases r <;> simp_all [Request.isElsewhere, Request.isOnChannels]
  · rcases Request.due?_eq_some due with ⟨d, ticket, rfl⟩ | ⟨u, ticket, rfl⟩ <;>
      exact .inr (.inr ⟨rfl, nofun⟩)

end Acts

structure Balanced (ctx : Context) (writes : View) (c : ChannelId) (w : WriterId)
    (start : Array UInt8) (s : System) (called : List Event) (ch : Channel Value)
    (printed pending : List Value) : Prop where
  here : s.channels[c.index]? = some ch
  values : valuesTo (.writing c) called = printed ++ pending ++ ch.queue
  sink : s.target? w = some (.sink
    (start ++ (bytesTo (.writing w) called ++ Builtin.bytesOf printed)) none none)
  noValues : writes = .bytes → valuesTo (.writing c) called = []
  noBytes : writes = .values → bytesTo (.writing w) called = []
  unrefused : Unrefused ctx.output called

namespace Balanced

variable {r : Request} {x : r.Reply}

theorem offer (balanced : Balanced ctx .values c w start s called ch printed pending)
    (readers : ch.readers ≠ 0) (writers : ch.writers ≠ 0) {v : Value} {x : Except PortError Nat}
    (reply : s.offerValue c v = (x, s')) :
    Balanced ctx .values c w start s' (called ++ [.asked (.offer c v) x])
      { ch with queue := ch.queue ++ [v] } printed pending := by
  have held : ¬ (ch.readers = 0 ∨ ch.writers = 0) := not_or.2 ⟨readers, writers⟩
  simp only [System.offerValue, balanced.here, Option.bind_some, Channel.offer?, held,
    ↓reduceIte] at reply
  cases reply
  have noChunk (x : Except PortError Nat) :
      bytesTo (.writing w) [.asked (.offer c v) x] = [] :=
    bytesTo_eq_nil (r := .offer c v) (by simp) _
  refine ⟨?_, ?_, ?_, by simp, fun view => ?_, unrefused_append balanced.unrefused ?_⟩
  · exact System.channels_onChannel balanced.here
  · simp [balanced.values]
  · rw [bytesTo_append, noChunk, List.append_nil]
    exact balanced.sink
  · rw [bytesTo_append, noChunk, List.append_nil]
    exact balanced.noBytes view
  · intro view r y mem _
    cases List.mem_singleton.1 mem
    rfl

theorem offerBytes (outlet : Outlet ctx c w)
    (balanced : Balanced ctx .bytes c w start s called ch printed pending) {u : WriterId}
    {bytes : Bytes} {x : Except String Nat} (reply : s.offerBytes u bytes = (x, s')) :
    Balanced ctx .bytes c w start s' (called ++ [.asked (.offerBytes u bytes) x]) ch printed
      pending := by
  have same : s'.channels = s.channels := by
    have same := (System.sameHolds_offerBytes s u bytes).channels
    rwa [reply] at same
  have none := balanced.noValues rfl
  have unprinted : printed = [] := by simp_all [balanced.values]
  have noValue : valuesTo (.writing c) [.asked (.offerBytes u bytes) x] = [] :=
    valuesTo_eq_nil (r := .offerBytes u bytes) (fun _ _ => nofun) _
  refine ⟨by rw [same]; exact balanced.here, ?_, ?_, fun _ => ?_, nofun, ?_⟩
  · rw [valuesTo_append, noValue, List.append_nil]
    exact balanced.values
  · by_cases here : u = w
    · subst here
      simp only [System.offerBytes, balanced.sink] at reply
      cases reply
      obtain ⟨writer, hw, -⟩ := Option.map_eq_some_iff.1 balanced.sink
      simp [System.target?, System.onWriter, Array.getElem?_modify, hw, unprinted, Builtin.bytesOf,
        sink_append]
    · have kept := System.target?_offerBytes (s := s) here bytes
      rw [reply] at kept
      rw [kept, bytesTo_append, bytesTo_offerBytes_other here, List.append_nil]
      exact balanced.sink
  · rw [valuesTo_append, noValue, List.append_nil]
    exact none
  · refine unrefused_append balanced.unrefused fun view r y mem writes => ?_
    cases List.mem_singleton.1 mem
    cases view with
    | values => cases writes
    | bytes =>
      obtain ⟨output, -⟩ := writes
      rw [outlet.output] at output
      cases output
      simp only [System.offerBytes, balanced.sink] at reply
      cases reply
      rfl

theorem quiet (outlet : Outlet ctx c w)
    (balanced : Balanced ctx writes c w start s called ch printed pending)
    (channels : r.isOnChannels = false) (bytes : ∀ u bytes, r ≠ .offerBytes u bytes)
    (reply : r.perform? s = some (x, s')) :
    Balanced ctx writes c w start s' (called ++ [.asked r x]) ch printed pending := by
  have sink := System.target?_perform (bytes w) balanced.sink reply
  have noValue : valuesTo (.writing c) [.asked r x] = [] := by
    refine valuesTo_eq_nil ?_ _
    rintro d v rfl
    cases channels
  have noChunk : bytesTo (.writing w) [.asked r x] = [] := bytesTo_eq_nil bytes _
  refine ⟨?_, ?_, ?_, ?_, ?_, unrefused_append balanced.unrefused ?_⟩
  · rw [Request.channels_perform channels reply]
    exact balanced.here
  · rw [valuesTo_append, noValue, List.append_nil]
    exact balanced.values
  · rw [bytesTo_append, noChunk, List.append_nil]
    exact sink
  · rw [valuesTo_append, noValue, List.append_nil]
    exact balanced.noValues
  · rw [bytesTo_append, noChunk, List.append_nil]
    exact balanced.noBytes
  · intro view r' y mem writes
    cases List.mem_singleton.1 mem
    rw [outlet.output] at writes
    cases view <;> cases r <;> first | cases writes; done | skip
    · cases channels
    · exact absurd rfl (bytes _ _)
    · cases writes
      simp only [Request.perform?, System.flush, balanced.sink] at reply
      cases reply
      rfl

theorem perform (outlet : Outlet ctx c w)
    (balanced : Balanced ctx writes c w start s called ch printed pending)
    (readers : ch.readers ≠ 0) (writers : ch.writers ≠ 0)
    (acts : ctx.Acts writes r ∨ ∃ r' y, ctx.Acts writes r' ∧ r'.due? y = some r)
    (reply : r.perform? s = some (x, s')) :
    ∃ ch', ch'.readers = ch.readers ∧ ch'.writers = ch.writers ∧
      Balanced ctx writes c w start s' (called ++ [.asked r x]) ch' printed pending := by
  rcases acts_cases outlet acts with ⟨v, rfl, rfl⟩ | ⟨u, bytes, rfl, rfl⟩ | ⟨channels, bytes⟩
  · exact ⟨{ ch with queue := ch.queue ++ [v] }, rfl, rfl, balanced.offer readers writers
      (Option.some.inj reply)⟩
  · exact ⟨ch, rfl, rfl, balanced.offerBytes outlet (Option.some.inj reply)⟩
  · exact ⟨ch, rfl, rfl, balanced.quiet outlet channels bytes reply⟩

theorem after (outlet : Outlet ctx c w)
    (balanced : Balanced ctx writes c w start s called ch printed pending)
    (readers : ch.readers ≠ 0) (writers : ch.writers ≠ 0) (within : Within (ctx.Acts writes) es)
    (after : s.After es s') :
    ∃ ch', ch'.readers = ch.readers ∧ ch'.writers = ch.writers ∧
      Balanced ctx writes c w start s' (called ++ es) ch' printed pending := by
  induction after generalizing called ch with
  | nil => exact ⟨ch, rfl, rfl, by rwa [List.append_nil]⟩
  | @asked r x _ _ _ es reply _ ih =>
    obtain ⟨first, others⟩ := List.forall_mem_cons.1 within
    obtain ⟨r', x', same, acts⟩ := first
    cases same
    obtain ⟨ch₁, readers₁, writers₁, balanced₁⟩ :=
      balanced.perform outlet readers writers acts reply
    obtain ⟨ch₂, readers₂, writers₂, balanced₂⟩ :=
      ih balanced₁ (readers₁ ▸ readers) (writers₁ ▸ writers) others
    refine ⟨ch₂, readers₂.trans readers₁, writers₂.trans writers₁, ?_⟩
    rwa [List.append_assoc] at balanced₂
  | called _ _ =>
    obtain ⟨r, x, other, -⟩ := within _ (.head _)
    cases other

/-! ### What the printer does -/

theorem prints {q : Proc Unit}
    (balanced : Balanced ctx writes c w start s called ch printed pending)
    (prints : Prints c w
      (start ++ (bytesTo (.writing w) called ++ Builtin.bytesOf printed)) s pending q s') :
    ∃ ch' printed' pending', ch'.readers = ch.readers ∧ ch'.writers = ch.writers ∧
      Balanced ctx writes c w start s' called ch' printed' pending' ∧
      (Printing c w pending' q ∨
        q = donePrinting c w ∧ pending' = [] ∧ ch'.queue = [] ∧ ch'.writers = 0) := by
  cases prints with
  | onward printing => exact ⟨ch, printed, _, rfl, rfl, balanced, .inl printing⟩
  | @took v s' take =>
    rcases System.takeValue?_cases balanced.here take with
      ⟨v', rest, queue, same, rfl⟩ | ⟨-, -, other, -⟩
    · cases same
      refine ⟨{ ch with queue := rest, taken := ch.taken + 1 }, printed, [v], rfl, rfl,
        { balanced with here := System.channels_onChannel balanced.here, values := ?_ },
        .inl (.writing v)⟩
      simpa [queue] using balanced.values
    · cases other
  | ended take =>
    rcases System.takeValue?_cases balanced.here take with
      ⟨v, rest, -, other, -⟩ | ⟨queue, none, -, rfl⟩
    · cases other
    · exact ⟨ch, printed, [], rfl, rfl,
        { balanced with here := System.channels_onChannel balanced.here },
        .inr ⟨rfl, rfl, queue, none⟩⟩
  | wrote v ticket =>
    refine ⟨ch, printed ++ [v], [], rfl, rfl, ?_, .inl (.settling ticket)⟩
    have some : valuesTo (.writing c) called ≠ [] := by simp [balanced.values]
    have view : writes = .values := by
      cases writes with
      | values => rfl
      | bytes => exact absurd (balanced.noValues rfl) some
    obtain ⟨writer, hw, -⟩ := Option.map_eq_some_iff.1 balanced.sink
    refine { balanced with values := ?_, sink := ?_ }
    · simpa using balanced.values
    · simp [System.target?, System.onWriter, Array.getElem?_modify, hw, balanced.noBytes view,
        Builtin.bytesOf, sink_append]

theorem release (balanced : Balanced ctx writes c w start s called ch printed pending)
    (e : PortEnd) : Balanced ctx writes c w start (s.release e) called
      { ch with
        writers := ch.writers - if e = .channel (.writing c) then 1 else 0
        readers := ch.readers - if e = .channel (.reading c) then 1 else 0 } printed pending := by
  obtain ⟨x, reply⟩ := perform_release (s := s) e
  have sink := System.target?_perform (by cases e <;> nofun) balanced.sink reply
  exact { balanced with here := System.channel_release balanced.here e, sink }

end Balanced

/-! ### Both together -/

section Together

variable {b : Builtin} {args : List Value} {p m m' : Proc Signal} {q q' : Proc Unit}

structure Course (h : Host) (b : Builtin) (ctx : Context) (args : List Value) (writes : View)
    (called : List Event) (p m : Proc Signal) (left : List PortEnd) : Prop where
  closes : ctx.Closes p m left
  does : Does h (b.call ctx args) called p
  heeds : ∃ due, Due (ctx.Acts writes) due ∧ Heeds (ctx.Acts writes) Builtin.Refused due p

theorem Course.step (course : Course h b ctx args writes called p m left)
    (step : Step h m s es m' s') :
    (∃ p', left = endsOf ctx.ports ∧ Within (ctx.Acts writes) es ∧ s.After es s' ∧
      Course h b ctx args writes (called ++ es) p' m' left) ∨
      ∃ e rest, left = e :: rest ∧ s' = s.release e ∧
        Course h b ctx args writes called p m' rest := by
  rcases course.closes.step step with ⟨p', call, closes⟩ | ⟨a, e, rest, x, -, rfl, -, rfl, closes⟩
  · obtain ⟨due, owed, heeds⟩ := course.heeds
    obtain ⟨within, due', owed', heeds'⟩ := heeds.step owed call
    have held : left = endsOf ctx.ports := by
      cases course.closes with
      | calling => rfl
      | releasing => cases call
    exact .inl ⟨p', held, within, call.after, closes, .next course.does call, due', owed', heeds'⟩
  · exact .inr ⟨e, rest, rfl, rfl, { course with closes }⟩

inductive Alongside (c : ChannelId) (w : WriterId) (ch : Channel Value) :
    List Value → Proc Unit → Prop
  | printing {pending : List Value} {q : Proc Unit} (printing : Printing c w pending q)
      (readers : ch.readers ≠ 0) : Alongside c w ch pending q
  | ended {held : List PortEnd} (apart : .channel (.writing c) ∉ held) (queue : ch.queue = [])
      (writers : ch.writers = 0) : Alongside c w ch [] (releasing () held)

structure Together (h : Host) (b : Builtin) (ctx : Context) (args : List Value) (writes : View)
    (c : ChannelId) (w : WriterId) (start : Array UInt8) (m : Proc Signal) (q : Proc Unit)
    (s : System) (called : List Event) (p : Proc Signal) (left : List PortEnd) (ch : Channel Value)
    (printed pending : List Value) : Prop where
  course : Course h b ctx args writes called p m left
  beside : Alongside c w ch pending q
  balanced : Balanced ctx writes c w start s called ch printed pending
  writers : ch.writers = left.count (.channel (.writing c))
  apart : .channel (.reading c) ∉ left

namespace Together

theorem call (outlet : Outlet ctx c w)
    (all : Together h b ctx args writes c w start m q s called p left ch printed pending)
    (step : Step h m s es m' s') :
    (∃ p' ch', Together h b ctx args writes c w start m' q s' (called ++ es) p' left ch' printed
      pending) ∨
      ∃ rest ch', Together h b ctx args writes c w start m' q s' called p rest ch' printed
        pending := by
  rcases all.course.step step with ⟨p', rfl, within, after, course⟩ | ⟨e, rest, rfl, rfl, course⟩
  · have one := all.writers.trans outlet.once
    have writers : ch.writers ≠ 0 := by rw [one]; exact Nat.one_ne_zero
    cases all.beside with
    | ended _ _ none => exact absurd none writers
    | printing printing readers =>
      obtain ⟨ch', readers', writers', balanced⟩ :=
        all.balanced.after outlet readers writers within after
      exact .inl ⟨p', ch', course, .printing printing (readers' ▸ readers), balanced,
        writers'.trans all.writers, all.apart⟩
  · obtain ⟨other, apart⟩ := not_or.1 (List.mem_cons.not.1 all.apart)
    refine .inr ⟨rest, _, course, ?_, all.balanced.release e, ?_, apart⟩
    · cases all.beside with
      | printing printing readers =>
        refine .printing printing ?_
        rw [if_neg (Ne.symm other)]
        exact readers
      | ended apart queue writers => exact .ended apart queue (by simp [writers])
    · rw [all.writers, List.count_cons]
      simp

theorem print (all : Together h b ctx args writes c w start m q s called p left ch printed pending)
    (step : Step h q s es q' s') :
    ∃ ch' printed' pending', Together h b ctx args writes c w start m q' s' called p left ch'
      printed' pending' := by
  cases all.beside with
  | printing printing readers =>
    obtain ⟨ch', printed', pending', readers', writers', balanced, next⟩ :=
      all.balanced.prints (printing.step all.balanced.sink step)
    refine ⟨ch', printed', pending', all.course, ?_, balanced, writers'.trans all.writers,
      all.apart⟩
    rcases next with printing | ⟨rfl, rfl, queue, none⟩
    · exact .printing printing (readers' ▸ readers)
    · exact .ended (by simp) queue none
  | @ended held apart queue writers =>
    obtain ⟨e, rest, x, rfl, rfl, -, rfl⟩ := step_releasing step
    obtain ⟨other, apart⟩ := not_or.1 (List.mem_cons.not.1 apart)
    refine ⟨_, printed, [], all.course, ?_, all.balanced.release e, ?_, all.apart⟩
    · exact .ended apart queue (by simp [writers])
    · rw [if_neg (Ne.symm other)]
      exact all.writers

theorem outcome (all : Together h b ctx args writes c w start m q s called p left ch printed pending)
    {x : Outcome Signal} {y : Outcome Unit} (returned : m.outcome? = some x)
    (ended : q.outcome? = some y) :
    ∃ r, x = .returned r ∧ p = .done r ∧ pending = [] ∧ ch.queue = [] := by
  obtain ⟨rfl, r, rfl, rfl⟩ := all.course.closes.outcome returned
  cases all.beside with
  | printing printing _ => rw [printing.outcome] at ended; cases ended
  | ended _ queue _ => exact ⟨r, rfl, rfl, rfl, queue⟩

end Together

theorem runs_beside (outlet : Outlet ctx c w)
    (heeds : Heeds (ctx.Acts writes) Builtin.Refused none (b.call ctx args))
    (here : s.channels[c.index]? = some ch) (fresh : ch.queue = []) (writers : ch.writers = 1)
    (readers : ch.readers ≠ 0) (sink : s.target? w = some (.sink start none none))
    {o : Outcome Signal} (run : Runs h (.both
      (ctx.closing fun ctx => (b.call ctx args).bind fun r => .done (r, ctx))
      (printValues (.reading c) (.writing w)) fun r _ => Proc.ofOutcome r) s es o s') :
    ∃ r called, o = .returned r ∧ called.Sublist es ∧ Does h (b.call ctx args) called (.done r) ∧
      (valuesTo (.writing c) called = [] ∨ bytesTo (.writing w) called = []) ∧
      Unrefused ctx.output called ∧ s'.target? w = some (.sink
        (start ++ (bytesTo (.writing w) called ++ Builtin.bytesOf (valuesTo (.writing c) called)))
        none none) := by
  rw [printValues_eq] at run
  let motive (m : Proc Signal) (q : Proc Unit) (s : System) (es : List Event) : Prop :=
    ∃ called p left ch printed pending, called.Sublist es ∧
      Together h b ctx args writes c w start m q s called p left ch printed pending
  have begun : motive (ctx.closing fun ctx => (b.call ctx args).bind fun r => .done (r, ctx))
      (printer c w) s [] := by
    refine ⟨[], b.call ctx args, endsOf ctx.ports, ch, [], [], .slnil, ?_, ?_, ?_, ?_, outlet.never⟩
    · exact ⟨Context.closes_closing (Builtin.safe_call b ctx args), .nothing, none, nofun, heeds⟩
    · exact .printing .turn readers
    · exact ⟨here, by rw [fresh]; rfl, by simpa [bytesTo, chunksTo, Builtin.bytesOf] using sink,
        fun _ => rfl, fun _ => rfl, nofun⟩
    · rw [writers, outlet.once]
  have call {m q s es es' m' s'} (sofar : motive m q s es) (step : Step h m s es' m' s') :
      motive m' q s' (es ++ es') := by
    obtain ⟨called, p, left, ch, printed, pending, part, all⟩ := sofar
    rcases all.call outlet step with ⟨p', ch', all'⟩ | ⟨rest, ch', all'⟩
    · exact ⟨_, p', left, ch', printed, pending, part.append (List.Sublist.refl es'), all'⟩
    · exact ⟨called, p, rest, ch', printed, pending, part.trans (List.sublist_append_left ..), all'⟩
  have print {m q s es es' q' s'} (sofar : motive m q s es) (step : Step h q s es' q' s') :
      motive m q' s' (es ++ es') := by
    obtain ⟨called, p, left, ch, printed, pending, part, all⟩ := sofar
    obtain ⟨ch', printed', pending', all'⟩ := all.print step
    exact ⟨called, p, left, ch', printed', pending', part.trans (List.sublist_append_left ..), all'⟩
  obtain ⟨m, q, x, y, s₁, es₁, es₂, rfl, sofar, returned, ended, rest⟩ :=
    runs_both begun call print run
  obtain ⟨called, p, left, ch, printed, pending, part, all⟩ := sofar
  obtain ⟨r, rfl, rfl, rfl, queue⟩ := all.outcome returned ended
  obtain ⟨rfl, rfl, rfl⟩ := runs_ofOutcome.1 rest
  have values : valuesTo (.writing c) called = printed := by
    rw [all.balanced.values, queue, List.append_nil, List.append_nil]
  refine ⟨r, called, rfl, part.trans (List.sublist_append_left ..), all.course.does, ?_,
    all.balanced.unrefused, by rw [values]; exact all.balanced.sink⟩
  cases writes with
  | values => exact .inr (all.balanced.noBytes rfl)
  | bytes => exact .inl (all.balanced.noValues rfl)

end Together

variable {b : Builtin} {args : List String} {capacities : Capacities} {input aux : StreamEnd}

theorem outlet_callContext (s : System) (input aux : StreamEnd) (w : WriterId) :
    Outlet (callContext s input (.writing w) aux) ⟨s.channels.size⟩ w := by
  refine ⟨rfl, rfl, rfl, ?_, ?_, rfl, rfl⟩
  · simp [callContext, Context.ofPorts, Context.padded, Context.roles, endsOf, Port.ends]
  · simp [callContext, Context.ofPorts, Context.padded, Context.roles, endsOf, Port.ends]

/-- Nothing is lost and nothing mixed.  Where the output accepts all that is written to it, the
builtin writes values or bytes, never both, and none of its writes is refused; when the call has
returned, with whichever signal, there is on the output all that was there before, and behind it the
bytes that the builtin wrote or a line for each value, in order. -/
theorem calls_print_all (standard : b ∈ Builtin.standard)
    (sink : s.target? w = some (.sink start none none)) {o : Outcome Signal}
    (run : Runs h (callBuiltin b args capacities input (.writing w) aux) s es o s') :
    ∃ r called, o = .returned r ∧ called.Sublist es ∧
      Does h (b.call (callContext s input (.writing w) aux) (args.map .string)) called (.done r) ∧
      (valuesTo (.writing ⟨s.channels.size⟩) called = [] ∨ bytesTo (.writing w) called = []) ∧
      Unrefused (callContext s input (.writing w) aux).output called ∧
      s'.target? w = some (.sink (start ++ (bytesTo (.writing w) called ++
        Builtin.bytesOf (valuesTo (.writing ⟨s.channels.size⟩) called))) none none) ∧
      -- The lines are those that the values would be made into.
      ∀ (ctx : Context) (t : System) (before : Bytes),
        t.LeftToRead ctx.input.channel (valuesTo (.writing ⟨s.channels.size⟩) called) →
        t.BytesWritten ctx.output.stream before
          (valuesTo (.writing ⟨s.channels.size⟩) called).length →
        Meets h (Builtin.intoLines ctx) t fun r t' => r = .ok ∧ t'.BytesWritten ctx.output.stream
          (before ++ Builtin.bytesOf (valuesTo (.writing ⟨s.channels.size⟩) called)) 0 := by
  obtain ⟨writes, heeds⟩ := Builtin.heeds_standard standard
  have outlet := outlet_callContext s input aux w
  obtain ⟨c, s₁, es₁, made, rfl, run₁⟩ := runs_request.1 run
  obtain ⟨_, s₂, es₂, held, rfl, run₂⟩ := runs_request.1 run₁
  obtain ⟨store, s₃, es₃, stored, rfl, run₃⟩ := runs_request.1 run₂
  obtain ⟨scope, s₄, es₄, opened, rfl, run₄⟩ := runs_request.1 run₃
  have sink₁ := System.target?_perform (by nofun) sink made
  have sink₂ := System.target?_perform (by nofun) sink₁ held
  have sink₃ := System.target?_perform (by nofun) sink₂ stored
  have sink₄ := System.target?_perform (by nofun) sink₃ opened
  cases made
  cases held
  cases stored
  cases opened
  obtain ⟨r, called, ho, part, does, either, unrefused, printed⟩ :=
    runs_beside outlet (heeds _ _ ⟨rfl, rfl⟩) (Array.getElem?_push_size ..) rfl rfl
      Nat.one_ne_zero sink₄ run₄
  exact ⟨r, called, ho, (((part.cons _).cons _).cons _).cons _, does, either, unrefused, printed,
    fun ctx t before left room => Builtin.meets_intoLines left room⟩

namespace TwoPrinted

def system : System where
  writers := #[{ target := .sink #[] none none }]

def call : Proc Signal :=
  callBuiltin (.raw "put" Builtin.put) ["a", "b c"] { channel := 0 } .closed (.writing ⟨0⟩) .closed

def lines : Bytes := Utf8.encode "a\nb c\n"

theorem two_values_printed :
    .raw "put" Builtin.put ∈ Builtin.standard ∧
      system.target? ⟨0⟩ = some (.sink #[] none none) ∧
      ∃ es s', Runs .none call system es (.returned .ok) s' ∧
        s'.target? ⟨0⟩ = some (.sink ⟨lines⟩ none none) ∧ ∃ called,
          (valuesTo (.writing ⟨0⟩) called = [] ∨ bytesTo (.writing ⟨0⟩) called = []) ∧
          bytesTo (.writing ⟨0⟩) called ++ Builtin.bytesOf (valuesTo (.writing ⟨0⟩) called) =
            lines := by
  have standard : .raw "put" Builtin.put ∈ Builtin.standard := .tail _ (.tail _ (.head _))
  obtain ⟨es, s', run, sink⟩ : ∃ es s', Runs .none call system es (.returned .ok) s' ∧
      s'.target? ⟨0⟩ = some (.sink ⟨lines⟩ none none) := by
    have ends : (Proc.run .none 60 call system).1 = some (.returned .ok) := by rfl
    obtain ⟨es, run⟩ := runs_of_run (Prod.ext ends rfl)
    exact ⟨es, _, run, rfl⟩
  obtain ⟨r, called, -, -, -, either, -, all, -⟩ := calls_print_all standard rfl run
  have same := Target.sink.inj (Option.some.inj (sink.symm.trans all))
  have bytes := congrArg Array.toList same.1
  exact ⟨standard, rfl, es, s', run, sink, called, either, by simpa [system] using bytes.symm⟩

end TwoPrinted

end CommandLine

end Conduit
