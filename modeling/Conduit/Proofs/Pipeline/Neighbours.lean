import Conduit.Proofs.Pipeline.Abreast
import Conduit.Proofs.Pipeline.Setup

/-!
What one call of a pipeline does to the conduits of another one: it may put something into the other
one's input, and it may take from its output, and nothing else.
-/

namespace Conduit

structure Apart (s : System) (other ctx : Context) : Prop where
  input : ∀ c, other.input.channel = .reading c → ctx.input.channel ≠ .reading c
  reader : ∀ q, other.input.stream = .reading q → ctx.input.stream ≠ .reading q
  bytes : ∀ q q' p, other.input.stream = .reading q → ctx.input.stream = .reading q' →
    s.readingPipe? q = some p → s.readingPipe? q' ≠ some p
  output : ∀ c, other.output.channel = .writing c → ctx.output.channel ≠ .writing c
  writer : ∀ w, other.output.stream = .writing w → ctx.output.stream ≠ .writing w
  sent : ∀ w w' p, other.output.stream = .writing w → ctx.output.stream = .writing w' →
    s.writingPipe? w = some p → s.writingPipe? w' ≠ some p

structure Fares (ctx : Context) (s s' : System) (ev : Event) : Prop where
  values : ∀ c x, ctx.input.channel = .reading c → s.channels[c.index]? = some x →
    ∃ x', s'.channels[c.index]? = some x' ∧ x.Moved x' [] (valuesTo (.writing c) [ev])
  reader : ∀ q, ctx.input.stream = .reading q → s'.readers[q.index]? = s.readers[q.index]?
  bytes : ∀ q p x, ctx.input.stream = .reading q → s.readingPipe? q = some p →
    s.pipes[p.index]? = some x → ∃ x', s'.pipes[p.index]? = some x' ∧
      x.Moved x' [] (s.chunksInto p [ev])
  output : ∀ c x, ctx.output.channel = .writing c → s.channels[c.index]? = some x →
    ∃ x', s'.channels[c.index]? = some x' ∧ x'.offered = x.offered
  target : ∀ w k, ctx.output.stream = .writing w → s.target? w = some k → s'.target? w = some k
  sent : ∀ w p x, ctx.output.stream = .writing w → s.writingPipe? w = some p →
    s.pipes[p.index]? = some x → ∃ x', s'.pipes[p.index]? = some x' ∧ x'.offered = x.offered

variable {ctx other : Context} {s s' t t' : System} {reads writes : View} {due : Option Request}
  {r : Request} {x : r.Reply} {beyond left left' : Supply}

section Values

variable {c : ChannelId}

theorem taken_of_act (act : other.Act reads writes due r)
    (apart : other.input.channel ≠ .reading c) : taken c [.asked r x] = [] := by
  cases act with
  | @take _ _ d input =>
    have differs : d ≠ c := fun same => apart (same ▸ input)
    cases x <;> simp [taken, Event.takenFrom?, differs]
  | _ => rfl

theorem valuesTo_of_act (act : other.Act reads writes due r)
    (apart : other.output.channel ≠ .writing c) : valuesTo (.writing c) [.asked r x] = [] := by
  cases act with
  | @offer _ _ d v output =>
    have differs : ChannelEnd.writing c ≠ .writing d :=
      fun same => apart (ChannelEnd.writing.inj same ▸ output)
    cases x <;> simp [valuesTo, Event.valueTo?, differs]
  | _ => rfl

theorem chunksInto_of_act {p : PipeId} (act : other.Act reads writes due r)
    (apart : ∀ w, other.output.stream = .writing w → s.writingPipe? w ≠ some p) :
    s.chunksInto p [.asked r x] = [] := by
  cases act with
  | @offerBytes _ _ w _ output =>
    cases x with
    | ok ticket => rw [System.chunksInto_offerBytes, if_neg (apart w output)]
    | error message => rfl
  | _ => rfl

end Values

theorem fares_of_act (apart : Apart s other ctx) (act : other.Act reads writes due r)
    (reply : r.perform? s = some (x, s')) : Fares ctx s s' (.asked r x) where
  values c u input here := by
    obtain ⟨u', here', moved⟩ := System.moved_channel act.isTransfer reply here
    rw [taken_of_act act fun same => apart.input c same input] at moved
    exact ⟨u', here', moved⟩
  reader q input := by
    refine System.readers_perform act.isTransfer ?_ ?_ reply
    · rintro rfl
      cases act with | fill input' => exact apart.reader q input' input
    · rintro n rfl
      cases act with | consume _ input' => exact apart.reader q input' input
  bytes q p u input pipe here := by
    obtain ⟨u', out, here', moved, own⟩ := System.moved_pipe act.isTransfer reply here
    obtain rfl : out = [] := by
      refine own.resolve_right ?_
      rintro ⟨q', rfl, pipe'⟩
      cases act with | fill input' => exact apart.bytes q' q p input' input pipe' pipe
    exact ⟨u', here', moved⟩
  output c u output here := by
    obtain ⟨u', here', moved⟩ := System.moved_channel act.isTransfer reply here
    rw [valuesTo_of_act act fun same => apart.output c same output] at moved
    exact ⟨u', here', moved.offered⟩
  target w k output target := by
    refine System.target?_perform ?_ target reply
    rintro bytes rfl
    cases act with | offerBytes output' => exact apart.writer w output' output
  sent w p u output pipe here := by
    obtain ⟨u', out, here', moved, -⟩ := System.moved_pipe act.isTransfer reply here
    rw [chunksInto_of_act act fun w' output' pipe' =>
      apart.sent w' w p output' output pipe' pipe] at moved
    exact ⟨u', here', moved.offered⟩

instance : Append Supply where
  append first rest := ⟨first.values ++ rest.values, first.chunks ++ rest.chunks⟩

namespace Abreast

theorem beside {ev : Event} (abreast : Abreast ctx s t beyond left) (fares : Fares ctx s s' ev)
    (pipes : ∀ q, s'.readingPipe? q = s.readingPipe? q)
    (sinks : ∀ w, s'.writingPipe? w = s.writingPipe? w) (more : Supply)
    (values : ∀ c, ctx.input.channel = .reading c →
      left.values ++ more.values = valuesTo (.writing c) [ev] ++ left'.values ∧
        (more.values ≠ [] → ∀ y, t.channels[c.index]? = some y → y.writers ≠ 0))
    (bytes : ∀ q p, ctx.input.stream = .reading q → s.readingPipe? q = some p →
      left.chunks ++ more.chunks = s.chunksInto p [ev] ++ left'.chunks ∧
        (more.chunks ≠ [] → ∀ y, t.pipes[p.index]? = some y → y.writers ≠ 0)) :
    Abreast ctx s' t (beyond ++ more) left' where
  values c input := by
    obtain ⟨u, v, hu, hv, fed⟩ := abreast.values c input
    obtain ⟨u', hu', moved⟩ := fares.values c u input hu
    obtain ⟨account, unended⟩ := values c input
    exact ⟨u', v, hu', hv, fed.offered moved account fun some => unended some v hv⟩
  reader q input := by
    obtain ⟨u, v, hu, hv, same⟩ := abreast.reader q input
    exact ⟨u, v, by rw [fares.reader q input, hu], hv, same⟩
  bytes q p input pipe := by
    rw [pipes] at pipe
    obtain ⟨u, v, hu, hv, fed⟩ := abreast.bytes q p input pipe
    obtain ⟨u', hu', moved⟩ := fares.bytes q p u input pipe hu
    obtain ⟨account, unended⟩ := bytes q p input pipe
    exact ⟨u', v, hu', hv, fed.offered moved account fun some => unended some v hv⟩
  output c output := by
    obtain ⟨u, v, hu, hv, offered⟩ := abreast.output c output
    obtain ⟨u', hu', same⟩ := fares.output c u output hu
    exact ⟨u', v, hu', hv, same.trans offered⟩
  target w output := by
    obtain ⟨k, hs, ht⟩ := abreast.target w output
    exact ⟨k, fares.target w k output hs, ht⟩
  sent w p output pipe := by
    rw [sinks] at pipe
    obtain ⟨u, v, hu, hv, offered⟩ := abreast.sent w p output pipe
    obtain ⟨u', hu', same⟩ := fares.sent w p u output pipe hu
    exact ⟨u', v, hu', hv, same.trans offered⟩

theorem readingPipe? (abreast : Abreast ctx s t beyond left) {q : ReaderId}
    (input : ctx.input.stream = .reading q) : s.readingPipe? q = t.readingPipe? q := by
  obtain ⟨u, v, hu, hv, same⟩ := abreast.reader q input
  exact System.readingPipe?_congr hu hv same.1

theorem before {ev : Event} (abreast : Abreast ctx s t {} left) (fares : Fares ctx t t' ev)
    (values : ∀ c, ctx.input.channel = .reading c →
      left'.values = left.values ++ valuesTo (.writing c) [ev])
    (bytes : ∀ q p, ctx.input.stream = .reading q → t.readingPipe? q = some p →
      left'.chunks = left.chunks ++ t.chunksInto p [ev]) : Abreast ctx s t' {} left' where
  values c input := by
    obtain ⟨u, v, hu, hv, fed⟩ := abreast.values c input
    obtain ⟨v', hv', moved⟩ := fares.values c v input hv
    rw [values c input]
    exact ⟨u, v', hu, hv', fed.provided moved⟩
  reader q input := by
    obtain ⟨u, v, hu, hv, same⟩ := abreast.reader q input
    exact ⟨u, v, hu, by rw [fares.reader q input, hv], same⟩
  bytes q p input pipe := by
    obtain ⟨u, v, hu, hv, fed⟩ := abreast.bytes q p input pipe
    rw [abreast.readingPipe? input] at pipe
    obtain ⟨v', hv', moved⟩ := fares.bytes q p v input pipe hv
    rw [bytes q p input pipe]
    exact ⟨u, v', hu, hv', fed.provided moved⟩
  output c output := by
    obtain ⟨u, v, hu, hv, offered⟩ := abreast.output c output
    obtain ⟨v', hv', same⟩ := fares.output c v output hv
    exact ⟨u, v', hu, hv', offered.trans same.symm⟩
  target w output := by
    obtain ⟨k, hs, ht⟩ := abreast.target w output
    exact ⟨k, hs, fares.target w k output ht⟩
  sent w p output pipe := by
    obtain ⟨u, v, hu, hv, offered⟩ := abreast.sent w p output pipe
    rw [abreast.writingPipe? output] at pipe
    obtain ⟨v', hv', same⟩ := fares.sent w p v output pipe hv
    exact ⟨u, v', hu, hv', offered.trans same.symm⟩

end Abreast

/-! ### The same contents -/

namespace System

structure Alike (s t : System) : Prop where
  channels : ∀ i : Nat, (s.channels[i]?).map Channel.contents = (t.channels[i]?).map Channel.contents
  pipes : ∀ i : Nat, (s.pipes[i]?).map Channel.contents = (t.pipes[i]?).map Channel.contents
  readers : ∀ i : Nat, (s.readers[i]?).map ByteReader.data = (t.readers[i]?).map ByteReader.data
  writers : ∀ i : Nat, (s.writers[i]?).map ByteWriter.target = (t.writers[i]?).map ByteWriter.target

theorem Alike.refl (s : System) : s.Alike s := ⟨fun _ => rfl, fun _ => rfl, fun _ => rfl, fun _ => rfl⟩

theorem Alike.trans {u : System} (first : s.Alike t) (rest : t.Alike u) : s.Alike u :=
  ⟨fun i => (first.channels i).trans (rest.channels i), fun i => (first.pipes i).trans (rest.pipes i),
    fun i => (first.readers i).trans (rest.readers i),
    fun i => (first.writers i).trans (rest.writers i)⟩

theorem alike_of_laid {s₀ : System} {made : Nat} (laid : Pipeline.Laid s₀ s made)
    (laid' : Pipeline.Laid s₀ t made) : s.Alike t :=
  ⟨laid.channels.alike laid'.channels, laid.pipes.alike laid'.pipes,
    laid.readers.alike laid'.readers, laid.writers.alike laid'.writers⟩

theorem alike_release (s : System) (e : PortEnd) : s.Alike (s.release e) :=
  alike_of_laid (Pipeline.laid_refl s) ((Pipeline.laid_refl s).release e)

theorem exists_of_contents {α : Type} {xs ys : Array (Channel α)} {i : Nat} {u : Channel α}
    (same : (xs[i]?).map Channel.contents = (ys[i]?).map Channel.contents)
    (here : xs[i]? = some u) :
    ∃ v, ys[i]? = some v ∧ v.queue = u.queue ∧ v.offered = u.offered := by
  rw [here] at same
  obtain ⟨v, there, contents⟩ := Option.map_eq_some_iff.1 same.symm
  simp only [Channel.contents, Prod.mk.injEq] at contents
  exact ⟨v, there, contents.1, by rw [Channel.offered, Channel.offered, contents.1, contents.2]⟩

theorem Alike.exists_reader (alike : s.Alike t) {q : ReaderId} {u : ByteReader}
    (here : s.readers[q.index]? = some u) : ∃ v, t.readers[q.index]? = some v ∧ u.SameData v := by
  have same := alike.readers q.index
  rw [here] at same
  obtain ⟨v, there, data⟩ := Option.map_eq_some_iff.1 same.symm
  simp only [ByteReader.data, Prod.mk.injEq] at data
  exact ⟨v, there, data.1.symm, data.2.1.symm, data.2.2.symm⟩

theorem Alike.target? (alike : s.Alike t) (w : WriterId) : s.target? w = t.target? w :=
  alike.writers w.index

theorem Alike.readingPipe? (alike : s.Alike t) (q : ReaderId) :
    s.readingPipe? q = t.readingPipe? q := by
  have same := congrArg (Option.map Prod.fst) (alike.readers q.index)
  rw [Option.map_map, Option.map_map] at same
  exact congrArg (Option.bind · Source.pipe?) same

end System

theorem ByteReader.SameData.trans {u v w : ByteReader} (first : u.SameData v)
    (rest : v.SameData w) : u.SameData w :=
  ⟨first.1.trans rest.1, first.2.1.trans rest.2.1, first.2.2.trans rest.2.2⟩

theorem ByteReader.SameData.symm {u v : ByteReader} (same : u.SameData v) : v.SameData u :=
  ⟨same.1.symm, same.2.1.symm, same.2.2.symm⟩

structure Context.Present (ctx : Context) (s : System) : Prop where
  values : ∀ c, ctx.input.channel = .reading c → ∃ u, s.channels[c.index]? = some u
  reader : ∀ q, ctx.input.stream = .reading q → ∃ u, s.readers[q.index]? = some u
  bytes : ∀ q p, ctx.input.stream = .reading q → s.readingPipe? q = some p →
    ∃ u, s.pipes[p.index]? = some u
  output : ∀ c, ctx.output.channel = .writing c → ∃ u, s.channels[c.index]? = some u
  target : ∀ w, ctx.output.stream = .writing w → ∃ k, s.target? w = some k
  sent : ∀ w p, ctx.output.stream = .writing w → s.writingPipe? w = some p →
    ∃ u, s.pipes[p.index]? = some u

namespace Abreast

theorem of_alike (present : ctx.Present s) (alike : s.Alike t) : Abreast ctx s t {} {} where
  values c input := by
    obtain ⟨u, hu⟩ := present.values c input
    obtain ⟨v, hv, queue, -⟩ := System.exists_of_contents (alike.channels c.index) hu
    exact ⟨u, v, hu, hv, by rw [queue], nofun⟩
  reader q input := by
    obtain ⟨u, hu⟩ := present.reader q input
    obtain ⟨v, hv, same⟩ := alike.exists_reader hu
    exact ⟨u, v, hu, hv, same⟩
  bytes q p input pipe := by
    obtain ⟨u, hu⟩ := present.bytes q p input pipe
    obtain ⟨v, hv, queue, -⟩ := System.exists_of_contents (alike.pipes p.index) hu
    exact ⟨u, v, hu, hv, by rw [queue], nofun⟩
  output c output := by
    obtain ⟨u, hu⟩ := present.output c output
    obtain ⟨v, hv, -, offered⟩ := System.exists_of_contents (alike.channels c.index) hu
    exact ⟨u, v, hu, hv, offered.symm⟩
  target w output := by
    obtain ⟨k, hk⟩ := present.target w output
    exact ⟨k, hk, (alike.target? w).symm.trans hk⟩
  sent w p output pipe := by
    obtain ⟨u, hu⟩ := present.sent w p output pipe
    obtain ⟨v, hv, -, offered⟩ := System.exists_of_contents (alike.pipes p.index) hu
    exact ⟨u, v, hu, hv, offered.symm⟩

theorem alike_first (abreast : Abreast ctx s t beyond left) (alike : s.Alike s') :
    Abreast ctx s' t beyond left where
  values c input := by
    obtain ⟨u, v, hu, hv, fed⟩ := abreast.values c input
    obtain ⟨u', hu', queue, -⟩ := System.exists_of_contents (alike.channels c.index) hu
    exact ⟨u', v, hu', hv, by rw [queue]; exact fed.queue, fed.unended⟩
  reader q input := by
    obtain ⟨u, v, hu, hv, same⟩ := abreast.reader q input
    obtain ⟨u', hu', same'⟩ := alike.exists_reader hu
    exact ⟨u', v, hu', hv, same'.symm.trans same⟩
  bytes q p input pipe := by
    rw [← alike.readingPipe? q] at pipe
    obtain ⟨u, v, hu, hv, fed⟩ := abreast.bytes q p input pipe
    obtain ⟨u', hu', queue, -⟩ := System.exists_of_contents (alike.pipes p.index) hu
    exact ⟨u', v, hu', hv, by rw [queue]; exact fed.queue, fed.unended⟩
  output c output := by
    obtain ⟨u, v, hu, hv, offered⟩ := abreast.output c output
    obtain ⟨u', hu', -, same⟩ := System.exists_of_contents (alike.channels c.index) hu
    exact ⟨u', v, hu', hv, same.trans offered⟩
  target w output := by
    obtain ⟨k, hs, ht⟩ := abreast.target w output
    exact ⟨k, (alike.target? w).symm.trans hs, ht⟩
  sent w p output pipe := by
    rw [System.writingPipe?, ← alike.target? w] at pipe
    obtain ⟨u, v, hu, hv, offered⟩ := abreast.sent w p output pipe
    obtain ⟨u', hu', -, same⟩ := System.exists_of_contents (alike.pipes p.index) hu
    exact ⟨u', v, hu', hv, same.trans offered⟩

theorem alike_second (abreast : Abreast ctx s t {} left) (alike : t.Alike t') :
    Abreast ctx s t' {} left where
  values c input := by
    obtain ⟨u, v, hu, hv, fed⟩ := abreast.values c input
    obtain ⟨v', hv', queue, -⟩ := System.exists_of_contents (alike.channels c.index) hv
    exact ⟨u, v', hu, hv', by rw [queue]; exact fed.queue, nofun⟩
  reader q input := by
    obtain ⟨u, v, hu, hv, same⟩ := abreast.reader q input
    obtain ⟨v', hv', same'⟩ := alike.exists_reader hv
    exact ⟨u, v', hu, hv', same.trans same'⟩
  bytes q p input pipe := by
    obtain ⟨u, v, hu, hv, fed⟩ := abreast.bytes q p input pipe
    obtain ⟨v', hv', queue, -⟩ := System.exists_of_contents (alike.pipes p.index) hv
    exact ⟨u, v', hu, hv', by rw [queue]; exact fed.queue, nofun⟩
  output c output := by
    obtain ⟨u, v, hu, hv, offered⟩ := abreast.output c output
    obtain ⟨v', hv', -, same⟩ := System.exists_of_contents (alike.channels c.index) hv
    exact ⟨u, v', hu, hv', offered.trans same.symm⟩
  target w output := by
    obtain ⟨k, hs, ht⟩ := abreast.target w output
    exact ⟨k, hs, (alike.target? w).symm.trans ht⟩
  sent w p output pipe := by
    obtain ⟨u, v, hu, hv, offered⟩ := abreast.sent w p output pipe
    obtain ⟨v', hv', -, same⟩ := System.exists_of_contents (alike.pipes p.index) hv
    exact ⟨u, v', hu, hv', offered.trans same.symm⟩

end Abreast

end Conduit
