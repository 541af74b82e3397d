import Conduit.Proofs.Context.Closing
import Conduit.Proofs.System.Moves

/-!
The ends that the ports of a context hold, and what becomes of the holders of an end, and of the
pipe behind it, when it is held once more or given up.
-/

namespace Conduit

variable {s : System} {ctx : Context} {e : PortEnd} {ports : List Port} {p : Port} {i j : Nat}

namespace PortEnd

def isOpen : PortEnd → Bool
  | channel .closed | stream .closed => false
  | _ => true

theorem isOpen_of_holders (held : 0 < s.holders e) : e.isOpen := by
  rcases e with (_ | _ | _) | (_ | _ | _) <;> first | rfl | cases held

end PortEnd

/-! ### Ports of a context -/

/-- What a call writes comes back to it. -/
def Context.Looped (ctx : Context) (s : System) : Prop :=
  (∃ c, ctx.input.channel = .reading c ∧ ctx.output.channel = .writing c) ∨
    ∃ q w p, ctx.input.stream = .reading q ∧ ctx.output.stream = .writing w ∧
      s.readingPipe? q = some p ∧ s.writingPipe? w = some p

theorem holds_pos_iff : 0 < p.holds e ↔ e ∈ p.ends := by
  simp only [Port.holds, Port.ends, List.mem_cons, List.not_mem_nil, or_false]
  split <;> split <;> simp_all

theorem holdsOf_pos_iff : 0 < holdsOf e ports ↔ e ∈ endsOf ports := by
  induction ports with
  | nil => simp [holdsOf, endsOf]
  | cons p ports ih =>
    rw [endsOf] at ih
    rw [holdsOf, endsOf, List.flatMap_cons, List.mem_append, ← ih, ← holds_pos_iff]
    omega

theorem holdsOf_append (first rest : List Port) :
    holdsOf e (first ++ rest) = holdsOf e first + holdsOf e rest := by
  induction first with
  | nil => simp [holdsOf]
  | cons p first ih => simp [holdsOf, ih, Nat.add_assoc]

theorem holds_closed (isOpen : e.isOpen) : Port.closed.holds e = 0 := by
  rcases e with (_ | _ | _) | (_ | _ | _) <;> first | rfl | cases isOpen

theorem holdsOf_replicate_closed (isOpen : e.isOpen) (n : Nat) :
    holdsOf e (List.replicate n .closed) = 0 := by
  induction n with
  | zero => rfl
  | succ n ih => rw [List.replicate_succ, holdsOf, ih, holds_closed isOpen]

theorem holdsOf_set (p : Port) {old : Port} (here : ports[i]? = some old) :
    holdsOf e (ports.set i p) + old.holds e = holdsOf e ports + p.holds e := by
  induction ports generalizing i with
  | nil => cases here
  | cons first ports ih =>
    cases i with
    | zero =>
      cases here
      simp only [List.set_cons_zero, holdsOf]
      omega
    | succ i =>
      have rest := ih here
      simp only [List.set_cons_succ, holdsOf]
      omega

theorem holdsOf_singleton (p : Port) : holdsOf e [p] = p.holds e := Nat.add_zero _

theorem holdsOf_flatMap_eraseIdx {β : Type} {f : β → List Port} {xs : List β} {k : Nat} {x : β}
    (here : xs[k]? = some x) :
    holdsOf e ((xs.eraseIdx k).flatMap f) + holdsOf e (f x) = holdsOf e (xs.flatMap f) := by
  induction xs generalizing k with
  | nil => cases here
  | cons first xs ih =>
    cases k with
    | zero =>
      cases here
      simp only [List.eraseIdx_cons_zero, List.flatMap_cons, holdsOf_append]
      omega
    | succ k =>
      have rest := ih here
      simp only [List.eraseIdx_cons_succ, List.flatMap_cons, holdsOf_append]
      omega

theorem holdsOf_flatMap_set {β : Type} {f : β → List Port} {xs : List β} {k : Nat} {x : β}
    (here : xs[k]? = some x) (y : β) :
    holdsOf e ((xs.set k y).flatMap f) + holdsOf e (f x) =
      holdsOf e (xs.flatMap f) + holdsOf e (f y) := by
  have there : (xs.set k y)[k]? = some y :=
    List.getElem?_set_self (List.getElem?_eq_some_iff.1 here).1
  have before := holdsOf_flatMap_eraseIdx (e := e) (f := f) here
  have after := holdsOf_flatMap_eraseIdx (e := e) (f := f) there
  rw [List.eraseIdx_set_eq] at after
  omega

namespace Context

theorem length_padded (ports : List Port) (count : Nat) :
    (padded ports count).length = max ports.length count := by
  rw [padded, List.length_append, List.length_replicate]
  omega

theorem getElem?_padded (ports : List Port) (count i : Nat) : (padded ports count)[i]? =
    if i < ports.length then ports[i]? else if i < count then some .closed else none := by
  rw [padded, List.getElem?_append]
  split
  · rfl
  · rw [List.getElem?_replicate]
    congr 1
    exact propext (by omega)

theorem port?_putPort (ctx : Context) (i j : Nat) (p : Port) : (ctx.putPort i p).port? j =
    if j = i then some p
    else if j < ctx.ports.length then ctx.port? j
    else if j < i then some .closed else none := by
  rw [port?, putPort]
  by_cases same : j = i
  · subst same
    rw [if_pos rfl, List.getElem?_set_self (by rw [length_padded]; omega)]
  · rw [if_neg same, List.getElem?_set_ne (Ne.symm same), getElem?_padded]
    split
    · rfl
    · congr 1
      exact propext (by omega)

theorem port?_of_lt {ctx : Context} {i : Nat} (inside : i < ctx.ports.length) :
    ctx.port? i = some (ctx.port i) := by
  rw [port, port?, List.getElem?_eq_getElem inside]
  rfl

theorem port_of_le {ctx : Context} {i : Nat} (outside : ctx.ports.length ≤ i) :
    ctx.port i = .closed := by
  rw [port, port?, List.getElem?_eq_none outside]
  rfl

theorem port_putPort (ctx : Context) (i j : Nat) (p : Port) :
    (ctx.putPort i p).port j = if j = i then p else ctx.port j := by
  rw [port, port?_putPort]
  split
  · rfl
  · split
    · rfl
    · next outside =>
      rw [port_of_le (Nat.le_of_not_lt outside)]
      split <;> rfl

theorem holdsOf_padded (isOpen : e.isOpen) (ports : List Port) (count : Nat) :
    holdsOf e (padded ports count) = holdsOf e ports := by
  rw [padded, holdsOf_append, holdsOf_replicate_closed isOpen, Nat.add_zero]

theorem holdsOf_putPort (isOpen : e.isOpen) (ctx : Context) (i : Nat) (p : Port) :
    holdsOf e (ctx.putPort i p).ports + (ctx.port i).holds e =
      holdsOf e ctx.ports + p.holds e := by
  have here : (padded ctx.ports (i + 1))[i]? = some (ctx.port i) := by
    rw [getElem?_padded]
    split
    · next inside => exact port?_of_lt inside
    · next outside => rw [port_of_le (Nat.le_of_not_lt outside), if_pos (Nat.lt_succ_self i)]
  have all := holdsOf_set (e := e) p here
  rw [holdsOf_padded isOpen] at all
  exact all

theorem holdsOf_withoutPorts (isOpen : e.isOpen) (ctx : Context) :
    holdsOf e ctx.withoutPorts.ports = 0 := by
  rw [withoutPorts, List.map_const', holdsOf_replicate_closed isOpen]

theorem mem_endsOf_port (isOpen : e.isOpen) (mem : e ∈ (ctx.port i).ends) :
    e ∈ endsOf ctx.ports := by
  rw [port, port?] at mem
  cases here : ctx.ports[i]? with
  | none =>
    rw [here] at mem
    have none := holds_closed isOpen
    have some := holds_pos_iff.2 mem
    exact absurd none (Nat.ne_of_gt some)
  | some p =>
    rw [here] at mem
    exact List.mem_flatMap.2 ⟨p, List.mem_of_getElem? here, mem⟩

end Context

/-! ### Holding and giving up -/

namespace System

variable {s s' : System} {d e : PortEnd} {p : PipeId} {u : Nat → Nat}

def behind? (s : System) : PortEnd → Option PipeId
  | .stream (.reading r) => s.readingPipe? r
  | .stream (.writing w) => s.writingPipe? w
  | _ => none

end System

def PortEnd.dropSide : PortEnd → Channel Bytes → Channel Bytes
  | stream (.reading _) => Channel.dropReader
  | stream (.writing _) => Channel.dropWriter
  | _ => id

namespace System

variable {s s' : System} {d e : PortEnd} {p : PipeId} {u : Nat → Nat}

theorem isOpen_of_behind? {p : PipeId} (behind : s.behind? e = some p) : e.isOpen := by
  rcases e with e | (- | r | w)
  · cases behind
  · cases behind
  · rfl
  · rfl

theorem release_of_more (more : s.holders e = 1 → s.behind? e = none) :
    s.release e = s.recount (· - 1) e := by
  match e with
  | .channel d => exact releaseChannel_eq s d
  | .stream .closed => rfl
  | .stream (.reading r) =>
    simp only [release, releaseStream]
    split
    · next here => simp [behind?, readingPipe?, source?, holders, here, Source.pipe?] at more
    · rfl
  | .stream (.writing w) =>
    simp only [release, releaseStream]
    split
    · next here => simp [behind?, writingPipe?, target?, holders, here, Target.pipe?] at more
    · rfl

theorem release_of_last (last : s.holders e = 1) (behind : s.behind? e = some p) :
    s.release e = (s.recount (· - 1) e).onPipe p e.dropSide := by
  match e with
  | .channel _ | .stream .closed => cases behind
  | .stream (.reading r) =>
    cases here : s.readers[r.index]? with
    | none => simp [holders, here] at last
    | some x =>
      obtain ⟨source, size, buffer, holding⟩ := x
      cases source with
      | fixed rest failure => simp [behind?, readingPipe?, source?, here, Source.pipe?] at behind
      | pipe q rest =>
        simp only [behind?, readingPipe?, source?, here, Option.map_some, Option.bind_some,
          Source.pipe?, Option.some.injEq] at behind
        simp only [holders, here, Option.map_some, Option.getD_some] at last
        subst behind last
        simp only [release, releaseStream, here]
        rfl
  | .stream (.writing w) =>
    cases here : s.writers[w.index]? with
    | none => simp [holders, here] at last
    | some x =>
      obtain ⟨target, holding⟩ := x
      cases target with
      | sink _ _ _ => simp [behind?, writingPipe?, target?, here, Target.pipe?] at behind
      | pipe q =>
        simp only [behind?, writingPipe?, target?, here, Option.map_some, Option.bind_some,
          Target.pipe?, Option.some.injEq] at behind
        simp only [holders, here, Option.map_some, Option.getD_some] at last
        subst behind last
        simp only [release, releaseStream, here]
        rfl

theorem source?_recount (r : ReaderId) : (s.recount u d).source? r = s.source? r := by
  match d with
  | .stream (.reading q) =>
    exact map_getElem?_modify s.readers q.index r.index _ ByteReader.source fun _ => rfl
  | .channel .closed | .channel (.reading _) | .channel (.writing _) | .stream .closed
  | .stream (.writing _) => rfl

theorem target?_recount (w : WriterId) : (s.recount u d).target? w = s.target? w := by
  match d with
  | .stream (.writing v) =>
    exact map_getElem?_modify s.writers v.index w.index _ ByteWriter.target fun _ => rfl
  | .channel .closed | .channel (.reading _) | .channel (.writing _) | .stream .closed
  | .stream (.reading _) => rfl

theorem readingPipe?_recount (r : ReaderId) :
    (s.recount u d).readingPipe? r = s.readingPipe? r := by
  rw [readingPipe?, source?_recount]
  rfl

theorem writingPipe?_recount (w : WriterId) :
    (s.recount u d).writingPipe? w = s.writingPipe? w := by
  rw [writingPipe?, target?_recount]
  rfl

theorem pipes_recount : (s.recount u d).pipes = s.pipes := by
  rcases d with (_ | _ | _) | (_ | _ | _) <;> rfl

theorem holders_release (e : PortEnd) :
    (s.release d).holders e = if e = d then s.holders e - 1 else s.holders e := by
  rw [← holders_recount (u := (· - 1)) rfl d]
  cases d with
  | channel d => rw [release, releaseChannel_eq]
  | stream d => exact holders_releaseStream d

end System

end Conduit
