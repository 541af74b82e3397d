import Conduit.Proofs.Pipeline.Links

/-!
The accounts of a pipeline: how many hold each end, while the links are made and while the stages
run, and who holds the sides of the pipes behind the ends of the links.
-/

namespace Conduit

namespace System

def addLink (s : System) (capacities : Capacities) : System :=
  { s with
    channels := s.channels.push { capacity := some capacities.channel }
    pipes := s.pipes.push { capacity := some capacities.pipe }
    readers := s.readers.push
      { source := .pipe ⟨s.pipes.size⟩ [], bufferSize := ByteReader.standardBuffer }
    writers := s.writers.push { target := .pipe ⟨s.pipes.size⟩ } }

end System

namespace Pipeline

variable {s₀ s s' : System} {made : Nat} {held held' : PortEnd → Nat} {d e : PortEnd} {k : Nat}

def IsLinkEnd (s₀ : System) (made : Nat) (e : PortEnd) : Prop :=
  ∃ k < made, e ∈ (writingPort s₀ k).ends ∨ e ∈ (readingPort s₀ k).ends

structure Plumbed (s₀ s : System) (made : Nat) : Prop where
  oldReaders : ∀ r : ReaderId, r.index < s₀.readers.size → s.readingPipe? r = s₀.readingPipe? r
  oldWriters : ∀ w : WriterId, w.index < s₀.writers.size → s.writingPipe? w = s₀.writingPipe? w
  oldPipes : ∀ i < s₀.pipes.size,
    (s.pipes[i]?).map Channel.sides = (s₀.pipes[i]?).map Channel.sides
  linkReaders : ∀ k < made, s.readingPipe? (linkReader s₀ k) = some (linkPipe s₀ k)
  linkWriters : ∀ k < made, s.writingPipe? (linkWriter s₀ k) = some (linkPipe s₀ k)
  linkPipes : ∀ k < made, (s.pipes[(linkPipe s₀ k).index]?).map Channel.sides =
    some (min 1 (s.holders (.stream (.reading (linkReader s₀ k)))),
      min 1 (s.holders (.stream (.writing (linkWriter s₀ k)))))

structure Kept (s₀ s : System) (made : Nat) (held : PortEnd → Nat) : Prop
    extends Plumbed s₀ s made where
  holders : ∀ e, e.isOpen → s.holders e = s₀.holders e + held e

theorem Plumbed.sameShape (plumbed : Plumbed s₀ s made) (same : s.SameShape s') :
    Plumbed s₀ s' made where
  oldReaders r old := (same.readingPipe? r).trans (plumbed.oldReaders r old)
  oldWriters w old := (same.writingPipe? w).trans (plumbed.oldWriters w old)
  oldPipes i old := (same.pipes i).trans (plumbed.oldPipes i old)
  linkReaders k lt := (same.readingPipe? _).trans (plumbed.linkReaders k lt)
  linkWriters k lt := (same.writingPipe? _).trans (plumbed.linkWriters k lt)
  linkPipes k lt := by
    rw [same.holders, same.holders]
    exact (same.pipes _).trans (plumbed.linkPipes k lt)

theorem Kept.sameShape (kept : Kept s₀ s made held) (same : s.SameShape s') :
    Kept s₀ s' made held where
  toPlumbed := kept.toPlumbed.sameShape same
  holders e isOpen := (same.holders e).trans (kept.holders e isOpen)

theorem Plumbed.recount {u : Nat → Nat} (plumbed : Plumbed s₀ s made) (zero : u 0 = 0)
    (still : ∀ e, d = .stream e → min 1 (u (s.holders d)) = min 1 (s.holders d)) :
    Plumbed s₀ (s.recount u d) made := by
  have holders (e : StreamEnd) :
      min 1 ((s.recount u d).holders (.stream e)) = min 1 (s.holders (.stream e)) := by
    rw [holders_recount zero d]
    split
    · next same => rw [same, still e same.symm]
    · rfl
  constructor
  · exact fun r old => (System.readingPipe?_recount r).trans (plumbed.oldReaders r old)
  · exact fun w old => (System.writingPipe?_recount w).trans (plumbed.oldWriters w old)
  · rw [System.pipes_recount]
    exact plumbed.oldPipes
  · exact fun k lt => (System.readingPipe?_recount _).trans (plumbed.linkReaders k lt)
  · exact fun k lt => (System.writingPipe?_recount _).trans (plumbed.linkWriters k lt)
  · intro k lt
    rw [System.pipes_recount, holders, holders]
    exact plumbed.linkPipes k lt

theorem isLinkEnd_reading {r : ReaderId} :
    IsLinkEnd s₀ made (.stream (.reading r)) ↔ ∃ k < made, r = linkReader s₀ k := by
  simp [IsLinkEnd, Port.ends, writingPort, readingPort]

theorem isLinkEnd_writing {w : WriterId} :
    IsLinkEnd s₀ made (.stream (.writing w)) ↔ ∃ k < made, w = linkWriter s₀ k := by
  simp [IsLinkEnd, Port.ends, writingPort, readingPort]

theorem Plumbed.drop (plumbed : Plumbed s₀ s made) (last : s.holders d = 1) {p : PipeId}
    (behind : s.behind? d = some p) (link : IsLinkEnd s₀ made d) :
    Plumbed s₀ (s.release d) made := by
  have holders (e : PortEnd) := System.holders_release (s := s) (d := d) e
  rw [System.release_of_last last behind] at holders ⊢
  -- Only the pipe of one link changes, and there only the side whose end is given up.
  obtain ⟨k, lt, rfl, side⟩ : ∃ k < made, p = linkPipe s₀ k ∧
      (d = .stream (.reading (linkReader s₀ k)) ∨ d = .stream (.writing (linkWriter s₀ k))) := by
    rcases d with e | (- | r | w)
    · cases behind
    · cases behind
    · obtain ⟨k, lt, rfl⟩ := isLinkEnd_reading.1 link
      exact ⟨k, lt, Option.some.inj (behind.symm.trans (plumbed.linkReaders k lt)), .inl rfl⟩
    · obtain ⟨k, lt, rfl⟩ := isLinkEnd_writing.1 link
      exact ⟨k, lt, Option.some.inj (behind.symm.trans (plumbed.linkWriters k lt)), .inr rfl⟩
  have pipes : ((s.recount (· - 1) d).onPipe (linkPipe s₀ k) d.dropSide).pipes =
      s.pipes.modify (s₀.pipes.size + k) d.dropSide := by
    rw [System.onPipe, System.pipes_recount]
    rfl
  constructor
  · exact fun r old => (System.readingPipe?_recount r).trans (plumbed.oldReaders r old)
  · exact fun w old => (System.writingPipe?_recount w).trans (plumbed.oldWriters w old)
  · intro i old
    rw [pipes, Array.getElem?_modify, if_neg (by omega)]
    exact plumbed.oldPipes i old
  · exact fun j lt => (System.readingPipe?_recount _).trans (plumbed.linkReaders j lt)
  · exact fun j lt => (System.writingPipe?_recount _).trans (plumbed.linkWriters j lt)
  · intro j ltj
    have sides := plumbed.linkPipes j ltj
    rw [pipes, Array.getElem?_modify, holders, holders]
    by_cases same : j = k
    · subst same
      obtain ⟨ch, here, sides⟩ := Option.map_eq_some_iff.1 sides
      have here : s.pipes[s₀.pipes.size + j]? = some ch := here
      simp only [Channel.sides, Prod.mk.injEq] at sides
      rcases side with rfl | rfl
      · simp [linkPipe, here, PortEnd.dropSide, Channel.dropReader, Channel.sides, sides, last]
      · simp [linkPipe, here, PortEnd.dropSide, Channel.dropWriter, Channel.sides, sides, last]
    · have apart : s₀.pipes.size + k ≠ (linkPipe s₀ j).index := by
        simp only [linkPipe]
        omega
      have others : (.stream (.reading (linkReader s₀ j)) : PortEnd) ≠ d ∧
          (.stream (.writing (linkWriter s₀ j)) : PortEnd) ≠ d := by
        rcases side with rfl | rfl <;> simp [linkReader, linkWriter, same]
      rw [if_neg apart, if_neg others.1, if_neg others.2]
      exact sides

theorem Kept.release (kept : Kept s₀ s made held)
    (account : ∀ e, e.isOpen → held e = held' e + if e = d then 1 else 0)
    (link : d.isOpen → s₀.holders d = 0 → IsLinkEnd s₀ made d) :
    Kept s₀ (s.release d) made held' := by
  constructor
  · by_cases last : s.holders d = 1
    · have isOpen := PortEnd.isOpen_of_holders (s := s) (e := d) (by omega)
      have all := kept.holders d isOpen
      have own := account d isOpen
      rw [if_pos rfl] at own
      cases behind : s.behind? d with
      | none =>
        rw [System.release_of_more fun _ => behind]
        refine kept.toPlumbed.recount rfl fun e same => ?_
        subst same
        match e with
        | .reading r =>
          obtain ⟨k, lt, rfl⟩ := isLinkEnd_reading.1 (link isOpen (by omega))
          exact absurd ((kept.linkReaders k lt).symm.trans behind) nofun
        | .writing w =>
          obtain ⟨k, lt, rfl⟩ := isLinkEnd_writing.1 (link isOpen (by omega))
          exact absurd ((kept.linkWriters k lt).symm.trans behind) nofun
        | .closed => cases isOpen
      | some p => exact kept.toPlumbed.drop last behind (link isOpen (by omega))
    · rw [System.release_of_more fun one => absurd one last]
      exact kept.toPlumbed.recount rfl fun _ _ => by omega
  · intro e isOpen
    have all := kept.holders e isOpen
    have own := account e isOpen
    rw [System.holders_release]
    split
    · next same => rw [if_pos same] at own; omega
    · next other => rw [if_neg other] at own; omega

theorem Kept.hold (kept : Kept s₀ s made held)
    (account : ∀ e, e.isOpen → held' e = held e + if e = d then 1 else 0)
    (present : d.isOpen → 0 < s₀.holders d) : Kept s₀ (s.recount oneMore d) made held' := by
  constructor
  · refine kept.toPlumbed.recount rfl fun _ _ => ?_
    rw [oneMore]
    split <;> omega
  · intro e isOpen
    have all := kept.holders e isOpen
    have own := account e isOpen
    rw [holders_recount rfl]
    split
    · next same =>
      have present := present (same ▸ isOpen)
      rw [← same] at present
      rw [if_pos same] at own
      rw [oneMore, if_neg (by omega)]
      omega
    · next other => rw [if_neg other] at own; omega

/-! ### Adding a link -/

structure Sized (s₀ s : System) (made : Nat) : Prop where
  channels : s.channels.size = s₀.channels.size + made
  pipes : s.pipes.size = s₀.pipes.size + made
  readers : s.readers.size = s₀.readers.size + made
  writers : s.writers.size = s₀.writers.size + made

variable {capacities : Capacities}

theorem getD_map_push {α : Type} (xs : Array α) (x : α) (g : α → Nat) (j : Nat) :
    ((xs.push x)[j]?.map g).getD 0 = (xs[j]?.map g).getD 0 + if j = xs.size then g x else 0 := by
  rw [Array.getElem?_push]
  split
  · next last => simp [last]
  · simp

theorem holders_addLink (capacities : Capacities) (sized : Sized s₀ s made) (e : PortEnd)
    (isOpen : e.isOpen) : (s.addLink capacities).holders e =
      s.holders e + (writingPort s₀ made).holds e + (readingPort s₀ made).holds e := by
  obtain ⟨channels, pipes, readers, writers⟩ := sized
  match e with
  | .channel (.reading ⟨j⟩) =>
    refine (getD_map_push ..).trans ?_
    rw [channels]
    simp [System.holders, Port.holds, writingPort, readingPort, linkChannel]
  | .channel (.writing ⟨j⟩) =>
    refine (getD_map_push ..).trans ?_
    rw [channels]
    simp [System.holders, Port.holds, writingPort, readingPort, linkChannel]
  | .stream (.reading ⟨j⟩) =>
    refine (getD_map_push ..).trans ?_
    rw [readers]
    simp [System.holders, Port.holds, writingPort, readingPort, linkReader]
  | .stream (.writing ⟨j⟩) =>
    refine (getD_map_push ..).trans ?_
    rw [writers]
    simp [System.holders, Port.holds, writingPort, readingPort, linkWriter]

theorem getElem?_push_last {α : Type} {xs : Array α} {n : Nat} (size : xs.size = n) (x : α) :
    (xs.push x)[n]? = some x := by
  rw [← size, Array.getElem?_push_size]

theorem Kept.addLink (kept : Kept s₀ s made held) (sized : Sized s₀ s made)
    (account : ∀ e, e.isOpen →
      held' e = held e + (writingPort s₀ made).holds e + (readingPort s₀ made).holds e) :
    Kept s₀ (s.addLink capacities) (made + 1) held' := by
  have holders := holders_addLink capacities sized
  have readingPipe? (r : ReaderId) (old : r.index ≠ s.readers.size) :
      (s.addLink capacities).readingPipe? r = s.readingPipe? r := by
    simp [System.readingPipe?, System.source?, System.addLink, Array.getElem?_push, old]
  have writingPipe? (w : WriterId) (old : w.index ≠ s.writers.size) :
      (s.addLink capacities).writingPipe? w = s.writingPipe? w := by
    simp [System.writingPipe?, System.target?, System.addLink, Array.getElem?_push, old]
  obtain ⟨channels, pipes, readers, writers⟩ := sized
  constructor
  · constructor
    · exact fun r old => (readingPipe? r (by omega)).trans (kept.oldReaders r old)
    · exact fun w old => (writingPipe? w (by omega)).trans (kept.oldWriters w old)
    · intro i old
      simp only [System.addLink, Array.getElem?_push]
      rw [if_neg (by omega)]
      exact kept.oldPipes i old
    · intro k lt
      by_cases last : k = made
      · subst last
        have here := getElem?_push_last readers
          { source := .pipe (linkPipe s₀ k) [], bufferSize := ByteReader.standardBuffer }
        rw [linkPipe] at here
        simp [System.readingPipe?, System.source?, System.addLink, linkReader, here, linkPipe,
          pipes, Source.pipe?]
      · rw [readingPipe? _ (by simp only [linkReader]; omega)]
        exact kept.linkReaders k (by omega)
    · intro k lt
      by_cases last : k = made
      · subst last
        have here := getElem?_push_last writers { target := .pipe (linkPipe s₀ k) }
        rw [linkPipe] at here
        simp [System.writingPipe?, System.target?, System.addLink, linkWriter, here, linkPipe,
          pipes, Target.pipe?]
      · rw [writingPipe? _ (by simp only [linkWriter]; omega)]
        exact kept.linkWriters k (by omega)
    · intro k lt
      rw [holders _ rfl, holders _ rfl]
      by_cases last : k = made
      · subst last
        have here := getElem?_push_last pipes { capacity := some capacities.pipe }
        simp [System.addLink, linkPipe, here, Channel.sides, Port.holds, writingPort, readingPort,
          System.holders, linkReader, linkWriter, readers, writers]
      · have sides := kept.linkPipes k (by omega)
        simpa [System.addLink, linkPipe, pipes, Array.getElem?_push, Port.holds, writingPort,
          readingPort, linkReader, linkWriter, last] using sides
  · intro e isOpen
    have all := kept.holders e isOpen
    have own := account e isOpen
    rw [holders e isOpen]
    omega

end Pipeline

end Conduit
