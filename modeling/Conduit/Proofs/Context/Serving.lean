import Conduit.Proofs.Context.Additions

/-!
One system in place of another.  Who reads and writes only at ends at which the second system serves
as the first one does is answered in it as in the first, however long the exchange goes on.
-/

namespace Conduit

/-! ### Channels -/

namespace Channel

variable {α : Type} {a b a' b' : Channel α}

structure ReadsAs (a b : Channel α) : Prop where
  content : b.content = a.content
  ended : a.writers = 0 → b.writers = 0

structure WritesAs (a b : Channel α) : Prop where
  content : b.content = a.content
  readers : b.readers = 0 ↔ a.readers = 0
  writers : b.writers = 0 ↔ a.writers = 0

theorem content_eq_iff : b.content = a.content ↔
    b.queue = a.queue ∧ b.taken = a.taken ∧ b.capacity = a.capacity := by
  simp only [content, Prod.mk.injEq]

structure Together (a b a' b' : Channel α) : Prop where
  content : b.content = a.content → b'.content = a'.content
  first : a'.sides = a.sides
  second : b'.sides = b.sides

theorem ReadsAs.together (reads : a.ReadsAs b) (together : Together a b a' b') :
    a'.ReadsAs b' := by
  obtain ⟨-, first⟩ := Prod.mk.inj together.first
  obtain ⟨-, second⟩ := Prod.mk.inj together.second
  exact ⟨together.content reads.content, by rw [first, second]; exact reads.ended⟩

theorem WritesAs.together (writes : a.WritesAs b) (together : Together a b a' b') :
    a'.WritesAs b' := by
  obtain ⟨readers, writers⟩ := Prod.mk.inj together.first
  obtain ⟨readers', writers'⟩ := Prod.mk.inj together.second
  exact ⟨together.content writes.content, by rw [readers, readers', writes.readers],
    by rw [writers, writers', writes.writers]⟩

theorem ReadsAs.take? (reads : a.ReadsAs b) {x : Option α} (take : a.take? = some (x, a')) :
    ∃ b', b.take? = some (x, b') ∧ Together a b a' b' := by
  obtain ⟨queue, taken, capacity⟩ := content_eq_iff.1 reads.content
  rcases take?_cases take with ⟨v, rest, first, rfl, rfl⟩ | ⟨empty, ended, rfl, rfl⟩
  · refine ⟨{ b with queue := rest, taken := b.taken + 1 }, ?_, fun _ => ?_, rfl, rfl⟩
    · rw [Channel.take?, queue, first]
    · exact content_eq_iff.2 ⟨rfl, by rw [taken], capacity⟩
  · refine ⟨b, ?_, fun same => same, rfl, rfl⟩
    rw [Channel.take?, queue, empty]
    exact if_pos (reads.ended ended)

theorem WritesAs.offer? (writes : a.WritesAs b) {v : α} (offer : a.offer? v = some a') :
    ∃ b', b.offer? v = some b' ∧ b'.offered = a'.offered ∧ Together a b a' b' := by
  obtain ⟨queue, taken, capacity⟩ := content_eq_iff.1 writes.content
  obtain ⟨readers, writers, rfl⟩ := offer?_eq_some.1 offer
  refine ⟨{ b with queue := b.queue ++ [v] }, ?_, ?_, fun _ => ?_, rfl, rfl⟩
  · exact offer?_eq_some.2 ⟨mt writes.readers.1 readers, mt writes.writers.1 writers, rfl⟩
  · rw [offered, offered, queue, taken]
  · exact content_eq_iff.2 ⟨by rw [queue], taken, capacity⟩

theorem WritesAs.offer?_none (writes : a.WritesAs b) {v : α} (refused : a.offer? v = none) :
    b.offer? v = none :=
  offer?_eq_none.2 ((offer?_eq_none.1 refused).imp writes.readers.2 writes.writers.2)

theorem WritesAs.settled? (writes : a.WritesAs b) (ticket : Nat) :
    b.settled? ticket = a.settled? ticket := by
  obtain ⟨-, taken, capacity⟩ := content_eq_iff.1 writes.content
  have room : b.hasRoomFor ticket = a.hasRoomFor ticket := by
    rw [hasRoomFor, hasRoomFor, taken, capacity]
  simp only [Channel.settled?, room, writes.readers]

end Channel

/-! ### Ends at which a system serves -/

theorem rel_modify {α : Type} {R : α → α → Prop} {xs ys : Array α} {i j : Nat} {a b a' b' : α}
    (rel : Option.Rel R xs[j]? ys[j]?) (ha : xs[i]? = some a) (hb : ys[i]? = some b)
    (changed : R a b → R a' b') :
    Option.Rel R (xs.modify i fun _ => a')[j]? (ys.modify i fun _ => b')[j]? := by
  rw [Array.getElem?_modify, Array.getElem?_modify]
  split
  · next same =>
    subst same
    rw [ha, hb] at rel ⊢
    cases rel with
    | some rel => exact .some (changed rel)
  · exact rel

theorem rel_cases {α : Type} {R : α → α → Prop} {x y : Option α} (rel : Option.Rel R x y) :
    (x = none ∧ y = none) ∨ ∃ a b, x = some a ∧ y = some b ∧ R a b := by
  cases rel with
  | none => exact .inl ⟨rfl, rfl⟩
  | some rel => exact .inr ⟨_, _, rfl, rfl, rel⟩

theorem bind_getElem?_modify {α β : Type} (xs : Array α) {i : Nat} (j : Nat) {f : α → α}
    {g : α → Option β} (kept : ∀ x, xs[i]? = some x → g (f x) = g x) :
    ((xs.modify i f)[j]?).bind g = (xs[j]?).bind g := by
  rw [Array.getElem?_modify]
  split
  · next same =>
    subst same
    cases here : xs[i]? with
    | none => rfl
    | some x => exact kept x here
  · rfl

theorem map_getElem?_modify_congr {α β : Type} {xs ys : Array α} (i : Nat) {j : Nat} {f : α → α}
    {g : α → β} (congr : ∀ x y, g y = g x → g (f y) = g (f x))
    (same : (ys[j]?).map g = (xs[j]?).map g) :
    ((ys.modify i f)[j]?).map g = ((xs.modify i f)[j]?).map g := by
  rw [Array.getElem?_modify, Array.getElem?_modify]
  split
  · cases hx : xs[j]? with
    | none =>
      rw [hx, Option.map_none, Option.map_eq_none_iff] at same
      rw [same]
    | some x =>
      rw [hx] at same
      obtain ⟨y, hy, alike⟩ := Option.map_eq_some_iff.1 same
      rw [hy]
      exact congrArg some (congr x y alike)
  · exact same

theorem offer_cases {α : Type} {x y : Option (Channel α)} (rel : Option.Rel Channel.WritesAs x y)
    (v : α) : (x.bind (·.offer? v) = none ∧ y.bind (·.offer? v) = none) ∨ ∃ a b a' b',
      x = some a ∧ y = some b ∧ x.bind (·.offer? v) = some a' ∧ y.bind (·.offer? v) = some b' ∧
        b'.offered = a'.offered ∧ Channel.Together a b a' b' := by
  cases rel with
  | none => exact .inl ⟨rfl, rfl⟩
  | @some a b writes =>
    cases accepted : a.offer? v with
    | none => exact .inl ⟨accepted, writes.offer?_none accepted⟩
    | some a' =>
      obtain ⟨b', accepted', same⟩ := writes.offer? accepted
      exact .inr ⟨a, b, a', b', rfl, rfl, accepted, accepted', same⟩

namespace System

variable {P : PortEnd → Prop} {s s' t t' : System} {c : ChannelId} {p : PipeId} {q : ReaderId}
  {w : WriterId}

def ServesAt (s t : System) : PortEnd → Prop
  | .channel (.reading c) => Option.Rel Channel.ReadsAs s.channels[c.index]? t.channels[c.index]?
  | .channel (.writing c) => Option.Rel Channel.WritesAs s.channels[c.index]? t.channels[c.index]?
  | .stream (.reading q) =>
    (t.readers[q.index]?).map ByteReader.content = (s.readers[q.index]?).map ByteReader.content ∧
      ∀ p, s.readingPipe? q = some p →
        Option.Rel Channel.ReadsAs s.pipes[p.index]? t.pipes[p.index]?
  | .stream (.writing w) => t.target? w = s.target? w ∧
      ∀ p, s.writingPipe? w = some p →
        Option.Rel Channel.WritesAs s.pipes[p.index]? t.pipes[p.index]?
  | .channel .closed | .stream .closed => True

def Serves (P : PortEnd → Prop) (s t : System) : Prop := ∀ e, P e → s.ServesAt t e

theorem Serves.onChannel (serves : s.Serves P t) {a b a' b' : Channel Value}
    (ha : s.channels[c.index]? = some a) (hb : t.channels[c.index]? = some b)
    (together : Channel.Together a b a' b') :
    (s.onChannel c fun _ => a').Serves P (t.onChannel c fun _ => b') := by
  intro e mem
  have before := serves e mem
  match e with
  | .channel (.reading _) => exact rel_modify before ha hb fun reads => reads.together together
  | .channel (.writing _) => exact rel_modify before ha hb fun writes => writes.together together
  | .channel .closed | .stream .closed => trivial
  | .stream (.reading _) | .stream (.writing _) => exact before

theorem Serves.onPipe (serves : s.Serves P t) {a b a' b' : Channel Bytes}
    (ha : s.pipes[p.index]? = some a) (hb : t.pipes[p.index]? = some b)
    (together : Channel.Together a b a' b') :
    (s.onPipe p fun _ => a').Serves P (t.onPipe p fun _ => b') := by
  intro e mem
  have before := serves e mem
  match e with
  | .stream (.reading _) => exact ⟨before.1, fun p behind =>
      rel_modify (before.2 p behind) ha hb fun reads => reads.together together⟩
  | .stream (.writing _) => exact ⟨before.1, fun p behind =>
      rel_modify (before.2 p behind) ha hb fun writes => writes.together together⟩
  | .channel .closed | .stream .closed => trivial
  | .channel (.reading _) | .channel (.writing _) => exact before

theorem readingPipe?_onReader {f : ByteReader → ByteReader}
    (kept : ∀ x, s.readers[q.index]? = some x → (f x).source.pipe? = x.source.pipe?)
    (r : ReaderId) : (s.onReader q f).readingPipe? r = s.readingPipe? r := by
  simp only [readingPipe?, source?, Option.bind_map]
  exact bind_getElem?_modify s.readers r.index kept

theorem writingPipe?_onWriter {f : ByteWriter → ByteWriter}
    (kept : ∀ x, s.writers[w.index]? = some x → (f x).target.pipe? = x.target.pipe?)
    (u : WriterId) : (s.onWriter w f).writingPipe? u = s.writingPipe? u := by
  simp only [writingPipe?, target?, Option.bind_map]
  exact bind_getElem?_modify s.writers u.index kept

theorem Serves.onReader (serves : s.Serves P t) {f : ByteReader → ByteReader}
    (content : ∀ x y : ByteReader, y.content = x.content → (f y).content = (f x).content)
    (kept : ∀ x, s.readers[q.index]? = some x → (f x).source.pipe? = x.source.pipe?) :
    (s.onReader q f).Serves P (t.onReader q f) := by
  intro e mem
  have before := serves e mem
  match e with
  | .stream (.reading r) =>
    exact ⟨map_getElem?_modify_congr q.index content before.1, fun p behind =>
      before.2 p ((readingPipe?_onReader kept r).symm.trans behind)⟩
  | .channel .closed | .stream .closed => trivial
  | .channel (.reading _) | .channel (.writing _) | .stream (.writing _) => exact before

theorem Serves.onWriter (serves : s.Serves P t) {f : ByteWriter → ByteWriter}
    (content : ∀ x y : ByteWriter, y.target = x.target → (f y).target = (f x).target)
    (kept : ∀ x, s.writers[w.index]? = some x → (f x).target.pipe? = x.target.pipe?) :
    (s.onWriter w f).Serves P (t.onWriter w f) := by
  intro e mem
  have before := serves e mem
  match e with
  | .stream (.writing u) =>
    exact ⟨map_getElem?_modify_congr w.index content before.1, fun p behind =>
      before.2 p ((writingPipe?_onWriter kept u).symm.trans behind)⟩
  | .channel .closed | .stream .closed => trivial
  | .channel (.reading _) | .channel (.writing _) | .stream (.reading _) => exact before

/-! ### Values -/

def Answers {ρ : Type} (P : PortEnd → Prop) (inS inT : Option (ρ × System)) : Prop :=
  ∀ x s', inS = some (x, s') → ∃ t', inT = some (x, t') ∧ s'.Serves P t'

theorem Serves.takeValue? (serves : s.Serves P t) (own : P (.channel (.reading c))) :
    Answers P (s.takeValue? c) (t.takeValue? c) := by
  intro x s' take
  rw [System.takeValue?] at take ⊢
  rcases rel_cases (serves _ own) with ⟨hs, ht⟩ | ⟨a, b, hs, ht, reads⟩
  · rw [hs] at take
    rw [ht]
    cases take
    exact ⟨t, rfl, serves⟩
  · rw [hs] at take
    rw [ht]
    obtain ⟨⟨y, a'⟩, took, same⟩ := Option.map_eq_some_iff.1 take
    cases same
    obtain ⟨b', took', together⟩ := reads.take? took
    exact ⟨_, Option.map_eq_some_iff.2 ⟨_, took', rfl⟩, serves.onChannel hs ht together⟩

theorem Serves.offerValue (serves : s.Serves P t) (own : P (.channel (.writing c))) (v : Value) :
    Answers P (some (s.offerValue c v)) (some (t.offerValue c v)) := by
  intro x s' offer
  rw [System.offerValue] at offer ⊢
  rcases offer_cases (serves _ own) v with
    ⟨inS, inT⟩ | ⟨a, b, a', b', hs, ht, inS, inT, offered, together⟩
  · rw [inS] at offer
    rw [inT]
    cases offer
    exact ⟨t, rfl, serves⟩
  · rw [inS] at offer
    rw [inT]
    cases offer
    exact ⟨_, by simp only [offered], serves.onChannel hs ht together⟩

theorem Serves.settleValue? (serves : s.Serves P t) (own : P (.channel (.writing c)))
    (ticket : Nat) : t.settleValue? c ticket = s.settleValue? c ticket := by
  rw [System.settleValue?, System.settleValue?]
  rcases rel_cases (serves _ own) with ⟨hs, ht⟩ | ⟨a, b, hs, ht, writes⟩
  · rw [hs, ht]
  · rw [hs, ht]
    simp only [writes.settled?]

/-! ### Bytes -/

theorem Serves.source? (serves : s.Serves P t) (own : P (.stream (.reading q))) :
    t.source? q = s.source? q := by
  have same := congrArg (Option.map Prod.fst) (serves _ own).1
  rwa [Option.map_map, Option.map_map] at same

theorem Serves.keep (serves : s.Serves P t) {source : Source} (kept : s.source? q = some source)
    {source' : Source} (same : source'.pipe? = source.pipe?) :
    (s.onReader q ({ · with source := source' })).Serves P
      (t.onReader q ({ · with source := source' })) := by
  refine serves.onReader (fun x y alike => ?_) fun x here => ?_
  · obtain ⟨-, rest⟩ := Prod.mk.inj alike
    exact congrArg (source', ·) rest
  · rw [System.source?, here] at kept
    cases kept
    exact same

def nextChunk? (s : System) (r : ReaderId) (n : Nat) (p : PipeId) :
    Option (Except String Bytes × System) :=
  match s.pipes[p.index]? with
  | none => some (.ok [], s)
  | some ch => ch.take?.map fun
    | (none, _) => (.ok [], s)
    | (some chunk, ch) =>
      (.ok (chunk.take n), (s.onPipe p fun _ => ch).onReader r ({ · with
        source := .pipe p (chunk.drop n) }))

theorem readSource?_eq_nextChunk? {n : Nat} (asked : n ≠ 0)
    (source : s.source? q = some (.pipe p [])) : s.readSource? q n = s.nextChunk? q n p := by
  simp only [System.readSource?, source, if_neg asked]
  rfl

theorem Serves.nextChunk? (serves : s.Serves P t) (own : P (.stream (.reading q))) (n : Nat)
    (kept : s.source? q = some (.pipe p [])) :
    Answers P (s.nextChunk? q n p) (t.nextChunk? q n p) := by
  intro x s' read
  rw [System.nextChunk?] at read ⊢
  have behind : s.readingPipe? q = some p := by rw [readingPipe?, kept]; rfl
  rcases rel_cases ((serves _ own).2 p behind) with ⟨hs, ht⟩ | ⟨a, b, hs, ht, reads⟩
  · rw [hs] at read
    rw [ht]
    cases read
    exact ⟨t, rfl, serves⟩
  · rw [hs] at read
    rw [ht]
    obtain ⟨⟨y, a'⟩, took, last⟩ := Option.map_eq_some_iff.1 read
    obtain ⟨b', took', together⟩ := reads.take? took
    cases y with
    | none =>
      cases last
      exact ⟨_, Option.map_eq_some_iff.2 ⟨_, took', rfl⟩, serves⟩
    | some chunk =>
      cases last
      have kept : (s.onPipe p fun _ => a').source? q = some (.pipe p []) := kept
      exact ⟨_, Option.map_eq_some_iff.2 ⟨_, took', rfl⟩,
        (serves.onPipe hs ht together).keep kept rfl⟩

theorem Serves.readSource? (serves : s.Serves P t) (own : P (.stream (.reading q))) (n : Nat) :
    Answers P (s.readSource? q n) (t.readSource? q n) := by
  intro x s' read
  have same := serves.source? own
  cases kept : s.source? q with
  | none =>
    simp only [System.readSource?, same, kept] at read ⊢
    cases read
    exact ⟨t, rfl, serves⟩
  | some source =>
    cases source with
    | fixed bytes failure =>
      simp only [System.readSource?, same, kept] at read ⊢
      cases bytes with
      | cons b rest =>
        cases read
        exact ⟨_, rfl, serves.keep kept rfl⟩
      | nil =>
        cases failure with
        | none =>
          cases read
          exact ⟨_, rfl, serves.keep kept rfl⟩
        | some message =>
          cases read
          exact ⟨t, rfl, serves⟩
    | pipe p rest =>
      by_cases asked : n = 0
      · simp only [System.readSource?, same, kept, if_pos asked] at read ⊢
        cases read
        exact ⟨t, rfl, serves⟩
      · cases rest with
        | nil =>
          rw [readSource?_eq_nextChunk? asked kept] at read
          rw [readSource?_eq_nextChunk? asked (same.trans kept)]
          exact serves.nextChunk? own n kept x s' read
        | cons b rest =>
          simp only [System.readSource?, same, kept, if_neg asked] at read ⊢
          cases read
          exact ⟨_, rfl, serves.keep kept rfl⟩

theorem Serves.reader_cases (serves : s.Serves P t) (own : P (.stream (.reading q))) :
    (s.readers[q.index]? = none ∧ t.readers[q.index]? = none) ∨ ∃ x y,
      s.readers[q.index]? = some x ∧ t.readers[q.index]? = some y ∧ y.bufferSize = x.bufferSize ∧
        y.buffer = x.buffer := by
  have same := (serves _ own).1
  cases hs : s.readers[q.index]? with
  | none =>
    rw [hs, Option.map_none, Option.map_eq_none_iff] at same
    exact .inl ⟨rfl, same⟩
  | some x =>
    rw [hs] at same
    obtain ⟨y, ht, content⟩ := Option.map_eq_some_iff.1 same
    obtain ⟨-, size, buffer⟩ := by simpa only [ByteReader.content, Prod.mk.injEq] using content
    exact .inr ⟨x, y, rfl, ht, size, buffer⟩

theorem Serves.buffered (serves : s.Serves P t) (f : Bytes → Bytes) :
    (s.onReader q fun x => { x with buffer := f x.buffer }).Serves P
      (t.onReader q fun x => { x with buffer := f x.buffer }) := by
  refine serves.onReader (fun x y alike => ?_) fun _ _ => rfl
  obtain ⟨source, size, buffer⟩ := by simpa only [ByteReader.content, Prod.mk.injEq] using alike
  simp only [ByteReader.content, source, size, buffer]

theorem Serves.fillBuffer? (serves : s.Serves P t) (own : P (.stream (.reading q))) :
    Answers P (s.fillBuffer? q) (t.fillBuffer? q) := by
  intro x s' fill
  rw [System.fillBuffer?] at fill ⊢
  rcases serves.reader_cases own with ⟨hs, ht⟩ | ⟨a, b, hs, ht, size, buffer⟩
  · rw [hs] at fill
    rw [ht]
    cases fill
    exact ⟨t, rfl, serves⟩
  · simp only [hs] at fill
    simp only [ht, size, buffer]
    by_cases left : !a.buffer.isEmpty
    · rw [if_pos left] at fill ⊢
      cases fill
      exact ⟨t, rfl, serves⟩
    · rw [if_neg left] at fill ⊢
      obtain ⟨⟨y, s₁⟩, read, last⟩ := Option.map_eq_some_iff.1 fill
      obtain ⟨t₁, read', serves₁⟩ := serves.readSource? own a.bufferSize y s₁ read
      rw [read']
      cases y with
      | ok bytes =>
        cases last
        exact ⟨_, rfl, serves₁.buffered fun _ => bytes⟩
      | error message =>
        cases last
        exact ⟨_, rfl, serves₁⟩

theorem Serves.consume (serves : s.Serves P t) (n : Nat) :
    (s.consume q n).Serves P (t.consume q n) :=
  serves.buffered (List.drop n)

theorem Serves.readSome? (serves : s.Serves P t) (own : P (.stream (.reading q))) (n : Nat) :
    Answers P (s.readSome? q n) (t.readSome? q n) := by
  intro x s' read
  rw [System.readSome?] at read ⊢
  rcases serves.reader_cases own with ⟨hs, ht⟩ | ⟨a, b, hs, ht, size, buffer⟩
  · rw [hs] at read
    rw [ht]
    cases read
    exact ⟨t, rfl, serves⟩
  · simp only [hs] at read
    simp only [ht, size, buffer]
    by_cases past : a.buffer.isEmpty && a.bufferSize ≤ n
    · rw [if_pos past] at read ⊢
      exact serves.readSource? own n x s' read
    · rw [if_neg past] at read ⊢
      obtain ⟨⟨y, s₁⟩, fill, last⟩ := Option.map_eq_some_iff.1 read
      obtain ⟨t₁, fill', serves₁⟩ := serves.fillBuffer? own y s₁ fill
      rw [fill']
      cases y with
      | ok bytes =>
        cases last
        exact ⟨_, rfl, serves₁.consume n⟩
      | error message =>
        cases last
        exact ⟨_, rfl, serves₁⟩

theorem Serves.offerBytes (serves : s.Serves P t) (own : P (.stream (.writing w)))
    (bytes : Bytes) : Answers P (some (s.offerBytes w bytes)) (some (t.offerBytes w bytes)) := by
  intro x s' offer
  obtain ⟨same, pipes⟩ := serves _ own
  simp only [System.offerBytes, same] at offer ⊢
  cases target : s.target? w with
  | none =>
    rw [target] at offer
    cases offer
    exact ⟨t, rfl, serves⟩
  | some place =>
    cases place with
    | sink written writeError flushError =>
      cases writeError with
      | some message =>
        rw [target] at offer
        cases offer
        exact ⟨t, rfl, serves⟩
      | none =>
        rw [target] at offer
        cases offer
        refine ⟨_, rfl, serves.onWriter (fun _ _ _ => rfl) fun x here => ?_⟩
        rw [System.target?, here] at target
        have same : x.target = .sink written none flushError := Option.some.inj target
        rw [same]
        rfl
    | pipe p =>
      simp only [target] at offer ⊢
      have behind : s.writingPipe? w = some p := by rw [writingPipe?, target]; rfl
      rcases offer_cases (pipes p behind) bytes with
        ⟨inS, inT⟩ | ⟨a, b, a', b', hs, ht, inS, inT, offered, together⟩
      · rw [inS] at offer
        rw [inT]
        cases offer
        exact ⟨t, rfl, serves⟩
      · rw [inS] at offer
        rw [inT]
        cases offer
        exact ⟨_, by simp only [offered], serves.onPipe hs ht together⟩

theorem Serves.settleBytes? (serves : s.Serves P t) (own : P (.stream (.writing w)))
    (ticket : Nat) : t.settleBytes? w ticket = s.settleBytes? w ticket := by
  obtain ⟨same, pipes⟩ := serves _ own
  rw [System.settleBytes?, System.settleBytes?, same]
  split
  · next p target =>
    have behind : s.writingPipe? w = some p := by rw [writingPipe?, target]; rfl
    rcases rel_cases (pipes p behind) with ⟨hs, ht⟩ | ⟨a, b, hs, ht, writes⟩
    · rw [hs, ht]
    · rw [hs, ht]
      simp only [writes.settled?]
  · rfl

theorem Serves.flush (serves : s.Serves P t) (own : P (.stream (.writing w))) :
    t.flush w = s.flush w := by
  rw [System.flush, System.flush, (serves _ own).1]

end System

/-! ### Requests and processes -/

def Request.end? : Request → Option PortEnd
  | take c => some (.channel (.reading c))
  | offer c _ | settle c _ => some (.channel (.writing c))
  | fill q | consume q _ | read q _ => some (.stream (.reading q))
  | offerBytes w _ | settleBytes w _ | flush w => some (.stream (.writing w))
  | _ => none

def Event.Uses (P : PortEnd → Prop) : Event → Prop
  | asked r _ => ∃ e, r.end? = some e ∧ P e
  | called _ => True

section Processes

variable {P : PortEnd → Prop} {s s' t : System}

theorem System.Serves.perform (serves : s.Serves P t) {r : Request} {e : PortEnd}
    (at_ : r.end? = some e) (own : P e) :
    System.Answers P (r.perform? s) (r.perform? t) := by
  cases r with
  | take c => cases at_; exact serves.takeValue? own
  | offer c v => cases at_; exact serves.offerValue own v
  | settle c ticket =>
    cases at_
    intro x s' settle
    obtain ⟨y, settled, same⟩ := Option.map_eq_some_iff.1 settle
    cases same
    rw [← serves.settleValue? own] at settled
    exact ⟨t, congrArg (Option.map _) settled, serves⟩
  | fill q => cases at_; exact serves.fillBuffer? own
  | consume q n =>
    intro x s' consume
    cases consume
    exact ⟨_, rfl, serves.consume n⟩
  | read q n => cases at_; exact serves.readSome? own n
  | offerBytes w bytes => cases at_; exact serves.offerBytes own bytes
  | settleBytes w ticket =>
    cases at_
    intro x s' settle
    obtain ⟨y, settled, same⟩ := Option.map_eq_some_iff.1 settle
    cases same
    rw [← serves.settleBytes? own] at settled
    exact ⟨t, congrArg (Option.map _) settled, serves⟩
  | flush w =>
    cases at_
    intro x s' flush
    cases flush
    exact ⟨t, by rw [Request.perform?, serves.flush own], serves⟩
  | _ => cases at_

namespace Proc

variable {h : Host} {α : Type} {p q : Proc α} {es : List Event}

theorem Step.serves (step : Step h p s es q s') (uses : ∀ ev ∈ es, ev.Uses P)
    (serves : s.Serves P t) : ∃ t', Step h p t es q t' ∧ s'.Serves P t' := by
  induction step with
  | request reply =>
    obtain ⟨e, at_, own⟩ := uses _ (.head _)
    obtain ⟨t', reply', serves'⟩ := serves.perform at_ own _ _ reply
    exact ⟨t', .request reply', serves'⟩
  | loop => exact ⟨t, .loop, serves⟩
  | host => exact ⟨t, .host, serves⟩
  | left _ ih =>
    obtain ⟨t', step, serves'⟩ := ih uses serves
    exact ⟨t', .left step, serves'⟩
  | right _ ih =>
    obtain ⟨t', step, serves'⟩ := ih uses serves
    exact ⟨t', .right step, serves'⟩
  | join left right => exact ⟨t, .join left right, serves⟩

theorem Steps.serves (steps : Steps h p s es q s') (uses : ∀ ev ∈ es, ev.Uses P)
    (serves : s.Serves P t) : ∃ t', Steps h p t es q t' ∧ s'.Serves P t' := by
  induction steps generalizing t with
  | refl => exact ⟨t, .refl, serves⟩
  | head step _ ih =>
    obtain ⟨first, others⟩ := List.forall_mem_append.1 uses
    obtain ⟨t₁, step', serves₁⟩ := step.serves first serves
    obtain ⟨t', steps, serves'⟩ := ih others serves₁
    exact ⟨t', .head step' steps, serves'⟩

end Proc

end Processes

end Conduit
