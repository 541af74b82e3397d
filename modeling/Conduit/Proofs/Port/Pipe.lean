import Conduit.Port.Access
import Conduit.Proofs.Proc.Beside
import Conduit.Proofs.Proc.Meets
import Conduit.Proofs.System.Pipes

/-!
A writer and a reader of a pipe side by side.  The writer hands over pieces and gives up its end;
the reader chooses the sizes of its buffers by what it has read so far.
-/

namespace Conduit

open Proc

/-- How the sizes of buffers are chosen; none when no more is to be read. -/
abbrev Choice := List (Except String Bytes) → Option Nat

def writeEach (e : StreamEnd) : List Bytes → Proc Unit
  | [] => e.release
  | piece :: pieces => do
    discard (e.write piece).run
    writeEach e pieces

def readTurn (e : StreamEnd) (choose : Choice) (got : List (Except String Bytes)) :
    Proc (List (Except String Bytes) ⊕ List (Except String Bytes)) :=
  match choose got with
  | some n => do
    let x ← e.readSome n
    pure (.inl (got ++ [x]))
  | none => pure (.inr got)

def readEach (e : StreamEnd) (choose : Choice) : Proc (List (Except String Bytes)) :=
  iterate [] (readTurn e choose)

def exchange (w : WriterId) (r : ReaderId) (pieces : List Bytes) (choose : Choice) :
    Proc (List (Except String Bytes)) :=
  .both (writeEach (.writing w) pieces) (readEach (.reading r) choose) fun _ y => ofOutcome y

def Choice.UntilEnd (choose : Choice) : Prop :=
  ∀ got, (choose got = none ↔ .ok [] ∈ got) ∧ choose got ≠ some 0

def gaveNothing : Except String Bytes → Bool
  | .ok [] => true
  | _ => false

theorem any_gaveNothing {got : List (Except String Bytes)} :
    got.any gaveNothing = true ↔ .ok [] ∈ got := by
  rw [List.any_eq_true]
  constructor
  · rintro ⟨x, mem, nothing⟩
    rcases x with message | bytes
    · cases nothing
    · cases bytes with
      | nil => exact mem
      | cons => cases nothing
  · exact fun mem => ⟨_, mem, rfl⟩

def Choice.inOrder (size : Nat → Nat) : Choice := fun got =>
  if got.any gaveNothing then none else some (size got.length)

theorem Choice.untilEnd_inOrder {size : Nat → Nat} (solid : ∀ k, size k ≠ 0) :
    (inOrder size).UntilEnd := by
  intro got
  rw [inOrder, ← any_gaveNothing]
  split
  · next last => simp [last]
  · next more => simp [more, solid]

/-! ### Where the two are -/

inductive WritePhase
  | begun
  | settling (ticket : Nat)
  | flushing
  | released

structure PieceWriter where
  phase : WritePhase
  unwritten : List Bytes

namespace PieceWriter

def flushing (w : WriterId) (rest : Proc Unit) : Proc Unit := .request (.flush w) fun _ => rest

def settling (w : WriterId) (ticket : Nat) (rest : Proc Unit) : Proc Unit :=
  .request (.settleBytes w ticket) fun
    | .ok () => flushing w rest
    | .error _ => rest

def proc (w : WriterId) : PieceWriter → Proc Unit
  | ⟨.begun, pieces⟩ => writeEach (.writing w) pieces
  | ⟨.settling ticket, pieces⟩ => settling w ticket (writeEach (.writing w) pieces)
  | ⟨.flushing, pieces⟩ => flushing w (writeEach (.writing w) pieces)
  | ⟨.released, _⟩ => .done ()

def work : PieceWriter → Nat
  | ⟨.begun, pieces⟩ => 3 * pieces.length + 1
  | ⟨.settling _, pieces⟩ => 3 * pieces.length + 3
  | ⟨.flushing, pieces⟩ => 3 * pieces.length + 2
  | ⟨.released, _⟩ => 0

theorem writeEach_empty (w : WriterId) (pieces : List Bytes) :
    writeEach (.writing w) ([] :: pieces) = flushing w (writeEach (.writing w) pieces) := by
  refine congrArg (Proc.request (.flush w)) (funext fun x => ?_)
  cases x <;> rfl

theorem writeEach_cons (w : WriterId) {piece : Bytes} (solid : piece ≠ []) (pieces : List Bytes) :
    writeEach (.writing w) (piece :: pieces) = .request (.offerBytes w piece) fun
      | .ok ticket => settling w ticket (writeEach (.writing w) pieces)
      | .error _ => writeEach (.writing w) pieces := by
  obtain ⟨b, piece, rfl⟩ := List.exists_cons_of_ne_nil solid
  refine congrArg (Proc.request (.offerBytes w _)) (funext fun x => ?_)
  cases x with
  | error message => rfl
  | ok ticket =>
    refine congrArg (Proc.request (.settleBytes w ticket)) (funext fun x => ?_)
    cases x with
    | error message => rfl
    | ok =>
      refine congrArg (Proc.request (.flush w)) (funext fun x => ?_)
      cases x <;> rfl

end PieceWriter

inductive ReadPhase
  | turn
  | asking (n : Nat)
  | finished

structure PieceReader where
  phase : ReadPhase
  got : List (Except String Bytes)

namespace PieceReader

def proc (r : ReaderId) (choose : Choice) : PieceReader → Proc (List (Except String Bytes))
  | ⟨.turn, got⟩ => iterate got (readTurn (.reading r) choose)
  | ⟨.asking n, got⟩ => .request (.read r n) fun x =>
      iterate (got ++ [x]) (readTurn (.reading r) choose)
  | ⟨.finished, got⟩ => .done got

def work (choose : Choice) (unread : Nat) : PieceReader → Nat
  | ⟨.turn, got⟩ => if (choose got).isSome then 2 * unread + 3 else 1
  | ⟨.asking _, _⟩ => 2 * unread + 2
  | ⟨.finished, _⟩ => 0

theorem unfold_turn (r : ReaderId) (choose : Choice) (got : List (Except String Bytes)) :
    Proc.unfold got (readTurn (.reading r) choose) .done = proc r choose
      (match choose got with
        | some n => ⟨.asking n, got⟩
        | none => ⟨.finished, got⟩) := by
  rw [Proc.unfold, readTurn]
  cases choose got <;> rfl

end PieceReader

/-! ### What has been done so far -/

variable {w : WriterId} {r : ReaderId} {pieces : List Bytes} {choose : Choice} {es : List Event}
  {rest rest' bytes : Bytes} {queue : List Bytes} {ch ch' : Channel Bytes} {n : Nat}

def writerGone (w : WriterId) : Event := .asked (.releaseStream (.writing w)) ()

structure Ledger (w : WriterId) (r : ReaderId) (pieces : List Bytes) (choose : Choice)
    (es : List Event) (rest : Bytes) (queue : List Bytes) : Prop where
  solid : [] ∉ queue
  unread : bytesFrom r es ++ (rest ++ queue.flatten) = bytesTo (.writing w) es
  placed : ∃ x, byPlace? w r es = some (x, queue) ∧ x.Has rest
  sized : ∀ n x, .asked (.read r n) x ∈ es →
    (∃ bytes, x = .ok bytes ∧ bytes.length ≤ n) ∧ ∃ got, choose got = some n
  ended : ∀ before n after, es = before ++ .asked (.read r n) (.ok []) :: after → n ≠ 0 →
    writerGone w ∈ before ∧ bytesFrom r before = pieces.flatten

theorem split_concat {ev ev' : Event} {before after : List Event}
    (split : es ++ [ev] = before ++ ev' :: after) :
    after = [] ∧ ev' = ev ∧ before = es ∨ ∃ after', es = before ++ ev' :: after' := by
  rcases List.eq_nil_or_concat after with rfl | ⟨after', last, rfl⟩
  · obtain ⟨same, last⟩ := List.append_inj' split rfl
    cases last
    exact .inl ⟨rfl, rfl, same.symm⟩
  · have longer : es ++ [ev] = (before ++ ev' :: after') ++ [last] := by simpa using split
    exact .inr ⟨after', (List.append_inj' longer rfl).1⟩

namespace Ledger

theorem start (w : WriterId) (r : ReaderId) (pieces : List Bytes) (choose : Choice) :
    Ledger w r pieces choose [] [] [] where
  solid := List.not_mem_nil
  unread := rfl
  placed := ⟨{}, rfl, Nat.le_refl 0, rfl⟩
  sized _ _ mem := absurd mem List.not_mem_nil
  ended before _ _ split := by cases before <;> cases split

theorem onward {ev : Event} {queue' : List Bytes} (ledger : Ledger w r pieces choose es rest queue)
    (other : ev.readReply? r = none) (solid : [] ∉ queue')
    (grown : queue'.flatten = queue.flatten ++ bytesTo (.writing w) [ev])
    (placed : ∀ x, ev.byPlace? w r (x, queue) = some (x, queue')) :
    Ledger w r pieces choose (es ++ [ev]) rest queue' := by
  have unlike (n : Nat) (x : Except String Bytes) : Event.asked (.read r n) x ≠ ev := by
    rintro rfl
    simp [Event.readReply?] at other
  have none : bytesFrom r [ev] = [] := by simp [bytesFrom, readsFrom, other]
  refine ⟨solid, ?_, ?_, fun n x mem => ?_, fun before n after split asked => ?_⟩
  · rw [bytesFrom_append, none, List.append_nil, bytesTo_append, ← ledger.unread, grown]
    simp only [List.append_assoc]
  · obtain ⟨x, place, has⟩ := ledger.placed
    exact ⟨x, by rw [byPlace?_concat, place, Option.bind_some, placed], has⟩
  · rcases List.mem_append.1 mem with old | new
    · exact ledger.sized n x old
    · exact absurd (List.mem_singleton.1 new) (unlike n x)
  · rcases split_concat split with ⟨-, same, -⟩ | ⟨after', earlier⟩
    · exact absurd same (unlike n _)
    · exact ledger.ended before n after' earlier asked

theorem read {got : List (Except String Bytes)}
    (ledger : Ledger w r pieces choose es rest ch.queue)
    (read : PipeRead rest ch n bytes rest' ch') (chosen : choose got = some n)
    (closed : ch.writers = 0 → writerGone w ∈ es ∧ bytesTo (.writing w) es = pieces.flatten) :
    Ledger w r pieces choose (es ++ [.asked (.read r n) (.ok bytes)]) rest' ch'.queue := by
  refine ⟨fun empty => ledger.solid (read.subset _ empty), ?_, ?_, fun m x mem => ?_,
    fun before m after split asked => ?_⟩
  · rw [bytesFrom_append, bytesFrom_read, List.append_assoc, read.conserved, ledger.unread,
      bytesTo_append, bytesTo_eq_nil (fun _ _ => by simp), List.append_nil]
  · obtain ⟨x, place, has⟩ := ledger.placed
    obtain ⟨x', same, has'⟩ := has.read? read ledger.solid
    refine ⟨x', ?_, has'⟩
    simp [byPlace?_concat, place, Event.byPlace?, same]
  · rcases List.mem_append.1 mem with old | new
    · exact ledger.sized m x old
    · cases List.mem_singleton.1 new
      exact ⟨⟨bytes, rfl, read.length_le⟩, got, chosen⟩
  · rcases split_concat split with ⟨-, same, rfl⟩ | ⟨after', earlier⟩
    · cases same
      -- Nothing is at hand and nothing waits, so that all that was written has been read.
      obtain ⟨used, empty, gone⟩ := read.at_end asked ledger.solid
      obtain ⟨released, whole⟩ := closed gone
      have all := ledger.unread
      rw [used, empty] at all
      exact ⟨released, by simpa using all.trans whole⟩
    · exact ledger.ended before m after' earlier asked

end Ledger

structure Exchanging (w : WriterId) (r : ReaderId) (pieces : List Bytes) (choose : Choice)
    (a : PieceWriter) (b : PieceReader) (s : System) (es : List Event) (rest : Bytes)
    (ch : Channel Bytes) : Prop where
  piped : s.Piped w r rest ch
  ledger : Ledger w r pieces choose es rest ch.queue
  written : bytesTo (.writing w) es ++ a.unwritten.flatten = pieces.flatten
  ticket : ∀ ticket, a.phase = .settling ticket → ticket = ch.offered
  side : a.phase = .released ∧ a.unwritten = [] ∧ ch.writers = 0 ∧ writerGone w ∈ es ∨
    a.phase ≠ .released ∧ ch.writers = 1 ∧ writerGone w ∉ es
  results : readsFrom r es = b.got
  asking : ∀ n, b.phase = .asking n → choose b.got = some n
  finished : b.phase = .finished → choose b.got = none

namespace Exchanging

variable {a a' : PieceWriter} {b b' : PieceReader} {s s' : System} {h : Host} {es' : List Event}

theorem start (s : System) (capacity : Nat) (pieces : List Bytes) (choose : Choice) :
    Exchanging (s.addPipe capacity 0).1.1 (s.addPipe capacity 0).1.2 pieces choose
      ⟨.begun, pieces⟩ ⟨.turn, []⟩ (s.addPipe capacity 0).2 [] [] { capacity := some capacity } where
  piped := s.piped_addPipe capacity
  ledger := .start ..
  written := rfl
  ticket _ same := by cases same
  side := .inr ⟨nofun, rfl, List.not_mem_nil⟩
  results := rfl
  asking _ same := by cases same
  finished same := by cases same

theorem read_prefix (sofar : Exchanging w r pieces choose a b s es rest ch) :
    bytesFrom r es <+: bytesTo (.writing w) es := ⟨_, sofar.ledger.unread⟩

theorem written_prefix (sofar : Exchanging w r pieces choose a b s es rest ch) :
    bytesTo (.writing w) es <+: pieces.flatten := ⟨_, sofar.written⟩

theorem quietly {q : Request} {x : q.Reply} (sofar : Exchanging w r pieces choose a b s es rest ch)
    (other : (Event.asked q x).readReply? r = none)
    (nothing : bytesTo (.writing w) [.asked q x] = [])
    (placed : ∀ c, (Event.asked q x).byPlace? w r c = some c)
    (holds : Event.asked q x ≠ writerGone w) (before : a.phase ≠ .released)
    (after : a'.phase ≠ .released ∧ ∀ ticket, a'.phase ≠ .settling ticket)
    (same : a'.unwritten.flatten = a.unwritten.flatten) :
    Exchanging w r pieces choose a' b s (es ++ [.asked q x]) rest ch where
  piped := sofar.piped
  ledger := sofar.ledger.onward other sofar.ledger.solid (by rw [nothing, List.append_nil])
    fun _ => placed _
  written := by rw [bytesTo_append, nothing, List.append_nil, same, sofar.written]
  ticket ticket phase := absurd phase (after.2 ticket)
  side := by
    obtain ⟨-, held, kept⟩ := sofar.side.resolve_left fun gone => before gone.1
    refine .inr ⟨after.1, held, fun mem => ?_⟩
    rcases List.mem_append.1 mem with old | new
    · exact kept old
    · exact holds (List.mem_singleton.1 new).symm
  results := (readsFrom_concat other).trans sofar.results
  asking := sofar.asking
  finished := sofar.finished

theorem flush (sofar : Exchanging w r pieces choose a b s es rest ch)
    (before : a.phase ≠ .released) {unwritten : List Bytes}
    (same : unwritten.flatten = a.unwritten.flatten) {p : Proc Unit}
    (step : Step h (PieceWriter.flushing w (writeEach (.writing w) unwritten)) s es' p s') :
    p = PieceWriter.proc w ⟨.begun, unwritten⟩ ∧
      Exchanging w r pieces choose ⟨.begun, unwritten⟩ b s' (es ++ es') rest ch ∧
      bytesFrom r es' = [] := by
  cases step with
  | request reply =>
    cases reply
    refine ⟨rfl, ?_, rfl⟩
    exact sofar.quietly rfl rfl (fun _ => rfl) nofun before ⟨nofun, nofun⟩ same

theorem release (sofar : Exchanging w r pieces choose ⟨.begun, []⟩ b s es rest ch) :
    Exchanging w r pieces choose ⟨.released, []⟩ b (s.releaseStream (.writing w))
      (es ++ [writerGone w]) rest { ch with writers := 0 } where
  piped := by
    obtain ⟨-, held, -⟩ := sofar.side.resolve_left fun gone => by cases gone.1
    exact sofar.piped.release held
  ledger := sofar.ledger.onward rfl sofar.ledger.solid (List.append_nil _).symm fun _ => rfl
  written := by
    have nothing : bytesTo (.writing w) [writerGone w] = [] := rfl
    rw [bytesTo_append, nothing, List.append_nil, sofar.written]
  ticket _ phase := by cases phase
  side := .inl ⟨rfl, rfl, rfl, List.mem_append_right _ (List.mem_singleton_self _)⟩
  results := (readsFrom_concat rfl).trans sofar.results
  asking := sofar.asking
  finished := sofar.finished

theorem offer {piece : Bytes} {unwritten : List Bytes} (solid : piece ≠ [])
    (sofar : Exchanging w r pieces choose ⟨.begun, piece :: unwritten⟩ b s es rest ch) :
    ∃ s', s.offerBytes w piece = (.ok (ch.offered + 1), s') ∧
      Exchanging w r pieces choose ⟨.settling (ch.offered + 1), unwritten⟩ b s'
        (es ++ [.asked (.offerBytes w piece) (.ok (ch.offered + 1))]) rest
        { ch with queue := ch.queue ++ [piece] } := by
  obtain ⟨-, held, kept⟩ := sofar.side.resolve_left fun gone => by cases gone.1
  obtain ⟨s', offered, piped⟩ := sofar.piped.offer (by rw [held]; decide) piece
  refine ⟨s', offered, piped, ?_, ?_, fun ticket phase => ?_, ?_, ?_, sofar.asking, sofar.finished⟩
  · refine sofar.ledger.onward rfl ?_ ?_ fun x => ?_
    · simp [sofar.ledger.solid, solid.symm]
    · simp
    · simp [Event.byPlace?]
  · rw [bytesTo_append, bytesTo_offerBytes, List.append_assoc]
    exact sofar.written
  · cases phase
    simp [Channel.offered, Nat.add_assoc]
  · refine .inr ⟨by simp, held, fun mem => ?_⟩
    rcases List.mem_append.1 mem with old | new
    · exact kept old
    · cases List.mem_singleton.1 new
  · exact (readsFrom_concat rfl).trans sofar.results

theorem settle {ticket : Nat} {unwritten : List Bytes}
    (sofar : Exchanging w r pieces choose ⟨.settling ticket, unwritten⟩ b s es rest ch) :
    Exchanging w r pieces choose ⟨.flushing, unwritten⟩ b s
      (es ++ [.asked (.settleBytes w ticket) (.ok ())]) rest ch :=
  sofar.quietly rfl rfl (fun _ => rfl) nofun nofun ⟨nofun, nofun⟩ rfl

theorem write (sofar : Exchanging w r pieces choose a b s es rest ch) {p : Proc Unit}
    (step : Step h (a.proc w) s es' p s') : ∃ a' ch', p = a'.proc w ∧ a'.work < a.work ∧
      Exchanging w r pieces choose a' b s' (es ++ es') rest ch' ∧ bytesFrom r es' = [] := by
  obtain ⟨phase, unwritten⟩ := a
  cases phase with
  | begun =>
    cases unwritten with
    | nil =>
      cases step with
      | request reply =>
        cases reply
        exact ⟨⟨.released, []⟩, _, rfl, Nat.zero_lt_succ _, sofar.release, rfl⟩
    | cons piece unwritten =>
      have work : 3 * unwritten.length + 3 < 3 * (unwritten.length + 1) + 1 := by omega
      by_cases solid : piece = []
      · subst solid
        rw [PieceWriter.proc, PieceWriter.writeEach_empty] at step
        obtain ⟨rfl, onward, none⟩ := sofar.flush (by simp) (by simp) step
        exact ⟨_, ch, rfl, Nat.lt_trans (by simp [PieceWriter.work]) work, onward, none⟩
      · rw [PieceWriter.proc, PieceWriter.writeEach_cons w solid] at step
        obtain ⟨s₁, offered, onward⟩ := sofar.offer solid
        cases step with
        | request reply =>
          rw [Request.perform?, offered] at reply
          cases reply
          exact ⟨⟨.settling (ch.offered + 1), unwritten⟩, _, rfl, work, onward, rfl⟩
  | settling ticket =>
    cases step with
    | @request _ _ _ _ _ x reply =>
      rw [Request.perform?, sofar.piped.settle] at reply
      split at reply
      · cases reply
        exact ⟨⟨.flushing, unwritten⟩, ch, rfl, Nat.lt_succ_self _, sofar.settle, rfl⟩
      · cases reply
  | flushing =>
    obtain ⟨rfl, onward, none⟩ := sofar.flush (by simp) rfl step
    exact ⟨_, ch, rfl, Nat.lt_succ_self _, onward, none⟩
  | released => cases step

theorem bytesFrom_length_le (sofar : Exchanging w r pieces choose a b s es rest ch) :
    (bytesFrom r es).length ≤ pieces.flatten.length :=
  (sofar.read_prefix.trans sofar.written_prefix).length_le

theorem reads {got : List (Except String Bytes)}
    (sofar : Exchanging w r pieces choose a ⟨.asking n, got⟩ s es rest ch)
    (read : PipeRead rest ch n bytes rest' ch') (piped : s'.Piped w r rest' ch') :
    Exchanging w r pieces choose a ⟨.turn, got ++ [.ok bytes]⟩ s'
      (es ++ [.asked (.read r n) (.ok bytes)]) rest' ch' := by
  obtain ⟨-, writers, -, offered⟩ := read.same
  refine ⟨piped, ?_, ?_, fun ticket phase => ?_, ?_, ?_, nofun, nofun⟩
  · refine sofar.ledger.read read (sofar.asking n rfl) fun gone => ?_
    rcases sofar.side with ⟨-, unwritten, -, released⟩ | ⟨-, held, -⟩
    · have written := sofar.written
      rw [unwritten, List.flatten_nil, List.append_nil] at written
      exact ⟨released, written⟩
    · rw [gone] at held
      cases held
  · rw [bytesTo_append, bytesTo_eq_nil (fun _ _ => by simp), List.append_nil, sofar.written]
  · rw [offered, sofar.ticket ticket phase]
  · rw [writers]
    simpa [writerGone] using sofar.side
  · rw [readsFrom_append, readsFrom_read, sofar.results]

def unread (r : ReaderId) (pieces : List Bytes) (es : List Event) : Nat :=
  pieces.flatten.length - (bytesFrom r es).length

theorem work_reads {got : List (Except String Bytes)} (untilEnd : choose.UntilEnd)
    (sofar : Exchanging w r pieces choose a ⟨.turn, got ++ [.ok bytes]⟩ s'
      (es ++ [.asked (.read r n) (.ok bytes)]) rest' ch') :
    PieceReader.work choose (unread r pieces (es ++ [.asked (.read r n) (.ok bytes)]))
        ⟨.turn, got ++ [.ok bytes]⟩ <
      PieceReader.work choose (unread r pieces es) ⟨.asking n, got⟩ := by
  have within := sofar.bytesFrom_length_le
  rw [bytesFrom_append, bytesFrom_read, List.length_append] at within
  simp only [PieceReader.work, unread, bytesFrom_append, bytesFrom_read, List.length_append]
  by_cases none : bytes = []
  · have last := (untilEnd (got ++ [.ok bytes])).1.2 (by simp [none])
    rw [last]
    simp
  · have some := List.length_pos_iff.2 none
    split <;> omega

theorem read (sofar : Exchanging w r pieces choose a b s es rest ch)
    {q : Proc (List (Except String Bytes))} (step : Step h (b.proc r choose) s es' q s') :
    ∃ b' rest' ch', q = b'.proc r choose ∧
      Exchanging w r pieces choose a b' s' (es ++ es') rest' ch' ∧
      (choose.UntilEnd → b'.work choose (unread r pieces (es ++ es')) <
        b.work choose (unread r pieces es)) := by
  obtain ⟨phase, got⟩ := b
  cases phase with
  | turn =>
    cases step with
    | loop =>
      rw [PieceReader.unfold_turn, List.append_nil]
      cases chosen : choose got with
      | some n =>
        refine ⟨_, rest, ch, rfl, { sofar with asking := ?_, finished := nofun }, fun _ => ?_⟩
        · rintro _ ⟨⟩
          exact chosen
        · simp [PieceReader.work, chosen]
      | none =>
        refine ⟨_, rest, ch, rfl, { sofar with asking := nofun, finished := fun _ => chosen }, ?_⟩
        simp [PieceReader.work, chosen]
  | asking n =>
    cases step with
    | request reply =>
      obtain ⟨bytes, rest', ch', rfl, read, piped⟩ := sofar.piped.read reply
      have onward := sofar.reads read piped
      exact ⟨_, rest', ch', rfl, onward, fun untilEnd => onward.work_reads untilEnd⟩
  | finished => cases step

/-! ### Getting to the end -/

theorem ended (sofar : Exchanging w r pieces choose a b s es rest ch) (untilEnd : choose.UntilEnd)
    (mem : .ok [] ∈ b.got) : a.phase = .released ∧ bytesFrom r es = pieces.flatten := by
  rw [← sofar.results, mem_readsFrom] at mem
  obtain ⟨n, mem⟩ := mem
  obtain ⟨-, got, chosen⟩ := sofar.ledger.sized n _ mem
  have asked : n ≠ 0 := fun zero => (untilEnd got).2 (zero ▸ chosen)
  obtain ⟨before, after, split⟩ := List.append_of_mem mem
  obtain ⟨released, whole⟩ := sofar.ledger.ended before n after split asked
  constructor
  · rcases sofar.side with ⟨phase, -⟩ | ⟨-, -, kept⟩
    · exact phase
    · exact absurd (split ▸ List.mem_append_left _ released) kept
  · refine (sofar.read_prefix.trans sofar.written_prefix).eq_of_length_le ?_
    rw [← whole, split, bytesFrom_append, List.length_append]
    exact Nat.le_add_right ..

theorem able_write (sofar : Exchanging w r pieces choose a b s es rest ch)
    (held : a.phase ≠ .released) (empty : ch.queue = []) :
    ∃ es' p s', Step h (a.proc w) s es' p s' := by
  obtain ⟨phase, unwritten⟩ := a
  cases phase with
  | begun =>
    cases unwritten with
    | nil => exact ⟨_, _, _, .request rfl⟩
    | cons piece unwritten =>
      by_cases solid : piece = []
      · rw [solid, PieceWriter.proc, PieceWriter.writeEach_empty]
        exact ⟨_, _, _, .request rfl⟩
      · rw [PieceWriter.proc, PieceWriter.writeEach_cons w solid]
        exact ⟨_, _, _, .request rfl⟩
  | settling ticket =>
    have settled : s.settleBytes? w ticket = some (.ok ()) := by
      -- The ticket is that of the newest chunk, and all up to it have been taken.
      have room : ch.hasRoomFor ch.offered = true := by
        simp only [Channel.hasRoomFor, Channel.offered, empty]
        split <;> simp
      rw [sofar.piped.settle, sofar.ticket ticket rfl, if_pos room]
    have reply : (Request.settleBytes w ticket).perform? s = some (.ok (), s) := by
      rw [Request.perform?, settled]
      rfl
    exact ⟨_, _, _, .request reply⟩
  | flushing => exact ⟨_, _, _, .request rfl⟩
  | released => exact absurd rfl held

theorem able (sofar : Exchanging w r pieces choose a b s es rest ch) (untilEnd : choose.UntilEnd)
    (unfinished : (a.proc w).outcome? = none ∨ (b.proc r choose).outcome? = none) :
    (∃ es' p s', Step h (a.proc w) s es' p s') ∨
      ∃ es' q s', Step h (b.proc r choose) s es' q s' := by
  obtain ⟨phase, got⟩ := b
  cases phase with
  | turn => exact .inr ⟨[], _, s, .loop⟩
  | asking n =>
    by_cases ready : rest ≠ [] ∨ ch.queue ≠ [] ∨ ch.writers = 0
    · obtain ⟨x, s', reply⟩ := sofar.piped.exists_read ready n
      exact .inr ⟨_, _, s', .request reply⟩
    · obtain ⟨-, waits⟩ := not_or.1 ready
      obtain ⟨empty, held⟩ := not_or.1 waits
      refine .inl (sofar.able_write (fun gone => ?_) (Classical.not_not.1 empty))
      rcases sofar.side with ⟨-, -, closed, -⟩ | ⟨kept, -⟩
      · exact held closed
      · exact kept gone
  | finished =>
    have last := (untilEnd got).1.1 (sofar.finished rfl)
    obtain ⟨released, -⟩ := sofar.ended untilEnd last
    obtain ⟨phase, unwritten⟩ := a
    cases released
    rcases unfinished with busy | busy <;> cases busy

end Exchanging

/-! ### The whole exchange -/

theorem exists_given {got : List (Except String Bytes)} (fine : ∀ x ∈ got, ∃ bytes, x = .ok bytes) :
    ∃ given : List Bytes, got = given.map .ok := by
  induction got with
  | nil => exact ⟨[], rfl⟩
  | cons x got ih =>
    obtain ⟨⟨bytes, rfl⟩, others⟩ := List.forall_mem_cons.1 fine
    obtain ⟨given, rfl⟩ := ih others
    exact ⟨bytes :: given, rfl⟩

theorem bytesFrom_of_given {given : List Bytes} (results : readsFrom r es = given.map .ok) :
    bytesFrom r es = given.flatten := by
  rw [bytesFrom, results, List.filterMap_map]
  simp [Function.comp_def, Except.toOption]

def Underway (w : WriterId) (r : ReaderId) (pieces : List Bytes) (choose : Choice) (es : List Event)
    (work : Nat) (p : Proc Unit) (q : Proc (List (Except String Bytes))) (s : System) : Prop :=
  ∃ a b rest ch, p = a.proc w ∧ q = b.proc r choose ∧
    Exchanging w r pieces choose a b s es rest ch ∧
    work = a.work + b.work choose (Exchanging.unread r pieces es)

namespace Underway

variable {h : Host} {s s' : System} {p p' : Proc Unit} {q q' : Proc (List (Except String Bytes))}
  {es' : List Event} {work : Nat}

theorem start (s : System) (capacity : Nat) (pieces : List Bytes) (choose : Choice) :
    ∃ work, Underway (s.addPipe capacity 0).1.1 (s.addPipe capacity 0).1.2 pieces choose [] work
      (writeEach (.writing (s.addPipe capacity 0).1.1) pieces)
      (readEach (.reading (s.addPipe capacity 0).1.2) choose) (s.addPipe capacity 0).2 :=
  ⟨_, ⟨.begun, pieces⟩, ⟨.turn, []⟩, [], _, rfl, rfl, .start s capacity pieces choose, rfl⟩

theorem left (underway : Underway w r pieces choose es work p q s)
    (step : Step h p s es' p' s') :
    ∃ less < work, Underway w r pieces choose (es ++ es') less p' q s' := by
  obtain ⟨a, b, rest, ch, rfl, rfl, sofar, rfl⟩ := underway
  obtain ⟨a', ch', rfl, less, onward, unread⟩ := sofar.write step
  refine ⟨_, ?_, a', b, rest, ch', rfl, rfl, onward, rfl⟩
  rw [Exchanging.unread, bytesFrom_append, unread, List.append_nil]
  exact Nat.add_lt_add_right less _

theorem right (underway : Underway w r pieces choose es work p q s)
    (step : Step h q s es' q' s') :
    ∃ less, (choose.UntilEnd → less < work) ∧
      Underway w r pieces choose (es ++ es') less p q' s' := by
  obtain ⟨a, b, rest, ch, rfl, rfl, sofar, rfl⟩ := underway
  obtain ⟨b', rest', ch', rfl, onward, less⟩ := sofar.read step
  exact ⟨_, fun untilEnd => Nat.add_lt_add_left (less untilEnd) _, a, b', rest', ch', rfl, rfl,
    onward, rfl⟩

theorem delivered (underway : Underway w r pieces choose es work p q s)
    (untilEnd : choose.UntilEnd) {y : Outcome (List (Except String Bytes))}
    (outcome : q.outcome? = some y) : ∃ given : List Bytes, y = .returned (given.map .ok) ∧
      [] ∈ given ∧ given.flatten = pieces.flatten := by
  obtain ⟨a, ⟨phase, got⟩, rest, ch, rfl, rfl, sofar, -⟩ := underway
  cases phase with
  | turn => cases outcome
  | asking n => cases outcome
  | finished =>
    have last := (untilEnd got).1.1 (sofar.finished rfl)
    obtain ⟨-, whole⟩ := sofar.ended untilEnd last
    have results : readsFrom r es = got := sofar.results
    obtain ⟨given, rfl⟩ : ∃ given : List Bytes, got = given.map .ok := by
      refine exists_given fun x mem => ?_
      obtain ⟨n, asked⟩ := mem_readsFrom.1 (results ▸ mem)
      obtain ⟨⟨bytes, same, -⟩, -⟩ := sofar.ledger.sized n x asked
      exact ⟨bytes, same⟩
    rw [bytesFrom_of_given results] at whole
    exact ⟨given, (Option.some.inj outcome).symm, by simpa using last, whole⟩

end Underway

structure Lossless (w : WriterId) (r : ReaderId) (pieces : List Bytes) (es : List Event) :
    Prop where
  read : bytesFrom r es <+: bytesTo (.writing w) es
  written : bytesTo (.writing w) es <+: pieces.flatten
  answered : ∀ n x, .asked (.read r n) x ∈ es → ∃ bytes, x = .ok bytes ∧ bytes.length ≤ n
  ended : ∀ before n after, es = before ++ .asked (.read r n) (.ok []) :: after → n ≠ 0 →
    writerGone w ∈ before ∧ bytesFrom r before = pieces.flatten
  inside : (byPlace? w r es).isSome

theorem Underway.lossless {work : Nat} {p : Proc Unit} {q : Proc (List (Except String Bytes))}
    {s : System} (underway : Underway w r pieces choose es work p q s) :
    Lossless w r pieces es := by
  obtain ⟨a, b, rest, ch, -, -, sofar, -⟩ := underway
  refine ⟨sofar.read_prefix, sofar.written_prefix, fun n x mem => (sofar.ledger.sized n x mem).1,
    sofar.ledger.ended, ?_⟩
  obtain ⟨x, place, -⟩ := sofar.ledger.placed
  rw [place]
  rfl

/-- However the writer of some pieces and the reader of a pipe take turns, what is read is the
beginning of what is written, and a read of at least one byte gives none only behind the end.  A
reader that goes on until then comes to the end and has read all. -/
theorem pipe_is_lossless (h : Host) (s₀ : System) (capacity : Nat) (pieces : List Bytes)
    (choose : Choice) :
    let w := (s₀.addPipe capacity 0).1.1
    let r := (s₀.addPipe capacity 0).1.2
    let s := (s₀.addPipe capacity 0).2
    (∀ es q s', Steps h (exchange w r pieces choose) s es q s' → Lossless w r pieces es) ∧
    (choose.UntilEnd → Meets h (exchange w r pieces choose) s fun got _ =>
      ∃ given : List Bytes, got = given.map .ok ∧ [] ∈ given ∧ given.flatten = pieces.flatten) := by
  intro w r s
  let together (p : Proc Unit) (q : Proc (List (Except String Bytes))) (s : System)
      (es : List Event) : Prop := ∃ work, Underway w r pieces choose es work p q s
  have start : together _ _ s [] := Underway.start s₀ capacity pieces choose
  have left {p q s es es' p' s'} (holds : together p q s es) (step : Step h p s es' p' s') :
      together p' q s' (es ++ es') := by
    obtain ⟨work, underway⟩ := holds
    obtain ⟨less, -, onward⟩ := underway.left step
    exact ⟨less, onward⟩
  have right {p q s es es' q' s'} (holds : together p q s es) (step : Step h q s es' q' s') :
      together p q' s' (es ++ es') := by
    obtain ⟨work, underway⟩ := holds
    obtain ⟨less, -, onward⟩ := underway.right step
    exact ⟨less, onward⟩
  refine ⟨fun es q s' steps => ?_, fun untilEnd => ⟨?_, fun es o s' run => ?_⟩⟩
  · rcases steps_both start left right steps with ⟨p', q', -, work, underway⟩ |
      ⟨p', q', x, y, s₁, es₁, es₂, rfl, ⟨work, underway⟩, -, -, rest⟩
    · exact underway.lossless
    · obtain ⟨rfl, -⟩ := rest.of_outcome (outcome?_ofOutcome y)
      rw [List.append_nil]
      exact underway.lossless
  · obtain ⟨work, start⟩ := start
    refine terminates_both (motive := fun n p q s => ∃ es, Underway w r pieces choose es n p q s)
      ⟨[], start⟩ ?_ ?_ ?_ fun {_ _ _ _ _ y} _ _ _ => terminates_ofOutcome y
    · rintro n p q s es p' s' ⟨es₀, underway⟩ step
      obtain ⟨less, lower, onward⟩ := underway.left step
      exact ⟨less, lower, _, onward⟩
    · rintro n p q s es q' s' ⟨es₀, underway⟩ step
      obtain ⟨less, lower, onward⟩ := underway.right step
      exact ⟨less, lower untilEnd, _, onward⟩
    · rintro n p q s ⟨es₀, a, b, rest, ch, rfl, rfl, sofar, -⟩ unfinished
      exact sofar.able untilEnd unfinished
  · obtain ⟨p', q', x, y, s₁, es₁, es₂, -, ⟨work, underway⟩, -, outcome, rest⟩ :=
      runs_both start left right run
    obtain ⟨given, rfl, last, whole⟩ := underway.delivered untilEnd outcome
    obtain ⟨-, rfl, -⟩ := runs_ofOutcome.1 rest
    exact ⟨_, rfl, given, rfl, last, whole⟩

namespace Greeting

def words : List Bytes := [Utf8.encode "hel", [], Utf8.encode "lo"]

def growing : Choice := .inOrder (· + 1)

theorem greeting_arrives : Meets .none
    (exchange (System.addPipe {} 1 0).1.1 (System.addPipe {} 1 0).1.2 words growing)
    (System.addPipe {} 1 0).2 fun got _ => ∃ given : List Bytes, got = given.map .ok ∧
      [] ∈ given ∧ given.flatten = Utf8.encode "hello" := by
  have whole : words.flatten = Utf8.encode "hello" := by decide
  rw [← whole]
  exact (pipe_is_lossless .none {} 1 words growing).2 (Choice.untilEnd_inOrder fun _ => by simp)

end Greeting

end Conduit
