import Conduit.Proofs.Pipeline.Following

/-!
All stages of a pipeline side by side.  Each follows its own turn, or it has been cut short or come
to its end and gives up what it has left, and no step of one stage takes another one off its course.
-/

namespace Conduit

open Proc

section Empty

variable {s s' : System} {ctx : Context} {reads writes : View} {due : Option Request} {r : Request}
  {x : r.Reply} {p : PipeId} {q : ReaderId} {y : ByteReader} {ch : Channel Bytes}

theorem nil_not_mem_chunksInto (act : ctx.Act reads writes due r) :
    [] ∉ s.chunksInto p [.asked r x] := by
  cases act with
  | offerBytes output some =>
    cases x with
    | ok ticket =>
      rw [System.chunksInto_offerBytes]
      split
      · exact fun mem => some (List.mem_singleton.1 mem).symm
      · exact nofun
    | error message => exact nofun
  | _ => exact nofun

theorem ended_of_fill (reader : s.readers[q.index]? = some y) (size : y.bufferSize ≠ 0)
    (behind : y.source.pipe? = some p) (here : s.pipes[p.index]? = some ch) (filled : [] ∉ ch.queue)
    (fill : s.fillBuffer? q = some (.ok [], s')) : ch.writers = 0 := by
  generalize reply : (Except.ok [] : Except String Bytes) = a at fill
  cases System.refill_of_fillBuffer? reader fill with
  | atHand needs =>
    obtain ⟨source, bufferSize, buffer, holders⟩ := y
    cases source with
    | fixed => cases behind
    | pipe p rest =>
      cases buffer with
      | cons => cases reply
      | nil =>
        have none : rest.take bufferSize = [] := (Except.ok.inj reply).symm
        obtain rfl : rest = [] := (List.take_eq_nil_iff.1 none).resolve_left size
        simp [ByteReader.needs?] at needs
        exact absurd needs size
  | took needs there first =>
    rw [System.pipe?_of_needs? needs] at behind
    cases behind
    rw [here] at there
    cases there
    have none := (Except.ok.inj reply).symm
    obtain rfl := (List.take_eq_nil_iff.1 none).resolve_left size
    exact absurd (first ▸ List.mem_cons_self) filled
  | ended needs none =>
    rw [System.pipe?_of_needs? needs] at behind
    cases behind
    exact (none ch here).2

end Empty

namespace Pipeline

variable {h : Host} {s₀ s s' t t' : System} {template : Context} {n j k made : Nat} {turns : Turns}
  {reads writes : View} {due : Option Request} {p p' : Proc Signal} {es : List Event}
  {before now : List Event} {left leftT : Nat → List PortEnd} {beyond : Supply} {r : Request}
  {x : r.Reply}

structure Filled (s₀ s : System) (made : Nat) : Prop where
  chunks : ∀ k < made, ∀ ch, s.pipes[(linkPipe s₀ k).index]? = some ch → [] ∉ ch.queue
  sizes : ∀ k < made, ∀ y, s.readers[(linkReader s₀ k).index]? = some y → y.bufferSize ≠ 0

namespace Filled

theorem of_laid (laid : Laid s₀ s made) : Filled s₀ s made where
  chunks k lt ch here := by
    have contents := laid.pipes.added k lt
    rw [show s.pipes[s₀.pipes.size + k]? = some ch from here] at contents
    simp only [Option.map_some, Channel.contents, Option.some.injEq, Prod.mk.injEq] at contents
    rw [contents.1]
    exact List.not_mem_nil
  sizes k lt y here := by
    have data := laid.readers.added k lt
    rw [show s.readers[s₀.readers.size + k]? = some y from here] at data
    simp only [Option.map_some, ByteReader.data, Option.some.injEq, Prod.mk.injEq] at data
    rw [data.2.1]
    decide

theorem perform {ctx : Context} (filled : Filled s₀ s made) (act : ctx.Act reads writes due r)
    (reply : r.perform? s = some (x, s')) : Filled s₀ s' made where
  chunks k lt ch' here' := by
    have sides := (Request.sameShape_perform act.isTransfer reply).pipes (linkPipe s₀ k).index
    rw [here'] at sides
    obtain ⟨ch, here, -⟩ := Option.map_eq_some_iff.1 sides.symm
    obtain ⟨_, out, there, moved, -⟩ := System.moved_pipe act.isTransfer reply here
    rw [here'] at there
    cases there
    intro mem
    have all : [] ∈ ch.queue ++ s.chunksInto (linkPipe s₀ k) [.asked r x] := by
      rw [moved.queue]
      exact List.mem_append_right out mem
    rcases List.mem_append.1 all with before | new
    · exact filled.chunks k lt ch here before
    · exact nil_not_mem_chunksInto act new
  sizes k lt y' here' := by
    have shape := (Request.sameShape_perform act.isTransfer reply).readers (linkReader s₀ k).index
    rw [here'] at shape
    obtain ⟨y, here, same⟩ := Option.map_eq_some_iff.1 shape.symm
    simp only [ByteReader.shape, Prod.mk.injEq] at same
    rw [← same.2.1]
    exact filled.sizes k lt y here

theorem alike (filled : Filled s₀ s made) (alike : s.Alike s') : Filled s₀ s' made where
  chunks k lt ch' here' := by
    obtain ⟨ch, here, queue, -⟩ := System.exists_of_contents (alike.pipes _).symm here'
    rw [← queue]
    exact filled.chunks k lt ch here
  sizes k lt y' here' := by
    have data := alike.readers (linkReader s₀ k).index
    rw [here'] at data
    obtain ⟨y, here, same⟩ := Option.map_eq_some_iff.1 data
    simp only [ByteReader.data, Prod.mk.injEq] at same
    rw [← same.2.1]
    exact filled.sizes k lt y here

end Filled

section Sound

variable (sound : template.Sound s₀)
include sound

theorem not_ends (accounts : Accounts s₀ template n s left) (filled : Filled s₀ s (n - 1))
    (lt : k + 1 < n) (whole : left k = stageEnds s₀ template n k)
    (reply : r.perform? s = some (x, s')) {view : View} :
    ¬ (stageContext s₀ template n (k + 1)).Ends view (.asked r x) := by
  intro ends
  -- The input of the stage is a link whose writing side the stage before it still holds, and a link
  -- that is written to does not end.
  cases view with
  | values =>
    cases r with
    | take c =>
      cases x with
      | some v => cases ends
      | none =>
        obtain ⟨first, -⟩ | ⟨-, rfl⟩ := place_of_take sound ends
        · cases first
        · have mem : .channel (.writing (linkChannel s₀ k)) ∈ stageEnds s₀ template n k :=
            writing_mem_stageEnds lt (by simp [Port.ends, writingPort])
          have held := accounts.held_of_whole (by omega) whole rfl mem
          have here := Array.getElem?_eq_getElem (index_lt_of_holders held)
          rcases System.takeValue?_cases here reply with ⟨_, _, -, other, -⟩ | ⟨-, none, -, -⟩
          · cases other
          · exact accounts.channel_link_writers sound lt whole here none
    | _ => cases ends
  | bytes =>
    cases r with
    | fill q =>
      rcases x with error | ⟨- | ⟨b, bytes⟩⟩
      · cases ends
      · obtain ⟨first, -⟩ | ⟨-, rfl⟩ := place_of_fill sound ends
        · cases first
        · have behind := accounts.kept.linkReaders k (by omega)
          obtain ⟨source, there, pipe⟩ := Option.bind_eq_some_iff.1 behind
          obtain ⟨y, reader, rfl⟩ := System.source?_eq_some there
          have sides := accounts.kept.linkPipes k (by omega)
          obtain ⟨ch, here, -⟩ := Option.map_eq_some_iff.1 sides
          exact accounts.pipe_link_writers sound lt whole here
            (ended_of_fill reader (filled.sizes k (by omega) y reader) pipe here
              (filled.chunks k (by omega) ch here) reply)
      · cases ends
    | _ => cases ends

/-! ### One stage while another one does something -/

omit sound in
theorem supply_update {after : Nat → List Event} {rest : List Event} (earlier : k ≠ 0 → j ≠ k - 1) :
    supply s₀ k (Function.update after j rest (k - 1)) = supply s₀ k (after (k - 1)) := by
  by_cases first : k = 0
  · rw [supply, supply, if_pos first, if_pos first]
  · rw [Function.update_of_ne (earlier first).symm]

def incoming (ctx : Context) (s : System) (ev : Event) : Supply where
  values := match ctx.input.channel with
    | .reading c => valuesTo (.writing c) [ev]
    | _ => []
  chunks := match ctx.input.stream with
    | .reading q => ((s.readingPipe? q).map (s.chunksInto · [ev])).getD []
    | _ => []

theorem supply_of_follow {after : Nat → List Event} {rest : List Event}
    (act : (stageContext s₀ template n j).Act reads writes due r)
    (first : after j = .asked r x :: rest) (k : Nat) : supply s₀ k (after (k - 1)) =
      supply s₀ k ([.asked r x] ++ Function.update after j rest (k - 1)) := by
  by_cases zero : k = 0
  · rw [supply, supply, if_pos zero, if_pos zero]
  by_cases next : j = k - 1
  · rw [← next, Function.update_self, first]
    rfl
  · have none : supply s₀ k [.asked r x] = {} := by
      rw [supply, if_neg zero, linkSupply_other sound act next]
    rw [Function.update_of_ne (Ne.symm next), supply_append, none, Supply.empty_append]

theorem abreast_beside (accS : Accounts s₀ template n s left)
    (accT : Accounts s₀ template n t leftT) (ltj : j < n) (lt : k < n) (differ : j ≠ k)
    (act : (stageContext s₀ template n j).Act reads writes due r)
    (reply : r.perform? s = some (x, s'))
    (abreast : Abreast (stageContext s₀ template n k) s t beyond (supply s₀ k before))
    (account : supply s₀ k before = supply s₀ k ([.asked r x] ++ now)) :
    ∃ beyond', Abreast (stageContext s₀ template n k) s' t beyond' (supply s₀ k now) := by
  have apart := apart_stages sound accS.kept.toPlumbed ltj lt differ
  have same := Request.sameShape_perform act.isTransfer reply
  have fares := fares_of_act apart act reply
  by_cases first : k = 0
  · -- Only the first stage may have what another one writes come back to it.
    subst first
    have none (es : List Event) : supply s₀ 0 es = {} := if_pos rfl
    rw [none] at abreast ⊢
    refine ⟨_, abreast.beside fares same.readingPipe? same.writingPipe?
      (incoming (stageContext s₀ template n 0) s (.asked r x)) (fun c input => ?_)
      fun q p input pipe => ?_⟩
    · have come : (incoming (stageContext s₀ template n 0) s (.asked r x)).values =
        valuesTo (.writing c) [.asked r x] := by simp only [incoming, input]
      obtain ⟨u, v, hu, hv, -⟩ := abreast.values c input
      obtain ⟨-, old⟩ | ⟨later, -⟩ := place_of_take sound input
      · rw [come]
        refine ⟨by rw [List.nil_append, List.append_nil], fun some y there none => ?_⟩
        have accepted := System.writers_of_valuesTo reply some hu
        exact accepted ((accS.channel_old sound old hu).2.2
          ((accT.channel_old sound old there).2.1 none))
      · cases later
    · have come : (incoming (stageContext s₀ template n 0) s (.asked r x)).chunks =
        s.chunksInto p [.asked r x] := by
        simp only [incoming, input, pipe, Option.map_some, Option.getD_some]
      obtain ⟨u, v, hu, hv, -⟩ := abreast.bytes q p input pipe
      obtain ⟨-, old⟩ | ⟨later, -⟩ := place_of_readingPipe sound accS.kept.toPlumbed lt input pipe
      · rw [come]
        refine ⟨by rw [List.nil_append, List.append_nil], fun some y there none => ?_⟩
        have accepted := System.writers_of_chunksInto reply some hu
        have sides := sides_old accS accT old hu there
        simp only [Channel.sides, Prod.mk.injEq] at sides
        exact accepted (sides.2.trans none)
      · cases later
  · -- What the stage before puts into the link was to come, by `account`.
    refine ⟨_, abreast.beside fares same.readingPipe? same.writingPipe? {}
      (fun c input => ⟨?_, absurd rfl⟩) fun q p input pipe => ⟨?_, absurd rfl⟩⟩
    · rw [account, supply_append, incoming_values sound input (Nat.pos_of_ne_zero first)]
      exact List.append_nil _
    · rw [account, supply_append, incoming_chunks sound act accS.kept.toPlumbed ltj lt input pipe
        (Nat.pos_of_ne_zero first)]
      exact List.append_nil _

end Sound

/-! ### What is written to a port -/

def SameOutput (p : Port) (es es' : List Event) : Prop :=
  valuesTo p.channel es = valuesTo p.channel es' ∧ bytesTo p.stream es = bytesTo p.stream es'

namespace SameOutput

variable {port : Port} {first rest mid all : List Event}

theorem trans (same : SameOutput port es first) (same' : SameOutput port first all) :
    SameOutput port es all := ⟨same.1.trans same'.1, same.2.trans same'.2⟩

theorem append (same : SameOutput port es first) (same' : SameOutput port mid rest) :
    SameOutput port (es ++ mid) (first ++ rest) :=
  ⟨by rw [valuesTo_append, valuesTo_append, same.1, same'.1],
    by rw [bytesTo_append, bytesTo_append, same.2, same'.2]⟩

theorem insert (same : SameOutput port (es ++ rest) all) (none : SameOutput port mid []) :
    SameOutput port (es ++ mid ++ rest) all := by
  have dropped : SameOutput port (es ++ mid ++ rest) (es ++ [] ++ rest) :=
    append (append ⟨rfl, rfl⟩ none) ⟨rfl, rfl⟩
  rw [List.append_nil] at dropped
  exact dropped.trans same

end SameOutput

theorem sameOutput_of_refusal {e : PortError} (refusal : r.refusal? x = some e) (port : Port) :
    SameOutput port [.asked r x] [] := by
  cases r with
  | offer c v => cases x with
    | ok => cases refusal
    | error => exact ⟨rfl, rfl⟩
  | offerBytes w bytes => cases x with
    | ok => cases refusal
    | error => exact ⟨rfl, rfl⟩
  | _ => exact ⟨rfl, rfl⟩

theorem sameOutput_release (d : PortEnd) (y : d.releaseRequest.Reply) (port : Port) :
    SameOutput port [.asked d.releaseRequest y] [] := by
  cases d <;> exact ⟨rfl, rfl⟩

theorem sameOutput_of_act (sound : template.Sound s₀) (inner : j + 1 < n)
    (act : (stageContext s₀ template n j).Act reads writes due r) :
    SameOutput template.output [.asked r x] [] := by
  cases act with
  | @offer _ _ c v output =>
    rcases place_of_offer sound output with ⟨-, rfl⟩ | ⟨last, -⟩
    · cases x with
      | error => exact ⟨rfl, rfl⟩
      | ok ticket =>
        refine ⟨?_, rfl⟩
        have other : template.output.channel ≠ .writing (linkChannel s₀ j) := by
          intro same
          have held := held_of_output sound (e := .channel (.writing (linkChannel s₀ j))) rfl
            (by simp [Port.ends, same])
          have old := index_lt_of_holders held
          simp [linkChannel] at old
        simp [valuesTo, Event.valueTo?, other]
    · omega
  | @offerBytes _ _ w bytes output =>
    rcases place_of_write sound output with ⟨-, rfl⟩ | ⟨last, -⟩
    · cases x with
      | error => exact ⟨rfl, rfl⟩
      | ok ticket =>
        refine ⟨rfl, ?_⟩
        have other : template.output.stream ≠ .writing (linkWriter s₀ j) := by
          intro same
          have held := held_of_output sound (e := .stream (.writing (linkWriter s₀ j))) rfl
            (by simp [Port.ends, same])
          have old := index_lt_of_holders held
          simp [linkWriter] at old
        simp [bytesTo, chunksTo, Event.chunkTo?, other]
    · omega
  | _ => exact ⟨rfl, rfl⟩

/-! ### The course of all stages -/

def Loose (s₀ : System) (template : Context) (n : Nat) (turns : Turns) (k : Nat) : Prop :=
  ∃ view, (∃ ev ∈ turns.events k, (stageContext s₀ template n k).Sends view ev) ∧
    ∀ ev ∈ turns.events (k + 1), ¬ (stageContext s₀ template n (k + 1)).Ends view ev

def Unended (s₀ : System) (template : Context) (n : Nat) (turns : Turns)
    (left : Nat → List PortEnd) (after : Nat → List Event) (k : Nat) : Prop :=
  ∀ j, k = j + 1 → left j = stageEnds s₀ template n j → ∀ view, ∀ ev ∈ turns.events k,
    (stageContext s₀ template n k).Ends view ev → ev ∈ after k

inductive Phase (h : Host) (s₀ : System) (template : Context) (n : Nat) (turns : Turns)
    (readsOf writesOf : Nat → View) (s : System) (left : Nat → List PortEnd)
    (after : Nat → List Event) (k : Nat) : Proc Signal → Prop
  | following {t : System} {due : Option Request} {beyond : Supply} {p : Proc Signal}
      (solo : Solo h s₀ template n k turns (readsOf k) (writesOf k) t due (after k) p)
      (abreast : Abreast (stageContext s₀ template n k) s t beyond (supply s₀ k (after (k - 1))))
      (alone : n = 1 → beyond = {}) (whole : left k = stageEnds s₀ template n k)
      (unended : Unended s₀ template n turns left after k) :
      Phase h s₀ template n turns readsOf writesOf s left after k
        (p.bind fun a => releasing a (stageEnds s₀ template n k))
  | leaving (none : after k = []) (unended : Unended s₀ template n turns left after k) :
      Phase h s₀ template n turns readsOf writesOf s left after k
        (releasing (turns.signal k) (left k))
  | cut {e : PortError} (isCut : e.IsCut) (none : after k = []) (inner : k + 1 < n)
      (passed : left (k + 1) ≠ stageEnds s₀ template n (k + 1))
      (loose : ∃ j, k ≤ j ∧ j + 1 < n ∧ Loose s₀ template n turns j) :
      Phase h s₀ template n turns readsOf writesOf s left after k
        (releasing (BuiltinError.port e).signal (left k))

variable {readsOf writesOf : Nat → View} {left' : Nat → List PortEnd}
  {after after' : Nat → List Event}

theorem Phase.other (phase : Phase h s₀ template n turns readsOf writesOf s left after k p)
    (ends : left' k = left k) (events : after' k = after k)
    (before : ∀ j, left' j = stageEnds s₀ template n j → left j = stageEnds s₀ template n j)
    (keeps : ∀ t beyond, left k = stageEnds s₀ template n k →
      Accounts s₀ template n t (endsAtTurn s₀ template n k) →
      Abreast (stageContext s₀ template n k) s t beyond (supply s₀ k (after (k - 1))) →
      ∃ beyond', (n = 1 → beyond' = beyond) ∧
        Abreast (stageContext s₀ template n k) s' t beyond' (supply s₀ k (after' (k - 1)))) :
    Phase h s₀ template n turns readsOf writesOf s' left' after' k p := by
  have unended (before' : Unended s₀ template n turns left after k) :
      Unended s₀ template n turns left' after' k := by
    intro j next whole view ev mem isEnd
    rw [events]
    exact before' j next (before j whole) view ev mem isEnd
  cases phase with
  | following solo abreast alone whole ends' =>
    obtain ⟨beyond', same, abreast'⟩ := keeps _ _ whole solo.accounts abreast
    exact .following (events ▸ solo) abreast' (fun one => (same one).trans (alone one))
      (ends.trans whole) (unended ends')
  | leaving none ends' =>
    rw [← ends]
    exact .leaving (events.trans none) (unended ends')
  | cut isCut none inner passed loose =>
    rw [← ends]
    exact .cut isCut (events.trans none) inner (fun whole => passed (before _ whole)) loose

structure Course (h : Host) (s₀ : System) (template : Context) (n : Nat) (turns : Turns)
    (readsOf writesOf : Nat → View) (ps : List (Proc Signal)) (s : System) (es : List Event)
    (left : Nat → List PortEnd) (after : Nat → List Event) : Prop where
  accounts : Accounts s₀ template n s left
  filled : Filled s₀ s (n - 1)
  length : ps.length = n
  phase : ∀ k p, ps[k]? = some p →
    Phase h s₀ template n turns readsOf writesOf s left after k p
  output : SameOutput template.output (es ++ after (n - 1)) (turns.events (n - 1))

theorem forall_getElem?_set {α : Type*} {xs : List α} {y : α} {motive : Nat → α → Prop}
    (own : motive j y) (others : ∀ k x, j ≠ k → xs[k]? = some x → motive k x) (k : Nat) (x : α)
    (here : (xs.set j y)[k]? = some x) : motive k x := by
  rw [List.getElem?_set] at here
  split at here
  · next same =>
    subst same
    split at here
    · cases here; exact own
    · cases here
  · next differ => exact others k x differ here

theorem ne_stageEnds {rest : List PortEnd} {d : PortEnd}
    (part : d :: rest <:+ stageEnds s₀ template n k) : rest ≠ stageEnds s₀ template n k := by
  rintro rfl
  have length := part.length_le
  rw [List.length_cons] at length
  omega

namespace Course

variable {ps : List (Proc Signal)} {rest : List Event} {ends : List PortEnd} {d : PortEnd}
  (course : Course h s₀ template n turns readsOf writesOf ps s es left after)
include course

theorem lt (here : ps[k]? = some p) : k < n :=
  course.length ▸ (List.getElem?_eq_some_iff.1 here).1

theorem silently (own : Phase h s₀ template n turns readsOf writesOf s left after j p') :
    Course h s₀ template n turns readsOf writesOf (ps.set j p') s (es ++ []) left after where
  accounts := course.accounts
  filled := course.filled
  length := by rw [List.length_set, course.length]
  phase := forall_getElem?_set own fun k p _ here => course.phase k p here
  output := by rw [List.append_nil]; exact course.output

variable (sound : template.Sound s₀) (ltj : j < n)
include sound ltj

theorem follow (act : (stageContext s₀ template n j).Act reads writes due r)
    (reply : r.perform? s = some (x, s')) (first : after j = .asked r x :: rest)
    (own : Phase h s₀ template n turns readsOf writesOf s' left (Function.update after j rest) j p') :
    Course h s₀ template n turns readsOf writesOf (ps.set j p') s' (es ++ [.asked r x]) left
      (Function.update after j rest) where
  accounts := course.accounts.sameShape (Request.sameShape_perform act.isTransfer reply)
  filled := course.filled.perform act reply
  length := by rw [List.length_set, course.length]
  phase := by
    refine forall_getElem?_set own fun k p differ here => ?_
    refine (course.phase k p here).other rfl (Function.update_of_ne (Ne.symm differ) ..)
      (fun _ whole => whole) fun t beyond whole accT abreast => ?_
    have ltk := course.lt here
    obtain ⟨beyond', abreast'⟩ := abreast_beside sound course.accounts accT ltj ltk differ act reply
      abreast (supply_of_follow sound act first k)
    exact ⟨beyond', fun one => by omega, abreast'⟩
  output := by
    by_cases last : j = n - 1
    · subst last
      have output := course.output
      rw [first] at output
      rwa [Function.update_self, List.append_assoc]
    · rw [Function.update_of_ne (Ne.symm last)]
      exact course.output.insert (sameOutput_of_act sound (by omega) act)

omit sound ltj in
theorem cutShort {e : PortError} (refusal : r.refusal? x = some e) (inner : j + 1 < n)
    (passed : left (j + 1) ≠ stageEnds s₀ template n (j + 1))
    (own : Phase h s₀ template n turns readsOf writesOf s left (Function.update after j []) j p') :
    Course h s₀ template n turns readsOf writesOf (ps.set j p') s (es ++ [.asked r x]) left
      (Function.update after j []) where
  accounts := course.accounts
  filled := course.filled
  length := by rw [List.length_set, course.length]
  phase := by
    refine forall_getElem?_set own fun k p differ here => ?_
    refine (course.phase k p here).other rfl (Function.update_of_ne (Ne.symm differ) ..)
      (fun _ whole => whole) fun t beyond whole _ abreast => ⟨beyond, fun _ => rfl, ?_⟩
    have earlier : k ≠ 0 → j ≠ k - 1 := by
      rintro later rfl
      rw [Nat.sub_add_cancel (Nat.pos_of_ne_zero later)] at passed
      exact passed whole
    rwa [supply_update earlier]
  output := by
    rw [Function.update_of_ne (by omega)]
    exact course.output.insert (sameOutput_of_refusal refusal _)

theorem release (held : left j = d :: ends) (y : d.releaseRequest.Reply)
    (own : Phase h s₀ template n turns readsOf writesOf (s.release d) (Function.update left j ends)
      after j p') :
    Course h s₀ template n turns readsOf writesOf (ps.set j p') (s.release d)
      (es ++ [.asked d.releaseRequest y]) (Function.update left j ends) after where
  accounts := course.accounts.release sound ltj held
  filled := course.filled.alike (System.alike_release s d)
  length := by rw [List.length_set, course.length]
  phase := by
    have gaveUp := ne_stageEnds (held ▸ course.accounts.part j ltj)
    refine forall_getElem?_set own fun k p differ here => ?_
    refine (course.phase k p here).other (Function.update_of_ne (Ne.symm differ) ..) rfl
      (fun i whole => ?_) fun t beyond _ _ abreast =>
        ⟨beyond, fun _ => rfl, abreast.alike_first (System.alike_release s d)⟩
    by_cases same : i = j
    · subst same
      rw [Function.update_self] at whole
      exact absurd whole gaveUp
    · rwa [Function.update_of_ne same] at whole
  output := course.output.insert (sameOutput_release d y _)

/-! #### A step of a stage -/

theorem releasing {a : Signal} {es' : List Event}
    (own : ∀ s' ends, Phase h s₀ template n turns readsOf writesOf s' (Function.update left j ends)
      after j (releasing a (Function.update left j ends j)))
    (step : Step h (Conduit.releasing a (left j)) s es' p' s') : ∃ left' after',
      Course h s₀ template n turns readsOf writesOf (ps.set j p') s' (es ++ es') left' after' := by
  obtain ⟨d, ends, y, held, rfl, rfl, rfl⟩ := step_releasing step
  have own := own (s.release d) ends
  rw [Function.update_self] at own
  exact ⟨_, _, course.release sound ltj held y own⟩

theorem leaving {es' : List Event} (none : after j = [])
    (unended : Unended s₀ template n turns left after j)
    (step : Step h (Conduit.releasing (turns.signal j) (left j)) s es' p' s') : ∃ left' after',
      Course h s₀ template n turns readsOf writesOf (ps.set j p') s' (es ++ es') left' after' := by
  refine course.releasing sound ltj (fun _ _ => .leaving none fun i next whole => ?_) step
  rw [Function.update_of_ne (by omega)] at whole
  exact unended i next whole

omit sound in
theorem source (whole : left j = stageEnds s₀ template n j) :
    supply s₀ j (after (j - 1)) = {} ∨ 0 < j ∧ left (j - 1) = stageEnds s₀ template n (j - 1) := by
  by_cases first : j = 0
  · exact .inl (if_pos first)
  · have inside : j - 1 < ps.length := by rw [course.length]; omega
    have phase := course.phase (j - 1) _ (List.getElem?_eq_getElem inside)
    generalize ps[j - 1] = p at phase
    cases phase with
    | following _ _ _ whole => exact .inr ⟨by omega, whole⟩
    | leaving none => exact .inl (by rw [none]; simp [supply, linkSupply, valuesTo, chunksTo])
    | cut _ _ _ passed =>
      rw [Nat.sub_add_cancel (Nat.pos_of_ne_zero first)] at passed
      exact absurd whole passed

omit sound ltj in
theorem loose_of_passed (inner : j + 1 < n) (whole : left j = stageEnds s₀ template n j)
    (passed : left (j + 1) ≠ stageEnds s₀ template n (j + 1)) {view : View}
    (sent : ∃ ev ∈ turns.events j, (stageContext s₀ template n j).Sends view ev) :
    ∃ i, j ≤ i ∧ i + 1 < n ∧ Loose s₀ template n turns i := by
  have inside : j + 1 < ps.length := by rw [course.length]; omega
  have phase := course.phase (j + 1) _ (List.getElem?_eq_getElem inside)
  generalize ps[j + 1] = p at phase
  cases phase with
  | following _ _ _ whole => exact absurd whole passed
  | leaving none unended =>
    refine ⟨j, Nat.le_refl j, inner, view, sent, fun ev mem isEnd => ?_⟩
    have later := unended j rfl whole view ev mem isEnd
    rw [none] at later
    cases later
  | cut _ _ _ _ loose =>
    obtain ⟨i, le, lt, loose⟩ := loose
    exact ⟨i, by omega, lt, loose⟩

theorem following {es' : List Event} {t : System}
    (solo : Solo h s₀ template n j turns (readsOf j) (writesOf j) t due (after j) p)
    (abreast : Abreast (stageContext s₀ template n j) s t beyond (supply s₀ j (after (j - 1))))
    (alone : n = 1 → beyond = {}) (whole : left j = stageEnds s₀ template n j)
    (unended : Unended s₀ template n turns left after j) (step : Step h p s es' p' s') :
    ∃ left' after', Course h s₀ template n turns readsOf writesOf
      (ps.set j (p'.bind fun a => Conduit.releasing a (stageEnds s₀ template n j))) s' (es ++ es')
      left' after' := by
  have level := level_of_accounts sound course.accounts solo.accounts ltj
    (fun i le _ => if_neg (Nat.not_lt.2 le)) (course.source ltj whole)
  have own (looped : (stageContext s₀ template n j).Looped s) :
      beyond = {} ∧ supply s₀ j (after (j - 1)) = {} := by
    have one : ¬ 1 < n := fun more => not_looped sound course.accounts.kept.toPlumbed ltj more looped
    exact ⟨alone (by omega), if_pos (by omega)⟩
  cases solo.step abreast level own step with
  | silently solo' =>
    exact ⟨left, after, course.silently (.following solo' abreast alone whole unended)⟩
  | @alike due' r x _ t' rest _ act reply first solo' abreast' =>
    refine ⟨left, _, course.follow sound ltj act reply first
      (.following (by rwa [Function.update_self]) ?_ alone whole ?_)⟩
    · rwa [supply_update (by omega)]
    · rintro i rfl before view ev mem isEnd
      have later := unended i rfl before view ev mem isEnd
      rw [first] at later
      rw [Function.update_self]
      rcases List.mem_cons.1 later with rfl | later
      · exact absurd isEnd (not_ends sound course.accounts course.filled ltj before reply)
      · exact later
  | cut cut refusal isCut sent =>
    obtain ⟨inner, passed⟩ := inner_of_cut sound course.accounts solo.accounts whole cut
    have loose := course.loose_of_passed inner whole passed sent
    refine ⟨left, _, course.cutShort refusal inner passed ?_⟩
    have own : Phase h s₀ template n turns readsOf writesOf s left (Function.update after j []) j
        (Conduit.releasing _ (left j)) :=
      .cut isCut (Function.update_self ..) inner passed loose
    rwa [whole] at own

theorem step {es' : List Event} (here : ps[j]? = some p) (step : Step h p s es' p' s') :
    ∃ left' after', Course h s₀ template n turns readsOf writesOf (ps.set j p') s' (es ++ es')
      left' after' := by
  cases course.phase j p here with
  | leaving none unended => exact course.leaving sound ltj none unended step
  | cut isCut none inner passed loose =>
    refine course.releasing sound ltj (fun _ _ => .cut isCut none inner ?_ loose) step
    rwa [Function.update_of_ne (Nat.succ_ne_self j)]
  | following solo abreast alone whole unended =>
    rcases step.of_bind with ⟨a, rfl, closing⟩ | ⟨p', rfl, call⟩
    · obtain ⟨none, rfl⟩ := solo.of_done
      rw [← whole] at closing
      exact course.leaving sound ltj none unended closing
    · exact course.following sound ltj solo abreast alone whole unended call

end Course

end Pipeline

end Conduit
