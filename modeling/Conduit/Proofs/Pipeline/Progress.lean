import Conduit.Proofs.Pipeline.Schedules
import Conduit.Proofs.System.Room

/-!
Pipelines in which every stage reads to its end what the one before it writes never come to a
standstill, however little the conduits between the stages hold.
-/

namespace Conduit

open Proc

/-! ### Requests that have to wait -/

namespace Channel

variable {α : Type} {ch : Channel α} {ticket : Nat}

theorem take?_eq_none (none : ch.take? = none) : ch.queue = [] ∧ ch.writers ≠ 0 := by
  rw [take?] at none
  split at none
  · cases none
  · next queue =>
    split at none
    · cases none
    · next some => exact ⟨queue, some⟩

theorem settled?_eq_none_iff : ch.settled? ticket = none ↔
    (∃ k, ch.capacity = some k ∧ ch.taken + k < ticket) ∧ ch.readers ≠ 0 := by
  rw [settled?, hasRoomFor]
  cases ch.capacity with
  | none => simp
  | some k =>
    by_cases room : ticket ≤ ch.taken + k
    · simp [room, Nat.not_lt.2 room]
    · by_cases none : ch.readers = 0 <;> simp [room, none, Nat.lt_of_not_le room]

theorem queue_ne_nil (waits : ch.settled? ticket = none) (offered : ticket ≤ ch.offered) :
    ch.queue ≠ [] := by
  obtain ⟨⟨k, -, full⟩, -⟩ := settled?_eq_none_iff.1 waits
  intro queue
  rw [Channel.offered, queue, List.length_nil] at offered
  omega

end Channel

namespace System

variable {s : System} {c : ChannelId} {q : ReaderId} {w : WriterId} {ticket : Nat}

theorem waits_of_takeValue? (waits : s.takeValue? c = none) :
    ∃ ch, s.channels[c.index]? = some ch ∧ ch.queue = [] ∧ ch.writers ≠ 0 := by
  rw [takeValue?] at waits
  split at waits
  · cases waits
  · next ch here => exact ⟨ch, here, Channel.take?_eq_none (Option.map_eq_none_iff.1 waits)⟩

theorem waits_of_settleValue? (waits : s.settleValue? c ticket = none) :
    ∃ ch, s.channels[c.index]? = some ch ∧ ch.settled? ticket = none := by
  rw [settleValue?] at waits
  split at waits
  · cases waits
  · next ch here => exact ⟨ch, here, Option.map_eq_none_iff.1 waits⟩

theorem waits_of_settleBytes? (waits : s.settleBytes? w ticket = none) :
    ∃ p ch, s.writingPipe? w = some p ∧ s.pipes[p.index]? = some ch ∧ ch.settled? ticket = none := by
  rw [settleBytes?] at waits
  split at waits
  · next p target =>
    split at waits
    · cases waits
    · next ch here =>
      exact ⟨p, ch, by rw [writingPipe?, target]; rfl, here, Option.map_eq_none_iff.1 waits⟩
  · cases waits

theorem waits_of_fillBuffer? (waits : s.fillBuffer? q = none) : ∃ y p ch,
    s.readers[q.index]? = some y ∧ y.needs? = some p ∧ s.pipes[p.index]? = some ch ∧
      ch.queue = [] ∧ ch.writers ≠ 0 := by
  cases here : s.readers[q.index]? with
  | none => rw [fillBuffer?, here] at waits; cases waits
  | some y =>
    have source? : s.source? q = some y.source := by rw [System.source?, here]; rfl
    obtain ⟨source, size, buffer, holders⟩ := y
    cases buffer with
    | cons => simp [fillBuffer?, here] at waits
    | nil =>
      simp only [fillBuffer?, here, List.isEmpty_nil, Bool.not_true, Bool.false_eq_true, ↓reduceIte,
        readSource?, source?, Option.map_eq_none_iff] at waits
      cases source with
      | fixed rest failure =>
        rcases rest with _ | ⟨b, rest⟩ <;> cases failure <;> cases waits
      | pipe p rest =>
        by_cases none : size = 0
        · simp [none] at waits
        · cases rest with
          | cons => simp [none] at waits
          | nil =>
            cases pipe : s.pipes[p.index]? with
            | none => simp [none, pipe] at waits
            | some ch =>
              simp only [none, pipe, ↓reduceIte, List.isEmpty_nil, Bool.not_true,
                Bool.false_eq_true, Option.map_eq_none_iff] at waits
              exact ⟨_, p, ch, rfl, by simp [ByteReader.needs?, none], pipe,
                Channel.take?_eq_none waits⟩

end System

/-- Nothing that is handed to the output ever has to wait there. -/
structure Context.Unblocked (ctx : Context) (s : System) : Prop where
  channel : ∀ c ch ticket, ctx.output.channel = .writing c → s.channels[c.index]? = some ch →
    ch.settled? ticket ≠ none
  pipe : ∀ w p ch ticket, ctx.output.stream = .writing w → s.writingPipe? w = some p →
    s.pipes[p.index]? = some ch → ch.settled? ticket ≠ none

namespace Pipeline

variable {h : Host} {s₀ s s' t t' : System} {template : Context} {n j k : Nat} {turns : Turns}
  {reads writes : View} {due : Option Request} {p : Proc Signal} {es : List Event}
  {left : Nat → List PortEnd} {after : Nat → List Event} {beyond : Supply} {r : Request}
  {readsOf writesOf : Nat → View} {stages : List Stage}

def Dry (s₀ s : System) (k : Nat) : View → Prop
  | .values => ∃ ch, s.channels[(linkChannel s₀ k).index]? = some ch ∧ ch.queue = []
  | .bytes => ∃ ch, s.pipes[(linkPipe s₀ k).index]? = some ch ∧ ch.queue = []

inductive Waits (s₀ : System) (template : Context) (n : Nat) (turns : Turns) (s : System)
    (left : Nat → List PortEnd) : Nat → View → View → Prop
  | input {k : Nat} {reads writes : View} (dry : Dry s₀ s k reads) (some : left k ≠ []) :
      Waits s₀ template n turns s left (k + 1) reads writes
  | output {k : Nat} {reads writes : View} (inner : k + 1 < n) (full : ¬ Dry s₀ s k writes)
      (sent : ∃ ev ∈ turns.events k, (stageContext s₀ template n k).Sends writes ev) :
      Waits s₀ template n turns s left k reads writes

section Waiting

variable (sound : template.Sound s₀) (lt : k < n) (accS : Accounts s₀ template n s left)
  (solo : Solo h s₀ template n k turns reads writes t due (after k) p)
  (abreast : Abreast (stageContext s₀ template n k) s t beyond (supply s₀ k (after (k - 1))))
include sound lt accS solo abreast

theorem waits_of_take {c : ChannelId} {x : Option Value}
    (input : (stageContext s₀ template n k).input.channel = .reading c)
    (inT : t.takeValue? c = some (x, t')) (waits : s.takeValue? c = none) :
    Waits s₀ template n turns s left k .values writes := by
  obtain ⟨ch, here, queue, writers⟩ := System.waits_of_takeValue? waits
  rcases place_of_take sound input with ⟨rfl, old⟩ | ⟨later, rfl⟩
  · obtain ⟨u, v, hu, hv, fed⟩ := abreast.values c input
    rw [here] at hu
    cases hu
    have all : v.queue ++ beyond.values = [] := by rw [fed.queue, queue]; rfl
    rcases System.takeValue?_cases hv inT with ⟨_, _, some, -⟩ | ⟨-, none, -⟩
    · rw [some] at all
      cases all
    · exact absurd ((accS.channel_old sound old here).2.2
        ((solo.accounts.channel_old sound old hv).2.1 none)) writers
  · obtain ⟨j, rfl⟩ := Nat.exists_eq_add_of_le' later
    rw [Nat.add_sub_cancel] at here
    refine .input ⟨ch, here, queue⟩ fun none => ?_
    have held := (accS.channel_link sound lt here).1
    rw [none] at held
    exact writers held

theorem waits_of_fill {q : ReaderId} {x : Except String Bytes}
    (input : (stageContext s₀ template n k).input.stream = .reading q)
    (inT : t.fillBuffer? q = some (x, t')) (waits : s.fillBuffer? q = none) :
    Waits s₀ template n turns s left k .bytes writes := by
  obtain ⟨y, p, ch, reader, needs, here, queue, writers⟩ := System.waits_of_fillBuffer? waits
  have pipe : s.readingPipe? q = some p := by
    simp [System.readingPipe?, System.source?, reader, System.pipe?_of_needs? needs, Source.pipe?]
  rcases place_of_readingPipe sound accS.kept.toPlumbed lt input pipe with ⟨rfl, old⟩ | ⟨later, rfl⟩
  · obtain ⟨y', z, hy, hz, same⟩ := abreast.reader q input
    rw [reader] at hy
    cases hy
    obtain ⟨u, v, hu, hv, fed⟩ := abreast.bytes q p input pipe
    rw [here] at hu
    cases hu
    have all : v.queue ++ beyond.chunks = [] := by rw [fed.queue, queue]; rfl
    rw [same.needs?] at needs
    cases System.refill_of_fillBuffer? hz inT with
    | atHand none => rw [none] at needs; cases needs
    | took needs' there first =>
      rw [needs'] at needs
      cases needs
      rw [hv] at there
      cases there
      rw [first] at all
      cases all
    | ended needs' none =>
      rw [needs'] at needs
      cases needs
      have sides := sides_old accS solo.accounts old here hv
      simp only [Channel.sides, Prod.mk.injEq] at sides
      exact absurd (sides.2.trans (none v hv).2) writers
  · obtain ⟨j, rfl⟩ := Nat.exists_eq_add_of_le' later
    rw [Nat.add_sub_cancel] at here
    refine .input ⟨ch, here, queue⟩ fun none => ?_
    have held := (accS.pipe_link sound lt here).1
    rw [none] at held
    exact writers held

variable (unblocked : template.Unblocked s)
include unblocked

omit lt accS in
theorem waits_of_settle {c : ChannelId} {ticket : Nat} (owed : due = some (.settle c ticket))
    (output : (stageContext s₀ template n k).output.channel = .writing c)
    (waits : s.settleValue? c ticket = none)
    (sent : ∃ ev ∈ turns.events k, (stageContext s₀ template n k).Sends .values ev) :
    Waits s₀ template n turns s left k reads .values := by
  obtain ⟨ch, here, full⟩ := System.waits_of_settleValue? waits
  rcases place_of_offer sound output with ⟨inner, rfl⟩ | ⟨-, writing, -⟩
  · obtain ⟨u, v, hu, hv, offered⟩ := abreast.output _ output
    rw [here] at hu
    cases hu
    have honoured := solo.honoured
    rw [owed] at honoured
    refine .output inner ?_ sent
    rintro ⟨ch', there, dry⟩
    rw [here] at there
    cases there
    exact Channel.queue_ne_nil full (offered ▸ (honoured v hv).2) dry
  · exact absurd full (unblocked.channel c ch ticket writing here)

omit lt in
theorem waits_of_settleBytes {w : WriterId} {ticket : Nat} (owed : due = some (.settleBytes w ticket))
    (output : (stageContext s₀ template n k).output.stream = .writing w)
    (waits : s.settleBytes? w ticket = none)
    (sent : ∃ ev ∈ turns.events k, (stageContext s₀ template n k).Sends .bytes ev) :
    Waits s₀ template n turns s left k reads .bytes := by
  obtain ⟨p, ch, pipe, here, full⟩ := System.waits_of_settleBytes? waits
  rcases place_of_write sound output with ⟨inner, rfl⟩ | ⟨-, writing, -⟩
  · obtain ⟨u, v, hu, hv, offered⟩ := abreast.sent _ p output pipe
    rw [here] at hu
    cases hu
    have honoured := solo.honoured
    rw [owed] at honoured
    have behind := accS.kept.linkWriters k (by omega)
    rw [pipe] at behind
    cases behind
    refine .output inner ?_ sent
    rintro ⟨ch', there, dry⟩
    rw [here] at there
    cases there
    rw [abreast.writingPipe? output] at pipe
    exact Channel.queue_ne_nil full (offered ▸ (honoured _ v pipe hv).2) dry
  · exact absurd full (unblocked.pipe w p ch ticket writing pipe here)

theorem waits_of_request {next : r.Reply → Proc Signal} (same : p = .request r next)
    (waits : r.perform? s = none) : Waits s₀ template n turns s left k reads writes := by
  subst same
  obtain ⟨act, -, y, t', rest, inT, -⟩ := solo.of_request
  cases act with
  | take input => exact waits_of_take sound lt accS solo abreast input inT waits
  | fill input => exact waits_of_fill sound lt accS solo abreast input inT waits
  | consume | offer | offerBytes | flush => cases waits
  | settle ticket output =>
    exact waits_of_settle sound solo abreast unblocked rfl output (Option.map_eq_none_iff.1 waits)
      (solo.sends rfl)
  | settleBytes ticket output =>
    exact waits_of_settleBytes sound accS solo abreast unblocked rfl output
      (Option.map_eq_none_iff.1 waits) (solo.sends rfl)

end Waiting

theorem view_of_ends {ctx : Context} {view : View} {ev : Event}
    (within : Within (ctx.Uses reads writes) es) (mem : ev ∈ es) (ends : ctx.Ends view ev) :
    view = reads := by
  obtain ⟨due, r, x, rfl, act⟩ := act_of_within (within ev mem)
  cases act <;> cases view <;> first | rfl | cases ends

theorem Phase.moves (phase : Phase h s₀ template n turns readsOf writesOf s left after k p)
    (sound : template.Sound s₀) (lt : k < n) (accounts : Accounts s₀ template n s left)
    (unblocked : template.Unblocked s) (unfinished : p.outcome? = none) :
    (∃ es p' s', Step h p s es p' s') ∨ left k = stageEnds s₀ template n k ∧
      Waits s₀ template n turns s left k (readsOf k) (writesOf k) := by
  have closes {a : Signal} {ends : List PortEnd} (open' : (releasing a ends).outcome? = none) :
      ∃ es p' s', Step h (releasing a ends) s es p' s' := by
    cases ends with
    | nil => cases open'
    | cons d ends =>
      obtain ⟨es, step⟩ := exists_step_releasing (h := h) (s := s) (a := a) d ends
      exact ⟨es, _, _, step⟩
  cases phase with
  | leaving => exact .inl (closes unfinished)
  | cut => exact .inl (closes unfinished)
  | @following t due beyond p solo abreast alone whole =>
    cases p with
    | done a => exact .inl (closes unfinished)
    | loop state body next => exact .inl ⟨_, _, _, .loop⟩
    | request r next =>
      cases reply : r.perform? s with
      | some z => exact .inl ⟨_, _, _, .request reply⟩
      | none =>
        exact .inr ⟨whole, waits_of_request sound lt accounts solo abreast unblocked rfl reply⟩
    | panic => nomatch solo.heeds
    | host => nomatch solo.heeds
    | both => nomatch solo.heeds

namespace Course

variable {ps : List (Proc Signal)}
  (course : Course h s₀ template n turns readsOf writesOf ps s es left after)
  (sound : template.Sound s₀) (unblocked : template.Unblocked s)
  (tight : ∀ k, k + 1 < n → ¬ Loose s₀ template n turns k)
include course sound unblocked tight

omit course sound unblocked in
theorem exists_ends (inner : k + 1 < n) {view : View}
    (sent : ∃ ev ∈ turns.events k, (stageContext s₀ template n k).Sends view ev) :
    ∃ ev ∈ turns.events (k + 1), (stageContext s₀ template n (k + 1)).Ends view ev := by
  by_contra none
  exact tight k inner ⟨view, sent, fun ev mem ends => none ⟨ev, mem, ends⟩⟩

omit sound unblocked tight in
theorem unfinished (here : ps[k]? = some p) (more : left k ≠ [] ∨ after k ≠ []) :
    p.outcome? = none := by
  by_contra some
  obtain ⟨o, outcome⟩ := Option.ne_none_iff_exists'.1 some
  obtain ⟨gaveUp, none, -⟩ := (course.phase k p here).ended outcome
  exact more.elim (absurd gaveUp) (absurd none)

omit sound unblocked tight in
theorem exists_process (lt : k < n) : ∃ p, ps[k]? = some p :=
  ⟨_, List.getElem?_eq_getElem (course.length ▸ lt)⟩

theorem able_of_input (within : ∀ k < n, Within
      ((stageContext s₀ template n k).Uses (readsOf k) (writesOf k)) (turns.events k))
    (inner : k + 1 < n) (dry : Dry s₀ s k (readsOf (k + 1))) (some : left k ≠ []) :
    ∃ p ∈ ps, ∃ es p' s', Step h p s es p' s' := by
  induction k using Nat.strongRecOn with
  | ind k earlier =>
    have lt : k < n := by omega
    obtain ⟨p, here⟩ := course.exists_process lt
    have unfinished := course.unfinished here (.inl some)
    rcases (course.phase k p here).moves sound lt course.accounts unblocked unfinished with
      able | ⟨-, waits⟩
    · exact ⟨p, List.mem_of_getElem? here, able⟩
    · generalize reads : readsOf k = reads, writes : writesOf k = writes at waits
      cases waits with
      | @input j _ _ dry' some' =>
        exact earlier j j.lt_succ_self lt (reads ▸ dry') some'
      | output _ full sent =>
        -- It waits for what the next stage has read.
        obtain ⟨ev, mem, ends⟩ := exists_ends tight inner sent
        rw [view_of_ends (within (k + 1) inner) mem ends] at full
        exact absurd dry full

theorem able (within : ∀ k < n, Within
      ((stageContext s₀ template n k).Uses (readsOf k) (writesOf k)) (turns.events k))
    (here : ps[k]? = some p) (unfinished : p.outcome? = none) :
    ∃ p ∈ ps, ∃ es p' s', Step h p s es p' s' := by
  have lt := course.lt here
  induction rest : n - k using Nat.strongRecOn generalizing k p with
  | ind rest later =>
    rcases (course.phase k p here).moves sound lt course.accounts unblocked unfinished with
      able | ⟨whole, waits⟩
    · exact ⟨p, List.mem_of_getElem? here, able⟩
    · generalize reads : readsOf k = reads, writes : writesOf k = writes at waits
      cases waits with
      | input dry some =>
        exact course.able_of_input sound unblocked tight within lt (reads ▸ dry) some
      | output inner full sent =>
        obtain ⟨ev, mem, ends⟩ := exists_ends tight inner sent
        obtain ⟨next, there⟩ := course.exists_process inner
        have unended : Unended s₀ template n turns left after (k + 1) := by
          cases course.phase (k + 1) next there with
          | following _ _ _ _ unended => exact unended
          | leaving _ unended => exact unended
          | cut _ _ _ _ loose =>
            obtain ⟨j, -, lt, loose⟩ := loose
            exact absurd loose (tight j lt)
        have some : after (k + 1) ≠ [] :=
          List.ne_nil_of_mem (unended k rfl whole _ ev mem ends)
        exact later (n - (k + 1)) (by omega) there (course.unfinished there (.inr some)) inner rfl

end Course

/-! ### Matched pipelines -/

/-- Whatever view of a link a stage writes to, the next stage reads that view to its end. -/
def Matched (s : System) (template : Context) (ordered : List (List Event × Signal)) : Prop :=
  ∀ k events events' a a', ordered[k]? = some (events, a) → ordered[k + 1]? = some (events', a') →
    ∀ view, (∃ ev ∈ events, (stageContext s template ordered.length k).Sends view ev) →
      ∃ ev ∈ events', (stageContext s template ordered.length (k + 1)).Ends view ev

theorem not_ends_releasing {α : Type} {a : α} {o : Outcome α} {ends : List PortEnd} {ctx : Context}
    {view : View} (run : Runs h (releasing a ends) t es o t') : ∀ ev ∈ es, ¬ ctx.Ends view ev := by
  induction ends generalizing t es with
  | nil =>
    obtain ⟨rfl, -⟩ := runs_done.1 run
    exact nofun
  | cons d ends ih =>
    obtain ⟨y, t₁, es, -, rfl, rest⟩ := runs_request.1 run
    refine List.forall_mem_cons.2 ⟨?_, ih rest⟩
    cases d <;> cases view <;> exact id

theorem not_loose {ordered : List (List Event × Signal)}
    (inOrder : InOrder h template stages s₀ ordered turns) (matched : Matched s₀ template ordered)
    (inner : k + 1 < stages.length) : ¬ Loose s₀ template stages.length turns k := by
  rintro ⟨view, ⟨ev, mem, sends⟩, none⟩
  obtain ⟨-, closing, here, close⟩ := inOrder.each k _ (List.getElem?_eq_getElem (by omega))
  obtain ⟨-, closing', there, close'⟩ := inOrder.each (k + 1) _ (List.getElem?_eq_getElem inner)
  have ended := matched k _ _ _ _ here there view
  rw [inOrder.length] at ended
  obtain ⟨ev', mem', ends⟩ := ended ⟨ev, List.mem_append_left _ mem, sends⟩
  rcases List.mem_append.1 mem' with mem' | mem'
  · exact none ev' mem' ends
  · exact not_ends_releasing close' ev' mem' ends

theorem blocked_before {α : Type} {ch ch' : Channel α} {ticket : Nat}
    (room : ch'.capacity = ch.capacity) (readers : ch.readers = 0 → ch'.readers = 0)
    (full : ch'.settled? ticket = none) : ∃ ticket', ch.settled? ticket' = none := by
  obtain ⟨⟨k, capacity, -⟩, some⟩ := Channel.settled?_eq_none_iff.1 full
  exact ⟨ch.taken + k + 1, Channel.settled?_eq_none_iff.2
    ⟨⟨k, room ▸ capacity, Nat.lt_succ_self _⟩, mt readers some⟩⟩

theorem unblocked_of_accounts (sound : template.Sound s₀) (unblocked : template.Unblocked s₀)
    (accounts : Accounts s₀ template n s left) (room : s₀.SameRoom s) : template.Unblocked s where
  channel c ch' ticket writing here full := by
    have held := held_of_output sound (e := .channel (.writing c)) rfl (by simp [Port.ends, writing])
    have old : c.index < s₀.channels.size := index_lt_of_holders held
    have before := Array.getElem?_eq_getElem old
    obtain ⟨_, there, same⟩ := room.channels _ _ before
    rw [here] at there
    cases there
    have readers := (accounts.channel_old sound old here).1
    rw [(holders_of_channel before).1] at readers
    obtain ⟨ticket', full'⟩ := blocked_before same readers.2 full
    exact unblocked.channel c _ ticket' writing before full'
  pipe w p ch' ticket writing pipe here full := by
    have held := held_of_output sound (e := .stream (.writing w)) rfl (by simp [Port.ends, writing])
    have pipe₀ := accounts.kept.oldWriters w (index_lt_of_holders held)
    rw [pipe] at pipe₀
    have old : p.index < s₀.pipes.size := by
      obtain ⟨k, target, same⟩ := Option.bind_eq_some_iff.1 pipe₀.symm
      cases k with
      | sink => cases same
      | pipe => cases same; exact sound.writer w p writing target
    have before := Array.getElem?_eq_getElem old
    obtain ⟨_, there, same⟩ := room.pipes _ _ before
    rw [here] at there
    cases there
    have sides := accounts.kept.oldPipes p.index old
    rw [here, before] at sides
    simp only [Option.map_some, Channel.sides, Option.some.injEq, Prod.mk.injEq] at sides
    obtain ⟨ticket', full'⟩ := blocked_before same (fun none => sides.1.trans none) full
    exact unblocked.pipe w p _ ticket' writing pipe₀.symm before full'

theorem neverBlocks_concurrently {ordered : List (List Event × Signal)}
    (inOrder : InOrder h template stages s₀ ordered turns) (sound : template.Sound s₀)
    (viewed : Viewed stages readsOf writesOf) (ready : SetUp s₀ template stages s)
    (unblocked : template.Unblocked s₀) (room : s₀.SameRoom s)
    (matched : Matched s₀ template ordered) :
    NeverBlocks h (concurrently (stageProcs s₀ template stages)) s := by
  have within (k : Nat) (lt : k < stages.length) : Within
      ((stageContext s₀ template stages.length k).Uses (readsOf k) (writesOf k)) (turns.events k) := by
    obtain ⟨call, -⟩ := inOrder.each k _ (List.getElem?_eq_getElem lt)
    rw [Nat.zero_add] at call
    exact (viewed k _ (List.getElem?_eq_getElem lt) _ _).runs call
  intro es q s' steps unfinished
  obtain ⟨ps, beside, left, after, course⟩ := exists_course inOrder sound viewed ready steps
  have unblocked' := unblocked_of_accounts sound unblocked course.accounts
    (room.trans steps.after.sameRoom)
  refine beside.able unfinished fun p mem waits => ?_
  obtain ⟨k, here⟩ := List.getElem?_of_mem mem
  exact course.able sound unblocked' (fun k inner => not_loose inOrder matched inner) within here waits

/-- However little the conduits between the stages hold and in whichever order they take their
steps, until all of them have ended there is one that can go on; and then each has answered as it
does when one follows the other. -/
theorem matched_never_blocks (plain : ∀ stage ∈ stages,
      stage.builtin ∈ Builtin.standard ∧ stage.builtin.name ∈ Builtin.plainNames)
    (sound : template.Sound s) (unblocked : template.Unblocked s) {capacities ample : Capacities}
    {ordered : List (List Event × Signal)}
    (inTurn : RunsInTurn h template ample stages s ordered t)
    (matched : Matched s template ordered) :
    NeverBlocks h (run template capacities stages) s ∧
      ∀ es o s', Runs h (run template capacities stages) s es o s' →
        o = .returned (ordered.map Prod.snd) := by
  obtain ⟨readsOf, writesOf, viewed⟩ := exists_viewed plain
  obtain ⟨turns, inOrder⟩ := inTurn.inOrder sound viewed
  constructor
  · rw [run_eq]
    refine (neverBlocks_of_terminates (meets_setup sound _).1).bind fun es ctxs s₁ made => ?_
    obtain ⟨same, ready, -⟩ := setUp_of_runs sound made
    cases same
    refine (neverBlocks_concurrently inOrder sound viewed ready unblocked made.after.sameRoom
      matched).bind fun _ _ _ _ => neverBlocks_of_terminates (terminates_done _)
  · intro es o s' runs
    obtain ⟨outcomes, rfl, settled⟩ := settled_of_runs inOrder sound viewed runs
    refine congrArg Outcome.returned (List.ext_getElem? fun k => ?_)
    by_cases lt : k < stages.length
    · obtain ⟨-, closing, taken, -⟩ := inOrder.each k _ (List.getElem?_eq_getElem lt)
      have here := List.getElem?_eq_getElem (settled.length ▸ lt : k < outcomes.length)
      obtain ⟨a, same, signal⟩ := settled.each k _ here
      rw [List.getElem?_map, List.getElem?_map, here, taken, same]
      rcases signal with rfl | ⟨-, -, j, -, inner, loose⟩
      · rfl
      · exact absurd loose (not_loose inOrder matched inner)
    · rw [List.getElem?_eq_none (by rw [List.length_map, settled.length]; omega),
        List.getElem?_eq_none (by rw [List.length_map, inOrder.length]; omega)]

end Pipeline

namespace Pipeline.PutIntoLines

theorem unblocked : template.Unblocked system where
  channel c ch ticket writing := nomatch writing
  pipe w p ch ticket writing := by cases writing; exact nofun

theorem matched : Matched system template turns := by
  intro k events events' a a' here there view
  obtain rfl : k = 0 := by
    have := (List.getElem?_eq_some_iff.1 there).1
    simp only [turns, List.length_cons, List.length_nil] at this
    omega
  cases here
  cases there
  cases view with
  | values => exact fun _ => ⟨_, List.mem_of_getElem? (i := 8) rfl, rfl⟩
  | bytes =>
    rintro ⟨ev, mem, sends⟩
    have putOnly : trace .none 40 (stage 0) begun =
        [.asked (.offer (linkChannel system 0) (.string "a")) (.ok 1),
          .asked (.settle (linkChannel system 0) 1) (.ok ()),
          .asked (.offer (linkChannel system 0) (.string "b")) (.ok 2),
          .asked (.settle (linkChannel system 0) 2) (.ok ())] ++
        releaseEvents (stageContext system template 2 0).ports := by rfl
    rw [putOnly] at mem
    simp only [releaseEvents, List.mem_append, List.mem_cons, List.not_mem_nil, or_false,
      List.mem_flatMap] at mem
    rcases mem with (rfl | rfl | rfl | rfl) | ⟨p, -, rfl | rfl⟩ <;> exact False.elim sends

theorem lines_never_block :
    (∀ stage ∈ stages,
      stage.builtin ∈ Builtin.standard ∧ stage.builtin.name ∈ Builtin.plainNames) ∧
      template.Sound system ∧ template.Unblocked system ∧ Matched system template turns ∧
      (∃ t, RunsInTurn .none template {} stages system turns t) ∧
      NeverBlocks .none (run template ⟨0, 0⟩ stages) system ∧
      ∀ es o s', Runs .none (run template ⟨0, 0⟩ stages) system es o s' →
        o = .returned [.ok, .ok] := by
  obtain ⟨t, inTurn⟩ := exists_runsInTurn
  obtain ⟨never, signals⟩ := matched_never_blocks plain sound unblocked inTurn matched
  exact ⟨plain, sound, unblocked, matched, ⟨t, inTurn⟩, never, signals⟩

end Pipeline.PutIntoLines

end Conduit
