import Conduit.Proofs.Builtin.Views
import Conduit.Proofs.Pipeline.Holding

/-!
Setting up a pipeline: the contexts of its stages, the accounts when the stages begin, and the
contents of all conduits, which no capacity has any part in.
-/

namespace Conduit

open Proc

def Channel.contents {α : Type} (ch : Channel α) : List α × Nat := (ch.queue, ch.taken)

def ByteReader.data (x : ByteReader) : Source × Nat × Bytes := (x.source, x.bufferSize, x.buffer)

structure Grown {α β : Type} (g : α → β) (fresh : Nat → β) (old new : Array α) (made : Nat) :
    Prop where
  size : new.size = old.size + made
  before : ∀ i < old.size, (new[i]?).map g = (old[i]?).map g
  added : ∀ k < made, (new[old.size + k]?).map g = some (fresh k)

section Grown

variable {α β : Type} {g : α → β} {fresh : Nat → β} {old new new' : Array α} {made : Nat}

theorem grown_refl (g : α → β) (fresh : Nat → β) (old : Array α) : Grown g fresh old old 0 :=
  ⟨rfl, fun _ _ => rfl, fun _ lt => absurd lt (Nat.not_lt_zero _)⟩

theorem Grown.modify (grown : Grown g fresh old new made) (i : Nat) {f : α → α}
    (hf : ∀ x, g (f x) = g x) : Grown g fresh old (new.modify i f) made where
  size := Array.size_modify.trans grown.size
  before j lt := (System.map_getElem?_modify new i j f g hf).trans (grown.before j lt)
  added k lt := (System.map_getElem?_modify new i _ f g hf).trans (grown.added k lt)

theorem Grown.push (grown : Grown g fresh old new made) {x : α} (isFresh : g x = fresh made) :
    Grown g fresh old (new.push x) (made + 1) := by
  have size := grown.size
  refine ⟨by rw [Array.size_push]; omega, fun i lt => ?_, fun k lt => ?_⟩
  · rw [Array.getElem?_push, if_neg (by omega)]
    exact grown.before i lt
  · rw [Array.getElem?_push]
    split
    · next last =>
      obtain rfl : k = made := by omega
      rw [Option.map_some, isFresh]
    · exact grown.added k (by omega)

theorem Grown.alike (grown : Grown g fresh old new made) (grown' : Grown g fresh old new' made)
    (i : Nat) : (new[i]?).map g = (new'[i]?).map g := by
  by_cases older : i < old.size
  · rw [grown.before i older, grown'.before i older]
  · obtain ⟨k, rfl⟩ := Nat.exists_eq_add_of_le (Nat.le_of_not_lt older)
    by_cases lt : k < made
    · rw [grown.added k lt, grown'.added k lt]
    · have size := grown.size
      have size' := grown'.size
      rw [Array.getElem?_eq_none (by omega), Array.getElem?_eq_none (by omega)]

end Grown

namespace Pipeline

variable {h : Host} {s₀ s s' : System} {scopes made : Nat} {held held' : PortEnd → Nat}
  {d e : PortEnd} {k : Nat} {capacities : Capacities} {template ctx : Context} {p : Port}

structure Laid (s₀ s : System) (made : Nat) : Prop where
  channels : Grown Channel.contents (fun _ => ([], 0)) s₀.channels s.channels made
  pipes : Grown Channel.contents (fun _ => ([], 0)) s₀.pipes s.pipes made
  readers : Grown ByteReader.data (fun k => (.pipe (linkPipe s₀ k) [], ByteReader.standardBuffer, []))
    s₀.readers s.readers made
  writers : Grown ByteWriter.target (fun k => .pipe (linkPipe s₀ k)) s₀.writers s.writers made

theorem laid_refl (s : System) : Laid s s 0 :=
  ⟨grown_refl .., grown_refl .., grown_refl .., grown_refl ..⟩

theorem Laid.sized (laid : Laid s₀ s made) : Sized s₀ s made :=
  ⟨laid.channels.size, laid.pipes.size, laid.readers.size, laid.writers.size⟩

theorem Laid.recount (laid : Laid s₀ s made) (u : Nat → Nat) (d : PortEnd) :
    Laid s₀ (s.recount u d) made := by
  match d with
  | .channel .closed | .stream .closed => exact laid
  | .channel (.reading c) =>
    have channels := laid.channels.modify c.index
      (f := fun ch => { ch with readers := u ch.readers }) fun _ => rfl
    exact { laid with channels }
  | .channel (.writing c) =>
    have channels := laid.channels.modify c.index
      (f := fun ch => { ch with writers := u ch.writers }) fun _ => rfl
    exact { laid with channels }
  | .stream (.reading r) =>
    have readers := laid.readers.modify r.index
      (f := fun x => { x with holders := u x.holders }) fun _ => rfl
    exact { laid with readers }
  | .stream (.writing w) =>
    have writers := laid.writers.modify w.index
      (f := fun x => { x with holders := u x.holders }) fun _ => rfl
    exact { laid with writers }

theorem Laid.release (laid : Laid s₀ s made) (d : PortEnd) : Laid s₀ (s.release d) made := by
  by_cases more : s.holders d = 1 → s.behind? d = none
  · rw [System.release_of_more more]
    exact laid.recount _ d
  · obtain ⟨last, behind⟩ := Classical.not_imp.1 more
    obtain ⟨q, behind⟩ := Option.ne_none_iff_exists'.1 behind
    rw [System.release_of_last last behind]
    have laid := laid.recount (· - 1) d
    refine { laid with pipes := laid.pipes.modify q.index fun ch => ?_ }
    rcases d with (_ | _ | _) | (_ | _ | _) <;> rfl

theorem Laid.addLink (laid : Laid s₀ s made) : Laid s₀ (s.addLink capacities) (made + 1) where
  channels := laid.channels.push rfl
  pipes := laid.pipes.push rfl
  readers := laid.readers.push (by rw [laid.pipes.size]; rfl)
  writers := laid.writers.push (by rw [laid.pipes.size]; rfl)

structure Ready (s₀ s : System) (scopes made : Nat) (held : PortEnd → Nat) : Prop where
  kept : Kept s₀ s made held
  laid : Laid s₀ s made
  scopes : s.scopes.size = s₀.scopes.size + scopes

theorem Ready.congr (ready : Ready s₀ s scopes made held) (same : ∀ e, e.isOpen → held' e = held e) :
    Ready s₀ s scopes made held' :=
  { ready with kept := { ready.kept with
      holders := fun e isOpen => (ready.kept.holders e isOpen).trans (by rw [same e isOpen]) } }

theorem ready_refl (s : System) : Ready s s 0 0 fun _ => 0 where
  kept := { oldReaders := fun _ _ => rfl, oldWriters := fun _ _ => rfl, oldPipes := fun _ _ => rfl,
            linkReaders := fun _ lt => absurd lt (Nat.not_lt_zero _),
            linkWriters := fun _ lt => absurd lt (Nat.not_lt_zero _),
            linkPipes := fun _ lt => absurd lt (Nat.not_lt_zero _), holders := fun _ _ => rfl }
  laid := laid_refl s
  scopes := rfl

theorem scopes_recount {u : Nat → Nat} : (s.recount u d).scopes = s.scopes := by
  rcases d with (_ | _ | _) | (_ | _ | _) <;> rfl

theorem Ready.hold (held' : PortEnd → Nat) (ready : Ready s₀ s scopes made held)
    (account : ∀ e, e.isOpen → held' e = held e + if e = d then 1 else 0)
    (present : d.isOpen → 0 < s₀.holders d) :
    Ready s₀ (s.recount oneMore d) scopes made held' where
  kept := ready.kept.hold account present
  laid := ready.laid.recount _ d
  scopes := by rw [scopes_recount, ready.scopes]

theorem Ready.release (held' : PortEnd → Nat) (ready : Ready s₀ s scopes made held)
    (account : ∀ e, e.isOpen → held e = held' e + if e = d then 1 else 0)
    (present : d.isOpen → 0 < s₀.holders d) : Ready s₀ (s.release d) scopes made held' where
  kept := ready.kept.release account fun isOpen none => by
    have := present isOpen
    omega
  laid := ready.laid.release d
  scopes := by
    rw [← ready.scopes]
    cases d with
    | channel d => rw [System.release, releaseChannel_eq, scopes_recount]
    | stream d => rw [System.release, (System.releaseStream_same s d).2]

/-! ### Ports -/

section Ports

variable (held' : PortEnd → Nat) (present : ∀ e ∈ p.ends, e.isOpen → 0 < s₀.holders e)
include present

theorem meets_hold (ready : Ready s₀ s scopes made held)
    (account : ∀ e, e.isOpen → held' e = held e + p.holds e) :
    Meets h p.hold s fun _ s' => Ready s₀ s' scopes made held' := by
  let between (e : PortEnd) : Nat := held e + if e = .channel p.channel then 1 else 0
  have first := ready.hold between (fun _ _ => rfl) (present (.channel p.channel) (by
    simp [Port.ends]))
  have both := first.hold held' (d := .stream p.stream) (fun e isOpen => by
    rw [account e isOpen, Port.holds, Nat.add_assoc]) (present _ (by simp [Port.ends]))
  rw [← holdChannel_eq, ← holdStream_eq] at both
  have channel : Meets h p.channel.hold s fun _ s' => s' = s.holdChannel p.channel :=
    meets_ask rfl rfl
  exact channel.bind fun _ s' same => by subst same; exact meets_ask rfl both

theorem meets_release (ready : Ready s₀ s scopes made held)
    (account : ∀ e, e.isOpen → held e = held' e + p.holds e) :
    Meets h p.release s fun _ s' => Ready s₀ s' scopes made held' := by
  let between (e : PortEnd) : Nat := held' e + if e = .stream p.stream then 1 else 0
  have first := ready.release between (d := .channel p.channel) (fun e isOpen => by
    simp only [account e isOpen, Port.holds, between]; omega) (present _ (by simp [Port.ends]))
  have both := first.release held' (d := .stream p.stream) (fun e isOpen => rfl)
    (present _ (by simp [Port.ends]))
  have channel : Meets h p.channel.release s fun _ s' => s' = s.releaseChannel p.channel :=
    meets_ask rfl rfl
  exact channel.bind fun _ s' same => by subst same; exact meets_ask rfl both

end Ports

theorem meets_holdAll {ports : List Port}
    (present : ∀ e ∈ endsOf ports, e.isOpen → 0 < s₀.holders e)
    (ready : Ready s₀ s scopes made held)
    (account : ∀ e, e.isOpen → held' e = held e + holdsOf e ports) :
    Meets h (ports.forM Port.hold) s fun _ s' => Ready s₀ s' scopes made held' := by
  induction ports generalizing s held with
  | nil =>
    refine meets_done (ready.congr fun e isOpen => ?_)
    rw [account e isOpen]
    rfl
  | cons p ports ih =>
    have first : ∀ e ∈ p.ends, e.isOpen → 0 < s₀.holders e :=
      fun e mem => present e (List.mem_append_left _ mem)
    refine (meets_hold (fun e => held e + p.holds e) first ready fun _ _ => rfl).bind
      fun _ s' ready' => ?_
    refine ih (fun e mem => present e (List.mem_append_right _ mem)) ready' fun e isOpen => ?_
    rw [account e isOpen, holdsOf, Nat.add_assoc]

theorem meets_setPort (held' : PortEnd → Nat) (ctx : Context) {i : Nat}
    (present : ∀ e ∈ (ctx.port i).ends, e.isOpen → 0 < s₀.holders e)
    (ready : Ready s₀ s scopes made held)
    (account : ∀ e, e.isOpen → held e = held' e + (ctx.port i).holds e) :
    Meets h (ctx.setPort i p) s fun ctx' s' =>
      ctx' = ctx.putPort i p ∧ Ready s₀ s' scopes made held' :=
  (meets_release held' present ready account).bind fun _ _ ready' => meets_done ⟨rfl, ready'⟩

/-! ### Stages -/

theorem meets_fork (sound : template.Sound s₀) (ready : Ready s₀ s k made held)
    (account : ∀ e, e.isOpen → held' e = held e + holdsOf e template.ports) :
    Meets h (template.fork (stageName template k)) s fun ctx s' =>
      ctx = stageFork s₀ template k ∧ Ready s₀ s' (k + 1) made held' := by
  refine (meets_holdAll sound.held ready account).bind fun _ s' ready' => ?_
  have scope : Meets h (ask (.newScope template.scope)) s' fun scope s₂ =>
      scope = ⟨s₀.scopes.size + k⟩ ∧ Ready s₀ s₂ (k + 1) made held' := by
    refine meets_ask rfl ⟨congrArg ScopeId.mk ready'.scopes, ⟨{ ready'.kept with },
      { ready'.laid with }, ?_⟩⟩
    have size := ready'.scopes
    simp only [ScopeTable.size, Array.size_push] at size ⊢
    omega
  refine scope.bind fun scope s₂ opened => ?_
  obtain ⟨rfl, ready₂⟩ := opened
  exact meets_done ⟨rfl, ready₂⟩

theorem holdsOf_flatMap_cons (ctx : Context) (ctxs : List Context) :
    holdsOf e ((ctx :: ctxs).flatMap (·.ports)) =
      holdsOf e ctx.ports + holdsOf e (ctxs.flatMap (·.ports)) := by
  rw [List.flatMap_cons, holdsOf_append]

def stageForks (s : System) (template : Context) (k count : Nat) : List Context :=
  (List.range' k count).map (stageFork s template)

def stageContexts (s : System) (template : Context) (all k count : Nat) : List Context :=
  (List.range' k count).map (stageContext s template all)

theorem stageForks_succ (s : System) (template : Context) (k count : Nat) :
    stageForks s template k (count + 1) =
      stageFork s template k :: stageForks s template (k + 1) count := rfl

theorem stageContexts_succ (s : System) (template : Context) (all k count : Nat) :
    stageContexts s template all k (count + 1) =
      stageContext s template all k :: stageContexts s template all (k + 1) count := rfl

theorem meets_forks (sound : template.Sound s₀) {count : Nat} (ready : Ready s₀ s k made held)
    (account : ∀ e, e.isOpen →
      held' e = held e + holdsOf e ((stageForks s₀ template k count).flatMap (·.ports))) :
    Meets h (forks template k count) s fun ctxs s' =>
      ctxs = stageForks s₀ template k count ∧ Ready s₀ s' (k + count) made held' := by
  induction count generalizing s k held with
  | zero =>
    refine meets_done ⟨rfl, ready.congr fun e isOpen => ?_⟩
    rw [account e isOpen]
    rfl
  | succ count ih =>
    refine (meets_fork sound ready fun _ _ => rfl).bind fun ctx s₁ first => ?_
    obtain ⟨rfl, ready₁⟩ := first
    refine (ih ready₁ fun e isOpen => ?_).bind fun ctxs s₂ others => ?_
    · rw [account e isOpen, stageForks_succ, holdsOf_flatMap_cons, Nat.add_assoc]
      rfl
    · obtain ⟨rfl, ready₂⟩ := others
      refine meets_done ⟨rfl, ?_⟩
      rwa [Nat.add_right_comm] at ready₂

/-! ### Links -/

theorem meets_conduit (ready : Ready s₀ s scopes k held)
    (account : ∀ e, e.isOpen →
      held' e = held e + (writingPort s₀ k).holds e + (readingPort s₀ k).holds e) :
    Meets h (Port.conduit capacities.channel capacities.pipe) s fun ports s' =>
      ports = (writingPort s₀ k, readingPort s₀ k) ∧ Ready s₀ s' scopes (k + 1) held' := by
  have sized := ready.laid.sized
  have added : Ready s₀ (s.addLink capacities) scopes (k + 1) held' :=
    ⟨ready.kept.addLink sized account, ready.laid.addLink, ready.scopes⟩
  have channel : (⟨s.channels.size⟩ : ChannelId) = linkChannel s₀ k :=
    congrArg ChannelId.mk sized.channels
  have writer : (⟨s.writers.size⟩ : WriterId) = linkWriter s₀ k :=
    congrArg WriterId.mk sized.writers
  have reader : (⟨s.readers.size⟩ : ReaderId) = linkReader s₀ k :=
    congrArg ReaderId.mk sized.readers
  let ch : Channel Value := { capacity := some capacities.channel }
  have first : Meets h (ask (.newChannel ch)) s fun c s' =>
      c = linkChannel s₀ k ∧ s' = (s.addChannel ch).2 := meets_ask rfl ⟨channel, rfl⟩
  refine first.bind fun c s' made => ?_
  obtain ⟨rfl, rfl⟩ := made
  have second : Meets h (ask (.newPipe capacities.pipe ByteReader.standardBuffer))
      (s.addChannel ch).2 fun ends s' => ends = (linkWriter s₀ k, linkReader s₀ k) ∧
        Ready s₀ s' scopes (k + 1) held' := meets_ask rfl ⟨Prod.ext writer reader, added⟩
  refine second.bind fun ends s' made => ?_
  obtain ⟨rfl, ready'⟩ := made
  exact meets_done ⟨rfl, ready'⟩

def joined (capacities : Capacities) (ctx next : Context) : Proc (Context × Context) := do
  let (writer, reader) ← Port.conduit capacities.channel capacities.pipe
  let ctx ← ctx.setPort 1 writer
  let next ← next.setPort 0 reader
  pure (ctx, next)

theorem connect_cons (ctx next : Context) (rest : List Context) :
    connect capacities ctx (next :: rest) = (joined capacities ctx next).bind fun both =>
      (connect capacities both.2 rest).bind fun rest => .done (both.1 :: rest) := by
  rw [joined, connect]
  simp only [bind, pure, bind_assoc]
  rfl

theorem meets_joined (left : PortEnd → Nat) {ctx next : Context} (ready : Ready s₀ s scopes k held)
    (present : ∀ e ∈ (ctx.port 1).ends, e.isOpen → 0 < s₀.holders e)
    (present' : ∀ e ∈ (next.port 0).ends, e.isOpen → 0 < s₀.holders e)
    (account : ∀ e, e.isOpen → held e = left e + holdsOf e ctx.ports + holdsOf e next.ports)
    (account' : ∀ e, e.isOpen → held' e = left e +
      holdsOf e (ctx.putPort 1 (writingPort s₀ k)).ports +
        holdsOf e (next.putPort 0 (readingPort s₀ k)).ports) :
    Meets h (joined capacities ctx next) s fun both s' =>
      both = (ctx.putPort 1 (writingPort s₀ k), next.putPort 0 (readingPort s₀ k)) ∧
        Ready s₀ s' scopes (k + 1) held' := by
  let between (e : PortEnd) : Nat := left e + holdsOf e (ctx.putPort 1 (writingPort s₀ k)).ports +
    holdsOf e next.ports + (readingPort s₀ k).holds e
  refine (meets_conduit ready fun _ _ => rfl).bind fun ports s₁ made => ?_
  obtain ⟨rfl, ready₁⟩ := made
  refine (meets_setPort between ctx present ready₁ fun e isOpen => ?_).bind fun ctx' s₂ put => ?_
  · have output := Context.holdsOf_putPort isOpen ctx 1 (writingPort s₀ k)
    simp only [account e isOpen, between]
    omega
  obtain ⟨rfl, ready₂⟩ := put
  refine (meets_setPort held' next present' ready₂ fun e isOpen => ?_).bind fun next' s₃ put => ?_
  · have input := Context.holdsOf_putPort isOpen next 0 (readingPort s₀ k)
    simp only [account' e isOpen, between]
    omega
  obtain ⟨rfl, ready₃⟩ := put
  exact meets_done ⟨rfl, ready₃⟩

theorem meets_connect (capacities : Capacities) (sound : template.Sound s₀)
    (others held' : PortEnd → Nat) (count : Nat) (ready : Ready s₀ s scopes k held)
    (account : ∀ e, e.isOpen → held e = others e + holdsOf e (stageEntry s₀ template k).ports +
      holdsOf e ((stageForks s₀ template (k + 1) count).flatMap (·.ports)))
    (account' : ∀ e, e.isOpen → held' e = others e +
      holdsOf e ((stageContexts s₀ template (k + count + 1) k (count + 1)).flatMap (·.ports))) :
    Meets h (connect capacities (stageEntry s₀ template k) (stageForks s₀ template (k + 1) count)) s
      fun ctxs s' => ctxs = stageContexts s₀ template (k + count + 1) k (count + 1) ∧
        Ready s₀ s' scopes (k + count) held' := by
  induction count generalizing s k held others with
  | zero =>
    have last : stageContexts s₀ template (k + 1) k 1 = [stageEntry s₀ template k] := by
      simp [stageContexts, stageContext]
    refine meets_done ⟨last.symm, ready.congr fun e isOpen => ?_⟩
    rw [account e isOpen, account' e isOpen, Nat.add_zero, last]
    simp [stageForks, holdsOf]
  | succ count ih =>
    have first : (stageEntry s₀ template k).putPort 1 (writingPort s₀ k) =
        stageContext s₀ template (k + (count + 1) + 1) k := by
      rw [stageContext, if_pos (by omega)]
    have next : (stageFork s₀ template (k + 1)).putPort 0 (readingPort s₀ k) =
        stageEntry s₀ template (k + 1) := by
      rw [stageEntry, if_pos k.succ_pos, Nat.add_sub_cancel]
    let left (e : PortEnd) : Nat := others e +
      holdsOf e ((stageForks s₀ template (k + 1 + 1) count).flatMap (·.ports))
    let done (e : PortEnd) : Nat := others e + holdsOf e (stageContext s₀ template
      (k + (count + 1) + 1) k).ports
    have present (i : Nat) : ∀ e ∈ (template.port i).ends, e.isOpen → 0 < s₀.holders e :=
      fun e mem isOpen => sound.held e (Context.mem_endsOf_port isOpen mem) isOpen
    have output : ∀ e ∈ ((stageEntry s₀ template k).port 1).ends, e.isOpen → 0 < s₀.holders e := by
      rw [port_one_stageEntry]
      exact present 1
    have input : ∀ e ∈ ((stageFork s₀ template (k + 1)).port 0).ends, e.isOpen →
        0 < s₀.holders e := present 0
    rw [stageForks_succ, connect_cons]
    refine (meets_joined left ready output input (fun e isOpen => ?_) fun _ _ => rfl).bind
      fun both s₁ linked => ?_
    · simp only [account e isOpen, stageForks_succ, holdsOf_flatMap_cons, left]
      omega
    obtain ⟨rfl, ready₁⟩ := linked
    rw [first, next] at ready₁ ⊢
    have rest := ih done (s := s₁) (k := k + 1) ready₁
      (fun e isOpen => by simp only [done, left]; omega) fun e isOpen => by
        rw [account' e isOpen, stageContexts_succ, holdsOf_flatMap_cons, ← Nat.add_assoc]
        simp only [done, show k + 1 + count + 1 = k + (count + 1) + 1 by omega]
    simp only [show k + 1 + count = k + (count + 1) by omega] at rest
    refine rest.bind fun ctxs s₂ made => ?_
    obtain ⟨rfl, ready₂⟩ := made
    exact meets_done ⟨rfl, ready₂⟩

def setup (template : Context) (capacities : Capacities) (count : Nat) : Proc (List Context) := do
  let ctxs ← forks template 0 count
  connectAll capacities ctxs

theorem meets_setup (sound : template.Sound s) (count : Nat) :
    Meets h (setup template capacities count) s fun ctxs s' =>
      ctxs = stageContexts s template count 0 count ∧ Ready s s' count (count - 1)
        fun e => holdsOf e (ctxs.flatMap (·.ports)) := by
  refine (meets_forks sound (ready_refl s) fun _ _ => rfl).bind fun ctxs s' forked => ?_
  obtain ⟨rfl, ready⟩ := forked
  rw [Nat.zero_add] at ready
  cases count with
  | zero => exact meets_done ⟨rfl, ready⟩
  | succ count =>
    have linked := meets_connect (h := h) capacities sound (fun _ => 0)
      (fun e => holdsOf e ((stageContexts s template (count + 1) 0 (count + 1)).flatMap (·.ports)))
      count (k := 0) ready
      (fun e _ => by simp [stageForks_succ, holdsOf_append, stageEntry])
      fun e _ => by simp
    simp only [Nat.zero_add] at linked
    refine linked.mono fun ctxs s' made => ?_
    obtain ⟨rfl, ready'⟩ := made
    exact ⟨rfl, ready'⟩

/-! ### Nothing is transferred -/

def Idle (r : Request) : Prop := r.isTransfer = false

theorem heeds_idle {α : Type} {r : Request} (idle : r.isTransfer = false) {next : r.Reply → Proc α}
    (rest : ∀ x, Heeds Idle Unfailing none (next x)) :
    Heeds Idle Unfailing none (.request r next) := by
  refine .request (.inl idle) (fun x e refusal => ?_) fun x => (rest x).anyway
  cases r <;> first | cases refusal | cases idle

theorem heeds_eachPort {act : Port → Proc PUnit}
    (acts : ∀ p, Heeds Idle Unfailing none (act p)) (ports : List Port) :
    Heeds Idle Unfailing none (ports.forM act) := by
  induction ports with
  | nil => exact .done _
  | cons p ports ih => exact (acts p).bind nofun fun _ => ih

theorem heeds_setPort (ctx : Context) (i : Nat) (p : Port) :
    Heeds Idle Unfailing none (ctx.setPort i p) :=
  heeds_idle (by rfl) fun _ => heeds_idle (by rfl) fun _ => .done _

theorem heeds_forks (template : Context) (k count : Nat) :
    Heeds Idle Unfailing none (forks template k count) := by
  induction count generalizing k with
  | zero => exact .done _
  | succ count ih =>
    have fork : Heeds Idle Unfailing none (template.fork (stageName template k)) :=
      (heeds_eachPort (fun p => heeds_idle (by rfl) fun _ => heeds_idle (by rfl) fun _ => .done _)
        _).bind nofun fun _ => heeds_idle (by rfl) fun _ => .done _
    exact fork.bind nofun fun _ => (ih (k + 1)).bind nofun fun _ => .done _

theorem heeds_connect (capacities : Capacities) (ctx : Context) (rest : List Context) :
    Heeds Idle Unfailing none (connect capacities ctx rest) := by
  induction rest generalizing ctx with
  | nil => exact .done _
  | cons next rest ih =>
    refine heeds_idle (by rfl) fun _ => heeds_idle (by rfl) fun _ => ?_
    exact (heeds_setPort ctx 1 _).bind nofun fun _ => (heeds_setPort next 0 _).bind nofun fun next =>
      (ih next).bind nofun fun _ => .done _

theorem heeds_setup (template : Context) (capacities : Capacities) (count : Nat) :
    Heeds Idle Unfailing none (setup template capacities count) :=
  (heeds_forks template 0 count).bind nofun fun ctxs => by
    cases ctxs with
    | nil => exact .done _
    | cons ctx rest => exact heeds_connect capacities ctx rest

theorem Idle.unwritten {es : List Event} (within : Within Idle es) :
    (∀ e, valuesTo e es = []) ∧ ∀ e, bytesTo e es = [] := by
  induction es with
  | nil => exact ⟨fun _ => rfl, fun _ => rfl⟩
  | cons ev es ih =>
    obtain ⟨first, rest⟩ := List.forall_mem_cons.1 within
    obtain ⟨r, x, rfl, asked⟩ := first
    have idle : Idle r ∨ ∃ r' y, Idle r' ∧ r'.due? y = some r := asked
    have noOffer : (∀ c v, r ≠ .offer c v) ∧ ∀ w bytes, r ≠ .offerBytes w bytes := by
      rcases idle with idle | ⟨r', y, -, due⟩
      · constructor
        · rintro c v rfl
          cases idle
        · rintro w bytes rfl
          cases idle
      · rcases Request.due?_eq_some due with ⟨c, ticket, rfl⟩ | ⟨w, ticket, rfl⟩ <;>
          exact ⟨nofun, nofun⟩
    obtain ⟨values, bytes⟩ := ih rest
    refine ⟨fun e => ?_, fun e => ?_⟩
    · change valuesTo e ([.asked r x] ++ es) = []
      rw [valuesTo_append, valuesTo_eq_nil noOffer.1, values]
      rfl
    · change bytesTo e ([.asked r x] ++ es) = []
      rw [bytesTo_append, bytesTo_eq_nil noOffer.2, bytes]
      rfl

end Pipeline

end Conduit
