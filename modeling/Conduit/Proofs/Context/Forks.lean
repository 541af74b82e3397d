import Conduit.Proofs.Context.Kinship

/-!
Forks leave the context they are derived from alone.  Whatever is done with them, and in whatever
order, the context has the ports and the variables that it had; what they write to conduits that
they share with it arrives there, and variables set in it are seen in them unless they are shadowed.
-/

namespace Conduit

def Deed.binds? : Deed → Option (String × Value)
  | set 0 name v => some (name, v)
  | _ => none

namespace Family

variable {s s' : System} {es : List Event} {family family' : Family} {d : Deed}
  {deeds : List Deed} {e : PortEnd} {c : Context} {spare : List Port} {h : Host}

/-! ### The first context -/

theorem Does.first {r : Relative} (does : family.Does s d es family') (onForks : d.OnForks)
    (here : family.relatives[0]? = some r) :
    family'.relatives[0]? = some { r with vars := r.vars ++ d.binds?.toList } := by
  have same (none : d.binds? = none) :
      family.relatives[0]? = some { r with vars := r.vars ++ d.binds?.toList } := by
    rw [none, here]
    simp
  have other {k : Nat} {r' : Relative} (fork : k ≠ 0) (none : d.binds? = none) :
      (family.relatives.set k r')[0]? = some { r with vars := r.vars ++ d.binds?.toList } := by
    rw [List.getElem?_set_ne fork]
    exact same none
  cases does with
  | nothing missing =>
    refine same ?_
    match d, missing with
    | .set 0 name v, .inl missing => exact absurd (here.symm.trans missing) nofun
    | .set (k + 1) _ _, _ | .fork _ _, _ | .close _, _ | .setPort _ _ _, _ | .borrow _ _, _
    | .put _ _ _, _ | .write _ _ _, _ => rfl
  | forked =>
    rw [List.getElem?_append_left (List.getElem?_eq_some_iff.1 here).1]
    exact same rfl
  | @bound k name v r' there =>
    cases k with
    | zero =>
      rw [here] at there
      cases there
      exact List.getElem?_set_self (List.getElem?_eq_some_iff.1 here).1
    | succ k => exact other (Nat.succ_ne_zero k) rfl
  | closed | rebound => exact other onForks rfl
  | borrowed => exact same rfl
  | wrote onPort =>
    rcases onPort with ⟨k, i, v, rfl⟩ | ⟨k, i, bytes, rfl⟩ <;> exact same rfl

theorem Course.first {r : Relative} (course : Course family s deeds es family' s')
    (onForks : ∀ d ∈ deeds, d.OnForks) (here : family.relatives[0]? = some r) :
    family'.relatives[0]? = some { r with vars := r.vars ++ deeds.filterMap Deed.binds? } := by
  induction course generalizing r with
  | nil => simpa using here
  | @cons _ _ _ _ _ _ d deeds _ _ does _ _ ih =>
    obtain ⟨own, others⟩ := List.forall_mem_cons.1 onForks
    rw [ih others (does.first own here), List.append_assoc]
    cases bound : d.binds? <;> simp [bound]

/-! ### Who holds what -/

def ports (family : Family) : List Port :=
  family.spare ++ family.relatives.flatMap (·.context.ports)

theorem holdsOf_eraseIdx {ports : List Port} {j : Nat} {p : Port} (here : ports[j]? = some p) :
    holdsOf e (ports.eraseIdx j) + p.holds e = holdsOf e ports := by
  induction ports generalizing j with
  | nil => cases here
  | cons first ports ih =>
    cases j with
    | zero => cases here; simp [holdsOf, Nat.add_comm]
    | succ j =>
      have rest := ih here
      simp only [List.eraseIdx_cons_succ, holdsOf]
      omega

theorem holds_port_le (isOpen : e.isOpen) (ctx : Context) (i : Nat) :
    (ctx.port i).holds e ≤ holdsOf e ctx.ports := by
  have all := Context.holdsOf_putPort isOpen ctx i .closed
  rw [holds_closed isOpen] at all
  omega

theorem Does.holders (does : family.Does s d es family') (after : s.After es s')
    (isOpen : e.isOpen) (enough : holdsOf e family.ports ≤ s.holders e) :
    s'.holders e + holdsOf e family.ports = s.holders e + holdsOf e family'.ports := by
  simp only [ports, holdsOf_append] at enough ⊢
  -- To give up an end takes a holder off only where there is one, and by `enough` there is.
  cases does with
  | nothing => cases after; rfl
  | @forked k name r scope here =>
    obtain ⟨s₁, held, opened⟩ := after.split
    obtain - | ⟨reply, rest⟩ := opened
    cases rest
    cases reply
    have without := holdsOf_flatMap_eraseIdx (e := e) (f := (·.context.ports)) here
    have all := System.holders_holdEvents_of_le held (e := e) (by omega)
    rw [List.flatMap_append, holdsOf_append, List.flatMap_singleton]
    change s₁.holders e + _ = _
    dsimp only
    omega
  | @bound k name v r here =>
    obtain - | ⟨reply, rest⟩ := after
    cases rest
    cases reply
    have all := holdsOf_flatMap_set (e := e) (f := (·.context.ports)) here
      { r with vars := r.vars ++ [(name, v)] }
    change s.holders e + _ = _
    dsimp only [replace] at all ⊢
    omega
  | @closed k r here =>
    have without := holdsOf_flatMap_eraseIdx (e := e) (f := (·.context.ports)) here
    have all := System.holders_releaseEvents_of_le after (e := e) (by omega)
    have set := holdsOf_flatMap_set (e := e) (f := (·.context.ports)) here
      { r with context := r.context.withoutPorts }
    have none := Context.holdsOf_withoutPorts isOpen r.context
    dsimp only [replace] at set ⊢
    omega
  | @rebound k i j r p here spare =>
    have without := holdsOf_flatMap_eraseIdx (e := e) (f := (·.context.ports)) here
    have own := holds_port_le isOpen r.context i
    have all := System.holders_releaseEvents_of_le after (e := e) (by rw [holdsOf_singleton]; omega)
    rw [holdsOf_singleton] at all
    have set := holdsOf_flatMap_set (e := e) (f := (·.context.ports)) here
      { r with context := r.context.putPort i p }
    have put := Context.holdsOf_putPort isOpen r.context i p
    have erase := holdsOf_eraseIdx (e := e) spare
    dsimp only [replace] at set ⊢
    omega
  | @borrowed k i r here =>
    have without := holdsOf_flatMap_eraseIdx (e := e) (f := (·.context.ports)) here
    have own := holds_port_le isOpen r.context i
    have all := System.holders_holdEvents_of_le after (e := e) (by rw [holdsOf_singleton]; omega)
    rw [holdsOf_singleton] at all
    rw [holdsOf_append, holdsOf_singleton]
    dsimp only
    omega
  | wrote _ writes =>
    have same := after.sameShape writes
    rw [same.holders]

theorem Course.holders (course : Course family s deeds es family' s') (isOpen : e.isOpen)
    (enough : holdsOf e family.ports ≤ s.holders e) :
    s'.holders e + holdsOf e family.ports = s.holders e + holdsOf e family'.ports := by
  induction course with
  | nil => rfl
  | cons does after _ ih =>
    have first := does.holders after isOpen enough
    have rest := ih (by omega)
    omega

/-! ### The context and its forks -/

def bound? (family : Family) (k : Nat) (name : String) : Option Value :=
  (family.relatives[k]?).bind (·.bound? name)

def forkPorts (family : Family) : List Port := family.relatives.tail.flatMap (·.context.ports)

/-- What has become of a context `c`, which had no forks in the system `s` and was alone with the
ports `spare` at hand, once the deeds have been done in its family.  Its name, its ports and its
collaborators are the same, and so is all that it can read or look up, but for what has been written
and for the variables that have been set in `c` itself. -/
structure Isolated (c : Context) (spare : List Port) (deeds : List Deed) (s s' : System)
    (family : Family) : Prop where
  first : family.relatives[0]? = some ⟨c, [], deeds.filterMap Deed.binds?⟩
  lookups : ∀ name, s'.scopes.get? c.scope name =
    ((deeds.filterMap Deed.binds?).reverse.lookup name).or (s.scopes.get? c.scope name)
  visible : ∀ (k : Nat) (r : Relative), family.relatives[k]? = some r → ∀ name,
    s'.scopes.get? r.context.scope name =
      (r.lineage.findSome? (family.bound? · name)).or (s'.scopes.get? c.scope name)
  /-- Handles on an end have come and gone as the forks, and who handles them, have come to hold it
  and have given it up. -/
  holders : ∀ e, e.isOpen → s'.holders e + holdsOf e spare =
    s.holders e + holdsOf e family.spare + holdsOf e family.forkPorts
  kept : ∀ e, e.isOpen → holdsOf e c.ports + holdsOf e family.spare + holdsOf e family.forkPorts ≤
    s'.holders e
  /-- A pipe that `c` alone reads from, or writes to, keeps that side. -/
  sides : ∀ e ∈ endsOf c.ports, ∀ p, s.behind? e = some p →
    (∀ d, s.behind? d = some p → d.side = e.side → d = e) →
    (s'.pipes[p.index]?).map e.side = (s.pipes[p.index]?).map e.side
  /-- So does either side of a pipe, also the one that faces `c`, of which no end has lost the last
  of its handles. -/
  facing : ∀ (p : PipeId) (d : PortEnd), (∀ d', s.behind? d' = some p → d'.side = d.side →
      0 < s.holders d' → 0 < s'.holders d') →
    (s'.pipes[p.index]?).map d.side = (s.pipes[p.index]?).map d.side
  channels : ∀ i : ChannelId, (s'.channels[i.index]?).map Channel.content =
    (s.channels[i.index]?).map (·.contentWith (valuesAt (.writing i) family.values))
  pipes : ∀ p : PipeId, ∃ chunks, (s'.pipes[p.index]?).map Channel.content =
      (s.pipes[p.index]?).map (·.contentWith chunks) ∧
    ∀ w, s.writingPipe? w = some p → (∀ u, s.writingPipe? u = some p → u = w) →
      chunks.flatten = bytesAt (.writing w) family.chunks
  targets : ∀ w, ∃ bytes, s'.target? w = (s.target? w).map (·.written bytes) ∧
    (s.flush w = .ok () → bytes = bytesAt (.writing w) family.chunks)
  readers : ∀ q : ReaderId, (s'.readers[q.index]?).map ByteReader.content =
    (s.readers[q.index]?).map ByteReader.content
  stores : s'.stores = s.stores
  editors : s'.editors = s.editors
  files : s'.files = s.files

theorem chunksInto_alone {w : WriterId} {p : PipeId} (behind : s.writingPipe? w = some p)
    (alone : ∀ u, s.writingPipe? u = some p → u = w) (es : List Event) :
    s.chunksInto p es = chunksTo (.writing w) es := by
  refine congrArg (List.filterMap · es) (funext fun ev => ?_)
  rcases ev with ⟨r, x⟩ | call
  · cases r with
    | offerBytes u bytes =>
      cases x with
      | ok ticket =>
        rw [Event.chunkInto?, Event.chunkTo?]
        by_cases same : w = u
        · subst same
          rw [if_pos behind, if_pos rfl]
        · rw [if_neg fun leads => same (alone u leads).symm,
            if_neg fun other => same (StreamEnd.writing.inj other)]
      | error => rfl
    | _ => rfl
  · rfl

theorem flush_of_writingPipe? {w : WriterId} {p : PipeId} (behind : s.writingPipe? w = some p) :
    s.flush w = .ok () := by
  obtain ⟨target, here, pipe⟩ := Option.bind_eq_some_iff.1 behind
  rw [System.flush, here]
  cases target with
  | pipe q => rfl
  | sink => cases pipe

theorem holdsOf_ports_of_first {r : Relative} (first : family.relatives[0]? = some r) :
    holdsOf e family.ports =
      holdsOf e r.context.ports + holdsOf e family.spare + holdsOf e family.forkPorts := by
  rw [ports, forkPorts, holdsOf_append]
  cases relatives : family.relatives with
  | nil => rw [relatives] at first; cases first
  | cons r' rest =>
    rw [relatives] at first
    cases first
    rw [List.flatMap_cons, holdsOf_append, List.tail_cons]
    omega

theorem Course.holders_of_first {vars : List (String × Value)}
    (course : Course (alone c spare) s deeds es family s')
    (first : family.relatives[0]? = some ⟨c, [], vars⟩) (isOpen : e.isOpen)
    (held : holdsOf e c.ports + holdsOf e spare ≤ s.holders e) :
    s'.holders e + holdsOf e spare =
        s.holders e + holdsOf e family.spare + holdsOf e family.forkPorts ∧
      holdsOf e c.ports + holdsOf e family.spare + holdsOf e family.forkPorts ≤ s'.holders e := by
  have before : holdsOf e (alone c spare).ports = holdsOf e c.ports + holdsOf e spare :=
    (holdsOf_ports_of_first (r := ⟨c, [], []⟩) rfl).trans (Nat.add_zero _)
  have all := course.holders isOpen (by omega)
  rw [before, holdsOf_ports_of_first first] at all
  dsimp only at all
  omega

theorem Course.bytes (course : Course (alone c spare) s deeds es family s') {w : WriterId}
    (flushes : s.flush w = .ok ()) :
    bytesTo (.writing w) es = bytesAt (.writing w) family.chunks :=
  (course.chunks flushes).symm

/-- Whatever is done with the forks of a context and with the forks derived from them, in any order,
leaves the context isolated from them, if it and who handles the forks hold what they have. -/
theorem forks_isolated (c : Context) (spare : List Port) (s : System)
    (scope : c.scope.index < s.scopes.size)
    (held : ∀ e, e.isOpen → holdsOf e c.ports + holdsOf e spare ≤ s.holders e)
    {deeds : List Deed} (onForks : ∀ d ∈ deeds, d.OnForks) {o : Outcome Family}
    (runs : Proc.Runs h ((alone c spare).performAll deeds) s es o s') :
    ∃ family, o = .returned family ∧ Isolated c spare deeds s s' family := by
  obtain ⟨family, rfl, course⟩ := runs_performAll runs
  have first := course.first onForks (r := ⟨c, [], []⟩) rfl
  have after := course.after
  have adds := course.adds
  have grown := after.grown adds
  have houses := course.houses (.alone (c := Relative.kin ⟨c, [], []⟩)
    (Array.getElem?_eq_getElem scope) rfl rfl)
  have holders (e : PortEnd) (isOpen : e.isOpen) :=
    course.holders_of_first first isOpen (held e isOpen)
  refine ⟨family, rfl, first, houses.get?_first (getElem?_kin first), fun k r here name => ?_,
    fun e isOpen => (holders e isOpen).1, fun e isOpen => (holders e isOpen).2,
    fun e mem p behind alone => ?_, fun p d => after.side adds, fun i => ?_, fun p => ?_,
    fun w => ⟨_, grown.targets w, course.bytes⟩, grown.readers, grown.stores, grown.editors,
    grown.files⟩
  · refine (houses.get?_fork (getElem?_kin here) name).trans ?_
    congr 2
    funext i
    rw [List.getElem?_map, bound?, Option.bind_map]
    rfl
  · refine after.side adds fun d leads side _ => ?_
    obtain rfl := alone d leads side
    have own := holdsOf_pos_iff.2 mem
    have kept := (holders d (System.isOpen_of_behind? behind)).2
    omega
  · have values : valuesAt (.writing i) family.values = valuesTo (.writing i) es :=
      course.values (.writing i)
    rw [values]
    exact grown.channels i
  · refine ⟨_, grown.pipes p, fun w behind alone => ?_⟩
    rw [chunksInto_alone behind alone]
    exact course.bytes (flush_of_writingPipe? behind)

end Family

namespace ForksOfTop

open Family

def system : System where
  scopes := ⟨#[{}]⟩
  channels := #[{ capacity := none }, { capacity := none }]
  writers := #[{ target := .sink #[] none none }]

def top : Context := .ofPorts "top" [.closed, ⟨.writing ⟨0⟩, .writing ⟨0⟩⟩] ⟨0⟩

def beside : List Port := [⟨.writing ⟨1⟩, .closed⟩]

def deeds : List Deed :=
  [.fork 0 "inner", .fork 1 "innermost", .set 0 "x" (.string "late"), .put 1 1 (.string "a"),
    .setPort 1 1 0, .put 1 1 (.string "aside"), .set 1 "x" (.string "own"), .put 2 1 (.string "b"),
    .write 2 1 [0x62], .close 1, .close 2]

theorem held (e : PortEnd) (isOpen : e.isOpen) :
    holdsOf e top.ports + holdsOf e beside ≤ system.holders e := by
  rw [← holdsOf_append]
  rcases Nat.eq_zero_or_pos (holdsOf e (top.ports ++ beside)) with none | some
  · omega
  · have mem := holdsOf_pos_iff.1 some
    have ends : endsOf (top.ports ++ beside) = [.channel .closed, .stream .closed,
      .channel (.writing ⟨0⟩), .stream (.writing ⟨0⟩), .channel .closed, .stream .closed,
      .channel (.writing ⟨1⟩), .stream .closed] := rfl
    simp only [ends, List.mem_cons, List.not_mem_nil, or_false] at mem
    rcases mem with rfl | rfl | rfl | rfl | rfl | rfl | rfl | rfl <;>
      first | decide | cases isOpen

theorem top_isolated : (∀ d ∈ deeds, d.OnForks) ∧ ∃ es s' family,
    Proc.Runs Host.none ((alone top beside).performAll deeds) system es (.returned family) s' ∧
      Isolated top beside deeds system s' family ∧
      (s'.channels[0]?).map Channel.content = some ([.string "a", .string "b"], 0, none) := by
  have onForks : ∀ d ∈ deeds, d.OnForks := by simp [deeds, Deed.OnForks]
  obtain ⟨o, ends⟩ : ∃ o, (Proc.run Host.none 60 ((alone top beside).performAll deeds) system).1 =
      some o := ⟨_, rfl⟩
  obtain ⟨es, runs⟩ := Proc.runs_of_run (Prod.ext ends rfl)
  obtain ⟨family, rfl, isolated⟩ := forks_isolated top beside system (by decide) held onForks runs
  exact ⟨onForks, es, _, family, runs, isolated, rfl⟩

end ForksOfTop

end Conduit
