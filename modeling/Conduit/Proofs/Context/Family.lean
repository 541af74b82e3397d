import Conduit.Proofs.Context.Additions

/-!
Families of contexts: one context and the forks derived from it, from one another and in any order.
What is done in a family is done by the operations on contexts and on the ends of their ports.
-/

namespace Conduit

open Proc

structure Relative where
  context : Context
  /-- The numbers of this context and of those it was derived through, up to the first context of
  the family, which is not counted. -/
  lineage : List Nat := []
  vars : List (String × Value) := []

def Relative.bound? (r : Relative) (name : String) : Option Value := r.vars.reverse.lookup name

structure Family where
  relatives : List Relative
  spare : List Port := []
  values : List (ChannelEnd × Value) := []
  chunks : List (StreamEnd × Bytes) := []

inductive Deed
  | fork (k : Nat) (name : String)
  | set (k : Nat) (name : String) (v : Value)
  | close (k : Nat)
  | setPort (k i j : Nat)
  | borrow (k i : Nat)
  | put (k i : Nat) (v : Value)
  | write (k i : Nat) (bytes : Bytes)

namespace Deed

def subject : Deed → Nat
  | fork k _ | set k _ _ | close k | setPort k _ _ | borrow k _ | put k _ _ | write k _ _ => k

def OnForks : Deed → Prop
  | close k | setPort k _ _ => k ≠ 0
  | _ => True

end Deed

def whenWritten {α : Type} (reply : Except PortError Unit) (x : α) : List α :=
  match reply with
  | .ok _ => [x]
  | .error _ => []

namespace Family

def alone (c : Context) (spare : List Port) : Family := { relatives := [{ context := c }], spare }

def replace (family : Family) (k : Nat) (r : Relative) : Family :=
  { family with relatives := family.relatives.set k r }

def act (family : Family) (r : Relative) : Deed → Proc Family
  | .fork _ name => do
    let context ← r.context.fork name
    let lineage := family.relatives.length :: r.lineage
    pure { family with relatives := family.relatives ++ [{ context, lineage }] }
  | .set k name v => do
    r.context.set name v
    pure (family.replace k { r with vars := r.vars ++ [(name, v)] })
  | .close k => do
    let context ← r.context.close
    pure (family.replace k { r with context })
  | .setPort k i j =>
    match family.spare[j]? with
    | none => pure family
    | some p => do
      let context ← r.context.setPort i p
      pure { family.replace k { r with context } with spare := family.spare.eraseIdx j }
  | .borrow _ i => do
    let p := r.context.port i
    p.hold
    pure { family with spare := family.spare ++ [p] }
  | .put _ i v => do
    let e := (r.context.port i).channel
    let reply ← (e.put v).run
    pure { family with values := family.values ++ whenWritten reply (e, v) }
  | .write _ i bytes => do
    let e := (r.context.port i).stream
    let reply ← (e.write bytes).run
    pure { family with chunks := family.chunks ++ whenWritten reply (e, bytes) }

def perform (family : Family) (d : Deed) : Proc Family :=
  match family.relatives[d.subject]? with
  | none => pure family
  | some r => family.act r d

def performAll (family : Family) (deeds : List Deed) : Proc Family := deeds.foldlM perform family

end Family

def valuesAt (e : ChannelEnd) (log : List (ChannelEnd × Value)) : List Value :=
  log.filterMap fun x => if x.1 = e then some x.2 else none

def bytesAt (e : StreamEnd) (log : List (StreamEnd × Bytes)) : Bytes :=
  (log.filterMap fun x => if x.1 = e then some x.2 else none).flatten

theorem valuesAt_append (e : ChannelEnd) (first rest : List (ChannelEnd × Value)) :
    valuesAt e (first ++ rest) = valuesAt e first ++ valuesAt e rest := List.filterMap_append

theorem bytesAt_append (e : StreamEnd) (first rest : List (StreamEnd × Bytes)) :
    bytesAt e (first ++ rest) = bytesAt e first ++ bytesAt e rest := by
  rw [bytesAt, List.filterMap_append, List.flatten_append]
  rfl

variable {h : Host} {s s' : System} {es : List Event}

/-! ### Writing at an end -/

def Writes (es : List Event) : Prop := ∀ r x, .asked r x ∈ es → r.isWriting

theorem writes_nil : Writes [] := by simp [Writes]

theorem writes_cons {r : Request} {x : r.Reply} (writing : r.isWriting) (rest : Writes es) :
    Writes (.asked r x :: es) := by
  intro r' x' mem
  rcases List.mem_cons.1 mem with same | mem
  · cases same
    exact writing
  · exact rest r' x' mem

theorem Writes.adds (writes : Writes es) : Adds es := by
  intro r x mem
  have writing := writes r x mem
  cases r <;> first | rfl | cases writing

namespace System

variable {c : ChannelId} {w : WriterId} {ticket : Nat} {v : Value} {bytes : Bytes}

theorem settleValue?_of_offerValue {y : Except PortError Unit}
    (offer : s.offerValue c v = (.ok ticket, s')) (settled : s'.settleValue? c ticket = some y) :
    y = .ok () := by
  rcases offerValue_cases offer with ⟨ch, here, readers, -, -, rfl⟩ | ⟨refused, -, -⟩
  · rw [settleValue?, channels_onChannel here] at settled
    obtain ⟨accepted, room, rfl⟩ := Option.map_eq_some_iff.1 settled
    exact if_pos ((Channel.settled?_cases room).resolve_right readers)
  · cases refused

theorem settleBytes?_of_offerBytes {y : Except String Unit}
    (offer : s.offerBytes w bytes = (.ok ticket, s')) (settled : s'.settleBytes? w ticket = some y) :
    y = .ok () := by
  cases sent : sent_of_offerBytes offer with
  | sunk target =>
    rw [settleBytes?, target?_offerBytes_own target offer] at settled
    cases settled
    rfl
  | @piped p ch target here readers =>
    have there : (s.onPipe p fun _ => { ch with queue := ch.queue ++ [bytes] }).pipes[p.index]? =
        some { ch with queue := ch.queue ++ [bytes] } := by
      simp [onPipe, Array.getElem?_modify, here]
    rw [settleBytes?, target?_offerBytes_own target offer] at settled
    simp only [Target.written, there] at settled
    obtain ⟨accepted, room, rfl⟩ := Option.map_eq_some_iff.1 settled
    exact if_pos ((Channel.settled?_cases room).resolve_right readers)

theorem Grown.flush (grown : s.Grown s' es) (w : WriterId) : s'.flush w = s.flush w := by
  rw [System.flush, System.flush, grown.targets]
  cases s.target? w with
  | none => rfl
  | some t =>
    match t with
    | .sink _ none none | .sink _ none (some _) | .sink _ (some _) _ | .pipe _ => rfl

end System

theorem System.After.sameShape (after : s.After es s') (writes : Writes es) : s.SameShape s' := by
  induction after with
  | nil => exact .refl _
  | called _ ih => exact ih fun r x mem => writes r x (.tail _ mem)
  | asked reply _ ih =>
    have transfer := Request.isTransfer_of_isWriting (writes _ _ (.head _))
    exact (Request.sameShape_perform transfer reply).trans
      (ih fun r x mem => writes r x (.tail _ mem))

theorem runs_put {e : ChannelEnd} {v : Value} {o : Outcome (Except PortError Unit)}
    (run : Runs h (e.put v).run s es o s') : ∃ reply, o = .returned reply ∧ Writes es ∧
      (∀ d, chunksTo d es = []) ∧ ∀ d, valuesTo d es = valuesAt d (whenWritten reply (e, v)) := by
  cases e with
  | writing c =>
    obtain ⟨x, s₁, es₁, offer, rfl, rest⟩ := runs_request.1 run
    cases x with
    | error e' =>
      obtain ⟨rfl, rfl, rfl⟩ := runs_done.1 rest
      exact ⟨_, rfl, writes_cons rfl writes_nil, fun _ => rfl, fun _ => rfl⟩
    | ok ticket =>
      obtain ⟨y, s₂, es₂, settle, rfl, last⟩ := runs_request.1 rest
      obtain ⟨z, settled, same⟩ := Option.map_eq_some_iff.1 settle
      cases same
      obtain rfl := System.settleValue?_of_offerValue (Option.some.inj offer) settled
      obtain ⟨rfl, rfl, rfl⟩ := runs_done.1 last
      refine ⟨_, rfl, writes_cons rfl (writes_cons rfl writes_nil), fun _ => rfl, fun d => ?_⟩
      by_cases same : d = .writing c
      · simp [valuesTo, Event.valueTo?, valuesAt, whenWritten, same]
      · simp [valuesTo, Event.valueTo?, valuesAt, whenWritten, same, Ne.symm same]
  | closed | reading =>
    obtain ⟨rfl, rfl, rfl⟩ := runs_done.1 run
    exact ⟨_, rfl, writes_nil, fun _ => rfl, fun _ => rfl⟩

theorem runs_flush {w : WriterId} {o : Outcome (Except PortError Unit)}
    (run : Runs h ((ask (.flush w)).bind fun x => done (x.mapError PortError.io)) s es o s') :
    ∃ reply, o = .returned reply ∧ Writes es ∧ (∀ d, valuesTo d es = []) ∧
      (∀ d, chunksTo d es = []) ∧ (s.flush w = .ok () → reply = .ok ()) := by
  obtain ⟨x, s₁, es₁, flush, rfl, last⟩ := runs_request.1 run
  obtain ⟨rfl, rfl, rfl⟩ := runs_done.1 last
  refine ⟨_, rfl, writes_cons rfl writes_nil, fun _ => rfl, fun _ => rfl, fun able => ?_⟩
  cases flush
  rw [able]
  rfl

theorem bytesAt_singleton (d e : StreamEnd) (bytes : Bytes) :
    bytesAt d [(e, bytes)] = if e = d then bytes else [] := by
  by_cases same : e = d <;> simp [bytesAt, same]

theorem runs_write {e : StreamEnd} {bytes : Bytes} {o : Outcome (Except PortError Unit)}
    (run : Runs h (e.write bytes).run s es o s') : ∃ reply, o = .returned reply ∧ Writes es ∧
      (∀ d, valuesTo d es = []) ∧ ∀ w, s.flush w = .ok () →
        bytesTo (.writing w) es = bytesAt (.writing w) (whenWritten reply (e, bytes)) := by
  cases e with
  | writing w =>
    rw [StreamEnd.write] at run
    cases bytes with
    | nil =>
      obtain ⟨reply, rfl, writes, values, chunks, -⟩ := runs_flush run
      refine ⟨reply, rfl, writes, values, fun u _ => ?_⟩
      rw [bytesTo, chunks]
      cases reply with
      | error => rfl
      | ok => rw [whenWritten, bytesAt_singleton, ite_self]; rfl
    | cons b bytes =>
      obtain ⟨x, s₁, es₁, offer, rfl, rest⟩ := runs_request.1 run
      cases x with
      | error message =>
        obtain ⟨rfl, rfl, rfl⟩ := runs_done.1 rest
        exact ⟨_, rfl, writes_cons rfl writes_nil, fun _ => rfl, fun _ _ => rfl⟩
      | ok ticket =>
        obtain ⟨y, s₂, es₂, settle, rfl, last⟩ := runs_request.1 rest
        obtain ⟨z, settled, same⟩ := Option.map_eq_some_iff.1 settle
        cases same
        obtain rfl := System.settleBytes?_of_offerBytes (Option.some.inj offer) settled
        obtain ⟨reply, rfl, writes, values, chunks, able⟩ := runs_flush last
        refine ⟨reply, rfl, writes_cons rfl (writes_cons rfl writes), values, fun u flushes => ?_⟩
        have rest : bytesTo (.writing u) es₂ = [] := by rw [bytesTo, chunks]; rfl
        have sent : bytesTo (.writing u) ([.asked (.offerBytes w (b :: bytes)) (.ok ticket)] ++
            ([.asked (.settleBytes w ticket) (.ok ())] ++ es₂)) =
            bytesTo (.writing u) [.asked (.offerBytes w (b :: bytes)) (.ok ticket)] := by
          rw [bytesTo_append, bytesTo_append, rest]
          exact List.append_nil _
        refine sent.trans ?_
        -- Where the writer can be flushed, what was accepted is not answered with an error.
        by_cases same : w = u
        · subst same
          have able := able ((System.grown_perform rfl offer).flush w ▸ flushes)
          rw [able, bytesTo_offerBytes, whenWritten, bytesAt_singleton, if_pos rfl]
        · rw [bytesTo_offerBytes_other same]
          cases reply with
          | error => rfl
          | ok =>
            rw [whenWritten, bytesAt_singleton,
              if_neg fun other => same (StreamEnd.writing.inj other)]
  | closed | reading =>
    obtain ⟨rfl, rfl, rfl⟩ := runs_done.1 run
    exact ⟨_, rfl, writes_nil, fun _ => rfl, fun _ _ => rfl⟩

/-! ### What a deed does -/

namespace Family

inductive Does (family : Family) (s : System) : Deed → List Event → Family → Prop
  | nothing {d : Deed} (missing : family.relatives[d.subject]? = none ∨
      ∃ k i j, d = .setPort k i j ∧ family.spare[j]? = none) : Does family s d [] family
  | forked {k : Nat} {name : String} {r : Relative} {scope : ScopeId}
      (here : family.relatives[k]? = some r) :
      Does family s (.fork k name)
        (holdEvents r.context.ports ++ [.asked (.newScope (some r.context.scope)) scope])
        { family with relatives := family.relatives ++
            [⟨{ r.context with name, scope }, family.relatives.length :: r.lineage, []⟩] }
  | bound {k : Nat} {name : String} {v : Value} {r : Relative}
      (here : family.relatives[k]? = some r) :
      Does family s (.set k name v) [.asked (.setVar r.context.scope name v) ()]
        (family.replace k { r with vars := r.vars ++ [(name, v)] })
  | closed {k : Nat} {r : Relative} (here : family.relatives[k]? = some r) :
      Does family s (.close k) (releaseEvents r.context.ports)
        (family.replace k { r with context := r.context.withoutPorts })
  | rebound {k i j : Nat} {r : Relative} {p : Port} (here : family.relatives[k]? = some r)
      (spare : family.spare[j]? = some p) :
      Does family s (.setPort k i j) (releaseEvents [r.context.port i])
        { family.replace k { r with context := r.context.putPort i p } with
          spare := family.spare.eraseIdx j }
  | borrowed {k i : Nat} {r : Relative} (here : family.relatives[k]? = some r) :
      Does family s (.borrow k i) (holdEvents [r.context.port i])
        { family with spare := family.spare ++ [r.context.port i] }
  | wrote {d : Deed} {es : List Event} {values : List (ChannelEnd × Value)}
      {chunks : List (StreamEnd × Bytes)} (onPort : (∃ k i v, d = .put k i v) ∨
        ∃ k i bytes, d = .write k i bytes) (writes : Writes es)
      (valuesTo : ∀ e, valuesTo e es = valuesAt e values)
      (bytesTo : ∀ w, s.flush w = .ok () → bytesTo (.writing w) es = bytesAt (.writing w) chunks) :
      Does family s d es
        { family with values := family.values ++ values, chunks := family.chunks ++ chunks }

variable {family family' : Family} {d : Deed} {deeds : List Deed}

theorem runs_perform {o : Outcome Family} (run : Runs h (family.perform d) s es o s') :
    ∃ family', o = .returned family' ∧ family.Does s d es family' := by
  rw [perform] at run
  cases here : family.relatives[d.subject]? with
  | none =>
    rw [here] at run
    obtain ⟨rfl, rfl, rfl⟩ := runs_done.1 run
    exact ⟨family, rfl, .nothing (.inl here)⟩
  | some r =>
    simp only [here] at run
    cases d with
    | fork k name =>
      obtain ⟨o', rfl, forked⟩ := runs_map.1 run
      obtain ⟨scope, rfl, rfl⟩ := Context.runs_fork forked
      exact ⟨_, rfl, .forked here⟩
    | set k name v =>
      obtain ⟨o', rfl, bound⟩ := runs_map.1 run
      obtain ⟨x, reply, rfl, rfl⟩ := runs_ask.1 bound
      exact ⟨_, rfl, .bound here⟩
    | close k =>
      obtain ⟨o', rfl, closed⟩ := runs_map.1 run
      obtain ⟨rfl, rfl⟩ := Context.runs_close closed
      exact ⟨_, rfl, .closed here⟩
    | setPort k i j =>
      rw [act] at run
      cases spare : family.spare[j]? with
      | none =>
        rw [spare] at run
        obtain ⟨rfl, rfl, rfl⟩ := runs_done.1 run
        exact ⟨family, rfl, .nothing (.inr ⟨k, i, j, rfl, spare⟩)⟩
      | some p =>
        simp only [spare] at run
        obtain ⟨o', rfl, rebound⟩ := runs_map.1 run
        obtain ⟨rfl, rfl⟩ := Context.runs_setPort rebound
        exact ⟨_, rfl, .rebound here spare⟩
    | borrow k i =>
      obtain ⟨o', rfl, held⟩ := runs_map.1 run
      obtain ⟨rfl, rfl⟩ := runs_hold held
      exact ⟨_, rfl, .borrowed here⟩
    | put k i v =>
      obtain ⟨o', rfl, put⟩ := runs_map.1 run
      obtain ⟨reply, rfl, writes, chunks, values⟩ := runs_put put
      have does : family.Does s (.put k i v) es _ := .wrote (.inl ⟨k, i, v, rfl⟩) writes values
        fun w _ => show _ = bytesAt (.writing w) [] by rw [bytesTo, chunks]; rfl
      rw [List.append_nil] at does
      exact ⟨_, rfl, does⟩
    | write k i bytes =>
      obtain ⟨o', rfl, write⟩ := runs_map.1 run
      obtain ⟨reply, rfl, writes, values, sent⟩ := runs_write write
      have does : family.Does s (.write k i bytes) es _ := .wrote (.inr ⟨k, i, bytes, rfl⟩) writes
        (fun e => show _ = valuesAt e [] from values e) sent
      rw [List.append_nil] at does
      exact ⟨_, rfl, does⟩

inductive Course : Family → System → List Deed → List Event → Family → System → Prop
  | nil {family : Family} {s : System} : Course family s [] [] family s
  | cons {family family₁ family' : Family} {s s₁ s' : System} {d : Deed} {deeds : List Deed}
      {es es' : List Event} (first : family.Does s d es family₁) (after : s.After es s₁)
      (rest : Course family₁ s₁ deeds es' family' s') :
      Course family s (d :: deeds) (es ++ es') family' s'

theorem runs_performAll {o : Outcome Family} (run : Runs h (family.performAll deeds) s es o s') :
    ∃ family', o = .returned family' ∧ Course family s deeds es family' s' := by
  induction deeds generalizing family s es with
  | nil =>
    obtain ⟨rfl, rfl, rfl⟩ := runs_done.1 run
    exact ⟨family, rfl, .nil⟩
  | cons d deeds ih =>
    rw [performAll, List.foldlM_cons] at run
    rcases runs_bind.1 run with ⟨message, rfl, broken⟩ | ⟨family₁, es₁, es₂, s₁, rfl, first, rest⟩
    · obtain ⟨_, other, -⟩ := runs_perform broken
      cases other
    · obtain ⟨_, same, does⟩ := runs_perform first
      cases same
      obtain ⟨family', rfl, course⟩ := ih rest
      exact ⟨family', rfl, .cons does first.after course⟩

namespace Course

theorem after (course : Course family s deeds es family' s') : s.After es s' := by
  induction course with
  | nil => exact .nil
  | cons _ after _ ih => exact after.append ih

end Course

theorem adds_holdEvents (ports : List Port) : Adds (holdEvents ports) := by
  intro r x mem
  simp only [holdEvents, List.mem_flatMap, List.mem_cons, List.not_mem_nil, or_false] at mem
  obtain ⟨p, -, same | same⟩ := mem <;> cases same <;> rfl

theorem adds_releaseEvents (ports : List Port) : Adds (releaseEvents ports) := by
  intro r x mem
  simp only [releaseEvents, List.mem_flatMap, List.mem_cons, List.not_mem_nil, or_false] at mem
  obtain ⟨p, -, same | same⟩ := mem <;> cases same <;> rfl

theorem adds_singleton {r : Request} {x : r.Reply} (addition : r.isAddition) :
    Adds [.asked r x] := by
  intro r' x' mem
  cases List.mem_singleton.1 mem
  exact addition

theorem Does.adds (does : family.Does s d es family') : Adds es := by
  cases does with
  | nothing => exact nofun
  | forked => exact adds_append (adds_holdEvents _) (adds_singleton rfl)
  | bound => exact adds_singleton rfl
  | closed | rebound => exact adds_releaseEvents _
  | borrowed => exact adds_holdEvents _
  | wrote _ writes => exact writes.adds

theorem Course.adds (course : Course family s deeds es family' s') : Adds es := by
  induction course with
  | nil => exact nofun
  | cons first _ _ ih => exact adds_append first.adds ih

/-! ### What has been written -/

theorem valuesTo_holdEvents (e : ChannelEnd) (ports : List Port) :
    valuesTo e (holdEvents ports) = [] := by
  induction ports with
  | nil => rfl
  | cons p ports ih => exact ih

theorem valuesTo_releaseEvents (e : ChannelEnd) (ports : List Port) :
    valuesTo e (releaseEvents ports) = [] := by
  induction ports with
  | nil => rfl
  | cons p ports ih => exact ih

theorem bytesTo_holdEvents (e : StreamEnd) (ports : List Port) :
    bytesTo e (holdEvents ports) = [] := by
  induction ports with
  | nil => rfl
  | cons p ports ih => exact ih

theorem bytesTo_releaseEvents (e : StreamEnd) (ports : List Port) :
    bytesTo e (releaseEvents ports) = [] := by
  induction ports with
  | nil => rfl
  | cons p ports ih => exact ih

theorem Does.values (does : family.Does s d es family') (e : ChannelEnd) :
    valuesAt e family'.values = valuesAt e family.values ++ valuesTo e es := by
  cases does with
  | nothing => exact (List.append_nil _).symm
  | forked => rw [valuesTo_append, valuesTo_holdEvents]; exact (List.append_nil _).symm
  | bound => exact (List.append_nil _).symm
  | closed | rebound => rw [valuesTo_releaseEvents]; exact (List.append_nil _).symm
  | borrowed => rw [valuesTo_holdEvents, List.append_nil]
  | wrote _ _ values => rw [values, valuesAt_append]

theorem Does.chunks (does : family.Does s d es family') {w : WriterId}
    (flushes : s.flush w = .ok ()) : bytesAt (.writing w) family'.chunks =
      bytesAt (.writing w) family.chunks ++ bytesTo (.writing w) es := by
  cases does with
  | nothing => exact (List.append_nil _).symm
  | forked => rw [bytesTo_append, bytesTo_holdEvents]; exact (List.append_nil _).symm
  | bound => exact (List.append_nil _).symm
  | closed | rebound => rw [bytesTo_releaseEvents]; exact (List.append_nil _).symm
  | borrowed => rw [bytesTo_holdEvents, List.append_nil]
  | wrote _ _ _ bytes => rw [bytes w flushes, bytesAt_append]

theorem Course.values (course : Course family s deeds es family' s') (e : ChannelEnd) :
    valuesAt e family'.values = valuesAt e family.values ++ valuesTo e es := by
  induction course with
  | nil => exact (List.append_nil _).symm
  | cons first _ _ ih => rw [ih, first.values, valuesTo_append, List.append_assoc]

theorem Course.chunks (course : Course family s deeds es family' s') {w : WriterId}
    (flushes : s.flush w = .ok ()) : bytesAt (.writing w) family'.chunks =
      bytesAt (.writing w) family.chunks ++ bytesTo (.writing w) es := by
  induction course with
  | nil => exact (List.append_nil _).symm
  | cons first after _ ih =>
    rw [ih (((after.grown first.adds).flush w).trans flushes), first.chunks flushes, bytesTo_append,
      List.append_assoc]

end Family

end Conduit
