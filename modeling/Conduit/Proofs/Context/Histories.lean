import Conduit.Proofs.Context.Ports
import Conduit.Proofs.Context.Sparing

/-!
Histories of contexts.  Contexts are made and derived from one another, ports are put into them and
they are closed, in any order and with anything else going on in between.  However it comes about,
every context has the ports that have a role, what has been closed stays closed until a port is put
there, and those who hold other ports go on with them.
-/

namespace Conduit

open Proc

variable {h : Host} {s s' : System} {es : List Event} {e : PortEnd}

inductive Change
  | make (name : String) (ports : List Port)
  | fork (k : Nat) (name : String)
  | setPort (k i : Nat) (p : Port)
  | close (k : Nat)

def portsOf (cs : List Context) : List Port := cs.flatMap (·.ports)

namespace Change

def subject? : Change → Option Nat
  | make _ _ => none
  | fork k _ | setPort k _ _ | close k => some k

def Applies (d : Change) (cs : List Context) : Prop := ∀ k, d.subject? = some k → k < cs.length

def given : Change → List Port
  | make _ ports => ports
  | setPort _ _ p => [p]
  | fork _ _ | close _ => []

def onContext (cs : List Context) (k : Nat) (f : Context → Proc (List Context)) :
    Proc (List Context) :=
  match cs[k]? with
  | none => pure cs
  | some ctx => f ctx

def perform (cs : List Context) : Change → Proc (List Context)
  | make name ports => do
    let scope ← ask (.newScope none)
    pure (cs ++ [.ofPorts name ports scope])
  | fork k name => onContext cs k fun ctx => do pure (cs ++ [← ctx.fork name])
  | setPort k i p => onContext cs k fun ctx => do pure (cs.set k (← ctx.setPort i p))
  | close k => onContext cs k fun ctx => do pure (cs.set k (← ctx.close))

/-! ### What an operation does -/

variable {cs cs' : List Context} {d : Change}

inductive Does (cs : List Context) : Change → List Event → List Context → Prop
  | made {name : String} {ports : List Port} {scope : ScopeId} :
      Does cs (.make name ports) [.asked (.newScope none) scope] (cs ++ [.ofPorts name ports scope])
  | forked {k : Nat} {name : String} {ctx : Context} {scope : ScopeId} (here : cs[k]? = some ctx) :
      Does cs (.fork k name)
        (holdEvents ctx.ports ++ [.asked (.newScope (some ctx.scope)) scope])
        (cs ++ [{ ctx with name, scope }])
  | rebound {k i : Nat} {p : Port} {ctx : Context} (here : cs[k]? = some ctx) :
      Does cs (.setPort k i p) (releaseEvents [ctx.port i]) (cs.set k (ctx.putPort i p))
  | closed {k : Nat} {ctx : Context} (here : cs[k]? = some ctx) :
      Does cs (.close k) (releaseEvents ctx.ports) (cs.set k ctx.withoutPorts)

theorem runs_perform (applies : d.Applies cs) {o : Outcome (List Context)}
    (run : Runs h (d.perform cs) s es o s') : ∃ cs', o = .returned cs' ∧ d.Does cs es cs' := by
  cases d with
  | make name ports =>
    obtain ⟨o', rfl, opened⟩ := runs_map.1 run
    obtain ⟨scope, -, rfl, rfl⟩ := runs_ask.1 opened
    exact ⟨_, rfl, .made⟩
  | fork k name =>
    have here := List.getElem?_eq_getElem (applies k rfl)
    simp only [perform, onContext, here] at run
    obtain ⟨o', rfl, forked⟩ := runs_map.1 run
    obtain ⟨scope, rfl, rfl⟩ := Context.runs_fork forked
    exact ⟨_, rfl, .forked here⟩
  | setPort k i p =>
    have here := List.getElem?_eq_getElem (applies k rfl)
    simp only [perform, onContext, here] at run
    obtain ⟨o', rfl, rebound⟩ := runs_map.1 run
    obtain ⟨rfl, rfl⟩ := Context.runs_setPort rebound
    exact ⟨_, rfl, .rebound here⟩
  | close k =>
    have here := List.getElem?_eq_getElem (applies k rfl)
    simp only [perform, onContext, here] at run
    obtain ⟨o', rfl, closed⟩ := runs_map.1 run
    obtain ⟨rfl, rfl⟩ := Context.runs_close closed
    exact ⟨_, rfl, .closed here⟩

theorem does_of_runs (applies : d.Applies cs)
    (run : Runs h (d.perform cs) s es (.returned cs') s') : d.Does cs es cs' := by
  obtain ⟨_, same, does⟩ := runs_perform applies run
  cases same
  exact does

theorem terminates_perform (cs : List Context) (d : Change) (s : System) :
    Terminates h (d.perform cs) s := by
  have onContext {k : Nat} {f : Context → Proc (List Context)}
      (ends : ∀ ctx, Terminates h (f ctx) s) : Terminates h (onContext cs k f) s := by
    rw [Change.onContext]
    split
    · exact terminates_done cs
    · exact ends _
  cases d with
  | make name ports => exact terminates_request rfl (terminates_done _)
  | fork k name => exact onContext fun ctx =>
      terminates_bind (ctx.terminates_fork name) fun _ _ _ _ => terminates_done _
  | setPort k i p => exact onContext fun ctx =>
      terminates_bind (ctx.terminates_setPort i p) fun _ _ _ _ => terminates_done _
  | close k => exact onContext fun ctx =>
      terminates_bind ctx.terminates_close fun _ _ _ _ => terminates_done _

/-! ### Who holds what -/

section

variable {k : Nat} {ctx : Context} (here : cs[k]? = some ctx)

theorem holdsOf_concat (cs : List Context) (ctx : Context) :
    holdsOf e (portsOf (cs ++ [ctx])) = holdsOf e (portsOf cs) + holdsOf e ctx.ports := by
  rw [portsOf, List.flatMap_append, holdsOf_append, List.flatMap_singleton]
  rfl

include here

theorem holdsOf_replaced (ctx' : Context) :
    holdsOf e (portsOf (cs.set k ctx')) + holdsOf e ctx.ports =
      holdsOf e (portsOf cs) + holdsOf e ctx'.ports := holdsOf_flatMap_set here ctx'

theorem holdsOf_others :
    holdsOf e (portsOf (cs.eraseIdx k)) + holdsOf e ctx.ports = holdsOf e (portsOf cs) :=
  holdsOf_flatMap_eraseIdx here

theorem holdsOf_rebound (isOpen : e.isOpen) (i : Nat) (p : Port) :
    holdsOf e ([ctx.port i] ++ portsOf (cs.set k (ctx.putPort i p))) =
      holdsOf e ([p] ++ portsOf cs) := by
  have replaced := holdsOf_replaced (e := e) here (ctx.putPort i p)
  have put := Context.holdsOf_putPort isOpen ctx i p
  rw [holdsOf_append, holdsOf_append, holdsOf_singleton, holdsOf_singleton]
  omega

theorem holdsOf_closed :
    holdsOf e (ctx.ports ++ portsOf (cs.eraseIdx k)) = holdsOf e (portsOf cs) := by
  rw [holdsOf_append, Nat.add_comm, holdsOf_others here]

end

theorem Does.adds (does : d.Does cs es cs') : Adds es := by
  cases does with
  | made => exact Family.adds_singleton rfl
  | forked => exact adds_append (Family.adds_holdEvents _) (Family.adds_singleton rfl)
  | rebound | closed => exact Family.adds_releaseEvents _

theorem Does.supports (does : d.Does cs es cs') (after : s.After es s')
    (supports : s.Supports (d.given ++ portsOf cs)) : s'.Supports (portsOf cs') := by
  have grown := after.grown does.adds
  have enough (e : PortEnd) (isOpen : e.isOpen) := supports.enough e isOpen
  simp only [holdsOf_append] at enough
  cases does with
  | @made name ports scope =>
    obtain - | ⟨reply, rest⟩ := after
    cases rest
    cases reply
    refine supports.after grown fun e isOpen => ?_
    rw [holdsOf_concat, Context.ofPorts, Context.holdsOf_padded isOpen, Nat.add_comm]
    exact enough e isOpen
  | @forked k name ctx scope here =>
    obtain ⟨s₁, held, opened⟩ := after.split
    obtain - | ⟨reply, rest⟩ := opened
    cases rest
    cases reply
    refine supports.after grown fun e isOpen => ?_
    have enough := enough e isOpen
    have others := holdsOf_others (e := e) here
    have all := System.holders_holdEvents_of_le held (e := e) (by omega)
    rw [holdsOf_concat]
    change holdsOf e (portsOf cs) + holdsOf e ctx.ports ≤ s₁.holders e
    omega
  | @rebound k i p ctx here =>
    have held := supports.mono fun e isOpen => Nat.le_of_eq (holdsOf_rebound here isOpen i p)
    exact held.others after
  | @closed k ctx here =>
    have others := (supports.mono fun e _ => Nat.le_of_eq (holdsOf_closed here)).others after
    refine others.mono fun e isOpen => ?_
    have others := holdsOf_others (e := e) here
    have replaced := holdsOf_replaced (e := e) here ctx.withoutPorts
    have none := Context.holdsOf_withoutPorts isOpen ctx
    omega

/-! ### What has been done -/

inductive Done (h : Host) (cs : List Context) (s : System) :
    Change → List Context → System → Prop
  | made {name : String} {ports : List Port} {ctx : Context} {s' : System}
      (begun : ctx.Begun name ports) : Done h cs s (.make name ports) (cs ++ [ctx]) s'
  | forked {k : Nat} {name : String} {ctx : Context} {scope : ScopeId} {s' : System}
      (here : cs[k]? = some ctx) : Done h cs s (.fork k name) (cs ++ [{ ctx with name, scope }]) s'
  | rebound {k i : Nat} {p : Port} {ctx ctx' : Context} {s' : System} (here : cs[k]? = some ctx)
      (rebound : ctx.Rebound i p ctx')
      (spares : s.Spares h [ctx.port i] (portsOf (cs.set k ctx')) s') :
      Done h cs s (.setPort k i p) (cs.set k ctx') s'
  | closed {k : Nat} {ctx ctx' : Context} {s' : System} (here : cs[k]? = some ctx)
      (length : ctx'.ports.length = ctx.ports.length)
      (rest : ctx' = { ctx with ports := ctx'.ports }) (atEnd : ∀ p ∈ ctx'.ports, p.AtEnd h)
      (spares : s.Spares h ctx.ports (portsOf (cs.eraseIdx k)) s') :
      Done h cs s (.close k) (cs.set k ctx') s'

theorem Does.done (does : d.Does cs es cs') (after : s.After es s')
    (supports : s.Supports (d.given ++ portsOf cs)) : d.Done h cs s cs' s' := by
  cases does with
  | made => exact .made (Context.begun_ofPorts ..)
  | forked here => exact .forked here
  | @rebound k i p ctx here =>
    have supports := supports.mono fun e isOpen => Nat.le_of_eq (holdsOf_rebound here isOpen i p)
    exact .rebound here (ctx.rebound_putPort i p) (supports.spares after)
  | @closed k ctx here =>
    have supports := supports.mono fun e _ => Nat.le_of_eq (holdsOf_closed here)
    refine .closed here ctx.length_withoutPorts rfl (fun p mem => ?_) (supports.spares after)
    obtain ⟨i, there⟩ := List.getElem?_of_mem mem
    rw [ctx.closedAt_withoutPorts i p there]
    exact Port.atEnd_closed

/-! ### What an operation preserves -/

variable {k i : Nat} {ctx' : Context}

theorem Does.length_le (does : d.Does cs es cs') : cs.length ≤ cs'.length := by
  cases does <;> simp

def on (d : Change) (k : Nat) (ctx : Context) : Context :=
  match d with
  | make _ _ | fork _ _ => ctx
  | setPort j i p => if j = k then ctx.putPort i p else ctx
  | close j => if j = k then ctx.withoutPorts else ctx

theorem getElem?_replaced {j : Nat} {f : Context → Context} {ctx old : Context}
    (here : cs[j]? = some ctx) (before : cs[k]? = some old) :
    (cs.set j (f ctx))[k]? = some (if j = k then f old else old) := by
  by_cases same : j = k
  · subst same
    rw [here] at before
    cases before
    rw [if_pos rfl, List.getElem?_set_self (List.getElem?_eq_some_iff.1 here).1]
  · rw [if_neg same, List.getElem?_set_ne same, before]

theorem Does.context (does : d.Does cs es cs') (old : k < cs.length) :
    cs'[k]? = (cs[k]?).map (d.on k) := by
  have before := List.getElem?_eq_getElem old
  rw [before, Option.map_some]
  cases does with
  | made | forked => exact (List.getElem?_append_left old).trans before
  | @rebound j i p ctx here => exact getElem?_replaced (f := (·.putPort i p)) here before
  | @closed j ctx here => exact getElem?_replaced (f := Context.withoutPorts) here before

theorem Does.enough (does : d.Does cs es cs') (before : ∀ ctx ∈ cs, 3 ≤ ctx.ports.length) :
    ∀ ctx ∈ cs', 3 ≤ ctx.ports.length := by
  intro ctx' mem
  cases does with
  | @made name ports scope =>
    rcases List.mem_append.1 mem with old | new
    · exact before ctx' old
    · rw [List.mem_singleton.1 new, Context.ofPorts, Context.length_padded]
      exact Nat.le_max_right ..
  | @forked k name ctx scope here =>
    rcases List.mem_append.1 mem with old | new
    · exact before ctx' old
    · rw [List.mem_singleton.1 new]
      exact before ctx (List.mem_of_getElem? here)
  | @rebound k i p ctx here =>
    rcases List.mem_or_eq_of_mem_set mem with old | rfl
    · exact before ctx' old
    · rw [Context.length_putPort]
      exact Nat.le_trans (before ctx (List.mem_of_getElem? here)) (Nat.le_max_left ..)
  | @closed k ctx here =>
    rcases List.mem_or_eq_of_mem_set mem with old | rfl
    · exact before ctx' old
    · rw [Context.length_withoutPorts]
      exact before ctx (List.mem_of_getElem? here)

theorem closedAt_on {ctx : Context} (before : ctx.ClosedAt i) (other : ∀ p, d ≠ .setPort k i p) :
    (d.on k ctx).ClosedAt i := by
  cases d with
  | make | fork => exact before
  | setPort j l p =>
    rw [on]
    split
    · next same =>
      have apart : i ≠ l := fun here => other p (by rw [same, here])
      exact (ctx.rebound_putPort l p).closedAt apart before
    · exact before
  | close j =>
    rw [on]
    split
    · exact ctx.closedAt_withoutPorts i
    · exact before

end Change

/-! ### Histories -/

open Change

/-- What has been done to contexts so far, with the contexts that have come to be. -/
inductive History (h : Host) : List Change → List Context → System → Prop
  | start {s : System} (supports : s.Supports []) : History h [] [] s
  | change {log : List Change} {cs cs' : List Context} {s s' : System} {d : Change}
      {es : List Event} (history : History h log cs s) (applies : d.Applies cs)
      (supports : s.Supports (d.given ++ portsOf cs))
      (run : Runs h (d.perform cs) s es (.returned cs') s') : History h (log ++ [d]) cs' s'
  | meanwhile {log : List Change} {cs : List Context} {s s' : System}
      (history : History h log cs s) (supports : s'.Supports (portsOf cs)) : History h log cs s'

def ClosedSince (log : List Change) (k i : Nat) : Prop :=
  ∃ front back, log = front ++ .close k :: back ∧ ∀ p, .setPort k i p ∉ back

theorem closedSince_concat {log : List Change} {d : Change} {k i : Nat}
    (since : ClosedSince (log ++ [d]) k i) :
    d = .close k ∨ ClosedSince log k i ∧ ∀ p, d ≠ .setPort k i p := by
  obtain ⟨front, back, all, none⟩ := since
  rcases List.eq_nil_or_concat back with rfl | ⟨back, last, rfl⟩
  · obtain ⟨-, same⟩ := List.append_inj' all rfl
    exact .inl (List.singleton_inj.1 same)
  · rw [List.concat_eq_append] at all none
    rw [← List.cons_append, ← List.append_assoc] at all
    obtain ⟨before, same⟩ := List.append_inj' all rfl
    obtain rfl := List.singleton_inj.1 same
    refine .inr ⟨⟨front, back, before, fun p mem => none p (List.mem_append_left _ mem)⟩, ?_⟩
    rintro p rfl
    exact none p (List.mem_append_right _ (.head _))

namespace History

variable {log : List Change} {cs : List Context}

theorem applied (history : History h log cs s) : ∀ d ∈ log, d.Applies cs := by
  induction history with
  | start => exact nofun
  | change _ applies _ run ih =>
    intro d mem k subject
    refine Nat.lt_of_lt_of_le ?_ (does_of_runs applies run).length_le
    rcases List.mem_append.1 mem with before | now
    · exact ih d before k subject
    · rw [List.mem_singleton.1 now] at subject
      exact applies k subject
  | meanwhile _ _ ih => exact ih

theorem supports (history : History h log cs s) : s.Supports (portsOf cs) := by
  cases history with
  | start supports => exact supports
  | change _ applies supports run => exact (does_of_runs applies run).supports run.after supports
  | meanwhile _ supports => exact supports

theorem enough (history : History h log cs s) : ∀ ctx ∈ cs, 3 ≤ ctx.ports.length := by
  induction history with
  | start => exact nofun
  | change _ applies _ run ih => exact (does_of_runs applies run).enough ih
  | meanwhile _ _ ih => exact ih

theorem closedAt (history : History h log cs s) {k i : Nat} (since : ClosedSince log k i)
    {ctx : Context} (here : cs[k]? = some ctx) : ctx.ClosedAt i := by
  induction history generalizing ctx with
  | start =>
    obtain ⟨front, back, none, -⟩ := since
    cases front <;> cases none
  | @change log cs _ _ _ _ _ history applies _ run ih =>
    have does := does_of_runs applies run
    -- What has been closed is no context that comes to be only now.
    have old : k < cs.length := by
      rcases closedSince_concat since with rfl | ⟨⟨front, back, all, -⟩, -⟩
      · exact applies k rfl
      · exact history.applied (.close k) (by simp [all]) k rfl
    rw [does.context old] at here
    obtain ⟨ctx, before, rfl⟩ := Option.map_eq_some_iff.1 here
    rcases closedSince_concat since with rfl | ⟨since, other⟩
    · rw [on, if_pos rfl]
      exact ctx.closedAt_withoutPorts i
    · exact closedAt_on (ih since before) other
  | meanwhile _ _ ih => exact ih since here

/-- Whatever has been done to contexts, each has the ports with a role, and a port that has been
closed is at its end and refuses everything until another one is put in its place.  Whatever is done
next comes to its end on every schedule and does what it is to do, and if ports are given up in it,
those who hold the others go on with them. -/
theorem ports_kept (history : History h log cs s) :
    (∀ ctx ∈ cs, ctx.HasRoles) ∧
    (∀ k i ctx p, ClosedSince log k i → cs[k]? = some ctx → ctx.port? i = some p → p.AtEnd h) ∧
    s.Supports (portsOf cs) ∧
    ∀ d : Change, d.Applies cs → s.Supports (d.given ++ portsOf cs) →
      Meets h (d.perform cs) s (d.Done h cs s) := by
  refine ⟨fun ctx mem => Context.hasRoles_of_length (history.enough ctx mem),
    fun k i ctx p since here there => ?_, history.supports, fun d applies supports => ?_⟩
  · rw [history.closedAt since here p there]
    exact Port.atEnd_closed
  · refine ⟨terminates_perform cs d s, fun es o s' run => ?_⟩
    obtain ⟨cs', rfl, does⟩ := runs_perform applies run
    exact ⟨cs', rfl, does.done run.after supports⟩

end History

namespace ClosedInner

def system : System where
  channels := #[{ capacity := none }]
  pipes := #[{ capacity := some 8 }]
  readers := #[{ source := .pipe ⟨0⟩ [], bufferSize := 8 }]
  writers := #[{ target := .pipe ⟨0⟩ }]

def reading : Port := ⟨.reading ⟨0⟩, .reading ⟨0⟩⟩

def writing : Port := ⟨.writing ⟨0⟩, .writing ⟨0⟩⟩

def log : List Change :=
  [.make "outer" [reading, writing], .fork 0 "inner", .setPort 1 4 .closed, .close 1]

theorem supports (held : List Port)
    (enough : ∀ e, e.isOpen → holdsOf e held ≤ system.holders e) : system.Supports held := by
  refine ⟨enough, ?_, ?_⟩
  · rintro ⟨_ | q⟩ ⟨_ | r⟩ p first second <;>
      first | rfl | simp [System.readingPipe?, System.source?, system] at first second
  · rintro ⟨_ | w⟩ ⟨_ | u⟩ p first second <;>
      first | rfl | simp [System.writingPipe?, System.target?, system] at first second

theorem held (e : PortEnd) (isOpen : e.isOpen) :
    holdsOf e [reading, writing] ≤ system.holders e := by
  rcases Nat.eq_zero_or_pos (holdsOf e [reading, writing]) with none | some
  · omega
  · have mem := holdsOf_pos_iff.1 some
    have ends : endsOf [reading, writing] = [.channel (.reading ⟨0⟩), .stream (.reading ⟨0⟩),
      .channel (.writing ⟨0⟩), .stream (.writing ⟨0⟩)] := rfl
    simp only [ends, List.mem_cons, List.not_mem_nil, or_false] at mem
    rcases mem with rfl | rfl | rfl | rfl <;> decide

theorem next {log : List Change} {cs cs' : List Context} {s s' : System} {d : Change}
    (history : History Host.none log cs s) (applies : d.Applies cs)
    (supports : s.Supports (d.given ++ portsOf cs))
    (ran : Proc.run Host.none 20 (d.perform cs) s = (some (.returned cs'), s')) :
    History Host.none (log ++ [d]) cs' s' := by
  obtain ⟨es, run⟩ := Proc.runs_of_run ran
  exact history.change applies supports run

theorem inner_at_end : ∃ cs s, History Host.none log cs s ∧
    cs.map (·.ports.length) = [3, 5] ∧ s.holders (.channel (.writing ⟨0⟩)) = 1 ∧
    (∀ ctx ∈ cs, ctx.HasRoles) ∧ (∀ ctx p, cs[1]? = some ctx → ctx.port? 1 = some p →
      p.AtEnd Host.none) ∧ s.Supports (portsOf cs) ∧
    Meets Host.none (Change.perform cs (.close 0)) s (Change.Done Host.none cs s (.close 0)) := by
  have start : History Host.none [] [] system := .start (supports [] fun _ _ => Nat.zero_le _)
  have made := next (d := .make "outer" [reading, writing]) start nofun
    (supports [reading, writing] held) rfl
  have forked := next (d := .fork 0 "inner") made (by rintro _ ⟨⟩; decide) made.supports rfl
  have rebound := next (d := .setPort 1 4 .closed) forked (by rintro _ ⟨⟩; decide)
    (forked.supports.mono fun e isOpen => Nat.le_of_eq (by
      rw [holdsOf_append, Change.given, holdsOf_singleton, holds_closed isOpen, Nat.zero_add])) rfl
  have closed := next (d := .close 1) rebound (by rintro _ ⟨⟩; decide) rebound.supports rfl
  obtain ⟨roles, atEnd, supports, done⟩ := closed.ports_kept
  refine ⟨_, _, closed, rfl, rfl, roles, fun ctx p => atEnd 1 1 ctx p ⟨_, [], rfl, nofun⟩, supports,
    done (.close 0) (by rintro _ ⟨⟩; decide) supports⟩

end ClosedInner

end Conduit
