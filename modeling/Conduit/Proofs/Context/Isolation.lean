import Conduit.Proofs.Context.Fork
import Conduit.Proofs.System.Visible

/-!
What a call can reach.  The body of a closure begins with its parameters and with the scope that the
closure was made in; nothing it does depends on the scope of its caller or changes an older scope.
-/

namespace Conduit

open Proc

variable {h : Host} {s s' s'' t t' : System} {es es' : List Event} {α : Type}

/-! ### Doing the same again -/

namespace Proc

theorem Step.replay {p p' : Proc α} (step : Step h p s es p' s') (after : t.After es t') :
    Step h p t es p' t' := by
  induction step with
  | request reply =>
    obtain - | ⟨reply', rest⟩ := after
    cases rest
    exact .request reply'
  | loop =>
    cases after
    exact .loop
  | host =>
    obtain - | - | rest := after
    cases rest
    exact .host
  | left _ ih => exact .left (ih after)
  | right _ ih => exact .right (ih after)
  | join left right =>
    cases after
    exact .join left right

theorem Steps.replay {p p' : Proc α} (steps : Steps h p s es p' s') (after : t.After es t') :
    Steps h p t es p' t' := by
  induction steps generalizing t with
  | refl =>
    cases after
    exact .refl
  | head step _ ih =>
    obtain ⟨t₁, first, rest⟩ := after.split
    exact .head (step.replay first) (ih rest)

theorem Runs.replay {p : Proc α} {o : Outcome α} (run : Runs h p s es o s')
    (after : t.After es t') : Runs h p t es o t' := by
  obtain ⟨q, steps, outcome⟩ := run
  exact ⟨q, steps.replay after, outcome⟩

end Proc

/-! ### Forks -/

section Fork

variable {own known : Set ScopeId}

theorem confined_of_allowed (allowed : ∀ e ∈ es, e.Allowed own known) : Confined own known es := by
  induction es with
  | nil => exact .nil
  | cons e es ih =>
    obtain ⟨first, others⟩ := List.forall_mem_cons.1 allowed
    exact .of_allowed first (ih others)

theorem confined_holdEvents (ports : List Port) : Confined own known (holdEvents ports) := by
  refine confined_of_allowed fun e mem => ?_
  obtain ⟨p, -, rfl | ⟨rfl⟩⟩ := by simpa [holdEvents] using mem
  · trivial
  · trivial

theorem confined_releaseEvents (ports : List Port) : Confined own known (releaseEvents ports) := by
  refine confined_of_allowed fun e mem => ?_
  obtain ⟨p, -, rfl | ⟨rfl⟩⟩ := by simpa [releaseEvents] using mem
  · trivial
  · trivial

theorem Context.confined_inFork {ctx : Context} {name : String}
    {body : Context → Proc (α × Context)} {o : Outcome α}
    (inner : ∀ scope s es o s', Runs h (body { ctx with name, scope }) s es o s' →
      Confined (own ∪ {scope}) known es)
    (mem : ctx.scope ∈ own) (run : Runs h (ctx.inFork name body) s es o s') :
    Confined own known es := by
  obtain ⟨scope, o', es', s₁, s₂, rfl, rfl, -, ran⟩ := runs_inFork run
  have inside : ∀ p ∈ some ctx.scope, p ∈ own ∪ known := by
    rintro _ ⟨⟩
    exact .inl mem
  have rest := (inner scope s₁ es' o' s₂ ran).append
    (confined_releaseEvents (({ ctx with name, scope } : Context).portsAfter o'))
  simp only [List.append_assoc, List.singleton_append]
  exact (confined_holdEvents ctx.ports).append
    (.cons inside (rest.mono subset_rfl fun _ mem => .inr (.inl mem)))

end Fork

/-! ### Calls -/

namespace Closure

section Confined

variable {own known : Set ScopeId} {f : Closure} {ctx : Context} {args : List Value}
  {scope : ScopeId}

theorem confined_bindEvents {pairs : List (String × Value)} (mem : scope ∈ own)
    (made : ∀ p ∈ pairs, p.2.MadeIn (own ∪ known)) :
    Confined own known (bindEvents scope pairs) := by
  refine confined_of_allowed fun e bound => ?_
  obtain ⟨p, inside, rfl⟩ := List.mem_map.1 bound
  exact ⟨mem, made p inside⟩

theorem confined_entering (captured : f.captured ∈ own ∪ known)
    (made : Value.scopesOf args ⊆ own ∪ known) (body : Confined {scope} (Value.scopesOf args) es) :
    Confined own known (f.entering ctx args scope ++ es) := by
  have inside : ∀ p ∈ some f.captured, p ∈ own ∪ known := by
    rintro _ ⟨⟩
    exact captured
  have reach : own ∪ known ⊆ own ∪ {scope} ∪ known :=
    Set.union_subset_union_left known Set.subset_union_left
  have bound : Confined (own ∪ {scope}) known (bindEvents scope (f.params.zip args)) :=
    confined_bindEvents (.inr rfl) fun p mem p' made' =>
      reach (made ⟨p.2, (List.of_mem_zip mem).2, made'⟩)
  have called : Confined (own ∪ {scope}) known [.called (.body f { ctx with scope } args)] :=
    .of_allowed trivial .nil
  have rest := (bound.append called).append
    (body.mono (Set.subset_union_right (s := own)) (made.trans reach))
  rw [entering, List.cons_append]
  exact .cons inside (rest.mono subset_rfl fun _ mem => .inr (.inl mem))

theorem sources_entering : sources (f.entering ctx args scope ++ es) ⊆ sources es := by
  rintro c ⟨e, mem, source⟩
  rcases List.mem_append.1 mem with mem | mem
  · have quiet : e.source? = none := by
      simp only [entering, bindEvents, List.cons_append, List.mem_cons, List.mem_append,
        List.mem_map, List.not_mem_nil, or_false] at mem
      rcases mem with rfl | ⟨p, -, rfl⟩ | rfl <;> rfl
    rw [quiet] at source
    cases source
  · exact ⟨e, mem, source⟩

theorem confined_call {o : Outcome (Signal × Context)}
    (body : ∀ scope s es o s', Runs h (h.body f { ctx with scope } args) s es o s' →
      Confined {scope} (Value.scopesOf args) es)
    (captured : f.captured ∈ own ∪ known) (made : Value.scopesOf args ⊆ own ∪ known)
    (run : Runs h (f.call ctx args) s es o s') : Confined own known es := by
  by_cases arity : f.params.length = args.length
  · obtain ⟨o', es', rfl, -, ran⟩ := (runs_call_iff arity).1 run
    exact confined_entering captured made (body _ _ es' o' s' ran)
  · rw [call, if_pos arity] at run
    obtain ⟨rfl, -, -⟩ := runs_done.1 run
    exact .nil

end Confined

/-! ### Isolation -/

/-- A call with the wrong number of arguments fails and does nothing else.  Any other is its body,
run in a scope of the call's own, where each parameter is bound to the last argument given for it
and every other name is what it is where the closure was made.  If the body reaches variables
through its context only, then the call changes no older scope, and it does and answers the same
wherever its caller stands and whatever is in the scopes that it cannot see. -/
theorem call_isolated (h : Host) (f : Closure) (ctx : Context) (args : List Value) (s : System) :
    (f.params.length ≠ args.length → ∀ es o s', Runs h (f.call ctx args) s es o s' ↔
      es = [] ∧ o = .returned (.failure (f.arityMismatch args.length), ctx) ∧ s' = s) ∧
    (f.params.length = args.length →
      let own : ScopeId := ⟨s.scopes.size⟩
      let answer (o : Outcome (Signal × List Port)) : Outcome (Signal × Context) :=
        o.map fun y => (y.1, { ctx with scope := own, ports := y.2 })
      (∀ name, (f.entered args s).scopes.get? own name =
        ((f.params.zip args).reverse.lookup name).or (s.scopes.get? f.captured name)) ∧
      (∀ es o s', Runs h (f.call ctx args) s es o s' ↔ ∃ o' body,
        es = f.entering ctx args own ++ body ∧ o = answer o' ∧
          Runs h (h.body f { ctx with scope := own } args) (f.entered args s) body o' s') ∧
      ∀ body o s', Runs h (h.body f { ctx with scope := own } args) (f.entered args s) body o s' →
        Confined {own} (Value.scopesOf args) body →
        (∀ older name, older.index < s.scopes.size →
          s'.scopes.get? older name = s.scopes.get? older name) ∧
        ∀ visible caller t, f.captured ∈ visible → Value.scopesOf args ⊆ visible →
          s.Within (sources body) visible → s.AgreesOn visible t →
          ∃ t', Runs h (f.call { ctx with scope := caller } args) t
              (f.entering ctx args own ++ body) (answer o) t' ∧ s'.AgreesOn visible t') := by
  constructor
  · intro arity es o s'
    rw [call, if_pos arity]
    exact runs_done
  · intro arity own answer
    refine ⟨f.get?_entered args s, fun es o s' => runs_call_iff arity, ?_⟩
    intro body o s' ran confined
    have run : Runs h (f.call ctx args) s (f.entering ctx args own ++ body) (answer o) s' :=
      (runs_call_iff arity).2 ⟨o, body, rfl, rfl, ran⟩
    constructor
    · intro older name old
      have whole : Confined ∅ ({f.captured} ∪ Value.scopesOf args)
          (f.entering ctx args own ++ body) :=
        confined_entering (.inr (.inl rfl)) (fun _ mem => .inr (.inr mem)) confined
      have sets := whole.setsFrom run.after (fun _ mem => mem.elim) (Nat.le_refl _)
      exact ScopeTable.get?_congr (run.after.rows sets (Nat.le_refl _)).2 name older old
    · intro visible caller t captured made within agrees
      have whole : Confined ∅ visible (f.entering ctx args own ++ body) :=
        confined_entering (.inr captured) (fun _ mem => .inr (made mem)) confined
      have reach : ∅ ∪ visible ⊆ visible := by rw [Set.empty_union]
      obtain ⟨t', after, agrees'⟩ := whole.agrees run.after reach sources_entering within agrees
      have same : f.call { ctx with scope := caller } args = f.call ctx args := by
        rw [call, call, if_neg (not_not.2 arity), if_neg (not_not.2 arity)]
      exact ⟨t', same ▸ run.replay after, agrees'⟩

end Closure

namespace CallsInForks

def host : Host where
  body f ctx _ := do
    let x ← ctx.get? "x"
    ctx.set "x" (.string "changed")
    match ← ctx.get? "next" with
    | some (.closure g) =>
      if g.identity < f.identity then do
        let r ← ctx.inFork "next" fun inner => g.call inner x.toList
        pure (r, ctx.ports)
      else pure (.ok, ctx.ports)
    | _ => pure (.ok, ctx.ports)
  script _ _ _ := pure .ok

theorem confined_body (f : Closure) (ctx : Context) (args : List Value) (s : System)
    (es : List Event) (o : Outcome (Signal × List Port)) (s' : System)
    (run : Runs host (host.body f ctx args) s es o s') :
    Confined {ctx.scope} (Value.scopesOf args) es := by
  -- a body calls only closures of a smaller identity than its own
  induction identity : f.identity using Nat.strongRecOn generalizing f ctx args s es o s' with
  | _ n ih =>
  subst identity
  obtain ⟨x, s₁, es₁, -, rfl, looked⟩ := runs_request.1 run
  obtain ⟨u, s₂, es₂, -, rfl, changed⟩ := runs_request.1 looked
  obtain ⟨y, s₃, es₃, -, rfl, rest⟩ := runs_request.1 changed
  refine .cons rfl (.of_allowed ⟨.inl rfl, nofun⟩ (.cons (.inl rfl) ?_))
  simp only [Proc.bind] at rest
  split at rest
  · next g =>
    split at rest
    · next smaller =>
      obtain ⟨o', rfl, forked⟩ := runs_map.1 rest
      refine Context.confined_inFork (fun scope s es o s' called => ?_) (.inl (.inl rfl)) forked
      refine Closure.confined_call (fun own s es o s' ran => ?_) ?_ ?_ called
      · exact ih g.identity smaller g _ _ s es o s' ran rfl
      · exact .inr (.inr (.head _))
      · rintro p ⟨v, mem, made⟩
        cases x with
        | none => cases mem
        | some w =>
          obtain rfl := List.mem_singleton.1 mem
          exact .inr (.inl (.inr made))
    · obtain ⟨rfl, -, -⟩ := runs_done.1 rest
      exact .nil
  · obtain ⟨rfl, -, -⟩ := runs_done.1 rest
    exact .nil

def inner : Closure := ⟨0, ["y"], ⟨0⟩⟩

def outer : Closure := ⟨1, ["x", "x"], ⟨0⟩⟩

def made : Scope := { vars := [("next", .closure inner), ("x", .string "made")] }

def calling : Scope := { vars := [("next", .bool true), ("x", .string "calling")] }

def system (row : Scope) : System := { scopes := ⟨#[made, row]⟩ }

def caller : Context := .ofPorts "caller" [] ⟨1⟩

def args : List Value := [.string "first", .string "last"]

theorem within (channels : Set ChannelId) : (system calling).Within channels {⟨0⟩} := by
  have row {scope : ScopeId} {row : Scope} (mem : scope ∈ ({⟨0⟩} : Set ScopeId))
      (here : (system calling).scopes.rows[scope.index]? = some row) : row = made := by
    obtain rfl := mem
    exact (Option.some.inj here).symm
  refine ⟨⟨fun scope mem r here p parent => ?_, fun scope mem r here b bound => ?_⟩,
    fun _ _ _ => nofun⟩
  · obtain rfl := row mem here
    cases parent
  · obtain rfl := row mem here
    rcases bound with _ | ⟨_, _ | ⟨_, ⟨⟩⟩⟩
    · intro p inside
      exact List.mem_singleton.1 inside
    · nofun

theorem agrees (row : Scope) : (system calling).AgreesOn {⟨0⟩} (system row) := by
  refine ⟨⟨rfl, ?_⟩, rfl⟩
  rintro scope rfl
  rfl

theorem plain : Value.scopesOf args ⊆ {⟨0⟩} := by
  rintro p ⟨v, mem, made⟩
  obtain rfl | rfl : v = .string "first" ∨ v = .string "last" := by simpa [args] using mem
  · cases made
  · cases made

def answer : Outcome (Signal × Context) := .returned (.ok, { caller with scope := ⟨2⟩ })

theorem called_apart_from_caller :
    (outer.entered args (system calling)).scopes.get? ⟨2⟩ "x" = some (.string "last") ∧
    (outer.entered args (system calling)).scopes.get? ⟨2⟩ "next" = some (.closure inner) ∧
    (∃ es s', Runs host (outer.call caller args) (system calling) es answer s' ∧
      s'.scopes.get? ⟨1⟩ "x" = some (.string "calling") ∧
      ∀ row, ∃ t', Runs host (outer.call { caller with scope := ⟨0⟩ } args) (system row) es answer
        t') ∧
    ∀ es o s', Runs host (outer.call caller []) (system calling) es o s' →
      es = [] ∧ s' = system calling := by
  obtain ⟨names, called, isolated⟩ :=
    (Closure.call_isolated host outer caller args (system calling)).2 rfl
  refine ⟨?_, ?_, ?_, ?_⟩
  · exact (names "x").trans rfl
  · have row : (system calling).scopes.rows[outer.captured.index]? = some made := rfl
    refine (names "next").trans ?_
    rw [ScopeTable.get?_of_row row]
    rfl
  · have ends : (Proc.run host 60 (outer.call caller args) (system calling)).1 = some answer := by
      decide +kernel
    obtain ⟨es, run⟩ := runs_of_run (Prod.ext ends rfl)
    obtain ⟨o, body, rfl, same, ran⟩ := (called _ _ _).1 run
    obtain ⟨older, apart⟩ := isolated body o _ ran (confined_body _ _ _ _ _ _ _ ran)
    refine ⟨_, _, run, ?_, fun row => ?_⟩
    · have row : (system calling).scopes.rows[caller.scope.index]? = some calling := rfl
      exact (older caller.scope "x" (by decide)).trans (ScopeTable.get?_of_row row "x")
    · obtain ⟨t', again, -⟩ := apart {⟨0⟩} ⟨0⟩ (system row) rfl plain (within _) (agrees row)
      exact ⟨t', same ▸ again⟩
  · intro es o s' run
    obtain ⟨rfl, -, rfl⟩ := ((Closure.call_isolated host outer caller [] (system calling)).1
      (by decide) es o s').1 run
    exact ⟨rfl, rfl⟩

end CallsInForks

end Conduit
