import Conduit.Proofs.Port.Output
import Conduit.Proofs.Proc.Meets

/-!
What a process writes, in outline: the items that it hands to its output one after another, each
with the system as it is at that moment.  A process that stops at the first refusal brings them to
any output, in this order, for as long as they are taken.
-/

namespace Conduit

open Proc (Heeds Meets Steps unfold)

variable {α β : Type} {out : Port} {o : Output} {fails : String → α → Prop} {p p' q : Proc α}
  {s s' t : System} {got : List Item} {items items' : List (Item × System)} {h : Host}
  {es : List Event}

/-- The process goes on, up to this point, by whole writes to the port, with none of them refused.
It is done as soon as one is, and it fails for what the error says. -/
inductive Outline (out : Port) (fails : String → α → Prop) :
    Proc α → System → List (Item × System) → Proc α → System → Prop
  | refl {p : Proc α} {s : System} : Outline out fails p s [] p s
  | ask {r : Request} {next : r.Reply → Proc α} {x : r.Reply} {p' : Proc α} {s t s' : System}
      {items : List (Item × System)} (quiet : r.isWrite = false)
      (reply : r.perform? s = some (x, t)) (rest : Outline out fails (next x) t items p' s') :
      Outline out fails (.request r next) s items p' s'
  | send {item : Item} {f : Except PortError Unit → Proc α} {p' : Proc α} {s s' : System}
      {items : List (Item × System)} (solid : item.Solid)
      (stops : ∀ e, ∃ a, f (.error e) = .done a ∧ fails e.message a)
      (rest : Outline out fails (f (.ok ())) s items p' s') :
      Outline out fails ((out.send item).run.bind f) s ((item, s) :: items) p' s'
  | loop {ρ β : Type} {state : ρ} {body : ρ → Proc (ρ ⊕ β)} {next : β → Proc α} {p' : Proc α}
      {s s' : System} {items : List (Item × System)}
      (rest : Outline out fails (unfold state body next) s items p' s') :
      Outline out fails (.loop state body next) s items p' s'

inductive Halted : Proc α → System → Prop
  | done (a : α) (s : System) : Halted (.done a) s
  | waiting {r : Request} {next : r.Reply → Proc α} {s : System} (quiet : r.isWrite = false)
      (waits : r.perform? s = none) : Halted (.request r next) s

theorem Halted.bind {f : α → Proc β} (halted : Halted p s)
    (rest : ∀ a, p = .done a → Halted (f a) s) : Halted (p.bind f) s := by
  cases halted with
  | done a => exact rest a rfl
  | waiting quiet waits => exact .waiting quiet waits

theorem Halted.attempt (halted : Halted p s) : Halted p.attempt s := by
  cases halted with
  | done a => exact .done _ s
  | waiting quiet waits => exact .waiting quiet waits

theorem Halted.rests (halted : Halted p s) (got : List Item) :
    Rests (o.behind out) p ⟨s, got, none⟩ := by
  cases halted with
  | done a => exact .done
  | waiting quiet waits =>
    refine .waiting ?_
    rw [Output.behind_of_not_isWrite quiet, Scene.ask, waits]
    rfl

/-! ### How far the items come -/

inductive Delivery (τ : Type)
  | all
  | refused (e : PortError) (moment : τ)
  | waiting

def Delivery.map {τ τ' : Type} (f : τ → τ') : Delivery τ → Delivery τ'
  | all => all
  | refused e moment => refused e (f moment)
  | waiting => waiting

def deliver {τ : Type} (out : Port) (o : Output) :
    List Item → List (Item × τ) → Delivery τ × List Item
  | got, [] => (.all, got)
  | got, (item, moment) :: rest =>
    match out.answer? o got item with
    | some (.ok ()) => deliver out o (got ++ [item]) rest
    | some (.error e) => (.refused e moment, got)
    | none => (.waiting, got)

theorem deliver_map {τ τ' : Type} (f : τ → τ') (items : List (Item × τ)) :
    deliver out o got (items.map fun i => (i.1, f i.2)) =
      ((deliver out o got items).1.map f, (deliver out o got items).2) := by
  induction items generalizing got with
  | nil => rfl
  | cons i items ih =>
    rw [List.map_cons, deliver, deliver]
    split
    · exact ih
    · rfl
    · rfl

theorem deliver_congr {τ τ' : Type} {items : List (Item × τ)} {items' : List (Item × τ')}
    (same : items.map Prod.fst = items'.map Prod.fst) :
    (deliver out o got items).1.map (fun _ => ()) = (deliver out o got items').1.map (fun _ => ()) ∧
      (deliver out o got items).2 = (deliver out o got items').2 := by
  have bare : items.map (fun i => (i.1, ())) = items'.map fun i => (i.1, ()) := by
    have pairs := congrArg (List.map fun item => (item, ())) same
    rwa [List.map_map, List.map_map] at pairs
  have first := @deliver_map out o got _ _ (fun _ => ()) items
  have second := @deliver_map out o got _ _ (fun _ => ()) items'
  rw [bare, second] at first
  exact ⟨(congrArg Prod.fst first).symm, (congrArg Prod.snd first).symm⟩

theorem deliver_append {τ : Type} {items rest : List (Item × τ)} {got' : List Item}
    (all : deliver out o got items = (.all, got')) :
    deliver out o got (items ++ rest) = deliver out o got' rest := by
  induction items generalizing got with
  | nil =>
    cases all
    rfl
  | cons i items ih =>
    rw [deliver] at all
    rw [List.cons_append, deliver]
    rcases answer : out.answer? o got i.1 with _ | ⟨e | _⟩ <;> rw [answer] at all
    · cases all
    · cases all
    · exact ih all

def Limited (out : Port) (o : Output) (view : View) (room : ℕ) (e : PortError) : Prop :=
  ∀ got item, item.view = view →
    out.answer? o got item = some (if got.length < room then .ok () else .error e)

def Unlimited (out : Port) (o : Output) (view : View) : Prop :=
  ∀ got item, item.view = view → out.answer? o got item = some (.ok ())

section Deliver

variable {τ : Type} {view : View} {room : ℕ} {e : PortError}

def Output.taking (room : ℕ) (e : PortError) (step : WriteStep) : Output where
  answer got _ := some (if got.length < room then .ok () else .error e)
  step _ _ := step
  ticket got _ := got.length + 1

def Output.takingAll : Output where
  answer _ _ := some (.ok ())
  step _ _ := .settle
  ticket got _ := got.length + 1

theorem limited_taking (writable : out.canWrite view) (room : ℕ) (e : PortError)
    (step : WriteStep) : Limited out (.taking room e step) view room e := by
  intro got item kind
  rw [Port.answer?, kind, if_pos writable]
  rfl

theorem unlimited_takingAll (writable : out.canWrite view) : Unlimited out .takingAll view := by
  intro got item kind
  rw [Port.answer?, kind, if_pos writable]
  rfl

theorem limited_of_shut (shut : ¬ out.canWrite view) (o : Output) :
    Limited out o view 0 .closed := by
  intro got item kind
  rw [Port.answer?, kind, if_neg shut]
  rfl

theorem views_of_map {items : List (Item × τ)} {ws : List Item} (same : items.map Prod.fst = ws)
    (views : ∀ w ∈ ws, w.view = view) : ∀ i ∈ items, i.1.view = view := by
  intro i mem
  apply views
  rw [← same]
  exact List.mem_map_of_mem mem

theorem deliver_unlimited (unlimited : Unlimited out o view) {items : List (Item × τ)}
    (views : ∀ i ∈ items, i.1.view = view) :
    deliver out o got items = (.all, got ++ items.map Prod.fst) := by
  induction items generalizing got with
  | nil => simp [deliver]
  | cons i items ih =>
    obtain ⟨first, others⟩ := List.forall_mem_cons.1 views
    simp [deliver, unlimited got i.1 first, ih others]

theorem deliver_within (limited : Limited out o view room e) {items : List (Item × τ)}
    (views : ∀ i ∈ items, i.1.view = view) (fits : got.length + items.length ≤ room) :
    deliver out o got items = (.all, got ++ items.map Prod.fst) := by
  induction items generalizing got with
  | nil => simp [deliver]
  | cons i items ih =>
    obtain ⟨first, others⟩ := List.forall_mem_cons.1 views
    rw [List.length_cons] at fits
    have taken : got.length < room := by omega
    have rest := @ih (got ++ [i.1]) others (by simp; omega)
    simp [deliver, limited got i.1 first, taken, rest]

theorem deliver_beyond (limited : Limited out o view room e) {before after : List (Item × τ)}
    {item : Item} {moment : τ} (views : ∀ i ∈ before ++ (item, moment) :: after, i.1.view = view)
    (full : got.length + before.length = room) :
    deliver out o got (before ++ (item, moment) :: after) =
      (.refused e moment, got ++ before.map Prod.fst) := by
  obtain ⟨others, here⟩ := List.forall_mem_append.1 views
  have kind : item.view = view := here (item, moment) List.mem_cons_self
  have none : ¬ (got ++ before.map Prod.fst).length < room := by simp [← full]
  rw [deliver_append (deliver_within limited others full.le), deliver, limited _ item kind,
    if_neg none]

end Deliver

def Comes (m : Replies Scene) (fails : String → α → Prop) (p : Proc α) (σ : Scene) (p' : Proc α)
    (s' : System) : Delivery System × List Item → Prop
  | (.all, got) => ∃ n es, Accepted es ∧ Goes m n p σ es p' ⟨s', got, none⟩
  | (.refused e t, got) => ∃ n es a begun, fails e.message a ∧ Ceases es ∧
      Goes m n p σ es (.done a) ⟨t, got, begun⟩
  | (.waiting, got) => ∃ n es r next t begun, Goes m n p σ es (.request r next) ⟨t, got, begun⟩ ∧
      m ⟨t, got, begun⟩ r = none

theorem Comes.after {m : Replies Scene} {n : ℕ} {σ τ : Scene} {d : Delivery System × List Item}
    (clean : Accepted es) (first : Goes m n p σ es q τ) (rest : Comes m fails q τ p' s' d) :
    Comes m fails p σ p' s' d := by
  obtain ⟨d, received⟩ := d
  cases d with
  | all =>
    obtain ⟨k, es', clean', goes⟩ := rest
    exact ⟨n + k, es ++ es', accepted_append clean clean', first.trans goes⟩
  | refused e t =>
    obtain ⟨k, es', a, begun, failed, ceases, goes⟩ := rest
    exact ⟨n + k, es ++ es', a, begun, failed, clean.ceases_append ceases, first.trans goes⟩
  | waiting =>
    obtain ⟨k, es', r, next, t, begun, goes, waits⟩ := rest
    exact ⟨n + k, es ++ es', r, next, t, begun, first.trans goes, waits⟩

theorem refusal?_of_not_isWrite {r : Request} (quiet : r.isWrite = false) (x : r.Reply) :
    r.refusal? x = none := by
  cases r <;> first | rfl | cases quiet

theorem Outline.comes (outline : Outline out fails p s items p' s') (o : Output)
    (got : List Item) : Comes (o.behind out) fails p ⟨s, got, none⟩ p' s'
      (deliver out o got items) := by
  induction outline generalizing got with
  | refl => exact ⟨0, [], accepted_nil, .refl⟩
  | @ask r next x p' s t s' items quiet reply _ ih =>
    have answer : o.behind out ⟨s, got, none⟩ r = some (x, ⟨t, got, none⟩) := by
      rw [Output.behind_of_not_isWrite quiet, Scene.ask, reply]
      rfl
    have clean : Accepted [.asked r x] := .cons (refusal?_of_not_isWrite quiet x) accepted_nil
    exact Comes.after clean (.request answer .refl) (ih got)
  | @send item f p' s s' items solid stops _ ih =>
    rw [deliver]
    split
    · next taken =>
      obtain ⟨n, es, clean, goes⟩ := Port.goes_send solid taken
      exact Comes.after clean (goes.bind f) (ih (got ++ [item]))
    · next e refused =>
      obtain ⟨n, es, e', begun, message, ceases, goes⟩ := Port.goes_send_refused solid refused
      obtain ⟨a, stop, failed⟩ := stops e'
      have goes := goes.bind f
      rw [Proc.bind, stop] at goes
      exact ⟨n, es, a, begun, message ▸ failed, ceases, goes⟩
    · next waits =>
      obtain ⟨n, es, r, next, begun, goes, waits⟩ := Port.exists_waiting solid waits
      exact ⟨n, es, r, _, s, begun, goes.bind f, waits⟩
  | loop _ ih => exact Comes.after accepted_nil (.loop .refl) (ih got)

theorem Outline.exists_before {k : ℕ} {item : Item} (outline : Outline out fails p s items p' s')
    (here : items[k]? = some (item, t)) :
    ∃ f, Outline out fails p s (items.take k) ((out.send item).run.bind f) t := by
  induction outline generalizing k with
  | refl => cases here
  | ask quiet reply _ ih =>
    obtain ⟨f, before⟩ := ih here
    exact ⟨f, .ask quiet reply before⟩
  | @send _ f _ _ _ _ solid stops _ ih =>
    cases k with
    | zero =>
      cases here
      exact ⟨f, .refl⟩
    | succ k =>
      obtain ⟨f, before⟩ := ih here
      exact ⟨f, .send solid stops before⟩
  | loop _ ih =>
    obtain ⟨f, before⟩ := ih here
    exact ⟨f, .loop before⟩

theorem Outline.goes_on {view : View} (outline : Outline out fails p s items p' s')
    (unlimited : Unlimited out o view) (views : ∀ i ∈ items, i.1.view = view) :
    ∃ n es, Goes (o.behind out) n p { system := s } es p' ⟨s', items.map Prod.fst, none⟩ := by
  have comes := outline.comes o []
  rw [deliver_unlimited unlimited views] at comes
  obtain ⟨n, es, -, goes⟩ := comes
  exact ⟨n, es, goes⟩

def ComesToWrite (o : Output) (out : Port) (p : Proc α) (s : System) (item : Item) (σ : Scene) :
    Prop := ∃ n es f, Goes (o.behind out) n p { system := s } es ((out.send item).run.bind f) σ

theorem Outline.comesToWrite {view : View} {k : ℕ} {item : Item}
    (outline : Outline out fails p s items p' s') (unlimited : Unlimited out o view)
    (views : ∀ i ∈ items, i.1.view = view) (here : items[k]? = some (item, t)) :
    ComesToWrite o out p s item ⟨t, (items.map Prod.fst).take k, none⟩ := by
  obtain ⟨f, before⟩ := outline.exists_before here
  obtain ⟨n, es, goes⟩ :=
    before.goes_on unlimited fun i mem => views i (List.mem_of_mem_take mem)
  rw [List.map_take] at goes
  exact ⟨n, es, f, goes⟩

/-! ### Outlines of compound processes -/

namespace Outline

theorem trans (first : Outline out fails p s items q t)
    (rest : Outline out fails q t items' p' s') :
    Outline out fails p s (items ++ items') p' s' := by
  induction first with
  | refl => exact rest
  | ask quiet reply _ ih => exact .ask quiet reply (ih rest)
  | send solid stops _ ih => exact .send solid stops (ih rest)
  | loop _ ih => exact .loop (ih rest)

theorem bind {fails' : String → β → Prop} {f : α → Proc β}
    (first : Outline out fails p s items p' s')
    (passes : ∀ m a, fails m a → ∃ b, f a = .done b ∧ fails' m b) :
    Outline out fails' (p.bind f) s items (p'.bind f) s' := by
  induction first with
  | refl => exact .refl
  | ask quiet reply _ ih => exact .ask quiet reply ih
  | send solid stops _ ih =>
    rw [Proc.bind_assoc]
    refine .send solid ?_ ih
    intro e
    obtain ⟨a, stop, failed⟩ := stops e
    rw [stop]
    exact passes e.message a failed
  | loop _ ih =>
    rw [Proc.unfold_bind] at ih
    exact .loop ih

theorem attempt_send (item : Item) :
    (out.send item).run.attempt = (out.send item).run.bind fun x => .done (.returned x) := by
  by_cases opened : out.canWrite item.view
  · cases item with
    | value v =>
      obtain ⟨c, writing⟩ := Port.exists_channel opened
      rw [Port.send, writing]
      refine congrArg (Proc.request (.offer c v)) (funext fun x => ?_)
      cases x <;> rfl
    | bytes b =>
      obtain ⟨w, writing⟩ := Port.exists_stream opened
      rw [Port.send, writing]
      cases b with
      | nil => rfl
      | cons x b =>
        refine congrArg (Proc.request (.offerBytes w (x :: b))) (funext fun x => ?_)
        cases x with
        | error message => rfl
        | ok ticket =>
          refine congrArg (Proc.request (.settleBytes w ticket)) (funext fun x => ?_)
          cases x <;> rfl
  · rw [Port.send_shut opened]
    rfl

theorem attempt (outline : Outline out fails p s items p' s') :
    Outline out (fun m o => ∃ a, o = .returned a ∧ fails m a) p.attempt s items p'.attempt s' := by
  induction outline with
  | refl => exact .refl
  | ask quiet reply _ ih => exact .ask quiet reply ih
  | send solid stops _ ih =>
    rw [Proc.attempt_bind, attempt_send, Proc.bind_assoc]
    refine .send solid ?_ ih
    intro e
    obtain ⟨a, stop, failed⟩ := stops e
    exact ⟨.returned a, congrArg Proc.attempt stop, a, rfl, failed⟩
  | loop _ ih =>
    rw [Proc.attempt_unfold] at ih
    exact .loop ih

theorem of_steps {fails' : PortError → α → Prop}
    (heeds : Heeds (fun r => r.isWrite = false) fails' none p) (steps : Steps h p s es p' s') :
    Outline out fails p s [] p' s' := by
  induction steps with
  | refl => exact .refl
  | head step _ ih =>
    cases heeds with
    | done a => cases step
    | @request _ _ _ r next asks _ rest =>
      cases step with
      | @request _ _ _ _ _ x reply =>
        have quiet : r.isWrite = false := asks.resolve_right nofun
        have none : r.due? x = none := by cases r <;> first | rfl | cases quiet
        have rest := rest x
        rw [none] at rest
        exact .ask quiet reply (ih rest)
    | loop turn broken rest =>
      cases step with
      | loop => exact .loop (ih (.unfold turn broken rest))

theorem of_meets {fails' : PortError → α → Prop} {post : α → System → Prop}
    (heeds : Heeds (fun r => r.isWrite = false) fails' none p) (meets : Meets h p s post) :
    ∃ a s', post a s' ∧ Outline out fails p s [] (.done a) s' := by
  obtain ⟨es, a, s', ⟨q, steps, outcome⟩, holds⟩ := meets.exists_runs
  have same : q = .done a := by
    cases q <;> cases outcome
    rfl
  exact ⟨a, s', holds, of_steps heeds (same ▸ steps)⟩

end Outline

end Conduit
