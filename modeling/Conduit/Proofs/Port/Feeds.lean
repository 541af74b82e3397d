import Conduit.Proofs.Port.Outline

/-!
Processes that know their output by nothing but the items that they write to it.  What such a
process writes to one port, and what it reads meanwhile, is what it would write to any other, up to
the first item that is refused.
-/

namespace Conduit

open Proc (Heeds unfold)

variable {α β ρ : Type} {may : Request → Prop} {view : View} {fails : String → α → Prop}
  {P : Port → Proc α}

/-- A process for each port: it writes whole items of the view to the port, whatever the port is,
and is done as soon as one is refused.  All else that it does is to make requests that it may
make. -/
inductive Feeds (may : Request → Prop) (view : View) :
    {α : Type} → (String → α → Prop) → (Port → Proc α) → Prop
  | done {α : Type} {fails : String → α → Prop} (a : α) : Feeds may view fails fun _ => .done a
  | ask {α : Type} {fails : String → α → Prop} {r : Request} {next : r.Reply → Port → Proc α}
      (asks : may r) (rest : ∀ x, Feeds may view fails (next x)) :
      Feeds may view fails fun out => .request r fun x => next x out
  | send {α : Type} {fails : String → α → Prop} {item : Item}
      {f : Except PortError Unit → Port → Proc α} (kind : item.view = view) (solid : item.Solid)
      (stops : ∀ e, ∃ a, (∀ out, f (.error e) out = .done a) ∧ fails e.message a)
      (rest : Feeds may view fails (f (.ok ()))) :
      Feeds may view fails fun out => (out.send item).run.bind fun x => f x out
  | loop {ρ β α : Type} {fails : String → α → Prop} {breaks : String → β → Prop} {state : ρ}
      {body : ρ → Port → Proc (ρ ⊕ β)} {next : β → Port → Proc α}
      (turn : ∀ x, Feeds may view (fun m y => ∃ b, y = .inr b ∧ breaks m b) (body x))
      (broken : ∀ m b, breaks m b → ∃ a, (∀ out, next b out = .done a) ∧ fails m a)
      (rest : ∀ b, Feeds may view fails (next b)) :
      Feeds may view fails fun out => .loop state (fun x => body x out) fun b => next b out

namespace Feeds

theorem bind {fails' : String → β → Prop} {F : α → Port → Proc β} (first : Feeds may view fails P)
    (passes : ∀ m a, fails m a → ∃ b, (∀ out, F a out = .done b) ∧ fails' m b)
    (rest : ∀ a, Feeds may view fails' (F a)) :
    Feeds may view fails' fun out => (P out).bind fun a => F a out := by
  induction first with
  | done a => exact rest a
  | ask asks _ ih => exact .ask asks fun x => ih x passes rest
  | send kind solid stops _ ih =>
    simp only [Proc.bind_assoc]
    refine .send kind solid ?_ (ih passes rest)
    intro e
    obtain ⟨a, stop, failed⟩ := stops e
    obtain ⟨b, stop', failed'⟩ := passes e.message a failed
    refine ⟨b, fun out => ?_, failed'⟩
    exact (congrArg (Proc.bind · fun a => F a out) (stop out)).trans (stop' out)
  | loop turn broken _ _ ih =>
    refine .loop turn ?_ fun b => ih b passes rest
    intro m b breaks
    obtain ⟨a, stop, failed⟩ := broken m b breaks
    obtain ⟨b', stop', failed'⟩ := passes m a failed
    refine ⟨b', fun out => ?_, failed'⟩
    exact (congrArg (Proc.bind · fun a => F a out) (stop out)).trans (stop' out)

theorem map {fails' : String → β → Prop} (first : Feeds may view fails P) {f : α → β}
    (passes : ∀ m a, fails m a → fails' m (f a)) :
    Feeds may view fails' fun out => (P out).bind fun a => .done (f a) :=
  first.bind (fun m a failed => ⟨f a, fun _ => rfl, passes m a failed⟩) fun a => .done (f a)

theorem unfold {breaks : String → β → Prop} {state : ρ} {body : ρ → Port → Proc (ρ ⊕ β)}
    {next : β → Port → Proc α}
    (turn : ∀ x, Feeds may view (fun m y => ∃ b, y = .inr b ∧ breaks m b) (body x))
    (broken : ∀ m b, breaks m b → ∃ a, (∀ out, next b out = .done a) ∧ fails m a)
    (rest : ∀ b, Feeds may view fails (next b)) :
    Feeds may view fails fun out => Proc.unfold state (fun x => body x out) fun b => next b out := by
  let F : ρ ⊕ β → Port → Proc α := fun x out =>
    match x with
    | .inl state => .loop state (fun x => body x out) fun b => next b out
    | .inr b => next b out
  have whole : Feeds may view fails fun out => (body state out).bind fun x => F x out := by
    refine (turn state).bind ?_ fun x => ?_
    · rintro m _ ⟨b, rfl, breaks⟩
      exact broken m b breaks
    · cases x with
      | inl state => exact .loop turn broken rest
      | inr b => exact rest b
  have same (out : Port) : (body state out).bind (fun x => F x out) =
      Proc.unfold state (fun x => body x out) fun b => next b out :=
    congrArg (Proc.bind (body state out)) (funext fun x => by cases x <;> rfl)
  simpa only [same] using whole

theorem iterate {state : ρ} {body : ρ → Port → Proc (ρ ⊕ α)}
    (turn : ∀ x, Feeds may view (fun m y => ∃ a, y = .inr a ∧ fails m a) (body x)) :
    Feeds may view fails fun out => Proc.iterate state fun x => body x out :=
  .loop turn (fun _ a failed => ⟨a, fun _ => rfl, failed⟩) .done

theorem attempt (feeds : Feeds may view fails P) :
    Feeds may view (fun m o => ∃ a, o = .returned a ∧ fails m a) fun out => (P out).attempt := by
  induction feeds with
  | done a => exact .done _
  | ask asks _ ih => exact .ask asks ih
  | @send α fails item f kind solid stops _ ih =>
    simp only [Proc.attempt_bind, Outline.attempt_send, Proc.bind_assoc]
    refine .send kind solid ?_ ih
    intro e
    obtain ⟨a, stop, failed⟩ := stops e
    exact ⟨.returned a, fun out => congrArg Proc.attempt (stop out), a, rfl, failed⟩
  | @loop ρ β α fails breaks state body next _ broken _ turn rest =>
    let F : Outcome β → Port → Proc (Outcome α) := fun o out =>
      Proc.whenReturned (fun b => (next b out).attempt) o
    have turns (x : ρ) : Feeds may view
        (fun m y => ∃ o, y = .inr o ∧ ∃ b, o = .returned b ∧ breaks m b)
        fun out => (body x out).attempt.bind fun o => .done (Proc.endTurn o) := by
      refine (turn x).map ?_
      rintro m _ ⟨_, rfl, b, rfl, breaks⟩
      exact ⟨_, rfl, b, rfl, breaks⟩
    have whole : Feeds may view (fun m o => ∃ a, o = .returned a ∧ fails m a) fun out =>
        .loop state (fun x => (body x out).attempt.bind fun o => .done (Proc.endTurn o))
          fun o => F o out := by
      refine .loop turns ?_ fun o => ?_
      · rintro m _ ⟨b, rfl, breaks⟩
        obtain ⟨a, stop, failed⟩ := broken m b breaks
        exact ⟨.returned a, fun out => congrArg Proc.attempt (stop out), a, rfl, failed⟩
      · cases o with
        | returned b => exact rest b
        | panicked message => exact .done _
    exact whole

theorem of_heeds {fails' : PortError → α → Prop} {p : Proc α} {due : Option Request}
    (none : due = none) (quiet : ∀ r, may r → r.isWrite = false) (heeds : Heeds may fails' due p) :
    Feeds may view fails fun _ => p := by
  induction heeds with
  | done a => exact .done a
  | @request _ _ _ r next asks _ _ ih =>
    subst none
    have asks : may r := asks.resolve_right nofun
    have silent := quiet r asks
    refine .ask asks fun x => ih x ?_
    cases r <;> first | rfl | cases silent
  | @loop ρ β α _ _ state body next _ _ _ _ turn rest =>
    have whole : Feeds may view fails fun _ => Proc.loop state (fun x => body x) fun b => next b := by
      have turns (x : ρ) : Feeds may view (fun _ y => ∃ b : β, y = .inr b ∧ False) fun _ => body x :=
        turn x rfl
      exact .loop turns nofun fun b => rest b rfl
    exact whole

theorem outline {o : Output} {n : ℕ} {s : System} {got : List Item} {es : List Event}
    {q : Proc α} {σ : Scene} {opened : Port} (feeds : Feeds may view fails P)
    (quiet : ∀ r, may r → r.isWrite = false) (unlimited : Unlimited opened o view)
    (goes : Goes (o.behind opened) n (P opened) ⟨s, got, none⟩ es q σ)
    (rests : Rests (o.behind opened) q σ) :
    ∃ (items : List (Item × System)) (Q : Port → Proc α), Q opened = q ∧
      σ.got = got ++ items.map Prod.fst ∧ (∀ i ∈ items, i.1.view = view) ∧
      (∀ out, Outline out fails (P out) s items (Q out) σ.system ∧ Halted (Q out) σ.system) ∧
      ∀ out a, Q out = .done a ↔ q = .done a := by
  -- The steps of a whole write are taken at once, so the induction is on how many are left.
  induction n using Nat.strong_induction_on generalizing P s got es with
  | _ n ih =>
    cases feeds with
    | done b =>
      obtain ⟨-, -, same, scene⟩ := goes.of_rests .done
      cases scene
      refine ⟨[], fun _ => .done b, same.symm, by simp, by simp, fun _ => ⟨.refl, .done b _⟩, ?_⟩
      intro out a
      rw [same]
    | @ask _ _ r next asks rest =>
      have silent := quiet r asks
      cases goes with
      | refl =>
        cases rests with
        | waiting waits =>
          rw [Output.behind_of_not_isWrite silent, Scene.ask, Option.map_eq_none_iff] at waits
          refine ⟨[], fun out => .request r fun x => next x out, rfl, by simp, by simp,
            fun out => ⟨.refl, .waiting silent waits⟩, fun out a => by simp only [reduceCtorEq]⟩
      | @request n _ _ x _ τ _ _ _ reply goes =>
        rw [Output.behind_of_not_isWrite silent] at reply
        obtain ⟨⟨y, t⟩, answer, same⟩ := Option.map_eq_some_iff.1 reply
        cases same
        obtain ⟨items, Q, same, received, views, outlines, done⟩ :=
          ih n n.lt_succ_self (rest x) goes
        refine ⟨items, Q, same, received, views, fun out => ?_, done⟩
        exact ⟨.ask silent answer (outlines out).1, (outlines out).2⟩
    | @send _ _ item f kind solid stops rest =>
      obtain ⟨m, es', -, sent⟩ := Port.goes_send (s := s) solid (unlimited got item kind)
      obtain ⟨le, es'', -, goes⟩ := (sent.bind fun x => f x opened).rest_of_steps goes rests
      obtain ⟨items, Q, same, received, views, outlines, done⟩ :=
        ih (n - (m + 1)) (by omega) rest goes
      refine ⟨(item, s) :: items, Q, same, ?_, ?_, fun out => ?_, done⟩
      · rw [received, List.append_assoc]
        rfl
      · exact List.forall_mem_cons.2 ⟨kind, views⟩
      · refine ⟨.send solid ?_ (outlines out).1, (outlines out).2⟩
        intro e
        obtain ⟨b, stop, failed⟩ := stops e
        exact ⟨b, stop out, failed⟩
    | loop turn broken rest =>
      cases goes with
      | refl => cases rests
      | @loop n _ _ _ _ _ _ _ _ _ goes =>
        obtain ⟨items, Q, same, received, views, outlines, done⟩ :=
          ih n n.lt_succ_self (.unfold turn broken rest) goes
        refine ⟨items, Q, same, received, views, fun out => ?_, done⟩
        exact ⟨.loop (outlines out).1, (outlines out).2⟩

end Feeds

/-! ### Two ways to be answered -/

section Alike

variable {σ τ : Type} {m : Replies σ} {m' : Replies τ} {out : Port}

inductive SentAlike (m : Replies σ) (m' : Replies τ) (Match Ends : σ → τ → Prop)
    (p : Proc (Except PortError Unit)) (x : σ) (y : τ) : Prop
  | taken {n : ℕ} {es : List Event} {x' : σ} {y' : τ}
      (first : Goes m (n + 1) p x es (.done (.ok ())) x')
      (second : Goes m' (n + 1) p y es (.done (.ok ())) y') (same : Match x' y') :
      SentAlike m m' Match Ends p x y
  | refused {n : ℕ} {es : List Event} {e : PortError} {x' : σ} {y' : τ}
      (first : Goes m n p x es (.done (.error e)) x')
      (second : Goes m' n p y es (.done (.error e)) y') (same : Ends x' y') :
      SentAlike m m' Match Ends p x y
  | waiting {n : ℕ} {es : List Event} {r : Request}
      {next : r.Reply → Proc (Except PortError Unit)} {x' : σ} {y' : τ}
      (first : Goes m n p x es (.request r next) x')
      (second : Goes m' n p y es (.request r next) y') (waits : m x' r = none)
      (waits' : m' y' r = none) (same : Ends x' y') : SentAlike m m' Match Ends p x y

structure Alike (m : Replies σ) (m' : Replies τ) (may : Request → Prop) (view : View) (out : Port)
    (Match Ends : σ → τ → Prop) : Prop where
  ends : ∀ x y, Match x y → Ends x y
  asks : ∀ x y r, Match x y → may r → (m x r = none ∧ m' y r = none) ∨
    ∃ a x' y', m x r = some (a, x') ∧ m' y r = some (a, y') ∧ Match x' y'
  sends : ∀ x y item, Match x y → item.view = view → item.Solid →
    SentAlike m m' Match Ends (out.send item).run x y

variable {Match Ends : σ → τ → Prop} {x x' : σ} {y : τ}

theorem SentAlike.request {r : Request} {next : r.Reply → Proc (Except PortError Unit)}
    {a : r.Reply} {y' : τ} (first : m x r = some (a, x')) (second : m' y r = some (a, y'))
    (rest : SentAlike m m' Match Ends (next a) x' y') :
    SentAlike m m' Match Ends (.request r next) x y := by
  cases rest with
  | taken goes goes' same => exact .taken (.request first goes) (.request second goes') same
  | refused goes goes' same => exact .refused (.request first goes) (.request second goes') same
  | waiting goes goes' waits waits' same =>
    exact .waiting (.request first goes) (.request second goes') waits waits' same

theorem SentAlike.symm {p : Proc (Except PortError Unit)} (sent : SentAlike m m' Match Ends p x y) :
    SentAlike m' m (fun y x => Match x y) (fun y x => Ends x y) p y x := by
  cases sent with
  | taken first second same => exact .taken second first same
  | refused first second same => exact .refused second first same
  | waiting first second waits waits' same => exact .waiting second first waits' waits same

theorem Alike.symm (alike : Alike m m' may view out Match Ends) :
    Alike m' m may view out (fun y x => Match x y) (fun y x => Ends x y) where
  ends y x same := alike.ends x y same
  asks y x r same asks := by
    rcases alike.asks x y r same asks with ⟨waits, waits'⟩ | ⟨a, x', y', reply, reply', same⟩
    · exact .inl ⟨waits', waits⟩
    · exact .inr ⟨a, y', x', reply', reply, same⟩
  sends y x item same kind solid := (alike.sends x y item same kind solid).symm

theorem Alike.follow (alike : Alike m m' may view out Match Ends) {n : ℕ} {es : List Event}
    {q : Proc α} (feeds : Feeds may view fails P) (same : Match x y)
    (goes : Goes m n (P out) x es q x') (rests : Rests m q x') :
    ∃ k y', Goes m' k (P out) y es q y' ∧ Rests m' q y' ∧ Ends x' y' := by
  -- The steps of a whole write are taken at once, so the induction is on how many are left.
  induction n using Nat.strong_induction_on generalizing P x y es with
  | _ n ih =>
    cases feeds with
    | done a =>
      obtain ⟨-, rfl, rfl, rfl⟩ := goes.of_rests .done
      exact ⟨0, y, .refl, .done, alike.ends _ _ same⟩
    | @ask _ _ r next asks rest =>
      cases goes with
      | refl =>
        rcases alike.asks _ y r same asks with ⟨-, waits⟩ | ⟨a, x', y', reply, -⟩
        · exact ⟨0, y, .refl, .waiting waits, alike.ends _ _ same⟩
        · cases rests with
          | waiting none => rw [none] at reply; cases reply
      | request answer goes =>
        rcases alike.asks x y r same asks with ⟨none, -⟩ | ⟨a, x', y', reply, reply', same⟩
        · rw [none] at answer; cases answer
        · rw [reply] at answer
          cases answer
          obtain ⟨k, y', goes', rests', same⟩ := ih _ (Nat.lt_succ_self _) (rest _) same goes
          exact ⟨k + 1, y', .request reply' goes', rests', same⟩
    | @send _ _ item f kind solid stops rest =>
      cases alike.sends x y item same kind solid with
      | @taken k _ _ _ first second same =>
        obtain ⟨le, es'', split, goes⟩ := (first.bind fun x => f x out).rest_of_steps goes rests
        obtain ⟨k', y', goes', rests', same⟩ := ih (n - (k + 1)) (by omega) rest same goes
        rw [split]
        exact ⟨_, y', (second.bind fun x => f x out).trans goes', rests', same⟩
      | @refused k _ e _ y' first second same =>
        obtain ⟨a, stop, -⟩ := stops e
        have first := first.bind fun x => f x out
        have second := second.bind fun x => f x out
        rw [Proc.bind, stop] at first second
        obtain ⟨rfl, rfl, rfl⟩ := first.unique .done goes rests
        exact ⟨k, y', second, .done, same⟩
      | @waiting k _ r next _ y' first second waits waits' same =>
        have first := first.bind fun x => f x out
        obtain ⟨rfl, rfl, rfl⟩ := first.unique (.waiting waits) goes rests
        exact ⟨k, y', second.bind fun x => f x out, .waiting waits', same⟩
    | loop turn broken rest =>
      cases goes with
      | refl => cases rests
      | loop goes =>
        obtain ⟨k, y', goes', rests', same⟩ :=
          ih _ (Nat.lt_succ_self _) (.unfold turn broken rest) same goes
        exact ⟨k + 1, y', .loop goes', rests', same⟩

end Alike

end Conduit
