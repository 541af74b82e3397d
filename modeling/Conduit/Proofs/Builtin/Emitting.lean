import Conduit.Proofs.Builtin.Feeding
import Conduit.Proofs.System.Pending

/-!
What the builtins write in outline that take their values from arguments or from their input, and
how far they have read when they write it.
-/

namespace Conduit

open Proc (Heeds)

variable {α β ρ : Type} {out : Port} {o : Output} {fails : String → α → Prop} {p p' : Proc α}
  {s s' t : System} {items items' : List (Item × System)} {ctx : Context} {args : List Value}
  {vs : List Value} {v : Value}

def Never (_ : String) (_ : α) : Prop := False

def Reads (out : Port) (p : Proc α) (s : System) (post : α → System → Prop) : Prop :=
  ∃ p' t, Outline out Never p s [] p' t ∧ Halted p' t ∧ ∀ a, p' = .done a → post a t

section Reads

variable {post : α → System → Prop}

theorem Reads.of_done {a : α} (outline : Outline out Never p s [] (.done a) t) (holds : post a t) :
    Reads out p s post := by
  refine ⟨.done a, t, outline, .done a t, fun b same => ?_⟩
  cases same
  exact holds

theorem Reads.of_waiting {r : Request} {next : r.Reply → Proc α} (quiet : r.isWrite = false)
    (waits : r.perform? s = none) : Reads out (.request r next) s post := by
  refine ⟨_, s, .refl, .waiting quiet waits, fun a same => ?_⟩
  cases same

end Reads

namespace Outline

theorem run_bind {x : Effect α} {next : α → Effect β} {a : α} {p' : Proc (Except BuiltinError β)}
    (first : Outline out ErrsWith x.run s items (.done (.ok a)) t)
    (rest : Outline out ErrsWith (next a).run t items' p' s') :
    Outline out ErrsWith (x >>= next).run s (items ++ items') p' s' := by
  have bound : Outline out ErrsWith (x >>= next).run s items (next a).run t := by
    apply first.bind
    rintro message _ ⟨e, rfl, text⟩
    exact ⟨_, rfl, e, rfl, text⟩
  exact bound.trans rest

theorem signal {a : Effect Unit} {p' : Proc (Except BuiltinError Unit)}
    (outline : Outline out ErrsWith a.run s items p' s') :
    Outline out FailsFor a.signal s items (p'.bind fun r => .done (Signal.ofResult r)) s' := by
  apply outline.bind
  rintro message _ ⟨e, rfl, rfl⟩
  exact ⟨_, rfl, rfl⟩

theorem call {b : Builtin} {p p' : Proc Signal} (accepted : b.signature.accepts args.length)
    (started : b.invoke? ctx args = some p) (outline : Outline out FailsFor p s items p' s') :
    Outline out FailsFor (b.call ctx args) s items
      (p'.attempt.bind fun o => .done (b.settle o)) s' := by
  rw [Builtin.call, if_pos accepted, started]
  apply outline.attempt.bind
  rintro message _ ⟨r, rfl, failed⟩
  exact ⟨_, rfl, failed⟩

/-! ### Turns of a loop -/

def afterTurn (body : ρ → Proc (ρ ⊕ α)) : ρ ⊕ α → Proc α
  | .inl y => Proc.iterate y body
  | .inr a => .done a

theorem loop_bind {body : ρ → Proc (ρ ⊕ α)} {x : ρ}
    (first : Outline out fails ((body x).bind (afterTurn body)) s items p' s') :
    Outline out fails (Proc.iterate x body) s items p' s' := by
  have same : Proc.unfold x body .done = (body x).bind (afterTurn body) :=
    congrArg (Proc.bind (body x)) (funext fun y => by cases y <;> rfl)
  apply Outline.loop
  rwa [same]

theorem turn {body : ρ → Proc (ρ ⊕ α)} {x : ρ} {p' : Proc (ρ ⊕ α)}
    (turn : Outline out (fun m y => ∃ a, y = .inr a ∧ fails m a) (body x) s items p' s') :
    Outline out fails (Proc.iterate x body) s items (p'.bind (afterTurn body)) s' := by
  apply loop_bind
  apply turn.bind
  rintro message _ ⟨a, rfl, failed⟩
  exact ⟨a, rfl, failed⟩

/-! ### Effects -/

theorem emit (v : Value) :
    Outline ctx.output ErrsWith (Effect.emit ctx v).run s [(.value v, s)] (.done (.ok ())) s := by
  have sent : Outline ctx.output ErrsWith ((ctx.output.send (.value v)).run.bind fun x =>
      .done (x.mapError BuiltinError.port)) s [(.value v, s)] (.done (.ok ())) s := by
    refine .send trivial ?_ .refl
    intro e
    exact ⟨_, rfl, _, rfl, rfl⟩
  exact sent

theorem writeText {text : String} (some : Utf8.encode text ≠ []) :
    Outline ctx.output ErrsWith (Effect.writeText ctx text).run s
      [(.bytes (Utf8.encode text), s)] (.done (.ok ())) s := by
  have sent : Outline ctx.output ErrsWith ((ctx.output.send (.bytes (Utf8.encode text))).run.bind
      fun x => .done (x.mapError BuiltinError.port)) s [(.bytes (Utf8.encode text), s)]
      (.done (.ok ())) s := by
    refine .send some ?_ .refl
    intro e
    exact ⟨_, rfl, _, rfl, rfl⟩
  exact sent

theorem emitAll (vs : List Value) : Outline ctx.output ErrsWith (Effect.emitAll ctx vs).run s
    (vs.map fun v => (.value v, s)) (.done (.ok ())) s := by
  induction vs with
  | nil => exact .refl
  | cons v vs ih => exact run_bind (emit v) ih

end Outline

/-! ### What comes to the output -/

def Delivery.signal? {τ : Type} (x : Option Signal) : Delivery τ → Option Signal
  | all => x
  | refused e _ => some (.failure e.message)
  | waiting => none

theorem Delivery.signal?_map {τ τ' : Type} (f : τ → τ') (x : Option Signal) (d : Delivery τ) :
    (d.map f).signal? x = d.signal? x := by
  cases d <;> rfl

theorem Outline.brings {p q : Proc Signal} {x : Option Signal}
    (outline : Outline out FailsFor p s items q t) (halted : Halted q t)
    (ends : ∀ r, x = some r ↔ q = .done r) (o : Output) :
    Brings (o.behind out) p s (deliver out o [] items).2
      ((deliver out o [] items).1.signal? x) := by
  have comes := outline.comes o []
  generalize deliver out o [] items = d at comes
  obtain ⟨d, got⟩ := d
  cases d with
  | all =>
    obtain ⟨n, es, -, goes⟩ := comes
    exact .of_rests goes rfl (halted.rests got) ends
  | refused e moment =>
    obtain ⟨n, es, a, begun, failed, -, goes⟩ := comes
    cases failed
    exact ⟨n, es, _, goes, rfl⟩
  | waiting =>
    obtain ⟨n, es, r, next, u, begun, goes, waits⟩ := comes
    exact ⟨n, es, r, next, _, goes, waits, rfl⟩

theorem done_iff (r : Signal) (r' : Signal) : some r = some r' ↔ Proc.done r = .done r' := by
  simp

theorem Outline.alike {p q : Proc Signal} {x : Option Signal}
    (outline : Outline out FailsFor p s items q t) (halted : Halted q t)
    (ends : ∀ r, x = some r ↔ q = .done r) (same : items.map Prod.fst = items'.map Prod.fst)
    (o : Output) :
    Brings (o.behind out) p s (deliver out o [] items').2
      ((deliver out o [] items').1.signal? x) := by
  obtain ⟨became, received⟩ := @deliver_congr out o [] _ _ _ _ same
  have signals := congrArg (Delivery.signal? x) became
  rw [Delivery.signal?_map, Delivery.signal?_map] at signals
  rw [← received, ← signals]
  exact outline.brings halted ends o

/-! ### Input values -/

namespace Outline

theorem takes_valuesIn {e : ChannelEnd} (s : System) (v : Value) (vs : List Value)
    (waiting : s.valuesIn e = v :: vs) :
    ∃ t, t.valuesIn e = vs ∧ Outline out Never e.take s [] (.done (some v)) t := by
  cases e with
  | reading c =>
    obtain ⟨ch, here, queue⟩ := System.exists_channel_of_valuesIn waiting
    let rest : Channel Value := { ch with queue := vs, taken := ch.taken + 1 }
    have took : (Request.take c).perform? s = some (some v, s.onChannel c fun _ => rest) := by
      simp [Request.perform?, System.takeValue?, here, Channel.take?, queue, rest]
    refine ⟨s.onChannel c fun _ => rest, ?_, .ask rfl took .refl⟩
    simp [System.valuesIn, System.onChannel, Array.getElem?_modify, here, rest]
  | closed => cases waiting
  | writing c => cases waiting

theorem take_left {e : ChannelEnd} (left : s.LeftToRead e vs) :
    ∃ t, t.LeftToRead e vs.tail ∧ Outline out Never e.take s [] (.done vs.head?) t := by
  have heeds : Heeds (fun r => r.isWrite = false) Unfailing none e.take :=
    ChannelEnd.heeds_take fun _ _ => rfl
  have meets := ChannelEnd.meets_take (h := .none) left
  obtain ⟨_, t, ⟨rfl, left', -⟩, outline⟩ := of_meets heeds meets
  exact ⟨t, left', outline⟩

theorem takes_left {e : ChannelEnd} (s : System) (v : Value) (vs : List Value)
    (left : s.LeftToRead e (v :: vs)) :
    ∃ t, t.LeftToRead e vs ∧ Outline out Never e.take s [] (.done (some v)) t := take_left left

theorem take_nil {e : ChannelEnd} (empty : s.valuesIn e = []) :
    Reads out e.take s fun x _ => x = none := by
  cases e with
  | closed => exact .of_done .refl rfl
  | writing c => exact .of_done .refl rfl
  | reading c =>
    cases take : s.takeValue? c with
    | none => exact .of_waiting rfl take
    | some y => exact .of_done (.ask rfl take .refl) (System.taken_of_empty empty take)

variable {act : Value → Effect Unit}

def afterTake (ctx : Context) (act : Value → Effect Unit) :
    Option Value → Proc (Except BuiltinError Unit)
  | none => .done (.ok ())
  | some v => (act v).run.bind fun
    | .ok () => (Effect.forInput ctx act).run
    | .error e => .done (.error e)

theorem withTaken_afterTurn (ctx : Context) (act : Value → Effect Unit) (x : Option Value) :
    (Effect.withTaken act x).bind (afterTurn fun () => Effect.inputTurn ctx act) =
      afterTake ctx act x := by
  cases x with
  | none => rfl
  | some v =>
    refine (Proc.bind_assoc ..).trans (congrArg (Proc.bind (act v).run) (funext fun r => ?_))
    cases r <;> rfl

theorem forInput_take {p' : Proc (Option Value)}
    (taken : Outline out Never ctx.input.channel.take s [] p' t) :
    Outline out ErrsWith (Effect.forInput ctx act).run s [] (p'.bind (afterTake ctx act)) t := by
  have first : Outline out EndsWith (Effect.inputTurn ctx act) s []
      (p'.bind (Effect.withTaken act)) t := by
    rw [Effect.inputTurn_eq]
    exact taken.bind nofun
  have whole : Outline out ErrsWith (Effect.forInput ctx act).run s []
      ((p'.bind (Effect.withTaken act)).bind (afterTurn fun () => Effect.inputTurn ctx act)) t :=
    turn first
  simpa only [Proc.bind_assoc, withTaken_afterTurn] using whole

theorem forInput_goes_on (taken : Outline out Never ctx.input.channel.take s [] (.done (some v)) t)
    (acts : Outline out ErrsWith (act v).run t items (.done (.ok ())) s') :
    Outline out ErrsWith (Effect.forInput ctx act).run s items
      (Effect.forInput ctx act).run s' := by
  have bound : Outline out ErrsWith (afterTake ctx act (some v)) t items
      (Effect.forInput ctx act).run s' := by
    apply acts.bind
    rintro message _ ⟨e, rfl, text⟩
    exact ⟨_, rfl, e, rfl, text⟩
  exact (forInput_take taken).trans bound

theorem forInput_stops {e : BuiltinError}
    (taken : Outline out Never ctx.input.channel.take s [] (.done (some v)) t)
    (acts : Outline out ErrsWith (act v).run t items (.done (.error e)) s') :
    Outline out ErrsWith (Effect.forInput ctx act).run s items (.done (.error e)) s' := by
  have bound : Outline out ErrsWith (afterTake ctx act (some v)) t items (.done (.error e)) s' := by
    apply acts.bind
    rintro message _ ⟨e, rfl, text⟩
    exact ⟨_, rfl, e, rfl, text⟩
  exact (forInput_take taken).trans bound

theorem forInput_ends (left : s.LeftToRead ctx.input.channel []) :
    ∃ t, Outline out ErrsWith (Effect.forInput ctx act).run s [] (.done (.ok ())) t := by
  obtain ⟨t, -, taken⟩ := take_left left
  exact ⟨t, forInput_take taken⟩

theorem forInput_halts (empty : s.valuesIn ctx.input.channel = []) : ∃ p' t,
    Outline out ErrsWith (Effect.forInput ctx act).run s [] p' t ∧ Halted p' t := by
  obtain ⟨p', t, taken, halted, ended⟩ := take_nil empty
  refine ⟨_, t, forInput_take taken, halted.bind ?_⟩
  intro x same
  rw [ended x same]
  exact .done _ t

/-! ### The loop over input values -/

def Reading (Left : System → List Value → Prop) (made : Value → List Item) (vs : List Value)
    (k : ℕ) (t : System) : Prop :=
  ∃ before v after, vs = before ++ v :: after ∧ (before.flatMap made).length ≤ k ∧
    k < (before.flatMap made).length + (made v).length ∧ Left t after

theorem Reading.cons {Left : System → List Value → Prop} {made : Value → List Item} {k : ℕ}
    (reading : Reading Left made vs (k - (made v).length) t) (past : (made v).length ≤ k) :
    Reading Left made (v :: vs) k t := by
  obtain ⟨before, w, after, rfl, first, last, left⟩ := reading
  refine ⟨v :: before, w, after, rfl, ?_, ?_, left⟩
  · rw [List.flatMap_cons, List.length_append]
    omega
  · rw [List.flatMap_cons, List.length_append]
    omega

theorem forInput_outline {Left : System → List Value → Prop} {made : Value → List Item}
    {ends : Proc (Except BuiltinError Unit) → System → Prop}
    (takes : ∀ s v vs, Left s (v :: vs) →
      ∃ t, Left t vs ∧ Outline out Never ctx.input.channel.take s [] (.done (some v)) t)
    (front back : List Value)
    (acts : ∀ v ∈ front, ∀ t,
      Outline out ErrsWith (act v).run t ((made v).map (·, t)) (.done (.ok ())) t)
    (stops : ∀ t, Left t back →
      ∃ q u, Outline out ErrsWith (Effect.forInput ctx act).run t [] q u ∧ ends q u)
    (left : Left s (front ++ back)) :
    ∃ items q u, items.map Prod.fst = front.flatMap made ∧
      Outline out ErrsWith (Effect.forInput ctx act).run s items q u ∧ ends q u ∧
      ∀ k item t, items[k]? = some (item, t) → Reading Left made (front ++ back) k t := by
  induction front generalizing s with
  | nil =>
    obtain ⟨q, u, outline, ends⟩ := stops s left
    exact ⟨[], q, u, rfl, outline, ends, nofun⟩
  | cons v front ih =>
    obtain ⟨first, others⟩ := List.forall_mem_cons.1 acts
    obtain ⟨t, left', taken⟩ := takes s v (front ++ back) left
    obtain ⟨items, q, u, written, outline, ends, reading⟩ := ih others left'
    refine ⟨(made v).map (·, t) ++ items, q, u, ?_,
      (forInput_goes_on taken (first t)).trans outline, ends, ?_⟩
    · simp [written, Function.comp_def]
    · intro k item u here
      -- The first items are those of `v`; the others were counted from the value after it.
      by_cases inside : k < (made v).length
      · rw [List.getElem?_append_left (by simpa using inside), List.getElem?_map] at here
        obtain ⟨_, -, same⟩ := Option.map_eq_some_iff.1 here
        cases same
        exact ⟨[], v, front ++ back, rfl, Nat.zero_le k, by simpa using inside, left'⟩
      · rw [List.getElem?_append_right (by simpa using inside), List.length_map] at here
        exact (reading _ _ _ here).cons (Nat.le_of_not_lt inside)

/-! ### Calls -/

theorem call_done {b : Builtin} {p : Proc Signal} {r : Signal}
    (accepted : b.signature.accepts args.length) (started : b.invoke? ctx args = some p)
    (outline : Outline out FailsFor p s items (.done r) s') :
    Outline out FailsFor (b.call ctx args) s items (.done r) s' :=
  outline.call accepted started

theorem call_halts {b : Builtin} {a : Effect Unit} {p' : Proc (Except BuiltinError Unit)}
    (accepted : b.signature.accepts args.length) (started : b.invoke? ctx args = some a.signal)
    (outline : Outline out ErrsWith a.run s items p' s') (halted : Halted p' s') :
    ∃ q, Outline out FailsFor (b.call ctx args) s items q s' ∧ Halted q s' := by
  refine ⟨_, outline.signal.call accepted started, Halted.bind ?_ fun o _ => .done _ s'⟩
  apply Halted.attempt
  exact halted.bind fun r _ => .done _ s'

theorem put (args : List Value) : Outline ctx.output FailsFor (Emitter.put.builtin.call ctx args) s
    (args.map fun v => (.value v, s)) (.done .ok) s :=
  call_done rfl rfl (signal (emitAll args))

theorem accepts_putAll (args : List Value) :
    Emitter.putAll.builtin.signature.accepts args.length := by
  simp [Emitter.builtin, Builtin.variadic, Signature.accepts, Signature.isVariadic]

theorem invoke?_putAll (ctx : Context) (args : List Value) :
    Emitter.putAll.builtin.invoke? ctx args =
    (args.mapM Builtin.ofList.coerce?).map (Builtin.putAll ctx) := rfl

theorem gives_lists (lists : List (List Value)) :
    List.Forall₂ Builtin.ofList.Gives (lists.map .list) lists := by
  induction lists with
  | nil => exact .nil
  | cons items lists ih => exact .cons rfl ih

theorem putAll (lists : List (List Value)) : Outline ctx.output FailsFor
    (Emitter.putAll.builtin.call ctx (lists.map .list)) s
    (lists.flatten.map fun v => (.value v, s)) (.done .ok) s :=
  have started : Emitter.putAll.builtin.invoke? ctx (lists.map .list) =
      some (Builtin.putAll ctx lists) := by
    rw [invoke?_putAll, mapM_coerce?_eq_some_iff.2 (gives_lists lists)]
    rfl
  call_done (accepts_putAll _) started (signal (emitAll lists.flatten))

end Outline

end Conduit
