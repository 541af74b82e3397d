import Conduit.Proofs.Pipeline.Turns

/-!
A stage that runs beside the others does what it does when it is its turn, one step after the other,
until it is done or one of its writes is refused.
-/

namespace Conduit

open Proc

def Context.Sends (ctx : Context) : View → Event → Prop
  | .values, .asked (.offer c _) (.ok _) => ctx.output.channel = .writing c
  | .bytes, .asked (.offerBytes w _) (.ok _) => ctx.output.stream = .writing w
  | _, _ => False

def Context.Ends (ctx : Context) : View → Event → Prop
  | .values, .asked (.take c) none => ctx.input.channel = .reading c
  | .bytes, .asked (.fill q) (.ok []) => ctx.input.stream = .reading q
  | _, _ => False

section Sends

variable {ctx : Context} {reads writes : View} {due : Option Request} {s s' t t' : System}
  {r d : Request} {x y : r.Reply} {e : PortError}

theorem sends_of_due? (uses : ctx.Uses reads writes r) (settles : r.due? x = some d) :
    ctx.Sends writes (.asked r x) := by
  cases r with
  | offer c v =>
    cases x with
    | ok ticket =>
      rcases uses with reading | writing
      · cases reads <;> cases reading
      · cases writes with
        | values => exact writing
        | bytes => cases writing
    | error => cases settles
  | offerBytes w bytes =>
    cases x with
    | ok ticket =>
      rcases uses with reading | writing
      · cases reads <;> cases reading
      · cases writes with
        | values => cases writing
        | bytes => exact writing.1
    | error => cases settles
  | _ => cases settles

theorem sends_of_cut (cut : Cut ctx s t writes) (act : ctx.Act reads writes due r)
    (targets : ∀ w, ctx.output.stream = .writing w → s.writingPipe? w = t.writingPipe? w)
    (inS : r.perform? s = some (x, s')) (refusal : r.refusal? x = some e)
    (inT : r.perform? t = some (y, t')) : due = some r ∨ ctx.Sends writes (.asked r y) := by
  -- Reads are never refused, a flush is not where the writer leads to a pipe, and what is settled
  -- was due.
  cases act with
  | take | fill | consume => cases refusal
  | offer v output =>
    cases cut with
    | values output' _ ht _ accepts =>
      rw [output] at output'
      cases output'
      rcases System.offerValue_cases (Option.some.inj inT) with ⟨_, -, -, -, rfl, -⟩ | ⟨-, -, gone⟩
      · exact .inr output
      · exact absurd (gone _ ht) accepts
  | @offerBytes _ _ w _ output some =>
    cases cut with
    | bytes output' pipe hs ht _ accepts =>
      rw [output] at output'
      cases output'
      rw [targets w output] at pipe
      obtain ⟨k, target, same⟩ := Option.bind_eq_some_iff.1 pipe
      cases System.sent_of_offerBytes (Option.some.inj inT) with
      | sunk => exact .inr output
      | piped => exact .inr output
      | refused sink => rw [sink] at target; cases target; cases same
      | gone sinks sides =>
        cases k with
        | sink => exact absurd target (sinks _ _ _)
        | pipe => cases same; exact absurd (sides _ _ target ht) accepts
  | flush output =>
    cases cut with
    | bytes output' pipe =>
      rw [output] at output'
      cases output'
      obtain ⟨k, target, same⟩ := Option.bind_eq_some_iff.1 pipe
      cases k with
      | sink => cases same
      | pipe =>
        cases inS
        simp only [Request.refusal?, System.flush, target] at refusal
        cases refusal
  | settle | settleBytes => exact .inl rfl

end Sends

namespace Pipeline

variable {h : Host} {s₀ s s' t : System} {template : Context} {n k : Nat} {turns : Turns}
  {reads writes : View} {due : Option Request} {p p' : Proc Signal} {after es : List Event}
  {beyond toCome : Supply} {r : Request}

structure Solo (h : Host) (s₀ : System) (template : Context) (n k : Nat) (turns : Turns)
    (reads writes : View) (t : System) (due : Option Request) (after : List Event)
    (p : Proc Signal) : Prop where
  run : Runs h p t after (.returned (turns.signal k)) (turns.finish k)
  heeds : Heeds ((stageContext s₀ template n k).Uses reads writes) Builtin.Refused due p
  owed : ∀ r, due = some r → ∃ r' y, (stageContext s₀ template n k).Uses reads writes r' ∧
    r'.due? y = some r ∧ .asked r' y ∈ turns.events k
  honoured : Honoured t due
  accounts : Accounts s₀ template n t (endsAtTurn s₀ template n k)
  part : after <:+ turns.events k

namespace Solo

theorem isDue (solo : Solo h s₀ template n k turns reads writes t due after p) :
    Due ((stageContext s₀ template n k).Uses reads writes) due := by
  intro r owed
  obtain ⟨r', y, uses, due, -⟩ := solo.owed r owed
  exact ⟨r', y, uses, due⟩

theorem of_done {a : Signal}
    (solo : Solo h s₀ template n k turns reads writes t due after (.done a)) :
    after = [] ∧ a = turns.signal k := by
  obtain ⟨rfl, same, -⟩ := runs_done.1 solo.run
  exact ⟨rfl, (Outcome.returned.inj same).symm⟩

theorem of_loop {σ β : Type} {state : σ} {body : σ → Proc (σ ⊕ β)} {next : β → Proc Signal}
    (solo : Solo h s₀ template n k turns reads writes t due after (.loop state body next)) :
    Solo h s₀ template n k turns reads writes t none after (unfold state body next) := by
  obtain ⟨es, rest, p, t', rfl, step, run⟩ := (runs_iff_step rfl).1 solo.run
  cases step
  cases solo.heeds with
  | loop turn broken others =>
    exact ⟨run, .unfold turn broken others, nofun, trivial, solo.accounts, solo.part⟩

theorem sends (solo : Solo h s₀ template n k turns reads writes t due after p)
    (owed : due = some r) :
    ∃ ev ∈ turns.events k, (stageContext s₀ template n k).Sends writes ev := by
  obtain ⟨r', y, uses, settles, mem⟩ := solo.owed r owed
  exact ⟨_, mem, sends_of_due? uses settles⟩

structure Asks (h : Host) (s₀ : System) (template : Context) (n k : Nat) (turns : Turns)
    (reads writes : View) (t : System) (due : Option Request) (after : List Event) (r : Request)
    (next : r.Reply → Proc Signal) : Prop where
  act : (stageContext s₀ template n k).Act reads writes due r
  refused : ∀ x e, r.refusal? x = some e → next x = .done (BuiltinError.port e).signal
  rest : ∃ y t' rest, r.perform? t = some (y, t') ∧ after = .asked r y :: rest ∧
    Solo h s₀ template n k turns reads writes t' (r.due? y) rest (next y)

theorem of_request {next : r.Reply → Proc Signal}
    (solo : Solo h s₀ template n k turns reads writes t due after (.request r next)) :
    Asks h s₀ template n k turns reads writes t due after r next := by
  obtain ⟨y, t', rest, reply, rfl, run⟩ := runs_request.1 solo.run
  cases solo.heeds with
  | request asks refused others =>
    have act := Context.act_of_asks solo.isDue asks
    refine ⟨act, fun x e refusal => ?_, y, t', rest, reply, rfl, run, others y, fun d due => ?_,
      honoured_due reply, solo.accounts.sameShape (Request.sameShape_perform act.isTransfer reply),
      (List.suffix_cons _ rest).trans solo.part⟩
    · obtain ⟨a, stops, rfl⟩ := refused x e refusal
      exact stops
    · rcases asks with uses | asks
      · exact ⟨r, y, uses, due, solo.part.subset List.mem_cons_self⟩
      · obtain ⟨r', z, -, settles, -⟩ := solo.owed r asks
        rw [Request.due?_of_due? settles y] at due
        cases due

end Solo

inductive Followed (h : Host) (s₀ : System) (template : Context) (n k : Nat) (turns : Turns)
    (reads writes : View) (s t : System) (beyond toCome : Supply) (after : List Event) :
    List Event → Proc Signal → System → Prop
  | silently {p' : Proc Signal}
      (solo : Solo h s₀ template n k turns reads writes t none after p') :
      Followed h s₀ template n k turns reads writes s t beyond toCome after [] p' s
  | alike {due : Option Request} {r : Request} {x : r.Reply} {s' t' : System} {rest : List Event}
      {p' : Proc Signal} (act : (stageContext s₀ template n k).Act reads writes due r)
      (reply : r.perform? s = some (x, s')) (first : after = .asked r x :: rest)
      (solo : Solo h s₀ template n k turns reads writes t' (r.due? x) rest p')
      (abreast : Abreast (stageContext s₀ template n k) s' t' beyond toCome) :
      Followed h s₀ template n k turns reads writes s t beyond toCome after [.asked r x] p' s'
  | cut {r : Request} {x : r.Reply} {e : PortError}
      (cut : Cut (stageContext s₀ template n k) s t writes) (refusal : r.refusal? x = some e)
      (isCut : e.IsCut)
      (sent : ∃ ev ∈ turns.events k, (stageContext s₀ template n k).Sends writes ev) :
      Followed h s₀ template n k turns reads writes s t beyond toCome after [.asked r x]
        (.done (BuiltinError.port e).signal) s

theorem Solo.step (solo : Solo h s₀ template n k turns reads writes t due after p)
    (abreast : Abreast (stageContext s₀ template n k) s t beyond toCome)
    (level : Level (stageContext s₀ template n k) s t toCome)
    (own : (stageContext s₀ template n k).Looped s → beyond = {} ∧ toCome = {})
    (step : Step h p s es p' s') :
    Followed h s₀ template n k turns reads writes s t beyond toCome after es p' s' := by
  cases step with
  | loop => exact .silently solo.of_loop
  | @request _ r next _ _ x inS =>
    obtain ⟨act, refused, y, t', rest, inT, first, others⟩ := solo.of_request
    rcases abreast.perform level own solo.honoured act inS inT with
      ⟨rfl, abreast'⟩ | ⟨cut, rfl, e, refusal, isCut⟩
    · exact .alike act inS first others abreast'
    · rw [refused x e refusal]
      refine .cut cut refusal isCut ?_
      rcases sends_of_cut cut act (fun w => abreast.writingPipe?) inS refusal inT with owed | sends
      · exact solo.sends owed
      · exact ⟨_, solo.part.subset (first ▸ List.mem_cons_self), sends⟩
  | host => nomatch solo.heeds
  | left => nomatch solo.heeds
  | right => nomatch solo.heeds
  | join => nomatch solo.heeds

end Pipeline

end Conduit
