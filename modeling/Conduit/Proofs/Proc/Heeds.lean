import Conduit.Proofs.Proc.Steps

/-!
Processes that make only the requests they may and that heed refusals: a write that is refused ends
them at once.
-/

namespace Conduit

namespace Request

def refusal? : (r : Request) → r.Reply → Option PortError
  | offer _ _, .error e => some e
  | settle _ _, .error e => some e
  | offerBytes _ _, .error message => some (.io message)
  | settleBytes _ _, .error message => some (.io message)
  | flush _, .error message => some (.io message)
  | _, _ => none

def due? : (r : Request) → r.Reply → Option Request
  | offer c _, .ok ticket => some (.settle c ticket)
  | offerBytes w _, .ok ticket => some (.settleBytes w ticket)
  | _, _ => none

theorem due?_eq_some {r d : Request} {x : r.Reply} (due : r.due? x = some d) :
    (∃ c ticket, d = .settle c ticket) ∨ ∃ w ticket, d = .settleBytes w ticket := by
  cases r with
  | offer c v =>
    cases x with
    | ok ticket => cases due; exact .inl ⟨c, ticket, rfl⟩
    | error e => cases due
  | offerBytes w bytes =>
    cases x with
    | ok ticket => cases due; exact .inr ⟨w, ticket, rfl⟩
    | error message => cases due
  | _ => cases due

theorem due?_of_due? {r d : Request} {x : r.Reply} (due : r.due? x = some d) (y : d.Reply) :
    d.due? y = none := by
  rcases due?_eq_some due with ⟨c, ticket, rfl⟩ | ⟨w, ticket, rfl⟩ <;> rfl

end Request

namespace Proc

/-- A process that makes only requests that it may make, or that are due, and that as soon as a
write is refused is done and fails for the error. -/
inductive Heeds (may : Request → Prop) :
    {α : Type} → (PortError → α → Prop) → Option Request → Proc α → Prop
  | done {α : Type} {fails : PortError → α → Prop} {due : Option Request} (a : α) :
      Heeds may fails due (done a)
  | request {α : Type} {fails : PortError → α → Prop} {due : Option Request} {r : Request}
      {next : r.Reply → Proc α} (asks : may r ∨ due = some r)
      (refused : ∀ x e, r.refusal? x = some e → ∃ a, next x = .done a ∧ fails e a)
      (rest : ∀ x, Heeds may fails (r.due? x) (next x)) : Heeds may fails due (request r next)
  | loop {σ β α : Type} {fails : PortError → α → Prop} {due : Option Request} {state : σ}
      {body : σ → Proc (σ ⊕ β)} {next : β → Proc α} {breaks : PortError → β → Prop}
      (turn : ∀ x, Heeds may (fun e y => ∃ b, y = .inr b ∧ breaks e b) none (body x))
      (broken : ∀ e b, breaks e b → ∃ a, next b = .done a ∧ fails e a)
      (rest : ∀ b, Heeds may fails none (next b)) : Heeds may fails due (loop state body next)

variable {α β σ : Type} {may : Request → Prop} {h : Host} {s s' : System} {es : List Event}
  {due : Option Request}

namespace Heeds

theorem mono {may' : Request → Prop} {fails : PortError → α → Prop} {p : Proc α}
    (heeds : Heeds may fails due p) (more : ∀ r, may r → may' r) : Heeds may' fails due p := by
  induction heeds with
  | done a => exact .done a
  | request asks refused _ ih => exact .request (asks.imp_left (more _)) refused ih
  | loop _ broken _ turn rest => exact .loop turn broken rest

theorem anyway {fails : PortError → α → Prop} {p : Proc α} (heeds : Heeds may fails none p) :
    Heeds may fails due p := by
  cases heeds with
  | done a => exact .done a
  | request asks refused rest => exact .request (.inl (asks.resolve_right nofun)) refused rest
  | loop turn broken rest => exact .loop turn broken rest

theorem bind {fails : PortError → α → Prop} {fails' : PortError → β → Prop} {p : Proc α}
    {f : α → Proc β} (first : Heeds may fails due p)
    (passes : ∀ e a, fails e a → ∃ b, f a = .done b ∧ fails' e b)
    (rest : ∀ a, Heeds may fails' none (f a)) : Heeds may fails' due (p.bind f) := by
  induction first with
  | done a => exact (rest a).anyway
  | request asks refused _ ih =>
    refine .request asks (fun x e he => ?_) fun x => ih x passes rest
    obtain ⟨a, stops, fails⟩ := refused x e he
    rw [stops]
    exact passes e a fails
  | loop turn broken _ _ ih =>
    refine .loop turn (fun e b breaks => ?_) fun b => ih b passes rest
    obtain ⟨a, stops, fails⟩ := broken e b breaks
    rw [stops]
    exact passes e a fails

theorem map {fails : PortError → α → Prop} {fails' : PortError → β → Prop} {p : Proc α}
    (first : Heeds may fails due p) {f : α → β} (passes : ∀ e a, fails e a → fails' e (f a)) :
    Heeds may fails' due (p.bind fun a => .done (f a)) :=
  first.bind (fun e a fails => ⟨f a, rfl, passes e a fails⟩) fun a => .done (f a)

theorem attempt {fails : PortError → α → Prop} {p : Proc α} (heeds : Heeds may fails due p) :
    Heeds may (fun e o => ∃ a, o = .returned a ∧ fails e a) due p.attempt := by
  induction heeds with
  | done a => exact .done _
  | request asks refused _ ih =>
    refine .request asks (fun x e he => ?_) ih
    obtain ⟨a, stops, fails⟩ := refused x e he
    rw [stops]
    exact ⟨_, rfl, a, rfl, fails⟩
  | @loop σ β α fails due state body next breaks _ broken _ turn rest =>
    have turns (x : σ) : Heeds may (fun e y => ∃ o, y = .inr o ∧ ∃ b, o = .returned b ∧ breaks e b)
        none ((body x).attempt.bind fun o => .done (endTurn o)) := by
      refine (turn x).map ?_
      rintro e _ ⟨_, rfl, b, rfl, breaks⟩
      exact ⟨_, rfl, b, rfl, breaks⟩
    refine .loop turns ?_ fun o => ?_
    · rintro e _ ⟨b, rfl, breaks⟩
      obtain ⟨a, stops, fails⟩ := broken e b breaks
      rw [whenReturned, stops]
      exact ⟨_, rfl, a, rfl, fails⟩
    · cases o with
      | returned b => exact rest b
      | panicked message => exact .done _

theorem unfold {fails : PortError → α → Prop} {state : σ} {body : σ → Proc (σ ⊕ β)}
    {next : β → Proc α} {breaks : PortError → β → Prop}
    (turn : ∀ x, Heeds may (fun e y => ∃ b, y = .inr b ∧ breaks e b) none (body x))
    (broken : ∀ e b, breaks e b → ∃ a, next b = .done a ∧ fails e a)
    (rest : ∀ b, Heeds may fails none (next b)) :
    Heeds may fails none (unfold state body next) := by
  refine (turn state).bind ?_ fun x => ?_
  · rintro e _ ⟨b, rfl, breaks⟩
    exact broken e b breaks
  · cases x with
    | inl state => exact .loop turn broken rest
    | inr b => exact rest b

theorem iterate {fails : PortError → β → Prop} {state : σ} {body : σ → Proc (σ ⊕ β)}
    (turn : ∀ x, Heeds may (fun e y => ∃ b, y = .inr b ∧ fails e b) none (body x)) :
    Heeds may fails none (iterate state body) :=
  .loop turn (fun _ b fails => ⟨b, rfl, fails⟩) .done

theorem ask {fails : PortError → β → Prop} {r : Request} {f : r.Reply → Proc β} (asks : may r)
    (accepted : ∀ x, r.refusal? x = none) (rest : ∀ x, Heeds may fails none (f x)) :
    Heeds may fails none ((Proc.ask r).bind f) := by
  refine .request (.inl asks) (fun x e he => ?_) fun x => (rest x).anyway
  rw [accepted x] at he
  cases he

end Heeds

/-! ### The events of such a process -/

def Within (may : Request → Prop) (es : List Event) : Prop :=
  ∀ ev ∈ es, ∃ r x, ev = .asked r x ∧ (may r ∨ ∃ r' y, may r' ∧ r'.due? y = some r)

theorem within_append {es' : List Event} (first : Within may es) (rest : Within may es') :
    Within may (es ++ es') := by
  intro ev hev
  rcases List.mem_append.1 hev with hev | hev
  · exact first ev hev
  · exact rest ev hev

def Due (may : Request → Prop) (due : Option Request) : Prop :=
  ∀ r, due = some r → ∃ r' y, may r' ∧ r'.due? y = some r

theorem Heeds.step {fails : PortError → α → Prop} {p p' : Proc α} (heeds : Heeds may fails due p)
    (owed : Due may due) (step : Step h p s es p' s') :
    Within may es ∧ ∃ due', Due may due' ∧ Heeds may fails due' p' := by
  cases heeds with
  | done a => cases step
  | @request _ _ _ r next asks _ rest =>
    cases step with
    | @request _ _ _ _ _ x reply =>
      refine ⟨?_, r.due? x, fun r' settles => ?_, rest x⟩
      · rintro ev hev
        obtain rfl := List.mem_singleton.1 hev
        exact ⟨r, x, rfl, asks.imp_right (owed r)⟩
      · rcases asks with asks | asks
        · exact ⟨r, x, asks, settles⟩
        · obtain ⟨r₀, y, -, hr⟩ := owed r asks
          rw [Request.due?_of_due? hr x] at settles
          cases settles
  | loop turn broken rest =>
    cases step with
    | loop => exact ⟨nofun, none, nofun, .unfold turn broken rest⟩

theorem Heeds.steps {fails : PortError → α → Prop} {p p' : Proc α} (heeds : Heeds may fails due p)
    (owed : Due may due) (steps : Steps h p s es p' s') : Within may es := by
  induction steps generalizing due with
  | refl => exact nofun
  | head step _ ih =>
    obtain ⟨first, due', owed', heeds'⟩ := heeds.step owed step
    exact within_append first (ih heeds' owed')

theorem Heeds.runs {fails : PortError → α → Prop} {p : Proc α} {o : Outcome α}
    (heeds : Heeds may fails none p) (run : Runs h p s es o s') : Within may es := by
  obtain ⟨q, steps, -⟩ := run
  exact heeds.steps nofun steps

end Proc

end Conduit
