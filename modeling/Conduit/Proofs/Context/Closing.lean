import Conduit.Proofs.Context.Fork

/-!
Closing a context gives up the ends of its ports one after another, which nothing can hold up.
-/

namespace Conduit

open Proc

variable {h : Host} {α : Type} {s s' : System} {es : List Event} {left : List PortEnd} {a : α}

def Port.ends (p : Port) : List PortEnd := [.channel p.channel, .stream p.stream]

def endsOf (ports : List Port) : List PortEnd := ports.flatMap Port.ends

def PortEnd.releaseRequest : PortEnd → Request
  | channel e => .releaseChannel e
  | stream e => .releaseStream e

def System.release (s : System) : PortEnd → System
  | .channel e => s.releaseChannel e
  | .stream e => s.releaseStream e

def releasing (a : α) : List PortEnd → Proc α
  | [] => done a
  | e :: rest => request e.releaseRequest fun _ => releasing a rest

theorem releaseAll_bind {β : Type} (ports : List Port) (f : PUnit → Proc β) (b : β)
    (last : f () = done b) :
    (ports.forM Port.release).bind f = releasing b (endsOf ports) := by
  induction ports with
  | nil => exact last
  | cons p ports ih =>
    exact congrArg (fun rest => request (.releaseChannel p.channel) fun _ =>
      request (.releaseStream p.stream) fun _ => rest) ih

theorem close_then (ctx : Context) (a : α) :
    (do discard ctx.close; pure a) = releasing a (endsOf ctx.ports) := by
  change ((((ctx.ports.forM Port.release).bind _).bind _).bind _) = _
  rw [bind_assoc, bind_assoc]
  exact releaseAll_bind ctx.ports _ a rfl

theorem perform_release (e : PortEnd) :
    ∃ x, e.releaseRequest.perform? s = some (x, s.release e) := by
  cases e <;> exact ⟨(), rfl⟩

theorem step_releasing {q : Proc α} (step : Step h (releasing a left) s es q s') :
    ∃ e rest x, left = e :: rest ∧ q = releasing a rest ∧ es = [.asked e.releaseRequest x] ∧
      s' = s.release e := by
  cases left with
  | nil => cases step
  | cons e rest =>
    cases step with
    | @request _ _ _ _ _ x reply =>
      obtain ⟨y, released⟩ := perform_release (s := s) e
      rw [released] at reply
      cases reply
      exact ⟨e, rest, _, rfl, rfl, rfl, rfl⟩

theorem exists_step_releasing (e : PortEnd) (rest : List PortEnd) :
    ∃ es, Step h (releasing a (e :: rest)) s es (releasing a rest) (s.release e) := by
  obtain ⟨x, released⟩ := perform_release (s := s) e
  exact ⟨_, .request released⟩

theorem outcome_releasing {o : Outcome α} (outcome : (releasing a left).outcome? = some o) :
    left = [] ∧ o = .returned a := by
  cases left with
  | nil => cases outcome; exact ⟨rfl, rfl⟩
  | cons e rest => cases outcome

/-! ### What is given up -/

namespace System

variable {c : ChannelId} {ch : Channel Value} {w : WriterId}

theorem channel_release (here : s.channels[c.index]? = some ch) (e : PortEnd) :
    (s.release e).channels[c.index]? = some { ch with
      writers := ch.writers - if e = .channel (.writing c) then 1 else 0
      readers := ch.readers - if e = .channel (.reading c) then 1 else 0 } := by
  rcases e with (_ | ⟨⟨i⟩⟩ | ⟨⟨i⟩⟩) | e
  · simpa [release, releaseChannel] using here
  · by_cases same : i = c.index
    · subst same
      simp [release, releaseChannel, onChannel, Array.getElem?_modify, here, Channel.dropReader]
    · have other : (⟨i⟩ : ChannelId) ≠ c := fun h => same (congrArg ChannelId.index h)
      simp [release, releaseChannel, onChannel, Array.getElem?_modify, same, other, here]
  · by_cases same : i = c.index
    · subst same
      simp [release, releaseChannel, onChannel, Array.getElem?_modify, here, Channel.dropWriter]
    · have other : (⟨i⟩ : ChannelId) ≠ c := fun h => same (congrArg ChannelId.index h)
      simp [release, releaseChannel, onChannel, Array.getElem?_modify, same, other, here]
  · simpa [release, (releaseStream_same s e).1] using here

end System

/-! ### Contexts that are closed after a call -/

namespace Context

variable {ctx : Context}

def closeAfter (ctx : Context) : Outcome (α × Context) → Proc α
  | .returned (a, left) => do
    discard left.close
    pure a
  | .panicked message => do
    discard ctx.close
    panic message

theorem closing_eq (ctx : Context) (body : Context → Proc (α × Context)) :
    ctx.closing body = (body ctx).attempt.bind ctx.closeAfter := by
  refine congrArg (Proc.bind (body ctx).attempt) (funext fun o => ?_)
  rcases o with ⟨a, left⟩ | message <;> rfl

inductive Closes (ctx : Context) : Proc α → Proc α → List PortEnd → Prop
  | calling {p : Proc α} {q : Proc (Outcome (α × Context))} (safe : Safe p)
      (follows : Follows (p.bind fun a => done (a, ctx)) q) :
      Closes ctx p (q.bind ctx.closeAfter) (endsOf ctx.ports)
  | releasing (a : α) (left : List PortEnd) : Closes ctx (done a) (releasing a left) left

theorem closes_closing {p : Proc α} (safe : Safe p) :
    Closes ctx p (ctx.closing fun ctx => p.bind fun a => done (a, ctx)) (endsOf ctx.ports) := by
  rw [closing_eq]
  exact .calling safe (follows_attempt _)

theorem exists_releasing {p : Proc α} {q : Proc (Outcome (α × Context))} (safe : Safe p)
    (follows : Follows (p.bind fun a => done (a, ctx)) q) {x : Outcome (α × Context)}
    (ended : q = done x) :
    ∃ a, p = done a ∧ q.bind ctx.closeAfter = Conduit.releasing a (endsOf ctx.ports) := by
  have outcome := follows.outcome
  rw [ended] at outcome
  cases safe with
  | done a =>
    cases outcome
    exact ⟨a, rfl, by rw [ended, ← close_then]; rfl⟩
  | request => cases outcome
  | loop => cases outcome
  | host => cases outcome
  | both => cases outcome

theorem Closes.step {p m m' : Proc α} (closes : Closes ctx p m left)
    (step : Step h m s es m' s') :
    (∃ p', Step h p s es p' s' ∧ Closes ctx p' m' left) ∨
      ∃ a e rest x, p = done a ∧ left = e :: rest ∧ es = [.asked e.releaseRequest x] ∧
        s' = s.release e ∧ Closes ctx p m' rest := by
  -- Giving up an end is the same step whether it is the first one or not.
  have release {a : α} {left : List PortEnd} {m' : Proc α}
      (step : Step h (Conduit.releasing a left) s es m' s') : ∃ e rest x, left = e :: rest ∧
        es = [.asked e.releaseRequest x] ∧ s' = s.release e ∧ Closes ctx (done a) m' rest := by
    obtain ⟨e, rest, x, rfl, rfl, rfl, rfl⟩ := step_releasing step
    exact ⟨e, rest, x, rfl, rfl, rfl, .releasing a rest⟩
  cases closes with
  | calling safe follows =>
    rcases step.of_bind with ⟨x, ended, -⟩ | ⟨q', rfl, inner⟩
    · obtain ⟨a, rfl, closing⟩ := exists_releasing safe follows ended
      rw [closing] at step
      obtain ⟨e, rest, x, same⟩ := release step
      exact .inr ⟨a, e, rest, x, rfl, same⟩
    · obtain ⟨p₁, first, follows'⟩ := follows.step_back inner
      rcases first.of_bind with ⟨a, rfl, none⟩ | ⟨p', rfl, call⟩
      · cases none
      · exact .inl ⟨p', call, .calling (call.safe safe) follows'⟩
  | releasing a left =>
    obtain ⟨e, rest, x, same⟩ := release step
    exact .inr ⟨a, e, rest, x, rfl, same⟩

theorem Closes.outcome {p m : Proc α} {o : Outcome α} (closes : Closes ctx p m left)
    (outcome : m.outcome? = some o) : left = [] ∧ ∃ a, p = done a ∧ o = .returned a := by
  cases closes with
  | @calling p q safe follows =>
    cases q with
    | done x =>
      obtain ⟨a, rfl, closing⟩ := exists_releasing safe follows rfl
      rw [closing] at outcome
      obtain ⟨none, rfl⟩ := outcome_releasing outcome
      exact ⟨none, a, rfl, rfl⟩
    | panic message =>
      have outcome := follows.outcome
      cases safe <;> cases outcome
    | request => cases outcome
    | loop => cases outcome
    | host => cases outcome
    | both => cases outcome
  | releasing a left =>
    obtain ⟨none, rfl⟩ := outcome_releasing outcome
    exact ⟨none, a, rfl, rfl⟩

end Context

end Conduit
