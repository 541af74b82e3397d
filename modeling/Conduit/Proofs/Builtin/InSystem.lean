import Conduit.Proofs.Builtin.Equality
import Conduit.Proofs.Builtin.Footprint
import Conduit.Proofs.Port.OfSystem

/-!
The output that a system makes of a port is what a call finds there in the system itself: unless
what it writes comes back to it, what it comes to before the one it comes to in the other.
-/

namespace Conduit

open Proc (Heeds Runs Steps)

variable {α : Type} {ctx : Context} {out : Port} {s s' t : System} {r : Request} {x : r.Reply}
  {view : View} {fails : String → α → Prop} {P : Port → Proc α} {args : List Value}

/-! ### What is asked beside the writes -/

theorem Context.looped_congr (same : s.SameShape t) : ctx.Looped t ↔ ctx.Looped s := by
  simp only [Looped, same.readingPipe?, same.writingPipe?]

theorem Context.looped_onto : (ctx.onto out).Looped s ↔
    (∃ c, ctx.input.channel = .reading c ∧ out.channel = .writing c) ∨
      ∃ q w p, ctx.input.stream = .reading q ∧ out.stream = .writing w ∧
        s.readingPipe? q = some p ∧ s.writingPipe? w = some p := by
  rw [Looped, Context.input_onto, Context.output_onto]

def inputs : Set Place := {place | ∃ view, place = .input view}

theorem sameBut_of_asks (asks : ctx.Asks r) (reply : r.perform? s = some (x, t)) :
    s.SameBut ctx inputs t := by
  refine System.sameBut_perform ?_ reply
  rcases asks with ⟨view, reads⟩ | consultation
  · exact .inr ⟨.input view, ⟨view, rfl⟩, .input reads⟩
  · exact .inl consultation

theorem sameBehind_of_asks (straight : ¬ (ctx.onto out).Looped s) (asks : ctx.Asks r)
    (reply : r.perform? s = some (x, t)) : System.SameBehind out s t := by
  have same := sameBut_of_asks asks reply
  rw [Context.looped_onto] at straight
  refine ⟨fun c writing => same.channels c ?_, fun w writing => same.writers w ?_,
    fun w p writing behind => same.pipes p ?_⟩
  · rintro _ ⟨view, rfl⟩ channel
    cases channel with
    | input reading => exact straight (.inl ⟨c, reading, writing⟩)
  · rintro _ ⟨view, rfl⟩ writer
    cases writer
  · rintro _ ⟨view, rfl⟩ pipe
    cases pipe with
    | reader reader behind' =>
      cases reader with
      | input reading => exact straight (.inr ⟨_, w, p, reading, writing, behind', behind⟩)
    | writer writer => cases writer

theorem beside_of_asks (straight : ¬ (ctx.onto out).Looped s) (asks : ctx.Asks r) :
    r.Beside s out := by
  rw [Context.looped_onto] at straight
  intro item
  rcases asks with ⟨view, reads⟩ | consultation
  · match view, r, reads with
    | .values, .take c, reading =>
      intro ch here
      exact straight (.inl ⟨c, reading, System.writing_of_deposit here⟩)
    | .bytes, .fill q, reading =>
      intro p behind ch here
      obtain ⟨w, writing, behind'⟩ := System.writingPipe?_of_deposit here
      exact straight (.inr ⟨q, w, p, reading, writing, behind, behind'⟩)
    | .bytes, .consume q n, reading => trivial
  · cases r <;> trivial

theorem perform?_handedAll (straight : ¬ (ctx.onto out).Looped s) (asks : ctx.Asks r)
    (items : List Item) : r.perform? (s.handedAll out items) =
      (r.perform? s).map fun (x, t) => (x, t.handedAll out items) := by
  induction items generalizing s with
  | nil => exact Option.map_id'.symm
  | cons item items ih =>
    have first := perform?_handed (beside_of_asks straight asks)
      (fun _ _ => sameBehind_of_asks straight asks) item
    have shape := s.sameShape_handed out item
    have rest := ih (mt (Context.looped_congr shape).1 straight)
    rw [first, Option.map_map] at rest
    exact rest

/-! ### The system and its output -/

/-- The scene tells the same as the system: what has been handed over is all the difference, and the
output answers as the system would. -/
structure Shows (ctx : Context) (o : Output) (out : Port) (σ : Scene) (s : System) : Prop where
  whole : s = σ.system.handedAll out σ.got
  idle : σ.begun = none
  answers : σ.system.output out = o
  straight : ¬ (ctx.onto out).Looped σ.system

theorem Shows.alike (o : Output) (out : Port) (view : View) :
    Alike (o.behind out) .system ctx.Asks view out (Shows ctx o out)
      fun σ s => s = σ.whole out where
  ends σ s shows := by
    obtain ⟨system, got, begun⟩ := σ
    obtain ⟨rfl, rfl, -, -⟩ := shows
    exact (whole_none system got).symm
  asks σ s r shows asks := by
    obtain ⟨system, got, begun⟩ := σ
    obtain ⟨rfl, rfl, answers, straight⟩ := shows
    have whole := perform?_handedAll straight asks got
    rw [Output.behind_of_not_isWrite (ctx.not_isWrite_of_asks asks), Scene.ask]
    cases reply : r.perform? system with
    | none => exact .inl ⟨rfl, by rw [reply] at whole; exact whole⟩
    | some y =>
      obtain ⟨a, t⟩ := y
      rw [reply] at whole
      have same := sameBehind_of_asks straight asks reply
      have shape := (sameBut_of_asks asks reply).shape
      exact .inr ⟨a, _, _, rfl, whole, rfl, rfl, (System.output_congr same).trans answers,
        mt (Context.looped_congr shape).1 straight⟩
  sends σ s item shows kind solid := by
    obtain ⟨system, got, begun⟩ := σ
    obtain ⟨rfl, rfl, rfl, straight⟩ := shows
    exact sentAlike_handedAll solid ⟨rfl, rfl, rfl, straight⟩ fun _ => rfl

theorem Feeds.goes_iff_steps {h : Host} {q : Proc α} {es : List Event} {may : Request → Prop}
    {fails' : PortError → α → Prop} (feeds : Feeds ctx.Asks view fails P)
    (heeds : Heeds may fails' none (P out)) (straight : ¬ (ctx.onto out).Looped s) :
    (∃ n σ, Goes ((s.output out).behind out) n (P out) { system := s } es q σ ∧
      Rests ((s.output out).behind out) q σ ∧ σ.whole out = s') ↔
    Steps h (P out) s es q s' ∧ Rests .system q s' := by
  have alike := @Shows.alike ctx (s.output out) out view
  have shows : Shows ctx (s.output out) out { system := s } s := ⟨rfl, rfl, rfl, straight⟩
  constructor
  · rintro ⟨n, σ, goes, rests, rfl⟩
    obtain ⟨_, s', goes', rests', rfl⟩ := alike.follow feeds shows goes rests
    exact ⟨goes'.steps, rests'⟩
  · rintro ⟨steps, rests⟩
    obtain ⟨n, goes⟩ := exists_goes_of_steps heeds nofun steps
    obtain ⟨k, σ, goes', rests', rfl⟩ := alike.symm.follow feeds shows goes rests
    exact ⟨k, σ, goes', rests', rfl⟩

theorem Feeds.brings_iff_runs {h : Host} {a : α} {may : Request → Prop}
    {fails' : PortError → α → Prop} (feeds : Feeds ctx.Asks view fails P)
    (heeds : Heeds may fails' none (P out)) (straight : ¬ (ctx.onto out).Looped s) :
    (∃ ws, Brings ((s.output out).behind out) (P out) s ws (some a)) ↔
      ∃ es s', Runs h (P out) s es (.returned a) s' := by
  constructor
  · rintro ⟨ws, n, es, σ, goes, -⟩
    have steps := (feeds.goes_iff_steps (h := h) heeds straight).1 ⟨n, σ, goes, .done, rfl⟩
    exact ⟨es, _, _, steps.1, rfl⟩
  · rintro ⟨es, s', q, steps, outcome⟩
    obtain rfl : q = .done a := by
      cases q <;> cases outcome
      rfl
    obtain ⟨n, σ, goes, -, -⟩ := (feeds.goes_iff_steps heeds straight).2 ⟨steps, .done⟩
    exact ⟨σ.got, n, es, σ, goes, rfl⟩

/-! ### Calls -/

theorem Emitter.heeds (b : Emitter) (ctx : Context) (args : List Value) :
    Heeds (ctx.Touches (Builtin.footprint b.builtin.name)) Builtin.Refused none
      (b.builtin.call ctx args) := by
  cases b <;>
    exact Builtin.heeds_footprint (by simp [Builtin.standard, builtin]) (by decide) ctx args

theorem feeds_equality (ctx : Context) (args : List Value) : Feeds ctx.Asks .values FailsFor
    fun out => Builtin.equalityBuiltin.call (ctx.onto out) args := by
  refine Feeds.call (fun _ => rfl) ?_
  cases args with
  | nil => exact .done _
  | cons v rest => exact Feeds.signal (.emit _)

section Calls

variable (ctx : Context) (args : List Value) (out : Port) (s : System) (h : Host)
  (straight : ¬ (ctx.onto out).Looped s)

include straight

theorem Emitter.goes_iff_steps (b : Emitter) (es : List Event) (q : Proc Signal) (s' : System) :
    (∃ n σ, Goes ((s.output out).behind out) n (b.builtin.call (ctx.onto out) args) { system := s }
        es q σ ∧ Rests ((s.output out).behind out) q σ ∧ σ.whole out = s') ↔
      Steps h (b.builtin.call (ctx.onto out) args) s es q s' ∧ Rests .system q s' :=
  (b.feeds ctx args).goes_iff_steps (b.heeds (ctx.onto out) args) straight

theorem Emitter.brings_iff_runs (b : Emitter) (r : Signal) :
    (∃ ws, Brings ((s.output out).behind out) (b.builtin.call (ctx.onto out) args) s ws (some r)) ↔
      ∃ es s', Runs h (b.builtin.call (ctx.onto out) args) s es (.returned r) s' :=
  (b.feeds ctx args).brings_iff_runs (b.heeds (ctx.onto out) args) straight

theorem equality_goes_iff_steps (es : List Event) (q : Proc Signal) (s' : System) :
    (∃ n σ, Goes ((s.output out).behind out) n (Builtin.equalityBuiltin.call (ctx.onto out) args)
        { system := s } es q σ ∧ Rests ((s.output out).behind out) q σ ∧ σ.whole out = s') ↔
      Steps h (Builtin.equalityBuiltin.call (ctx.onto out) args) s es q s' ∧ Rests .system q s' :=
  (feeds_equality ctx args).goes_iff_steps (Builtin.heeds_footprint
    (by simp [Builtin.standard, Builtin.equalityBuiltin]) (by decide) (ctx.onto out) args) straight

end Calls

end Conduit
