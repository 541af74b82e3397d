import Conduit.Builtin.Effect
import Conduit.Proofs.Port.Access

/-!
What the effects come to of which the bodies of builtins are made, where nothing is in their way.
-/

namespace Conduit

open Proc (Meets meets_done meets_run_adapt)

variable {h : Host} {ctx : Context} {s : System} {v : Value} {vs : List Value} {bytes : Bytes}
  {count : Nat}

namespace Effect

theorem meets_emit (written : s.ValuesWritten ctx.output.channel vs (count + 1)) (v : Value) :
    Meets h (emit ctx v).run s fun r s' => r = .ok () ∧
      s'.ValuesWritten ctx.output.channel (vs ++ [v]) count ∧ s'.readers = s.readers ∧
      s'.pipes = s.pipes := by
  refine meets_run_adapt ((ChannelEnd.meets_put written v).mono ?_)
  rintro _ s' ⟨rfl, written', same⟩
  exact ⟨rfl, written', same⟩

theorem meets_writeText (written : s.BytesWritten ctx.output.stream bytes (count + 1))
    {text : String} (some : Utf8.encode text ≠ []) :
    Meets h (writeText ctx text).run s fun r s' => r = .ok () ∧
      s'.BytesWritten ctx.output.stream (bytes ++ Utf8.encode text) count ∧
      s'.channels = s.channels := by
  refine meets_run_adapt ((StreamEnd.meets_write written some).mono ?_)
  rintro _ s' ⟨rfl, written', same⟩
  exact ⟨rfl, written', same⟩

theorem meets_signal {a : Effect Unit} {post : Signal → System → Prop}
    (first : Meets h a.run s fun r s' => post (Signal.ofResult r) s') :
    Meets h a.signal s post := first.bind fun _ _ holds => meets_done holds

def inputTurn (ctx : Context) (act : Value → Effect Unit) :
    Proc (Unit ⊕ Except BuiltinError Unit) := do
  match ← ctx.input.channel.take with
  | none => pure (.inr (.ok ()))
  | some v =>
    match ← (act v).run with
    | .ok () => pure (.inl ())
    | .error e => pure (.inr (.error e))

theorem run_forInput (ctx : Context) (act : Value → Effect Unit) :
    (forInput ctx act).run = Proc.iterate () fun () => inputTurn ctx act := rfl

theorem meets_inputTurn_nil {act : Value → Effect Unit}
    (left : s.LeftToRead ctx.input.channel []) : Meets h (inputTurn ctx act) s fun y s' =>
      y = .inr (.ok ()) ∧ s'.writers = s.writers ∧ s'.pipes = s.pipes := by
  refine (ChannelEnd.meets_take left).bind ?_
  rintro _ s' ⟨rfl, -, same⟩
  exact meets_done ⟨rfl, same⟩

theorem meets_inputTurn_cons {act : Value → Effect Unit} {post : System → Prop}
    (left : s.LeftToRead ctx.input.channel (v :: vs))
    (acts : ∀ s', s'.LeftToRead ctx.input.channel vs → s'.writers = s.writers →
      s'.pipes = s.pipes → Meets h (act v).run s' fun r s'' => r = .ok () ∧ post s'') :
    Meets h (inputTurn ctx act) s fun y s' => y = .inl () ∧ post s' := by
  refine (ChannelEnd.meets_take left).bind ?_
  rintro _ s₁ ⟨rfl, left', writers, pipes⟩
  refine (acts s₁ left' writers pipes).bind ?_
  rintro _ s₂ ⟨rfl, holds⟩
  exact meets_done ⟨rfl, holds⟩

end Effect

end Conduit
