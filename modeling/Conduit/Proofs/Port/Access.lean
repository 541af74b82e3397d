import Conduit.Proofs.Proc.Meets
import Conduit.Proofs.System.Ends
import Conduit.Proofs.Text.Lines
import Mathlib.Data.List.TakeWhile

/-!
What reading and writing at the ends of a port comes to where nothing is in the way.
-/

namespace Conduit

open Proc (Meets ask meets_ask meets_done meets_iterate meets_run_adapt meets_run_bind)

variable {h : Host} {s : System} {vs : List Value} {bytes : Bytes} {failure : Option String}
  {count : Nat}

namespace ChannelEnd

variable {e : ChannelEnd}

theorem meets_take (left : s.LeftToRead e vs) : Meets h e.take s fun x s' =>
    x = vs.head? ∧ s'.LeftToRead e vs.tail ∧ s'.writers = s.writers ∧ s'.pipes = s.pipes := by
  cases e with
  | reading c =>
    obtain ⟨s', took, left'⟩ := exists_takeValue? left
    obtain ⟨writers, pipes⟩ := System.writers_takeValue? took
    exact meets_ask took ⟨rfl, left', writers, pipes⟩
  | closed =>
    obtain rfl : vs = [] := left
    exact meets_done ⟨rfl, rfl, rfl, rfl⟩
  | writing c =>
    obtain rfl : vs = [] := left
    exact meets_done ⟨rfl, rfl, rfl, rfl⟩

theorem meets_put (written : s.ValuesWritten e vs (count + 1)) (v : Value) :
    Meets h (e.put v).run s fun r s' => r = .ok () ∧ s'.ValuesWritten e (vs ++ [v]) count ∧
      s'.readers = s.readers ∧ s'.pipes = s.pipes := by
  cases e with
  | writing c =>
    obtain ⟨ticket, s₁, offer, written₁, settled, same⟩ := System.exists_offerValue written v
    have offered : Meets h (ask (.offer c v)) s fun x s' => x = .ok ticket ∧ s' = s₁ :=
      meets_ask (congrArg some offer) ⟨rfl, rfl⟩
    have accepted : Meets h (ask (.settle c ticket)) s₁ fun x s' => x = .ok () ∧ s' = s₁ :=
      meets_ask (congrArg (Option.map (·, s₁)) settled) ⟨rfl, rfl⟩
    refine meets_run_bind offered ?_ nofun
    rintro _ _ ⟨⟨⟩, rfl⟩
    refine accepted.mono ?_
    rintro _ _ ⟨rfl, rfl⟩
    exact ⟨rfl, written₁, same⟩
  | closed => exact written.elim
  | reading c => exact written.elim

end ChannelEnd

namespace StreamEnd

variable {e : StreamEnd} {r : ReaderId}

theorem meets_write (written : s.BytesWritten e bytes (count + 1)) {chunk : Bytes}
    (some : chunk ≠ []) : Meets h (e.write chunk).run s fun r s' =>
      r = .ok () ∧ s'.BytesWritten e (bytes ++ chunk) count ∧ s'.channels = s.channels := by
  cases e with
  | writing w =>
    obtain ⟨ticket, s₁, offer, written₁, settled, flushed, same⟩ :=
      System.exists_offerBytes written chunk
    have offered : Meets h (ask (.offerBytes w chunk)) s fun x s' => x = .ok ticket ∧ s' = s₁ :=
      meets_ask (congrArg Option.some offer) ⟨rfl, rfl⟩
    have accepted : Meets h (ask (.settleBytes w ticket)) s₁ fun x s' => x = .ok () ∧ s' = s₁ :=
      meets_ask (congrArg (Option.map (·, s₁)) settled) ⟨rfl, rfl⟩
    have flush : Meets h (ask (.flush w)) s₁ fun x s' => x = .ok () ∧ s' = s₁ :=
      meets_ask (congrArg (fun x => Option.some (x, s₁)) flushed) ⟨rfl, rfl⟩
    rw [write, List.isEmpty_eq_false_iff.2 some]
    refine meets_run_adapt ?_
    simp only [Bool.false_eq_true, ↓reduceIte]
    refine meets_run_bind offered ?_ nofun
    rintro _ _ ⟨⟨⟩, rfl⟩
    refine meets_run_bind accepted ?_ nofun
    rintro _ _ ⟨-, rfl⟩
    refine flush.mono ?_
    rintro _ _ ⟨rfl, rfl⟩
    exact ⟨rfl, written₁, same⟩
  | closed => exact written.elim
  | reading r => exact written.elim

theorem throughNewline?_of_not_mem {chunk : Bytes} (whole : newline ∉ chunk) :
    throughNewline? chunk = none := by
  have other : ∀ b ∈ chunk, decide (b ≠ newline) = true :=
    fun b hb => decide_eq_true fun same => whole (same ▸ hb)
  rw [throughNewline?, List.takeWhile_eq_self_iff.2 other, if_pos rfl]

theorem throughNewline?_append {piece : Bytes} (whole : newline ∉ piece) (more : Bytes) :
    throughNewline? (piece ++ newline :: more) = some (piece ++ [newline]) := by
  have other : ∀ b ∈ piece, decide (b ≠ newline) = true :=
    fun b hb => decide_eq_true fun same => whole (same ▸ hb)
  have first : (piece ++ newline :: more).takeWhile (· ≠ newline) = piece := by
    rw [List.takeWhile_append_of_pos other]
    simp
  rw [throughNewline?, first, if_neg (by simp)]

inductive LineRead (e : StreamEnd) (failure : Option String) (read : Bytes) (s : System) :
    Bytes → Bytes × Option String → Prop
  | line {piece rest : Bytes} (whole : newline ∉ piece) (left : s.BytesLeft e rest failure) :
      LineRead e failure read s (piece ++ newline :: rest) (read ++ piece ++ [newline], none)
  | last {bytes : Bytes} (whole : newline ∉ bytes) (left : s.BytesLeft e [] failure) :
      LineRead e failure read s bytes (read ++ bytes, failure)

theorem LineRead.append {read chunk rest : Bytes} {x : Bytes × Option String}
    (gives : LineRead e failure (read ++ chunk) s rest x) (none : newline ∉ chunk) :
    LineRead e failure read s (chunk ++ rest) x := by
  cases gives with
  | @line piece rest whole left =>
    have joined : newline ∉ chunk ++ piece := by simp [none, whole]
    have gives : LineRead e failure read s _ _ := .line joined left
    simpa using gives
  | last whole left =>
    have joined : newline ∉ chunk ++ rest := by simp [none, whole]
    have gives : LineRead e failure read s _ _ := .last joined left
    simpa using gives

def lineTurn (r : ReaderId) (read : Bytes) : Proc (Bytes ⊕ Bytes × Option String) := do
  match ← ask (.fill r) with
  | .error message => pure (.inr (read, some message))
  | .ok [] => pure (.inr (read, none))
  | .ok chunk =>
    match throughNewline? chunk with
    | some line => do
      ask (.consume r line.length)
      pure (.inr (read ++ line, none))
    | none => do
      ask (.consume r chunk.length)
      pure (.inl (read ++ chunk))

theorem readLine_reading (r : ReaderId) :
    (StreamEnd.reading r).readLine = Proc.iterate [] (lineTurn r) := rfl

theorem meets_lineTurn (left : s.BytesLeft (.reading r) bytes failure) (read : Bytes) :
    Meets h (lineTurn r read) s fun y s' => s'.channels = s.channels ∧
      ((∃ x, y = .inr x ∧ LineRead (.reading r) failure read s' bytes x) ∨
        ∃ chunk rest, chunk ≠ [] ∧ newline ∉ chunk ∧ bytes = chunk ++ rest ∧
          y = .inl (read ++ chunk) ∧ s'.BytesLeft (.reading r) rest failure) := by
  obtain ⟨x, s₁, fill, gives⟩ := System.exists_fillBuffer? left
  have same : s₁.channels = s.channels := (System.reads_fillBuffer? fill).sameHolds.channels
  have filled : Meets h (ask (.fill r)) s fun y s' => y = x ∧ s' = s₁ :=
    meets_ask fill ⟨rfl, rfl⟩
  refine filled.bind ?_
  rintro x s₁ ⟨rfl, rfl⟩
  cases gives with
  | ended left' =>
    have gives : LineRead (.reading r) failure read s₁ [] _ := .last List.not_mem_nil left'
    rw [List.append_nil] at gives
    cases failure with
    | none => exact meets_done ⟨same, .inl ⟨_, rfl, gives⟩⟩
    | some message => exact meets_done ⟨same, .inl ⟨_, rfl, gives⟩⟩
  | @chunk chunk rest nonempty buffered =>
    have left' (n : Nat) : (s₁.consume r n).BytesLeft (.reading r) (chunk.drop n ++ rest) failure :=
      ⟨chunk.drop n, rest, buffered.consume, rfl⟩
    have consumed (n : Nat) : Meets h (ask (.consume r n)) s₁ fun _ s' => s' = s₁.consume r n :=
      meets_ask rfl rfl
    obtain ⟨b, chunk, rfl⟩ := List.exists_cons_of_ne_nil nonempty
    dsimp only
    rcases Text.append_cons_cases newline (b :: chunk) with whole | ⟨piece, more, split, whole⟩
    · rw [throughNewline?_of_not_mem whole]
      refine (consumed _).bind ?_
      rintro _ _ rfl
      refine meets_done ⟨same, .inr ⟨_, rest, nonempty, whole, rfl, rfl, ?_⟩⟩
      simpa using left' (b :: chunk).length
    · have after : (b :: chunk).drop (piece ++ [newline]).length = more := by simp [split]
      have left' := left' (piece ++ [newline]).length
      rw [after] at left'
      rw [split, throughNewline?_append whole]
      refine (consumed _).bind ?_
      rintro _ _ rfl
      have gives : LineRead (.reading r) failure read _ _ _ := .line whole left'
      exact meets_done ⟨same, .inl ⟨_, rfl, by simpa using gives⟩⟩

theorem meets_readFrom (left : s.BytesLeft (.reading r) bytes failure) (read : Bytes) :
    Meets h (Proc.iterate read (lineTurn r)) s fun x s' =>
      s'.channels = s.channels ∧ LineRead (.reading r) failure read s' bytes x := by
  induction hn : bytes.length using Nat.strongRecOn generalizing read bytes s with
  | _ n ih =>
  refine meets_iterate (meets_lineTurn left read) ?_ ?_
  · rintro y s' ⟨same, ⟨x, other, -⟩ | ⟨chunk, rest, some, none, rfl, again, left'⟩⟩
    · cases other
    · cases again
      have shorter : rest.length < n := by
        have := List.length_pos_iff.2 some
        rw [List.length_append] at hn
        omega
      refine (ih _ shorter left' _ rfl).mono ?_
      rintro x s'' ⟨same', gives⟩
      exact ⟨same'.trans same, gives.append none⟩
  · rintro x s' ⟨same, ⟨x, ends, gives⟩ | ⟨_, _, _, _, _, other, _⟩⟩
    · cases ends
      exact ⟨same, gives⟩
    · cases other

theorem meets_readLine (left : s.BytesLeft e bytes failure) :
    Meets h e.readLine s fun x s' =>
      s'.channels = s.channels ∧ LineRead e failure [] s' bytes x := by
  cases e with
  | reading r =>
    rw [readLine_reading]
    exact meets_readFrom left []
  | closed =>
    obtain ⟨rfl, rfl⟩ := left
    exact meets_done ⟨rfl, .last List.not_mem_nil ⟨rfl, rfl⟩⟩
  | writing w =>
    obtain ⟨rfl, rfl⟩ := left
    exact meets_done ⟨rfl, .last List.not_mem_nil ⟨rfl, rfl⟩⟩

end StreamEnd

end Conduit
