import Conduit.CommandLine.Call
import Conduit.Proofs.Builtin.Views

/-!
What a builtin may do that is called from the command line with strings for its arguments: whichever
it is, it writes no more than one of the two views of its output.
-/

namespace Conduit

open Proc (Heeds ask)

def Request.isElsewhere : Request → Bool
  | home | workingDirectory | enterDirectory _ | addVisit _ _ | listVisited _
  | findVisited _ _ => true
  | _ => false

theorem Request.isElsewhere_of_isConsultation {r : Request} (consultation : r.isConsultation) :
    r.isElsewhere := by
  cases r <;> first | rfl | cases consultation

namespace Context

def Acts (ctx : Context) (writes : View) (r : Request) : Prop :=
  (∃ reads, ctx.Uses reads writes r) ∨ ctx.aux.Writes writes r ∨ r.isElsewhere

structure Unassisted (ctx : Context) : Prop where
  editor : ctx.editor = none
  evaluator : ctx.evaluator = none

end Context

namespace Builtin

variable {ctx : Context}

theorem consults {writes : View} (r : Request) (consultation : r.isConsultation) :
    ctx.Acts writes r :=
  .inr (.inr (r.isElsewhere_of_isConsultation consultation))

theorem heeds_each (args : List String) : Heeds (ctx.Acts .values) Refused none
    ((fixed "each" [ofFunction] each).call ctx (args.map .string)) := by
  refine heeds_call fun p started => ?_
  cases args <;> cases started

theorem heeds_askEditor (unassisted : ctx.Unassisted) (r : EditorRequest) :
    Heeds (ctx.Acts .values) Refused none (askEditor ctx r) := by
  rw [askEditor, unassisted.editor]
  exact .done _

theorem heeds_source (unassisted : ctx.Unassisted) (path : String) :
    Heeds (ctx.Acts .values) Refused none (source ctx path) := by
  rw [source, unassisted.evaluator]
  exact .done _

theorem heeds_standard {b : Builtin} (standard : b ∈ Builtin.standard) :
    ∃ writes, ∀ (ctx : Context) (args : List String), ctx.Unassisted →
      Heeds (ctx.Acts writes) Refused none (b.call ctx (args.map .string)) := by
  by_cases plain : b.name ∈ plainNames
  · obtain ⟨reads, writes, heeds⟩ := heeds_plain standard plain
    exact ⟨writes, fun ctx args _ => (heeds ctx _).mono fun _ uses => .inl ⟨reads, uses⟩⟩
  · have others : b = fixed "-stack" [] stack ∨ b = fixed "each" [ofFunction] each ∨
        b = raw "cd" cd ∨ b = fixed "visited-dirs" [] visitedDirectories ∨
        b = fixed "jump-dir" [.text] jumpDirectory ∨ b = fixed "bind" [.text, .text] bindKey ∨
        b = variadic "le" [.text] anyValue editorCommand ∨ b = fixed "source" [.text] source := by
      revert plain
      simp only [Builtin.standard, List.mem_cons, List.not_mem_nil, or_false] at standard
      rcases standard with rfl | rfl | rfl | rfl | rfl | rfl | rfl | rfl | rfl | rfl | rfl | rfl |
        rfl | rfl | rfl | rfl | rfl | rfl | rfl | rfl | rfl | rfl | rfl | rfl | rfl | rfl | rfl |
        rfl | rfl <;> intro plain <;> first | exact absurd (by decide) plain | tauto
    rcases others with rfl | rfl | rfl | rfl | rfl | rfl | rfl | rfl
    · exact ⟨.bytes, fun _ _ _ => heeds_fixed (heeds_stack
        (fun _ _ writing some => .inr (.inl ⟨writing, some⟩)) fun _ writing => .inr (.inl writing))⟩
    · exact ⟨.values, fun _ args _ => heeds_each args⟩
    · exact ⟨.values, fun _ _ _ => heeds_raw
        (heeds_cd consults (fun _ => .inr (.inr rfl)) (fun _ _ _ => .inr (.inr rfl)) _)⟩
    · exact ⟨.values, fun _ _ _ => heeds_fixed
        (heeds_visitedDirectories consults fun _ _ writing => .inl ⟨.values, .inr writing⟩)⟩
    · exact ⟨.values, fun _ _ _ => heeds_fixed
        (heeds_jumpDirectory consults (fun _ => .inr (.inr rfl)) fun _ _ _ => .inr (.inr rfl))⟩
    · exact ⟨.values, fun _ _ unassisted => heeds_fixed fun _ _ => heeds_askEditor unassisted _⟩
    · exact ⟨.values, fun _ _ unassisted => heeds_variadic fun _ _ => heeds_askEditor unassisted _⟩
    · exact ⟨.values, fun _ _ unassisted => heeds_fixed (heeds_source unassisted)⟩

end Builtin

end Conduit
