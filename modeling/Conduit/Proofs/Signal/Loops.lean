import Conduit.Signal
import Mathlib.Data.List.Infix

/-!
Loops within loops: which steps of a program of nested loops are executed, and what it answers.  A
break ends the innermost loop around it, a return or a failure ends all of them.
-/

namespace Conduit

namespace Signal

def endsAll : Signal → Bool
  | failure _ | flow .return => true
  | _ => false

theorem ne_flow_of_endsAll {r : Signal} (ends : r.endsAll) :
    r ≠ .flow .break ∧ r ≠ .flow .continue := by
  constructor <;> rintro rfl <;> cases ends

theorem stopsLoop_of_endsAll {r : Signal} (ends : r.endsAll) : r.stopsLoop = some r := by
  cases r with
  | ok => cases ends
  | failure => rfl
  | flow f => cases f <;> first | rfl | cases ends

theorem eq_break_of_stopsLoop {r r' : Signal} (open_ : ¬ r.endsAll)
    (stopped : r.stopsLoop = some r') : r = .flow .break := by
  cases r with
  | ok => cases stopped
  | failure => exact absurd rfl open_
  | flow f =>
    cases f with
    | «return» => exact absurd rfl open_
    | «break» => rfl
    | «continue» => cases stopped

end Signal

inductive Block (ι : Type)
  | step (name : ι) (answer : Signal)
  | loop (blocks : List (Block ι))

/-- A step of a program with its place: how to get there from the outermost loop, by the numbers of
the blocks that lead to it. -/
structure PlacedStep (ι : Type) where
  place : List Nat
  name : ι
  answer : Signal

namespace Block

variable {ι : Type} {m : Type → Type}

def run [Monad m] (visit : ι → m Unit) : Block ι → m Signal
  | step name answer => do
    visit name
    pure answer
  | loop blocks => runLoop (fun ⟨b, _⟩ => b.run visit) blocks.attach

mutual

def steps (place : List Nat) : Block ι → List (PlacedStep ι)
  | step name answer => [⟨place, name, answer⟩]
  | loop blocks => stepsFrom place 0 blocks

def stepsFrom (place : List Nat) (i : Nat) : List (Block ι) → List (PlacedStep ι)
  | [] => []
  | b :: blocks => steps (place ++ [i]) b ++ stepsFrom place (i + 1) blocks

end

end Block

namespace PlacedStep

variable {ι : Type} {x y : PlacedStep ι} {xs ys : List (PlacedStep ι)}

/-- Once the step has been executed, this other one is not executed any more: for a break, one that
is in the innermost loop around the break. -/
def cuts (x y : PlacedStep ι) : Bool :=
  x.answer.endsAll || (x.answer = .flow .break && x.place.dropLast.isPrefixOf y.place)

def executedAfter (done : List (PlacedStep ι)) : List (PlacedStep ι) → List (PlacedStep ι)
  | [] => []
  | x :: rest =>
    if done.any (·.cuts x) then executedAfter done rest else x :: executedAfter (done ++ [x]) rest

def executed (xs : List (PlacedStep ι)) : List (PlacedStep ι) := executedAfter [] xs

def outcome (done : List (PlacedStep ι)) : Signal :=
  ((done.find? (·.answer.endsAll)).map (·.answer)).getD .ok

theorem executedAfter_append (done xs ys : List (PlacedStep ι)) :
    executedAfter done (xs ++ ys) =
      executedAfter done xs ++ executedAfter (done ++ executedAfter done xs) ys := by
  induction xs generalizing done with
  | nil => simp [executedAfter]
  | cons x xs ih => by_cases cut : done.any (·.cuts x) <;> simp [executedAfter, cut, ih]

theorem executedAfter_eq_nil {done : List (PlacedStep ι)} (cut : ∀ y ∈ ys, done.any (·.cuts y)) :
    executedAfter done ys = [] := by
  induction ys with
  | nil => rfl
  | cons y ys ih =>
    obtain ⟨first, others⟩ := List.forall_mem_cons.1 cut
    rw [executedAfter, if_pos first, ih others]

theorem executedAfter_of_not_cuts {done more : List (PlacedStep ι)}
    (apart : ∀ y ∈ ys, ¬ done.any (·.cuts y)) :
    executedAfter (done ++ more) ys = executedAfter more ys := by
  induction ys generalizing more with
  | nil => rfl
  | cons y ys ih =>
    obtain ⟨first, others⟩ := List.forall_mem_cons.1 apart
    have same : (done ++ more).any (·.cuts y) = more.any (·.cuts y) := by
      rw [List.any_append, (Bool.not_eq_true _).mp first, Bool.false_or]
    rw [executedAfter, executedAfter, same, List.append_assoc, ih others, ih others]

theorem mem_of_mem_executedAfter {done : List (PlacedStep ι)} (mem : x ∈ executedAfter done xs) :
    x ∈ xs := by
  induction xs generalizing done with
  | nil => exact mem
  | cons y xs ih =>
    rw [executedAfter] at mem
    split at mem
    · exact .tail y (ih mem)
    · rcases List.mem_cons.1 mem with rfl | mem
      · exact .head xs
      · exact .tail y (ih mem)

theorem outcome_append (none : ∀ x ∈ xs, ¬ x.answer.endsAll) (ys : List (PlacedStep ι)) :
    outcome (xs ++ ys) = outcome ys := by
  have first : xs.find? (·.answer.endsAll) = .none := List.find?_eq_none.2 none
  rw [outcome, List.find?_append, first, Option.none_or, outcome]

theorem outcome_cases (xs : List (PlacedStep ι)) :
    ((∀ x ∈ xs, ¬ x.answer.endsAll) ∧ outcome xs = .ok) ∨
      ∃ x ∈ xs, x.answer.endsAll ∧ outcome xs = x.answer := by
  rw [outcome]
  cases first : xs.find? (·.answer.endsAll) with
  | none => exact .inl ⟨List.find?_eq_none.1 first, rfl⟩
  | some x =>
    have ends := List.find?_some first
    exact .inr ⟨x, List.mem_of_find?_eq_some first, ends, rfl⟩

end PlacedStep

namespace Block

open PlacedStep (executed executedAfter outcome)

variable {ι : Type} {m : Type → Type} {place : List Nat} {i : Nat} {x : PlacedStep ι}

/-! ### Places -/

theorem runLoop_map [Monad m] {α β : Type} (f : β → m Signal) (g : α → β) (xs : List α) :
    runLoop f (xs.map g) = runLoop (fun x => f (g x)) xs := by
  induction xs with
  | nil => rfl
  | cons x xs ih => simp only [List.map_cons, runLoop, ih]

theorem run_loop [Monad m] (visit : ι → m Unit) (blocks : List (Block ι)) :
    (loop blocks).run visit = runLoop (run visit) blocks := by
  rw [run, ← runLoop_map (run visit) Subtype.val, List.attach_map_subtype_val]

mutual

theorem prefix_of_mem_steps : ∀ (b : Block ι) {place : List Nat} {x : PlacedStep ι},
    x ∈ b.steps place → place <+: x.place
  | step _ _, _, _, mem => List.mem_singleton.1 mem ▸ List.prefix_rfl
  | loop blocks, place, _, mem => by
    obtain ⟨j, -, inside⟩ := prefix_of_mem_stepsFrom blocks mem
    exact (List.prefix_append place [j]).trans inside

theorem prefix_of_mem_stepsFrom : ∀ (blocks : List (Block ι)) {place : List Nat} {i : Nat}
    {x : PlacedStep ι}, x ∈ stepsFrom place i blocks → ∃ j, i ≤ j ∧ place ++ [j] <+: x.place
  | [], _, _, _, mem => nomatch mem
  | b :: blocks, _, i, _, mem => by
    rcases List.mem_append.1 mem with mem | mem
    · exact ⟨i, Nat.le_refl i, prefix_of_mem_steps b mem⟩
    · obtain ⟨j, later, inside⟩ := prefix_of_mem_stepsFrom blocks mem
      exact ⟨j, Nat.le_of_succ_le later, inside⟩

end

theorem not_cuts {inner blocks : List (Block ι)} {x y : PlacedStep ι}
    (within : x ∈ stepsFrom (place ++ [i]) 0 inner) (later : y ∈ stepsFrom place (i + 1) blocks)
    (open_ : ¬ x.answer.endsAll) : ¬ x.cuts y := by
  obtain ⟨j, -, inside⟩ := prefix_of_mem_stepsFrom inner within
  obtain ⟨k, after, outside⟩ := prefix_of_mem_stepsFrom blocks later
  intro cut
  have loop : x.place.dropLast <+: y.place := by
    simp [PlacedStep.cuts, open_] at cut
    exact cut.2
  obtain ⟨more, same⟩ := inside
  have around : place ++ [i] <+: x.place.dropLast := by
    rw [← same, List.append_assoc (place ++ [i]), List.dropLast_append_of_ne_nil (by simp)]
    exact List.prefix_append _ _
  have both := List.prefix_of_prefix_length_le (around.trans loop) outside (by simp)
  have one : place ++ [i] = place ++ [k] := both.eq_of_length (by simp)
  have : i = k := by simpa using one
  omega

/-! ### Runs -/

section Runs

variable [Monad m] [LawfulMonad m] {visit : ι → m Unit} {b : Block ι} {blocks : List (Block ι)}

def Obeys (visit : ι → m Unit) (place : List Nat) (i : Nat) (blocks : List (Block ι)) : Prop :=
  runLoop (run visit) blocks = do
    (executed (stepsFrom place i blocks)).forM fun x => visit x.name
    pure (outcome (executed (stepsFrom place i blocks)))

theorem Obeys.cons {done : List (PlacedStep ι)} {r : Signal}
    (same : executed (b.steps (place ++ [i])) = done)
    (first : b.run visit = do done.forM fun x => visit x.name; pure r)
    (stops : ∀ r', r.stopsLoop = some r' → outcome done = r' ∧
      ∀ y ∈ stepsFrom place (i + 1) blocks, done.any (·.cuts y))
    (goesOn : r.stopsLoop = none → (∀ x ∈ done, ¬ x.answer.endsAll) ∧
      ∀ y ∈ stepsFrom place (i + 1) blocks, ¬ done.any (·.cuts y))
    (rest : Obeys visit place (i + 1) blocks) : Obeys visit place i (b :: blocks) := by
  rw [Obeys, stepsFrom, executed, PlacedStep.executedAfter_append, List.nil_append, ← executed,
    same, runLoop, first]
  cases stopped : r.stopsLoop with
  | some r' =>
    obtain ⟨answer, cut⟩ := stops r' stopped
    rw [PlacedStep.executedAfter_eq_nil cut, List.append_nil, answer]
    simp [stopped]
  | none =>
    obtain ⟨none, apart⟩ := goesOn stopped
    have others : executedAfter (done ++ []) _ = executedAfter [] _ :=
      PlacedStep.executedAfter_of_not_cuts apart
    rw [List.append_nil] at others
    rw [others, PlacedStep.outcome_append none]
    rw [Obeys] at rest
    simp [stopped, rest, executed, List.forM_append]

theorem obeys_step {name : ι} {answer : Signal} (rest : Obeys visit place (i + 1) blocks) :
    Obeys visit place i (step name answer :: blocks) := by
  have inside (y : PlacedStep ι) (mem : y ∈ stepsFrom place (i + 1) blocks) :
      place <+: y.place := by
    obtain ⟨j, -, inside⟩ := prefix_of_mem_stepsFrom blocks mem
    exact (List.prefix_append place [j]).trans inside
  have own : executed ((step name answer).steps (place ++ [i])) =
      [⟨place ++ [i], name, answer⟩] := rfl
  refine .cons (r := answer) own ?_ ?_ ?_ rest
  · simp [run]
  · intro r' stopped
    by_cases ends : answer.endsAll
    · rw [Signal.stopsLoop_of_endsAll ends] at stopped
      cases stopped
      exact ⟨by simp [outcome, ends], fun y _ => by simp [PlacedStep.cuts, ends]⟩
    · obtain rfl := Signal.eq_break_of_stopsLoop ends stopped
      cases stopped
      exact ⟨rfl, fun y mem => by simpa [PlacedStep.cuts] using .inr (inside y mem)⟩
  · intro stopped
    have open_ : ¬ answer.endsAll := fun ends => by
      rw [Signal.stopsLoop_of_endsAll ends] at stopped
      cases stopped
    have other : answer ≠ .flow .break := by rintro rfl; cases stopped
    simp [PlacedStep.cuts, open_, other]

theorem obeys_loop {inner : List (Block ι)} (nested : Obeys visit (place ++ [i]) 0 inner)
    (rest : Obeys visit place (i + 1) blocks) : Obeys visit place i (loop inner :: blocks) := by
  refine .cons rfl ((run_loop visit inner).trans nested) ?_ ?_ rest
  · intro r' stopped
    rcases PlacedStep.outcome_cases (executed (stepsFrom (place ++ [i]) 0 inner)) with
      ⟨-, ok⟩ | ⟨x, mem, ends, same⟩
    · rw [ok] at stopped
      cases stopped
    · rw [same, Signal.stopsLoop_of_endsAll ends] at stopped
      cases stopped
      exact ⟨same, fun y _ => List.any_eq_true.2 ⟨x, mem, by simp [PlacedStep.cuts, ends]⟩⟩
  · intro stopped
    rcases PlacedStep.outcome_cases (executed (stepsFrom (place ++ [i]) 0 inner)) with
      ⟨open_, -⟩ | ⟨x, -, ends, same⟩
    · refine ⟨open_, fun y later cut => ?_⟩
      obtain ⟨x, mem, cut⟩ := List.any_eq_true.1 cut
      exact not_cuts (PlacedStep.mem_of_mem_executedAfter mem) later (open_ x mem) cut
    · rw [same, Signal.stopsLoop_of_endsAll ends] at stopped
      cases stopped

theorem obeys (visit : ι → m Unit) : ∀ (blocks : List (Block ι)) (place : List Nat) (i : Nat),
    Obeys visit place i blocks
  | [], _, _ => by simp [Obeys, runLoop, stepsFrom, executed, executedAfter, outcome]
  | step _ _ :: blocks, place, i => obeys_step (obeys visit blocks place (i + 1))
  | loop inner :: blocks, place, i =>
    obeys_loop (obeys visit inner (place ++ [i]) 0) (obeys visit blocks place (i + 1))

theorem outcome_ne_flow (xs : List (PlacedStep ι)) :
    outcome xs ≠ .flow .break ∧ outcome xs ≠ .flow .continue := by
  rcases PlacedStep.outcome_cases xs with ⟨-, ok⟩ | ⟨x, -, ends, same⟩
  · rw [ok]
    exact ⟨nofun, nofun⟩
  · rw [same]
    exact Signal.ne_flow_of_endsAll ends

/-- Nested loops execute, depth first and from left to right, the steps that none executed before
them cuts, and nothing else; they answer the first of their signals that ends all loops, or else
that all is well, and so no loop ever answers a break or a continue. -/
theorem nested_loops (visit : ι → m Unit) (blocks : List (Block ι)) :
    (runLoop (run visit) blocks = do
      (executed (stepsFrom [] 0 blocks)).forM fun x => visit x.name
      pure (outcome (executed (stepsFrom [] 0 blocks)))) ∧
      outcome (executed (stepsFrom [] 0 blocks)) ≠ .flow .break ∧
      outcome (executed (stepsFrom [] 0 blocks)) ≠ .flow .continue :=
  ⟨obeys visit blocks [] 0, outcome_ne_flow _⟩

end Runs

theorem nested_break_and_return :
    runLoop (m := StateM (List Nat)) (run fun n => modify (· ++ [n]))
      [.step 0 .ok, .loop [.step 1 (.flow .continue), .step 2 (.flow .break), .step 3 .ok],
        .step 4 .ok, .loop [.loop [.step 5 (.flow .return)], .step 6 .ok], .step 7 (.failure "x")]
      [] = (.flow .return, [0, 1, 2, 4, 5]) := by
  rw [(nested_loops _ _).1]
  rfl

end Block

end Conduit
