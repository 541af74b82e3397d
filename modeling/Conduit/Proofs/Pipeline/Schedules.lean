import Conduit.Proofs.Pipeline.Course
import Conduit.Proofs.Proc.Beside

/-!
Pipelines are independent of scheduling: however the steps of the stages are interleaved and however
little the conduits between them hold, what comes out is what the stages do one after another.
-/

namespace Conduit

open Proc

namespace Pipeline

variable {h : Host} {s₀ s s' t t' : System} {template : Context} {n k scopes : Nat} {turns : Turns}
  {p : Proc Signal} {es : List Event} {left : Nat → List PortEnd} {after : Nat → List Event}
  {readsOf writesOf : Nat → View} {stages : List Stage} {o : Outcome Signal}
  {taken : List (List Event × Signal)}

def SetUp (s₀ : System) (template : Context) (stages : List Stage) (s : System) : Prop :=
  Ready s₀ s stages.length (stages.length - 1) fun e =>
    holdsOf e ((stageContexts s₀ template stages.length 0 stages.length).flatMap (·.ports))

def stageProcs (s₀ : System) (template : Context) (stages : List Stage) : List (Proc Signal) :=
  (stageContexts s₀ template stages.length 0 stages.length).zipWith runStage stages

theorem course_start (viewed : Viewed stages readsOf writesOf)
    (ready : SetUp s₀ template stages s)
    (each : ∀ i stage, stages[i]? = some stage →
      turns.Of h s₀ template stages.length 0 i stage taken[i]?)
    (begun : ∀ k < stages.length, turns.Begun s₀ template stages.length s k) :
    Course h s₀ template stages.length turns readsOf writesOf
      (stageProcs s₀ template stages) s [] (stageEnds s₀ template stages.length) turns.events where
  accounts := accounts_of_ready ready
  filled := .of_laid ready.laid
  length := by simp [stageProcs, stageContexts]
  phase k p here := by
    obtain ⟨ctx, stage, there, stage', rfl⟩ := List.getElem?_zipWith_eq_some.1 here
    have lt : k < stages.length := (List.getElem?_eq_some_iff.1 stage').1
    have same : ctx = stageContext s₀ template stages.length k := by
      simp [stageContexts, lt] at there
      exact there.symm
    subst same
    rw [runStage_eq]
    obtain ⟨call, -⟩ := each k stage stage'
    rw [Nat.zero_add] at call
    obtain ⟨abreast, accounts⟩ := begun k lt
    exact .following
      ⟨call, viewed k stage stage' _ _, fun _ none => (by cases none), trivial, accounts,
        List.suffix_refl _⟩
      abreast (fun _ => rfl) rfl fun _ _ _ _ _ mem _ => mem
  output := ⟨rfl, rfl⟩

theorem Phase.ended (phase : Phase h s₀ template n turns readsOf writesOf s left after k p)
    (outcome : p.outcome? = some o) : left k = [] ∧ after k = [] ∧ ∃ a, o = .returned a ∧
      (a = turns.signal k ∨ k + 1 < n ∧
        (a = .failure "port reader gone" ∨ a = .failure "pipe reader closed") ∧
        ∃ j, k ≤ j ∧ j + 1 < n ∧ Loose s₀ template n turns j) := by
  cases phase with
  | @following t due beyond p solo _ _ whole =>
    cases p with
    | done a =>
      obtain ⟨none, rfl⟩ := solo.of_done
      obtain ⟨gaveUp, same⟩ := outcome_releasing outcome
      exact ⟨whole.trans gaveUp, none, _, same, .inl rfl⟩
    | panic => nomatch solo.heeds
    | request => cases outcome
    | loop => cases outcome
    | host => cases outcome
    | both => cases outcome
  | leaving none =>
    obtain ⟨gaveUp, same⟩ := outcome_releasing outcome
    exact ⟨gaveUp, none, _, same, .inl rfl⟩
  | cut isCut none inner _ loose =>
    obtain ⟨gaveUp, same⟩ := outcome_releasing outcome
    refine ⟨gaveUp, none, _, same, .inr ⟨inner, ?_, loose⟩⟩
    rcases isCut with rfl | rfl
    · exact .inl rfl
    · exact .inr rfl

structure Settled (s₀ : System) (template : Context) (n : Nat) (turns : Turns) (s : System)
    (es all : List Event) (outcomes : List (Outcome Signal)) : Prop where
  length : outcomes.length = n
  each : ∀ k x, outcomes[k]? = some x → ∃ a, x = .returned a ∧
    (a = turns.signal k ∨ k + 1 < n ∧
      (a = .failure "port reader gone" ∨ a = .failure "pipe reader closed") ∧
      ∃ j, k ≤ j ∧ j + 1 < n ∧ Loose s₀ template n turns j)
  output : SameOutput template.output es all
  holders : ∀ e, s.holders e = s₀.holders e
  pipes : ∀ i < s₀.pipes.size, (s.pipes[i]?).map Channel.sides = (s₀.pipes[i]?).map Channel.sides

theorem Course.settled {ps : List (Proc Signal)} {outcomes : List (Outcome Signal)}
    (course : Course h s₀ template n turns readsOf writesOf ps s es left after) (some : 0 < n)
    (ended : ps.map outcome? = outcomes.map Option.some) :
    Settled s₀ template n turns s es (turns.events (n - 1)) outcomes := by
  have length : outcomes.length = ps.length := by
    simpa using (congrArg List.length ended).symm
  have each (k : Nat) (x : Outcome Signal) (here : outcomes[k]? = Option.some x) :
      ∃ p, ps[k]? = Option.some p ∧ p.outcome? = Option.some x := by
    have same := congrArg (·[k]?) ended
    simp only [List.getElem?_map, here, Option.map_some] at same
    exact Option.map_eq_some_iff.1 same
  have phase (k : Nat) (lt : k < n) : left k = [] ∧ after k = [] := by
    have inside : k < outcomes.length := by rw [length, course.length]; exact lt
    obtain ⟨p, here, outcome⟩ := each k _ (List.getElem?_eq_getElem inside)
    obtain ⟨gaveUp, none, -⟩ := (course.phase k p here).ended outcome
    exact ⟨gaveUp, none⟩
  refine ⟨length.trans course.length, fun k x here => ?_, ?_,
    course.accounts.holders_of_done fun k lt => (phase k lt).1, course.accounts.kept.oldPipes⟩
  · obtain ⟨p, there, outcome⟩ := each k x here
    obtain ⟨-, -, a⟩ := (course.phase k p there).ended outcome
    exact a
  · have output := course.output
    rwa [(phase (n - 1) (by omega)).2, List.append_nil] at output

/-! ### The stages one after another -/

/-- The stages run one after another in the contexts that they have in a pipeline, each to its end
before the next one begins. -/
def RunsInTurn (h : Host) (template : Context) (capacities : Capacities) (stages : List Stage)
    (s : System) (turns : List (List Event × Signal)) (s' : System) : Prop :=
  ∃ es ctxs s₁, Runs h (setup template capacities stages.length) s es (.returned ctxs) s₁ ∧
    InTurn h (ctxs.zipWith runStage stages) s₁ turns s'

theorem sameOutput_of_within (sound : template.Sound s₀) {reads writes : View} (inner : k + 1 < n)
    (within : Within ((stageContext s₀ template n k).Uses reads writes) es) :
    SameOutput template.output es [] := by
  induction es with
  | nil => exact ⟨rfl, rfl⟩
  | cons ev es ih =>
    obtain ⟨asked, others⟩ := List.forall_mem_cons.1 within
    obtain ⟨due, r, x, rfl, act⟩ := act_of_within asked
    exact (sameOutput_of_act sound inner act).append (ih others)

theorem sameOutput_flatMap {port : Port} {ordered : List (List Event × Signal)} {es : List Event}
    {a : Signal} (last : ordered[ordered.length - 1]? = some (es, a))
    (others : ∀ k t, ordered[k]? = some t → k + 1 < ordered.length → SameOutput port t.1 []) :
    SameOutput port (ordered.flatMap Prod.fst) es := by
  induction ordered with
  | nil => cases last
  | cons t ordered ih =>
    cases ordered with
    | nil => cases last; exact ⟨by simp, by simp⟩
    | cons t' ordered =>
      have first := others 0 t rfl (by simp)
      have rest := ih (by simpa using last) fun k t here inner =>
        others (k + 1) t here (by simpa using inner)
      exact first.append rest

theorem sameOutput_releasing {α : Type} {a : α} {o : Outcome α} {ends : List PortEnd} {port : Port}
    (run : Runs h (releasing a ends) t es o t') : SameOutput port es [] := by
  induction ends generalizing t es with
  | nil =>
    obtain ⟨rfl, -⟩ := runs_done.1 run
    exact ⟨rfl, rfl⟩
  | cons d ends ih =>
    obtain ⟨y, t₁, es, -, rfl, rest⟩ := runs_request.1 run
    exact (sameOutput_release d y port).append (ih rest)

theorem setUp_of_runs {capacities : Capacities} {o : Outcome (List Context)}
    (sound : template.Sound s) (run : Runs h (setup template capacities stages.length) s es o s') :
    o = .returned (stageContexts s template stages.length 0 stages.length) ∧
      SetUp s template stages s' ∧ SameOutput template.output es [] := by
  obtain ⟨ctxs, rfl, rfl, ready⟩ := (meets_setup sound stages.length).2 es o s' run
  obtain ⟨values, bytes⟩ := Idle.unwritten ((heeds_setup ..).runs run)
  exact ⟨rfl, ready, values _, bytes _⟩

structure InOrder (h : Host) (template : Context) (stages : List Stage) (s : System)
    (ordered : List (List Event × Signal)) (turns : Turns) : Prop where
  length : ordered.length = stages.length
  each : ∀ i stage, stages[i]? = some stage →
    turns.Of h s template stages.length 0 i stage ordered[i]?
  begun : ∀ s₁, SetUp s template stages s₁ → ∀ k < stages.length,
    turns.Begun s template stages.length s₁ k

theorem RunsInTurn.inOrder {ample : Capacities} {ordered : List (List Event × Signal)}
    (inTurn : RunsInTurn h template ample stages s ordered t) (sound : template.Sound s)
    (viewed : Viewed stages readsOf writesOf) :
    ∃ turns, InOrder h template stages s ordered turns := by
  obtain ⟨es, ctxs, s₁, made, inTurn⟩ := inTurn
  obtain ⟨same, ready, -⟩ := setUp_of_runs sound made
  cases same
  obtain ⟨turns, begun, length, each⟩ := exists_turns inTurn
  refine ⟨turns, length, each, fun s₁ ready' k lt => ?_⟩
  exact begun_of_turns sound viewed ready' (begun ▸ ready) each lt

theorem InOrder.output {ordered : List (List Event × Signal)}
    (inOrder : InOrder h template stages s ordered turns) (sound : template.Sound s)
    (viewed : Viewed stages readsOf writesOf) (some : 0 < stages.length) :
    SameOutput template.output (ordered.flatMap Prod.fst) (turns.events (stages.length - 1)) := by
  have called (k : Nat) (lt : k < stages.length) : ∃ closing,
      ordered[k]? = Option.some (turns.events k ++ closing, turns.signal k) ∧
        SameOutput template.output closing [] ∧ (k + 1 < stages.length →
          SameOutput template.output (turns.events k) []) := by
    obtain ⟨call, closing, here, close⟩ := inOrder.each k _ (List.getElem?_eq_getElem lt)
    rw [Nat.zero_add] at call
    refine ⟨closing, here, sameOutput_releasing close, fun inner => ?_⟩
    exact sameOutput_of_within sound inner
      ((viewed k _ (List.getElem?_eq_getElem lt) _ _).runs call)
  obtain ⟨closing, last, closed, -⟩ := called (stages.length - 1) (by omega)
  rw [← inOrder.length] at last
  refine (sameOutput_flatMap last fun k t here inner => ?_).trans ?_
  · rw [inOrder.length] at inner
    obtain ⟨closing, there, closed, unwritten⟩ := called k (by omega)
    rw [here] at there
    cases there
    exact (unwritten inner).append closed
  · have all : SameOutput template.output (turns.events (ordered.length - 1) ++ closing)
        (turns.events (ordered.length - 1) ++ []) := .append ⟨rfl, rfl⟩ closed
    rw [List.append_nil] at all
    rwa [inOrder.length] at all ⊢

/-! ### Side by side -/

theorem run_eq (template : Context) (capacities : Capacities) (stages : List Stage) :
    run template capacities stages = (setup template capacities stages.length).bind fun ctxs =>
      (concurrently (ctxs.zipWith runStage stages)).bind fun outcomes =>
        done (outcomes.map stageSignal) :=
  (Proc.bind_assoc (forks template 0 stages.length) (connectAll capacities) _).symm

theorem exists_course {ordered : List (List Event × Signal)} {q : Proc (List (Outcome Signal))}
    (inOrder : InOrder h template stages s₀ ordered turns) (sound : template.Sound s₀)
    (viewed : Viewed stages readsOf writesOf) (ready : SetUp s₀ template stages s)
    (steps : Steps h (concurrently (stageProcs s₀ template stages)) s es q s') :
    ∃ ps, Beside q ps ∧ ∃ left after, Course h s₀ template stages.length turns readsOf writesOf ps
      s' es left after := by
  have start := course_start viewed ready inOrder.each (inOrder.begun s ready)
  refine steps_concurrently (motive := fun ps s es => ∃ left after,
    Course h s₀ template stages.length turns readsOf writesOf ps s es left after)
    ⟨_, _, start⟩ ?_ steps
  rintro ps s es k p es' p' s' ⟨left, after, course⟩ here step
  exact course.step sound (course.lt here) here step

theorem runs_concurrently {ordered : List (List Event × Signal)}
    {o : Outcome (List (Outcome Signal))}
    (inOrder : InOrder h template stages s₀ ordered turns) (sound : template.Sound s₀)
    (viewed : Viewed stages readsOf writesOf) (ready : SetUp s₀ template stages s)
    (run : Runs h (concurrently (stageProcs s₀ template stages)) s es o s') :
    ∃ outcomes, o = .returned outcomes ∧
      Settled s₀ template stages.length turns s' es (ordered.flatMap Prod.fst) outcomes := by
  cases stages with
  | nil =>
    obtain ⟨rfl, rfl, rfl⟩ := runs_done.1 run
    obtain rfl := List.eq_nil_of_length_eq_zero inOrder.length
    have accounts : Accounts s₀ template 0 s' (stageEnds s₀ template 0) := accounts_of_ready ready
    exact ⟨[], rfl, rfl, nofun, ⟨rfl, rfl⟩,
      accounts.holders_of_done fun k lt => absurd lt k.not_lt_zero, accounts.kept.oldPipes⟩
  | cons stage stages =>
    obtain ⟨q, steps, outcome⟩ := run
    obtain ⟨ps, beside, left, after, course⟩ := exists_course inOrder sound viewed ready steps
    obtain ⟨outcomes, rfl, rfl⟩ := beside.outcome outcome
    obtain ⟨length, each, output, holders, pipes⟩ := course.settled (Nat.succ_pos _) beside.outcomes
    obtain ⟨values, bytes⟩ := inOrder.output sound viewed (Nat.succ_pos _)
    exact ⟨outcomes, rfl, length, each, output.trans ⟨values.symm, bytes.symm⟩, holders, pipes⟩

theorem settled_of_runs {capacities : Capacities} {ordered : List (List Event × Signal)}
    {o : Outcome (List Signal)} (inOrder : InOrder h template stages s ordered turns)
    (sound : template.Sound s) (viewed : Viewed stages readsOf writesOf)
    (runs : Runs h (run template capacities stages) s es o s') :
    ∃ outcomes, o = .returned (outcomes.map stageSignal) ∧
      Settled s template stages.length turns s' es (ordered.flatMap Prod.fst) outcomes := by
  rw [run_eq] at runs
  rcases runs_bind.1 runs with ⟨message, -, broken⟩ | ⟨ctxs, es₁, es₂, s₁, rfl, made, rest⟩
  · cases (setUp_of_runs sound broken).1
  obtain ⟨same, ready, silent⟩ := setUp_of_runs sound made
  cases same
  rcases runs_bind.1 rest with ⟨message, -, broken⟩ | ⟨outcomes, es₂, es₃, s₂, rfl, ran, ended⟩
  · obtain ⟨_, other, -⟩ := runs_concurrently inOrder sound viewed ready broken
    cases other
  obtain ⟨outcomes, same, length, each, output, holders, pipes⟩ :=
    runs_concurrently inOrder sound viewed ready ran
  cases same
  obtain ⟨rfl, rfl, rfl⟩ := runs_done.1 ended
  rw [List.append_nil]
  exact ⟨outcomes, rfl, length, each, silent.append output, holders, pipes⟩

/-- Whatever the stages write, however little the conduits between them hold and in whichever order
they take their steps: when all have ended, the output has the values and the bytes that it would
have from one stage after another; so is the signal of the last stage, and so is that of each other
one unless its reader had gone; and everything that was held before is held as it was. -/
theorem schedule_independent (plain : ∀ stage ∈ stages,
      stage.builtin ∈ Builtin.standard ∧ stage.builtin.name ∈ Builtin.plainNames)
    (sound : template.Sound s) {capacities ample : Capacities}
    {ordered : List (List Event × Signal)}
    (inTurn : RunsInTurn h template ample stages s ordered t) {o : Outcome (List Signal)}
    (runs : Runs h (run template capacities stages) s es o s') :
    ∃ signals, o = .returned signals ∧ signals.length = stages.length ∧
      ordered.length = stages.length ∧
      (∀ k a, signals[k]? = some a → ∃ events b, ordered[k]? = some (events, b) ∧
        (a = b ∨ k + 1 < stages.length ∧
          (a = .failure "port reader gone" ∨ a = .failure "pipe reader closed"))) ∧
      valuesTo template.output.channel es =
        valuesTo template.output.channel (ordered.flatMap Prod.fst) ∧
      bytesTo template.output.stream es =
        bytesTo template.output.stream (ordered.flatMap Prod.fst) ∧
      (∀ e, s'.holders e = s.holders e) ∧
      ∀ i < s.pipes.size, (s'.pipes[i]?).map Channel.sides = (s.pipes[i]?).map Channel.sides := by
  obtain ⟨readsOf, writesOf, viewed⟩ := exists_viewed plain
  obtain ⟨turns, inOrder⟩ := inTurn.inOrder sound viewed
  obtain ⟨outcomes, rfl, settled⟩ := settled_of_runs inOrder sound viewed runs
  refine ⟨_, rfl, by rw [List.length_map, settled.length], inOrder.length, fun k a here => ?_,
    settled.output.1, settled.output.2, settled.holders, settled.pipes⟩
  rw [List.getElem?_map] at here
  obtain ⟨x, there, rfl⟩ := Option.map_eq_some_iff.1 here
  obtain ⟨a, rfl, signal⟩ := settled.each k x there
  have lt : k < stages.length := settled.length ▸ (List.getElem?_eq_some_iff.1 there).1
  obtain ⟨-, closing, taken, -⟩ := inOrder.each k _ (List.getElem?_eq_getElem lt)
  refine ⟨_, _, taken, ?_⟩
  rcases signal with same | ⟨inner, cut, -⟩
  · exact .inl same
  · exact .inr ⟨inner, cut⟩

end Pipeline

namespace Pipeline.PutIntoLines

def system : System where
  writers := #[{ target := .sink #[] none none }]

def template : Context := .ofPorts "lines" [.closed, ⟨.closed, .writing ⟨0⟩⟩] ⟨0⟩

def stages : List Stage :=
  [⟨.raw "put" Builtin.put, [.string "a", .string "b"]⟩,
    ⟨.fixed "into-lines" [] Builtin.intoLines, []⟩]

theorem sound : template.Sound system where
  held := by decide
  reader := nofun
  writer w p writing := by cases writing; exact nofun

theorem plain : ∀ stage ∈ stages,
    stage.builtin ∈ Builtin.standard ∧ stage.builtin.name ∈ Builtin.plainNames := by
  simp only [stages, List.forall_mem_cons]
  exact ⟨⟨List.mem_of_getElem? (i := 2) rfl, by decide⟩,
    ⟨List.mem_of_getElem? (i := 10) rfl, by decide⟩, nofun⟩

def begun : System := (Proc.run .none 40 (setup template {} 2) system).2

def stage (k : Nat) : Proc Signal :=
  runStage (stageContext system template 2 k) (stages[k]?.getD ⟨.raw ":" Builtin.nop, []⟩)

def halfway : System := (Proc.run .none 40 (stage 0) begun).2

def turns : List (List Event × Signal) :=
  [(trace .none 40 (stage 0) begun, .ok), (trace .none 60 (stage 1) halfway, .ok)]

theorem exists_runsInTurn : ∃ t, RunsInTurn .none template {} stages system turns t := by
  have made : (Proc.run .none 40 (setup template {} 2) system).1 =
    some (.returned (stageContexts system template 2 0 2)) := by rfl
  have first : (Proc.run .none 40 (stage 0) begun).1 = some (.returned .ok) := by rfl
  have last : (Proc.run .none 60 (stage 1) halfway).1 = some (.returned .ok) := by rfl
  exact ⟨_, _, _, _, runs_trace (Prod.ext made rfl), .cons (runs_trace (Prod.ext first rfl))
    (.cons (runs_trace (Prod.ext last rfl)) .nil)⟩

theorem exists_run : ∃ es s',
    Runs .none (run template ⟨0, 0⟩ stages) system es (.returned [.ok, .ok]) s' := by
  have ends : (Proc.run .none 160 (run template ⟨0, 0⟩ stages) system).1 =
    some (.returned [.ok, .ok]) := by rfl
  obtain ⟨es, run⟩ := runs_of_run (Prod.ext ends rfl)
  exact ⟨es, _, run⟩

theorem lines_as_in_turn :
    (∀ stage ∈ stages,
      stage.builtin ∈ Builtin.standard ∧ stage.builtin.name ∈ Builtin.plainNames) ∧
      template.Sound system ∧ ∃ t es s',
        RunsInTurn .none template {} stages system turns t ∧
        Runs .none (run template ⟨0, 0⟩ stages) system es (.returned [.ok, .ok]) s' ∧
        bytesTo (.writing ⟨0⟩) es = bytesTo (.writing ⟨0⟩) (turns.flatMap Prod.fst) ∧
        s'.holders (.stream (.writing ⟨0⟩)) = 1 := by
  obtain ⟨t, inTurn⟩ := exists_runsInTurn
  obtain ⟨es, s', runs⟩ := exists_run
  obtain ⟨-, -, -, -, -, -, bytes, holders, -⟩ := schedule_independent plain sound inTurn runs
  exact ⟨plain, sound, t, es, s', inTurn, runs, bytes, holders _⟩

end Pipeline.PutIntoLines

end Conduit
