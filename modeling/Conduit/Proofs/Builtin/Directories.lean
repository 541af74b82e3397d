import Conduit.Builtin.Standard
import Conduit.Proofs.Builtin.Contract
import Conduit.Proofs.Builtin.Effect
import Conduit.Proofs.Builtin.Registry
import Conduit.Proofs.System.DirectoryStore
import Mathlib.Tactic.NormNum
import Mathlib.Tactic.Ring

/-!
Changes of the working directory: each is made as a whole or not at all, and every one that is made
is a visit that the attached store is told of once.
-/

namespace Conduit

open Proc (Meets Runs ask meets_ask meets_done meets_run_adapt meets_run_bind)

inductive Mover
  | cd
  | jumpDirectory

namespace Mover

variable {h : Host} {ctx : Context} {args : List Value} {s s' : System}

def builtin : Mover → Builtin
  | cd => .raw "cd" Builtin.cd
  | jumpDirectory => .fixed "jump-dir" [.text] Builtin.jumpDirectory

theorem get?_standard (m : Mover) : Registry.standard.get? m.builtin.name = some m.builtin := by
  rw [Registry.standard, Registry.get?_ofList]
  cases m <;> rfl

/-! ### What a move is -/

def found (s : System) (store : StoreId) (fragment : String) : Except StoreError (List Visited) :=
  ((s.stores[store.index]?).map (·.find fragment)).getD (.ok [])

def target (s : System) (ctx : Context) : Mover → List Value → Except BuiltinError String
  | cd, [] => s.files.home.elim (.error .homeNotSet) .ok
  | cd, [v] => .ok v.text
  | jumpDirectory, [v] =>
    match ctx.store with
    | none => .error .storeNotConnected
    | some store =>
      match found s store v.text with
      | .error e => .error (.store e)
      | .ok [] => .error .noMatchingDirectory
      | .ok (best :: _) => .ok best.path
  | _, _ => .error .arguments

def visit? (target : String) (files : FileSystem) : Mover → Option String
  | cd => files.workingDirectory?
  | jumpDirectory => some target

def told (store : Option StoreId) (path : Option String) (stores : Array DirectoryStore) :
    Array DirectoryStore :=
  match store, path with
  | some store, some path =>
    stores.modify store.index fun d => { d with visits := d.visits ++ [path] }
  | _, _ => stores

def moved (s : System) (ctx : Context) (m : Mover) (target : String) (p : Path) : System :=
  let files := { s.files with current := p }
  { s with files, stores := told ctx.store (m.visit? target files) s.stores }

/-- How a call ends: with a failure and everything as it was, or well and with the whole move
made. -/
inductive Ended (s : System) (ctx : Context) (m : Mover) (args : List Value) :
    Signal → System → Prop
  | aimless {e : BuiltinError} (none : m.target s ctx args = .error e) :
      Ended s ctx m args e.signal s
  | lost {text : String} {e : DirectoryError} (target : m.target s ctx args = .ok text)
      (none : s.files.find text = .error e) :
      Ended s ctx m args (BuiltinError.directory e).signal s
  | moved {text : String} {p : Path} (target : m.target s ctx args = .ok text)
      (found : s.files.find text = .ok p) : Ended s ctx m args .ok (m.moved s ctx text p)

/-! ### What a call does -/

theorem perform_addVisit (store : StoreId) (path : String) : ∃ x,
    (Request.addVisit store path).perform? s =
      some (x, { s with stores := told (some store) (some path) s.stores }) := by
  simp only [Request.perform?, told]
  split
  · next none =>
    refine ⟨_, congrArg (fun stores => some (_, { s with stores })) ?_⟩
    apply Array.ext_getElem?
    intro i
    rw [Array.getElem?_modify]
    split
    · next same => rw [← same, none]; rfl
    · rfl
  · next d here =>
    refine ⟨_, congrArg (fun stores => some (_, { s with stores })) ?_⟩
    apply Array.ext_getElem?
    intro i
    rw [Array.getElem?_modify, Array.set!_eq_setIfInBounds, Array.getElem?_setIfInBounds]
    split
    · next same =>
      rw [← same, here, if_pos (Array.getElem?_eq_some_iff.1 here).1]
      rfl
    · rfl

theorem meets_lift {r : Request} {post : Except BuiltinError r.Reply → System → Prop}
    (asked : Meets h (ask r) s fun x s' => post (.ok x) s') :
    Meets h (liftM (ask r) : Effect r.Reply).run s post :=
  asked.bind fun _ _ holds => meets_done holds

theorem meets_addVisit {store : StoreId} {path : String}
    {post : Except BuiltinError Unit → System → Prop}
    (holds : post (.ok ()) { s with stores := told (some store) (some path) s.stores }) :
    Meets h (discard (liftM (ask (.addVisit store path)) : Effect _)).run s post := by
  obtain ⟨x, reply⟩ := perform_addVisit (s := s) store path
  have added : Meets h (liftM (ask (.addVisit store path)) : Effect _).run s fun r s' =>
      (∃ x, r = .ok x) ∧ s' = { s with stores := told (some store) (some path) s.stores } :=
    meets_lift (meets_ask reply ⟨⟨x, rfl⟩, rfl⟩)
  refine added.bind ?_
  rintro _ _ ⟨⟨x, rfl⟩, rfl⟩
  exact meets_done holds

theorem meets_enterDirectory (text : String) :
    Meets h (ExceptT.adapt BuiltinError.directory (ExceptT.mk (ask (.enterDirectory text)))).run s
      fun r s' => (∃ e, s.files.find text = .error e ∧ r = .error (.directory e) ∧ s' = s) ∨
        ∃ p, s.files.find text = .ok p ∧ r = .ok () ∧
          s' = { s with files := { s.files with current := p } } := by
  refine meets_run_adapt ?_
  cases found : s.files.find text with
  | error e =>
    have reply : (Request.enterDirectory text).perform? s = some (Except.error e, s) := by
      simp [Request.perform?, FileSystem.enter, found, Except.map]
    exact meets_ask reply (.inl ⟨e, rfl, rfl, rfl⟩)
  | ok p =>
    have reply : (Request.enterDirectory text).perform? s =
        some (Except.ok (), { s with files := { s.files with current := p } }) := by
      simp [Request.perform?, FileSystem.enter, found, Except.map]
    exact meets_ask reply (.inr ⟨p, rfl, rfl, rfl⟩)

theorem meets_changeDirectory {text : String} (target : cd.target s ctx args = .ok text) :
    Meets h (Builtin.changeDirectory ctx text).run s fun r s' =>
      Ended s ctx cd args (Signal.ofResult r) s' := by
  refine meets_run_bind (meets_enterDirectory text) ?_ ?_
  · rintro _ _ (⟨_, -, other, -⟩ | ⟨p, found, -, rfl⟩)
    · cases other
    have ended := Ended.moved target found
    rw [moved, visit?] at ended
    cases store : ctx.store with
    | none =>
      rw [store] at ended
      exact meets_done ended
    | some store =>
      rw [store] at ended
      have asked : Meets h (liftM (ask .workingDirectory) : Effect _).run
          { s with files := { s.files with current := p } } fun r s' =>
            r = .ok ({ s.files with current := p } : FileSystem).workingDirectory? ∧
              s' = { s with files := { s.files with current := p } } :=
        meets_lift (meets_ask rfl ⟨rfl, rfl⟩)
      refine meets_run_bind asked ?_ nofun
      rintro _ _ ⟨⟨⟩, rfl⟩
      cases path : ({ s.files with current := p } : FileSystem).workingDirectory? with
      | none =>
        rw [path] at ended
        exact meets_done ended
      | some path' =>
        rw [path] at ended
        exact meets_addVisit ended
  · rintro e s' (⟨e', none, other, rfl⟩ | ⟨_, _, other, -⟩)
    · cases other
      exact .lost target none
    · cases other

theorem meets_cd : ∀ args, Meets h (Builtin.cd ctx args) s (Ended s ctx cd args)
  | [] => by
    have asked : Meets h (ask .home) s fun x s' => x = s.files.home ∧ s' = s :=
      meets_ask rfl ⟨rfl, rfl⟩
    refine asked.bind ?_
    rintro _ s₁ ⟨rfl, rfl⟩
    cases home : s₁.files.home with
    | none => exact meets_done (.aimless (by simp [target, home]))
    | some text => exact Effect.meets_signal (meets_changeDirectory (by simp [target, home]))
  | [_] => Effect.meets_signal (meets_changeDirectory rfl)
  | _ :: _ :: _ => meets_done (.aimless rfl)

theorem meets_requireStore : Meets h (Builtin.requireStore ctx).run s fun r s' =>
    ((ctx.store = none ∧ r = .error .storeNotConnected) ∨
      ∃ store, ctx.store = some store ∧ r = .ok store) ∧ s' = s := by
  rw [Builtin.requireStore]
  cases ctx.store with
  | none => exact meets_done ⟨.inl ⟨rfl, rfl⟩, rfl⟩
  | some store => exact meets_done ⟨.inr ⟨store, rfl, rfl⟩, rfl⟩

theorem meets_findVisited (store : StoreId) (fragment : String) :
    Meets h (ExceptT.adapt BuiltinError.store
      (ExceptT.mk (ask (.findVisited store fragment)))).run s fun r s' =>
        ((∃ e, found s store fragment = .error e ∧ r = .error (.store e)) ∨
          ∃ visited, found s store fragment = .ok visited ∧ r = .ok visited) ∧ s' = s := by
  have asked : Meets h (ask (.findVisited store fragment)) s fun x s' =>
      x = found s store fragment ∧ s' = s := meets_ask rfl ⟨rfl, rfl⟩
  refine meets_run_adapt (asked.mono ?_)
  rintro x s₁ ⟨rfl, rfl⟩
  cases found s₁ store fragment with
  | error e => exact ⟨.inl ⟨e, rfl, rfl⟩, rfl⟩
  | ok visited => exact ⟨.inr ⟨visited, rfl, rfl⟩, rfl⟩

theorem meets_enterBest {store : StoreId} (attached : ctx.store = some store) {best : Visited}
    (aimed : jumpDirectory.target s ctx args = .ok best.path) :
    Meets h (ExceptT.run do
      ExceptT.adapt BuiltinError.directory (ExceptT.mk (ask (.enterDirectory best.path)))
      discard (liftM (ask (.addVisit store best.path)) : Effect _)) s fun r s' =>
        Ended s ctx jumpDirectory args (Signal.ofResult r) s' := by
  refine meets_run_bind (meets_enterDirectory best.path) ?_ ?_
  · rintro _ _ (⟨_, -, other, -⟩ | ⟨p, there, -, rfl⟩)
    · cases other
    have ended := Ended.moved aimed there
    rw [moved, visit?, attached] at ended
    exact meets_addVisit ended
  · rintro e s' (⟨e', none, other, rfl⟩ | ⟨_, _, other, -⟩)
    · cases other
      exact .lost aimed none
    · cases other

theorem meets_jumpDirectory (v : Value) :
    Meets h (Builtin.jumpDirectory ctx v.text) s (Ended s ctx jumpDirectory [v]) := by
  refine Effect.meets_signal (meets_run_bind meets_requireStore ?_ ?_)
  · rintro store s₁ ⟨⟨-, other⟩ | ⟨store, attached, ⟨⟩⟩, rfl⟩
    · cases other
    refine meets_run_bind (meets_findVisited store v.text) ?_ ?_
    · rintro visited s₂ ⟨⟨e, -, other⟩ | ⟨_, listed, ⟨⟩⟩, rfl⟩
      · cases other
      cases visited with
      | nil => exact meets_done (.aimless (by simp [target, attached, listed]))
      | cons best others =>
        exact meets_enterBest attached (by simp [target, attached, listed])
    · rintro _ s₂ ⟨⟨e, failed, ⟨⟩⟩ | ⟨visited, -, other⟩, rfl⟩
      · exact .aimless (by simp [target, attached, failed])
      · cases other
  · rintro _ s₁ ⟨⟨missing, ⟨⟩⟩ | ⟨store, -, other⟩, rfl⟩
    · exact .aimless (by simp [target, missing])
    · cases other

theorem meets_call (m : Mover) (ctx : Context) (args : List Value) (s : System) :
    Meets h (m.builtin.call ctx args) s (Ended s ctx m args) := by
  cases m with
  | cd => exact meets_call_of_invoke? rfl rfl (meets_cd args)
  | jumpDirectory =>
    match args with
    | [v] => exact meets_call_of_invoke? rfl rfl (meets_jumpDirectory v)
    | [] => exact meets_done (.aimless rfl)
    | v :: w :: rest =>
      have refused : ¬ (jumpDirectory.builtin.signature.accepts (v :: w :: rest).length ∧
          ∃ p, jumpDirectory.builtin.invoke? ctx (v :: w :: rest) = some p) := by
        rintro ⟨accepted, -⟩
        simp [builtin, Builtin.fixed, Signature.accepts, Signature.isVariadic] at accepted
      rw [call_of_not_invoke? refused]
      exact meets_done (.aimless (e := .arguments) rfl)

theorem Ended.eq_moved {m : Mover} {r : Signal} {text : String} {p : Path}
    (ended : Ended s ctx m args r s') (target : m.target s ctx args = .ok text)
    (found : s.files.find text = .ok p) : r = .ok ∧ s' = m.moved s ctx text p := by
  cases ended with
  | aimless none => rw [target] at none; cases none
  | lost target' none =>
    rw [target] at target'
    cases target'
    rw [found] at none
    cases none
  | moved target' found' =>
    rw [target] at target'
    cases target'
    rw [found] at found'
    cases found'
    exact ⟨rfl, rfl⟩

end Mover

/-! ### One call after another -/

/-- Calls that share a store, each of which leads to a directory that has a path if it ends well.
Between them anything may be done that leaves the store alone. -/
inductive Moves (h : Host) (store : StoreId) : System → List Signal → System → Prop
  | none {s : System} : Moves h store s [] s
  | call {m : Mover} {ctx : Context} {args : List Value} {s s₁ s' : System} {es : List Event}
      {r : Signal} {rs : List Signal} (shared : ctx.store = some store)
      (run : Runs h (m.builtin.call ctx args) s es (.returned r) s₁)
      (path : r = .ok → s₁.files.workingDirectory? ≠ .none) (rest : Moves h store s₁ rs s') :
      Moves h store s (r :: rs) s'
  | apart {s s₁ s' : System} {rs : List Signal}
      (alone : s₁.stores[store.index]? = s.stores[store.index]?)
      (rest : Moves h store s₁ rs s') : Moves h store s rs s'

section Moves

variable {h : Host} {store : StoreId} {s s' : System} {rs : List Signal} {visits : List String}

open DirectoryStore

theorem signal_ne_ok (e : BuiltinError) : e.signal ≠ .ok := nofun

theorem visited_of_ended {m : Mover} {ctx : Context} {args : List Value} {r : Signal}
    (shared : ctx.store = some store) (ended : m.Ended s ctx args r s')
    (path : r = .ok → s'.files.workingDirectory? ≠ none)
    (here : s.stores[store.index]? = some (.inMemory visits)) :
    ∃ more, more.length = [r].count .ok ∧
      s'.stores[store.index]? = some (.inMemory (visits ++ more)) := by
  have kept (e : BuiltinError) : ∃ more : List String, more.length = [e.signal].count .ok ∧
      s.stores[store.index]? = some (.inMemory (visits ++ more)) :=
    ⟨[], by rw [List.count_singleton, beq_false_of_ne (signal_ne_ok e)]; rfl, by simpa using here⟩
  cases ended with
  | aimless => exact kept _
  | lost => exact kept _
  | @moved text p target found =>
    have visit : ∃ visit, m.visit? text { s.files with current := p } = some visit := by
      cases m with
      | cd => exact Option.ne_none_iff_exists'.1 (path rfl)
      | jumpDirectory => exact ⟨text, rfl⟩
    obtain ⟨visit, told⟩ := visit
    refine ⟨[visit], rfl, ?_⟩
    simp [Mover.moved, Mover.told, shared, told, Array.getElem?_modify, here, inMemory]

theorem Moves.visited (moves : Moves h store s rs s')
    (here : s.stores[store.index]? = some (.inMemory visits)) :
    ∃ more, more.length = rs.count .ok ∧
      s'.stores[store.index]? = some (.inMemory (visits ++ more)) := by
  induction moves generalizing visits with
  | none => exact ⟨[], rfl, by simpa using here⟩
  | @call m ctx args s s₁ s' es r rs shared run path _ ih =>
    obtain ⟨_, ⟨⟩, ended⟩ := (m.meets_call ctx args s).2 es _ s₁ run
    obtain ⟨first, one, here⟩ := visited_of_ended shared ended path here
    obtain ⟨more, others, here⟩ := ih here
    refine ⟨first ++ more, ?_, by rwa [← List.append_assoc]⟩
    rw [List.length_append, one, others, ← List.count_append, List.singleton_append]
  | apart alone _ ih => exact ih (alone.trans here)

/-- A call of `cd` or `jump-dir` makes its move as a whole or changes nothing, however the store
answers; so by what a store in memory lists after any row of calls, every one that ended well has
added one visit of ten to its scores.  The scores are floats, and only for their exact total have
they to be `Exact`: the visits and the scores that record them need no bound. -/
theorem directory_changes (h : Host) :
    (∀ m : Mover, Registry.standard.get? m.builtin.name = some m.builtin ∧
      ∀ (ctx : Context) (args : List Value) (s : System),
        Meets h (m.builtin.call ctx args) s (m.Ended s ctx args)) ∧
    ∀ (store : StoreId) (s s' : System) (rs : List Signal) (visits : List String),
      Moves h store s rs s' → s.stores[store.index]? = some (.inMemory visits) →
      ∃ more before after, more.length = rs.count .ok ∧
        s'.stores[store.index]? = some (.inMemory (visits ++ more)) ∧
        (inMemory visits).list = .ok before ∧ (inMemory (visits ++ more)).list = .ok after ∧
        Recorded visits before ∧ Recorded (visits ++ more) after ∧
        (Exact (visits ++ more) → total after = total before + 10 * rs.count .ok) := by
  refine ⟨fun m => ⟨m.get?_standard, m.meets_call⟩, fun store s s' rs visits moves here => ?_⟩
  obtain ⟨more, count, here'⟩ := moves.visited here
  refine ⟨more, ranked visits, ranked (visits ++ more), count, here', rfl, rfl,
    recorded_ranked visits, recorded_ranked _, fun exact_ => ?_⟩
  rw [total_ranked exact_, total_ranked exact_.of_append, List.length_append, count]
  push_cast
  ring

end Moves

namespace HomeAndBack

open DirectoryStore

def start : System where
  files := { directories := [["a"]], home := some "/a" }
  stores := #[.inMemory []]

def ctx : Context := { Context.ofPorts "top" [] ⟨0⟩ with store := some ⟨0⟩ }

def home : System := Mover.cd.moved start ctx "/a" ["a"]

def back : System := Mover.jumpDirectory.moved home ctx "/a" ["a"]

theorem home_visited : home.stores = #[.inMemory ["/a"]] := rfl

theorem parts : "/a".splitOn "/" = ["", "a"] := by
  rw [String.splitOn, if_neg (by decide), String.splitOnAux]
  change "/a".splitOnAux "/" ⟨1⟩ ⟨1⟩ 0 [""] = _
  rw [String.splitOnAux]
  change "/a".splitOnAux "/" ⟨1⟩ ⟨2⟩ 0 [""] = _
  rw [String.splitOnAux]
  rfl

theorem find_below_root {files : FileSystem} (there : ["a"] ∈ files.directories)
    (unlinked : files.links = []) : files.find "/a" = .ok ["a"] := by
  have short : ¬ FileSystem.pathLimit < "/a".utf8ByteSize := by decide
  have short' : ¬ FileSystem.nameLimit < "a".utf8ByteSize := by decide
  simp [FileSystem.find, FileSystem.start, FileSystem.resolve, FileSystem.isDirectory, parts,
    short, short', there, unlinked]

theorem aimed : Mover.jumpDirectory.target home ctx [.string "a"] = .ok "/a" := by
  have found : Mover.found home ⟨0⟩ "a" = .ok [⟨"/a", .zero false + visitScore⟩] := by
    have inside : occursIn ['a'] ['/', 'a'] = true := by decide
    simp [Mover.found, home_visited, find, inMemory, counting, sorted, scores, countVisit, inside]
  rw [Mover.target, show ctx.store = some ⟨0⟩ from rfl]
  simp only [Value.text, found]

theorem moves : Moves Host.none ⟨0⟩ start [.ok, .failure "arguments error", .ok] back := by
  obtain ⟨es, r, s₁, run, ended⟩ := (Mover.cd.meets_call (h := .none) ctx [] start).exists_runs
  obtain ⟨rfl, rfl⟩ := ended.eq_moved rfl (find_below_root (.head _) rfl)
  have refused : Runs Host.none (Mover.cd.builtin.call ctx [.bool true, .bool true]) home []
      (.returned (.failure "arguments error")) home := Proc.runs_done.2 ⟨rfl, rfl, rfl⟩
  obtain ⟨es', r, s₂, run', ended⟩ :=
    (Mover.jumpDirectory.meets_call (h := .none) ctx [.string "a"] home).exists_runs
  obtain ⟨rfl, rfl⟩ := ended.eq_moved aimed (find_below_root (.head _) rfl)
  exact .call rfl run nofun (.call rfl refused (by simp) (.call rfl run' nofun .none))

theorem two_visits : ∃ more after, more.length = 2 ∧
    back.stores[0]? = some (.inMemory more) ∧ (inMemory more).list = .ok after ∧
    total after = 20 := by
  obtain ⟨more, before, after, count, here, ⟨⟩, listed, -, -, grown⟩ :=
    (directory_changes Host.none).2 ⟨0⟩ start back _ [] moves rfl
  refine ⟨more, after, count, here, listed, ?_⟩
  have few : Exact ([] ++ more) := by
    intro path
    have := List.count_le_length (a := path) (l := more)
    rw [List.nil_append]
    have two : more.length = 2 := count
    omega
  rw [grown few]
  have none : total (ranked (inMemory []).visits) = 0 := by
    simp [inMemory, total, ranked, sorted, scores]
  have two : [Signal.ok, .failure "arguments error", .ok].count .ok = 2 := by decide
  rw [none, two]
  norm_num

end HomeAndBack

end Conduit
