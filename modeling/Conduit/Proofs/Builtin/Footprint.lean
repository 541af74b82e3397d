import Conduit.Proofs.Builtin.Views
import Conduit.Proofs.System.Moves
import Mathlib.Data.Set.Basic

/-!
The footprint of the builtins: for each of them the views of its ports that it may change, and
whether it may change directories.  Everything else is the same at every moment of a call.
-/

namespace Conduit

open Proc (Heeds Steps)

inductive Place
  | input (v : View)
  | output (v : View)
  | aux (v : View)
  | directories

namespace Place

variable {ctx : Context} {place : Place} {c : ChannelId} {q : ReaderId} {w : WriterId} {p : PipeId}
  {s s' : System}

/-! ### Where a place is -/

inductive Channel (ctx : Context) : Place → ChannelId → Prop
  | input {c : ChannelId} (reading : ctx.input.channel = .reading c) : Channel ctx (input .values) c
  | output {c : ChannelId} (writing : ctx.output.channel = .writing c) :
      Channel ctx (output .values) c
  | aux {c : ChannelId} (writing : ctx.aux.channel = .writing c) : Channel ctx (aux .values) c

inductive Reader (ctx : Context) : Place → ReaderId → Prop
  | input {q : ReaderId} (reading : ctx.input.stream = .reading q) : Reader ctx (input .bytes) q

inductive Writer (ctx : Context) : Place → WriterId → Prop
  | output {w : WriterId} (writing : ctx.output.stream = .writing w) : Writer ctx (output .bytes) w
  | aux {w : WriterId} (writing : ctx.aux.stream = .writing w) : Writer ctx (aux .bytes) w

inductive Pipe (ctx : Context) (s : System) (place : Place) (p : PipeId) : Prop
  | reader {q : ReaderId} (reader : place.Reader ctx q) (behind : s.readingPipe? q = some p) :
      Pipe ctx s place p
  | writer {w : WriterId} (writer : place.Writer ctx w) (behind : s.writingPipe? w = some p) :
      Pipe ctx s place p

theorem Pipe.of_sameShape (pipe : place.Pipe ctx s' p) (same : s.SameShape s') :
    place.Pipe ctx s p := by
  cases pipe with
  | reader reader behind => exact .reader reader ((same.readingPipe? _).symm.trans behind)
  | writer writer behind => exact .writer writer ((same.writingPipe? _).symm.trans behind)

/-! ### What changes a place -/

inductive Touched (ctx : Context) : Place → Request → Prop
  | input {v : View} {r : Request} (reads : ctx.input.Reads v r) : Touched ctx (input v) r
  | output {v : View} {r : Request} (writes : ctx.output.Writes v r) : Touched ctx (output v) r
  | aux {v : View} {r : Request} (writes : ctx.aux.Writes v r) : Touched ctx (aux v) r
  | enter {path : String} : Touched ctx directories (.enterDirectory path)
  | visit {store : StoreId} {path : String} (attached : ctx.store = some store) :
      Touched ctx directories (.addVisit store path)

def At (ctx : Context) (place : Place) : Request → Prop
  | .take c | .offer c _ => place.Channel ctx c
  | .fill q | .consume q _ => place.Reader ctx q
  | .offerBytes w _ => place.Writer ctx w
  | _ => True

theorem Touched.at {r : Request} (touched : place.Touched ctx r) : place.At ctx r := by
  cases touched with
  | @input v r reads => cases v <;> cases r <;> first | exact .input reads | cases reads
  | @output v r writes =>
    cases v with
    | values => cases r <;> first | exact .output writes | cases writes
    | bytes => cases r <;> first | exact .output writes.1 | trivial
  | @aux v r writes =>
    cases v with
    | values => cases r <;> first | exact .aux writes | cases writes
    | bytes => cases r <;> first | exact .aux writes.1 | trivial
  | enter | visit => trivial

end Place

theorem Port.Reads.isTransfer {port : Port} {v : View} {r : Request} (reads : port.Reads v r) :
    r.isTransfer := by
  cases v <;> cases r <;> first | rfl | cases reads

theorem Port.Writes.isTransfer {port : Port} {v : View} {r : Request} (writes : port.Writes v r) :
    r.isTransfer := by
  cases v <;> cases r <;> first | rfl | cases writes

def Context.Touches (ctx : Context) (places : Set Place) (r : Request) : Prop :=
  r.isConsultation ∨ ∃ place ∈ places, place.Touched ctx r

namespace System

/-- The systems are the same but for these places of a context.  `shape` says of the handles that
those on every end are as many as before, and that every pipe is where it was. -/
structure SameBut (ctx : Context) (places : Set Place) (s s' : System) : Prop where
  scopes : s'.scopes = s.scopes
  editors : s'.editors = s.editors
  shape : s.SameShape s'
  channels : ∀ c, (∀ place ∈ places, ¬ place.Channel ctx c) →
    s'.channels[c.index]? = s.channels[c.index]?
  readers : ∀ q, (∀ place ∈ places, ¬ place.Reader ctx q) →
    s'.readers[q.index]? = s.readers[q.index]?
  writers : ∀ w, (∀ place ∈ places, ¬ place.Writer ctx w) →
    s'.writers[w.index]? = s.writers[w.index]?
  pipes : ∀ p, (∀ place ∈ places, ¬ place.Pipe ctx s p) → s'.pipes[p.index]? = s.pipes[p.index]?
  stores : ∀ store, (.directories ∈ places → ctx.store ≠ some store) →
    s'.stores[store.index]? = s.stores[store.index]?
  files : .directories ∉ places → s'.files = s.files
  moved : ∃ current, s'.files = { s.files with current }

variable {ctx : Context} {places : Set Place} {s s' s'' : System} {es : List Event} {r : Request}
  {x : r.Reply}

theorem SameBut.refl (s : System) : s.SameBut ctx places s where
  scopes := rfl
  editors := rfl
  shape := .refl s
  channels _ _ := rfl
  readers _ _ := rfl
  writers _ _ := rfl
  pipes _ _ := rfl
  stores _ _ := rfl
  files _ := rfl
  moved := ⟨_, rfl⟩

theorem SameBut.trans (first : s.SameBut ctx places s') (rest : s'.SameBut ctx places s'') :
    s.SameBut ctx places s'' where
  scopes := rest.scopes.trans first.scopes
  editors := rest.editors.trans first.editors
  shape := first.shape.trans rest.shape
  channels c other := (rest.channels c other).trans (first.channels c other)
  readers q other := (rest.readers q other).trans (first.readers q other)
  writers w other := (rest.writers w other).trans (first.writers w other)
  pipes p other := by
    refine (rest.pipes p fun place mem pipe => ?_).trans (first.pipes p other)
    exact other place mem (pipe.of_sameShape first.shape)
  stores store other := (rest.stores store other).trans (first.stores store other)
  files other := (rest.files other).trans (first.files other)
  moved := by
    obtain ⟨_, there⟩ := first.moved
    obtain ⟨current, last⟩ := rest.moved
    exact ⟨current, by rw [last, there]⟩

theorem sameBut_transfer (transfer : r.isTransfer)
    (touched : ∃ place ∈ places, place.Touched ctx r) (reply : r.perform? s = some (x, s')) :
    s.SameBut ctx places s' := by
  obtain ⟨place, mem, touched⟩ := touched
  have surroundings := sameSurroundings_perform transfer reply
  refine ⟨surroundings.scopes, surroundings.editors, Request.sameShape_perform transfer reply,
    fun c other => ?_, fun q other => ?_, fun w other => ?_, fun p other => ?_,
    fun _ _ => by rw [surroundings.stores], fun _ => surroundings.files,
    s.files.current, surroundings.files⟩
  · refine channels_perform_other transfer ?_ ?_ reply
    · rintro rfl
      exact other place mem touched.at
    · rintro v rfl
      exact other place mem touched.at
  · refine readers_perform transfer ?_ ?_ reply
    · rintro rfl
      exact other place mem touched.at
    · rintro n rfl
      exact other place mem touched.at
  · refine writers_perform transfer ?_ reply
    rintro bytes rfl
    exact other place mem touched.at
  · refine pipes_perform_other transfer ?_ ?_ reply
    · rintro q rfl behind
      exact other place mem (.reader touched.at behind)
    · rintro w bytes rfl behind
      exact other place mem (.writer touched.at behind)

theorem sameBut_enterDirectory {path : String} {y : Except DirectoryError Unit}
    (mem : .directories ∈ places)
    (reply : (Request.enterDirectory path).perform? s = some (y, s')) :
    s.SameBut ctx places s' := by
  simp only [Request.perform?] at reply
  split at reply
  · next files entered =>
    cases reply
    rw [FileSystem.enter] at entered
    cases found : s.files.find path with
    | error e => rw [found] at entered; cases entered
    | ok current =>
      rw [found] at entered
      cases entered
      exact { SameBut.refl s with
        shape := ⟨fun _ => rfl, fun _ => rfl, fun _ => rfl, fun _ => rfl⟩
        files := fun other => absurd mem other
        moved := ⟨current, rfl⟩ }
  · cases reply
    exact .refl s

theorem sameBut_addVisit {store : StoreId} {path : String} {y : Except StoreError Unit}
    (mem : .directories ∈ places) (attached : ctx.store = some store)
    (reply : (Request.addVisit store path).perform? s = some (y, s')) :
    s.SameBut ctx places s' := by
  simp only [Request.perform?] at reply
  split at reply
  · cases reply
    exact .refl s
  · cases reply
    refine { SameBut.refl s with
      shape := ⟨fun _ => rfl, fun _ => rfl, fun _ => rfl, fun _ => rfl⟩
      stores := fun other unattached => ?_ }
    have apart : store.index ≠ other.index := fun same =>
      unattached mem (by cases store; cases other; cases same; exact attached)
    simp [Array.set!_eq_setIfInBounds, apart]

theorem sameBut_perform (touches : ctx.Touches places r) (reply : r.perform? s = some (x, s')) :
    s.SameBut ctx places s' := by
  rcases touches with consultation | ⟨place, mem, touched⟩
  · cases r with
    | home | workingDirectory | listVisited | findVisited => cases reply; exact .refl s
    | _ => cases consultation
  · cases touched with
    | input reads => exact sameBut_transfer reads.isTransfer ⟨_, mem, .input reads⟩ reply
    | output writes => exact sameBut_transfer writes.isTransfer ⟨_, mem, .output writes⟩ reply
    | aux writes => exact sameBut_transfer writes.isTransfer ⟨_, mem, .aux writes⟩ reply
    | enter => exact sameBut_enterDirectory mem reply
    | visit attached => exact sameBut_addVisit mem attached reply

theorem perform?_due {r' : Request} {y : r'.Reply} (due : r'.due? y = some r)
    (reply : r.perform? s = some (x, s')) : s' = s := by
  rcases Request.due?_eq_some due with ⟨c, ticket, rfl⟩ | ⟨w, ticket, rfl⟩ <;>
  · obtain ⟨_, -, same⟩ := Option.map_eq_some_iff.1 reply
    cases same
    rfl

theorem After.sameBut (after : s.After es s') (within : Proc.Within (ctx.Touches places) es) :
    s.SameBut ctx places s' := by
  induction after with
  | nil => exact .refl _
  | called _ ih => exact ih fun ev mem => within ev (.tail _ mem)
  | @asked r x s s₁ _ _ reply _ ih =>
    obtain ⟨r, x, same, asks⟩ := within _ (.head _)
    cases same
    have first : s.SameBut ctx places s₁ := by
      rcases asks with touches | ⟨r', y, -, due⟩
      · exact sameBut_perform touches reply
      · rw [perform?_due due reply]
        exact .refl s
    exact first.trans (ih fun ev mem => within ev (.tail _ mem))

end System

/-! ### The table -/

def Place.users : Place → List String
  | output .values => ["put", "put-all", "unpack", "typeof", "rat", "=", "from-lines", "from-json",
    "+", "-", "*", "/", "visited-dirs"]
  | output .bytes => ["print", "println", "into-lines"]
  | aux .values => []
  | aux .bytes => ["-stack"]
  | input .values => ["unpack", "into-lines"]
  | input .bytes => ["from-lines", "from-json"]
  | directories => ["cd", "jump-dir"]

namespace Builtin

/-- The builtins that have code of others run, by their names. -/
def delegates : List String := ["each", "source", "bind", "le"]

def footprint (name : String) : Set Place := {place | name ∈ place.users}

variable {ctx : Context} {name : String} {h : Host} {s s' : System} {es : List Event}

theorem consults_footprint (r : Request) (consultation : r.isConsultation) :
    ctx.Touches (footprint name) r := .inl consultation

theorem offers_footprint (user : name ∈ (Place.output .values).users) (c : ChannelId) (v : Value)
    (writing : ctx.output.channel = .writing c) : ctx.Touches (footprint name) (.offer c v) :=
  .inr ⟨_, user, .output writing⟩

theorem writes_footprint (user : name ∈ (Place.output .bytes).users) (w : WriterId) (bytes : Bytes)
    (writing : ctx.output.stream = .writing w) (some : bytes ≠ []) :
    ctx.Touches (footprint name) (.offerBytes w bytes) := .inr ⟨_, user, .output ⟨writing, some⟩⟩

theorem flushes_footprint (user : name ∈ (Place.output .bytes).users) (w : WriterId)
    (writing : ctx.output.stream = .writing w) : ctx.Touches (footprint name) (.flush w) :=
  .inr ⟨_, user, .output writing⟩

theorem reports_footprint (user : name ∈ (Place.aux .bytes).users) (w : WriterId) (bytes : Bytes)
    (writing : ctx.aux.stream = .writing w) (some : bytes ≠ []) :
    ctx.Touches (footprint name) (.offerBytes w bytes) := .inr ⟨_, user, .aux ⟨writing, some⟩⟩

theorem flushes_report_footprint (user : name ∈ (Place.aux .bytes).users) (w : WriterId)
    (writing : ctx.aux.stream = .writing w) : ctx.Touches (footprint name) (.flush w) :=
  .inr ⟨_, user, .aux writing⟩

theorem takes_footprint (user : name ∈ (Place.input .values).users) (c : ChannelId)
    (reading : ctx.input.channel = .reading c) : ctx.Touches (footprint name) (.take c) :=
  .inr ⟨_, user, .input reading⟩

theorem fills_footprint (user : name ∈ (Place.input .bytes).users) (q : ReaderId)
    (reading : ctx.input.stream = .reading q) : ctx.Touches (footprint name) (.fill q) :=
  .inr ⟨_, user, .input reading⟩

theorem consumes_footprint (user : name ∈ (Place.input .bytes).users) (q : ReaderId) (n : Nat)
    (reading : ctx.input.stream = .reading q) : ctx.Touches (footprint name) (.consume q n) :=
  .inr ⟨_, user, .input reading⟩

theorem enters_footprint (user : name ∈ Place.directories.users) (path : String) :
    ctx.Touches (footprint name) (.enterDirectory path) := .inr ⟨_, user, .enter⟩

theorem visits_footprint (user : name ∈ Place.directories.users) (store : StoreId) (path : String)
    (attached : ctx.store = some store) : ctx.Touches (footprint name) (.addVisit store path) :=
  .inr ⟨_, user, .visit attached⟩

theorem heeds_footprint {b : Builtin} (standard : b ∈ Builtin.standard)
    (own : b.name ∉ delegates) (ctx : Context) (args : List Value) :
    Heeds (ctx.Touches (footprint b.name)) Refused none (b.call ctx args) := by
  revert b
  simp only [Builtin.standard, List.forall_mem_cons]
  refine ⟨fun _ => heeds_raw (.done _), fun _ => heeds_raw (.done _),
    fun _ => heeds_raw (heeds_emits (offers_footprint (by decide)) _),
    fun _ => heeds_variadic fun _ => heeds_emits (offers_footprint (by decide)) _,
    fun _ => heeds_fixed (heeds_unpack (offers_footprint (by decide))
      (takes_footprint (by decide))),
    fun _ => heeds_raw (heeds_emits (offers_footprint (by decide)) _),
    fun _ => heeds_fixed fun v => heeds_toRational (offers_footprint (by decide)) v,
    fun _ => heeds_raw (heeds_equality (offers_footprint (by decide)) args),
    fun _ => heeds_variadic fun _ => heeds_print (writes_footprint (by decide))
      (flushes_footprint (by decide)) _,
    fun _ => heeds_variadic fun _ => heeds_println (writes_footprint (by decide))
      (flushes_footprint (by decide)) _,
    fun _ => heeds_fixed (heeds_intoLines (writes_footprint (by decide))
      (flushes_footprint (by decide)) (takes_footprint (by decide))),
    fun _ => heeds_fixed (heeds_fromLines (fills_footprint (by decide))
      (consumes_footprint (by decide)) (offers_footprint (by decide))),
    fun _ => heeds_fixed (heeds_fromJson (fills_footprint (by decide))
      (consumes_footprint (by decide)) (offers_footprint (by decide))),
    fun _ => heeds_fixed (heeds_stack (reports_footprint (by decide))
      (flushes_report_footprint (by decide))),
    fun _ => heeds_fixed fun _ => .done _, fun _ => heeds_fixed (.done _),
    fun _ => heeds_fixed (.done _), fun _ => heeds_fixed (.done _),
    fun delegates => absurd (by decide) delegates,
    fun _ => heeds_variadic fun _ => heeds_emitOne (offers_footprint (by decide)) _,
    fun _ => heeds_variadic fun _ _ => heeds_emitOne (offers_footprint (by decide)) _,
    fun _ => heeds_variadic fun _ => heeds_emitOne (offers_footprint (by decide)) _,
    fun _ => heeds_variadic fun _ _ => heeds_emitOne (offers_footprint (by decide)) _,
    fun _ => heeds_raw (heeds_cd consults_footprint (enters_footprint (by decide))
      (visits_footprint (by decide)) args),
    fun _ => heeds_fixed (heeds_visitedDirectories consults_footprint
      (offers_footprint (by decide))),
    fun _ => heeds_fixed fun _ => heeds_jumpDirectory consults_footprint
      (enters_footprint (by decide)) (visits_footprint (by decide)) _,
    fun delegates => absurd (by decide) delegates, fun delegates => absurd (by decide) delegates,
    fun delegates => absurd (by decide) delegates, List.forall_mem_nil _⟩

/-- At every moment of a call the system is the same as before it but for the places that the table
gives to the builtin: no other view of a port is changed, nor are variables, handles or the line
editor.  The call does not change its context either, for it answers with a signal alone. -/
theorem footprint_of_call {b : Builtin} (standard : b ∈ Builtin.standard)
    (own : b.name ∉ delegates) (ctx : Context) (args : List Value) {q : Proc Signal}
    (steps : Steps h (b.call ctx args) s es q s') :
    s.SameBut ctx (footprint b.name) s' ∧ ∀ e, s'.holders e = s.holders e :=
  have same := steps.after.sameBut ((heeds_footprint standard own ctx args).steps nofun steps)
  ⟨same, same.shape.holders⟩

namespace LinesFootprint

def system : System where
  channels := #[.ofList [.string "a"], { capacity := none }]
  readers := #[{ source := .fixed [0x62] none, bufferSize := 1 }]
  writers := #[{ target := .sink #[] none none }]

def stage : Context :=
  .ofPorts "lines" [⟨.reading ⟨0⟩, .reading ⟨0⟩⟩, ⟨.writing ⟨1⟩, .writing ⟨0⟩⟩] ⟨0⟩

def builtin : Builtin := fixed "into-lines" [] intoLines

theorem standard : builtin ∈ Builtin.standard := by simp [Builtin.standard, builtin]

theorem lines_keep_other_views : builtin ∈ Builtin.standard ∧ builtin.name ∉ delegates ∧
    ∃ es s', Proc.Runs Host.none (builtin.call stage []) system es (.returned .ok) s' ∧
      s'.readers[0]? = system.readers[0]? ∧ s'.channels[1]? = system.channels[1]? := by
  have ran : Proc.run Host.none 20 (builtin.call stage []) system =
      (some (.returned .ok), (Proc.run Host.none 20 (builtin.call stage []) system).2) :=
    Prod.ext rfl rfl
  obtain ⟨es, q, steps, outcome⟩ := Proc.runs_of_run ran
  have same := (footprint_of_call standard (by decide) stage [] steps).1
  refine ⟨standard, by decide, es, _, ⟨q, steps, outcome⟩, same.readers ⟨0⟩ ?_,
    same.channels ⟨1⟩ ?_⟩
  · intro place user reader
    cases reader
    exact absurd user (by decide : "into-lines" ∉ (Place.input .bytes).users)
  · intro place user channel
    cases channel with
    | input reading => cases reading
    | output writing => exact absurd user (by decide : "into-lines" ∉ (Place.output .values).users)
    | aux writing => cases writing

end LinesFootprint

end Builtin

end Conduit
