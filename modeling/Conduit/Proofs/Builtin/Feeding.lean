import Conduit.Proofs.Builtin.Documents
import Conduit.Proofs.Builtin.Lines
import Conduit.Proofs.Builtin.Registry
import Conduit.Proofs.Context.Holds
import Conduit.Proofs.Port.Feeds

/-!
The builtins that write values, or lines, made from their arguments, their input or the history of
visited directories: each of them knows its output by nothing but the items that it writes to it.
-/

namespace Conduit

open Proc (ask)

def Context.onto (ctx : Context) (out : Port) : Context := ctx.putPort 1 out

@[simp]
theorem Context.output_onto (ctx : Context) (out : Port) : (ctx.onto out).output = out :=
  (port_putPort ctx 1 1 out).trans (if_pos rfl)

@[simp]
theorem Context.input_onto (ctx : Context) (out : Port) : (ctx.onto out).input = ctx.input :=
  (port_putPort ctx 1 0 out).trans (if_neg zero_ne_one)

/-- What a call may ask for beside its writes: something of its input, or of the directories. -/
def Context.Asks (ctx : Context) (r : Request) : Prop :=
  (∃ view, ctx.input.Reads view r) ∨ r.isConsultation

variable {α β ρ : Type} {view : View} {ctx : Context} {args : List Value}

theorem Context.not_isWrite_of_asks {r : Request} (asks : ctx.Asks r) : r.isWrite = false := by
  rcases asks with ⟨view, reads⟩ | consultation
  · cases view <;> cases r <;> first | rfl | cases reads
  · cases r <;> first | rfl | cases consultation

def ErrsWith (message : String) (x : Except BuiltinError α) : Prop :=
  ∃ e, x = .error e ∧ e.message = message

def FailsFor (message : String) (r : Signal) : Prop := r = .failure message

def EndsWith (message : String) (y : ρ ⊕ Except BuiltinError α) : Prop :=
  ∃ x, y = .inr x ∧ ErrsWith message x

namespace Effect

def goOn : Except BuiltinError Unit → Proc (Unit ⊕ Except BuiltinError Unit)
  | .ok () => .done (.inl ())
  | .error e => .done (.inr (.error e))

def withTaken (act : Value → Effect Unit) : Option Value → Proc (Unit ⊕ Except BuiltinError Unit)
  | none => .done (.inr (.ok ()))
  | some v => (act v).run.bind goOn

theorem inputTurn_eq (ctx : Context) (act : Value → Effect Unit) :
    inputTurn ctx act = ctx.input.channel.take.bind (withTaken act) := by
  refine congrArg (Proc.bind ctx.input.channel.take) (funext fun x => ?_)
  cases x with
  | none => rfl
  | some v => exact congrArg (Proc.bind (act v).run) (funext fun r => by cases r <;> rfl)

end Effect

namespace Feeds

theorem run_bind {x : Port → Effect α} {next : α → Port → Effect β}
    (first : Feeds ctx.Asks view ErrsWith fun out => (x out).run)
    (rest : ∀ a, Feeds ctx.Asks view ErrsWith fun out => (next a out).run) :
    Feeds ctx.Asks view ErrsWith fun out => (x out >>= fun a => next a out).run := by
  let F : Except BuiltinError α → Port → Proc (Except BuiltinError β) := fun r out =>
    match r with
    | .ok a => (next a out).run
    | .error e => .done (.error e)
  have whole : Feeds ctx.Asks view ErrsWith fun out => (x out).run.bind fun r => F r out := by
    apply first.bind
    · rintro message _ ⟨e, rfl, text⟩
      exact ⟨.error e, fun _ => rfl, e, rfl, text⟩
    · intro r
      cases r with
      | ok a => exact rest a
      | error e => exact .done _
  have same (out : Port) : (x out).run.bind (fun r => F r out) =
      (x out >>= fun a => next a out).run :=
    congrArg (Proc.bind (x out).run) (funext fun r => by cases r <;> rfl)
  simpa only [same] using whole

theorem signal {a : Port → Effect Unit}
    (feeds : Feeds ctx.Asks view ErrsWith fun out => (a out).run) :
    Feeds ctx.Asks view FailsFor fun out => (a out).signal := by
  apply feeds.map
  rintro message _ ⟨e, rfl, rfl⟩
  rfl

theorem turn {a : Port → Effect Unit} (feeds : Feeds ctx.Asks view ErrsWith fun out => (a out).run)
    {next : Except BuiltinError Unit → Proc (ρ ⊕ Except BuiltinError Unit)} {state : ρ}
    (ok : next (.ok ()) = .done (.inl state))
    (error : ∀ e, next (.error e) = .done (.inr (.error e))) :
    Feeds ctx.Asks view EndsWith fun out => (a out).run.bind next := by
  apply feeds.bind (F := fun x _ => next x)
  · rintro message _ ⟨e, rfl, text⟩
    exact ⟨_, fun _ => error e, _, rfl, e, rfl, text⟩
  · intro x
    cases x with
    | ok => rw [ok]; exact .done _
    | error e => rw [error]; exact .done _

theorem emit (v : Value) :
    Feeds ctx.Asks .values ErrsWith fun out => (Effect.emit (ctx.onto out) v).run := by
  simp only [Effect.emit, Context.output_onto]
  have sent : Feeds ctx.Asks .values ErrsWith fun out =>
      (out.send (.value v)).run.bind fun x => .done (x.mapError BuiltinError.port) := by
    refine .send (f := fun x _ => .done (x.mapError BuiltinError.port)) rfl trivial ?_ (.done _)
    intro e
    exact ⟨_, fun _ => rfl, _, rfl, rfl⟩
  exact sent

theorem emitAll (vs : List Value) :
    Feeds ctx.Asks .values ErrsWith fun out => (Effect.emitAll (ctx.onto out) vs).run := by
  induction vs with
  | nil => exact .done _
  | cons v vs ih => exact run_bind (emit v) fun _ => ih

theorem writeText {text : String} (some : Utf8.encode text ≠ []) :
    Feeds ctx.Asks .bytes ErrsWith fun out => (Effect.writeText (ctx.onto out) text).run := by
  simp only [Effect.writeText, Context.output_onto]
  have sent : Feeds ctx.Asks .bytes ErrsWith fun out =>
      (out.send (.bytes (Utf8.encode text))).run.bind
        fun x => .done (x.mapError BuiltinError.port) := by
    refine .send (f := fun x _ => .done (x.mapError BuiltinError.port)) rfl some ?_ (.done _)
    intro e
    exact ⟨_, fun _ => rfl, _, rfl, rfl⟩
  exact sent

theorem forInput {act : Port → Value → Effect Unit}
    (acts : ∀ v, Feeds ctx.Asks view ErrsWith fun out => (act out v).run) :
    Feeds ctx.Asks view ErrsWith fun out => (Effect.forInput (ctx.onto out) (act out)).run := by
  have turns (_ : Unit) : Feeds ctx.Asks view EndsWith fun out =>
      ctx.input.channel.take.bind (Effect.withTaken (act out)) := by
    have taken : Feeds ctx.Asks view (fun _ _ => False) fun _ => ctx.input.channel.take :=
      of_heeds rfl (fun _ => ctx.not_isWrite_of_asks)
        (ChannelEnd.heeds_take fun c reading => .inl ⟨.values, reading⟩)
    apply taken.bind nofun
    intro x
    cases x with
    | none => exact .done _
    | some v => exact turn (acts v) rfl fun _ => rfl
  simp only [Effect.run_forInput, Effect.inputTurn_eq, Context.input_onto]
  exact .iterate turns

/-! ### Bodies -/

theorem unpack : Feeds ctx.Asks .values FailsFor fun out => Builtin.unpack (ctx.onto out) := by
  apply signal
  apply forInput
  intro v
  cases v with
  | list items => exact emitAll items
  | _ => exact .done _

theorem intoLines : Feeds ctx.Asks .bytes FailsFor fun out => Builtin.intoLines (ctx.onto out) := by
  apply signal
  apply forInput
  intro v
  apply writeText
  rw [Builtin.encode_line]
  simp

theorem fromLines : Feeds ctx.Asks .values FailsFor fun out => Builtin.fromLines (ctx.onto out) := by
  let F : Bytes × Option String → Port → Proc (Unit ⊕ Except BuiltinError Unit) := fun x out =>
    Builtin.afterLine (ctx.onto out) x
  have turns (_ : Unit) : Feeds ctx.Asks .values EndsWith fun out =>
      ctx.input.stream.readLine.bind fun x => F x out := by
    have read : Feeds ctx.Asks .values (fun _ _ => False) fun _ => ctx.input.stream.readLine :=
      of_heeds rfl (fun _ => ctx.not_isWrite_of_asks) (StreamEnd.heeds_readLine
        (fun _ reading => .inl ⟨.bytes, reading⟩) fun _ _ reading => .inl ⟨.bytes, reading⟩)
    apply read.bind nofun
    rintro ⟨_ | ⟨b, bytes⟩, _ | message⟩
    · exact .done _
    · exact .done _
    · exact turn (emit _) rfl fun _ => rfl
    · exact .done _
  simp only [Builtin.fromLines_eq, Context.input_onto]
  apply signal
  exact .iterate turns

theorem afterDocument (found : Json.Result (Option Json)) :
    Feeds ctx.Asks .values EndsWith fun out => Builtin.afterDocument (ctx.onto out) found := by
  match found with
  | .ok none _ => exact .done _
  | .ok (some j) c => exact turn (emit _) rfl fun _ => rfl
  | .failed e _ => exact .done _
  | .starved => exact .done _

theorem withChunk {r : ReaderId} (reading : ctx.input.stream = .reading r)
    (start : Builtin.DocumentStart) (chunk : Bytes) (found : Json.Result (Option Json)) :
    Feeds ctx.Asks .values EndsWith fun out =>
      Builtin.withChunk (ctx.onto out) r start chunk found := by
  have consumes (n : ℕ) : ctx.Asks (.consume r n) := .inl ⟨.bytes, reading⟩
  cases found with
  | starved => exact .ask (consumes _) fun _ => .done _
  | ok document c => exact .ask (consumes _) fun _ => @afterDocument ctx (.ok document c)
  | failed e c => exact .ask (consumes _) fun _ => @afterDocument ctx (.failed e c)

theorem nextDocument {r : ReaderId} (reading : ctx.input.stream = .reading r)
    (start : Builtin.DocumentStart) :
    Feeds ctx.Asks .values EndsWith fun out => Builtin.nextDocument (ctx.onto out) r start := by
  by_cases starved : Json.Decoder.document (start.cursor start.read .open) = .starved
  · simp only [Builtin.nextDocument_of_starved starved]
    exact .ask (.inl ⟨.bytes, reading⟩) fun x => withChunk reading start _ _
  · simp only [Builtin.nextDocument_of_found starved]
    exact afterDocument _

theorem fromJson : Feeds ctx.Asks .values FailsFor fun out => Builtin.fromJson (ctx.onto out) := by
  simp only [Builtin.fromJson, Context.input_onto]
  cases reading : ctx.input.stream with
  | reading r =>
    apply signal
    exact .iterate fun start => nextDocument reading start
  | closed => exact .done _
  | writing w => exact .done _

theorem requireStore :
    Feeds ctx.Asks view ErrsWith fun out => (Builtin.requireStore (ctx.onto out)).run := by
  have store (out : Port) : (ctx.onto out).store = ctx.store := rfl
  simp only [Builtin.requireStore, store]
  cases ctx.store with
  | none => exact .done _
  | some store => exact .done _

theorem visitedDirectories :
    Feeds ctx.Asks .values FailsFor fun out => Builtin.visitedDirectories (ctx.onto out) := by
  apply signal
  apply run_bind requireStore
  intro store
  refine run_bind (.ask (.inr rfl) fun x => .done _) fun visited => ?_
  exact emitAll _

/-! ### Calls -/

theorem call {b : Builtin} {body : Port → Proc Signal}
    (started : ∀ out, b.invoke? (ctx.onto out) args = some (body out))
    (feeds : Feeds ctx.Asks view FailsFor body) :
    Feeds ctx.Asks view FailsFor fun out => b.call (ctx.onto out) args := by
  simp only [Builtin.call, started]
  split
  · apply feeds.attempt.map
    rintro message _ ⟨r, rfl, failed⟩
    exact failed
  · exact .done _

theorem call_of_none {b : Builtin} (none : ∀ out, b.invoke? (ctx.onto out) args = none) :
    Feeds ctx.Asks view FailsFor fun out => b.call (ctx.onto out) args := by
  simp only [Builtin.call, none]
  split <;> exact .done _

end Feeds

inductive Emitter
  | put
  | putAll
  | unpack
  | typeOf
  | fromLines
  | fromJson
  | visitedDirectories
  | intoLines

namespace Emitter

def builtin : Emitter → Builtin
  | put => .raw "put" Builtin.put
  | putAll => .variadic "put-all" [] Builtin.ofList Builtin.putAll
  | unpack => .fixed "unpack" [] Builtin.unpack
  | typeOf => .raw "typeof" Builtin.typeOf
  | fromLines => .fixed "from-lines" [] Builtin.fromLines
  | fromJson => .fixed "from-json" [] Builtin.fromJson
  | visitedDirectories => .fixed "visited-dirs" [] Builtin.visitedDirectories
  | intoLines => .fixed "into-lines" [] Builtin.intoLines

theorem get?_standard (b : Emitter) : Registry.standard.get? b.builtin.name = some b.builtin := by
  rw [Registry.standard, Registry.get?_ofList]
  cases b <;> rfl

def writes : Emitter → View
  | intoLines => .bytes
  | _ => .values

theorem fixed_feeds {name : String} {body : Context → Proc Signal}
    (feeds : Feeds ctx.Asks view FailsFor fun out => body (ctx.onto out)) :
    Feeds ctx.Asks view FailsFor fun out => (Builtin.fixed name [] body).call (ctx.onto out) args :=
  Feeds.call (fun _ => rfl) feeds

theorem feeds (b : Emitter) (ctx : Context) (args : List Value) :
    Feeds ctx.Asks b.writes FailsFor fun out => b.builtin.call (ctx.onto out) args := by
  cases b with
  | put => exact Feeds.call (fun _ => rfl) (.signal (.emitAll args))
  | putAll =>
    have invoke (out : Port) : putAll.builtin.invoke? (ctx.onto out) args =
        (args.mapM Builtin.ofList.coerce?).map (Builtin.putAll (ctx.onto out)) := rfl
    cases lists : args.mapM Builtin.ofList.coerce? with
    | none => exact Feeds.call_of_none fun out => by rw [invoke, lists]; rfl
    | some lists' =>
      have body : Feeds ctx.Asks .values FailsFor fun out => Builtin.putAll (ctx.onto out) lists' :=
        .signal (.emitAll lists'.flatten)
      exact Feeds.call (fun out => by rw [invoke, lists]; rfl) body
  | typeOf => exact Feeds.call (fun _ => rfl) (.signal (.emitAll _))
  | unpack => exact fixed_feeds .unpack
  | fromLines => exact fixed_feeds .fromLines
  | fromJson => exact fixed_feeds .fromJson
  | visitedDirectories => exact fixed_feeds .visitedDirectories
  | intoLines => exact fixed_feeds .intoLines

end Emitter

end Conduit
