import Conduit.Builtin.Standard
import Conduit.Proofs.Builtin.Contract
import Conduit.Proofs.Builtin.Documents
import Conduit.Proofs.Proc.Heeds

/-!
The views that the builtins have of a conduit.  A conduit carries values and bytes side by side, and
a builtin reads one of the two from its input and writes one of the two to its output.
-/

namespace Conduit

open Proc (Heeds ask)

inductive View
  | values
  | bytes

namespace Port

def Reads (p : Port) : View → Request → Prop
  | .values, .take c => p.channel = .reading c
  | .bytes, .fill r => p.stream = .reading r
  | .bytes, .consume r _ => p.stream = .reading r
  | _, _ => False

def Writes (p : Port) : View → Request → Prop
  | .values, .offer c _ => p.channel = .writing c
  | .bytes, .offerBytes w bytes => p.stream = .writing w ∧ bytes ≠ []
  | .bytes, .flush w => p.stream = .writing w
  | _, _ => False

end Port

def Context.Uses (ctx : Context) (reads writes : View) (r : Request) : Prop :=
  ctx.input.Reads reads r ∨ ctx.output.Writes writes r

variable {may : Request → Prop} {α β : Type}

def FailsWith {ε : Type} (f : PortError → ε) (e : PortError) (x : Except ε α) : Prop :=
  x = .error (f e)

def Unfailing (_ : PortError) (_ : α) : Prop := False

/-! ### Ends -/

namespace ChannelEnd

variable {e : ChannelEnd}

theorem heeds_take (takes : ∀ c, e = .reading c → may (.take c)) :
    Heeds may Unfailing none e.take := by
  cases e with
  | reading c => exact .ask (takes c rfl) (fun _ => rfl) .done
  | closed => exact .done none
  | writing c => exact .done none

theorem heeds_put (offers : ∀ c v, e = .writing c → may (.offer c v)) (v : Value) :
    Heeds may (FailsWith id) none (e.put v).run := by
  cases e with
  | writing c =>
    refine .request (.inl (offers c v rfl)) (fun x e he => ?_) fun x => ?_
    · cases x with
      | ok ticket => cases he
      | error e' => cases he; exact ⟨_, rfl, rfl⟩
    · cases x with
      | ok ticket =>
        refine .request (.inr rfl) (fun x e he => ?_) fun x => .done x
        cases x with
        | ok => cases he
        | error e' => cases he; exact ⟨_, rfl, rfl⟩
      | error e' => exact .done _
  | closed => exact .done _
  | reading c => exact .done _

end ChannelEnd

namespace StreamEnd

variable {e : StreamEnd}

theorem heeds_flush {w : WriterId} (flushes : may (.flush w)) : Heeds may (FailsWith id) none
    ((ask (.flush w)).bind fun x => .done (x.mapError PortError.io)) := by
  refine .request (.inl flushes) (fun x e he => ?_) fun x => .done _
  cases x with
  | ok => cases he
  | error message => cases he; exact ⟨_, rfl, rfl⟩

theorem heeds_write (offers : ∀ w bytes, e = .writing w → bytes ≠ [] → may (.offerBytes w bytes))
    (flushes : ∀ w, e = .writing w → may (.flush w)) (bytes : Bytes) :
    Heeds may (FailsWith id) none (e.write bytes).run := by
  cases e with
  | writing w =>
    have flush := heeds_flush (flushes w rfl)
    rw [write]
    cases bytes with
    | nil => exact flush
    | cons b bytes =>
      have some : b :: bytes ≠ [] := List.cons_ne_nil b bytes
      refine .request (.inl (offers w _ rfl some)) (fun x e he => ?_) fun x => ?_
      · cases x with
        | ok ticket => cases he
        | error message => cases he; exact ⟨_, rfl, rfl⟩
      · cases x with
        | ok ticket =>
          refine .request (.inr rfl) (fun x e he => ?_) fun x => ?_
          · cases x with
            | ok => cases he
            | error message => cases he; exact ⟨_, rfl, rfl⟩
          · cases x with
            | ok => exact flush.anyway
            | error message => exact .done _
        | error message => exact .done _
  | closed => exact .done _
  | reading r => exact .done _

theorem heeds_readLine (fills : ∀ r, e = .reading r → may (.fill r))
    (consumes : ∀ r n, e = .reading r → may (.consume r n)) :
    Heeds may Unfailing none e.readLine := by
  cases e with
  | reading r =>
    rw [readLine_reading]
    refine .iterate fun read => .ask (fills r rfl) (fun _ => rfl) fun x => ?_
    cases x with
    | error message => exact .done _
    | ok chunk =>
      cases chunk with
      | nil => exact .done _
      | cons b chunk =>
        dsimp only
        cases throughNewline? (b :: chunk) with
        | some line => exact .ask (consumes r _ rfl) (fun _ => rfl) fun _ => .done _
        | none => exact .ask (consumes r _ rfl) (fun _ => rfl) fun _ => .done _
  | closed => exact .done _
  | writing w => exact .done _

end StreamEnd

/-! ### Effects -/

section Except

variable {ε ε' : Type} {f : PortError → ε}

theorem heeds_adapt {x : ExceptT ε Proc α} (heeds : Heeds may (FailsWith f) none x.run)
    (g : ε → ε') : Heeds may (FailsWith (g ∘ f)) none (ExceptT.adapt g x).run := by
  refine heeds.map ?_
  rintro e _ rfl
  rfl

theorem heeds_run_bind {x : ExceptT ε Proc α} {next : α → ExceptT ε Proc β}
    (first : Heeds may (FailsWith f) none x.run)
    (rest : ∀ a, Heeds may (FailsWith f) none (next a).run) :
    Heeds may (FailsWith f) none (x >>= next).run := by
  refine Heeds.bind first ?_ fun r => ?_
  · rintro e _ rfl
    exact ⟨_, rfl, rfl⟩
  · cases r with
    | ok a => exact rest a
    | error e => exact .done _

end Except

namespace Builtin

def Refused (e : PortError) (r : Signal) : Prop := r = (BuiltinError.port e).signal

theorem heeds_signal {a : Effect Unit} (heeds : Heeds may (FailsWith .port) none a.run) :
    Heeds may Refused none a.signal := by
  refine heeds.map ?_
  rintro e _ rfl
  rfl

theorem safe_call (b : Builtin) (ctx : Context) (args : List Value) :
    Proc.Safe (b.call ctx args) := by
  rw [call]
  split
  · split
    · exact Proc.safe_bind (Proc.safe_attempt _) fun _ => .done _
    · exact .done _
  · exact .done _

theorem heeds_call {b : Builtin} {ctx : Context} {args : List Value}
    (body : ∀ p, b.invoke? ctx args = some p → Heeds may Refused none p) :
    Heeds may Refused none (b.call ctx args) := by
  rw [call]
  split
  · split
    · next p started =>
      refine (body p started).attempt.map ?_
      rintro e _ ⟨r, rfl, refused⟩
      exact refused
    · exact .done _
  · exact .done _

variable {ctx : Context}

section Values

variable (offers : ∀ c v, ctx.output.channel = .writing c → may (.offer c v))
include offers

theorem heeds_emit (v : Value) : Heeds may (FailsWith .port) none (Effect.emit ctx v).run :=
  heeds_adapt (ChannelEnd.heeds_put offers v) BuiltinError.port

theorem heeds_emitAll (vs : List Value) :
    Heeds may (FailsWith .port) none (Effect.emitAll ctx vs).run := by
  induction vs with
  | nil => exact .done _
  | cons v vs ih => exact heeds_run_bind (heeds_emit offers v) fun _ => ih

end Values

theorem heeds_writeText
    (offers : ∀ w bytes, ctx.output.stream = .writing w → bytes ≠ [] → may (.offerBytes w bytes))
    (flushes : ∀ w, ctx.output.stream = .writing w → may (.flush w)) (text : String) :
    Heeds may (FailsWith .port) none (Effect.writeText ctx text).run :=
  heeds_adapt (StreamEnd.heeds_write offers flushes _) BuiltinError.port

def BreaksWith {σ ε : Type} (f : PortError → ε) (e : PortError) (y : σ ⊕ Except ε α) : Prop :=
  ∃ x, y = .inr x ∧ FailsWith f e x

theorem heeds_turn {σ : Type} {a : Effect Unit} (heeds : Heeds may (FailsWith .port) none a.run)
    {next : Except BuiltinError Unit → Proc (σ ⊕ Except BuiltinError Unit)} {state : σ}
    (ok : next (.ok ()) = .done (.inl state))
    (error : ∀ e, next (.error e) = .done (.inr (.error e))) :
    Heeds may (BreaksWith .port) none (a.run.bind next) := by
  refine Heeds.bind heeds ?_ fun r => ?_
  · rintro e _ rfl
    exact ⟨_, error _, _, rfl, rfl⟩
  · cases r with
    | ok => rw [ok]; exact .done _
    | error e => rw [error]; exact .done _

theorem heeds_forInput (takes : ∀ c, ctx.input.channel = .reading c → may (.take c))
    {act : Value → Effect Unit} (acts : ∀ v, Heeds may (FailsWith .port) none (act v).run) :
    Heeds may (FailsWith .port) none (Effect.forInput ctx act).run := by
  rw [Effect.run_forInput]
  refine .iterate fun _ => (ChannelEnd.heeds_take takes).bind nofun fun x => ?_
  cases x with
  | none => exact .done _
  | some v => exact heeds_turn (acts v) rfl fun _ => rfl

/-! ### Builtins -/

theorem heeds_fromLines (fills : ∀ r, ctx.input.stream = .reading r → may (.fill r))
    (consumes : ∀ r n, ctx.input.stream = .reading r → may (.consume r n))
    (offers : ∀ c v, ctx.output.channel = .writing c → may (.offer c v)) :
    Heeds may Refused none (fromLines ctx) := by
  rw [fromLines_eq]
  refine heeds_signal (.iterate fun _ => ?_)
  refine (StreamEnd.heeds_readLine fills consumes).bind nofun fun x => ?_
  obtain ⟨_ | ⟨b, bytes⟩, _ | message⟩ := x
  · exact .done _
  · exact .done _
  · exact heeds_turn (heeds_emit offers _) rfl fun _ => rfl
  · exact .done _

theorem heeds_afterDocument (offers : ∀ c v, ctx.output.channel = .writing c → may (.offer c v))
    (found : Json.Result (Option Json)) :
    Heeds may (BreaksWith .port) none (afterDocument ctx found) := by
  match found with
  | .ok none _ => exact .done _
  | .ok (some j) c => exact heeds_turn (heeds_emit offers _) rfl fun _ => rfl
  | .failed e _ => exact .done _
  | .starved => exact .done _

theorem heeds_fromJson (fills : ∀ r, ctx.input.stream = .reading r → may (.fill r))
    (consumes : ∀ r n, ctx.input.stream = .reading r → may (.consume r n))
    (offers : ∀ c v, ctx.output.channel = .writing c → may (.offer c v)) :
    Heeds may Refused none (fromJson ctx) := by
  rw [fromJson]
  cases stream : ctx.input.stream with
  | reading r =>
    refine heeds_signal (.iterate fun start => ?_)
    by_cases starved : Json.Decoder.document (start.cursor start.read .open) = .starved
    · rw [nextDocument_of_starved starved]
      refine .ask (fills r stream) (fun _ => rfl) fun x => ?_
      by_cases found : Json.Decoder.document
          (start.cursor (start.read ++ (atHand x).1) (atHand x).2) = .starved
      · rw [found]
        exact .ask (consumes r _ stream) (fun _ => rfl) fun _ => .done _
      · rw [withChunk_of_found found]
        exact .ask (consumes r _ stream) (fun _ => rfl) fun _ => heeds_afterDocument offers _
    · rw [nextDocument_of_found starved]
      exact heeds_afterDocument offers _
  | closed => exact .done _
  | writing w => exact .done _

end Builtin

def Request.isConsultation : Request → Bool
  | home | workingDirectory | listVisited _ | findVisited _ _ => true
  | _ => false

namespace Builtin

variable {ctx : Context}

theorem heeds_consult {β : Type} {fails : PortError → β → Prop} {r : Request}
    {f : r.Reply → Proc β} (consults : ∀ r : Request, r.isConsultation → may r)
    (consultation : r.isConsultation) (rest : ∀ x, Heeds may fails none (f x)) :
    Heeds may fails none ((ask r).bind f) := by
  refine .ask (consults r consultation) (fun x => ?_) rest
  cases r <;> first | rfl | cases consultation

theorem heeds_requireStore {next : StoreId → Effect β}
    (rest : ∀ store, ctx.store = some store → Heeds may (FailsWith .port) none (next store).run) :
    Heeds may (FailsWith .port) none (requireStore ctx >>= next).run := by
  rw [requireStore]
  cases attached : ctx.store with
  | none => exact .done _
  | some store => exact rest store attached

theorem heeds_visitedDirectories (consults : ∀ r : Request, r.isConsultation → may r)
    (offers : ∀ c v, ctx.output.channel = .writing c → may (.offer c v)) :
    Heeds may Refused none (visitedDirectories ctx) := by
  refine heeds_signal (heeds_requireStore fun store _ => ?_)
  refine heeds_run_bind (heeds_consult consults rfl fun _ => .done _) fun visited => ?_
  exact heeds_emitAll offers _

section Directories

variable (consults : ∀ r : Request, r.isConsultation → may r)
  (enters : ∀ path, may (.enterDirectory path))
  (visits : ∀ store path, ctx.store = some store → may (.addVisit store path))
include consults enters visits

theorem heeds_changeDirectory (target : String) :
    Heeds may (FailsWith .port) none (changeDirectory ctx target).run := by
  refine heeds_run_bind (.ask (enters target) (fun _ => rfl) fun _ => .done _) fun _ => ?_
  cases attached : ctx.store with
  | none => exact .done _
  | some store =>
    refine heeds_run_bind (heeds_consult consults rfl fun _ => .done _) fun path => ?_
    cases path with
    | none => exact .done _
    | some path => exact .ask (visits store path attached) (fun _ => rfl) fun _ => .done _

theorem heeds_cd (args : List Value) : Heeds may Refused none (cd ctx args) := by
  match args with
  | [] =>
    refine heeds_consult consults rfl fun home => ?_
    cases home with
    | none => exact .done _
    | some home => exact heeds_signal (heeds_changeDirectory consults enters visits home)
  | [v] => exact heeds_signal (heeds_changeDirectory consults enters visits v.text)
  | _ :: _ :: _ => exact .done _

theorem heeds_jumpDirectory (fragment : String) :
    Heeds may Refused none (jumpDirectory ctx fragment) := by
  refine heeds_signal (heeds_requireStore fun store attached => ?_)
  refine heeds_run_bind (heeds_consult consults rfl fun _ => .done _) fun found => ?_
  cases found with
  | nil => exact .done _
  | cons best _ =>
    refine heeds_run_bind (.ask (enters best.path) (fun _ => rfl) fun _ => .done _) fun _ => ?_
    exact .ask (visits store best.path attached) (fun _ => rfl) fun _ => .done _

end Directories

theorem heeds_stack
    (offers : ∀ w bytes, ctx.aux.stream = .writing w → bytes ≠ [] → may (.offerBytes w bytes))
    (flushes : ∀ w, ctx.aux.stream = .writing w → may (.flush w)) :
    Heeds may Refused none (stack ctx) :=
  heeds_signal (heeds_adapt (StreamEnd.heeds_write offers flushes _) BuiltinError.port)

end Builtin

/-! ### Calls -/

def Typed.All {R : Type 1} (good : R → Prop) : (ks : List ParamKind) → Typed ks R → Prop
  | [], f => good f
  | _ :: ks, f => ∀ x, All good ks (f x)

theorem Typed.All.applyTo? {R S : Type 1} {good : R → Prop} {good' : S → Prop}
    {finish : R → List Value → Option S}
    (last : ∀ r args y, good r → finish r args = some y → good' y) {ks : List ParamKind} :
    ∀ {f : Typed ks R} {args : List Value} {y : S}, All good ks f →
      Typed.applyTo? finish ks f args = some y → good' y := by
  induction ks with
  | nil => exact fun all result => last _ _ _ all result
  | cons k ks ih =>
    intro f args y all result
    cases args with
    | nil => cases result
    | cons v args =>
      rw [Typed.applyTo?] at result
      split at result
      · exact ih (all _) result
      · cases result

namespace Builtin

variable {ctx : Context} {args : List Value} {name : String}

theorem heeds_raw {body : Context → List Value → Proc Signal}
    (heeds : Heeds may Refused none (body ctx args)) :
    Heeds may Refused none ((raw name body).call ctx args) :=
  heeds_call fun _ started => Option.some.inj started ▸ heeds

theorem heeds_fixed {kinds : List ParamKind} {body : Context → Typed kinds (Proc Signal)}
    (all : Typed.All (Heeds may Refused none) kinds (body ctx)) :
    Heeds may Refused none ((fixed name kinds body).call ctx args) :=
  heeds_call fun _ started =>
    all.applyTo? (fun _ _ _ heeds same => Option.some.inj same ▸ heeds) started

theorem heeds_variadic {kinds : List ParamKind} {rest : ParamKind}
    {body : Context → Typed kinds (List rest.Carrier → Proc Signal)}
    (all : Typed.All (fun g => ∀ xs, Heeds may Refused none (g xs)) kinds (body ctx)) :
    Heeds may Refused none ((variadic name kinds rest body).call ctx args) := by
  refine heeds_call fun _ started => all.applyTo? (fun g args p heeds result => ?_) started
  obtain ⟨xs, -, rfl⟩ := Option.map_eq_some_iff.1 result
  exact heeds xs

def plainNames : List String :=
  [":", "true", "put", "put-all", "unpack", "typeof", "rat", "=", "print", "println", "into-lines",
    "from-lines", "from-json", "failure", "return", "break", "continue", "+", "-", "*", "/"]

section Values

variable (offers : ∀ c v, ctx.output.channel = .writing c → may (.offer c v))
include offers

theorem heeds_emits (vs : List Value) :
    Heeds may Refused none (Effect.emitAll ctx vs).signal :=
  heeds_signal (heeds_emitAll offers vs)

theorem heeds_emitOne (v : Value) : Heeds may Refused none (Effect.emit ctx v).signal :=
  heeds_signal (heeds_emit offers v)

theorem heeds_unpack (takes : ∀ c, ctx.input.channel = .reading c → may (.take c)) :
    Heeds may Refused none (unpack ctx) := by
  refine heeds_signal (heeds_forInput takes fun v => ?_)
  cases v with
  | list items => exact heeds_emitAll offers items
  | _ => exact .done _

theorem heeds_toRational (v : Value) : Heeds may Refused none (toRational ctx v) := by
  rw [toRational]
  split
  · exact heeds_emitOne offers _
  · exact .done _

theorem heeds_equality (args : List Value) : Heeds may Refused none (equality ctx args) := by
  rw [equality]
  split
  · exact .done _
  · exact heeds_emitOne offers _

end Values

section Text

variable
  (offers : ∀ w bytes, ctx.output.stream = .writing w → bytes ≠ [] → may (.offerBytes w bytes))
  (flushes : ∀ w, ctx.output.stream = .writing w → may (.flush w))
include offers flushes

theorem heeds_print (texts : List String) : Heeds may Refused none (print ctx texts) :=
  heeds_signal (heeds_writeText offers flushes _)

theorem heeds_println (texts : List String) : Heeds may Refused none (println ctx texts) :=
  heeds_signal (heeds_writeText offers flushes _)

theorem heeds_intoLines (takes : ∀ c, ctx.input.channel = .reading c → may (.take c)) :
    Heeds may Refused none (intoLines ctx) :=
  heeds_signal (heeds_forInput takes fun _ => heeds_writeText offers flushes _)

end Text

section Uses

variable {reads writes : View}

theorem offers_values (c : ChannelId) (v : Value) (writing : ctx.output.channel = .writing c) :
    ctx.Uses reads .values (.offer c v) := .inr writing

theorem offers_bytes (w : WriterId) (bytes : Bytes) (writing : ctx.output.stream = .writing w)
    (some : bytes ≠ []) : ctx.Uses reads .bytes (.offerBytes w bytes) := .inr ⟨writing, some⟩

theorem flushes_bytes (w : WriterId) (writing : ctx.output.stream = .writing w) :
    ctx.Uses reads .bytes (.flush w) := .inr writing

theorem takes_values (c : ChannelId) (reading : ctx.input.channel = .reading c) :
    ctx.Uses .values writes (.take c) := .inl reading

theorem fills_bytes (q : ReaderId) (reading : ctx.input.stream = .reading q) :
    ctx.Uses .bytes writes (.fill q) := .inl reading

theorem consumes_bytes (q : ReaderId) (n : Nat) (reading : ctx.input.stream = .reading q) :
    ctx.Uses .bytes writes (.consume q n) := .inl reading

end Uses

theorem heeds_plain {b : Builtin} (standard : b ∈ Builtin.standard) (plain : b.name ∈ plainNames) :
    ∃ reads writes, ∀ ctx args, Heeds (ctx.Uses reads writes) Refused none (b.call ctx args) := by
  revert b
  simp only [Builtin.standard, List.forall_mem_cons]
  refine ⟨fun _ => ⟨.values, .values, fun _ _ => heeds_raw (.done _)⟩,
    fun _ => ⟨.values, .values, fun _ _ => heeds_raw (.done _)⟩,
    fun _ => ⟨.values, .values, fun _ _ => heeds_raw (heeds_emits offers_values _)⟩,
    fun _ => ⟨.values, .values, fun _ _ => heeds_variadic fun _ => heeds_emits offers_values _⟩,
    fun _ => ⟨.values, .values, fun _ _ => heeds_fixed (heeds_unpack offers_values takes_values)⟩,
    fun _ => ⟨.values, .values, fun _ _ => heeds_raw (heeds_emits offers_values _)⟩,
    fun _ => ⟨.values, .values, fun _ _ => heeds_fixed fun v => heeds_toRational offers_values v⟩,
    fun _ => ⟨.values, .values, fun _ args => heeds_raw (heeds_equality offers_values args)⟩,
    fun _ => ⟨.values, .bytes, fun _ _ => heeds_variadic fun _ =>
      heeds_print offers_bytes flushes_bytes _⟩,
    fun _ => ⟨.values, .bytes, fun _ _ => heeds_variadic fun _ =>
      heeds_println offers_bytes flushes_bytes _⟩,
    fun _ => ⟨.values, .bytes, fun _ _ => heeds_fixed
      (heeds_intoLines offers_bytes flushes_bytes takes_values)⟩,
    fun _ => ⟨.bytes, .values, fun _ _ => heeds_fixed
      (heeds_fromLines fills_bytes consumes_bytes offers_values)⟩,
    fun _ => ⟨.bytes, .values, fun _ _ => heeds_fixed
      (heeds_fromJson fills_bytes consumes_bytes offers_values)⟩,
    fun other => absurd other (by decide),
    fun _ => ⟨.values, .values, fun _ _ => heeds_fixed fun _ => .done _⟩,
    fun _ => ⟨.values, .values, fun _ _ => heeds_fixed (.done _)⟩,
    fun _ => ⟨.values, .values, fun _ _ => heeds_fixed (.done _)⟩,
    fun _ => ⟨.values, .values, fun _ _ => heeds_fixed (.done _)⟩,
    fun other => absurd other (by decide),
    fun _ => ⟨.values, .values, fun _ _ => heeds_variadic fun _ => heeds_emitOne offers_values _⟩,
    fun _ => ⟨.values, .values, fun _ _ => heeds_variadic fun _ _ => heeds_emitOne offers_values _⟩,
    fun _ => ⟨.values, .values, fun _ _ => heeds_variadic fun _ => heeds_emitOne offers_values _⟩,
    fun _ => ⟨.values, .values, fun _ _ => heeds_variadic fun _ _ => heeds_emitOne offers_values _⟩,
    fun other => absurd other (by decide), fun other => absurd other (by decide),
    fun other => absurd other (by decide), fun other => absurd other (by decide),
    fun other => absurd other (by decide), fun other => absurd other (by decide), nofun⟩

end Builtin

end Conduit
