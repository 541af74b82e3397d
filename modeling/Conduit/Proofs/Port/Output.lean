import Conduit.Port.Access
import Conduit.Proofs.Builtin.Views
import Conduit.Proofs.Proc.Replies

/-!
A process and the other end of its output.  What is there answers each item that is written, by
what it has received so far: it takes the item, or refuses it with an error, or keeps the writer
waiting, at whichever request of the write it likes.  All that is not written to this end of the
output is answered by the system as ever.
-/

namespace Conduit

inductive Item
  | value (v : Value)
  | bytes (b : Bytes)

namespace Item

def view : Item → View
  | value _ => .values
  | bytes _ => .bytes

def Solid : Item → Prop
  | value _ => True
  | bytes b => b ≠ []

end Item

inductive WriteStep
  | offer
  | settle
  | flush
  deriving DecidableEq

/-- The other end of an output: what it answers to the next item after those that it has received,
none while it keeps the writer waiting, and to which request of the write. -/
structure Output where
  answer : List Item → Item → Option (Except PortError Unit)
  step : List Item → Item → WriteStep
  ticket : List Item → Item → ℕ

/-- The system, what the other end of the output has received, and what is being written to it. -/
structure Scene where
  system : System
  got : List Item := []
  begun : Option Item := none

def Scene.ask (σ : Scene) (r : Request) : Option (r.Reply × Scene) :=
  (r.perform? σ.system).map fun (x, s) => (x, { σ with system := s })

namespace Output

def early (o : Output) (step : WriteStep) (got : List Item) (item : Item) :
    Option (Except PortError Unit) :=
  if o.step got item = step then o.answer got item else some (.ok ())

def begin? (o : Output) (σ : Scene) (item : Item) : Option (Except PortError ℕ × Scene) :=
  (o.early .offer σ.got item).map fun
    | .ok () => (.ok (o.ticket σ.got item), { σ with begun := some item })
    | .error e => (.error e, σ)

def finish? (o : Output) (σ : Scene) (item : Item) : Option (Except PortError Unit × Scene) :=
  (o.answer σ.got item).map fun
    | .ok () => (.ok (), { σ with got := σ.got ++ [item], begun := none })
    | .error e => (.error e, σ)

/-- What is written to the port is answered by the other end, and all else by the system. -/
def behind (o : Output) (out : Port) : Replies Scene
  | σ, .offer c v =>
    if out.channel = .writing c then o.begin? σ (.value v) else σ.ask (.offer c v)
  | σ, .settle c ticket =>
    match σ.begun with
    | some (.value v) =>
      if out.channel = .writing c ∧ ticket = o.ticket σ.got (.value v) then o.finish? σ (.value v)
      else σ.ask (.settle c ticket)
    | _ => σ.ask (.settle c ticket)
  | σ, .offerBytes w b =>
    if out.stream = .writing w then
      (o.begin? σ (.bytes b)).map fun (x, σ) => (x.mapError PortError.message, σ)
    else σ.ask (.offerBytes w b)
  | σ, .settleBytes w ticket =>
    match σ.begun with
    | some (.bytes b) =>
      if out.stream = .writing w ∧ ticket = o.ticket σ.got (.bytes b) then
        (o.early .settle σ.got (.bytes b)).map fun x => (x.mapError PortError.message, σ)
      else σ.ask (.settleBytes w ticket)
    | _ => σ.ask (.settleBytes w ticket)
  | σ, .flush w =>
    match σ.begun with
    | some (.bytes b) =>
      if out.stream = .writing w then
        (o.finish? σ (.bytes b)).map fun (x, σ) => (x.mapError PortError.message, σ)
      else σ.ask (.flush w)
    | _ => σ.ask (.flush w)
  | σ, r => σ.ask r

end Output

def Request.isWrite : Request → Bool
  | offer _ _ | settle _ _ | offerBytes _ _ | settleBytes _ _ | flush _ => true
  | _ => false

variable {α β : Type} {o : Output} {out : Port} {item : Item} {p p' q : Proc α} {σ σ' : Scene}
  {es es' : List Event} {s : System} {got : List Item} {step : WriteStep} {c : ChannelId} {v : Value}
  {w : WriterId} {b : Bytes} {e : PortError} {m : Replies Scene}

theorem Output.behind_of_not_isWrite {r : Request} (quiet : r.isWrite = false) :
    o.behind out σ r = σ.ask r := by
  cases r <;> first | rfl | cases quiet

/-- What the output gets from the process, and what the process comes to; none if it is kept
waiting for ever. -/
def Brings (m : Replies Scene) (p : Proc α) (s : System) (ws : List Item) : Option α → Prop
  | some a => ∃ n es σ, Goes m n p { system := s } es (.done a) σ ∧ σ.got = ws
  | none => ∃ n es r next σ, Goes m n p { system := s } es (.request r next) σ ∧
      m σ r = none ∧ σ.got = ws

namespace Brings

variable {ws ws' : List Item} {x x' : Option α}

theorem goes (brings : Brings m p s ws x) : ∃ n es q σ, Goes m n p { system := s } es q σ ∧
    σ.got = ws ∧ Rests m q σ ∧ ∀ a, x = some a ↔ q = .done a := by
  cases x with
  | some a =>
    obtain ⟨n, es, σ, goes, received⟩ := brings
    exact ⟨n, es, _, σ, goes, received, .done, by simp⟩
  | none =>
    obtain ⟨n, es, r, next, σ, goes, waits, received⟩ := brings
    exact ⟨n, es, _, σ, goes, received, .waiting waits, by simp⟩

theorem of_rests {n : ℕ} (goes : Goes m n p { system := s } es q σ) (received : σ.got = ws)
    (rests : Rests m q σ) (ends : ∀ a, x = some a ↔ q = .done a) : Brings m p s ws x := by
  cases rests with
  | done =>
    rw [(ends _).2 rfl]
    exact ⟨n, es, σ, goes, received⟩
  | waiting waits =>
    cases x with
    | none => exact ⟨n, es, _, _, σ, goes, waits, received⟩
    | some a => cases (ends a).1 rfl

theorem unique (brings : Brings m p s ws x) (brings' : Brings m p s ws' x') :
    ws' = ws ∧ x' = x := by
  obtain ⟨n, es, q, σ, goes, received, rests, answer⟩ := brings.goes
  obtain ⟨k, es', q', σ', goes', received', rests', answer'⟩ := brings'.goes
  obtain ⟨-, rfl, rfl⟩ := goes.unique rests goes' rests'
  refine ⟨received'.symm.trans received, Option.ext fun r => ?_⟩
  rw [answer, answer']

theorem iff (brings : Brings m p s ws x) (ws' : List Item) (x' : Option α) :
    Brings m p s ws' x' ↔ ws' = ws ∧ x' = x := by
  constructor
  · exact brings.unique
  · rintro ⟨rfl, rfl⟩
    exact brings

end Brings

/-! ### Refusals -/

def Accepted (es : List Event) : Prop :=
  ∀ r x, .asked r x ∈ es → r.refusal? x = none

def Ceases (es : List Event) : Prop :=
  ∀ before r x after, es = before ++ .asked r x :: after → r.refusal? x ≠ none → after = []

theorem accepted_nil : Accepted [] := nofun

theorem Accepted.cons {r : Request} {x : r.Reply} (accepted : r.refusal? x = none)
    (rest : Accepted es) : Accepted (.asked r x :: es) := by
  intro r' x' asked
  rcases List.mem_cons.1 asked with same | later
  · cases same
    exact accepted
  · exact rest r' x' later

theorem ceases_singleton (ev : Event) : Ceases [ev] := by
  intro before r x after same _
  have count := congrArg List.length same
  simp only [List.length_nil, List.length_append, List.length_cons] at count
  exact List.length_eq_zero_iff.1 (by omega)

theorem accepted_append (first : Accepted es) (rest : Accepted es') : Accepted (es ++ es') := by
  intro r x asked
  rcases List.mem_append.1 asked with asked | asked
  · exact first r x asked
  · exact rest r x asked

theorem Accepted.ceases_append (first : Accepted es) (rest : Ceases es') : Ceases (es ++ es') := by
  intro before r x after same refused
  rcases List.append_eq_append_iff.1 same with ⟨more, -, same⟩ | ⟨more, same, same'⟩
  · exact rest more r x after same refused
  · cases more with
    | nil => exact rest [] r x after same'.symm refused
    | cons ev more =>
      obtain ⟨here, -⟩ := List.cons.inj same'
      have asked : .asked r x ∈ es := by simp [same, here]
      exact absurd (first r x asked) refused

theorem Accepted.ceases (clean : Accepted es) : Ceases es := by
  intro before r x after same refused
  exact absurd (clean r x (by simp [same])) refused

/-! ### Writing one item -/

namespace Output

theorem early_of_taken (taken : o.answer got item = some (.ok ())) (step : WriteStep) :
    o.early step got item = some (.ok ()) := by
  rw [early, taken]
  exact ite_self _

theorem early_cases (o : Output) (step : WriteStep) (got : List Item) (item : Item) :
    o.early step got item = o.answer got item ∨ o.early step got item = some (.ok ()) :=
  ite_eq_or_eq ..

end Output

namespace Port

def canWrite (out : Port) : View → Bool
  | .values => out.channel.canWrite
  | .bytes => out.stream.canWrite

def send (out : Port) : Item → PortEffect Unit
  | .value v => out.channel.put v
  | .bytes b => out.stream.write b

def answer? (out : Port) (o : Output) (got : List Item) (item : Item) :
    Option (Except PortError Unit) :=
  if out.canWrite item.view then o.answer got item else some (.error .closed)

theorem exists_channel (opened : out.canWrite .values) : ∃ c, out.channel = .writing c := by
  obtain ⟨_ | _ | c, stream⟩ := out
  · cases opened
  · cases opened
  · exact ⟨c, rfl⟩

theorem exists_stream (opened : out.canWrite .bytes) : ∃ w, out.stream = .writing w := by
  obtain ⟨channel, _ | _ | w⟩ := out
  · cases opened
  · cases opened
  · exact ⟨w, rfl⟩

theorem send_shut (shut : ¬ out.canWrite item.view) :
    (out.send item).run = .done (.error .closed) := by
  obtain ⟨channel, stream⟩ := out
  cases item with
  | value v =>
    cases channel with
    | writing c => exact absurd rfl shut
    | closed => rfl
    | reading c => rfl
  | bytes b =>
    cases stream with
    | writing w => exact absurd rfl shut
    | closed => rfl
    | reading r => rfl

/-! ### The requests of a write -/

section Requests

variable {begun : Option Item}

def started (o : Output) (s : System) (got : List Item) (begun : Option Item) (item : Item) :
    Except PortError Unit → Except PortError ℕ × Scene
  | .ok () => (.ok (o.ticket got item), ⟨s, got, some item⟩)
  | .error e => (.error e, ⟨s, got, begun⟩)

theorem begin?_eq (o : Output) (s : System) (got : List Item) (begun : Option Item) (item : Item) :
    o.begin? ⟨s, got, begun⟩ item =
      (o.early .offer got item).map (started o s got begun item) := by
  refine congrArg (Option.map · (o.early .offer got item)) (funext fun x => ?_)
  cases x <;> rfl

theorem offer_eq (o : Output) (s : System) (got : List Item) (begun : Option Item) (v : Value)
    (writing : out.channel = .writing c) :
    o.behind out ⟨s, got, begun⟩ (.offer c v) =
      (o.early .offer got (.value v)).map (started o s got begun (.value v)) := by
  simp [Output.behind, begin?_eq, writing]

theorem offerBytes_eq (o : Output) (s : System) (got : List Item) (begun : Option Item) (b : Bytes)
    (writing : out.stream = .writing w) :
    o.behind out ⟨s, got, begun⟩ (.offerBytes w b) = (o.early .offer got (.bytes b)).map fun x =>
      ((started o s got begun (.bytes b) x).1.mapError PortError.message,
        (started o s got begun (.bytes b) x).2) := by
  simp [Output.behind, begin?_eq, writing, Function.comp_def]

def finished (s : System) (got : List Item) (item : Item) : Except PortError Unit → Scene
  | .ok () => ⟨s, got ++ [item], none⟩
  | .error _ => ⟨s, got, some item⟩

theorem finish?_eq (o : Output) (s : System) (got : List Item) (item : Item) :
    o.finish? ⟨s, got, some item⟩ item =
      (o.answer got item).map fun x => (x, finished s got item x) := by
  refine congrArg (Option.map · (o.answer got item)) (funext fun x => ?_)
  cases x <;> rfl

theorem settle_eq (o : Output) (s : System) (got : List Item) (v : Value)
    (writing : out.channel = .writing c) :
    o.behind out ⟨s, got, some (.value v)⟩ (.settle c (o.ticket got (.value v))) =
      (o.answer got (.value v)).map fun x => (x, finished s got (.value v) x) := by
  simp [Output.behind, finish?_eq, writing]

theorem settleBytes_eq (o : Output) (s : System) (got : List Item) (b : Bytes)
    (writing : out.stream = .writing w) :
    o.behind out ⟨s, got, some (.bytes b)⟩ (.settleBytes w (o.ticket got (.bytes b))) =
      (o.early .settle got (.bytes b)).map fun x =>
        (x.mapError PortError.message, ⟨s, got, some (.bytes b)⟩) := by
  simp [Output.behind, writing]

theorem flush_eq (o : Output) (s : System) (got : List Item) (b : Bytes)
    (writing : out.stream = .writing w) :
    o.behind out ⟨s, got, some (.bytes b)⟩ (.flush w) = (o.answer got (.bytes b)).map fun x =>
      (x.mapError PortError.message, finished s got (.bytes b) x) := by
  simp [Output.behind, finish?_eq, writing, Function.comp_def]

end Requests

/-! ### Whole writes -/

theorem goes_send (solid : item.Solid) (taken : out.answer? o got item = some (.ok ())) :
    ∃ n es, Accepted es ∧
      Goes (o.behind out) (n + 1) (out.send item).run ⟨s, got, none⟩ es (.done (.ok ()))
        ⟨s, got ++ [item], none⟩ := by
  rw [answer?] at taken
  split at taken
  · next opened =>
    have granted (step : WriteStep) := Output.early_of_taken taken step
    cases item with
    | value v =>
      obtain ⟨c, writing⟩ := exists_channel opened
      have first := offer_eq o s got none v writing
      have last := settle_eq o s got v writing
      rw [granted] at first
      rw [taken] at last
      rw [send, writing]
      refine ⟨1, _, ?_, .request first (.request last .refl)⟩
      exact .cons rfl (.cons rfl accepted_nil)
    | bytes b =>
      obtain ⟨w, writing⟩ := exists_stream opened
      obtain ⟨x, b, rfl⟩ := List.exists_cons_of_ne_nil solid
      have first := offerBytes_eq o s got none (x :: b) writing
      have settled := settleBytes_eq o s got (x :: b) writing
      have last := flush_eq o s got (x :: b) writing
      rw [granted] at first settled
      rw [taken] at last
      rw [send, writing]
      refine ⟨2, _, ?_, .request first (.request settled (.request last .refl))⟩
      exact .cons rfl (.cons rfl (.cons rfl accepted_nil))
  · cases taken

theorem goes_send_refused (solid : item.Solid)
    (refused : out.answer? o got item = some (.error e)) :
    ∃ n es e' begun, e'.message = e.message ∧ Ceases es ∧
      Goes (o.behind out) n (out.send item).run ⟨s, got, none⟩ es (.done (.error e'))
        ⟨s, got, begun⟩ := by
  rw [answer?] at refused
  split at refused
  · next opened =>
    -- The refusal is the answer to whichever request the output likes; those before are granted.
    cases item with
    | value v =>
      obtain ⟨c, writing⟩ := exists_channel opened
      have first := offer_eq o s got none v writing
      have last := settle_eq o s got v writing
      rw [refused] at last
      rw [send, writing]
      rcases o.early_cases .offer got (.value v) with early | granted
      · rw [early, refused] at first
        exact ⟨1, _, e, none, rfl, ceases_singleton _, .request first .refl⟩
      · rw [granted] at first
        refine ⟨2, _, e, _, rfl, ?_, .request first (.request last .refl)⟩
        exact Accepted.ceases_append (.cons rfl accepted_nil) (ceases_singleton _)
    | bytes b =>
      obtain ⟨w, writing⟩ := exists_stream opened
      obtain ⟨x, b, rfl⟩ := List.exists_cons_of_ne_nil solid
      have first := offerBytes_eq o s got none (x :: b) writing
      have settled := settleBytes_eq o s got (x :: b) writing
      have last := flush_eq o s got (x :: b) writing
      rw [refused] at last
      rw [send, writing]
      rcases o.early_cases .offer got (.bytes (x :: b)) with early | granted
      · rw [early, refused] at first
        exact ⟨1, _, .io e.message, none, rfl, ceases_singleton _, .request first .refl⟩
      · rw [granted] at first
        rcases o.early_cases .settle got (.bytes (x :: b)) with early | granted
        · rw [early, refused] at settled
          refine ⟨2, _, .io e.message, _, rfl, ?_, .request first (.request settled .refl)⟩
          exact Accepted.ceases_append (.cons rfl accepted_nil) (ceases_singleton _)
        · rw [granted] at settled
          refine ⟨3, _, .io e.message, _, rfl, ?_,
            .request first (.request settled (.request last .refl))⟩
          exact Accepted.ceases_append (.cons rfl (.cons rfl accepted_nil)) (ceases_singleton _)
  · next shut =>
    cases refused
    rw [send_shut shut]
    exact ⟨0, [], .closed, none, rfl, accepted_nil.ceases, .refl⟩

theorem exists_waiting (solid : item.Solid) (waits : out.answer? o got item = none) :
    ∃ n es r next begun,
      Goes (o.behind out) n (out.send item).run ⟨s, got, none⟩ es (.request r next)
        ⟨s, got, begun⟩ ∧ o.behind out ⟨s, got, begun⟩ r = none := by
  rw [answer?] at waits
  split at waits
  · next opened =>
    cases item with
    | value v =>
      obtain ⟨c, writing⟩ := exists_channel opened
      have first := offer_eq o s got none v writing
      have last := settle_eq o s got v writing
      rw [waits] at last
      rw [send, writing]
      rcases o.early_cases .offer got (.value v) with early | granted
      · rw [early, waits] at first
        exact ⟨0, [], _, _, none, .refl, first⟩
      · rw [granted] at first
        exact ⟨1, _, _, _, _, .request first .refl, last⟩
    | bytes b =>
      obtain ⟨w, writing⟩ := exists_stream opened
      obtain ⟨x, b, rfl⟩ := List.exists_cons_of_ne_nil solid
      have first := offerBytes_eq o s got none (x :: b) writing
      have settled := settleBytes_eq o s got (x :: b) writing
      have last := flush_eq o s got (x :: b) writing
      rw [waits] at last
      rw [send, writing]
      rcases o.early_cases .offer got (.bytes (x :: b)) with early | granted
      · rw [early, waits] at first
        exact ⟨0, [], _, _, none, .refl, first⟩
      · rw [granted] at first
        rcases o.early_cases .settle got (.bytes (x :: b)) with early | granted
        · rw [early, waits] at settled
          exact ⟨1, _, _, _, _, .request first .refl, settled⟩
        · rw [granted] at settled
          exact ⟨2, _, _, _, _, .request first (.request settled .refl), last⟩
  · cases waits

end Port

end Conduit
