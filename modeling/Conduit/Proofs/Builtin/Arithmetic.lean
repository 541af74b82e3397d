import Conduit.Builtin.Standard
import Conduit.Proofs.Builtin.Contract
import Conduit.Proofs.Builtin.Effect
import Conduit.Proofs.Builtin.Registry
import Conduit.Proofs.Number.Arithmetic
import Conduit.Proofs.Number.Format

/-!
Arithmetic in several calls.  What an operator prints for some operands stands for them as the first
operand of a further call.
-/

namespace Conduit

open Proc (Meets)

namespace Builtin

open Effect (emitNumber meets_emit meets_signal)

inductive Operator
  | plus
  | minus
  | times
  | divide

def Emits (b : Builtin) (args : List String) (text : String) : Prop :=
  ∀ h ctx s vs count, s.ValuesWritten ctx.output.channel vs (count + 1) →
    Meets h (b.call ctx (args.map .string)) s fun r s' => r = .ok ∧
      s'.ValuesWritten ctx.output.channel (vs ++ [.string text]) count

namespace Operator

def name : Operator → String
  | plus => "+"
  | minus => "-"
  | times => "*"
  | divide => "/"

def NeedsFirst (op : Operator) : Prop := op = minus ∨ op = divide

def body : Operator → TypedBody
  | plus => .variadic [] .number sum
  | minus => .variadic [.number] .number difference
  | times => .variadic [] .number product
  | divide => .variadic [.number] .number quotient

def builtin (op : Operator) : Builtin := op.body.builtin op.name

theorem get?_name (op : Operator) : Registry.standard.get? op.name = some op.builtin := by
  rw [Registry.standard, Registry.get?_ofList]
  cases op <;> rfl

def evaluate? : Operator → List Binary64 → Option Binary64
  | plus, xs => some (xs.foldl (· + ·) (.zero false))
  | minus, x :: xs => some (xs.foldl (· - ·) x)
  | times, xs => some (xs.foldl (· * ·) (.ofNat 1))
  | divide, x :: xs => some (xs.foldl (· / ·) x)
  | _, [] => none

variable {op : Operator} {texts texts' : List String} {x : Binary64} {xs ys : List Binary64}

theorem evaluate?_cons (result : op.evaluate? xs = some x) (ys : List Binary64) :
    op.evaluate? (x :: ys) = op.evaluate? (xs ++ ys) := by
  cases op with
  | plus =>
    cases result
    have other := Binary64.foldl_add_ne_negativeZero (x := .zero false) (by decide) xs
    rw [evaluate?, evaluate?, List.foldl_cons, Binary64.positiveZero_add other, List.foldl_append]
  | times =>
    cases result
    rw [evaluate?, evaluate?, List.foldl_cons, Binary64.ofNat_one_mul, List.foldl_append]
  | minus =>
    cases xs with
    | nil => cases result
    | cons x₁ xs =>
      cases result
      rw [List.cons_append, evaluate?, evaluate?, List.foldl_append]
  | divide =>
    cases xs with
    | nil => cases result
    | cons x₁ xs =>
      cases result
      rw [List.cons_append, evaluate?, evaluate?, List.foldl_append]

theorem exists_evaluate? (first : op.NeedsFirst → xs ≠ []) : ∃ x, op.evaluate? xs = some x := by
  cases xs with
  | cons x xs => cases op <;> exact ⟨_, rfl⟩
  | nil =>
    cases op with
    | plus => exact ⟨_, rfl⟩
    | times => exact ⟨_, rfl⟩
    | minus => exact absurd rfl (first (.inl rfl))
    | divide => exact absurd rfl (first (.inr rfl))

/-! ### Calls -/

def Reads (texts : List String) (xs : List Binary64) : Prop :=
  List.Forall₂ (fun text x => Binary64.parse? text = some x) texts xs

theorem exists_reads (numbers : ∀ text ∈ texts, (Binary64.parse? text).isSome) :
    ∃ xs, Reads texts xs := by
  induction texts with
  | nil => exact ⟨[], .nil⟩
  | cons text texts ih =>
    obtain ⟨number, numbers⟩ := List.forall_mem_cons.1 numbers
    obtain ⟨x, read⟩ := Option.isSome_iff_exists.1 number
    obtain ⟨xs, reads⟩ := ih numbers
    exact ⟨x :: xs, .cons read reads⟩

theorem Reads.gives (reads : Reads texts xs) :
    List.Forall₂ ParamKind.number.Gives (texts.map .string) xs := by
  rw [List.forall₂_map_left_iff]
  exact reads.imp fun text x read => ⟨text, rfl, read⟩

theorem starts (reads : Reads texts xs) (result : op.evaluate? xs = some x) (ctx : Context) :
    op.body.Starts ctx (texts.map .string) (emitNumber ctx x).signal := by
  cases op with
  | plus =>
    cases result
    exact ⟨xs, reads.gives, rfl⟩
  | times =>
    cases result
    exact ⟨xs, reads.gives, rfl⟩
  | minus =>
    cases reads with
    | nil => cases result
    | @cons text _ _ _ read reads =>
      cases result
      exact ⟨.string text, _, _, rfl, ⟨text, rfl, read⟩, _, Reads.gives reads, rfl⟩
  | divide =>
    cases reads with
    | nil => cases result
    | @cons text _ _ _ read reads =>
      cases result
      exact ⟨.string text, _, _, rfl, ⟨text, rfl, read⟩, _, Reads.gives reads, rfl⟩

theorem emits (reads : Reads texts xs) (result : op.evaluate? xs = some x) :
    op.builtin.Emits texts x.format := by
  intro h ctx s vs count room
  obtain ⟨accepted, started⟩ :=
    (op.body.starts_iff_invoke? op.name ctx _ _).1 (starts reads result ctx)
  refine meets_call_of_invoke? accepted started (meets_signal ((meets_emit room _).mono ?_))
  rintro _ s' ⟨rfl, room', -⟩
  exact ⟨rfl, room'⟩

theorem call_eq (reads : Reads texts xs) (reads' : Reads texts' ys)
    (result : op.evaluate? xs = some x) (result' : op.evaluate? ys = some x) (ctx : Context) :
    op.builtin.call ctx (texts.map .string) = op.builtin.call ctx (texts'.map .string) := by
  obtain ⟨accepted, started⟩ :=
    (op.body.starts_iff_invoke? op.name ctx _ _).1 (starts reads result ctx)
  obtain ⟨accepted', started'⟩ :=
    (op.body.starts_iff_invoke? op.name ctx _ _).1 (starts reads' result' ctx)
  rw [builtin, call, call, if_pos accepted, if_pos accepted', started, started']

end Operator

/-- An operator that is applied to some operands and then to what it has printed and the others
prints what it prints for all of them at once. -/
theorem chained_arithmetic (op : Operator) {first rest : List String}
    (numbers : ∀ text ∈ first ++ rest, (Binary64.parse? text).isSome)
    (some : op.NeedsFirst → first ≠ []) :
    ∃ b, Registry.standard.get? op.name = .some b ∧ ∃ between last : String,
      b.Emits first between ∧ b.Emits (first ++ rest) last ∧ b.Emits (between :: rest) last ∧
      ∀ ctx, b.call ctx ((first ++ rest).map .string) =
        b.call ctx ((between :: rest).map .string) := by
  obtain ⟨numbers, numbers'⟩ := List.forall_mem_append.1 numbers
  obtain ⟨xs, reads⟩ := Operator.exists_reads numbers
  obtain ⟨ys, reads'⟩ := Operator.exists_reads numbers'
  have nonempty (needs : op.NeedsFirst) : xs ≠ [] := by
    rintro rfl
    cases reads
    exact some needs rfl
  obtain ⟨x, result⟩ := Operator.exists_evaluate? nonempty
  have resumed := Operator.evaluate?_cons result ys
  obtain ⟨z, total⟩ : ∃ z, op.evaluate? (x :: ys) = .some z :=
    Operator.exists_evaluate? fun _ => List.cons_ne_nil x ys
  have all : Operator.Reads (first ++ rest) (xs ++ ys) := List.rel_append reads reads'
  have again : Operator.Reads (x.format :: rest) (x :: ys) := .cons x.parse?_format reads'
  refine ⟨op.builtin, op.get?_name, x.format, z.format, Operator.emits reads result,
    Operator.emits all (resumed ▸ total), Operator.emits again total, fun ctx => ?_⟩
  exact Operator.call_eq all again (resumed ▸ total) total ctx

theorem sum_past_infinity : ∃ b, Registry.standard.get? "+" = some b ∧
    b.Emits ["-0", "1e308", "1e308"] "+Inf" ∧
    ∃ between last, b.Emits ["-0", "1e308", "1e308"] between ∧
      b.Emits ["-0", "1e308", "1e308", "-inf"] last ∧ b.Emits [between, "-inf"] last := by
  have numbers : ∀ text ∈ ["-0", "1e308", "1e308"] ++ ["-inf"],
      (Binary64.parse? text).isSome := by
    decide +kernel
  have reads : Operator.Reads ["-0", "1e308", "1e308"]
      [.zero true, .ofBits 0x7fe1ccf385ebc8a0, .ofBits 0x7fe1ccf385ebc8a0] :=
    .cons (by decide +kernel) (.cons (by decide +kernel) (.cons (by decide +kernel) .nil))
  have result : Operator.plus.evaluate?
      [.zero true, .ofBits 0x7fe1ccf385ebc8a0, .ofBits 0x7fe1ccf385ebc8a0] =
        some (.infinity false) := by
    decide +kernel
  obtain ⟨b, found, between, last, emits, all, again, -⟩ :=
    chained_arithmetic .plus numbers (by rintro (other | other) <;> cases other)
  obtain rfl : Operator.plus.builtin = b := Option.some.inj found
  exact ⟨_, found, Operator.emits reads result, between, last, emits, all, again⟩

end Builtin

end Conduit
