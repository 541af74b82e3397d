import Conduit.Builtin.Basic
import Conduit.Proofs.Proc.Meets
import Mathlib.Data.List.Forall2

/-!
What a builtin made from a typed body promises: which arguments it admits, what its body is given
for them, and what comes of a call that is not admitted and of a body that panics.
-/

namespace Conduit

open Proc

namespace ParamKind

def Admits : ParamKind → Value → Prop
  | text, _ => True
  | number, v => ∃ s, v = .string s ∧ (Binary64.parse? s).isSome
  | value none, _ => True
  | value (some k), v => v.kind = k

def ofKind : (k : Kind) → OfKind k → Value
  | .string, s => .string s
  | .bool, b => .bool b
  | .rat, q => .rat q
  | .list, items => .list items
  | .map, pairs => .map pairs
  | .fn, f => .closure f

def Gives : (k : ParamKind) → Value → k.Carrier → Prop
  | text, v, x => x = v.text
  | number, v, x => ∃ s, v = .string s ∧ Binary64.parse? s = some x
  | value none, v, x => x = v
  | value (some k), v, x => v = ofKind k x

theorem ofKind?_eq_some_iff {k : Kind} {v : Value} {x : OfKind k} :
    ofKind? k v = some x ↔ v = ofKind k x := by
  cases k <;> cases v <;> simp [ofKind?, ofKind]

theorem coerce?_eq_some_iff {k : ParamKind} {v : Value} {x : k.Carrier} :
    k.coerce? v = some x ↔ k.Gives v x := by
  match k with
  | text => simp [coerce?, Gives, eq_comm]
  | number => cases v <;> simp [coerce?, Gives, Value.string?]
  | value none => simp [coerce?, Gives, eq_comm]
  | value (some k) => exact ofKind?_eq_some_iff

theorem admits_iff {k : ParamKind} {v : Value} : k.Admits v ↔ ∃ x, k.Gives v x := by
  match k with
  | text => simp [Admits, Gives]
  | number =>
    simp only [Admits, Gives, Option.isSome_iff_exists]
    constructor
    · rintro ⟨s, hv, x, hx⟩
      exact ⟨x, s, hv, hx⟩
    · rintro ⟨x, s, hv, hx⟩
      exact ⟨s, hv, x, hx⟩
  | value none => simp [Admits, Gives]
  | value (some k) => cases k <;> cases v <;> simp [Admits, Gives, ofKind, Value.kind]

end ParamKind

namespace Signature

def kindAt (sig : Signature) (i : Nat) : Option ParamKind :=
  if i < sig.required.length then sig.required[i]? else sig.rest

def Admits (sig : Signature) (args : List Value) : Prop :=
  sig.accepts args.length ∧
    ∀ i v, args[i]? = some v → ∃ k, sig.kindAt i = some k ∧ k.Admits v

theorem admits_nil_iff {rest : Option ParamKind} {args : List Value} :
    (⟨[], rest⟩ : Signature).Admits args ↔
      match rest with
      | none => args = []
      | some k => ∀ v ∈ args, k.Admits v := by
  cases rest with
  | none =>
    constructor
    · rintro ⟨accepted, -⟩
      simpa [accepts, isVariadic] using accepted
    · rintro rfl
      exact ⟨rfl, nofun⟩
  | some k =>
    constructor
    · rintro ⟨-, all⟩ v hv
      obtain ⟨i, hi⟩ := List.mem_iff_getElem?.1 hv
      obtain ⟨k', hk, admitted⟩ := all i v hi
      cases hk
      exact admitted
    · intro all
      refine ⟨by simp [accepts, isVariadic], fun i v hi => ⟨k, rfl, all v ?_⟩⟩
      exact List.mem_iff_getElem?.2 ⟨i, hi⟩

section Cons

variable {k : ParamKind} {ks : List ParamKind} {rest : Option ParamKind}

theorem accepts_cons (n : Nat) :
    (⟨k :: ks, rest⟩ : Signature).accepts (n + 1) = (⟨ks, rest⟩ : Signature).accepts n := by
  cases rest <;> simp [accepts, isVariadic]

theorem kindAt_cons (i : Nat) :
    (⟨k :: ks, rest⟩ : Signature).kindAt (i + 1) = (⟨ks, rest⟩ : Signature).kindAt i := by
  simp [kindAt]

theorem admits_cons_iff {args : List Value} : (⟨k :: ks, rest⟩ : Signature).Admits args ↔
    ∃ v others, args = v :: others ∧ k.Admits v ∧ (⟨ks, rest⟩ : Signature).Admits others := by
  constructor
  · rintro ⟨accepted, all⟩
    cases args with
    | nil => cases rest <;> simp [accepts, isVariadic] at accepted
    | cons v others =>
      obtain ⟨k', hk, first⟩ := all 0 v rfl
      cases hk
      rw [List.length_cons, accepts_cons] at accepted
      refine ⟨v, others, rfl, first, accepted, fun i w hw => ?_⟩
      rw [← kindAt_cons (k := k)]
      exact all (i + 1) w hw
  · rintro ⟨v, others, rfl, first, accepted, all⟩
    rw [← accepts_cons (k := k)] at accepted
    refine ⟨accepted, fun i w hw => ?_⟩
    cases i with
    | zero =>
      cases hw
      exact ⟨k, rfl, first⟩
    | succ i =>
      rw [kindAt_cons]
      exact all i w hw

end Cons

end Signature

def Typed.Applied {R S : Type 1} (ends : R → List Value → S → Prop) :
    (ks : List ParamKind) → Typed ks R → List Value → S → Prop
  | [], f, args, y => ends f args y
  | k :: ks, f, args, y =>
    ∃ v others x, args = v :: others ∧ k.Gives v x ∧ Applied ends ks (f x) others y

theorem Typed.exists_applied_iff {R S : Type 1} {ends : R → List Value → S → Prop}
    {rest : Option ParamKind}
    (last : ∀ r args, (∃ y, ends r args y) ↔ (⟨[], rest⟩ : Signature).Admits args)
    (ks : List ParamKind) (f : Typed ks R) (args : List Value) :
    (∃ y, Applied ends ks f args y) ↔ (⟨ks, rest⟩ : Signature).Admits args := by
  induction ks generalizing args with
  | nil => exact last f args
  | cons k ks ih =>
    rw [Signature.admits_cons_iff]
    constructor
    · rintro ⟨y, v, others, x, rfl, given, applied⟩
      exact ⟨v, others, rfl, ParamKind.admits_iff.2 ⟨x, given⟩, (ih (f x) others).1 ⟨y, applied⟩⟩
    · rintro ⟨v, others, rfl, first, admitted⟩
      obtain ⟨x, given⟩ := ParamKind.admits_iff.1 first
      obtain ⟨y, applied⟩ := (ih (f x) others).2 admitted
      exact ⟨y, v, others, x, rfl, given, applied⟩

theorem Typed.applied_iff {R S : Type 1} {ends : R → List Value → S → Prop}
    {finish : R → List Value → Option S} {rest : Option ParamKind}
    (last : ∀ r args y, ends r args y ↔
      (⟨[], rest⟩ : Signature).accepts args.length ∧ finish r args = some y)
    (ks : List ParamKind) (f : Typed ks R) (args : List Value) (y : S) :
    Applied ends ks f args y ↔
      (⟨ks, rest⟩ : Signature).accepts args.length ∧ applyTo? finish ks f args = some y := by
  induction ks generalizing args with
  | nil => exact last f args y
  | cons k ks ih =>
    constructor
    · rintro ⟨v, others, x, rfl, given, applied⟩
      obtain ⟨accepted, result⟩ := (ih (f x) others).1 applied
      rw [List.length_cons, Signature.accepts_cons, applyTo?, ParamKind.coerce?_eq_some_iff.2 given]
      exact ⟨accepted, result⟩
    · rintro ⟨accepted, result⟩
      cases args with
      | nil => cases result
      | cons v others =>
        rw [List.length_cons, Signature.accepts_cons] at accepted
        rw [applyTo?] at result
        split at result
        · next x coerced =>
          exact ⟨v, others, x, rfl, ParamKind.coerce?_eq_some_iff.1 coerced,
            (ih (f x) others).2 ⟨accepted, result⟩⟩
        · cases result

theorem mapM_coerce?_eq_some_iff {k : ParamKind} {args : List Value} {xs : List k.Carrier} :
    args.mapM k.coerce? = some xs ↔ List.Forall₂ k.Gives args xs := by
  induction args generalizing xs with
  | nil => cases xs <;> simp
  | cons v args ih =>
    rw [List.mapM_cons, List.forall₂_cons_left_iff]
    simp only [Option.bind_eq_bind, Option.bind_eq_some_iff, Option.pure_def, Option.some.injEq]
    constructor
    · rintro ⟨x, given, ys, rest, rfl⟩
      exact ⟨x, ys, ParamKind.coerce?_eq_some_iff.1 given, ih.1 rest, rfl⟩
    · rintro ⟨x, ys, given, rest, rfl⟩
      exact ⟨x, ParamKind.coerce?_eq_some_iff.2 given, ys, ih.2 rest, rfl⟩

theorem exists_forall₂_gives_iff {k : ParamKind} {args : List Value} :
    (∃ xs, List.Forall₂ k.Gives args xs) ↔ ∀ v ∈ args, k.Admits v := by
  induction args with
  | nil => simp
  | cons v args ih =>
    rw [List.forall_mem_cons, ← ih, ParamKind.admits_iff]
    constructor
    · rintro ⟨xs, given⟩
      obtain ⟨x, ys, first, rest, rfl⟩ := List.forall₂_cons_left_iff.1 given
      exact ⟨⟨x, first⟩, ys, rest⟩
    · rintro ⟨⟨x, first⟩, ys, rest⟩
      exact ⟨x :: ys, .cons first rest⟩

inductive TypedBody
  | fixed (kinds : List ParamKind) (body : Context → Typed kinds (Proc Signal))
  | variadic (kinds : List ParamKind) (rest : ParamKind)
      (body : Context → Typed kinds (List rest.Carrier → Proc Signal))

namespace TypedBody

def builtin (name : String) : TypedBody → Builtin
  | fixed kinds body => .fixed name kinds body
  | variadic kinds rest body => .variadic name kinds rest body

def Starts : TypedBody → Context → List Value → Proc Signal → Prop
  | fixed kinds body, ctx, args, p =>
    Typed.Applied (fun q others p => others = [] ∧ p = q) kinds (body ctx) args p
  | variadic kinds rest body, ctx, args, p =>
    Typed.Applied (fun g others p => ∃ xs, List.Forall₂ rest.Gives others xs ∧ p = g xs)
      kinds (body ctx) args p

theorem exists_starts_iff (b : TypedBody) (name : String) (ctx : Context) (args : List Value) :
    (∃ p, b.Starts ctx args p) ↔ (b.builtin name).signature.Admits args := by
  cases b with
  | fixed kinds body =>
    refine Typed.exists_applied_iff (fun p args => ?_) kinds (body ctx) args
    rw [Signature.admits_nil_iff]
    simp
  | variadic kinds rest body =>
    refine Typed.exists_applied_iff (fun g args => ?_) kinds (body ctx) args
    rw [Signature.admits_nil_iff]
    simp only
    rw [← exists_forall₂_gives_iff]
    constructor
    · rintro ⟨p, xs, given, -⟩
      exact ⟨xs, given⟩
    · rintro ⟨xs, given⟩
      exact ⟨g xs, xs, given, rfl⟩

theorem starts_iff_invoke? (b : TypedBody) (name : String) (ctx : Context) (args : List Value)
    (p : Proc Signal) : b.Starts ctx args p ↔
      (b.builtin name).signature.accepts args.length ∧
        (b.builtin name).invoke? ctx args = some p := by
  cases b with
  | fixed kinds body =>
    refine Typed.applied_iff (fun q args p => ?_) kinds (body ctx) args p
    simp [Signature.accepts, Signature.isVariadic, eq_comm]
  | variadic kinds rest body =>
    refine Typed.applied_iff (fun g args p => ?_) kinds (body ctx) args p
    simp only [Signature.accepts, Signature.isVariadic, Option.isSome_some, ↓reduceIte,
      List.length_nil, Nat.zero_le, decide_true, true_and, Option.map_eq_some_iff,
      mapM_coerce?_eq_some_iff]
    constructor
    · rintro ⟨xs, given, rfl⟩
      exact ⟨xs, given, rfl⟩
    · rintro ⟨xs, given, rfl⟩
      exact ⟨xs, given, rfl⟩

end TypedBody

def reported (name : String) : Outcome Signal → Signal
  | .returned r => r
  | .panicked (some message) => .failure (name ++ " panicked: " ++ message)
  | .panicked none => .failure (name ++ " panicked: " ++ "unknown panic")

section Call

variable {h : Host} {s s' : System} {es : List Event} {b : Builtin} {ctx : Context}
  {args : List Value} {p : Proc Signal}

theorem settle_eq_reported (b : Builtin) (o : Outcome Signal) : b.settle o = reported b.name o := by
  rcases o with r | (_ | message) <;> rfl

theorem runs_call_of_invoke? {o : Outcome Signal} (accepted : b.signature.accepts args.length)
    (started : b.invoke? ctx args = some p) :
    Runs h (b.call ctx args) s es o s' ↔
      ∃ o', Runs h p s es o' s' ∧ o = .returned (reported b.name o') := by
  rw [Builtin.call, if_pos accepted, started]
  refine runs_map.trans ?_
  constructor
  · rintro ⟨_, rfl, attempted⟩
    obtain ⟨o', rfl, run⟩ := runs_attempt.1 attempted
    exact ⟨o', run, congrArg _ (settle_eq_reported b o')⟩
  · rintro ⟨o', run, rfl⟩
    exact ⟨.returned o', congrArg _ (settle_eq_reported b o').symm, runs_attempt.2 ⟨o', rfl, run⟩⟩

theorem terminates_call_of_invoke? (accepted : b.signature.accepts args.length)
    (started : b.invoke? ctx args = some p) (ends : Terminates h p s) :
    Terminates h (b.call ctx args) s := by
  rw [Builtin.call, if_pos accepted, started]
  exact terminates_bind (terminates_attempt ends) fun _ _ _ _ => terminates_done _

theorem meets_call_of_invoke? {post : Signal → System → Prop}
    (accepted : b.signature.accepts args.length) (started : b.invoke? ctx args = some p)
    (body : Meets h p s post) : Meets h (b.call ctx args) s post := by
  refine ⟨terminates_call_of_invoke? accepted started body.1, fun es o s' run => ?_⟩
  obtain ⟨o', run', rfl⟩ := (runs_call_of_invoke? accepted started).1 run
  obtain ⟨r, rfl, holds⟩ := body.2 es o' s' run'
  exact ⟨r, rfl, holds⟩

theorem call_of_not_invoke?
    (refused : ¬ (b.signature.accepts args.length ∧ ∃ p, b.invoke? ctx args = some p)) :
    b.call ctx args = pure (.failure "arguments error") := by
  rw [Builtin.call]
  split
  · next accepted =>
    cases started : b.invoke? ctx args with
    | none => rfl
    | some p => exact absurd ⟨accepted, p, started⟩ refused
  · rfl

end Call

theorem typed_call_contract (b : TypedBody) (name : String) (ctx : Context) (args : List Value) :
    ((∃ p, b.Starts ctx args p) ↔ (b.builtin name).signature.Admits args) ∧
      (∀ p, b.Starts ctx args p →
        (∀ q, b.Starts ctx args q → q = p) ∧
        (∀ h s es o s', Runs h ((b.builtin name).call ctx args) s es o s' ↔
          ∃ o', Runs h p s es o' s' ∧ o = .returned (reported name o')) ∧
        ∀ h s, Terminates h p s → Terminates h ((b.builtin name).call ctx args) s) ∧
      (¬ (b.builtin name).signature.Admits args →
        ∀ h s es o s', Runs h ((b.builtin name).call ctx args) s es o s' ↔
          es = [] ∧ o = .returned (.failure "arguments error") ∧ s' = s) := by
  have named : (b.builtin name).name = name := by cases b <;> rfl
  refine ⟨b.exists_starts_iff name ctx args, fun p starts => ?_, fun refused h s es o s' => ?_⟩
  · obtain ⟨accepted, started⟩ := (b.starts_iff_invoke? name ctx args p).1 starts
    refine ⟨fun q other => ?_, fun h s es o s' => ?_, fun h s ends => ?_⟩
    · obtain ⟨-, same⟩ := (b.starts_iff_invoke? name ctx args q).1 other
      exact Option.some.inj (same.symm.trans started)
    · rw [runs_call_of_invoke? accepted started, named]
    · exact terminates_call_of_invoke? accepted started ends
  · rw [call_of_not_invoke?]
    · exact runs_done
    · rintro ⟨accepted, p, started⟩
      refine refused ((b.exists_starts_iff name ctx args).1 ⟨p, ?_⟩)
      exact (b.starts_iff_invoke? name ctx args p).2 ⟨accepted, started⟩

end Conduit
