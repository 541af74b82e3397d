import Conduit.Proofs.Builtin.Emitting
import Conduit.Proofs.Value.Equality

/-!
The comparison of all arguments with their neighbours says whether any two of them are equal.
-/

namespace Conduit

variable {args args' : List Value} {ctx : Context} {s : System}

namespace Builtin

theorem allEqual_iff_isChain (args : List Value) :
    allEqual args = true ↔ args.IsChain fun v w => (v == w) = true := by
  induction args with
  | nil => simp [allEqual]
  | cons v rest ih =>
    cases rest with
    | nil => simp [allEqual]
    | cons w rest => rw [allEqual, Bool.and_eq_true, ih, List.isChain_cons_cons]

theorem allEqual_iff : allEqual args = true ↔ ∀ v ∈ args, ∀ w ∈ args, (v == w) = true := by
  have trans : IsTrans Value fun v w => (v == w) = true := ⟨fun _ _ _ => BEq.trans⟩
  have symm : Std.Symm fun v w : Value => (v == w) = true := ⟨fun _ _ => BEq.symm⟩
  rw [allEqual_iff_isChain, List.isChain_iff_pairwise]
  constructor
  · intro pairs
    exact pairs.forall_of_forall fun _ _ => BEq.rfl
  · intro same
    exact List.pairwise_of_forall_mem_list fun v mem w mem' => same v mem w mem'

theorem allEqual_iff_positions :
    allEqual args = true ↔ ∀ i j : Fin args.length, (args[i] == args[j]) = true := by
  rw [allEqual_iff]
  constructor
  · intro same i j
    exact same _ (List.get_mem args i) _ (List.get_mem args j)
  · intro same v mem w mem'
    obtain ⟨i, rfl⟩ := List.mem_iff_get.1 mem
    obtain ⟨j, rfl⟩ := List.mem_iff_get.1 mem'
    exact same i j

def Covers (args args' : List Value) : Prop := ∀ v ∈ args', ∃ w ∈ args, (v == w) = true

theorem Covers.allEqual (covers : Covers args args') (equal : allEqual args = true) :
    Builtin.allEqual args' = true := by
  rw [allEqual_iff] at equal ⊢
  intro v mem w mem'
  obtain ⟨v', there, alike⟩ := covers v mem
  obtain ⟨w', there', alike'⟩ := covers w mem'
  have between : (v' == w') = true := equal v' there w' there'
  exact BEq.trans alike (BEq.trans between (BEq.symm alike'))

theorem Covers.eq_nil (covers : Covers args args') (empty : args = []) : args' = [] := by
  refine List.eq_nil_iff_forall_not_mem.2 fun v mem => ?_
  obtain ⟨w, there, -⟩ := covers v mem
  rw [empty] at there
  exact List.not_mem_nil there

theorem covers_of_subset (subset : ∀ v ∈ args', v ∈ args) : Covers args args' :=
  fun v mem => ⟨v, subset v mem, BEq.rfl⟩

theorem covers_replaced {v w : Value} (alike : (v == w) = true) (before after : List Value) :
    Covers (before ++ w :: after) (before ++ v :: after) := by
  intro u mem
  simp only [List.mem_append, List.mem_cons] at mem
  rcases mem with front | rfl | back
  · exact ⟨u, by simp [front], BEq.rfl⟩
  · exact ⟨w, by simp, alike⟩
  · exact ⟨u, by simp [back], BEq.rfl⟩

theorem allEqual_congr (covers : Covers args args') (covers' : Covers args' args) :
    allEqual args = allEqual args' :=
  Bool.eq_iff_iff.2 ⟨covers.allEqual, covers'.allEqual⟩

def equalityBuiltin : Builtin := raw "=" equality

theorem equality_standard : Registry.standard.get? "=" = some equalityBuiltin := by
  rw [Registry.standard, Registry.get?_ofList]
  rfl

theorem equality_congr (covers : Covers args args') (covers' : Covers args' args) :
    equality ctx args = equality ctx args' := by
  have empty : args.isEmpty = args'.isEmpty := by
    rw [Bool.eq_iff_iff, List.isEmpty_iff, List.isEmpty_iff]
    exact ⟨covers.eq_nil, covers'.eq_nil⟩
  rw [equality, equality, empty, allEqual_congr covers covers']

theorem call_equality_congr (covers : Covers args args') (covers' : Covers args' args) :
    equalityBuiltin.call ctx args = equalityBuiltin.call ctx args' := by
  have accepts (vs : List Value) : equalityBuiltin.signature.accepts vs.length := rfl
  rw [call, call, if_pos (accepts args), if_pos (accepts args')]
  simp only [equalityBuiltin, raw, equality_congr covers covers']

end Builtin

namespace Outline

open Builtin (equalityBuiltin)

theorem equality (given : args ≠ []) : Outline ctx.output FailsFor (equalityBuiltin.call ctx args) s
    [(.value (.bool (Builtin.allEqual args)), s)] (.done .ok) s := by
  have started : equalityBuiltin.invoke? ctx args =
      some (Effect.emit ctx (.bool (Builtin.allEqual args))).signal := by
    simp [equalityBuiltin, Builtin.raw, Builtin.equality, given]
  exact call_done rfl started (signal (emit _))

theorem equality_nil : Outline ctx.output FailsFor (equalityBuiltin.call ctx []) s []
    (.done (.failure "arguments error")) s :=
  call_done rfl rfl .refl

end Outline

open Builtin

/-- The answer of `=` to any row of arguments is one boolean: whether any two of them are equal.  It
stays the same for a row that has no other values, in whatever order and number. -/
theorem equality_of_all_arguments (ctx : Context) (s : System) :
    ∃ b, Registry.standard.get? "=" = some b ∧
      (∀ args ≠ [], ∃ answer : Bool,
        (answer = true ↔ ∀ i j : Fin args.length, (args[i] == args[j]) = true) ∧
        ∀ o : Output, (∀ ws x, Brings (o.behind ctx.output) (b.call ctx args) s ws x ↔
            Brings (o.behind ctx.output) (Emitter.put.builtin.call ctx [.bool answer]) s ws x) ∧
          (Unlimited ctx.output o .values → ∀ ws x,
            Brings (o.behind ctx.output) (b.call ctx args) s ws x ↔
              ws = [.value (.bool answer)] ∧ x = some .ok)) ∧
      (∀ args args' : List Value, args.Perm args' → b.call ctx args = b.call ctx args') ∧
      (∀ (before after : List Value), ∀ v ∈ before ++ after,
        b.call ctx (before ++ v :: after) = b.call ctx (before ++ after)) ∧
      (∀ (before after : List Value) (v w : Value), (v == w) = true →
        b.call ctx (before ++ v :: after) = b.call ctx (before ++ w :: after)) ∧
      ∀ (o : Output) ws x, Brings (o.behind ctx.output) (b.call ctx []) s ws x ↔
        ws = [] ∧ x = some (.failure "arguments error") := by
  refine ⟨equalityBuiltin, equality_standard, fun args given => ?_, fun args args' perm => ?_,
    fun before after v mem => ?_, fun before after v w alike => ?_, fun o => ?_⟩
  · have outline : Outline ctx.output FailsFor (equalityBuiltin.call ctx args) s _ _ s :=
      Outline.equality given
    have put : Outline ctx.output FailsFor (Emitter.put.builtin.call ctx [.bool (allEqual args)])
      s _ _ s := Outline.put _
    refine ⟨allEqual args, allEqual_iff_positions, fun o => ⟨fun ws x => ?_, fun unlimited => ?_⟩⟩
    · have compared := outline.brings (.done _ _) (done_iff .ok) o
      have brought := put.brings (.done _ _) (done_iff .ok) o
      exact (compared.iff ws x).trans (brought.iff ws x).symm
    · obtain ⟨n, es, goes⟩ := outline.goes_on unlimited (by simp [Item.view])
      exact Brings.iff ⟨n, es, _, goes, rfl⟩
  · exact call_equality_congr (covers_of_subset fun v => perm.mem_iff.2)
      (covers_of_subset fun v => perm.mem_iff.1)
  · have within : ∀ w ∈ before ++ v :: after, w ∈ before ++ after := by
      intro w there
      simp only [List.mem_append, List.mem_cons] at there mem ⊢
      rcases there with front | rfl | back
      · exact .inl front
      · exact mem
      · exact .inr back
    refine call_equality_congr (covers_of_subset fun w there => ?_) (covers_of_subset within)
    simp only [List.mem_append, List.mem_cons] at there ⊢
    exact there.imp_right .inr
  · exact call_equality_congr (covers_replaced (BEq.symm alike) before after)
      (covers_replaced alike before after)
  · exact (Outline.equality_nil.brings (.done _ _) (done_iff _) o).iff

namespace RowOfWords

def row : List Value := ["a", "b", "a"].map .string

def shell : Context := .ofPorts "row" [.closed, ⟨.writing ⟨0⟩, .closed⟩] ⟨0⟩

def system : System where
  channels := #[{ capacity := none }]

theorem row_compared : ∃ b, Registry.standard.get? "=" = some b ∧
    (∀ ws x, Brings (Output.takingAll.behind shell.output) (b.call shell row) system ws x ↔
      ws = [.value (.bool false)] ∧ x = some .ok) ∧
    b.call shell row = b.call shell (["a", "a", "b"].map .string) := by
  obtain ⟨b, found, compared, reordered, -⟩ := equality_of_all_arguments shell system
  obtain ⟨answer, equal, brings⟩ := compared row (by simp [row])
  have different : answer = false := by
    cases answer with
    | false => rfl
    | true => exact absurd (equal.1 rfl ⟨0, by decide⟩ ⟨1, by decide⟩) (by decide)
  subst different
  refine ⟨b, found, (brings .takingAll).2 (unlimited_takingAll rfl), reordered _ _ ?_⟩
  exact .cons _ (.swap ..)

end RowOfWords

end Conduit
