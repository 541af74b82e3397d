import Conduit.Proofs.Builtin.Emitting

/-!
Three ways to write the elements of lists: from arguments that are lists, from the elements as
arguments, and from lists in the input.  As long as all of them are lists, no output can tell which
one it is.
-/

namespace Conduit

variable {out : Port} {o : Output} {s t : System} {ctx : Context} {items : List (Item × System)}
  {r : Signal} {ws : List Item} {x : Option Signal} {p : Proc Signal}

namespace Outline

def unpacking (ctx : Context) : Value → Effect Unit
  | .list items => Effect.emitAll ctx items
  | _ => throw .input

def elements : Value → List Item
  | .list items => items.map .value
  | _ => []

theorem unpack_eq (ctx : Context) :
    Builtin.unpack ctx = (Effect.forInput ctx (unpacking ctx)).signal := by
  refine congrArg (fun act => (Effect.forInput ctx act).signal) (funext fun v => ?_)
  cases v <;> rfl

theorem unpacking_list {v : Value} {lists : List (List Value)} (list : v ∈ lists.map .list)
    (t : System) : Outline ctx.output ErrsWith (unpacking ctx v).run t
      ((elements v).map (·, t)) (.done (.ok ())) t := by
  obtain ⟨items, -, rfl⟩ := List.mem_map.1 list
  have all : Outline ctx.output ErrsWith (Effect.emitAll ctx items).run t
      (items.map fun v => (.value v, t)) (.done (.ok ())) t := emitAll items
  simpa [unpacking, elements, Function.comp_def] using all

theorem elements_lists (lists : List (List Value)) :
    (lists.map .list).flatMap elements = lists.flatten.map .value := by
  induction lists with
  | nil => rfl
  | cons items lists ih => simp [elements, ih]

theorem exists_lists (vs : List Value) :
    ∃ (lists : List (List Value)) (back : List Value), vs = lists.map .list ++ back ∧
      (back = [] ∨ ∃ v rest, back = v :: rest ∧ ∀ items, v ≠ .list items) := by
  induction vs with
  | nil => exact ⟨[], [], rfl, .inl rfl⟩
  | cons v vs ih =>
    by_cases list : ∃ items, v = .list items
    · obtain ⟨items, rfl⟩ := list
      obtain ⟨lists, back, rfl, ends⟩ := ih
      exact ⟨items :: lists, back, rfl, ends⟩
    · exact ⟨[], v :: vs, rfl, .inr ⟨v, vs, rfl, not_exists.1 list⟩⟩

theorem unpack_stops {v : Value} (other : ∀ items, v ≠ .list items)
    (waiting : s.valuesIn ctx.input.channel = v :: vs) : ∃ t, t.valuesIn ctx.input.channel = vs ∧
      Outline ctx.output ErrsWith (Effect.forInput ctx (unpacking ctx)).run s []
        (.done (.error .input)) t := by
  obtain ⟨t, waiting', taken⟩ := takes_valuesIn s v vs waiting
  have thrown : Outline ctx.output ErrsWith (unpacking ctx v).run t []
      (.done (.error .input)) t := by
    cases v with
    | list items => exact absurd rfl (other items)
    | _ => exact .refl
  exact ⟨t, waiting', forInput_stops taken thrown⟩

theorem unpack_of_other {v : Value} (lists : List (List Value)) (rest : List Value)
    (other : ∀ items, v ≠ .list items)
    (waiting : s.valuesIn ctx.input.channel = lists.map .list ++ v :: rest) :
    ∃ items t, items.map Prod.fst = lists.flatten.map .value ∧
      t.valuesIn ctx.input.channel = rest ∧
      Outline ctx.output FailsFor (Emitter.unpack.builtin.call ctx []) s items
        (.done (.failure "input error")) t := by
  have stops (t : System) (left : t.valuesIn ctx.input.channel = v :: rest) : ∃ q u,
      Outline ctx.output ErrsWith (Effect.forInput ctx (unpacking ctx)).run t [] q u ∧
        (q = .done (.error .input) ∧ u.valuesIn ctx.input.channel = rest) := by
    obtain ⟨u, left', outline⟩ := unpack_stops other left
    exact ⟨_, u, outline, rfl, left'⟩
  obtain ⟨items, _, t, written, outline, ⟨rfl, left⟩, -⟩ :=
    forInput_outline takes_valuesIn _ _ (fun _ => unpacking_list) stops waiting
  refine ⟨items, t, written.trans (elements_lists lists), left, ?_⟩
  refine call_done rfl rfl ?_
  rw [unpack_eq]
  exact signal outline

theorem unpack_of_lists (lists : List (List Value))
    (left : s.LeftToRead ctx.input.channel (lists.map .list)) :
    ∃ items t, items.map Prod.fst = lists.flatten.map .value ∧
      Outline ctx.output FailsFor (Emitter.unpack.builtin.call ctx []) s items (.done .ok) t := by
  have stops (t : System) (left : t.LeftToRead ctx.input.channel []) : ∃ q u,
      Outline ctx.output ErrsWith (Effect.forInput ctx (unpacking ctx)).run t [] q u ∧
        q = .done (.ok ()) := by
    obtain ⟨u, outline⟩ := forInput_ends left
    exact ⟨_, u, outline, rfl⟩
  have left : s.LeftToRead ctx.input.channel (lists.map .list ++ []) := by rwa [List.append_nil]
  obtain ⟨items, _, t, written, outline, rfl, -⟩ :=
    forInput_outline takes_left _ [] (fun _ => unpacking_list) stops left
  refine ⟨items, t, written.trans (elements_lists lists), ?_⟩
  refine call_done rfl rfl ?_
  rw [unpack_eq]
  exact signal outline

end Outline

/-! ### What comes to the output -/

def unpackings (ctx : Context) (lists : List (List Value)) : List (Proc Signal) :=
  [Emitter.putAll.builtin.call ctx (lists.map .list), Emitter.put.builtin.call ctx lists.flatten,
    Emitter.unpack.builtin.call ctx []]

theorem mapM_coerce?_of_other {v : Value} (lists : List (List Value)) (rest : List Value)
    (other : ∀ items, v ≠ .list items) :
    (lists.map Value.list ++ v :: rest).mapM Builtin.ofList.coerce? = none := by
  induction lists with
  | nil =>
    have none : Builtin.ofList.coerce? v = none := by
      cases v with
      | list items => exact absurd rfl (other items)
      | _ => rfl
    simp [none]
  | cons items lists ih => simp [ih]

theorem brings_putAll_of_other {v : Value} (lists : List (List Value)) (rest : List Value)
    (other : ∀ items, v ≠ .list items) :
    Brings (o.behind out) (Emitter.putAll.builtin.call ctx (lists.map .list ++ v :: rest)) s []
      (some (.failure "arguments error")) := by
  rw [call_of_not_invoke?]
  · exact ⟨0, [], _, .refl, rfl⟩
  · rintro ⟨-, p, started⟩
    rw [Outline.invoke?_putAll, mapM_coerce?_of_other lists rest other] at started
    cases started

/-- As long as there are but lists, it is one to every output, whether their elements come from
lists among the arguments, from the arguments themselves or from lists in the input.  A value that
is no list keeps the first from writing anything, and the last from writing more than what is in
front of it. -/
theorem three_ways_to_unpack (ctx : Context) (s : System) :
    (Registry.standard.get? "put-all" = some Emitter.putAll.builtin ∧
      Registry.standard.get? "put" = some Emitter.put.builtin ∧
      Registry.standard.get? "unpack" = some Emitter.unpack.builtin) ∧
    (∀ lists : List (List Value), s.LeftToRead ctx.input.channel (lists.map .list) →
      ∀ o : Output, ∃ ws x, ∀ p ∈ unpackings ctx lists, ∀ ws' x',
        Brings (o.behind ctx.output) p s ws' x' ↔ ws' = ws ∧ x' = x) ∧
    ∀ (lists : List (List Value)) (v : Value) (rest : List Value), (∀ items, v ≠ .list items) →
      s.valuesIn ctx.input.channel = lists.map .list ++ v :: rest →
      ∀ o, Unlimited ctx.output o .values →
        (∀ ws x, Brings (o.behind ctx.output)
            (Emitter.putAll.builtin.call ctx (lists.map .list ++ v :: rest)) s ws x ↔
          ws = [] ∧ x = some (.failure "arguments error")) ∧
        (∀ ws x, Brings (o.behind ctx.output) (Emitter.unpack.builtin.call ctx []) s ws x ↔
          ws = lists.flatten.map .value ∧ x = some (.failure "input error")) ∧
        ∀ n es r σ, Goes (o.behind ctx.output) n (Emitter.unpack.builtin.call ctx [])
          { system := s } es (.done r) σ → σ.system.valuesIn ctx.input.channel = rest := by
  refine ⟨⟨Emitter.get?_standard .putAll, Emitter.get?_standard .put,
    Emitter.get?_standard .unpack⟩, ?_, ?_⟩
  · intro lists left o
    obtain ⟨items, t, written, unpacked⟩ := Outline.unpack_of_lists lists left
    let plain : List (Item × System) := lists.flatten.map fun v => (.value v, s)
    have bare : plain.map Prod.fst = lists.flatten.map .value := by
      simp [plain, Function.comp_def]
    refine ⟨(deliver ctx.output o [] items).2,
      (deliver ctx.output o [] items).1.signal? (some .ok), ?_⟩
    intro p mem
    apply Brings.iff
    simp only [unpackings, List.mem_cons, List.not_mem_nil, or_false] at mem
    rcases mem with rfl | rfl | rfl
    · exact (Outline.putAll lists).alike (.done _ _) (done_iff .ok) (bare.trans written.symm) o
    · exact (Outline.put lists.flatten).alike (.done _ _) (done_iff .ok) (bare.trans written.symm) o
    · exact unpacked.brings (.done _ _) (done_iff .ok) o
  · intro lists v rest other waiting o unlimited
    obtain ⟨items, t, written, waiting', unpacked⟩ :=
      Outline.unpack_of_other lists rest other waiting
    have views : ∀ i ∈ items, i.1.view = .values :=
      views_of_map written (List.forall_mem_map.2 fun _ _ => rfl)
    obtain ⟨n, es, goes⟩ := unpacked.goes_on unlimited views
    have brings : Brings (o.behind ctx.output) (Emitter.unpack.builtin.call ctx []) s
        (lists.flatten.map .value) (some (.failure "input error")) := ⟨n, es, _, goes, written⟩
    refine ⟨(brings_putAll_of_other lists rest other).iff, brings.iff, ?_⟩
    intro m es' r σ goes'
    obtain ⟨-, -, rfl⟩ := goes.unique .done goes' .done
    exact waiting'

namespace ListsOfWords

def lists : List (List Value) := [[.string "a", .string "b"], [], [.string "c"]]

def left (vs : List Value) : System where
  channels := #[.ofList vs, { capacity := none }]

def shell : Context := .ofPorts "lists" [⟨.reading ⟨0⟩, .closed⟩, ⟨.writing ⟨1⟩, .closed⟩] ⟨0⟩

def taking (room : ℕ) : Output := .taking room .readerGone .settle

theorem unpacked_three_ways :
    (∀ p ∈ unpackings shell lists, ∀ ws x,
      Brings ((taking 1).behind shell.output) p (left (lists.map .list)) ws x ↔
      ws = [.value (.string "a")] ∧ x = some (.failure "port reader gone")) ∧
    (∀ ws x, Brings (Output.takingAll.behind shell.output) (Emitter.unpack.builtin.call shell [])
      (left (lists.map .list ++ [.bool true, .list []])) ws x ↔
        ws = ["a", "b", "c"].map (.value ∘ .string) ∧ x = some (.failure "input error")) := by
  constructor
  · obtain ⟨ws, x, same⟩ := (three_ways_to_unpack shell (left (lists.map .list))).2.1 lists
      ⟨_, rfl, rfl, rfl⟩ (taking 1)
    have put : Brings ((taking 1).behind shell.output)
        (Emitter.put.builtin.call shell lists.flatten) (left (lists.map .list))
        [.value (.string "a")] (some (.failure "port reader gone")) :=
      (Outline.put lists.flatten).brings (.done _ _) (done_iff .ok) (taking 1)
    obtain ⟨rfl, rfl⟩ := (same _ (by simp [unpackings]) _ _).1 put
    exact same
  · have unlimited : Unlimited shell.output .takingAll .values := unlimited_takingAll rfl
    exact ((three_ways_to_unpack shell (left (lists.map .list ++ [.bool true, .list []]))).2.2 lists
      (.bool true) [.list []] nofun rfl .takingAll unlimited).2.1

end ListsOfWords

end Conduit
