import Conduit.Proofs.Builtin.Leaving
import Conduit.Proofs.Port.OfSystem

/-!
The builtins that write what they make of their arguments, their input or the history of visited
directories, at an output that takes so many items and no more.
-/

namespace Conduit

variable {out opened : Port} {o : Output} {view : View} {s t u : System} {p q : Proc Signal}
  {items items' : List (Item × System)} {ctx : Context} {args : List Value} {k : ℕ} {e : PortError}
  {item : Item}

namespace Outline

theorem within (outline : Outline out FailsFor p s items q t)
    (views : ∀ i ∈ items, i.1.view = view) (limited : Limited out o view k e)
    (fits : items.length ≤ k) :
    ∃ n es, Accepted es ∧
      Goes (o.behind out) n p { system := s } es q ⟨t, items.map Prod.fst, none⟩ := by
  have comes := outline.comes o []
  rw [deliver_within limited views (by simpa using fits)] at comes
  exact comes

theorem refused (outline : Outline out FailsFor p s items q t)
    (views : ∀ i ∈ items, i.1.view = view) (limited : Limited out o view k e)
    (here : items[k]? = some (item, u)) : ∃ n es begun, Ceases es ∧
      Goes (o.behind out) n p { system := s } es (.done (.failure e.message))
        ⟨u, (items.map Prod.fst).take k, begun⟩ := by
  obtain ⟨short, same⟩ := List.getElem?_eq_some_iff.1 here
  have split : items.take k ++ (item, u) :: items.drop (k + 1) = items := by
    rw [← same, ← List.drop_eq_getElem_cons short, List.take_append_drop]
  have comes := outline.comes o []
  rw [← split] at comes views
  rw [deliver_beyond limited views (by simp; omega)] at comes
  obtain ⟨n, es, r, begun, failed, ceases, goes⟩ := comes
  cases failed
  refine ⟨n, es, begun, ceases, ?_⟩
  rwa [List.map_take] at goes

theorem limited (outline : Outline out FailsFor p s items q t) (halted : Halted q t)
    (views : ∀ i ∈ items, i.1.view = view) (limited : Limited out o view k e) :
    ∃ n es q' σ, Ceases es ∧ Goes (o.behind out) n p { system := s } es q' σ ∧
      σ.got = (items.map Prod.fst).take k ∧ Rests (o.behind out) q' σ ∧
      (items.length ≤ k → q' = q) ∧ (k < items.length →
        q' = .done (.failure e.message) ∧ ∃ item, items[k]? = some (item, σ.system)) := by
  rcases Nat.lt_or_ge k items.length with beyond | fits
  · have here := List.getElem?_eq_getElem beyond
    obtain ⟨n, es, begun, ceases, goes⟩ := outline.refused views limited here
    exact ⟨n, es, _, _, ceases, goes, rfl, .done, fun fits => by omega, fun _ => ⟨rfl, _, here⟩⟩
  · obtain ⟨n, es, accepted, goes⟩ := outline.within views limited fits
    rw [List.take_of_length_le (by simpa using fits)]
    exact ⟨n, es, q, _, accepted.ceases, goes, rfl, halted.rests _, fun _ => rfl,
      fun beyond => by omega⟩

theorem moment_unique (first : Outline opened FailsFor p s items q t)
    {q' : Proc Signal} {t' : System} (second : Outline opened FailsFor p s items' q' t')
    (writable : opened.canWrite view) (views : ∀ i ∈ items, i.1.view = view)
    (same : items.map Prod.fst = items'.map Prod.fst) (here : items[k]? = some (item, u)) :
    items'[k]? = some (item, u) := by
  have limited := limited_taking writable k .closed .offer
  have there := congrArg (·[k]?) same
  simp only [List.getElem?_map, here, Option.map_some] at there
  obtain ⟨⟨_, u'⟩, here', ⟨⟩⟩ := Option.map_eq_some_iff.1 there.symm
  have views' : ∀ i ∈ items', i.1.view = view := by
    apply views_of_map same.symm
    intro w mem
    obtain ⟨i, mem', rfl⟩ := List.mem_map.1 mem
    exact views i mem'
  obtain ⟨n, es, begun, -, goes⟩ := first.refused views limited here
  obtain ⟨n', es', begun', -, goes'⟩ := second.refused views' limited here'
  obtain ⟨-, -, scene⟩ := goes.unique .done goes' .done
  have moment : u' = u := congrArg Scene.system scene
  rw [here', moment]

end Outline

theorem Unlimited.canWrite (unlimited : Unlimited opened o view) : opened.canWrite view := by
  obtain ⟨item, kind⟩ : ∃ item : Item, item.view = view := by
    cases view with
    | values => exact ⟨.value (.bool true), rfl⟩
    | bytes => exact ⟨.bytes [], rfl⟩
  have taken := unlimited [] item kind
  rw [Port.answer?, kind] at taken
  split at taken
  · assumption
  · cases taken

namespace Emitter

variable {o₀ : Output} {m : Replies Scene} {ws : List Item} {x : Option Signal}

theorem args_of_brings {b : Emitter} (fixed : b.builtin.signature.accepts args.length → args = [])
    (whole : Brings m (b.builtin.call ctx args) s ws x) (some : ws ≠ []) : args = [] := by
  apply fixed
  by_contra refused
  rw [Builtin.call, if_neg refused] at whole
  have nothing : Brings m (pure BuiltinError.arguments.signal) s [] (.some (.failure _)) :=
    ⟨0, [], _, .refl, rfl⟩
  exact some (nothing.unique whole).1

theorem leaves_onto (b : Emitter) : b.Leaves (ctx.onto out) s t k ↔ b.Leaves ctx s t k := by
  cases b <;> simp [Leaves]

theorem same_items (unlimited : Unlimited opened o₀ view)
    (whole : Brings (o₀.behind opened) p s ws x)
    (outline : Outline opened FailsFor p s items q t) (halted : Halted q t)
    (views : ∀ i ∈ items, i.1.view = view) : ws = items.map Prod.fst := by
  obtain ⟨n, es, goes⟩ := outline.goes_on unlimited views
  obtain ⟨n', es', q', σ, goes', received, rests', -⟩ := whole.goes
  obtain ⟨-, -, scene⟩ := goes.unique (halted.rests _) goes' rests'
  exact received.symm.trans (congrArg Scene.got scene)

theorem leaves_of_reads {b : Emitter} (unlimited : Unlimited opened o₀ b.writes)
    (whole : Brings (o₀.behind opened) (b.builtin.call (ctx.onto opened) args) s
      (items.map Prod.fst) x)
    (outline : Outline opened FailsFor (b.builtin.call (ctx.onto opened) args) s items q t)
    (views : ∀ i ∈ items, i.1.view = b.writes) (here : items[k]? = some (item, u))
    (reads : b = .unpack ∨ b = .intoLines ∨ b = .fromLines ∧ s.Sound ctx.input.stream) :
    b.Leaves ctx s u k := by
  have some : items.map Prod.fst ≠ [] := by
    intro none
    rw [List.map_eq_nil_iff.1 none] at here
    cases here
  have fixed (accepted : b.builtin.signature.accepts args.length) : args = [] := by
    rcases reads with rfl | rfl | ⟨rfl, -⟩ <;>
      simpa [builtin, Builtin.fixed, Signature.accepts, Signature.isVariadic] using accepted
  obtain rfl := args_of_brings fixed whole some
  have reads' : b = .unpack ∨ b = .intoLines ∨
      b = .fromLines ∧ s.Sound (ctx.onto opened).input.stream := by
    rwa [Context.input_onto]
  obtain ⟨items', q', t', outline', halted', views', left⟩ :=
    b.exists_outline (ctx.onto opened) s reads'
  rw [Context.output_onto] at outline'
  have same := same_items unlimited whole outline' halted' views'
  have there := outline.moment_unique outline' unlimited.canWrite views same here
  exact (leaves_onto b).1 (left k item u there)

theorem leaves (b : Emitter) (unlimited : Unlimited opened o₀ b.writes)
    (whole : Brings (o₀.behind opened) (b.builtin.call (ctx.onto opened) args) s
      (items.map Prod.fst) x)
    (outline : Outline opened FailsFor (b.builtin.call (ctx.onto opened) args) s items q t)
    (views : ∀ i ∈ items, i.1.view = b.writes) (here : items[k]? = some (item, u)) :
    b.Leaves ctx s u k := by
  have reading := leaves_of_reads unlimited whole outline views here
  cases b with
  | unpack => exact reading (.inl rfl)
  | intoLines => exact reading (.inr (.inl rfl))
  | fromLines => exact fun sound => reading (.inr (.inr ⟨rfl, sound⟩)) sound
  | put | putAll | typeOf | fromJson | visitedDirectories => trivial

/-- An output that takes so many items and refuses all others gets just so many of those that any
open output gets.  Once one has been refused no more is done: the system is left as it is when this
one comes to be written to the open output, and of the input there is left what comes after the
value or the line that it is made of. -/
theorem stops_at_first_refusal (b : Emitter) (ctx : Context) (args : List Value) (s : System)
    (opened out : Port) (o₀ o : Output) (k : ℕ) (e : PortError) (ws : List Item)
    (x : Option Signal) (unlimited : Unlimited opened o₀ b.writes)
    (limited : Limited out o b.writes k e)
    (whole : Brings (o₀.behind opened) (b.builtin.call (ctx.onto opened) args) s ws x) :
    Registry.standard.get? b.builtin.name = some b.builtin ∧
    (∀ ws' x', Brings (o.behind out) (b.builtin.call (ctx.onto out) args) s ws' x' ↔
      ws' = ws.take k ∧ x' = if ws.length ≤ k then x else some (.failure e.message)) ∧
    ∀ n es q σ, Goes (o.behind out) n (b.builtin.call (ctx.onto out) args) { system := s } es q σ →
      Rests (o.behind out) q σ → Ceases es ∧ (k < ws.length → b.Leaves ctx s σ.system k ∧
        ∃ item, ws[k]? = some item ∧ ComesToWrite o₀ opened
          (b.builtin.call (ctx.onto opened) args) s item ⟨σ.system, ws.take k, none⟩) := by
  obtain ⟨n₀, es₀, q₀, σ₀, goes₀, rfl, rests₀, ends₀⟩ := whole.goes
  obtain ⟨items, Q, -, received, views, outlines, done⟩ :=
    (b.feeds ctx args).outline (fun _ => ctx.not_isWrite_of_asks) unlimited goes₀ rests₀
  obtain ⟨outline, halted⟩ := outlines out
  obtain ⟨n, es, q, σ, ceases, goes, counted, rests, fits, beyond⟩ :=
    outline.limited halted views limited
  rw [List.nil_append] at received
  rw [received] at whole ⊢
  have ends (r : Signal) :
      (if (items.map Prod.fst).length ≤ k then x else some (.failure e.message)) = some r ↔
        q = .done r := by
    rw [List.length_map]
    split
    · next within => rw [fits within, ends₀, done]
    · next none =>
      rw [(beyond (Nat.lt_of_not_le none)).1]
      exact ⟨fun same => by cases same; rfl, fun same => by cases same; rfl⟩
  refine ⟨b.get?_standard, (Brings.of_rests goes counted rests ends).iff, ?_⟩
  intro n' es' q' σ' goes' rests'
  obtain ⟨rfl, -, rfl⟩ := goes.unique rests goes' rests'
  refine ⟨ceases, fun more => ?_⟩
  rw [List.length_map] at more
  obtain ⟨-, item, here⟩ := beyond more
  have outline := (outlines opened).1
  refine ⟨b.leaves unlimited whole outline views here, item, ?_, ?_⟩
  · rw [List.getElem?_map, here]
    rfl
  · exact outline.comesToWrite unlimited views here

end Emitter

namespace ListsOfWords

def unpacking (out : Port) : Proc Signal := Emitter.unpack.builtin.call (shell.onto out) []

def endless : Output := (left (lists.map .list)).output shell.output

theorem unlimited_endless : Unlimited shell.output endless .values :=
  unlimited_output rfl ⟨_, rfl, rfl, by decide, by decide⟩

theorem brings_all : Brings (endless.behind shell.output) (unpacking shell.output)
    (left (lists.map .list)) (["a", "b", "c"].map (.value ∘ .string)) (some .ok) := by
  have ended : (left (lists.map .list)).LeftToRead shell.input.channel (lists.map .list) :=
    ⟨_, rfl, rfl, rfl⟩
  obtain ⟨items, t, written, outline⟩ := Outline.unpack_of_lists lists ended
  obtain ⟨n, es, goes⟩ := outline.goes_on unlimited_endless
    (views_of_map written (List.forall_mem_map.2 fun _ _ => rfl))
  exact ⟨n, es, _, goes, written⟩

theorem stopped_in_a_list :
    ((∀ ws x, Brings ((taking 1).behind shell.output) (unpacking shell.output)
          (left (lists.map .list)) ws x ↔
        ws = [.value (.string "a")] ∧ x = some (.failure "port reader gone")) ∧
      ∀ n es q σ, Goes ((taking 1).behind shell.output) n (unpacking shell.output)
          { system := left (lists.map .list) } es q σ →
        Rests ((taking 1).behind shell.output) q σ →
          Ceases es ∧ σ.system.valuesIn shell.input.channel = [.list [], .list [.string "c"]]) ∧
    ∀ ws x, Brings (endless.behind ⟨.closed, .closed⟩) (unpacking ⟨.closed, .closed⟩)
      (left (lists.map .list)) ws x ↔ ws = [] ∧ x = some (.failure "port closed") := by
  constructor
  · obtain ⟨-, brings, stops⟩ := Emitter.stops_at_first_refusal .unpack shell [] _ shell.output
      shell.output endless (taking 1) 1 .readerGone _ _ unlimited_endless
      (limited_taking rfl 1 .readerGone .settle) brings_all
    refine ⟨brings, fun n es q σ goes rests => ?_⟩
    obtain ⟨ceases, leaves⟩ := stops n es q σ goes rests
    obtain ⟨⟨before, v, after, split, first, -, left⟩, -⟩ := leaves (by decide)
    refine ⟨ceases, ?_⟩
    cases before with
    | nil =>
      cases split
      exact left
    | cons w before =>
      obtain ⟨rfl, -⟩ := List.cons.inj split
      simp [Outline.elements] at first
  · exact (Emitter.stops_at_first_refusal .unpack shell [] _ shell.output ⟨.closed, .closed⟩
      endless endless 0 .closed _ _ unlimited_endless (limited_of_shut (by decide) endless)
      brings_all).2.1

end ListsOfWords

end Conduit
