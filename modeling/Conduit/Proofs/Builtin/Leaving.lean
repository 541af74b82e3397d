import Conduit.Proofs.Builtin.Unpacking

/-!
What is left of the input whenever one of the loops over it writes an item: the values after the one
that the item is made of, or the bytes after the line that it is.
-/

namespace Conduit

open StreamEnd (lineTurn newline throughNewline? throughNewline?_append throughNewline?_of_not_mem)

variable {α : Type} {out : Port} {fails : String → α → Prop} {s t : System}
  {items : List (Item × System)} {ctx : Context} {vs : List Value}

/-! ### Lines -/

def dropLine (bytes : Bytes) : Bytes := (bytes.dropWhile (· ≠ newline)).tail

theorem dropLine_append {piece : Bytes} (whole : newline ∉ piece) (rest : Bytes) :
    dropLine (piece ++ rest) = dropLine rest := by
  have other : ∀ b ∈ piece, decide (b ≠ newline) = true :=
    fun b mem => decide_eq_true fun same => whole (same ▸ mem)
  rw [dropLine, List.dropWhile_append_of_pos other, dropLine]

theorem dropLine_line {piece : Bytes} (whole : newline ∉ piece) (rest : Bytes) :
    dropLine (piece ++ newline :: rest) = rest := by
  rw [dropLine_append whole]
  simp [dropLine]

def LineLeft (read before after : Bytes) : Bytes × Option String → Prop
  | (line, none) => line ++ after = read ++ before ∧ after = dropLine before
  | (_, some _) => True

theorem LineLeft.of_append {read chunk before after : Bytes} {x : Bytes × Option String}
    (left : LineLeft (read ++ chunk) before after x) (whole : newline ∉ chunk) :
    LineLeft read (chunk ++ before) after x := by
  obtain ⟨line, _ | message⟩ := x
  · rw [LineLeft, dropLine_append whole, ← List.append_assoc]
    exact left
  · trivial

inductive TurnLeft (read before after : Bytes) : Bytes ⊕ Bytes × Option String → Prop
  | line {x : Bytes × Option String} (left : LineLeft read before after x) :
      TurnLeft read before after (.inr x)
  | chunk {chunk : Bytes} (nonempty : chunk ≠ []) (whole : newline ∉ chunk)
      (split : before = chunk ++ after) : TurnLeft read before after (.inl (read ++ chunk))

namespace Outline

theorem lineTurn_reads {r : ReaderId} (sound : s.Sound (.reading r)) (read : Bytes) :
    Reads out (lineTurn r read) s fun y t => t.Sound (.reading r) ∧
      TurnLeft read (s.bytesIn (.reading r)) (t.bytesIn (.reading r)) y := by
  cases fill : s.fillBuffer? r with
  | none => exact .of_waiting rfl fill
  | some y =>
    obtain ⟨answer, t⟩ := y
    have sound' := System.sound_fillBuffer? sound fill
    rw [← System.bytesIn_fillBuffer? fill]
    cases answer with
    | error message => exact .of_done (.ask rfl fill .refl) ⟨sound', .line trivial⟩
    | ok chunk =>
      cases chunk with
      | nil =>
        refine .of_done (.ask rfl fill .refl) ⟨sound', .line ⟨rfl, ?_⟩⟩
        rw [System.bytesIn_of_fillBuffer?_nil sound fill]
        rfl
      | cons b chunk =>
        have front := System.buffered_fillBuffer? fill
        -- Either the whole chunk belongs to the line, or a newline in it ends the line.
        rcases Text.append_cons_cases newline (b :: chunk) with whole | ⟨piece, more, cut, whole⟩
        · have split := System.bytesIn_eq_append_consume (front.trans (List.append_nil _).symm)
          refine .of_done (.ask rfl fill ?_)
            ⟨System.sound_consume sound' _, .chunk (List.cons_ne_nil b chunk) whole split⟩
          simp only [Proc.bind, throughNewline?_of_not_mem whole]
          exact .ask rfl rfl .refl
        · have front : t.buffered r = (piece ++ [newline]) ++ more := by simp [front, cut]
          have split := System.bytesIn_eq_append_consume front
          have found : throughNewline? (b :: chunk) = some (piece ++ [newline]) := by
            rw [cut, throughNewline?_append whole]
          have left : LineLeft read (t.bytesIn (.reading r))
              ((t.consume r (piece ++ [newline]).length).bytesIn (.reading r))
              (read ++ (piece ++ [newline]), none) := by
            rw [split]
            constructor
            · rw [List.append_assoc]
            · rw [List.append_assoc, List.singleton_append, dropLine_line whole]
          refine .of_done (.ask rfl fill ?_) ⟨System.sound_consume sound' _, .line left⟩
          simp only [Proc.bind, found]
          exact .ask rfl rfl .refl

theorem readFrom_reads {r : ReaderId} (sound : s.Sound (.reading r)) (read : Bytes) :
    Reads out (Proc.iterate read (lineTurn r)) s fun x t => t.Sound (.reading r) ∧
      LineLeft read (s.bytesIn (.reading r)) (t.bytesIn (.reading r)) x := by
  induction size : (s.bytesIn (.reading r)).length using Nat.strong_induction_on
    generalizing s read with
  | _ n ih =>
    obtain ⟨p', t, first, halted, turns⟩ := lineTurn_reads sound read
    have turn : Outline out Never (Proc.iterate read (lineTurn r)) s []
        (p'.bind (afterTurn (lineTurn r))) t := loop_bind (first.bind nofun)
    cases halted with
    | waiting quiet waits => exact ⟨_, t, turn, .waiting quiet waits, nofun⟩
    | done y =>
      obtain ⟨sound', left⟩ := turns y rfl
      cases left with
      | line left => exact .of_done turn ⟨sound', left⟩
      | @chunk chunk nonempty whole split =>
        have shorter : (t.bytesIn (.reading r)).length < n := by
          have positive := List.length_pos_iff.2 nonempty
          rw [← size, split, List.length_append]
          omega
        obtain ⟨q, u, rest, halted, left⟩ := ih _ shorter sound' (read ++ chunk) rfl
        refine ⟨q, u, turn.trans rest, halted, fun x same => ?_⟩
        obtain ⟨sound'', left⟩ := left x same
        rw [split]
        exact ⟨sound'', left.of_append whole⟩

theorem readLine_reads {e : StreamEnd} (sound : s.Sound e) : Reads out e.readLine s fun x t =>
    t.Sound e ∧ LineLeft [] (s.bytesIn e) (t.bytesIn e) x := by
  cases e with
  | reading r => exact readFrom_reads sound []
  | closed => exact .of_done .refl ⟨trivial, rfl, rfl⟩
  | writing w => exact .of_done .refl ⟨trivial, rfl, rfl⟩

theorem afterLine_outline {line : Bytes} (some : line ≠ []) :
    Outline ctx.output EndsWith (Builtin.afterLine ctx (line, none)) s
      [(.value (Builtin.stringOf (Builtin.withoutNewline line)), s)] (.done (.inl ())) s := by
  obtain ⟨b, line, rfl⟩ := List.exists_cons_of_ne_nil some
  apply (emit (Builtin.stringOf (Builtin.withoutNewline (b :: line)))).bind
  rintro message _ ⟨e, rfl, text⟩
  exact ⟨_, rfl, _, rfl, e, rfl, text⟩

def overLines (ctx : Context) : Proc (Except BuiltinError Unit) :=
  Proc.iterate () fun () => ctx.input.stream.readLine.bind (Builtin.afterLine ctx)

theorem overLines_read {p' : Proc (Bytes × Option String)}
    (read : Outline ctx.output Never ctx.input.stream.readLine s [] p' t) :
    Outline ctx.output ErrsWith (overLines ctx) s [] ((p'.bind (Builtin.afterLine ctx)).bind
      (afterTurn fun () => ctx.input.stream.readLine.bind (Builtin.afterLine ctx))) t := by
  have first : Outline ctx.output EndsWith
      (ctx.input.stream.readLine.bind (Builtin.afterLine ctx)) s []
      (p'.bind (Builtin.afterLine ctx)) t := read.bind nofun
  exact turn first

theorem overLines_goes_on {line : Bytes} (some : line ≠ []) :
    Outline ctx.output ErrsWith ((Builtin.afterLine ctx (line, none)).bind
        (afterTurn fun () => ctx.input.stream.readLine.bind (Builtin.afterLine ctx))) s
      [(.value (Builtin.stringOf (Builtin.withoutNewline line)), s)] (overLines ctx) s := by
  apply (afterLine_outline some).bind
  rintro message _ ⟨x, rfl, errs⟩
  exact ⟨x, rfl, errs⟩

theorem overLines_outline (sound : s.Sound ctx.input.stream) : ∃ items p' t,
    Outline ctx.output ErrsWith (overLines ctx) s items p' t ∧ Halted p' t ∧
      (∀ i ∈ items, i.1.view = .values) ∧ ∀ k item u, items[k]? = some (item, u) →
        u.bytesIn ctx.input.stream = dropLine^[k + 1] (s.bytesIn ctx.input.stream) := by
  -- By the bytes that are left: each line that is not empty takes some of them.
  induction size : (s.bytesIn ctx.input.stream).length using Nat.strong_induction_on
    generalizing s with
  | _ n ih =>
    obtain ⟨p', t, read, halted, reads⟩ := readLine_reads sound
    have first := overLines_read read
    cases halted with
    | waiting quiet waits => exact ⟨_, _, t, first, .waiting quiet waits, nofun, nofun⟩
    | done x =>
      obtain ⟨line, _ | message⟩ := x
      · by_cases none : line = []
        · subst none
          exact ⟨_, _, t, first, .done _ t, nofun, nofun⟩
        · obtain ⟨sound', whole, same⟩ := reads _ rfl
          have shorter : (t.bytesIn ctx.input.stream).length < n := by
            have positive := List.length_pos_iff.2 none
            rw [← size, ← List.nil_append (s.bytesIn _), ← whole, List.length_append]
            omega
          obtain ⟨items, q, u, rest, halted, views, moments⟩ := ih _ shorter sound' rfl
          refine ⟨_, q, u, first.trans ((overLines_goes_on none).trans rest), halted,
            List.forall_mem_cons.2 ⟨rfl, views⟩, ?_⟩
          intro k item v here
          cases k with
          | zero =>
            cases here
            exact same
          | succ k =>
            rw [Function.iterate_succ_apply, ← same]
            exact moments k item v here
      · exact ⟨_, _, t, first, .done _ t, nofun, nofun⟩

/-! ### Values -/

theorem unpacking_outline (ctx : Context) (s : System) : ∃ items p' t,
    Outline ctx.output ErrsWith (Effect.forInput ctx (unpacking ctx)).run s items p' t ∧
      Halted p' t ∧ (∀ i ∈ items, i.1.view = .values) ∧ ∀ k item u, items[k]? = some (item, u) →
        Reading (·.valuesIn ctx.input.channel = ·) elements (s.valuesIn ctx.input.channel) k u := by
  obtain ⟨lists, back, split, other⟩ := exists_lists (s.valuesIn ctx.input.channel)
  have ends (t : System) (left : t.valuesIn ctx.input.channel = back) : ∃ q u,
      Outline ctx.output ErrsWith (Effect.forInput ctx (unpacking ctx)).run t [] q u ∧
        Halted q u := by
    rcases other with rfl | ⟨v, rest, rfl, other⟩
    · exact forInput_halts left
    · obtain ⟨u, -, stops⟩ := unpack_stops other left
      exact ⟨_, u, stops, .done _ u⟩
  obtain ⟨items, q, u, written, outline, halted, reading⟩ :=
    forInput_outline takes_valuesIn _ back (fun _ => unpacking_list) ends split
  rw [elements_lists] at written
  rw [split]
  have views : ∀ i ∈ items, i.1.view = .values :=
    views_of_map written (List.forall_mem_map.2 fun _ _ => rfl)
  exact ⟨items, q, u, outline, halted, views, reading⟩

def lineItem (v : Value) : Item := .bytes (Utf8.encode (Builtin.line v.text))

theorem reading_single {Left : System → List Value → Prop} {f : Value → Item} {k : ℕ}
    (reading : Reading Left (fun v => [f v]) vs k t) : Left t (vs.drop (k + 1)) := by
  obtain ⟨before, v, after, rfl, first, last, left⟩ := reading
  have one : (before.flatMap fun v => [f v]).length = before.length := by simp
  rw [one] at first last
  have here : k = before.length := by
    rw [List.length_singleton] at last
    omega
  rw [here]
  simpa using left

theorem intoLines_outline (ctx : Context) (s : System) : ∃ items p' t,
    Outline ctx.output ErrsWith
      (Effect.forInput ctx fun v => Effect.writeText ctx (Builtin.line v.text)).run s items p' t ∧
    Halted p' t ∧ (∀ i ∈ items, i.1.view = .bytes) ∧ ∀ k item u, items[k]? = some (item, u) →
      u.valuesIn ctx.input.channel = (s.valuesIn ctx.input.channel).drop (k + 1) := by
  have acts (v : Value) (_ : v ∈ s.valuesIn ctx.input.channel) (t : System) :
      Outline ctx.output ErrsWith (Effect.writeText ctx (Builtin.line v.text)).run t
        ([lineItem v].map (·, t)) (.done (.ok ())) t :=
    writeText (by simp [Builtin.encode_line])
  obtain ⟨items, q, u, written, outline, halted, reading⟩ :=
    forInput_outline takes_valuesIn _ [] acts (fun _ => forInput_halts) (List.append_nil _).symm
  refine ⟨items, q, u, outline, halted, ?_, fun k item t here => ?_⟩
  · apply views_of_map written
    intro w mem
    obtain ⟨v, -, here⟩ := List.mem_flatMap.1 mem
    rw [List.mem_singleton.1 here]
    rfl
  · have reading := reading k item t here
    rw [List.append_nil] at reading
    exact reading_single reading

end Outline

/-! ### Calls -/

/-- What is left of the input when the k-th item is refused, of what was there at first. -/
def Emitter.Leaves (ctx : Context) (s t : System) (k : ℕ) : Emitter → Prop
  | unpack => Outline.Reading (·.valuesIn ctx.input.channel = ·) Outline.elements
      (s.valuesIn ctx.input.channel) k t
  | intoLines => t.valuesIn ctx.input.channel = (s.valuesIn ctx.input.channel).drop (k + 1)
  | fromLines => s.Sound ctx.input.stream →
      t.bytesIn ctx.input.stream = dropLine^[k + 1] (s.bytesIn ctx.input.stream)
  | _ => True

theorem Emitter.exists_outline (b : Emitter) (ctx : Context) (s : System)
    (reads : b = .unpack ∨ b = .intoLines ∨ b = .fromLines ∧ s.Sound ctx.input.stream) :
    ∃ items q t, Outline ctx.output FailsFor (b.builtin.call ctx []) s items q t ∧ Halted q t ∧
      (∀ i ∈ items, i.1.view = b.writes) ∧
      ∀ k item u, items[k]? = some (item, u) → b.Leaves ctx s u k := by
  rcases reads with rfl | rfl | ⟨rfl, sound⟩
  · obtain ⟨items, p', t, outline, halted, views, reading⟩ := Outline.unpacking_outline ctx s
    have started : Emitter.unpack.builtin.invoke? ctx [] =
        some (Effect.forInput ctx (Outline.unpacking ctx)).signal :=
      congrArg some (Outline.unpack_eq ctx)
    obtain ⟨q, outline, halted⟩ := Outline.call_halts rfl started outline halted
    exact ⟨items, q, t, outline, halted, views, reading⟩
  · obtain ⟨items, p', t, outline, halted, views, left⟩ := Outline.intoLines_outline ctx s
    have started : Emitter.intoLines.builtin.invoke? ctx [] = some (Builtin.intoLines ctx) := rfl
    obtain ⟨q, outline, halted⟩ := Outline.call_halts rfl started outline halted
    exact ⟨items, q, t, outline, halted, views, left⟩
  · obtain ⟨items, p', t, outline, halted, views, left⟩ := Outline.overLines_outline sound
    have started : Emitter.fromLines.builtin.invoke? ctx [] =
        some (Effect.signal (ExceptT.mk (Outline.overLines ctx))) :=
      congrArg some (Builtin.fromLines_eq ctx)
    obtain ⟨q, outline, halted⟩ := Outline.call_halts rfl started outline halted
    exact ⟨items, q, t, outline, halted, views, fun k item u here _ => left k item u here⟩

end Conduit
