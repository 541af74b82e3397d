import Conduit.Proofs.Number.Literal

/-!
The characters that spell a decimal literal, and its reader, which takes what is spelled so and
nothing else.
-/

namespace Conduit

theorem span_append {p : Char → Bool} {cs rest : List Char} (inside : ∀ c ∈ cs, p c = true)
    (boundary : ∀ c ∈ rest.head?, p c = false) : (cs ++ rest).span p = (cs, rest) := by
  rw [List.span_eq_takeWhile_dropWhile, List.takeWhile_append_of_pos inside,
    List.dropWhile_append_of_pos inside]
  cases rest with
  | nil => simp
  | cons c rest =>
    have stop : p c = false := boundary c rfl
    simp [stop]

/-! ### Signs and integers -/

inductive SignText : Bool → List Char → Prop
  | none : SignText false []
  | plus : SignText false ['+']
  | minus : SignText true ['-']

section Integers

variable {cs sign ds : List Char} {negative : Bool} {n : ℤ}

theorem exists_signText (cs : List Char) :
    ∃ sign, SignText (splitSign cs).1 sign ∧ cs = sign ++ (splitSign cs).2 := by
  unfold splitSign
  split
  · exact ⟨['-'], .minus, rfl⟩
  · exact ⟨['+'], .plus, rfl⟩
  · exact ⟨[], .none, rfl⟩

theorem signText (negative : Bool) : SignText negative (if negative then ['-'] else []) := by
  cases negative with
  | false => exact .none
  | true => exact .minus

theorem splitSign_append (signed : SignText negative sign)
    (plain : ∀ c ∈ ds.head?, c ≠ '-' ∧ c ≠ '+') : splitSign (sign ++ ds) = (negative, ds) := by
  cases signed with
  | plus => rfl
  | minus => rfl
  | none =>
    rw [List.nil_append]
    unfold splitSign
    split
    · exact absurd rfl (plain '-' rfl).1
    · exact absurd rfl (plain '+' rfl).2
    · rfl

theorem not_sign_of_digit {c : Char} (digit : isDigit c = true) : c ≠ '-' ∧ c ≠ '+' := by
  constructor
  · rintro rfl
    exact absurd digit (by decide)
  · rintro rfl
    exact absurd digit (by decide)

theorem not_sign_of_digits (digits : ds.all isDigit = true) :
    ∀ c ∈ ds.head?, c ≠ '-' ∧ c ≠ '+' := by
  intro c first
  exact not_sign_of_digit (List.all_eq_true.1 digits c (List.mem_of_mem_head? first))

theorem readInteger?_eq_some_iff : readInteger? cs = some n ↔ ∃ negative sign ds,
    SignText negative sign ∧ ds.all isDigit = true ∧ ds ≠ [] ∧ cs = sign ++ ds ∧
      n = if negative then -(digitsValue ds : ℤ) else digitsValue ds := by
  constructor
  · intro read
    obtain ⟨sign, signed, split⟩ := exists_signText cs
    simp only [readInteger?] at read
    split at read
    · cases read
    · next digits =>
      simp only [Bool.or_eq_true, List.isEmpty_iff, Bool.not_eq_true', not_or,
        Bool.not_eq_false] at digits
      exact ⟨_, sign, _, signed, digits.2, digits.1, split, (Option.some.inj read).symm⟩
  · rintro ⟨negative, sign, ds, signed, digits, some, rfl, rfl⟩
    have split := splitSign_append signed (not_sign_of_digits digits)
    simp [readInteger?, split, digits, some]

end Integers

namespace Literal

/-! ### Decimal literals -/

variable {cs whole rest fraction point exponent : List Char} {e : ℤ} {l : Literal} {text : String}

inductive ExponentText : ℤ → List Char → Prop
  | none : ExponentText 0 []
  | some {letter : Char} {negative : Bool} {sign ds : List Char}
    (isLetter : letter = 'e' ∨ letter = 'E') (signed : SignText negative sign)
    (digits : ds.all isDigit = true) (nonempty : ds ≠ []) :
    ExponentText (if negative then -(digitsValue ds : ℤ) else digitsValue ds)
      (letter :: (sign ++ ds))

inductive FractionText : List Char → List Char → Prop
  | none : FractionText [] []
  | some {ds : List Char} (digits : ds.all isDigit = true) : FractionText ds ('.' :: ds)

inductive Spells : Literal → List Char → Prop
  | mk {negative : Bool} {sign whole fraction point exponent : List Char} {e : ℤ}
    (signed : SignText negative sign) (digits : whole.all isDigit = true)
    (pointed : FractionText fraction point) (some : whole ≠ [] ∨ fraction ≠ [])
    (scaled : ExponentText e exponent) :
    Spells ⟨negative, whole, fraction, e⟩ (sign ++ (whole ++ (point ++ exponent)))

/-! ### Reading literals -/

def Stops (rest : List Char) : Prop := ∀ c ∈ rest.head?, isDigit c = false

theorem stops_nil : Stops [] := nofun

theorem stops_cons {c : Char} (other : isDigit c = false) (cs : List Char) : Stops (c :: cs) := by
  intro d hd
  obtain rfl : c = d := Option.some.inj hd
  exact other

theorem span_digits (digits : whole.all isDigit = true) (stops : Stops rest) :
    (whole ++ rest).span isDigit = (whole, rest) := span_append (List.all_eq_true.1 digits) stops

theorem readExponent?_eq_some_iff : readExponent? cs = some e ↔ ExponentText e cs := by
  constructor
  · intro read
    cases cs with
    | nil =>
      cases read
      exact .none
    | cons c cs =>
      rw [readExponent?] at read
      split at read
      · next isLetter =>
        obtain ⟨negative, sign, ds, signed, digits, some, rfl, rfl⟩ :=
          readInteger?_eq_some_iff.1 read
        exact .some isLetter signed digits some
      · cases read
  · intro scaled
    cases scaled with
    | none => rfl
    | @some letter negative sign ds isLetter signed digits nonempty =>
      rw [readExponent?, if_pos isLetter]
      exact readInteger?_eq_some_iff.2 ⟨negative, sign, ds, signed, digits, nonempty, rfl, rfl⟩

theorem ExponentText.stops (scaled : ExponentText e exponent) : Stops exponent := by
  cases scaled with
  | none => exact stops_nil
  | some isLetter =>
    rcases isLetter with rfl | rfl
    · exact stops_cons (by decide) _
    · exact stops_cons (by decide) _

theorem ExponentText.head?_ne_point (scaled : ExponentText e exponent) :
    exponent.head? ≠ .some '.' := by
  cases scaled with
  | none => simp
  | some isLetter => rcases isLetter with rfl | rfl <;> simp

theorem exists_span (cs : List Char) : ∃ ds rest, cs.span isDigit = (ds, rest) ∧
    cs = ds ++ rest ∧ ds.all isDigit = true ∧ Stops rest := by
  refine ⟨_, _, List.span_eq_takeWhile_dropWhile .., List.takeWhile_append_dropWhile.symm,
    List.all_takeWhile, ?_⟩
  intro c first
  have stop := List.head?_dropWhile_not isDigit cs
  rw [Option.mem_def.1 first] at stop
  simpa using stop

def readFraction (rest : List Char) : List Char × List Char :=
  match rest with
  | '.' :: rest => rest.span isDigit
  | rest => ([], rest)

theorem read?_eq (cs : List Char) : read? cs =
    if ((splitSign cs).2.span isDigit).1.isEmpty &&
      (readFraction ((splitSign cs).2.span isDigit).2).1.isEmpty then none
    else (readExponent? (readFraction ((splitSign cs).2.span isDigit).2).2).map
      (⟨(splitSign cs).1, ((splitSign cs).2.span isDigit).1,
        (readFraction ((splitSign cs).2.span isDigit).2).1, ·⟩) := by
  rfl

theorem exists_fractionText (rest : List Char) : ∃ point,
    FractionText (readFraction rest).1 point ∧ rest = point ++ (readFraction rest).2 := by
  unfold readFraction
  split
  · next rest =>
    obtain ⟨ds, rest', span, rfl, digits, -⟩ := exists_span rest
    rw [span]
    exact ⟨'.' :: ds, .some digits, rfl⟩
  · exact ⟨[], .none, rfl⟩

theorem readFraction_append (pointed : FractionText fraction point) (stops : Stops exponent)
    (noPoint : exponent.head? ≠ some '.') :
    readFraction (point ++ exponent) = (fraction, exponent) := by
  cases pointed with
  | none =>
    rw [List.nil_append]
    unfold readFraction
    split
    · exact absurd rfl noPoint
    · rfl
  | some digits => exact span_digits digits stops

theorem Spells.of_read? (read : read? cs = some l) : l.Spells cs := by
  obtain ⟨sign, signed, body⟩ := exists_signText cs
  obtain ⟨whole, rest, span, split, digits, -⟩ := exists_span (splitSign cs).2
  obtain ⟨point, pointed, parts⟩ := exists_fractionText rest
  rw [read?_eq, span] at read
  split at read
  · cases read
  · next some =>
    obtain ⟨e, exponent, rfl⟩ := Option.map_eq_some_iff.1 read
    have some : whole ≠ [] ∨ (readFraction rest).1 ≠ [] := by
      by_contra none
      rw [not_or, not_not, not_not] at none
      exact some (by simp [none.1, none.2])
    have spells := Spells.mk signed digits pointed some (readExponent?_eq_some_iff.1 exponent)
    rwa [← parts, ← split, ← body] at spells

theorem not_sign_of_body (digits : whole.all isDigit = true)
    (pointed : FractionText fraction point) (some : whole ≠ [] ∨ fraction ≠ [])
    (exponent : List Char) : ∀ c ∈ (whole ++ (point ++ exponent)).head?,
      c ≠ '-' ∧ c ≠ '+' := by
  cases whole with
  | cons d ds =>
    intro c first
    exact not_sign_of_digits digits c first
  | nil =>
    cases pointed with
    | none => simp at some
    | some => simp

theorem Spells.read?_eq_some (spells : l.Spells cs) : read? cs = some l := by
  cases spells with
  | @mk negative sign whole fraction point exponent e signed digits pointed some scaled =>
    have plain := not_sign_of_body digits pointed some exponent
    have stops : Stops (point ++ exponent) := by
      cases pointed with
      | none => exact scaled.stops
      | some => exact stops_cons (by decide) _
    have parts := readFraction_append pointed scaled.stops scaled.head?_ne_point
    rw [read?_eq, splitSign_append signed plain, span_digits digits stops]
    dsimp only
    rw [parts, readExponent?_eq_some_iff.2 scaled]
    rw [← List.isEmpty_eq_false_iff, ← List.isEmpty_eq_false_iff, ← Bool.and_eq_false_iff] at some
    simp [some]

theorem read?_eq_some_iff : read? cs = some l ↔ l.Spells cs :=
  ⟨Spells.of_read?, Spells.read?_eq_some⟩

theorem Spells.all_isDigit (spells : l.Spells cs) : l.digits.all isDigit = true := by
  cases spells with
  | mk _ digits pointed =>
    cases pointed with
    | none => simpa [Literal.digits] using digits
    | some fraction => simp [Literal.digits, digits, fraction]

theorem Spells.negative_iff (spells : l.Spells cs) : l.negative = decide (cs.head? = some '-') := by
  cases spells with
  | @mk _ _ _ _ _ exponent _ signed digits pointed some =>
    cases signed with
    | plus => rfl
    | minus => rfl
    | none =>
      have plain := not_sign_of_body digits pointed some exponent
      rw [List.nil_append, eq_comm, decide_eq_false_iff_not]
      exact fun first => (plain '-' first).1 rfl

theorem magnitude_nonneg (l : Literal) : 0 ≤ l.magnitude := by
  rw [magnitude]
  positivity

theorem Spells.parse? (spells : l.Spells text.toList) :
    Binary64.parse? text = some (.signed l.negative (.nearest l.magnitude)) := by
  rw [Binary64.parse?, spells.read?_eq_some, ← toBinary64_eq spells.all_isDigit]

end Literal

end Conduit
