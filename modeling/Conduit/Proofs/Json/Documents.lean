import Conduit.Proofs.Json.Numbers

/-!
The decoder of documents follows the grammar: it reads every spelling of a tree, and what it reads
was one.
-/

namespace Conduit.Json.Decoder

variable {α : Type} {c c' : Cursor} {j : Json} {text rest : Bytes}

/-! ### What follows a document -/

def Apart (text rest : Bytes) : Prop :=
  (∃ b ∈ text.head?, delimitsItself b = true) ∨ Ends rest

def Starts (text : Bytes) : Prop := ∃ b more, text = b :: more ∧ isBlank b = false ∧ b ≠ byte ']'

structure Follows (value : Decoder Json) (spells : Json → Bytes → Prop) : Prop where
  starts : ∀ {j text}, spells j text → Starts text
  reads : ∀ {c j blanks text rest}, Blanks blanks → spells j text → Apart text rest →
    c.Holds (blanks ++ (text ++ rest)) → ∃ c', value c = .ok j c' ∧ c'.Holds rest
  found : ∀ {c j c'}, value c = .ok j c' → ∃ blanks text, c.ahead = blanks ++ text ++ c'.ahead ∧
    Blanks blanks ∧ spells j text

theorem ends_of_blanks {blanks : Bytes} (all : Blanks blanks) (ends : Ends rest) :
    Ends (blanks ++ rest) := by
  cases blanks with
  | nil => exact ends
  | cons b blanks =>
    refine ends_cons ?_ _
    rw [mayFollow, all b List.mem_cons_self]
    rfl

theorem ends_more {spells : α → Bytes → Prop} {xs : List α} (more : More spells xs text)
    (ends : Ends rest) : Ends (text ++ rest) := by
  cases more with
  | nil all => exact ends_of_blanks all ends
  | cons allBefore allAfter first others =>
    simp only [List.append_assoc, List.cons_append]
    exact ends_of_blanks allBefore (ends_cons (by decide) _)

theorem exists_skipBlank_cons {blanks : Bytes} {b : UInt8} (all : Blanks blanks)
    (other : isBlank b = false) (holds : c.Holds (blanks ++ b :: rest)) :
    ∃ c', skipBlank c = .ok (some b) c' ∧ c'.Sees (b :: rest) := by
  refine exists_skipBlank holds all ?_
  rintro _ ⟨⟩
  exact other

/-! ### Rows of elements -/

inductive Turn (spells : α → Bytes → Prop) (close : UInt8) (next : List α → Decoder (List α))
    (read : List α) (c : Cursor) (xs : List α) (c' : Cursor) : Prop
  | closes {before : Bytes} (allBefore : Blanks before) (all : xs = read.reverse)
      (ahead : c.ahead = before ++ c'.ahead) (head : c'.ahead.head? = some close)
  | first {x : α} {c₁ : Cursor} {before text : Bytes} (none : read = []) (allBefore : Blanks before)
      (spelled : spells x text) (ahead : c.ahead = before ++ text ++ c₁.ahead)
      (others : next [x] c₁ = .ok xs c')
  | later {x : α} {c₁ : Cursor} {before after text : Bytes} (some : read ≠ [])
      (allBefore : Blanks before) (allAfter : Blanks after) (spelled : spells x text)
      (ahead : c.ahead = before ++ byte ',' :: after ++ text ++ c₁.ahead)
      (others : next (x :: read) c₁ = .ok xs c')

structure Rows (loop : Nat → List α → Decoder (List α)) (spells : α → Bytes → Prop)
    (close : UInt8) : Prop where
  closing : mayFollow close = true
  closes : ∀ {c n read before rest}, Blanks before → c.Holds (before ++ close :: rest) →
    ∃ c', loop (n + 1) read c = .ok read.reverse c' ∧ c'.Sees (close :: rest)
  first : ∀ {c n x before text rest}, Blanks before → spells x text → Ends rest →
    c.Holds (before ++ (text ++ rest)) →
      ∃ c', loop (n + 1) [] c = loop n [x] c' ∧ c'.Holds rest
  later : ∀ {c n read x before after text rest}, read ≠ [] → Blanks before → Blanks after →
    spells x text → Ends rest → c.Holds (before ++ byte ',' :: (after ++ (text ++ rest))) →
      ∃ c', loop (n + 1) read c = loop n (x :: read) c' ∧ c'.Holds rest
  never : ∀ {c c' read xs}, loop 0 read c ≠ .ok xs c'
  turn : ∀ {c c' n read xs}, loop (n + 1) read c = .ok xs c' →
    Turn spells close (loop n) read c xs c'

namespace Rows

variable {loop : Nat → List α → Decoder (List α)} {spells : α → Bytes → Prop} {close : UInt8}
  {xs : List α}

theorem exists_more (rows : Rows loop spells close) (more : More spells xs text) {n : Nat}
    {read : List α} (some : read ≠ []) (turns : xs.length < n)
    (holds : c.Holds (text ++ close :: rest)) :
    ∃ c', loop n read c = .ok (read.reverse ++ xs) c' ∧ c'.Sees (close :: rest) := by
  induction more generalizing n c read with
  | nil all =>
    obtain ⟨n, rfl⟩ := Nat.exists_eq_succ_of_ne_zero (Nat.ne_zero_of_lt turns)
    rw [List.append_nil]
    exact rows.closes all holds
  | @cons x xs before after text more allBefore allAfter first others ih =>
    obtain ⟨n, rfl⟩ := Nat.exists_eq_succ_of_ne_zero (Nat.ne_zero_of_lt turns)
    simp only [List.append_assoc, List.cons_append] at holds
    have ends : Ends (more ++ close :: rest) := ends_more others (ends_cons rows.closing _)
    obtain ⟨c₁, one, left⟩ := rows.later some allBefore allAfter first ends holds
    rw [List.length_cons] at turns
    have loop := @ih c₁ n (x :: read) nofun (by omega) left
    rw [List.reverse_cons, List.append_assoc] at loop
    rw [one]
    exact loop

theorem exists_elements (rows : Rows loop spells close) (elements : Elements spells xs text)
    {n : Nat} (turns : xs.length < n) (holds : c.Holds (text ++ close :: rest)) :
    ∃ c', loop n [] c = .ok xs c' ∧ c'.Sees (close :: rest) := by
  obtain ⟨n, rfl⟩ := Nat.exists_eq_succ_of_ne_zero (Nat.ne_zero_of_lt turns)
  cases elements with
  | nil all => exact rows.closes all holds
  | @cons x xs before text more allBefore first others =>
    simp only [List.append_assoc] at holds
    have ends : Ends (more ++ close :: rest) := ends_more others (ends_cons rows.closing _)
    obtain ⟨c₁, one, left⟩ := rows.first allBefore first ends holds
    rw [one]
    exact rows.exists_more others (List.cons_ne_nil x []) (Nat.lt_of_succ_lt_succ turns) left

-- Only where nothing has been read yet does an element come without a comma.
theorem of_elements (rows : Rows loop spells close) {n : Nat} {read : List α}
    (found : loop n read c = .ok xs c') : ∃ text ys, xs = read.reverse ++ ys ∧
      c.ahead = text ++ c'.ahead ∧ c'.ahead.head? = some close ∧
      if read = [] then Elements spells ys text else More spells ys text := by
  induction n generalizing c read with
  | zero => exact absurd found rows.never
  | succ n ih =>
    cases rows.turn found with
    | @closes before allBefore all ahead head =>
      refine ⟨before, [], by rw [all, List.append_nil], ahead, head, ?_⟩
      split
      · exact .nil allBefore
      · exact .nil allBefore
    | @first x c₁ before text none allBefore spelled ahead others =>
      obtain ⟨more, ys, rfl, ahead', head, others⟩ := ih others
      rw [if_neg (List.cons_ne_nil x [])] at others
      subst none
      refine ⟨before ++ text ++ more, x :: ys, rfl, ?_, head, .cons allBefore spelled others⟩
      rw [ahead, ahead']
      simp only [List.append_assoc]
    | @later x c₁ before after text some allBefore allAfter spelled ahead others =>
      obtain ⟨more, ys, rfl, ahead', head, others⟩ := ih others
      rw [if_neg (List.cons_ne_nil x read)] at others
      refine ⟨before ++ byte ',' :: after ++ text ++ more, x :: ys, ?_, ?_, head, ?_⟩
      · rw [List.reverse_cons, List.append_assoc]
        rfl
      · rw [ahead, ahead']
        simp only [List.append_assoc]
      · rw [if_neg some]
        exact .cons allBefore allAfter spelled others

end Rows

/-! ### Arrays -/

section Items

variable {value : Decoder Json} {spells : Json → Bytes → Prop} {js : List Json} {n : Nat}
  {read : List Json} {before after : Bytes}

theorem items_closes (all : Blanks before) (holds : c.Holds (before ++ byte ']' :: rest)) :
    ∃ c', items value (n + 1) read c = .ok read.reverse c' ∧ c'.Sees (byte ']' :: rest) := by
  obtain ⟨c₁, skip, sees⟩ := exists_skipBlank_cons all (by decide) holds
  exact exists_bind_ok skip (exists_pure_ok sees)

theorem items_first (follows : Follows value spells) (allBefore : Blanks before)
    (spelled : spells j text) (ends : Ends rest) (holds : c.Holds (before ++ (text ++ rest))) :
    ∃ c', items value (n + 1) [] c = items value n [j] c' ∧ c'.Holds rest := by
  obtain ⟨b, ahead, rfl, blank, other⟩ := follows.starts spelled
  obtain ⟨c₁, skip, sees⟩ := exists_skipBlank_cons allBefore blank holds
  obtain ⟨c₂, found, left⟩ := follows.reads blanks_nil spelled (.inr ends) sees.holds
  refine ⟨c₂, ?_, left⟩
  rw [items, bind_of_ok skip]
  dsimp only
  rw [if_neg other, if_pos List.isEmpty_nil]
  exact bind_of_ok found

theorem items_later (follows : Follows value spells) (some : read ≠ []) (allBefore : Blanks before)
    (allAfter : Blanks after) (spelled : spells j text) (ends : Ends rest)
    (holds : c.Holds (before ++ byte ',' :: (after ++ (text ++ rest)))) :
    ∃ c', items value (n + 1) read c = items value n (j :: read) c' ∧ c'.Holds rest := by
  obtain ⟨b, ahead, rfl, blank, other⟩ := follows.starts spelled
  obtain ⟨c₁, skip, sees⟩ := exists_skipBlank_cons allBefore (by decide) holds
  obtain ⟨c₂, past, left⟩ := exists_discard sees
  obtain ⟨c₃, skip', sees⟩ := exists_skipBlank_cons allAfter blank left
  obtain ⟨c₄, found, left⟩ := follows.reads blanks_nil spelled (.inr ends) sees.holds
  refine ⟨c₄, ?_, left⟩
  rw [items, bind_of_ok skip]
  dsimp only
  rw [if_neg (by decide), if_neg (by simpa using some), if_pos rfl, bind_of_ok past,
    bind_of_ok skip']
  dsimp only
  rw [if_neg other]
  exact bind_of_ok found

theorem items_turn (follows : Follows value spells)
    (found : items value (n + 1) read c = .ok js c') :
    Turn spells (byte ']') (items value n) read c js c' := by
  obtain ⟨x, c₁, skip, found⟩ := exists_of_bind_ok found
  obtain ⟨before, ahead, allBefore, head, peeked⟩ := of_skipBlank skip
  cases x with
  | none => cases found
  | some b =>
    dsimp only at found
    split at found
    · next bracket =>
      obtain ⟨rfl, rfl⟩ := of_pure found
      exact .closes allBefore rfl ahead (by rw [head, bracket])
    · split at found
      · next first =>
        obtain rfl := List.isEmpty_iff.1 first
        obtain ⟨j, c₂, one, found⟩ := exists_of_bind_ok found
        obtain ⟨blanks, text, ahead₂, allBlanks, spelled⟩ := follows.found one
        refine .first rfl (allBefore.append allBlanks) spelled ?_ found
        rw [ahead, ahead₂]
        simp only [List.append_assoc]
      · next later =>
        -- A bracket that comes after a comma is refused.
        split at found
        · next comma =>
          obtain ⟨_, c₂, past, found⟩ := exists_of_bind_ok found
          obtain ⟨y, c₃, skip, found⟩ := exists_of_bind_ok found
          obtain ⟨after, ahead₂, allAfter, -, -⟩ := of_skipBlank skip
          cases y with
          | none => cases found
          | some b' =>
            dsimp only at found
            split at found
            · cases found
            · obtain ⟨j, c₄, one, found⟩ := exists_of_bind_ok found
              obtain ⟨blanks, text, ahead₃, allBlanks, spelled⟩ := follows.found one
              refine .later (fun none => later (List.isEmpty_iff.2 none)) allBefore
                (allAfter.append allBlanks) spelled ?_ found
              rw [ahead, of_discard past peeked, ahead₂, ahead₃, comma]
              simp only [List.append_assoc, List.cons_append]
        · cases found

theorem rows_items (follows : Follows value spells) : Rows (items value) spells (byte ']') where
  closing := by decide
  closes := items_closes
  first := items_first follows
  later := items_later follows
  never := nofun
  turn := items_turn follows

end Items

/-! ### Objects -/

section Fields

variable {value : Decoder Json} {spells : Json → Bytes → Prop} {fs : List (String × Json)}

theorem starts_field {f : String × Json} (spelled : Field spells f text) :
    ∃ more, text = byte '"' :: more := by
  obtain ⟨⟨body, -, rfl⟩, -, -, -⟩ := spelled
  exact ⟨_, rfl⟩

theorem exists_field (follows : Follows value spells) {f : String × Json}
    (spelled : Field spells f text) (ends : Ends rest) (sees : c.Sees (text ++ rest)) :
    ∃ c', field value c = .ok f c' ∧ c'.Holds rest := by
  obtain ⟨⟨body, quoted, rfl⟩, allBefore, allAfter, here⟩ := spelled
  simp only [List.append_assoc, List.cons_append, List.nil_append] at sees
  obtain ⟨c₁, past, left⟩ := exists_discard sees
  obtain ⟨c₂, name, left⟩ := exists_stringText quoted left
  obtain ⟨c₃, skip, sees⟩ := exists_skipBlank_cons allBefore (by decide) left
  obtain ⟨c₄, past', left⟩ := exists_discard sees
  obtain ⟨c₅, found, left⟩ := follows.reads allAfter here (.inr ends) left
  refine exists_bind_ok past (exists_bind_ok name (exists_bind_ok skip ?_))
  exact exists_bind_ok past' (exists_bind_ok found (exists_pure_ok left))

theorem of_field (follows : Follows value spells) {f : String × Json}
    (peeked : c.peeked = some (byte '"')) (found : field value c = .ok f c') :
    ∃ text, c.ahead = text ++ c'.ahead ∧ Field spells f text := by
  obtain ⟨_, c₁, past, found⟩ := exists_of_bind_ok found
  obtain ⟨key, c₂, name, found⟩ := exists_of_bind_ok found
  obtain ⟨x, c₃, skip, found⟩ := exists_of_bind_ok found
  obtain ⟨body, ahead, quoted⟩ := of_stringText name
  obtain ⟨before, ahead₂, allBefore, -, peeked₂⟩ := of_skipBlank skip
  cases x with
  | none => cases found
  | some b =>
    dsimp only at found
    split at found
    · next colon =>
      obtain ⟨_, c₄, past₂, found⟩ := exists_of_bind_ok found
      obtain ⟨j, c₅, one, found⟩ := exists_of_bind_ok found
      obtain ⟨rfl, rfl⟩ := of_pure found
      obtain ⟨after, text, ahead₃, allAfter, spelled⟩ := follows.found one
      refine ⟨_, ?_, .mk ⟨body, quoted, rfl⟩ allBefore allAfter spelled⟩
      rw [of_discard past peeked, ahead, ahead₂, of_discard past₂ peeked₂, ahead₃, colon]
      simp only [List.append_assoc, List.cons_append, List.nil_append]
    · cases found

section Loop

variable {n : Nat} {read : List (String × Json)} {before after : Bytes} {f : String × Json}

theorem fields_closes (all : Blanks before) (holds : c.Holds (before ++ byte '\x7d' :: rest)) :
    ∃ c', fields value (n + 1) read c = .ok read.reverse c' ∧ c'.Sees (byte '\x7d' :: rest) := by
  obtain ⟨c₁, skip, sees⟩ := exists_skipBlank_cons all (by decide) holds
  exact exists_bind_ok skip (exists_pure_ok sees)

theorem fields_first (follows : Follows value spells) (allBefore : Blanks before)
    (spelled : Field spells f text) (ends : Ends rest) (holds : c.Holds (before ++ (text ++ rest))) :
    ∃ c', fields value (n + 1) [] c = fields value n [f] c' ∧ c'.Holds rest := by
  obtain ⟨ahead, rfl⟩ := starts_field spelled
  obtain ⟨c₁, skip, sees⟩ := exists_skipBlank_cons allBefore (by decide) holds
  obtain ⟨c₂, found, left⟩ := exists_field follows spelled ends sees
  refine ⟨c₂, ?_, left⟩
  rw [fields, bind_of_ok skip]
  dsimp only
  rw [if_neg (by decide), if_pos List.isEmpty_nil, if_pos rfl]
  exact bind_of_ok found

theorem fields_later (follows : Follows value spells) (some : read ≠ []) (allBefore : Blanks before)
    (allAfter : Blanks after) (spelled : Field spells f text) (ends : Ends rest)
    (holds : c.Holds (before ++ byte ',' :: (after ++ (text ++ rest)))) :
    ∃ c', fields value (n + 1) read c = fields value n (f :: read) c' ∧ c'.Holds rest := by
  obtain ⟨ahead, rfl⟩ := starts_field spelled
  obtain ⟨c₁, skip, sees⟩ := exists_skipBlank_cons allBefore (by decide) holds
  obtain ⟨c₂, past, left⟩ := exists_discard sees
  obtain ⟨c₃, skip', sees⟩ := exists_skipBlank_cons allAfter (by decide) left
  obtain ⟨c₄, found, left⟩ := exists_field follows spelled ends sees
  refine ⟨c₄, ?_, left⟩
  rw [fields, bind_of_ok skip]
  dsimp only
  rw [if_neg (by decide), if_neg (by simpa using some), if_pos rfl, bind_of_ok past,
    bind_of_ok skip']
  dsimp only
  rw [if_pos rfl]
  exact bind_of_ok found

theorem fields_turn (follows : Follows value spells)
    (found : fields value (n + 1) read c = .ok fs c') :
    Turn (Field spells) (byte '\x7d') (fields value n) read c fs c' := by
  obtain ⟨x, c₁, skip, found⟩ := exists_of_bind_ok found
  obtain ⟨before, ahead, allBefore, head, peeked⟩ := of_skipBlank skip
  cases x with
  | none => cases found
  | some b =>
    dsimp only at found
    split at found
    · next brace =>
      obtain ⟨rfl, rfl⟩ := of_pure found
      exact .closes allBefore rfl ahead (by rw [head, brace])
    · split at found
      · next first =>
        obtain rfl := List.isEmpty_iff.1 first
        split at found
        · next quote =>
          obtain ⟨f, c₂, one, found⟩ := exists_of_bind_ok found
          obtain ⟨text, ahead₂, spelled⟩ := of_field follows (quote ▸ peeked) one
          exact .first rfl allBefore spelled (by rw [ahead, ahead₂, List.append_assoc]) found
        · cases found
      · next later =>
        -- After a comma only a key may come, not the brace that closes the object.
        split at found
        · next comma =>
          obtain ⟨_, c₂, past, found⟩ := exists_of_bind_ok found
          obtain ⟨y, c₃, skip, found⟩ := exists_of_bind_ok found
          obtain ⟨after, ahead₂, allAfter, -, peeked₂⟩ := of_skipBlank skip
          cases y with
          | none => cases found
          | some b' =>
            dsimp only at found
            split at found
            · next quote =>
              obtain ⟨f, c₄, one, found⟩ := exists_of_bind_ok found
              obtain ⟨text, ahead₃, spelled⟩ := of_field follows (quote ▸ peeked₂) one
              refine .later (fun none => later (List.isEmpty_iff.2 none)) allBefore allAfter spelled
                ?_ found
              rw [ahead, of_discard past peeked, ahead₂, ahead₃, comma]
              simp only [List.append_assoc, List.cons_append]
            · split at found <;> cases found
        · cases found

end Loop

theorem rows_fields (follows : Follows value spells) :
    Rows (fields value) (Field spells) (byte '\x7d') where
  closing := by decide
  closes := fields_closes
  first := fields_first follows
  later := fields_later follows
  never := nofun
  turn := fields_turn follows

end Fields

/-! ### What is closed -/

theorem length_le_of_more {spells : α → Bytes → Prop} {xs : List α} (more : More spells xs text) :
    xs.length ≤ text.length := by
  induction more with
  | nil all => exact Nat.zero_le _
  | cons allBefore allAfter first others ih =>
    simp only [List.length_append, List.length_cons]
    omega

theorem length_le_of_elements {spells : α → Bytes → Prop} {xs : List α}
    (elements : Elements spells xs text) : xs.length ≤ text.length + 1 := by
  cases elements with
  | nil all => exact Nat.zero_le _
  | cons allBefore first others =>
    have := length_le_of_more others
    simp only [List.length_append, List.length_cons]
    omega

theorem exists_closing {d : Decoder α} {close : Decoder Unit} {a : α} {bytes : Bytes}
    (first : ∃ c₁, d c = .ok a c₁ ∧ c₁.Sees bytes)
    (last : ∀ {c₁}, c₁.Sees bytes → ∃ c', close c₁ = .ok () c' ∧ c'.Holds rest) :
    ∃ c', closing d close c = .ok a c' ∧ c'.Holds rest := by
  obtain ⟨c₁, found, sees⟩ := first
  obtain ⟨c', stops, left⟩ := last sees
  refine ⟨c', ?_, left⟩
  rw [closing_apply, found, closed, stops]

theorem of_closing {d : Decoder α} {close : Decoder Unit} {a : α}
    (found : closing d close c = .ok a c') : ∃ c₁, d c = .ok a c₁ ∧ close c₁ = .ok () c' := by
  rw [closing_apply] at found
  cases first : d c with
  | ok a c₁ =>
    rw [first, closed] at found
    cases stops : close c₁ <;> rw [stops] at found <;> cases found
    exact ⟨c₁, rfl, stops⟩
  | failed e c₁ =>
    rw [first, closed] at found
    cases stops : close c₁ <;> rw [stops] at found <;> cases found
  | starved =>
    rw [first] at found
    cases found

theorem skipBlank_of_head {b : UInt8} (head : c.ahead.head? = some b) (other : isBlank b = false)
    {x : Option UInt8} (skip : skipBlank c = .ok x c') :
    x = some b ∧ c'.ahead = c.ahead ∧ c'.peeked = some b := by
  obtain ⟨blanks, ahead, all, head', peeked⟩ := of_skipBlank skip
  cases blanks with
  | nil =>
    rw [List.nil_append] at ahead
    rw [ahead, head'] at head
    exact ⟨head, ahead.symm, peeked.trans head⟩
  | cons b' blanks =>
    rw [ahead] at head
    obtain rfl := Option.some.inj head
    exact absurd (all b' List.mem_cons_self) (by rw [other]; exact Bool.false_ne_true)

theorem exists_closeList (sees : c.Sees (byte ']' :: rest)) :
    ∃ c', closeList c = .ok () c' ∧ c'.Holds rest := by
  obtain ⟨c₁, skip, sees⟩ := exists_skipBlank_cons blanks_nil (by decide) sees.holds
  exact exists_bind_ok skip (exists_discard sees)

theorem of_closeList (head : c.ahead.head? = some (byte ']')) (found : closeList c = .ok () c') :
    c.ahead = byte ']' :: c'.ahead := by
  obtain ⟨x, c₁, skip, found⟩ := exists_of_bind_ok found
  obtain ⟨rfl, same, peeked⟩ := skipBlank_of_head head (by decide) skip
  rw [← same]
  exact of_discard found peeked

theorem exists_closeObject (sees : c.Sees (byte '\x7d' :: rest)) :
    ∃ c', closeObject c = .ok () c' ∧ c'.Holds rest := by
  obtain ⟨c₁, skip, sees⟩ := exists_skipBlank_cons blanks_nil (by decide) sees.holds
  exact exists_bind_ok skip (exists_discard sees)

theorem of_closeObject (head : c.ahead.head? = some (byte '\x7d'))
    (found : closeObject c = .ok () c') : c.ahead = byte '\x7d' :: c'.ahead := by
  obtain ⟨x, c₁, skip, found⟩ := exists_of_bind_ok found
  obtain ⟨rfl, same, peeked⟩ := skipBlank_of_head head (by decide) skip
  rw [← same]
  exact of_discard found peeked

/-! ### Values -/

theorem valueFrom_cases (levels : Nat) (b : UInt8) :
    (∃ w j tail, (w, j) ∈ literals ∧ word w = b :: tail ∧
      valueFrom levels b = discard >>= fun _ => expect tail >>= fun _ => pure j) ∨
    (b = byte '-' ∧ valueFrom levels b = discard >>= fun _ => number true) ∨
    (b = byte '"' ∧ valueFrom levels b =
      discard >>= fun _ => stringText >>= fun s => pure (.string s)) ∨
    (b = byte '[' ∧ valueFrom levels b = arrayFrom levels) ∨
    (b = byte '\x7b' ∧ valueFrom levels b = objectFrom levels) ∨
    (isDigitByte b = true ∧ valueFrom levels b = number false) ∨
    (isDigitByte b = false ∧ valueFrom levels b = fail .expectedValue) := by
  have literal {w : String} {j : Json} {a : Char} {tail : Bytes} (same : Char.ofNat b.toNat = a)
      (names : (w, j) ∈ literals) (first : word w = byte a :: tail) :
      ∃ w' j' tail', (w', j') ∈ literals ∧ word w' = b :: tail' ∧
        (discard >>= fun _ => expect tail >>= fun _ => pure j) =
          discard >>= fun _ => expect tail' >>= fun _ => pure j' :=
    ⟨w, j, tail, names, byte_of_ofNat same ▸ first, rfl⟩
  rw [valueFrom]
  split
  · next same => exact .inl (literal same (.head _) rfl)
  · next same => exact .inl (literal same (.tail _ (.head _)) rfl)
  · next same => exact .inl (literal same (.tail _ (.tail _ (.head _))) rfl)
  · next same => exact .inr (.inl ⟨byte_of_ofNat same, rfl⟩)
  · next same => exact .inr (.inr (.inl ⟨byte_of_ofNat same, rfl⟩))
  · next same => exact .inr (.inr (.inr (.inl ⟨byte_of_ofNat same, rfl⟩)))
  · next same => exact .inr (.inr (.inr (.inr (.inl ⟨byte_of_ofNat same, rfl⟩))))
  · split
    · next digit => exact .inr (.inr (.inr (.inr (.inr (.inl ⟨digit, rfl⟩)))))
    · next other =>
      exact .inr (.inr (.inr (.inr (.inr (.inr ⟨Bool.eq_false_iff.2 other, rfl⟩)))))

theorem valueFrom_literal {w : String} (names : (w, j) ∈ literals) (levels : Nat) :
    ∃ b tail, word w = b :: tail ∧ isBlank b = false ∧ b ≠ byte ']' ∧
      valueFrom levels b = discard >>= fun _ => expect tail >>= fun _ => pure j := by
  simp only [literals, List.mem_cons, Prod.mk.injEq, List.not_mem_nil, or_false] at names
  rcases names with ⟨rfl, rfl⟩ | ⟨rfl, rfl⟩ | ⟨rfl, rfl⟩ <;>
    exact ⟨_, _, rfl, by decide, by decide, rfl⟩

theorem valueFrom_digit {b : UInt8} (digit : isDigitByte b = true) (levels : Nat) :
    valueFrom levels b = number false := by
  rcases valueFrom_cases levels b with ⟨w, j, tail, names, first, -⟩ | ⟨rfl, -⟩ | ⟨rfl, -⟩ |
    ⟨rfl, -⟩ | ⟨rfl, -⟩ | ⟨-, same⟩ | ⟨other, -⟩
  · simp only [literals, List.mem_cons, Prod.mk.injEq, List.not_mem_nil, or_false] at names
    rcases names with ⟨rfl, rfl⟩ | ⟨rfl, rfl⟩ | ⟨rfl, rfl⟩ <;> cases first <;>
      exact absurd digit (by decide)
  · exact absurd digit (by decide)
  · exact absurd digit (by decide)
  · exact absurd digit (by decide)
  · exact absurd digit (by decide)
  · exact same
  · exact absurd digit (Bool.eq_false_iff.1 other)

theorem exists_head_body (n : NumberText) :
    ∃ b more, n.body.map byte = b :: more ∧ isDigitByte b = true := by
  obtain ⟨a, ds, chars⟩ := List.exists_cons_of_ne_nil n.whole.nonempty
  have digit : isDigit a = true := List.all_eq_true.1 n.whole.digits a (chars ▸ List.mem_cons_self)
  have body : n.body = a :: (ds ++ ((n.fraction.elim [] fun ds => '.' :: ds.chars) ++
      n.exponent.elim [] (·.chars))) := by
    rw [NumberText.body, chars, List.append_assoc, List.cons_append]
  exact ⟨byte a, _, by rw [body, List.map_cons], isDigitByte_byte digit⟩

theorem not_blank_of_digit {b : UInt8} (digit : isDigitByte b = true) :
    isBlank b = false ∧ b ≠ byte ']' ∧ delimitsItself b = false := by
  have other {a : UInt8} (apart : isDigitByte a = false) : b ≠ a := by
    rintro rfl
    exact absurd digit (Bool.eq_false_iff.1 apart)
  refine ⟨?_, other (by decide), ?_⟩
  · simp [isBlank, other (a := 0x20) (by decide), other (a := 0x0a) (by decide),
      other (a := 0x09) (by decide), other (a := 0x0d) (by decide)]
  · simp [delimitsItself, other (a := byte '[') (by decide), other (a := byte '"') (by decide),
      other (a := byte '\x7b') (by decide)]

theorem starts_scalar (scalar : Scalar Number j text) : Starts text := by
  cases scalar with
  | literal names =>
    obtain ⟨b, tail, first, blank, other, -⟩ := valueFrom_literal names 0
    exact ⟨b, tail, first, blank, other⟩
  | number reads =>
    obtain ⟨n, rfl, -⟩ := reads
    obtain ⟨b, more, first, digit⟩ := exists_head_body n
    rw [NumberText.bytes, NumberText.chars]
    split
    · exact ⟨byte '-', _, rfl, by decide, by decide⟩
    · exact ⟨b, more, first, (not_blank_of_digit digit).1, (not_blank_of_digit digit).2.1⟩
  | string quoted =>
    obtain ⟨body, -, rfl⟩ := quoted
    exact ⟨byte '"', _, rfl, by decide, by decide⟩

theorem starts_compound {spells : Json → Bytes → Prop} (compound : Compound spells j text) :
    Starts text := by
  cases compound with
  | array elements => exact ⟨byte '[', _, rfl, by decide, by decide⟩
  | object elements => exact ⟨byte '\x7b', _, rfl, by decide, by decide⟩

theorem exists_scalar {levels : Nat} (scalar : Scalar Number j text) (apart : Apart text rest)
    (sees : c.Sees (text ++ rest)) : ∃ b ∈ text.head?, ∃ c',
      valueFrom levels b c = .ok j c' ∧ c'.Holds rest := by
  cases scalar with
  | literal names =>
    obtain ⟨b, tail, first, -, -, same⟩ := valueFrom_literal names levels
    rw [first] at sees ⊢
    obtain ⟨c₁, past, left⟩ := exists_discard sees
    obtain ⟨c₂, found, left⟩ := exists_expect tail left
    refine ⟨b, rfl, ?_⟩
    rw [same]
    exact exists_bind_ok past (exists_bind_ok found (exists_pure_ok left))
  | number reads =>
    obtain ⟨n, rfl, value⟩ := reads
    obtain ⟨b, more, first, digit⟩ := exists_head_body n
    rw [NumberText.bytes, NumberText.chars] at apart sees ⊢
    split at sees
    · next negative =>
      rw [if_pos negative] at apart ⊢
      have ends : Ends rest := apart.resolve_left (by
        rintro ⟨_, ⟨⟩, delimits⟩
        exact absurd delimits (by decide))
      obtain ⟨c₁, past, left⟩ := exists_discard sees
      refine ⟨byte '-', rfl, exists_bind_ok past ?_⟩
      rw [← negative]
      exact exists_number value ends left
    · next positive =>
      rw [if_neg positive] at apart ⊢
      have ends : Ends rest := apart.resolve_left (by
        rw [first]
        rintro ⟨_, ⟨⟩, delimits⟩
        exact absurd delimits (Bool.eq_false_iff.1 (not_blank_of_digit digit).2.2))
      refine ⟨b, by rw [first]; rfl, ?_⟩
      rw [valueFrom_digit digit, ← Bool.eq_false_iff.2 positive]
      exact exists_number value ends sees.holds
  | string quoted =>
    obtain ⟨body, quoted, rfl⟩ := quoted
    simp only [List.append_assoc, List.cons_append, List.nil_append] at sees
    obtain ⟨c₁, past, left⟩ := exists_discard sees
    obtain ⟨c₂, found, left⟩ := exists_stringText quoted left
    exact ⟨byte '"', rfl, exists_bind_ok past (exists_bind_ok found (exists_pure_ok left))⟩

theorem exists_compoundFrom {levels : Nat} {elements : Nat → Decoder (List α)}
    {close : Decoder Unit} {spells : α → Bytes → Prop} {xs : List α} {first last : UInt8}
    (some : levels ≠ 0) (spelled : Elements spells xs text)
    (reads : ∀ {c : Cursor} {n}, xs.length < n → c.Holds (text ++ last :: rest) →
      ∃ c', elements n c = .ok xs c' ∧ c'.Sees (last :: rest))
    (closes : ∀ {c : Cursor}, c.Sees (last :: rest) → ∃ c', close c = .ok () c' ∧ c'.Holds rest)
    (form : List α → Json) (sees : c.Sees (first :: text ++ [last] ++ rest)) :
    ∃ c', compoundFrom levels elements close form c = .ok (form xs) c' ∧ c'.Holds rest := by
  simp only [List.append_assoc, List.cons_append, List.nil_append] at sees
  obtain ⟨c₁, past, left⟩ := exists_discard sees
  have turns : xs.length < c₁.rest.length + 2 := by
    have bound := length_ahead_le c₁
    have few := length_le_of_elements spelled
    rw [left.ahead, List.length_append, List.length_cons] at bound
    omega
  obtain ⟨c₂, found, left⟩ := exists_closing (reads turns left) closes
  rw [compoundFrom, if_neg some]
  exact exists_bind_ok past (exists_bind_ok found (exists_pure_ok left))

theorem of_compoundFrom {levels : Nat} {elements : Nat → Decoder (List α)}
    {close : Decoder Unit} {form : List α → Json} {b : UInt8} (peeked : c.peeked = some b)
    (found : compoundFrom levels elements close form c = .ok j c') : levels ≠ 0 ∧
      ∃ n xs c₁ c₂, j = form xs ∧ c.ahead = b :: c₁.ahead ∧ elements n c₁ = .ok xs c₂ ∧
        close c₂ = .ok () c' := by
  rw [compoundFrom] at found
  split at found
  · cases found
  · next some =>
    obtain ⟨_, c₁, past, found⟩ := exists_of_bind_ok found
    obtain ⟨xs, c₂, inside, found⟩ := exists_of_bind_ok found
    obtain ⟨rfl, rfl⟩ := of_pure found
    obtain ⟨c₃, loop, stops⟩ := of_closing inside
    exact ⟨some, _, xs, c₁, c₃, rfl, of_discard past peeked, loop, stops⟩

theorem exists_compound {levels : Nat} {spells : Json → Bytes → Prop} (some : levels ≠ 0)
    (follows : Follows (value levels) spells) (compound : Compound spells j text)
    (sees : c.Sees (text ++ rest)) : ∃ b ∈ text.head?, ∃ c',
      valueFrom levels b c = .ok j c' ∧ c'.Holds rest := by
  cases compound with
  | array elements =>
    exact ⟨byte '[', rfl, exists_compoundFrom some elements
      ((rows_items follows).exists_elements elements) exists_closeList .array sees⟩
  | object elements =>
    exact ⟨byte '\x7b', rfl, exists_compoundFrom some elements
      ((rows_fields follows).exists_elements elements) exists_closeObject .object sees⟩

theorem of_valueFrom {levels : Nat} {b : UInt8} {spells : Json → Bytes → Prop}
    (follows : levels ≠ 0 → Follows (value levels) spells) (peeked : c.peeked = some b)
    (found : valueFrom levels b c = .ok j c') : ∃ text, c.ahead = text ++ c'.ahead ∧
      (Scalar Number j text ∨ levels ≠ 0 ∧ Compound spells j text) := by
  rcases valueFrom_cases levels b with ⟨w, j', tail, names, first, same⟩ | ⟨rfl, same⟩ |
    ⟨rfl, same⟩ | ⟨rfl, same⟩ | ⟨rfl, same⟩ | ⟨digit, same⟩ | ⟨-, same⟩ <;> rw [same] at found
  · obtain ⟨_, c₁, past, found⟩ := exists_of_bind_ok found
    obtain ⟨_, c₂, rest, found⟩ := exists_of_bind_ok found
    obtain ⟨rfl, rfl⟩ := of_pure found
    refine ⟨word w, ?_, .inl (.literal names)⟩
    rw [of_discard past peeked, of_expect rest, first]
    rfl
  · obtain ⟨_, c₁, past, found⟩ := exists_of_bind_ok found
    obtain ⟨n, x, negative, rfl, value, ahead⟩ := of_number found
    refine ⟨n.bytes, ?_, .inl (.number ⟨n, rfl, value⟩)⟩
    rw [of_discard past peeked, ahead, NumberText.bytes, NumberText.chars, if_pos negative]
    rfl
  · obtain ⟨_, c₁, past, found⟩ := exists_of_bind_ok found
    obtain ⟨s, c₂, inside, found⟩ := exists_of_bind_ok found
    obtain ⟨rfl, rfl⟩ := of_pure found
    obtain ⟨body, ahead, quoted⟩ := of_stringText inside
    refine ⟨_, ?_, .inl (.string ⟨body, quoted, rfl⟩)⟩
    rw [of_discard past peeked, ahead]
    simp only [List.append_assoc, List.cons_append, List.nil_append]
  · obtain ⟨some, n, js, c₁, c₂, rfl, ahead, inside, close⟩ := of_compoundFrom peeked found
    obtain ⟨text, xs, rfl, ahead', head, elements⟩ :=
      (rows_items (follows some)).of_elements inside
    rw [if_pos rfl] at elements
    refine ⟨_, ?_, .inr ⟨some, .array elements⟩⟩
    rw [ahead, ahead', of_closeList head close]
    simp only [List.append_assoc, List.cons_append, List.nil_append]
  · obtain ⟨some, n, fs, c₁, c₂, rfl, ahead, inside, close⟩ := of_compoundFrom peeked found
    obtain ⟨text, xs, rfl, ahead', head, elements⟩ :=
      (rows_fields (follows some)).of_elements inside
    rw [if_pos rfl] at elements
    refine ⟨_, ?_, .inr ⟨some, .object elements⟩⟩
    rw [ahead, ahead', of_closeObject head close]
    simp only [List.append_assoc, List.cons_append, List.nil_append]
  · obtain ⟨n, x, positive, rfl, value, ahead⟩ := of_number found
    refine ⟨n.bytes, ?_, .inl (.number ⟨n, rfl, value⟩)⟩
    rw [ahead, NumberText.bytes, NumberText.chars, if_neg (Bool.eq_false_iff.1 positive)]
  · cases found

theorem spells_iff {number : Binary64 → Bytes → Prop} {depth : Nat} :
    Spells number depth j text ↔ Scalar number j text ∨
      ∃ inner, depth = inner + 1 ∧ Compound (Spells number inner) j text := by
  cases depth with
  | zero => exact ⟨.inl, fun spelled => spelled.resolve_right nofun⟩
  | succ inner =>
    refine ⟨fun spelled => spelled.imp id fun compound => ⟨inner, rfl, compound⟩, ?_⟩
    rintro (scalar | ⟨_, ⟨⟩, compound⟩)
    · exact .inl scalar
    · exact .inr compound

theorem starts_spells {depth : Nat} (spelled : Spells Number depth j text) : Starts text := by
  rcases spells_iff.1 spelled with scalar | ⟨inner, rfl, compound⟩
  · exact starts_scalar scalar
  · exact starts_compound compound

theorem follows_level {depth : Nat}
    (below : ∀ inner, depth = inner + 1 → Follows (value depth) (Spells Number inner)) :
    Follows (value (depth + 1)) (Spells Number depth) where
  starts := starts_spells
  reads {c j blanks text rest} all spelled apart holds := by
    obtain ⟨b, more, rfl, other, -⟩ := starts_spells spelled
    obtain ⟨c₁, skip, sees⟩ := exists_skipBlank_cons all other holds
    obtain ⟨_, ⟨⟩, found⟩ : ∃ b' ∈ (b :: more).head?, ∃ c',
        valueFrom depth b' c₁ = .ok j c' ∧ c'.Holds rest := by
      rcases spells_iff.1 spelled with scalar | ⟨inner, rfl, compound⟩
      · exact exists_scalar scalar apart sees
      · exact exists_compound (Nat.succ_ne_zero inner) (below inner rfl) compound sees
    rw [value_succ]
    exact exists_bind_ok skip found
  found {c j c'} found := by
    have follows : depth ≠ 0 → Follows (value depth) (Spells Number (depth - 1)) := fun some => by
      obtain ⟨inner, rfl⟩ := Nat.exists_eq_succ_of_ne_zero some
      exact below inner rfl
    rw [value_succ] at found
    obtain ⟨x, c₁, skip, found⟩ := exists_of_bind_ok found
    obtain ⟨blanks, ahead, all, -, peeked⟩ := of_skipBlank skip
    cases x with
    | none => cases found
    | some b =>
      obtain ⟨text, ahead', form⟩ := of_valueFrom follows peeked found
      refine ⟨blanks, text, by rw [ahead, ahead', List.append_assoc], all, spells_iff.2 ?_⟩
      rcases form with scalar | ⟨some, compound⟩
      · exact .inl scalar
      · exact .inr ⟨depth - 1, by omega, compound⟩

theorem follows_value (depth : Nat) : Follows (value (depth + 1)) (Spells Number depth) := by
  -- the decoder has one level more than the trees, for the last level refuses to nest
  induction depth with
  | zero => exact follows_level nofun
  | succ inner ih =>
    refine follows_level ?_
    rintro _ ⟨⟩
    exact ih

/-! ### Documents -/

def depthLimit : Nat := 127

inductive Leads : Bytes → Json → Bytes → Prop
  | mk {blanks text rest : Bytes} {j : Json} (all : Blanks blanks)
    (spelled : Spells Number depthLimit j text) (apart : Apart text rest) :
    Leads (blanks ++ (text ++ rest)) j rest

def ended (b : UInt8) (j : Json) : Decoder (Option Json) :=
  if delimitsItself b then pure (some j)
  else peek >>= fun
    | none => pure (some j)
    | some b => if mayFollow b then pure (some j) else fail .trailingCharacters

theorem document_eq : document = skipBlank >>= fun
    | none => pure none
    | some b => value (depthLimit + 1) >>= ended b := rfl

theorem exists_ended {b : UInt8} {text : Bytes} (apart : Apart (b :: text) rest)
    (holds : c.Holds rest) (j : Json) : ∃ c', ended b j c = .ok (some j) c' ∧ c'.Holds rest := by
  rw [ended]
  split
  · exact exists_pure_ok holds
  · next other =>
    have ends : Ends rest := apart.resolve_left (by
      rintro ⟨_, ⟨⟩, delimits⟩
      exact other delimits)
    obtain ⟨c₁, look, sees⟩ := exists_peek holds
    refine exists_bind_ok look ?_
    cases rest with
    | nil => exact exists_pure_ok sees.holds
    | cons b' rest =>
      have follows : mayFollow b' = true := ends b' rfl
      dsimp only [List.head?_cons]
      rw [if_pos follows]
      exact exists_pure_ok sees.holds

theorem of_ended {b : UInt8} {x : Option Json} (found : ended b j c = .ok x c') :
    x = some j ∧ c'.ahead = c.ahead ∧ (delimitsItself b = true ∨ Ends c.ahead) := by
  rw [ended] at found
  split at found
  · next delimits =>
    obtain ⟨rfl, rfl⟩ := of_pure found
    exact ⟨rfl, rfl, .inl delimits⟩
  · obtain ⟨y, c₁, look, found⟩ := exists_of_bind_ok found
    obtain ⟨head, kept, -⟩ := of_peek look
    cases y with
    | none =>
      obtain ⟨rfl, rfl⟩ := of_pure found
      exact ⟨rfl, kept, .inr fun b hb => absurd hb (by simp [head])⟩
    | some y =>
      dsimp only at found
      split at found
      · next follows =>
        obtain ⟨rfl, rfl⟩ := of_pure found
        refine ⟨rfl, kept, .inr fun b hb => ?_⟩
        rw [head] at hb
        exact Option.some.inj hb ▸ follows
      · cases found

theorem exists_document {bytes : Bytes} (leads : Leads bytes j rest) (holds : c.Holds bytes) :
    ∃ c', document c = .ok (some j) c' ∧ c'.Holds rest := by
  obtain ⟨all, spelled, apart⟩ := leads
  obtain ⟨b, more, rfl, other, -⟩ := starts_spells spelled
  obtain ⟨c₁, skip, sees⟩ := exists_skipBlank_cons all other holds
  obtain ⟨c₂, found, left⟩ :=
    (follows_value depthLimit).reads blanks_nil spelled apart sees.holds
  rw [document_eq]
  exact exists_bind_ok skip (exists_bind_ok found (exists_ended apart left j))

theorem not_leads_of_blanks {bytes : Bytes} (all : Blanks bytes) : ¬ Leads bytes j rest := by
  rintro ⟨-, spelled, -⟩
  obtain ⟨b, more, rfl, other, -⟩ := starts_spells spelled
  exact absurd (all b (by simp)) (Bool.eq_false_iff.1 other)

theorem exists_document_none {bytes : Bytes} (all : Blanks bytes) (holds : c.Holds bytes) :
    ∃ c', document c = .ok none c' := by
  rw [← List.append_nil bytes] at holds
  obtain ⟨c₁, skip, -⟩ := exists_skipBlank holds all nofun
  rw [document_eq, bind_of_ok skip]
  exact ⟨c₁, rfl⟩

theorem not_blank_of_delimits {b : UInt8} (delimits : delimitsItself b = true) :
    isBlank b = false := by
  simp only [delimitsItself, Bool.or_eq_true, decide_eq_true_eq] at delimits
  rcases delimits with (rfl | rfl) | rfl <;> decide

theorem of_document {x : Option Json} (found : document c = .ok x c') :
    (x = none ∧ Blanks c.ahead) ∨ ∃ j, x = some j ∧ Leads c.ahead j c'.ahead := by
  rw [document_eq] at found
  obtain ⟨y, c₁, skip, found⟩ := exists_of_bind_ok found
  obtain ⟨blanks, ahead, all, head, -⟩ := of_skipBlank skip
  cases y with
  | none =>
    obtain ⟨rfl, rfl⟩ := of_pure found
    rw [List.head?_eq_none_iff.1 head, List.append_nil] at ahead
    exact .inl ⟨rfl, ahead ▸ all⟩
  | some b =>
    obtain ⟨j, c₂, one, found⟩ := exists_of_bind_ok found
    obtain ⟨more, text, ahead', all', spelled⟩ := (follows_value depthLimit).found one
    obtain ⟨rfl, same, ends⟩ := of_ended found
    have apart : Apart text c₂.ahead := by
      refine ends.imp (fun delimits => ⟨b, ?_, delimits⟩) id
      obtain ⟨b', text, rfl, -⟩ := starts_spells spelled
      cases more with
      | nil =>
        rw [ahead'] at head
        exact head
      | cons b'' more =>
        rw [ahead'] at head
        obtain rfl := Option.some.inj head
        exact absurd (all' b'' List.mem_cons_self)
          (Bool.eq_false_iff.1 (not_blank_of_delimits delimits))
    refine .inr ⟨j, rfl, ?_⟩
    have leads := Leads.mk (all.append all') spelled apart
    rwa [same, ahead, ahead', List.append_assoc, ← List.append_assoc]

end Conduit.Json.Decoder
