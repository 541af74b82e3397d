import Conduit.Json.Decode
import Mathlib.Data.List.TakeWhile

/-!
Decoding when only a part of the bytes is at hand.  What a decoder finds stays as it is when more
bytes come, and a decoder starves only as long as more may come.
-/

namespace Conduit.Json

variable {α β : Type}

/-! ### What becomes of a cursor -/

def Cursor.ahead (c : Cursor) : Bytes := c.peeked.toList ++ c.rest

def Cursor.extend (c : Cursor) (more : Bytes) (ending : Ending) : Cursor :=
  { c with rest := c.rest ++ more, ending }

def Result.cursor? : Result α → Option Cursor
  | ok _ c | failed _ c => some c
  | starved => none

structure Cursor.Reaches (c c' : Cursor) : Prop where
  ending : c'.ending = c.ending
  rest : c'.rest <:+ c.rest
  ahead : c'.ahead <:+ c.ahead

theorem Cursor.Reaches.refl (c : Cursor) : c.Reaches c := ⟨rfl, List.suffix_rfl, List.suffix_rfl⟩

theorem Cursor.Reaches.trans {c c' c'' : Cursor} (first : c.Reaches c') (second : c'.Reaches c'') :
    c.Reaches c'' :=
  ⟨second.ending.trans first.ending, second.rest.trans first.rest, second.ahead.trans first.ahead⟩

inductive Extends (more : Bytes) (ending : Ending) : Result α → Result α → Prop
  | ok (a : α) (c : Cursor) : Extends more ending (.ok a c) (.ok a (c.extend more ending))
  | failed (e : Error) (c : Cursor) :
    Extends more ending (.failed e c) (.failed e (c.extend more ending))
  | starved {r : Result α} (within : ∀ c, r.cursor? = some c → c.rest <:+ more) :
    Extends more ending .starved r

namespace Extends

variable {more : Bytes} {ending : Ending} {c : Cursor} {r : Result α}

theorem eq_ok {a : α} (extends_ : Extends more ending (.ok a c) r) :
    r = .ok a (c.extend more ending) := by
  cases extends_
  rfl

theorem eq_failed {e : Error} (extends_ : Extends more ending (.failed e c) r) :
    r = .failed e (c.extend more ending) := by
  cases extends_
  rfl

theorem rest_suffix (extends_ : Extends more ending .starved r) (here : r.cursor? = some c) :
    c.rest <:+ more := by
  obtain - | - | within := extends_
  exact within c here

end Extends

namespace Decoder

variable {d : Decoder α} {f g : α → Decoder β} {c c' : Cursor}

/-! ### The steps of a decoder -/

theorem bind_apply : (d >>= f) c = match d c with
    | .ok a c => f a c
    | .failed e c => .failed e c
    | .starved => .starved := rfl

theorem bind_of_ok {a : α} (first : d c = .ok a c') : (d >>= f) c = f a c' := by
  rw [bind_apply, first]

theorem bind_congr (same : ∀ a c', d c = .ok a c' → f a c' = g a c') :
    (d >>= f) c = (d >>= g) c := by
  rw [bind_apply, bind_apply]
  cases first : d c with
  | ok a c' => exact same a c' first
  | failed e c' => rfl
  | starved => rfl

/-! ### Steady decoders -/

structure Steady (d : Decoder α) : Prop where
  reaches : ∀ c c', (d c).cursor? = some c' → c.Reaches c'
  settles : ∀ c, c.ending ≠ .open → d c ≠ .starved
  extends_ : ∀ c more ending, c.ending = .open →
    Extends more ending (d c) (d (c.extend more ending))

theorem steady_pure (a : α) : Steady (pure a : Decoder α) where
  reaches c c' here := by
    cases here
    exact .refl c
  settles c closed := nofun
  extends_ c more ending open_ := .ok a c

theorem steady_fail (fault : Fault) : Steady (fail fault : Decoder α) where
  reaches c c' here := by
    cases here
    exact .refl c
  settles c closed := nofun
  extends_ c more ending open_ := .failed _ c

theorem steady_failBefore (back : Nat) (fault : Fault) :
    Steady (failBefore back fault : Decoder α) where
  reaches c c' here := by
    cases here
    exact .refl c
  settles c closed := nofun
  extends_ c more ending open_ := .failed _ c

theorem steady_discard : Steady discard where
  reaches c c' here := by
    cases here
    exact ⟨rfl, List.suffix_rfl, List.suffix_append _ _⟩
  settles c closed := nofun
  extends_ c more ending open_ := .ok () _

theorem steady_peek : Steady peek where
  reaches c c' here := by
    obtain ⟨rest, ending, peeked, position⟩ := c
    rcases peeked with _ | b
    · rcases rest with _ | ⟨b, rest⟩
      · cases ending <;> cases here <;> exact .refl _
      · cases here
        exact ⟨rfl, List.suffix_cons b rest, List.suffix_rfl⟩
    · cases here
      exact .refl _
  settles c closed := by
    obtain ⟨rest, ending, peeked, position⟩ := c
    rcases peeked with _ | b
    · rcases rest with _ | ⟨b, rest⟩
      · cases ending with
        | «open» => exact absurd rfl closed
        | finished => nofun
        | failing message => nofun
      · nofun
    · nofun
  extends_ c more ending open_ := by
    obtain ⟨rest, _, peeked, position⟩ := c
    obtain rfl : _ = Ending.open := open_
    rcases peeked with _ | b
    · rcases rest with _ | ⟨b, rest⟩
      · refine .starved fun c' here => ?_
        rcases more with _ | ⟨b, more⟩
        · cases ending <;> cases here <;> exact List.suffix_rfl
        · cases here
          exact List.suffix_cons b more
      · exact .ok (some b) _
    · exact .ok (some b) _

theorem Steady.bind (first : Steady d) (rest : ∀ a, Steady (f a)) : Steady (d >>= f) where
  reaches c c' here := by
    rw [bind_apply] at here
    have reaches := first.reaches c
    cases found : d c with
    | ok a c₁ =>
      rw [found] at here reaches
      exact (reaches c₁ rfl).trans ((rest a).reaches c₁ c' here)
    | failed e c₁ =>
      rw [found] at here reaches
      exact reaches c' here
    | starved =>
      rw [found] at here
      cases here
  settles c closed := by
    rw [bind_apply]
    have reaches := first.reaches c
    cases found : d c with
    | ok a c₁ =>
      rw [found] at reaches
      exact (rest a).settles c₁ ((reaches c₁ rfl).ending.symm ▸ closed)
    | failed e c₁ => nofun
    | starved => exact absurd found (first.settles c closed)
  extends_ c more ending open_ := by
    rw [bind_apply, bind_apply]
    have reaches := first.reaches c
    have step := first.extends_ c more ending open_
    cases found : d c with
    | ok a c₁ =>
      rw [found] at step reaches
      rw [step.eq_ok]
      exact (rest a).extends_ c₁ more ending ((reaches c₁ rfl).ending.trans open_)
    | failed e c₁ =>
      rw [found] at step
      rw [step.eq_failed]
      exact .failed e c₁
    | starved =>
      rw [found] at step
      generalize d (c.extend more ending) = found' at step ⊢
      -- what is left in the end is left of what has come
      refine .starved fun c' here => ?_
      cases found' with
      | ok a c₁ => exact ((rest a).reaches c₁ c' here).rest.trans (step.rest_suffix rfl)
      | failed e c₁ => exact step.rest_suffix here
      | starved => cases here

def passing (test : UInt8 → Bool) (c : Cursor) : Cursor :=
  { c with rest := c.rest.dropWhile test, peeked := none,
           position := (c.rest.takeWhile test).foldl Position.after c.position }

theorem takeWhile_apply (test : UInt8 → Bool) (c : Cursor) : takeWhile test c =
    if c.peeked.all test then
      (peek >>= fun _ => pure (c.peeked.toList ++ c.rest.takeWhile test) : Decoder Bytes)
        (passing test c)
    else .ok [] c := by
  obtain ⟨rest, ending, peeked, position⟩ := c
  cases peeked with
  | none => rfl
  | some b => cases fits : test b <;> simp [takeWhile, fits, passing]

theorem reaches_passing (test : UInt8 → Bool) (c : Cursor) : c.Reaches (passing test c) :=
  ⟨rfl, List.dropWhile_suffix test, (List.dropWhile_suffix test).trans (List.suffix_append _ _)⟩

theorem takeWhile_append_of_stop {test : UInt8 → Bool} {bytes : Bytes}
    (stops : bytes.dropWhile test ≠ []) (more : Bytes) :
    (bytes ++ more).takeWhile test = bytes.takeWhile test ∧
      (bytes ++ more).dropWhile test = bytes.dropWhile test ++ more := by
  have parts : (bytes.takeWhile test ++ bytes.dropWhile test).length = bytes.length :=
    congrArg List.length List.takeWhile_append_dropWhile
  have left := List.length_pos_iff.2 stops
  rw [List.length_append] at parts
  constructor
  · rw [List.takeWhile_append, if_neg (by omega)]
  · rw [List.dropWhile_append, if_neg (by simpa using stops)]

theorem steady_look (bytes : Bytes) : Steady (peek >>= fun _ => pure bytes : Decoder Bytes) :=
  steady_peek.bind fun _ => steady_pure bytes

theorem steady_takeWhile (test : UInt8 → Bool) : Steady (takeWhile test) where
  reaches c c' here := by
    rw [takeWhile_apply] at here
    split at here
    · exact (reaches_passing test c).trans ((steady_look _).reaches _ c' here)
    · cases here
      exact .refl c
  settles c closed := by
    rw [takeWhile_apply]
    split
    · exact (steady_look _).settles _ closed
    · nofun
  extends_ c more ending open_ := by
    have looked : (c.extend more ending).peeked = c.peeked := rfl
    have bytes : (c.extend more ending).rest = c.rest ++ more := rfl
    rw [takeWhile_apply, takeWhile_apply, looked, bytes]
    split
    · by_cases all : c.rest.dropWhile test = []
      · -- every byte passes, so the row may go on in the bytes to come
        have starved : (peek >>= fun _ => pure (c.peeked.toList ++ c.rest.takeWhile test) :
            Decoder Bytes) (passing test c) = .starved := by
          rw [bind_apply, passing, all, open_]
          rfl
        have within : (passing test (c.extend more ending)).rest <:+ more := by
          rw [passing, bytes, List.dropWhile_append_of_pos (List.dropWhile_eq_nil_iff.1 all)]
          exact List.dropWhile_suffix test
        rw [starved]
        exact .starved fun c' here => ((steady_look _).reaches _ c' here).rest.trans within
      · obtain ⟨front, back⟩ := takeWhile_append_of_stop all more
        have same : passing test (c.extend more ending) = (passing test c).extend more ending := by
          rw [passing, bytes, front, back]
          rfl
        rw [front, same]
        exact (steady_look _).extends_ _ more ending open_
    · exact .ok [] c

def closed (close : Decoder Unit) : Result α → Result α
  | .starved => .starved
  | .ok a c =>
    match close c with
    | .ok () c => .ok a c
    | .failed e c => .failed { e with position := e.position.or (some c.position) } c
    | .starved => .starved
  | .failed e c =>
    match close c with
    | .ok () c | .failed _ c => .failed { e with position := e.position.or (some c.position) } c
    | .starved => .starved

theorem closing_apply (d : Decoder α) (close : Decoder Unit) (c : Cursor) :
    closing d close c = closed close (d c) := by
  rw [closing]
  cases d c with
  | ok a c => rfl
  | failed e c => rfl
  | starved => rfl

theorem exists_of_cursor?_closed {close : Decoder Unit} {r : Result α}
    (here : (closed close r).cursor? = some c') :
    ∃ c, r.cursor? = some c ∧ (close c).cursor? = some c' := by
  cases r with
  | starved => cases here
  | ok a c =>
    refine ⟨c, rfl, ?_⟩
    rw [closed] at here
    cases found : close c <;> rw [found] at here <;> exact here
  | failed e c =>
    refine ⟨c, rfl, ?_⟩
    rw [closed] at here
    cases found : close c <;> rw [found] at here <;> exact here

theorem extends_closed {close : Decoder Unit} {found found' : Result α} {more : Bytes}
    {ending : Ending} (first : Extends more ending found found') (last : Steady close)
    (open_ : ∀ c, found.cursor? = some c → c.ending = .open) :
    Extends more ending (closed close found) (closed close found') := by
  cases first with
  | starved within =>
    refine .starved fun c' here => ?_
    obtain ⟨c₁, found, stops⟩ := exists_of_cursor?_closed here
    exact (last.reaches c₁ c' stops).rest.trans (within c₁ found)
  | ok a c₁ | failed e c₁ =>
    have step := last.extends_ c₁ more ending (open_ c₁ rfl)
    rw [closed, closed]
    cases stops : close c₁ with
    | ok _ c₂ =>
      rw [stops] at step
      rw [step.eq_ok]
      constructor
    | failed _ c₂ =>
      rw [stops] at step
      rw [step.eq_failed]
      constructor
    | starved =>
      rw [stops] at step
      generalize close (c₁.extend more ending) = stops' at step ⊢
      refine .starved fun c' here => ?_
      cases stops' with
      | ok _ c₂ | failed _ c₂ => exact step.rest_suffix here
      | starved => cases here

theorem Steady.closing {close : Decoder Unit} (first : Steady d) (last : Steady close) :
    Steady (closing d close) where
  reaches c c' here := by
    rw [closing_apply] at here
    obtain ⟨c₁, found, stops⟩ := exists_of_cursor?_closed here
    exact (first.reaches c c₁ found).trans (last.reaches c₁ c' stops)
  settles c settled := by
    rw [closing_apply]
    have reaches := first.reaches c
    cases found : d c with
    | starved => exact absurd found (first.settles c settled)
    | ok a c₁ | failed e c₁ =>
      rw [found] at reaches
      have ends := last.settles c₁ ((reaches c₁ rfl).ending.symm ▸ settled)
      rw [closed]
      cases stops : close c₁ with
      | ok _ c₂ | failed _ c₂ => nofun
      | starved => exact absurd stops ends
  extends_ c more ending open_ := by
    rw [closing_apply, closing_apply]
    exact extends_closed (first.extends_ c more ending open_) last fun c₁ found =>
      (first.reaches c c₁ found).ending.trans open_

end Decoder

end Conduit.Json
