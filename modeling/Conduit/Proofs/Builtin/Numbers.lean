import Conduit.Proofs.Builtin.Documents
import Conduit.Proofs.Json.Operands

/-!
The numbers of documents and the operands of arithmetic.  Both are decimal literals, but only the
latter are always read as the nearest float.
-/

namespace Conduit

open Binary64 (Magnitude)
open Proc (Meets)
open Json (Blanks Image NumberText Operand Spells Stream)
open Json.Decoder (Leads depthLimit)

namespace Builtin

/-- A document's numbers are read as operands are wherever no more than one rounding is needed, and
so is the text of a float of which that holds. -/
theorem numbers_read_as_operands (h : Host) :
    (∀ (ctx : Context) (s : System) (vs : List Value) (count : Nat) (bytes tail : Bytes)
      (js : List Json), Stream (Spells Operand depthLimit) tail js bytes →
      (Blanks tail ∨ ∀ j rest, ¬ Leads tail j rest) →
      s.BytesLeft ctx.input.stream bytes none →
      s.ValuesWritten ctx.output.channel vs (js.length + count) →
      Meets h (fromJson ctx) s fun result s' => (Blanks tail → result = .ok) ∧
        (¬ Blanks tail → ∃ message, result = .failure message) ∧
        ∃ images, List.Forall₂ Image js images ∧
          s'.ValuesWritten ctx.output.channel (vs ++ images) count) ∧
    ∀ (negative : Bool) (m : Magnitude) (text : String), m ≠ .infinity →
      (Binary64.signed negative m).format = text →
      (∃ n : NumberText, String.ofList n.chars = text) ∧
      ∀ n : NumberText, String.ofList n.chars = text → n.Exact →
        ∀ (ctx : Context) (s : System) (vs : List Value) (count : Nat),
          s.BytesLeft ctx.input.stream (Utf8.encode text) none →
          s.ValuesWritten ctx.output.channel vs (count + 1) →
          Meets h (fromJson ctx) s fun result s' => result = .ok ∧
            s'.ValuesWritten ctx.output.channel (vs ++ [.string text]) count := by
  constructor
  · intro ctx s vs count bytes tail js stream last left room
    exact meets_stream (fun _ _ => Operand.number) stream last left room
  · rintro negative m text finite rfl
    refine ⟨NumberText.exists_chars_format negative finite, ?_⟩
    intro n same exact_ ctx s vs count left room
    have operand : Operand (.signed negative m) n.bytes :=
      ⟨n, rfl, exact_, by rw [same, Binary64.parse?_format]⟩
    have bytes : n.bytes = Utf8.encode (Binary64.signed negative m).format := by
      rw [n.bytes_eq, same]
    rw [← bytes] at left
    rw [Nat.add_comm] at room
    refine (meets_stream (fun _ _ => Operand.number) (.one (.inl (.number operand)))
      (.inl Json.blanks_nil) left room).mono ?_
    rintro result s' ⟨ok, -, images, stands, room'⟩
    obtain - | ⟨number, - | -⟩ := stands
    cases number
    exact ⟨ok Json.blanks_nil, room'⟩

end Builtin

namespace NumbersOfDocuments

open Builtin LinesOfWords

def scaled : NumberText where
  negative := false
  whole := ⟨['2'], rfl, List.cons_ne_nil _ _⟩
  noLeadingZero := nofun
  fraction := some ⟨['5'], rfl, List.cons_ne_nil _ _⟩
  exponent := some ⟨'e', .inl rfl, .minus, ⟨['3'], rfl, List.cons_ne_nil _ _⟩⟩

def tenth : NumberText where
  negative := false
  whole := ⟨['0'], rfl, List.cons_ne_nil _ _⟩
  noLeadingZero := fun _ => rfl
  fraction := some ⟨['1'], rfl, List.cons_ne_nil _ _⟩
  exponent := none

def tiny : NumberText where
  negative := false
  whole := ⟨['1'], rfl, List.cons_ne_nil _ _⟩
  noLeadingZero := nofun
  fraction := none
  exponent := some ⟨'e', .inl rfl, .minus, ⟨['2', '3'], rfl, List.cons_ne_nil _ _⟩⟩

theorem exact_scaled : scaled.Exact :=
  ⟨_, rfl, rfl, .scaled (by decide +kernel) (by decide)⟩

theorem exact_tenth : tenth.Exact :=
  ⟨_, rfl, rfl, .scaled (by decide +kernel) (by decide)⟩

theorem format_tenth : (Binary64.signed false (.nearest (1 / 10))).format = "0.1" := by
  decide +kernel

theorem parse?_scaled : Binary64.parse? "2.5e-3" = some (.signed false (.nearest (1 / 400))) := by
  decide +kernel

theorem format_scaled : (Binary64.signed false (.nearest (1 / 400))).format = "0.0025" := by
  decide +kernel

theorem spells_scaled : Spells Operand depthLimit
    (.array [.number (.signed false (.nearest (1 / 400)))]) (Json.word "[2.5e-3]") :=
  have operand : Operand (.signed false (.nearest (1 / 400))) scaled.bytes :=
    ⟨scaled, rfl, exact_scaled, parse?_scaled⟩
  have item : Spells Operand 126 (.number (.signed false (.nearest (1 / 400)))) scaled.bytes :=
    .inl (.number operand)
  .inr (.array (.cons Json.blanks_nil item (.nil Json.blanks_nil)))

theorem numbers_of_tenths :
    (Meets Host.none (fromJson reader) (reading (Json.word "[2.5e-3]")) fun r s' => r = .ok ∧
      s'.ValuesWritten reader.output.channel [.list [.string "0.0025"]] 0) ∧
    Meets Host.none (fromJson reader) (reading (Utf8.encode "0.1")) fun r s' => r = .ok ∧
      s'.ValuesWritten reader.output.channel [.string "0.1"] 0 := by
  obtain ⟨documents, floats⟩ := numbers_read_as_operands Host.none
  constructor
  · refine (documents reader _ [] 0 _ _ _ (.one spells_scaled) (.inl Json.blanks_nil) (bytesLeft _)
      (valuesWritten _ _)).mono ?_
    rintro r s' ⟨ok, -, images, stands, room⟩
    obtain - | ⟨array, - | -⟩ := stands
    cases array with
    | array items =>
    obtain - | ⟨number, - | -⟩ := items
    cases number
    rw [format_scaled] at room
    exact ⟨ok Json.blanks_nil, room⟩
  · obtain ⟨-, emits⟩ := floats false (.nearest (1 / 10)) "0.1" (by decide +kernel) format_tenth
    exact emits tenth rfl exact_tenth reader _ [] 0 (bytesLeft _) (valuesWritten _ _)

/-! ### A numeral that is rounded twice -/

theorem value?_tiny : tiny.value?.map Binary64.format = some "1.0000000000000001e-23" := by
  have gathered : (⟨false, ['1'], none, some (-23)⟩ : Json.Numeral).gathered = (1, -23) := rfl
  change (Json.Numeral.value? ⟨false, ['1'], none, some (-23)⟩).map Binary64.format = _
  rw [Json.Numeral.value?, Json.Numeral.magnitude?_eq, gathered, Binary64.ofNat_eq,
    Json.Numeral.scale_of_neg (Json.Numeral.word_finite (by decide)) (by decide) (by decide)]
  decide +kernel

theorem tiny_rounded_twice :
    (Meets Host.none (fromJson reader) (reading (Utf8.encode "1e-23")) fun r s' => r = .ok ∧
      s'.ValuesWritten reader.output.channel [.string "1.0000000000000001e-23"] 0) ∧
    (Binary64.parse? "1e-23").map Binary64.format = some "1e-23" := by
  refine ⟨?_, by decide +kernel⟩
  obtain ⟨x, reads, text⟩ := Option.map_eq_some_iff.1 value?_tiny
  have number : Json.Number x (Utf8.encode "1e-23") := ⟨tiny, rfl, reads⟩
  refine (meets_stream (fun _ _ => id) (.one (.inl (.number number))) (.inl Json.blanks_nil)
    (bytesLeft _) (valuesWritten _ (1 + 0))).mono ?_
  rintro r s' ⟨ok, -, images, stands, room⟩
  obtain - | ⟨number, - | -⟩ := stands
  cases number
  rw [text] at room
  exact ⟨ok Json.blanks_nil, room⟩

end NumbersOfDocuments

end Conduit
