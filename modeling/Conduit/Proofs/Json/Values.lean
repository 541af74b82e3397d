import Conduit.Json.Basic
import Conduit.Proofs.Value.Table

/-!
The value that stands for a tree, told apart from how it is computed: the pairs of a map matter only
by what is found in them.
-/

namespace Conduit.Json

open Value (lookup)

def lastField (fs : List (String × Json)) (key : String) : Option Json :=
  (fs.reverse.find? (·.1 == key)).map (·.2)

/-- The value stands for the tree. -/
inductive Image : Json → Value → Prop
  | null : Image .null (.string "")
  | bool (b : Bool) : Image (.bool b) (.bool b)
  | number (x : Binary64) : Image (.number x) (.string x.format)
  | string (s : String) : Image (.string s) (.string s)
  | array {js : List Json} {vs : List Value} (items : List.Forall₂ Image js vs) :
    Image (.array js) (.list vs)
  | object {fs : List (String × Json)} {pairs : List (Value × Value)} {image : String → Value}
    (keys : ∀ key, lookup pairs (.string key) = (lastField fs key).map fun _ => image key)
    (images : ∀ key j, lastField fs key = some j → Image j (image key))
    (others : ∀ v, (∀ key, v ≠ .string key) → lookup pairs v = none) :
    Image (.object fs) (.map pairs)

/-! ### The computed value -/

theorem lastField_cons (f : String × Json) (fs : List (String × Json)) (key : String) :
    lastField (f :: fs) key = (lastField fs key).or (if f.1 == key then some f.2 else none) := by
  rw [lastField, List.reverse_cons, List.find?_append, Option.map_or, ← lastField]
  congr 1
  rw [List.find?_cons]
  split
  · next same => rw [if_pos same]; rfl
  · next other => rw [if_neg (by simpa using other)]; rfl

theorem lookup_fieldValues (fs : List (String × Json)) (key : String) :
    lookup (fieldValues fs) (.string key) = (lastField fs key).map toValue := by
  induction fs with
  | nil => rfl
  | cons f fs ih =>
    obtain ⟨k, j⟩ := f
    rw [fieldValues, Value.lookup_cons, ih, lastField_cons, Option.map_or]
    congr 1
    rw [show Value.equal (.string k) (.string key) = (k == key) from rfl]
    split <;> rfl

theorem mem_of_lastField {fs : List (String × Json)} {key : String} {j : Json}
    (last : lastField fs key = some j) : (key, j) ∈ fs := by
  obtain ⟨⟨k, j⟩, found, rfl⟩ := Option.map_eq_some_iff.1 last
  obtain rfl : k = key := by simpa using List.find?_some found
  exact List.mem_reverse.1 (List.mem_of_find?_eq_some found)

theorem lookup_fieldValues_other (fs : List (String × Json)) {v : Value}
    (other : ∀ key, v ≠ .string key) : lookup (fieldValues fs) v = none := by
  rw [Value.lookup_eq_none_iff]
  intro p mem
  induction fs with
  | nil => cases mem
  | cons f fs ih =>
    rcases List.mem_cons.1 mem with rfl | mem
    · cases v with
      | string key => exact absurd rfl (other key)
      | _ => rfl
    · exact ih mem

mutual

theorem image_toValue : (j : Json) → Image j j.toValue
  | null => .null
  | bool b => .bool b
  | number x => .number x
  | string s => .string s
  | array js => .array (image_items js)
  | object fs => @Image.object fs _ (fun key => ((lastField fs key).map toValue).getD default)
      (fun key => by
        rw [lookup_fieldValues]
        cases lastField fs key <;> rfl)
      (fun key j last => by
        rw [last]
        exact image_fields fs (key, j) (mem_of_lastField last))
      fun _ other => lookup_fieldValues_other fs other
termination_by structural j => j

theorem image_items : (js : List Json) → List.Forall₂ Image js (itemValues js)
  | [] => .nil
  | j :: js => .cons (image_toValue j) (image_items js)
termination_by structural js => js

theorem image_fields : (fs : List (String × Json)) → ∀ f ∈ fs, Image f.2 f.2.toValue
  | [], _, mem => nomatch mem
  | (_, j) :: fs, f, mem => (List.mem_cons.1 mem).elim
      (fun same => by
        rw [same]
        exact image_toValue j)
      fun mem => image_fields fs f mem
termination_by structural fs => fs

end

end Conduit.Json
