import Conduit.Pipeline
import Conduit.Text.Utf8

/-!
Settings of a run, as read from a configuration text.  The text is one structure with named
fields, `(name: value, ...)`; fields that are left out keep their defaults and unknown ones are
passed over, whatever value they have.
-/

namespace Conduit

structure Settings where
  capacities : Capacities := {}
  logLevel : String := "warn"
  deriving DecidableEq, Repr

namespace Settings

abbrev Reader := StateT (List Char) Option

def refuse {α : Type} : Reader α := fun _ => none

/-! ### Characters -/

def isSpace (c : Char) : Bool := c = ' ' || c = '\t' || c = '\n' || c = '\r'

inductive Gap
  | between
  | line
  | block (outer : Nat)

def skipGap : Gap → List Char → Option (List Char)
  | .between, [] => some []
  | .between, '/' :: '/' :: cs => skipGap .line cs
  | .between, '/' :: '*' :: cs => skipGap (.block 0) cs
  | .between, c :: cs => if isSpace c then skipGap .between cs else if c = '/' then none else c :: cs
  | .line, [] => some []
  | .line, c :: cs => if c = '\n' then skipGap .between cs else skipGap .line cs
  | .block _, [] => none
  | .block outer, '/' :: '*' :: cs => skipGap (.block (outer + 1)) cs
  | .block 0, '*' :: '/' :: cs => skipGap .between cs
  | .block (outer + 1), '*' :: '/' :: cs => skipGap (.block outer) cs
  | .block outer, _ :: cs => skipGap (.block outer) cs

def gap : Reader Unit := fun cs => (skipGap .between cs).map ((), ·)

def peek? : Reader (Option Char) := fun cs => some (cs.head?, cs)

def any : Reader Char := fun
  | [] => none
  | c :: cs => some (c, cs)

def accept (word : String) : Reader Bool := fun cs =>
  let w := word.toList
  if w.isPrefixOf cs then some (true, cs.drop w.length) else some (false, cs)

def require (word : String) : Reader Unit := do
  if !(← accept word) then refuse

def takeWhile (test : Char → Bool) : Reader (List Char) := fun cs =>
  some (cs.takeWhile test, cs.dropWhile test)

def comma : Reader Bool := do
  gap
  let found ← accept ","
  if found then gap
  pure found

/-! ### Words and numbers -/

def isAsciiAlphanumeric (c : Char) : Bool := c.toNat < 0x80 && c.isAlphanum

def isWordStart (c : Char) : Bool := c.toNat < 0x80 && (c.isAlpha || c = '_')

def isWordPart (c : Char) : Bool := isAsciiAlphanumeric c || c = '_'

def isRawPart (c : Char) : Bool := isWordPart c || c = '.' || c = '+' || c = '-'

def word : Reader String := fun cs =>
  let plain (cs : List Char) :=
    let w := cs.takeWhile isWordPart
    if w.length < (cs.takeWhile isRawPart).length then none
    else some (String.ofList w, cs.drop w.length)
  match cs with
  | 'r' :: '"' :: _ => none
  | ['r'] => none
  | 'r' :: '#' :: cs =>
    let w := cs.takeWhile isRawPart
    if w.isEmpty then none else some (String.ofList w, cs.drop w.length)
  | c :: _ => if isWordStart c then plain cs else none
  | [] => none

def acceptWord (w : String) : Reader Bool := fun cs =>
  let w := w.toList
  if w.isPrefixOf cs && !((cs.drop w.length).head?.any isWordPart) then
    some (true, cs.drop w.length)
  else some (false, cs)

def hexDigit? (c : Char) : Option Nat :=
  if '0' ≤ c ∧ c ≤ '9' then some (c.toNat - '0'.toNat)
  else if 'a' ≤ c ∧ c ≤ 'f' then some (c.toNat - 'a'.toNat + 10)
  else if 'A' ≤ c ∧ c ≤ 'F' then some (c.toNat - 'A'.toNat + 10)
  else none

def digitsIn (base : Nat) (cs : List Char) : Option Nat :=
  (cs.filter (· ≠ '_')).foldl (fun n c => do
    let n ← n
    let d ← hexDigit? c
    if d < base then some (n * base + d) else none) (some 0)

def natural : Reader Nat := do
  let base ←
    if ← accept "0x" then pure 16
    else if ← accept "0b" then pure 2
    else if ← accept "0o" then pure 8
    else pure 10
  let ds ← takeWhile fun c => (hexDigit? c).isSome || c = '_'
  if ds.isEmpty || ds.head? = some '_' then refuse
  else
    match digitsIn base ds with
    | some n => pure n
    | none => refuse

def wordLimit : Nat := 0x10000000000000000

def count : Reader Nat := do
  let n ← natural
  if n < wordLimit then pure n else refuse

def isFloatPart (c : Char) : Bool :=
  isDigit c || c = 'e' || c = 'E' || c = '.' || c = '+' || c = '-' || c = '_'

def wholeNumber : Reader Unit := do
  if ← accept "-" then
    if wordLimit / 2 < (← natural) then refuse
  else if ← accept "+" then
    if wordLimit / 2 ≤ (← natural) then refuse
  else discard count

def decimalNumber : Reader Unit := fun cs =>
  let text := cs.takeWhile isFloatPart
  if text.contains '_' || (Literal.read? text).isNone then none
  else some ((), cs.dropWhile isFloatPart)

def anyNumber : Reader Unit := fun cs =>
  match wholeNumber cs, decimalNumber cs with
  | some (_, whole), some (_, decimal) =>
    some ((), if decimal.length < whole.length then decimal else whole)
  | whole, none => whole
  | none, decimal => decimal

def isNumberStart (c : Char) : Bool := isDigit c || c = '.' || c = '+' || c = '-'

/-! ### Strings -/

def hexPair : Reader Char := do
  match hexDigit? (← any), hexDigit? (← any) with
  | some a, some b => pure (Char.ofNat (a * 16 + b))
  | _, _ => refuse

def codePoint : Reader Char := do
  require "\x7b"
  let ds ← takeWhile fun c => (hexDigit? c).isSome
  require "\x7d"
  let n := (digitsIn 16 ds).getD 0
  if ds.isEmpty || 6 < ds.length || !n.isValidChar then refuse else pure (Char.ofNat n)

def escape : Reader Char := do
  match ← any with
  | '\'' => pure '\''
  | '"' => pure '"'
  | '\\' => pure '\\'
  | 'n' => pure '\n'
  | 'r' => pure '\r'
  | 't' => pure '\t'
  | '0' => pure '\x00'
  | 'x' => hexPair
  | 'u' => codePoint
  | _ => refuse

def stringRest : Nat → List Char → Reader String
  | 0, _ => refuse
  | fuel + 1, read => do
    let plain ← takeWhile fun c => c ≠ '"' && c ≠ '\\'
    match ← any with
    | '"' => pure (String.ofList (read ++ plain))
    | _ =>
      let c ← escape
      stringRest fuel (read ++ plain ++ [c])

def splitAt (ending : List Char) : List Char → Option (List Char × List Char)
  | [] => if ending.isEmpty then some ([], []) else none
  | c :: cs =>
    if ending.isPrefixOf (c :: cs) then some ([], (c :: cs).drop ending.length)
    else (splitAt ending cs).map fun (before, rest) => (c :: before, rest)

def rawRest : Reader String := do
  let hashes ← takeWhile (· = '#')
  require "\""
  fun cs => (splitAt ('"' :: hashes) cs).map fun (text, cs) => (String.ofList text, cs)

def string : Reader String := do
  if ← accept "\"" then fun cs => stringRest (cs.length + 1) [] cs
  else if ← accept "r" then rawRest
  else refuse

def character : Reader Unit := do
  require "'"
  match ← any with
  | '\\' => discard escape
  | '\'' => refuse
  | _ => pure ()
  require "'"

/-! ### Values that are passed over -/

def items (item : Reader Unit) (close : Char) : Nat → Reader Unit
  | 0 => refuse
  | fuel + 1 => do
    gap
    match ← peek? with
    | none => refuse
    | some c =>
      if c = close then discard any
      else
        item
        if ← comma then items item close fuel
        else
          match ← peek? with
          | none => refuse
          | some c => if c = close then discard any else refuse

def entry (key value : Reader Unit) : Reader Unit := do
  key
  gap
  require ":"
  gap
  value

def startsField : Reader Bool := fun cs =>
  let named : Reader Bool := do
    discard word
    gap
    accept ":"
  some ((named cs).any (·.1), cs)

def structureRest (value : Reader Unit) (turns : Nat) : Reader Unit := do
  gap
  if ← startsField then items (entry (discard word) value) ')' turns
  else items value ')' turns

structure Inside where
  option : Reader Unit := refuse
  items? : Option (Reader Unit) := none

def optionRest (bare : Bool) (value : Reader Unit) : Reader Unit := do
  gap
  if ← accept "(" then
    gap
    value
    discard comma
    require ")"
  else if bare then value
  else refuse

def container (item : Reader Unit) : Reader Unit := do
  let turns := (← get).length + 1
  if ← accept "(" then structureRest item turns
  else if ← accept "[" then items item ']' turns
  else do
    require "\x7b"
    items (entry item item) '\x7d' turns

def constants : List String :=
  ["true", "false", "None", "inf", "NaN", "-inf", "-NaN", "+inf", "+NaN"]

def valueAround (bare : Bool) (inside : Inside) : Reader Unit := do
  let opened := inside.items?.elim refuse container
  if ← constants.anyM acceptWord then pure ()
  else if ← accept "()" then pure ()
  else if ← acceptWord "Some" then optionRest bare inside.option
  else
    match word (← get) with
    | some (_, after) =>
      set after
      gap
      if (← peek?) = some '(' then opened
    | none =>
      match ← peek? with
      | some '(' => opened
      | some '[' => opened
      | some '\x7b' => opened
      | some '\'' => character
      | some '"' => discard string
      | some 'r' => discard string
      | some c => if isNumberStart c then anyNumber else refuse
      | none => refuse

/-- A value of any form, in which others may be nested.  An option goes one level down; a list, a
map or a structure goes one level down itself, and its items another one. -/
def anyValue (bare : Bool) : Nat → List Char → Option (Unit × List Char)
  | 0, cs => valueAround bare {} cs
  | 1, cs => valueAround bare { option := anyValue bare 0, items? := some refuse } cs
  | levels + 2, cs =>
    valueAround bare
      { option := anyValue bare (levels + 1), items? := some (anyValue bare levels) } cs

-- The levels that may be open at a time are 128, of which the settings and the value of a field
-- take two.
def fieldLevels : Nat := 126

/-! ### Fields -/

structure Fields where
  settings : Settings := {}
  seen : List String := []

def field (bare : Bool) (f : Fields) : Reader Fields := do
  let name ← word
  gap
  require ":"
  gap
  if f.seen.contains name then refuse
  else
    let s := f.settings
    let seen := name :: f.seen
    match name with
    | "channel_capacity" => do
      let n ← count
      pure ⟨{ s with capacities := { s.capacities with channel := n } }, seen⟩
    | "pipe_capacity" => do
      let n ← count
      pure ⟨{ s with capacities := { s.capacities with pipe := n } }, seen⟩
    | "log_level" => do
      let level ← string
      pure ⟨{ s with logLevel := level }, seen⟩
    | _ => do
      anyValue bare fieldLevels
      pure f

def fields (bare : Bool) : Nat → Fields → Reader Fields
  | 0, _ => refuse
  | fuel + 1, f => do
    gap
    if ← accept ")" then pure f
    else
      let f ← field bare f
      if ← comma then fields bare fuel f
      else
        require ")"
        pure f

def structureName : String := "RuntimeConfig"

def optionalName : Reader Unit := do
  match ← peek? with
  | some c => if isWordPart c then do
      if (← word) ≠ structureName then refuse
  | none => pure ()

inductive Extension
  | unwrapNewtypes
  | implicitSome
  | unwrapVariantNewtypes
  deriving DecidableEq, Repr

def Extension.ofName? : String → Option Extension
  | "unwrap_newtypes" => some .unwrapNewtypes
  | "implicit_some" => some .implicitSome
  | "unwrap_variant_newtypes" => some .unwrapVariantNewtypes
  | _ => none

def extensions : Nat → Reader (List Extension)
  | 0 => refuse
  | fuel + 1 => do
    match Extension.ofName? (← word) with
    | none => refuse
    | some e =>
      if ← comma then
        if (← peek?) = some ')' then pure [e]
        else pure (e :: (← extensions fuel))
      else pure [e]

def attributes : Nat → Reader (List Extension)
  | 0 => refuse
  | fuel + 1 => do
    gap
    if (← peek?) = some '#' then
      discard any
      gap
      require "!"
      gap
      require "["
      gap
      if !(← acceptWord "enable") then refuse
      gap
      require "("
      gap
      let enabled ← extensions fuel
      gap
      require ")"
      gap
      require "]"
      pure (enabled ++ (← attributes fuel))
    else pure []

def document : Reader Settings := do
  let turns := (← get).length + 1
  let enabled ← attributes turns
  optionalName
  gap
  require "("
  let f ← fields (enabled.contains .implicitSome) turns {}
  gap
  if (← get).isEmpty then pure f.settings else refuse

def parse? (text : String) : Option Settings := (document text.toList).map (·.1)

end Settings

end Conduit
