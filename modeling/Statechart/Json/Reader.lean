import Statechart.Json.Numeral
import Statechart.Json.Printer

/-!
# Typed readers of JSON text

A `Reader α` reads a value of type `α` directly from the characters of a text, so the first fault on
the way counts, be it in the text or in what the text describes.

* `Reader.string`, `Reader.flag`, `Reader.count`: scalars.
* `Reader.optional`, `Reader.list`, `Reader.table`: values made of others.
* `Reader.choice`: one of several variants, by name.
* `Reader.record`: named fields in any order, or the values of the fields in order as an array.
* `Reader.ignored`: any value, skipped.
* `Reader.value`: any value without fractions.

A reader carries the number of arrays and objects that may still be entered. Values that are read
may be nested up to `nestingLimit`; values that are skipped may be nested without limit.
-/

namespace Statechart.Json

/-- How many arrays and objects may stand around a value, and one more. -/
def nestingLimit : Nat := 128

/-- **A typed reader**: it knows how deep it may go and consumes characters. -/
abbrev Reader (α : Type) := ReaderT Nat (StateT (List Char) (Except Fault)) α

namespace Reader

variable {α σ : Type}

/-- A scanner as a reader. -/
def ofScan (scan : Scan α) : Reader α := fun _ cs => scan cs

/-- Skip blanks and look at the character ahead. -/
def look : Reader (Option Char) := fun _ cs =>
  let cs := cs.dropWhile isBlank
  .ok (cs.head?, cs)

/-- Pass the character ahead. -/
def pass : Reader Unit := fun _ cs => .ok ((), cs.drop 1)

/-- Read inside an array or object. -/
def inside (r : Reader α) : Reader α := fun depth cs =>
  if depth ≤ 1 then .error .malformed else r (depth - 1) cs

/-- The characters ahead. A loop in which every step passes one takes at most as many steps. -/
def ahead : Reader (List Char) := fun _ cs => .ok (cs, cs)

/-- Refuse the value ahead. A scalar is read in full first, for it may have a fault of its own. -/
def refuse : Reader α := do
  match ← look with
  | none => throw .truncated
  | some 'n' => pass; ofScan (scanWord "ull".toList); throw .mismatch
  | some 't' => pass; ofScan (scanWord "rue".toList); throw .mismatch
  | some 'f' => pass; ofScan (scanWord "alse".toList); throw .mismatch
  | some '-' => pass; discard <| ofScan (scanNumeral true); throw .mismatch
  | some '"' => pass; discard <| ofScan scanString; throw .mismatch
  | some '[' => throw .mismatch
  | some '\x7b' => throw .mismatch
  | some c =>
    if c.isDigit then
      discard <| ofScan (scanNumeral false)
      throw .mismatch
    else throw .malformed

/-! ## Scalars -/

/-- A string. -/
def string : Reader String := do
  match ← look with
  | some '"' => pass; ofScan scanString
  | _ => refuse

/-- `true` or `false`. -/
def flag : Reader Bool := do
  match ← look with
  | some 't' => pass; ofScan (scanWord "rue".toList); return true
  | some 'f' => pass; ofScan (scanWord "alse".toList); return false
  | _ => refuse

/-- A whole number below 2^64. -/
def count : Reader Nat := do
  match ← look with
  | some '-' => refuse
  | some c =>
    if c.isDigit then
      match ← ofScan (scanNumeral false) with
      | .natural n => return n
      | _ => throw .mismatch
    else refuse
  | none => refuse

/-- `null`. -/
def null : Reader Unit := do
  match ← look with
  | some 'n' => pass; ofScan (scanWord "ull".toList)
  | _ => refuse

/-- A value or `null`. -/
def optional (r : Reader α) : Reader (Option α) := do
  match ← look with
  | some 'n' => pass; ofScan (scanWord "ull".toList); return none
  | _ => return some (← r)

/-! ## Arrays and objects -/

/-- The colon between a key and its value. -/
def colon : Reader Unit := do
  match ← look with
  | some ':' => pass
  | some _ => throw .malformed
  | none => throw .truncated

/-- Whether another item of an array follows. A comma stands before every item but the first. -/
def hasItem (isFirst : Bool) : Reader Bool := do
  match ← look with
  | none => throw .truncated
  | some ']' => return false
  | some c =>
    if isFirst then return true
    else if c = ',' then
      pass
      match ← look with
      | none => throw .truncated
      | some ']' => throw .malformed
      | some _ => return true
    else throw .malformed

/-- The key of the next field of an object, if another one follows. -/
def key? (isFirst : Bool) : Reader (Option String) := do
  match ← look with
  | none => throw .truncated
  | some '\x7d' => return none
  | some '"' => if isFirst then pass; return some (← ofScan scanString) else throw .malformed
  | some c =>
    if !isFirst && c = ',' then
      pass
      match ← look with
      | none => throw .truncated
      | some '"' => pass; return some (← ofScan scanString)
      | some _ => throw .malformed
    else throw .malformed

/-- The end of an array. -/
def endList : Reader Unit := do
  match ← look with
  | some ']' => pass
  | some _ => throw .malformed
  | none => throw .truncated

/-- The end of an object. -/
def endTable : Reader Unit := do
  match ← look with
  | some '\x7d' => pass
  | some _ => throw .malformed
  | none => throw .truncated

/-- The remaining items of an array, fewer than `allowance` has characters. -/
def items (r : Reader α) : (allowance : List Char) → Bool → Reader (List α)
  | [], _ => throw .truncated
  | _ :: allowance, isFirst => do
    if ← hasItem isFirst then
      let item ← r
      return item :: (← items r allowance false)
    else return []

/-- The remaining fields of an object, fewer than `allowance` has characters, folded into a state.
-/
def fields (step : σ → String → Reader σ) : (allowance : List Char) → Bool → σ → Reader σ
  | [], _, _ => throw .truncated
  | _ :: allowance, isFirst, state => do
    match ← key? isFirst with
    | none => return state
    | some key => fields step allowance false (← step state key)

/-- An array. -/
def list (r : Reader α) : Reader (List α) := do
  match ← look with
  | some '[' =>
    pass
    let result ← inside (do items r (← ahead) true)
    endList
    return result
  | _ => refuse

/-- An object, its fields folded into a state. -/
def fold (step : σ → String → Reader σ) (start : σ) : Reader σ := do
  match ← look with
  | some '\x7b' =>
    pass
    let result ← inside (do fields step (← ahead) true start)
    endTable
    return result
  | _ => refuse

/-- An object whose values are all of one type, in order. -/
def table (r : Reader α) : Reader (List (String × α)) := do
  -- The last field comes first until all are there.
  let entries ← fold (fun entries key => do
    colon
    return (key, ← r) :: entries) []
  return entries.reverse

/-! ## Skipped values -/

/-- Skip a scalar, or enter an array or object: the result says which one. -/
def skipStart : Reader (Option Char) := do
  match ← look with
  | none => throw .truncated
  | some 'n' => pass; ofScan (scanWord "ull".toList); return none
  | some 't' => pass; ofScan (scanWord "rue".toList); return none
  | some 'f' => pass; ofScan (scanWord "alse".toList); return none
  | some '-' => pass; ofScan skipNumeral; return none
  | some '"' => pass; ofScan skipString; return none
  | some '[' => pass; return some '['
  | some '\x7b' => pass; return some '\x7b'
  | some c => if c.isDigit then ofScan skipNumeral; return none else throw .malformed

/-- Skip the key of a field, with its colon. -/
def skipKey : Reader Unit := do
  match ← look with
  | some '"' => pass; ofScan skipString; colon
  | some _ => throw .malformed
  | none => throw .truncated

/-- Leave every array and object that ends here, given the innermost one first, and pass the comma
before the next item. The result is the stack of those that are still open. -/
def skipEnds : List Char → Bool → Reader (List Char)
  | [], _ => return []
  | frame :: outer, mayContinue => do
    match ← look with
    | none => throw .truncated
    | some c =>
      if c = ',' ∧ mayContinue = true then
        pass
        return frame :: outer
      else if (c = ']' ∧ frame = '[') ∨ (c = '\x7d' ∧ frame = '\x7b') then
        pass
        skipEnds outer true
      else if mayContinue then throw .malformed
      else return frame :: outer

/-- Skip values until every array and object of the stack is closed, in at most as many steps as
`allowance` has characters. -/
def skipWithin : (allowance : List Char) → List Char → Reader Unit
  | [], _ => throw .truncated
  | _ :: allowance, stack => do
    let stack ← match ← skipStart with
      | some frame => skipEnds (frame :: stack) false
      | none => skipEnds stack true
    match stack with
    | [] => return ()
    | frame :: outer =>
      if frame = '\x7b' then skipKey
      skipWithin allowance (frame :: outer)

/-- **Any value**, skipped. -/
def ignored : Reader Unit := do skipWithin (← ahead) []

/-! ## Variants -/

/-- What follows the name of a variant. -/
inductive Variant (α : Type) where
  /-- Nothing: the name stands alone, or before `null`. -/
  | plain (result : α)
  /-- A value: the name stands before it. -/
  | carrying (r : Reader α)

/-- The variant of a name. -/
def variant (variants : List (String × Variant α)) : Reader (Variant α) := do
  match variants.lookup (← string) with
  | some v => return v
  | none => throw .mismatch

/-- **One of several variants**: the name of one that carries nothing, or an object whose only field
has the name of the variant for its key. -/
def choice (variants : List (String × Variant α)) : Reader α := do
  match ← look with
  | some '"' =>
    match ← variant variants with
    | .plain result => return result
    | .carrying _ => throw .mismatch
  | some '\x7b' =>
    pass
    let result ← inside do
      match ← look with
      | some '"' =>
        let v ← variant variants
        colon
        match v with
        | .plain result => null; return result
        | .carrying r => r
      | some _ => throw .malformed
      | none => throw .truncated
    endTable
    return result
  | some _ => throw .malformed
  | none => throw .truncated

/-- A choice of variants that carry nothing. -/
def name (names : List (String × α)) : Reader α :=
  choice (names.map fun (text, result) => (text, .plain result))

/-! ## Records -/

/-- A field of a record: its key, and a reader for its value that stores it. -/
structure Field (σ : Type) where
  key : String
  store : Reader (σ → σ)

/-- A field whose value is stored by `put`. -/
def Field.of (key : String) (r : Reader α) (put : α → σ → σ) : Field σ := ⟨key, put <$> r⟩

/-- Store the next field of an object; a key that came before is a mismatch, and an unknown one is
passed over. -/
def storeField (known : List (Field σ)) (state : List String × σ) (key : String) :
    Reader (List String × σ) := do
  match known.find? (·.key == key) with
  | none =>
    colon
    ignored
    return state
  | some field =>
    -- The second occurrence is refused before its value is looked at.
    if key ∈ state.1 then throw .mismatch
    colon
    return (key :: state.1, (← field.store) state.2)

/-- Store the items of an array in the fields in order. If `mayStop`, the last ones may be missing.
-/
def storeItems (mayStop : Bool) : List (Field σ) → Bool → σ → Reader σ
  | [], _, state => return state
  | field :: rest, isFirst, state => do
    if ← hasItem isFirst then storeItems mayStop rest false ((← field.store) state)
    else if mayStop then return state
    else throw .mismatch

/-- **A record**, as an object or as the array of its values. Reading begins with `start`;
`finish` checks what was stored, and fails if a field is missing that must be there. In an array the
last fields may be missing if `mayStop`. -/
def record {τ : Type} (known : List (Field σ)) (mayStop : Bool) (start : σ)
    (finish : σ → Option τ) : Reader τ := do
  let checked (state : σ) : Reader τ :=
    match finish state with
    | some result => return result
    | none => throw .mismatch
  match ← look with
  | some '[' =>
    pass
    let result ← inside do checked (← storeItems mayStop known true start)
    endList
    return result
  | some '\x7b' =>
    pass
    let result ← inside do checked (← fields (storeField known) (← ahead) true ([], start)).2
    endTable
    return result
  | _ => refuse

/-! ## Whole texts -/

/-- A value without fractions, nested at most `bound` deep. -/
def valueWithin : Nat → Reader Value
  | 0 => throw .malformed
  | bound + 1 => do
    match ← look with
    | some 'n' => pass; ofScan (scanWord "ull".toList); return .null
    | some 't' => pass; ofScan (scanWord "rue".toList); return .bool true
    | some 'f' => pass; ofScan (scanWord "alse".toList); return .bool false
    | some '"' => pass; return .string (← ofScan scanString)
    | some '[' => return .array (← list (valueWithin bound))
    | some '\x7b' => return Value.ofFields (← table (valueWithin bound))
    | some '-' =>
      pass
      match ← ofScan (scanNumeral true) with
      | .negative n => return .number (-n)
      | _ => throw .mismatch
    | _ => return .number (← count)

/-- **A value without fractions.** -/
def value : Reader Value := do valueWithin (← read)

/-- Any value; the result is its text if it is a string. -/
def textWithin : Nat → Reader (Option String)
  | 0 => throw .malformed
  | bound + 1 => do
    match ← look with
    | some 'n' => pass; ofScan (scanWord "ull".toList); return none
    | some 't' => pass; ofScan (scanWord "rue".toList); return none
    | some 'f' => pass; ofScan (scanWord "alse".toList); return none
    | some '"' => pass; return some (← ofScan scanString)
    | some '[' => discard <| list (textWithin bound); return none
    | some '\x7b' => discard <| table (textWithin bound); return none
    | some '-' => pass; discard <| ofScan (scanNumeral true); return none
    | some c =>
      if c.isDigit then
        discard <| ofScan (scanNumeral false)
        return none
      else throw .malformed
    | none => throw .truncated

/-- Any value, read in full; the result is its text if it is a string. -/
def text? : Reader (Option String) := do textWithin (← read)

/-- A value after which only blanks may follow. -/
def whole {α : Type} (r : Reader α) : Reader α := do
  let result ← r
  match ← look with
  | none => return result
  | some _ => throw .malformed

end Reader

/-- **Read a whole text**, with values nested less than `nesting` deep. -/
def parseWith {α : Type} (r : Reader α) (nesting : Nat) (text : String) : Except Fault α :=
  (r.whole nesting text.toList).map Prod.fst

/-- Read a whole text with the usual limit on nesting. -/
def parse {α : Type} (r : Reader α) (text : String) : Except Fault α :=
  parseWith r nestingLimit text

/-- Read a value that is there already. Its text is JSON, so it can only fail to describe what is
asked for. -/
def parseValue {α : Type} (r : Reader α) (value : Value) : Except Fault α :=
  (parse r value.compact).mapError fun _ => .mismatch

end Statechart.Json
