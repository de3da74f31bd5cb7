import Statechart.Hex
import Statechart.Value

/-!
# Writing JSON text

* `Value.compact`: a value without blanks.
* `Value.pretty`: a value over several lines, two blanks deeper at every level.

Fields are written in the order in which the object lists them.
-/

namespace Statechart

namespace Json

/-- The characters that write a character inside a string. -/
def escape (c : Char) : List Char :=
  match c with
  | '"' => ['\\', '"']
  | '\\' => ['\\', '\\']
  | '\x08' => ['\\', 'b']
  | '\x0c' => ['\\', 'f']
  | '\n' => ['\\', 'n']
  | '\r' => ['\\', 'r']
  | '\t' => ['\\', 't']
  | c => if c.toNat < 0x20 then ['\\', 'u'] ++ Hex.digits 4 c.toNat else [c]

/-- A string between quotes. -/
def quote (s : String) : String :=
  String.ofList ('"' :: s.toList.flatMap escape ++ ['"'])

/-- The opening bracket of an object. -/
def openBrace : String := "\x7b"

/-- The closing bracket of an object. -/
def closeBrace : String := "\x7d"

/-- A new line, with the blanks of a level. -/
def newLine (level : Nat) : String := "\n" ++ String.ofList (List.replicate (2 * level) ' ')

end Json

namespace Value

open Json

mutual

/-- **A value without blanks.** -/
def compact : Value → String
  | .null => "null"
  | .bool true => "true"
  | .bool false => "false"
  | .number n => toString n
  | .string s => quote s
  | .array items => "[" ++ ",".intercalate (compactItems items) ++ "]"
  | .object fields => openBrace ++ ",".intercalate (compactFields fields) ++ closeBrace

/-- The items of an array. -/
def compactItems : List Value → List String
  | [] => []
  | item :: rest => compact item :: compactItems rest

/-- The fields of an object. -/
def compactFields : List (String × Value) → List String
  | [] => []
  | (key, value) :: rest => (quote key ++ ":" ++ compact value) :: compactFields rest

end

mutual

/-- A value over several lines, at a level. -/
def prettyAt (level : Nat) : Value → String
  | .array (item :: rest) =>
    "[" ++ newLine (level + 1) ++
      ("," ++ newLine (level + 1)).intercalate (prettyItems (level + 1) (item :: rest)) ++
      newLine level ++ "]"
  | .object (field :: rest) =>
    openBrace ++ newLine (level + 1) ++
      ("," ++ newLine (level + 1)).intercalate (prettyFields (level + 1) (field :: rest)) ++
      newLine level ++ closeBrace
  | .array [] => "[]"
  | .object [] => openBrace ++ closeBrace
  | .null => "null"
  | .bool true => "true"
  | .bool false => "false"
  | .number n => toString n
  | .string s => quote s

/-- The items of an array, each over several lines. -/
def prettyItems (level : Nat) : List Value → List String
  | [] => []
  | item :: rest => prettyAt level item :: prettyItems level rest

/-- The fields of an object, each over several lines. -/
def prettyFields (level : Nat) : List (String × Value) → List String
  | [] => []
  | (key, value) :: rest => (quote key ++ ": " ++ prettyAt level value) :: prettyFields level rest

end

/-- **A value over several lines.** -/
def pretty (value : Value) : String := prettyAt 0 value

end Value

end Statechart
