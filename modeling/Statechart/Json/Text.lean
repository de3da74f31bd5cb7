import Statechart.Hex

/-!
# The text of JSON

The lexical part of reading JSON text: blanks, words and strings, each a function from the
characters ahead to what was read and the characters after it, or to a `Fault`.

Two ways of reading are told apart. A value that is *wanted* is read in full: the escapes of a
string must denote characters. A value that is *skipped* is only followed to its end.
-/

namespace Statechart.Json

/-- **What is wrong with a text.** The first fault on the way from the start of the text counts. -/
inductive Fault where
  /-- The text is not JSON. -/
  | malformed
  /-- The text is JSON but does not describe what was asked for. -/
  | mismatch
  /-- The text ends too early. -/
  | truncated
  deriving DecidableEq, Inhabited

/-- The category under which a fault is reported. -/
def Fault.category : Fault → String
  | .malformed => "Syntax"
  | .mismatch => "Data"
  | .truncated => "Eof"

/-- Reading a part of a text: from the characters ahead to what was read and the characters after
it. -/
abbrev Scan (α : Type) := List Char → Except Fault (α × List Char)

/-- Whether a character may stand between the parts of a text. -/
def isBlank (c : Char) : Bool := c = ' ' || c = '\n' || c = '\t' || c = '\r'

/-- Whether a character may not stand in a string unescaped. -/
def isControl (c : Char) : Bool := c.toNat < 0x20

/-- The rest of a word, letter by letter. -/
def scanWord : List Char → Scan Unit
  | [], cs => .ok ((), cs)
  | _ :: _, [] => .error .truncated
  | letter :: letters, c :: cs => if c = letter then scanWord letters cs else .error .malformed

/-! ## Strings -/

/-- Four hexadecimal digits. -/
def scanHex : Scan Nat
  | a :: b :: c :: d :: rest =>
    match Hex.number? [a, b, c, d] with
    | some n => .ok (n, rest)
    | none => .error .malformed
  | cs => if (String.ofList cs).utf8ByteSize < 4 then .error .truncated else .error .malformed

/-- The character of a short escape. -/
def shortEscape? : Char → Option Char
  | '"' => some '"'
  | '\\' => some '\\'
  | '/' => some '/'
  | 'b' => some '\x08'
  | 'f' => some '\x0c'
  | 'n' => some '\n'
  | 'r' => some '\r'
  | 't' => some '\t'
  | _ => none

/-- Whether a code unit is the first half of a pair. -/
def isLeading (n : Nat) : Bool := 0xD800 ≤ n && n ≤ 0xDBFF

/-- Whether a code unit is the second half of a pair. -/
def isTrailing (n : Nat) : Bool := 0xDC00 ≤ n && n ≤ 0xDFFF

/-- The second half of a pair of code units whose first half was `leading`. -/
def scanTrailing (leading : Nat) : Scan Char
  | [] => .error .truncated
  | '\\' :: [] => .error .truncated
  | '\\' :: 'u' :: rest => do
    let (n, rest) ← scanHex rest
    if isTrailing n then
      .ok (Char.ofNat ((leading - 0xD800) * 0x400 + (n - 0xDC00) + 0x10000), rest)
    else .error .malformed
  | _ => .error .malformed

/-- What follows a backslash, in a string that is wanted. -/
def scanEscape : Scan Char
  | [] => .error .truncated
  | 'u' :: rest => do
    let (n, rest) ← scanHex rest
    if isTrailing n then .error .malformed
    else if isLeading n then scanTrailing n rest
    else .ok (Char.ofNat n, rest)
  | c :: rest =>
    match shortEscape? c with
    | some escaped => .ok (escaped, rest)
    | none => .error .malformed

/-- What follows a backslash, in a string that is skipped. -/
def skipEscape : Scan Char
  | [] => .error .truncated
  | 'u' :: rest => do
    let (_, rest) ← scanHex rest
    .ok ('u', rest)
  | c :: rest => if (shortEscape? c).isSome then .ok (c, rest) else .error .malformed

/-- The rest of a string after its opening quote, in at most as many steps as `allowance` has
characters. -/
def scanStringWithin (escape : Scan Char) :
    (allowance : List Char) → (read : List Char) → Scan (List Char)
  | _, read, '"' :: rest => .ok (read.reverse, rest)
  | _ :: allowance, read, '\\' :: rest =>
    match escape rest with
    | .ok (c, rest) => scanStringWithin escape allowance (c :: read) rest
    | .error fault => .error fault
  | _ :: allowance, read, c :: rest =>
    if isControl c then .error .malformed else scanStringWithin escape allowance (c :: read) rest
  | _, _, _ => .error .truncated

/-- **The rest of a string** that is wanted, after its opening quote. Every step passes at least one
of the characters ahead, so they are allowance enough. -/
def scanString : Scan String := fun cs => do
  let (chars, rest) ← scanStringWithin scanEscape cs [] cs
  .ok (String.ofList chars, rest)

/-- The rest of a string that is skipped, after its opening quote. -/
def skipString : Scan Unit := fun cs => do
  let (_, rest) ← scanStringWithin skipEscape cs [] cs
  .ok ((), rest)

end Statechart.Json
