import Statechart.Hex

/-!
# Universally unique identifiers

A `Uuid` is a number of 128 bits, written as 32 hexadecimal digits in groups of 8, 4, 4, 4 and 12.

* `Uuid.text`: the canonical text, in lower case with hyphens.
* `Uuid.ofText?`: reads the canonical text, the text without hyphens, the text in braces and the
  text after `urn:uuid:`. Letters may be of either case, those of `urn:uuid:` too.
-/

namespace Statechart

/-- A number of 128 bits. -/
structure Uuid where
  value : Nat
  deriving DecidableEq, Inhabited

namespace Uuid

/-- The five groups of hexadecimal digits. -/
def groups (u : Uuid) : List (List Char) :=
  let all := Hex.digits 32 u.value
  [all.take 8, (all.drop 8).take 4, (all.drop 12).take 4, (all.drop 16).take 4, all.drop 20]

/-- The canonical text: five groups in lower case, joined by hyphens. -/
def text (u : Uuid) : String := "-".intercalate (u.groups.map String.ofList)

/-- The first group, enough to tell identities apart in a log. -/
def short (u : Uuid) : String := String.ofList ((Hex.digits 32 u.value).take 8)

/-- Reads 32 digits without hyphens. -/
def ofPlain? (cs : List Char) : Option Uuid :=
  if cs.length = 32 then (Hex.number? cs).map Uuid.mk else none

/-- Reads five groups of digits between hyphens. -/
def ofHyphenated? (cs : List Char) : Option Uuid :=
  let hyphens := [cs[8]?, cs[13]?, cs[18]?, cs[23]?]
  if cs.length = 36 ∧ hyphens.all (· == some '-') then
    ofPlain? (cs.take 8 ++ (cs.drop 9).take 4 ++ (cs.drop 14).take 4 ++ (cs.drop 19).take 4 ++
      cs.drop 24)
  else none

/-- Reads any of the four written forms. -/
def ofText? (text : String) : Option Uuid :=
  let cs := text.toList
  if cs.length = 32 then ofPlain? cs
  else if cs.length = 36 then ofHyphenated? cs
  else if cs.length = 38 ∧ cs.head? = some '\x7b' ∧ cs.getLast? = some '\x7d' then
    ofHyphenated? (cs.drop 1).dropLast
  else if cs.length = 45 ∧ (cs.take 9).map Char.toLower = "urn:uuid:".toList then
    ofHyphenated? (cs.drop 9)
  else none

end Uuid

end Statechart
