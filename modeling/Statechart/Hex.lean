/-!
# Hexadecimal digits

* `Hex.number?`: the number that digits of either case write.
* `Hex.digits`: the last digits of a number, in lower case.
-/

namespace Statechart.Hex

/-- The value of a hexadecimal digit. -/
def digit? (c : Char) : Option Nat :=
  if '0' ≤ c ∧ c ≤ '9' then some (c.toNat - '0'.toNat)
  else if 'a' ≤ c ∧ c ≤ 'f' then some (c.toNat - 'a'.toNat + 10)
  else if 'A' ≤ c ∧ c ≤ 'F' then some (c.toNat - 'A'.toNat + 10)
  else none

/-- The number that hexadecimal digits write, most significant first. -/
def number? (digits : List Char) : Option Nat :=
  digits.foldl (fun acc c => acc.bind fun n => (digit? c).map (16 * n + ·)) (some 0)

/-- The last `count` hexadecimal digits of a number, in lower case. -/
def digits : Nat → Nat → List Char
  | 0, _ => []
  | count + 1, n => digits count (n / 16) ++ [Nat.digitChar (n % 16)]

end Statechart.Hex
