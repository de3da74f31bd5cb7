import Statechart.Json.Text

/-!
# Numbers in JSON text

* `Decimal`: a significand and a power of ten, gathered digit by digit. There is room for
  significands below 2^64.
* `roundToDouble`, `Decimal.isOutOfRange`: the range of double precision, as arithmetic in double
  precision finds it.
* `scanNumeral`: a number that is wanted. It must be in that range.
* `skipNumeral`: a number that is skipped.
-/

namespace Statechart.Json

/-! ## Significands and powers of ten -/

/-- The number that digits continue, one at a time. -/
def continued (n : Nat) (digits : List Nat) : Nat := digits.foldl (fun n digit => 10 * n + digit) n

/-- **A significand and a power of ten.** It stands for `significand · 10 ^ exponent`. -/
structure Decimal where
  significand : Nat
  exponent : Int
  deriving DecidableEq, Inhabited

namespace Decimal

/-- Append the digits of a whole number. From the first one on for which there is no room, each only
counts as a factor of ten. -/
def appendWhole (d : Decimal) : List Nat → Decimal
  | [] => d
  | digit :: rest =>
    let longer := 10 * d.significand + digit
    if longer < Nat.pow 2 64 then appendWhole { d with significand := longer } rest
    else { d with exponent := d.exponent + (rest.length + 1) }

/-- Append the digits of a fraction. From the first one on for which there is no room, they are left
out. -/
def appendFraction (d : Decimal) : List Nat → Decimal
  | [] => d
  | digit :: rest =>
    let longer := 10 * d.significand + digit
    if longer < Nat.pow 2 64 then appendFraction ⟨longer, d.exponent - 1⟩ rest else d

/-- The whole number of some digits. -/
def ofWhole (digits : List Nat) : Decimal := appendWhole ⟨0, 0⟩ digits

end Decimal

/-! ## The range of double precision -/

/-- **Rounding to double precision**: the nearest number of 53 binary digits and zeros after them.
Of two that are equally near the one whose last digit is even counts. There is no largest one. -/
def roundToDouble (n : Nat) : Nat :=
  let unit := Nat.pow 2 (n.log2 + 1 - 53)
  let digits := n / unit
  let rest := n % unit
  if 2 * rest < unit ∨ (2 * rest = unit ∧ digits % 2 = 0) then digits * unit
  else (digits + 1) * unit

/-- **Whether a number is beyond the range of double precision**: the significand and the power of
ten are rounded, then their product is. A power of ten below one never leads out of the range. -/
def Decimal.isOutOfRange (d : Decimal) : Bool :=
  match d.significand, d.exponent with
  | 0, _ => false
  | _, .negSucc _ => false
  | n, .ofNat exponent =>
    308 < exponent ||
      Nat.pow 2 1024 ≤ roundToDouble (roundToDouble n * roundToDouble (Nat.pow 10 exponent))

/-! ## The parts of a number -/

/-- What a number in a text denotes. -/
inductive Numeral where
  /-- A whole number below 2^64. -/
  | natural (n : Nat)
  /-- The opposite of a whole number from 1 to 2^63. -/
  | negative (n : Nat)
  /-- Any other number; it is only known to be in the range of double precision. -/
  | real
  deriving DecidableEq, Inhabited

/-- The digits that stand ahead, and the characters after them. -/
def digitsAhead (cs : List Char) : List Nat × List Char :=
  ((cs.takeWhile Char.isDigit).map fun c => c.toNat - '0'.toNat, cs.dropWhile Char.isDigit)

/-- The digits of a whole number: a zero stands alone. -/
def scanWhole : Scan (List Nat)
  | [] => .error .truncated
  | '0' :: c :: rest => if c.isDigit then .error .malformed else .ok ([0], c :: rest)
  | '0' :: [] => .ok ([0], [])
  | c :: rest => if c.isDigit then .ok (digitsAhead (c :: rest)) else .error .malformed

/-- Digits of which there must be at least one. -/
def scanDigits : Scan (List Nat) := fun cs =>
  match digitsAhead cs with
  | ([], []) => .error .truncated
  | ([], _) => .error .malformed
  | (digits, rest) => .ok (digits, rest)

/-- The digits after the point, if there is one. -/
def scanFraction : Scan (Option (List Nat))
  | '.' :: rest => do
    let (digits, rest) ← scanDigits rest
    .ok (some digits, rest)
  | cs => .ok (none, cs)

/-- The characters after the sign of an exponent, and whether the sign was a minus. -/
def exponentSign : List Char → Bool × List Char
  | '+' :: rest => (false, rest)
  | '-' :: rest => (true, rest)
  | cs => (false, cs)

/-- The exponent, if there is one. -/
def scanExponent : Scan (Option Int)
  | c :: rest =>
    if c = 'e' ∨ c = 'E' then do
      let (isNegative, rest) := exponentSign rest
      let (digits, rest) ← scanDigits rest
      let n : Int := continued 0 digits
      .ok (some (if isNegative then -n else n), rest)
    else .ok (none, c :: rest)
  | [] => .ok (none, [])

/-! ## Numbers -/

/-- **A number** that is wanted, after its minus sign if it has one. -/
def scanNumeral (isNegative : Bool) : Scan Numeral := fun cs => do
  let (whole, cs) ← scanWhole cs
  let (fraction, cs) ← scanFraction cs
  let (exponent, cs) ← scanExponent cs
  let n := continued 0 whole
  if fraction.isNone ∧ exponent.isNone ∧ !isNegative ∧ n < Nat.pow 2 64 then
    .ok (.natural n, cs)
  else if fraction.isNone ∧ exponent.isNone ∧ isNegative ∧ 0 < n ∧ n ≤ Nat.pow 2 63 then
    .ok (.negative n, cs)
  else
    let d := (Decimal.ofWhole whole).appendFraction (fraction.getD [])
    if Decimal.isOutOfRange { d with exponent := d.exponent + exponent.getD 0 } then
      .error .malformed
    else .ok (.real, cs)

/-- Report every fault of a part as malformed. -/
def blame {α : Type} (scan : Scan α) : Scan α := fun cs =>
  match scan cs with
  | .ok result => .ok result
  | .error _ => .error .malformed

/-- A number that is skipped. It is malformed wherever a digit is missing. -/
def skipNumeral : Scan Unit := fun cs => do
  let (_, cs) ← blame scanWhole cs
  let (_, cs) ← blame scanFraction cs
  let (_, cs) ← blame scanExponent cs
  .ok ((), cs)

end Statechart.Json
