import AccumulatorMachine.Word

/-!
# Decimal Numerals

How numbers are written and read: without leading zeros and with a minus sign in
front when written, with an optional sign and any number of leading zeros when read.

Reading is over characters, since every reader of this library has its numeral as a
piece of a longer text. Only the ten ASCII digits are digits.

## Main definitions

* `Decimal.ofNat`, `Decimal.ofInt`: The numeral of a number.
* `Decimal.natural?`: The number that a run of digits denotes.
* `Decimal.word?`: The word that a numeral with an optional sign denotes.

## Theorems

* `Decimal.natural?_toDigits`: A written natural number reads back.
-/

namespace AccumulatorMachine

namespace Decimal

/-- The digits of a natural number, the most significant first. -/
def ofNat (n : Nat) : String := String.ofList (Nat.toDigits 10 n)

/-- The digits of an integer after a minus sign if it is negative. -/
def ofInt (n : Int) : String :=
  if n < 0 then "-" ++ ofNat n.natAbs else ofNat n.natAbs

/-- The number denoted by a non-empty run of digits. -/
def natural? (text : List Char) : Option Nat :=
  if text ≠ [] ∧ text.all Char.isDigit then some (Nat.ofDigitChars 10 text 0) else none

/-- The integer denoted by digits after at most one sign. -/
def integer? : List Char → Option Int
  | '-' :: text => (natural? text).map fun n => -(n : Int)
  | '+' :: text => (natural? text).map fun n => (n : Int)
  | text => (natural? text).map fun n => (n : Int)

/-- The word denoted by digits after at most one sign. A numeral whose value does not fit
    denotes none. -/
def word? (text : List Char) : Option Int :=
  (integer? text).bind Word.checked

theorem natural?_toDigits (n : Nat) : natural? (Nat.toDigits 10 n) = some n := by
  have digits : (Nat.toDigits 10 n).all Char.isDigit = true :=
    List.all_eq_true.mpr fun c hc => Nat.isDigit_of_mem_toDigits (by decide) (by decide) hc
  simp [natural?, Nat.toDigits_ne_nil, digits, Nat.ofDigitChars_ten_toDigits]

end Decimal

end AccumulatorMachine
