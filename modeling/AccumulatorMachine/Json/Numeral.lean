import AccumulatorMachine.Decimal

/-!
# JSON Numerals

The numbers of a JSON text: a whole part without superfluous zeros, an optional fraction and
an optional exponent.

A numeral without fraction and exponent is an integer. Any other one stands for a floating
point number, of which this library needs to know only whether there is one: a numeral beyond
the range of double precision is refused. What is compared with that range is not the numeral
itself but the product a reader computes for it. The reader keeps as many leading digits as
fit into 64 bits, rounds them to a double, and multiplies that by the double next to the power
of ten that remains. `Numeral.inDoubleRange` is that rule in exact arithmetic.

## Main definitions

* `Json.Numeral`: The parts of a numeral.
* `Json.Numeral.scan`: The numeral at the front of a text.
* `Json.Numeral.integer?`: The integer that a numeral denotes, if it is one.
* `Json.Numeral.inDoubleRange`: Whether a numeral is within the range of doubles.

## Theorems

* `Json.Numeral.length_scan_lt`: What follows a numeral is shorter than the text.
-/

namespace AccumulatorMachine

namespace Json

/-- The parts of a numeral. A fraction that is written has at least one digit. -/
structure Numeral where
  negative : Bool
  /-- The digits before the point. -/
  whole : List Char
  /-- The digits after the point. -/
  fraction : List Char
  exponent : Option Int
  deriving DecidableEq, Repr

namespace Numeral

/-- What can be wrong with a numeral. -/
inductive Flaw where
  /-- The text ends where a digit has to follow. -/
  | cutOff
  /-- Another character stands where a digit has to follow, or a zero leads other digits. -/
  | malformed
  deriving DecidableEq, Repr

/-- The digits at the front of a text, of which there has to be one, and what follows them. -/
def digits : List Char → Except Flaw (List Char × List Char)
  | [] => .error .cutOff
  | c :: text =>
    if c.isDigit then .ok (c :: text.takeWhile Char.isDigit, text.dropWhile Char.isDigit)
    else .error .malformed

/-- The whole part: digits of which the first is zero only if it is the only one. -/
def wholePart (text : List Char) : Except Flaw (List Char × List Char) := do
  let (whole, rest) ← digits text
  if whole.head? = some '0' ∧ whole.length ≠ 1 then .error .malformed else .ok (whole, rest)

/-- The fraction: a point and digits, or nothing. -/
def fractionPart : List Char → Except Flaw (List Char × List Char)
  | '.' :: text => digits text
  | text => .ok ([], text)

/-- The digits of an exponent after its sign. -/
def exponentDigits (negative : Bool) (text : List Char) :
    Except Flaw (Option Int × List Char) := do
  let (exponent, rest) ← digits text
  let size : Int := Nat.ofDigitChars 10 exponent 0
  return (some (if negative then -size else size), rest)

/-- The exponent: the letter `e` in either case, an optional sign and digits, or nothing. -/
def exponentPart : List Char → Except Flaw (Option Int × List Char)
  | c :: text =>
    if c = 'e' ∨ c = 'E' then
      match text with
      | '+' :: text => exponentDigits false text
      | '-' :: text => exponentDigits true text
      | text => exponentDigits false text
    else .ok (none, c :: text)
  | [] => .ok (none, [])

/-- The numeral at the front of a text after its sign, and what follows it. -/
def unsigned (negative : Bool) (text : List Char) : Except Flaw (Numeral × List Char) := do
  let (whole, rest) ← wholePart text
  let (fraction, rest) ← fractionPart rest
  let (exponent, rest) ← exponentPart rest
  return (⟨negative, whole, fraction, exponent⟩, rest)

/-- The numeral at the front of a text, and what follows it. -/
def scan : List Char → Except Flaw (Numeral × List Char)
  | '-' :: text => unsigned true text
  | text => unsigned false text

/-- The integer that a numeral denotes. A numeral with a fraction or an exponent denotes none,
    and neither does a negative zero, which only a floating point number can be. -/
def integer? (numeral : Numeral) : Option Int :=
  let size := Nat.ofDigitChars 10 numeral.whole 0
  if numeral.fraction ≠ [] ∨ numeral.exponent.isSome ∨ (numeral.negative ∧ size = 0) then none
  else some (if numeral.negative then -(size : Int) else size)

/-- A natural number times a power of ten. -/
structure Scaled where
  significand : Nat
  exponent : Int
  deriving DecidableEq, Repr

/-- Takes the digits of the whole part as long as the significand fits into 64 bits. Every digit
    left out is a factor of ten. -/
def Scaled.absorbWhole : List Char → Scaled → Scaled
  | [], s => s
  | c :: text, s =>
    let significand := Nat.ofDigitChars 10 [c] s.significand
    if significand < Nat.pow 2 64 then absorbWhole text ⟨significand, s.exponent⟩
    else ⟨s.significand, s.exponent + (text.length + 1)⟩

/-- Takes the digits of the fraction as long as the significand fits into 64 bits. The digits
    left out are lost. -/
def Scaled.absorbFraction : List Char → Scaled → Scaled
  | [], s => s
  | c :: text, s =>
    let significand := Nat.ofDigitChars 10 [c] s.significand
    if significand < Nat.pow 2 64 then absorbFraction text ⟨significand, s.exponent - 1⟩ else s

/-- A numeral as the significand and the power of ten that a reader computes with. -/
def scaled (numeral : Numeral) : Scaled :=
  let s := Scaled.absorbFraction numeral.fraction (Scaled.absorbWhole numeral.whole ⟨0, 0⟩)
  ⟨s.significand, s.exponent + numeral.exponent.getD 0⟩

/-- The number with at most 53 significant bits that is next to `n`. A number halfway between
    two of them goes to the one whose last significant bit is zero. -/
def nearestDouble (n : Nat) : Nat :=
  -- The subtraction stops at zero, so a number that has no more than 53 bits keeps them all.
  let dropped := n.log2 + 1 - 53
  let unit := Nat.pow 2 dropped
  let below := n / unit
  if 2 * (n % unit) > unit ∨ (2 * (n % unit) = unit ∧ below % 2 = 1) then (below + 1) * unit
  else below * unit

/-- The least number that rounds to infinity rather than to a double. -/
def doubleOverflow : Nat := Nat.pow 2 1024 - Nat.pow 2 970

/-- The greatest power of ten that is in the range of doubles. -/
def greatestPower : Int := 308

/-- Whether the product that a reader computes for a numeral is within the range of doubles. -/
def inDoubleRange (numeral : Numeral) : Bool :=
  let s := numeral.scaled
  -- Zero times any power and a significand divided by any power are in range.
  s.significand = 0 || s.exponent < 0 ||
    (s.exponent ≤ greatestPower &&
      nearestDouble s.significand * nearestDouble (Nat.pow 10 s.exponent.toNat) < doubleOverflow)

theorem length_digits_lt {text digit rest : List Char} (h : digits text = .ok (digit, rest)) :
    rest.length < text.length := by
  cases text with
  | nil => simp [digits] at h
  | cons c text =>
    simp only [digits] at h
    split at h
    · simp only [Except.ok.injEq, Prod.mk.injEq] at h
      have shorter := (List.dropWhile_suffix (l := text) Char.isDigit).length_le
      simp only [List.length_cons, ← h.2]
      omega
    · simp at h

theorem length_fractionPart_le {text digit rest : List Char}
    (h : fractionPart text = .ok (digit, rest)) : rest.length ≤ text.length := by
  unfold fractionPart at h
  split at h
  · have shorter := length_digits_lt h
    simp only [List.length_cons]
    omega
  · simp only [Except.ok.injEq, Prod.mk.injEq] at h
    simp [h.2]

theorem length_exponentDigits_le {negative : Bool} {text rest : List Char} {exponent : Option Int}
    (h : exponentDigits negative text = .ok (exponent, rest)) : rest.length ≤ text.length := by
  unfold exponentDigits at h
  cases found : digits text with
  | error flaw => simp [found, bind, Except.bind] at h
  | ok pair =>
    obtain ⟨exponent, after⟩ := pair
    simp only [found, bind, Except.bind, pure, Except.pure, Except.ok.injEq, Prod.mk.injEq] at h
    have shorter := length_digits_lt found
    rw [← h.2]
    omega

theorem length_exponentPart_le {text rest : List Char} {exponent : Option Int}
    (h : exponentPart text = .ok (exponent, rest)) : rest.length ≤ text.length := by
  unfold exponentPart at h
  split at h
  · split at h
    · -- After the letter and the sign only digits are left.
      split at h <;>
        (have shorter := length_exponentDigits_le h; simp only [List.length_cons] at *; omega)
    · simp only [Except.ok.injEq, Prod.mk.injEq] at h
      simp [← h.2]
  · simp only [Except.ok.injEq, Prod.mk.injEq] at h
    simp [← h.2]

theorem length_unsigned_lt {negative : Bool} {text rest : List Char} {numeral : Numeral}
    (h : unsigned negative text = .ok (numeral, rest)) : rest.length < text.length := by
  unfold unsigned wholePart at h
  cases whole : digits text with
  | error flaw => simp [whole, bind, Except.bind] at h
  | ok first =>
    obtain ⟨digit, afterWhole⟩ := first
    simp only [whole, bind, Except.bind] at h
    split at h
    · simp at h
    · next first same =>
      split at same
      · simp at same
      simp only [Except.ok.injEq] at same
      subst same
      cases fraction : fractionPart afterWhole with
      | error flaw => simp [fraction] at h
      | ok second =>
        obtain ⟨fractionDigits, afterFraction⟩ := second
        simp only [fraction] at h
        cases exponent : exponentPart afterFraction with
        | error flaw => simp [exponent] at h
        | ok third =>
          obtain ⟨power, afterExponent⟩ := third
          simp only [exponent, pure, Except.pure, Except.ok.injEq, Prod.mk.injEq] at h
          -- The whole part takes a digit at least. What follows it may be empty.
          have one := length_digits_lt whole
          have two := length_fractionPart_le fraction
          have three := length_exponentPart_le exponent
          rw [← h.2]
          omega

theorem length_scan_lt {text rest : List Char} {numeral : Numeral}
    (h : scan text = .ok (numeral, rest)) : rest.length < text.length := by
  unfold scan at h
  split at h
  · have shorter := length_unsigned_lt h
    simp only [List.length_cons]
    omega
  · exact length_unsigned_lt h

end Numeral

end Json

end AccumulatorMachine
