import AccumulatorMachine.Json.Lexeme

/-!
# Written JSON

What the lexemes of a written text are, piece by piece.

Two kinds of piece are ever written apart from brackets, separators and white space: decimal
numerals and texts between quotes. For each of them there is one equation here that reads it
off the front of a text and leaves the lexemes of what follows. A text between quotes is one
lexeme if it is plain, which is to say that nothing in it has to be escaped. A numeral is one
lexeme if what follows cannot prolong it.

The numeral is the piece with an argument in it. A reader does not take the digits at their
word: it refuses a leading zero, it never takes a zero with a sign for an integer, and it
refuses what rounds beyond the doubles even where it goes on to keep the digits. None of this
touches a number that is written from a machine word.

## Main definitions

* `Json.Plain`: A text that stands for itself between quotes.
* `Json.EndsNumeral`: A text that does not prolong a numeral in front of it.
* `Json.Numeral.ofInt`: The parts of a written integer.

## Theorems

* `Json.Numeral.scan_ofInt`: The numeral in front of a text that ends it.
* `Json.Numeral.inDoubleRange_ofInt`: A written word is in the range of doubles.
* `Json.lexemes_ofInt`: A written word is the lexeme of that word.
* `Json.lexemes_quoted`: A plain text in quotes is the lexeme of that text.
-/

namespace AccumulatorMachine

namespace Decimal

theorem toList_ofInt (n : Int) :
    (ofInt n).toList = (if n < 0 then ['-'] else []) ++ Nat.toDigits 10 n.natAbs := by
  unfold ofInt ofNat
  split <;> simp

theorem isDigit_of_mem_digits {n : Nat} {c : Char} (h : c ∈ Nat.toDigits 10 n) :
    c.isDigit = true :=
  Nat.isDigit_of_mem_toDigits (by decide) (by decide) h

theorem printable_ofInt (n : Int) : ∀ c ∈ (ofInt n).toList, 0x20 ≤ c.toNat := by
  have hdigits : ∀ c ∈ Nat.toDigits 10 n.natAbs, 0x20 ≤ c.toNat := fun c hc =>
    Nat.le_trans (by decide) (Char.isDigit_iff_toNat.mp (isDigit_of_mem_digits hc)).1
  intro c hc
  rw [toList_ofInt, List.mem_append] at hc
  rcases hc with hsign | hdigit
  · split at hsign
    · obtain rfl := List.mem_singleton.mp hsign
      decide
    · cases hsign
  · exact hdigits c hdigit

/-- Only the numeral of zero starts with the digit zero. -/
theorem eq_zero_of_head_digits {n : Nat} (h : (Nat.toDigits 10 n).head? = some '0') : n = 0 := by
  induction n using Nat.strongRecOn with
  | ind n ih =>
    by_cases small : n < 10
    · rw [Nat.toDigits_of_lt_base small] at h
      exact Nat.digitChar_eq_zero.mp (by simpa using h)
    · -- A longer numeral starts like the numeral of its tenth part, which is not zero.
      have hshorter : (Nat.toDigits 10 (n / 10)).head? = some '0' := by
        rw [Nat.toDigits_of_base_le (by decide) (by omega), List.head?_append] at h
        cases hwritten : Nat.toDigits 10 (n / 10) with
        | nil => exact absurd hwritten Nat.toDigits_ne_nil
        | cons c written => simpa [hwritten] using h
      have := ih (n / 10) (by omega) hshorter
      omega

end Decimal

namespace Json

/-- A text that does not prolong a numeral in front of it. -/
def EndsNumeral (text : List Char) : Prop :=
  ∀ c ∈ text.head?, c.isDigit = false ∧ c ≠ '.' ∧ c ≠ 'e' ∧ c ≠ 'E'

namespace Numeral

/-- The parts of a written integer. -/
def ofInt (n : Int) : Numeral := ⟨decide (n < 0), Nat.toDigits 10 n.natAbs, [], none⟩

theorem digits_toDigits (n : Nat) {rest : List Char} (hrest : EndsNumeral rest) :
    digits (Nat.toDigits 10 n ++ rest) = .ok (Nat.toDigits 10 n, rest) := by
  have hstop : rest.takeWhile Char.isDigit = [] ∧ rest.dropWhile Char.isDigit = rest := by
    cases rest with
    | nil => simp
    | cons c rest => simp [(hrest c (by simp)).1]
  have hdigits : ∀ c ∈ Nat.toDigits 10 n, c.isDigit = true :=
    fun c hc => Decimal.isDigit_of_mem_digits hc
  cases hwritten : Nat.toDigits 10 n with
  | nil => exact absurd hwritten Nat.toDigits_ne_nil
  | cons c written =>
    rw [hwritten] at hdigits
    have hwhole : ∀ d ∈ written, d.isDigit = true := fun d hd => hdigits d (.tail c hd)
    simp only [List.cons_append, digits, hdigits c (.head _), if_true,
      List.takeWhile_append_of_pos hwhole, List.dropWhile_append_of_pos hwhole, hstop.1, hstop.2,
      List.append_nil]

theorem unsigned_toDigits (negative : Bool) (n : Nat) {rest : List Char}
    (hrest : EndsNumeral rest) :
    unsigned negative (Nat.toDigits 10 n ++ rest)
      = .ok (⟨negative, Nat.toDigits 10 n, [], none⟩, rest) := by
  -- A numeral with more than one digit does not begin with zero.
  have hzero : ¬ ((Nat.toDigits 10 n).head? = some '0' ∧ (Nat.toDigits 10 n).length ≠ 1) := by
    rintro ⟨hhead, hlong⟩
    rw [Decimal.eq_zero_of_head_digits hhead] at hlong
    exact hlong rfl
  have hwhole : wholePart (Nat.toDigits 10 n ++ rest) = .ok (Nat.toDigits 10 n, rest) := by
    unfold wholePart
    rw [digits_toDigits n hrest]
    exact if_neg hzero
  have hfraction : fractionPart rest = .ok ([], rest) := by
    unfold fractionPart
    split
    · exact absurd rfl (hrest '.' (by simp)).2.1
    · rfl
  have hexponent : exponentPart rest = .ok (none, rest) := by
    unfold exponentPart
    split
    · next c text =>
      obtain ⟨-, -, hlower, hupper⟩ := hrest c (by simp)
      exact if_neg (not_or.mpr ⟨hlower, hupper⟩)
    · rfl
  unfold unsigned
  rw [hwhole]
  simp only [bind, Except.bind, hfraction, hexponent, pure, Except.pure]

/-- The numeral in front of a text that ends it. -/
theorem scan_ofInt (n : Int) {rest : List Char} (hrest : EndsNumeral rest) :
    scan ((Decimal.ofInt n).toList ++ rest) = .ok (ofInt n, rest) := by
  rw [Decimal.toList_ofInt]
  by_cases hn : n < 0
  · simpa [hn, scan, ofInt] using unsigned_toDigits true n.natAbs hrest
  · have hunsigned := unsigned_toDigits false n.natAbs hrest
    simp only [hn, if_false, List.nil_append, ofInt, decide_false]
    rw [← hunsigned]
    -- No digit is a minus sign.
    cases hwritten : Nat.toDigits 10 n.natAbs with
    | nil => exact absurd hwritten Nat.toDigits_ne_nil
    | cons c written =>
      have hdigit : c.isDigit = true := Decimal.isDigit_of_mem_digits (by rw [hwritten]; simp)
      have hsign : c ≠ '-' := by
        rintro rfl
        exact absurd hdigit (by decide)
      simp [scan, hsign]

theorem integer?_ofInt (n : Int) : (ofInt n).integer? = some n := by
  have hsize : Nat.ofDigitChars 10 (Nat.toDigits 10 n.natAbs) 0 = n.natAbs :=
    Nat.ofDigitChars_ten_toDigits
  -- A minus sign is written for a negative number only, so never in front of a zero.
  have hplain : ¬ (([] : List Char) ≠ [] ∨ (none : Option Int).isSome = true
      ∨ (decide (n < 0) = true ∧ n.natAbs = 0)) := by
    simp only [ne_eq, not_true_eq_false, Option.isSome_none, Bool.false_eq_true, false_or,
      decide_eq_true_eq]
    omega
  simp only [integer?, ofInt, hsize, if_neg hplain]
  by_cases hn : n < 0
  · simp only [hn, decide_true, if_true, Option.some.injEq]
    omega
  · simp only [hn, decide_false, Bool.false_eq_true, if_false, Option.some.injEq]
    omega

/-- Digits that fit into 64 bits are all kept. -/
theorem absorbWhole_of_lt (text : List Char) (s : Scaled)
    (h : Nat.ofDigitChars 10 text s.significand < Nat.pow 2 64) :
    Scaled.absorbWhole text s = ⟨Nat.ofDigitChars 10 text s.significand, s.exponent⟩ := by
  induction text generalizing s with
  | nil => rfl
  | cons c text ih =>
    have hsplit : Nat.ofDigitChars 10 (c :: text) s.significand
        = Nat.ofDigitChars 10 text (Nat.ofDigitChars 10 [c] s.significand) := by
      simp [Nat.ofDigitChars_cons]
    rw [hsplit] at h ⊢
    -- The digits that follow only make the number greater.
    have hfits : Nat.ofDigitChars 10 [c] s.significand < Nat.pow 2 64 := by
      rw [Nat.ofDigitChars_eq_ofDigitChars_zero] at h
      have hpower := Nat.le_mul_of_pos_left (Nat.ofDigitChars 10 [c] s.significand)
        (Nat.pow_pos (by decide) : 0 < 10 ^ text.length)
      omega
    simp only [Scaled.absorbWhole, hfits, if_true]
    exact ih _ h

/-- Rounding to the next double does not double a number. -/
theorem nearestDouble_le (n : Nat) : nearestDouble n ≤ 2 * n := by
  by_cases hn : n = 0
  · subst hn
    decide
  have hunit : Nat.pow 2 (n.log2 + 1 - 53) ≤ n :=
    Nat.le_trans (Nat.pow_le_pow_right (by decide) (by omega)) (Nat.log2_self_le hn)
  have hbelow := Nat.div_mul_le_self n (Nat.pow 2 (n.log2 + 1 - 53))
  simp only [nearestDouble]
  split
  · rw [Nat.succ_mul]
    omega
  · omega

/-- A written word is in the range of doubles. -/
theorem inDoubleRange_ofInt {n : Int} (hn : Word.InRange n) : (ofInt n).inDoubleRange = true := by
  obtain ⟨hlow, hhigh⟩ := hn
  simp only [Word.minimum, Word.maximum] at hlow hhigh
  have hsize : Nat.ofDigitChars 10 (Nat.toDigits 10 n.natAbs) 0 = n.natAbs :=
    Nat.ofDigitChars_ten_toDigits
  have hlimit : Nat.pow 2 64 = 18446744073709551616 := rfl
  have hscaled : (ofInt n).scaled = ⟨n.natAbs, 0⟩ := by
    have hwhole := absorbWhole_of_lt (Nat.toDigits 10 n.natAbs) ⟨0, 0⟩
      (by rw [hsize, hlimit]; omega)
    simp only [scaled, ofInt, hwhole, Scaled.absorbFraction, hsize]
    rfl
  have hone : nearestDouble (Nat.pow 10 (0 : Int).toNat) = 1 := by decide
  have hround := nearestDouble_le n.natAbs
  have hbound : nearestDouble n.natAbs < 36893488147419103232 := by omega
  have hoverflow : 36893488147419103232 ≤ doubleOverflow := by decide +kernel
  simp only [inDoubleRange, hscaled, hone, Nat.mul_one, Bool.or_eq_true, Bool.and_eq_true,
    decide_eq_true_eq]
  exact .inr ⟨by decide, Nat.lt_of_lt_of_le hbound hoverflow⟩

end Numeral

/-- A text that stands for itself between quotes. -/
def Plain (text : List Char) : Prop := ∀ c ∈ text, c ≠ '"' ∧ c ≠ '\\' ∧ 0x20 ≤ c.toNat

instance (text : List Char) : Decidable (Plain text) :=
  List.decidableBAll (fun c => c ≠ '"' ∧ c ≠ '\\' ∧ 0x20 ≤ c.toNat) text

/-- A plain text is taken character by character, and what follows it is scanned as it is. -/
theorem scanString_plain {text : List Char} (h : Plain text) (rest : List Char) :
    scanString (text ++ rest) = (text.map .char ++ (scanString rest).1, (scanString rest).2) := by
  induction text with
  | nil => rfl
  | cons c text ih =>
    obtain ⟨hquote, hslash, hprintable⟩ := h c (.head _)
    have hrest := ih fun d hd => h d (.tail c hd)
    rw [List.cons_append, scanString]
    · simp only [Nat.not_lt.mpr hprintable, if_false, hrest, List.map_cons, List.cons_append]
    · exact hquote
    · exact hslash

theorem joinPieces_chars (stop : Except Problem (List Char)) (text : List Char) :
    joinPieces stop (text.map .char) = stop.map fun _ => text := by
  induction text with
  | nil => rfl
  | cons c text ih =>
    rw [List.map_cons, joinPieces, ih]
    cases stop <;> rfl

/-- A lexeme that leaves a rest starts the list. -/
theorem lexemes_cons {c : Char} {text rest : List Char} {lexeme : Lexeme}
    (hspace : isSpace c = false) (h : Lexeme.first c text = (lexeme, some rest)) :
    lexemes (c :: text) = lexeme :: lexemes rest := by
  rw [lexemes, hspace]
  simp only [Bool.false_eq_true, if_false]
  split
  · next hfirst =>
    rw [h] at hfirst
    cases hfirst
    rfl
  · next hfirst =>
    rw [h] at hfirst
    cases hfirst

/-- A lexeme that leaves no rest is the last one. -/
theorem lexemes_last {c : Char} {text : List Char} {lexeme : Lexeme}
    (hspace : isSpace c = false) (h : Lexeme.first c text = (lexeme, none)) :
    lexemes (c :: text) = [lexeme] := by
  rw [lexemes, hspace]
  simp only [Bool.false_eq_true, if_false]
  split
  · next hfirst =>
    rw [h] at hfirst
    cases hfirst
  · next hfirst =>
    rw [h] at hfirst
    cases hfirst
    rfl

@[simp] theorem lexemes_nil : lexemes [] = [] := by
  rw [lexemes]

theorem lexemes_openObject (text : List Char) :
    lexemes ('\x7b' :: text) = .openObject :: lexemes text :=
  lexemes_cons rfl rfl

theorem lexemes_closeObject (text : List Char) :
    lexemes ('\x7d' :: text) = .closeObject :: lexemes text :=
  lexemes_cons rfl rfl

theorem lexemes_colon (text : List Char) :
    lexemes (':' :: text) = .colon :: lexemes text :=
  lexemes_cons rfl rfl

theorem lexemes_comma (text : List Char) :
    lexemes (',' :: text) = .comma :: lexemes text :=
  lexemes_cons rfl rfl

/-- A plain text in quotes is the lexeme of that text. -/
theorem lexemes_quoted {text : List Char} (h : Plain text) (rest : List Char) :
    lexemes ('"' :: (text ++ '"' :: rest))
      = .string (.ok (String.ofList text)) (.ok ()) :: lexemes rest := by
  refine lexemes_cons rfl ?_
  show Lexeme.ofString _ = _
  simp only [Lexeme.ofString, scanString_plain h, scanString, List.append_nil, joinPieces_chars]
  rfl

/-- A sign or a digit starts a number. -/
theorem first_of_numeral {c : Char} (h : c = '-' ∨ c.isDigit = true) (text : List Char) :
    isSpace c = false ∧ Lexeme.first c text = Lexeme.ofNumeral (c :: text) := by
  have hbounds : c.toNat = 45 ∨ 48 ≤ c.toNat ∧ c.toNat ≤ 57 := by
    rcases h with rfl | hdigit
    · exact .inl rfl
    · exact .inr (by simpa using Char.isDigit_iff_toNat.mp hdigit)
  have hother : ∀ d : Char, ¬ (d.toNat = 45 ∨ 48 ≤ d.toNat ∧ d.toNat ≤ 57) → c ≠ d := by
    rintro d hd rfl
    exact hd hbounds
  refine ⟨?_, ?_⟩
  · simp [isSpace, hother ' ' (by decide), hother '\n' (by decide), hother '\t' (by decide),
      hother '\r' (by decide)]
  · unfold Lexeme.first
    split
    all_goals first | exact absurd rfl (hother _ (by decide)) | exact if_pos h

/-- A written word is the lexeme of that word. -/
theorem lexemes_ofInt {n : Int} (hn : Word.InRange n) {rest : List Char}
    (hrest : EndsNumeral rest) :
    lexemes ((Decimal.ofInt n).toList ++ rest)
      = .scalar (.ok (.integer n)) (.ok ()) :: lexemes rest := by
  have hscan := Numeral.scan_ofInt n hrest
  have hstart : ∃ c text, (Decimal.ofInt n).toList = c :: text ∧ (c = '-' ∨ c.isDigit = true) := by
    rw [Decimal.toList_ofInt]
    by_cases hneg : n < 0
    · exact ⟨'-', Nat.toDigits 10 n.natAbs, by simp [hneg], .inl rfl⟩
    · cases hwritten : Nat.toDigits 10 n.natAbs with
      | nil => exact absurd hwritten Nat.toDigits_ne_nil
      | cons c text =>
        exact ⟨c, text, by simp [hneg],
          .inr (Decimal.isDigit_of_mem_digits (by rw [hwritten]; simp))⟩
  obtain ⟨c, text, hwritten, hc⟩ := hstart
  rw [hwritten, List.cons_append] at hscan ⊢
  obtain ⟨hspace, hfirst⟩ := first_of_numeral hc (text ++ rest)
  refine lexemes_cons hspace ?_
  rw [hfirst]
  simp only [Lexeme.ofNumeral, hscan, Lexeme.numeralValue, Numeral.inDoubleRange_ofInt hn,
    Numeral.integer?_ofInt, if_true]

end Json

end AccumulatorMachine
