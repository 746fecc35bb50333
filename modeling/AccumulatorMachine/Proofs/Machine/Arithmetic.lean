import Mathlib.Data.Rat.Floor
import AccumulatorMachine.Machine.Arithmetic

/-!
# Exact Arithmetic

What the arithmetic unit computes, said without it.

A sum, a difference and a product are those of the integers. The quotient is the integer below the
rational quotient, which two inequalities determine. The arithmetic unit gets there from the
quotient that is rounded towards zero, so it makes two range checks where one would do: of the
rounded quotient, and of the corrected one. For integers of any size both together are as good as
one check at the end, which is `apply_divide`. For words the second one never fails. The least word
is a quotient only of itself by one, which leaves no remainder.

## Main definitions

* `ArithmeticOp.IsFloor`: The quotient rounded towards negative infinity.
* `ArithmeticOp.Result`: The mathematical result of an operation.
* `ArithmeticOp.Exact`: An operation gives its result if that is a word, and a fault otherwise.

## Theorems

* `ArithmeticOp.exactly_of_inRange`, `ArithmeticOp.exactly_of_not_inRange`: What a range check
  gives.
* `ArithmeticOp.fdiv_eq_corrected`: The correction of a truncated quotient gives its floor.
* `ArithmeticOp.apply_divide`: One range check at the end is as good as two.
* `ArithmeticOp.apply_error`: The two ways in which arithmetic fails.
* `ArithmeticOp.IsFloor.unique`, `ArithmeticOp.isFloor_iff_floor`: The inequalities determine the
  quotient.
* `ArithmeticOp.tdiv_inRange_iff`: The only quotient of words that is no word.
* `ArithmeticOp.roundDown_of_words`: The correction never leaves the words.
* `ArithmeticOp.exists_result`: An operation checks the range of its result.
* `ArithmeticOp.apply_exact`: Arithmetic on words is exact or reported.
* `ArithmeticOp.negativeDivisions_exact`: A quotient that is corrected, and the one that is no word.
-/

namespace AccumulatorMachine

namespace ArithmeticOp

variable {acc cell n q v : Int} {op : ArithmeticOp} {fault : Fault}

/-! ## Range checks -/

theorem exactly_of_inRange (h : Word.InRange n) : exactly n = .ok n := by
  rw [exactly, Word.checked, if_pos h]

theorem exactly_of_not_inRange (h : ¬ Word.InRange n) :
    exactly n = .error .arithmeticOverflow := by
  rw [exactly, Word.checked, if_neg h]

theorem exactly_ok_iff : exactly n = .ok v ↔ n = v ∧ Word.InRange v := by
  by_cases hn : Word.InRange n
  · rw [exactly_of_inRange hn, Except.ok.injEq]
    exact ⟨fun h => ⟨h, h ▸ hn⟩, fun h => h.1⟩
  · rw [exactly_of_not_inRange hn]
    constructor
    · intro h
      cases h
    · rintro ⟨rfl, h⟩
      exact absurd h hn

theorem exactly_error_iff :
    exactly n = .error fault ↔ ¬ Word.InRange n ∧ fault = .arithmeticOverflow := by
  by_cases hn : Word.InRange n
  · simp [exactly_of_inRange hn, hn]
  · simp [exactly_of_not_inRange hn, hn, eq_comm]

/-! ## Quotients -/

/-- The truncated quotient is corrected where there is a remainder and the signs differ, and
    becomes the quotient rounded towards negative infinity. -/
theorem fdiv_eq_corrected (hcell : cell ≠ 0) : acc.fdiv cell =
    if acc.tmod cell ≠ 0 ∧ ¬ (acc < 0 ↔ cell < 0) then acc.tdiv cell - 1 else acc.tdiv cell := by
  have hrem : acc.tmod cell ≠ 0 ↔ ¬ cell ∣ acc := not_congr Int.dvd_iff_tmod_eq_zero.symm
  rw [Int.fdiv_eq_tdiv]
  simp only [hrem]
  by_cases hdvd : cell ∣ acc
  · rw [if_pos hdvd, if_neg fun h => h.1 hdvd, Int.sub_zero]
  · rw [if_neg hdvd]
    rcases Int.lt_or_gt_of_ne hcell with hneg | hpos
    · have hsign := Int.sign_eq_neg_one_of_neg hneg
      by_cases hacc : 0 ≤ acc
      · simp [hdvd, hacc, hneg, Int.not_le.mpr hneg]
      · simp [hdvd, hacc, hneg, Int.not_le.mpr hneg, hsign, Int.not_le.mp hacc]
    · have hsign := Int.sign_eq_one_of_pos hpos
      by_cases hacc : 0 ≤ acc
      · simp [hacc, Int.le_of_lt hpos, Int.not_lt.mpr hacc, Int.not_lt.mpr (Int.le_of_lt hpos)]
      · simp [hdvd, hacc, Int.le_of_lt hpos, hsign, Int.not_le.mp hacc]

/-- Numbers with different signs have no positive quotient. -/
theorem tdiv_nonpos (h : ¬ (acc < 0 ↔ cell < 0)) : acc.tdiv cell ≤ 0 := by
  by_cases hacc : 0 ≤ acc
  · exact Int.tdiv_nonpos_of_nonneg_of_nonpos hacc (by omega)
  · have hneg := Int.tdiv_nonneg (a := -acc) (b := cell) (by omega) (by omega)
    rw [Int.neg_tdiv] at hneg
    omega

/-- A truncated quotient beyond the words is not corrected into them. -/
theorem not_inRange_fdiv (hcell : cell ≠ 0) (h : ¬ Word.InRange (acc.tdiv cell)) :
    ¬ Word.InRange (acc.fdiv cell) := by
  rw [fdiv_eq_corrected hcell]
  split
  · next hsigns =>
    -- A quotient that is corrected is not positive, so it is beyond the lower end.
    have hle : acc.tdiv cell ≤ 0 := tdiv_nonpos hsigns.2
    simp only [Word.InRange, Word.minimum, Word.maximum] at h ⊢
    omega
  · exact h

/-- Dividing makes two range checks, which are as good as one of the result. -/
theorem apply_divide (acc cell : Int) : apply .divide acc cell =
    if cell = 0 then .error .divisionByZero else exactly (acc.fdiv cell) := by
  rw [apply]
  by_cases hcell : cell = 0
  · rw [if_pos hcell, if_pos hcell]
  · rw [if_neg hcell, if_neg hcell]
    by_cases hq : Word.InRange (acc.tdiv cell)
    · rw [exactly_of_inRange hq, fdiv_eq_corrected hcell]
      show roundDown acc cell (acc.tdiv cell) = _
      rw [roundDown]
      split
      · rfl
      · rw [exactly_of_inRange hq]
    · rw [exactly_of_not_inRange hq, exactly_of_not_inRange (not_inRange_fdiv hcell hq)]
      rfl

/-- An operation on numbers fails because it divides by zero or because its result is no word. -/
theorem apply_error (h : op.apply acc cell = .error fault) :
    fault = .divisionByZero ∨ fault = .arithmeticOverflow := by
  cases op with
  | replace => cases h
  | add | subtract | multiply => exact Or.inr (exactly_error_iff.mp h).2
  | divide =>
    rw [apply_divide] at h
    by_cases hzero : cell = 0
    · rw [if_pos hzero] at h
      cases h
      exact Or.inl rfl
    · rw [if_neg hzero] at h
      exact Or.inr (exactly_error_iff.mp h).2

/-! ## Mathematical results -/

/-- The integer `q` is the quotient of two numbers rounded towards negative infinity. -/
def IsFloor (acc cell q : Int) : Prop :=
  0 < cell ∧ q * cell ≤ acc ∧ acc < (q + 1) * cell ∨
    cell < 0 ∧ acc ≤ q * cell ∧ (q + 1) * cell < acc

instance (acc cell q : Int) : Decidable (IsFloor acc cell q) :=
  inferInstanceAs (Decidable (_ ∨ _))

/-- The mathematical result of an operation. A quotient by zero has none. -/
inductive Result (acc cell : Int) : ArithmeticOp → Int → Prop
  | replace : Result acc cell .replace cell
  | add : Result acc cell .add (acc + cell)
  | subtract : Result acc cell .subtract (acc - cell)
  | multiply : Result acc cell .multiply (acc * cell)
  | divide {q : Int} (hfloor : IsFloor acc cell q) : Result acc cell .divide q

theorem IsFloor.ne_zero (h : IsFloor acc cell q) : cell ≠ 0 := by
  rcases h with ⟨hcell, -⟩ | ⟨hcell, -⟩ <;> omega

/-- The inequalities say that the quotient is the floor of the rational one. -/
theorem isFloor_iff_floor (hcell : cell ≠ 0) : IsFloor acc cell q ↔ ⌊(acc / cell : ℚ)⌋ = q := by
  rw [Int.floor_eq_iff]
  rcases Int.lt_or_gt_of_ne hcell with hneg | hpos
  · have hneg' : (cell : ℚ) < 0 := Int.cast_lt_zero.mpr hneg
    rw [le_div_iff_of_neg hneg', div_lt_iff_of_neg hneg', IsFloor]
    constructor
    · rintro (⟨hpos, -⟩ | ⟨-, hle, hlt⟩)
      · omega
      · exact ⟨by exact_mod_cast hle, by exact_mod_cast hlt⟩
    · rintro ⟨hle, hlt⟩
      exact Or.inr ⟨hneg, by exact_mod_cast hle, by exact_mod_cast hlt⟩
  · have hpos' : (0 : ℚ) < cell := Int.cast_pos.mpr hpos
    rw [le_div_iff₀ hpos', div_lt_iff₀ hpos', IsFloor]
    constructor
    · rintro (⟨-, hle, hlt⟩ | ⟨hneg, -⟩)
      · exact ⟨by exact_mod_cast hle, by exact_mod_cast hlt⟩
      · omega
    · rintro ⟨hle, hlt⟩
      exact Or.inl ⟨hpos, by exact_mod_cast hle, by exact_mod_cast hlt⟩

/-- The inequalities determine the quotient. -/
theorem IsFloor.unique {q' : Int} (h : IsFloor acc cell q) (h' : IsFloor acc cell q') : q = q' := by
  have hcell := h.ne_zero
  rw [isFloor_iff_floor hcell] at h h'
  exact h.symm.trans h'

theorem isFloor_fdiv (hcell : cell ≠ 0) : IsFloor acc cell (acc.fdiv cell) := by
  have hrem := Int.fmod_add_mul_fdiv acc cell
  have hlast : (acc.fdiv cell + 1) * cell = cell * acc.fdiv cell + cell := by
    rw [Int.add_mul, Int.one_mul, Int.mul_comm]
  rw [IsFloor, hlast, Int.mul_comm]
  rcases Int.lt_or_gt_of_ne hcell with hneg | hpos
  · -- The remainder has the sign of the number that is divided by.
    have hupper := Int.fmod_nonneg_of_pos (-acc) (Int.neg_pos_of_neg hneg)
    have hlower := Int.fmod_lt_of_pos (-acc) (Int.neg_pos_of_neg hneg)
    rw [Int.neg_fmod_neg] at hupper hlower
    exact Or.inr ⟨hneg, by omega, by omega⟩
  · have hlower := Int.fmod_nonneg_of_pos acc hpos
    have hupper := Int.fmod_lt_of_pos acc hpos
    exact Or.inl ⟨hpos, by omega, by omega⟩

theorem Result.unique {w : Int} (h : Result acc cell op v) (h' : Result acc cell op w) : v = w := by
  cases h with
  | divide hfloor =>
    cases h' with
    | divide hfloor' => exact hfloor.unique hfloor'
  | replace | add | subtract | multiply =>
    cases h'
    rfl

/-! ## Words -/

/-- A quotient as large as the least word is a quotient of the least word by one or minus one. -/
theorem eq_minimum_of_tdiv (hacc : Word.InRange acc)
    (h : (acc.tdiv cell).natAbs = Word.minimum.natAbs) :
    acc = Word.minimum ∧ (cell = 1 ∨ cell = -1) := by
  have hle := Int.natAbs_tdiv_le_natAbs acc cell
  have hmin : acc = Word.minimum := by
    simp only [Word.InRange, Word.minimum, Word.maximum] at hacc h ⊢
    omega
  subst hmin
  rw [Int.natAbs_tdiv] at h
  have hone : cell.natAbs = 1 := (Nat.div_eq_self.mp h).resolve_left (by decide)
  exact ⟨rfl, by omega⟩

/-- The only quotient of words that is no word is that of the least word by minus one. -/
theorem tdiv_inRange_iff (hacc : Word.InRange acc) :
    Word.InRange (acc.tdiv cell) ↔ ¬ (acc = Word.minimum ∧ cell = -1) := by
  constructor
  · rintro h ⟨rfl, rfl⟩
    exact absurd h (by decide)
  · intro h
    by_contra hout
    have hle := Int.natAbs_tdiv_le_natAbs acc cell
    have hlarge : (acc.tdiv cell).natAbs = Word.minimum.natAbs := by
      simp only [Word.InRange, Word.minimum, Word.maximum] at hacc hout ⊢
      omega
    rcases eq_minimum_of_tdiv hacc hlarge with ⟨rfl, rfl | rfl⟩
    · exact hout (by decide)
    · exact h ⟨rfl, rfl⟩

/-- The correction never leaves the words. The least word is the quotient of nothing but itself by
    one, and that has no remainder. -/
theorem roundDown_of_words (hacc : Word.InRange acc) (hcell : cell ≠ 0)
    (hq : Word.InRange (acc.tdiv cell)) :
    roundDown acc cell (acc.tdiv cell) = .ok (acc.fdiv cell) ∧ Word.InRange (acc.fdiv cell) := by
  rw [roundDown, fdiv_eq_corrected hcell]
  split
  · next hsigns =>
    have hne : acc.tdiv cell ≠ Word.minimum := by
      intro hmin
      rcases eq_minimum_of_tdiv hacc (congrArg Int.natAbs hmin) with ⟨-, rfl | rfl⟩
      · exact hsigns.1 (Int.tmod_one acc)
      · exact hsigns.1 (by rw [Int.tmod_neg, Int.tmod_one])
    have hnext : Word.InRange (acc.tdiv cell - 1) := by
      simp only [Word.InRange, Word.minimum, Word.maximum] at hq hne ⊢
      omega
    exact ⟨exactly_of_inRange hnext, hnext⟩
  · exact ⟨rfl, hq⟩

theorem fdiv_inRange_iff (hacc : Word.InRange acc) (hcell : cell ≠ 0) :
    Word.InRange (acc.fdiv cell) ↔ ¬ (acc = Word.minimum ∧ cell = -1) := by
  rw [← tdiv_inRange_iff hacc]
  constructor
  · intro h
    by_contra hq
    exact not_inRange_fdiv hcell hq h
  · intro hq
    exact (roundDown_of_words hacc hcell hq).2

/-- Arithmetic on two words gives the mathematical result if that is a word, and the right fault
    otherwise. -/
structure Exact (op : ArithmeticOp) (acc cell : Int) : Prop where
  /-- What is returned is the result. -/
  ok : ∀ v, op.apply acc cell = .ok v ↔ Result acc cell op v ∧ Word.InRange v
  /-- There is one result at most. -/
  unique : ∀ v w, Result acc cell op v → Result acc cell op w → v = w
  /-- The result of a division is the floor of the rational quotient. -/
  floor : cell ≠ 0 → ∀ v, Result acc cell .divide v ↔ v = ⌊(acc / cell : ℚ)⌋
  divisionByZero : op.apply acc cell = .error .divisionByZero ↔ op = .divide ∧ cell = 0
  /-- What is reported as an overflow has a result that is no word. -/
  overflow : op.apply acc cell = .error .arithmeticOverflow ↔
    ∃ v, Result acc cell op v ∧ ¬ Word.InRange v
  /-- A quotient is no word in one case only. -/
  quotientOverflow : ArithmeticOp.divide.apply acc cell = .error .arithmeticOverflow ↔
    acc = Word.minimum ∧ cell = -1
  /-- There are no other faults. -/
  faults : ∀ fault, op.apply acc cell = .error fault →
    fault = .divisionByZero ∨ fault = .arithmeticOverflow
  /-- The correction of a quotient that is a word is a word. -/
  corrected : cell ≠ 0 → ∀ q, exactly (acc.tdiv cell) = .ok q →
    ∃ v, roundDown acc cell q = .ok v ∧ Word.InRange v

/-- Unless it divides by zero, an operation has a result, and checks its range. -/
theorem exists_result (acc : Int) (hcell : Word.InRange cell) (h : ¬ (op = .divide ∧ cell = 0)) :
    ∃ n, Result acc cell op n ∧ op.apply acc cell = exactly n := by
  cases op with
  | replace => exact ⟨cell, .replace, (exactly_of_inRange hcell).symm⟩
  | add => exact ⟨acc + cell, .add, rfl⟩
  | subtract => exact ⟨acc - cell, .subtract, rfl⟩
  | multiply => exact ⟨acc * cell, .multiply, rfl⟩
  | divide =>
    have hzero : cell ≠ 0 := fun hzero => h ⟨rfl, hzero⟩
    exact ⟨acc.fdiv cell, .divide (isFloor_fdiv hzero), by rw [apply_divide, if_neg hzero]⟩

theorem apply_divide_zero : ArithmeticOp.divide.apply acc 0 = .error .divisionByZero := rfl

theorem not_result_divide_zero : ¬ Result acc 0 .divide v := by
  intro h
  cases h with
  | divide hfloor => exact hfloor.ne_zero rfl

/-- Arithmetic on words is exact or reported. -/
theorem apply_exact (op : ArithmeticOp) (hacc : Word.InRange acc) (hcell : Word.InRange cell) :
    Exact op acc cell where
  ok := by
    intro v
    -- Only a division by zero has no result. Every other result is in range or reported.
    by_cases hzero : op = .divide ∧ cell = 0
    · rcases hzero with ⟨rfl, rfl⟩
      rw [apply_divide_zero]
      simp [not_result_divide_zero]
    · rcases exists_result acc hcell hzero with ⟨n, hn, happly⟩
      rw [happly, exactly_ok_iff]
      constructor
      · rintro ⟨rfl, hrange⟩
        exact ⟨hn, hrange⟩
      · rintro ⟨hv, hrange⟩
        exact ⟨hn.unique hv, hrange⟩
  unique := fun v w hv hw => hv.unique hw
  floor := by
    intro hzero v
    constructor
    · intro h
      cases h with
      | divide hfloor => exact ((isFloor_iff_floor hzero).mp hfloor).symm
    · intro h
      exact .divide ((isFloor_iff_floor hzero).mpr h.symm)
  divisionByZero := by
    by_cases hzero : op = .divide ∧ cell = 0
    · rcases hzero with ⟨rfl, rfl⟩
      simp [apply_divide_zero]
    · rcases exists_result acc hcell hzero with ⟨n, -, happly⟩
      rw [happly, exactly_error_iff]
      simp [hzero]
  overflow := by
    by_cases hzero : op = .divide ∧ cell = 0
    · rcases hzero with ⟨rfl, rfl⟩
      rw [apply_divide_zero]
      simp [not_result_divide_zero]
    · rcases exists_result acc hcell hzero with ⟨n, hn, happly⟩
      rw [happly, exactly_error_iff]
      constructor
      · intro h
        exact ⟨n, hn, h.1⟩
      · rintro ⟨v, hv, hrange⟩
        exact ⟨hn.unique hv ▸ hrange, rfl⟩
  quotientOverflow := by
    by_cases hzero : cell = 0
    · subst hzero
      rw [apply_divide_zero]
      simp
    · rw [apply_divide, if_neg hzero, exactly_error_iff, fdiv_inRange_iff hacc hzero]
      simp
  faults := fun fault h => apply_error h
  corrected := by
    intro hzero q hq
    rcases exactly_ok_iff.mp hq with ⟨rfl, hrange⟩
    exact ⟨_, roundDown_of_words hacc hzero hrange⟩

/-- A quotient that is corrected, and the one that is no word. -/
theorem negativeDivisions_exact :
    Word.InRange (-7) ∧ Word.InRange 2 ∧ Exact .divide (-7) 2 ∧
      ArithmeticOp.divide.apply (-7) 2 = .ok (-4) ∧
      Word.InRange Word.minimum ∧ Word.InRange (-1) ∧ Exact .divide Word.minimum (-1) ∧
      ArithmeticOp.divide.apply Word.minimum (-1) = .error .arithmeticOverflow := by
  have hseven : Exact .divide (-7) 2 := apply_exact .divide (by decide) (by decide)
  have hleast : Exact .divide Word.minimum (-1) := apply_exact .divide (by decide) (by decide)
  refine ⟨by decide, by decide, hseven, (hseven.ok (-4)).mpr ⟨.divide (by decide), by decide⟩,
    by decide, by decide, hleast, hleast.quotientOverflow.mpr ⟨rfl, rfl⟩⟩

end ArithmeticOp

end AccumulatorMachine
