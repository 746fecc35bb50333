import AccumulatorMachine.Lowering.Statement
import AccumulatorMachine.Proofs.Machine.Fragment

/-!
# Loop Conditions

What the code at the start of a loop decides.

The machine has no comparisons. It subtracts the two sides and tests the flags of the difference,
so a condition whose difference is not a word is a fault, even where the comparison itself would
be clear. Apart from that the flags decide every comparison.

The code at the start of a loop is not left over its end alone: if the condition does not hold, the
last of its instructions jumps away. Where it goes is a number of places from the start of the
code, like everything here.

## Main definitions

* `Comparison.holds`: What a comparison says about two numbers.
* `Store.condition`: What a loop condition says about a store.

## Theorems

* `Core.effect_skip`: A skip tests the comparison it is made for.
* `Fragment.head_compares`, `Fragment.head_exits`, `Fragment.head_overflows`: What the instructions
  at the start of a loop do to two numbers.
* `Fragment.head_enters`, `Fragment.head_leaves`, `Fragment.head_faults`: The three ways through the
  start of a loop.
-/

namespace AccumulatorMachine

namespace Comparison

/-- What a comparison says about two numbers. -/
def holds : Comparison → Int → Int → Bool
  | greater, x, y => decide (y < x)
  | greaterEqual, x, y => decide (y ≤ x)
  | less, x, y => decide (x < y)
  | lessEqual, x, y => decide (x ≤ y)
  | equal, x, y => decide (x = y)
  | notEqual, x, y => decide (x ≠ y)

end Comparison

/-- What a loop condition says about a store. It faults if there is no number in one of the cells,
    the left one first, or if the difference of the numbers is not a word. -/
def Store.condition (s : Store) (left right : Int) (comparison : Comparison) :
    Except Fault Bool := do
  let x ← s.core.load left
  let y ← s.core.load right
  let _ ← ArithmeticOp.exactly (x - y)
  return comparison.holds x y

namespace Core

/-- The skip of a comparison steps over an instruction exactly if the comparison holds, given the
    flags of the difference. -/
theorem effect_skip {c : Core} {x y : Int} (hzero : c.zero = decide (x = y))
    (hsigned : c.signed = decide (x < y)) (comparison : Comparison) (cursor : Int) :
    c.effect ⟨comparison.skipOpCode, cursor⟩
      = .ok (c, if comparison.holds x y then 2 else 1) := by
  -- The three ways in which two numbers can lie decide both the flags and the comparison.
  rcases Int.lt_trichotomy x y with hxy | hxy | hxy
  · have hne : ¬ x = y := by omega
    have hle : x ≤ y := by omega
    cases comparison <;> simp [effect, Comparison.skipOpCode, Comparison.holds, SkipCondition.holds,
      hzero, hsigned, hxy, hne, hle]
  · cases comparison <;> simp [effect, Comparison.skipOpCode, Comparison.holds, SkipCondition.holds,
      hzero, hsigned, hxy]
  · have hne : ¬ x = y := by omega
    have hle : y ≤ x := by omega
    have hlt : ¬ x < y := by omega
    cases comparison <;> simp [effect, Comparison.skipOpCode, Comparison.holds, SkipCondition.holds,
      hzero, hsigned, hxy, hne, hle, hlt]

theorem effect_skip_difference (c : Core) (comparison : Comparison) (x y cursor : Int) :
    (c.setAccumulator (x - y)).effect ⟨comparison.skipOpCode, cursor⟩
      = .ok (c.setAccumulator (x - y), if comparison.holds x y then 2 else 1) := by
  refine effect_skip ?_ ?_ comparison cursor
  · simp only [setAccumulator, decide_eq_decide]
    omega
  · simp only [setAccumulator, decide_eq_decide]
    omega

end Core

namespace Fragment

variable {comparison : Comparison} {left right cursor : Int} {count : Nat} {c : Core}

theorem effect_left {x : Int} (h : c.load left = .ok x) :
    c.effect ⟨.read, left⟩ = .ok (c.setAccumulator x, 1) := by
  rw [Core.effect_read, Core.compute_of_load h]
  rfl

theorem effect_right {x y : Int} (h : c.load right = .ok y) :
    (c.setAccumulator x).effect ⟨.subtract, right⟩
      = (ArithmeticOp.exactly (x - y)).map fun d => (c.setAccumulator d, 1) := by
  have hload : (c.setAccumulator x).load right = .ok y := h
  have hacc : (c.setAccumulator x).acc = x := rfl
  rw [Core.effect_subtract, Core.compute_of_load hload, hacc, ArithmeticOp.apply]
  cases ArithmeticOp.exactly (x - y) <;> rfl

/-- Two numbers whose difference is a word are compared in three instructions, which lead over the
    skip, by two places if the comparison holds. -/
theorem head_compares {x y : Int} (hx : c.load left = .ok x) (hy : c.load right = .ok y)
    (hword : Word.InRange (x - y)) :
    Takes (Lowering.loopHead comparison left right cursor count) 3 6 (0, c)
      (if comparison.holds x y then 4 else 3, c.setAccumulator (x - y)) := by
  have hsub : (c.setAccumulator x).effect ⟨.subtract, right⟩
      = .ok (c.setAccumulator (x - y), 1) := by
    rw [effect_right hy, ArithmeticOp.exactly_of_inRange hword]
    rfl
  have hskip := Core.effect_skip_difference c comparison x y cursor
  -- Three instructions are run: the load, the subtraction and the skip.
  have hstep0 : Step (Lowering.loopHead comparison left right cursor count) (0, c)
      (1, c.setAccumulator x) := Step.mk rfl (effect_left hx) rfl
  have hstep1 : Step (Lowering.loopHead comparison left right cursor count)
      (1, c.setAccumulator x) (2, c.setAccumulator (x - y)) := Step.mk rfl hsub rfl
  have hstep2 : Step (Lowering.loopHead comparison left right cursor count)
      (2, c.setAccumulator (x - y))
      (if comparison.holds x y then 4 else 3, c.setAccumulator (x - y)) := by
    refine Step.mk rfl hskip ?_
    by_cases hholds : comparison.holds x y = true
    · rw [if_pos hholds, if_pos hholds]
      rfl
    · rw [if_neg hholds, if_neg hholds]
      rfl
  refine (((Takes.single hstep0).tail hstep1).tail hstep2).of_eq rfl ?_
  cases comparison <;> rfl

/-- The jump that is taken if a comparison does not hold leads out of the loop. -/
theorem head_exits (c : Core) :
    Step (Lowering.loopHead comparison left right cursor count) (3, c) (count + 7, c) := by
  refine Step.mk rfl rfl ?_
  simp only
  omega

/-- Two numbers whose difference is not a word fault in the subtraction. -/
theorem head_overflows {x y : Int} (hx : c.load left = .ok x) (hy : c.load right = .ok y)
    (hword : ¬ Word.InRange (x - y)) :
    Takes (Lowering.loopHead comparison left right cursor count) 1 2 (0, c)
        (1, c.setAccumulator x) ∧
      (c.setAccumulator x).effect ⟨.subtract, right⟩ = .error .arithmeticOverflow := by
  have hload : Step (Lowering.loopHead comparison left right cursor count) (0, c)
      (1, c.setAccumulator x) := Step.mk rfl (effect_left hx) rfl
  refine ⟨Takes.single hload, ?_⟩
  rw [effect_right hy, ArithmeticOp.exactly_of_not_inRange hword]
  rfl

/-- A condition that does not fault leads over the skip, by two places if it holds. -/
theorem head_decides {holds : Bool}
    (h : c.toStore.condition left right comparison = .ok holds) :
    ∃ c', c'.toStore = c.toStore ∧ Steps (Lowering.loopHead comparison left right cursor count)
      (0, c) (if holds then 4 else 3, c') := by
  have hstore : ∀ a, c.toStore.core.load a = c.load a := fun a => rfl
  rw [Store.condition, hstore, hstore] at h
  rcases Outcome.bind_ok h with ⟨x, hx, hrest⟩
  rcases Outcome.bind_ok hrest with ⟨y, hy, hrest'⟩
  rcases Outcome.bind_ok hrest' with ⟨d, hd, hpure⟩
  cases hpure
  have hword : Word.InRange (x - y) := by
    by_contra hout
    rw [ArithmeticOp.exactly_of_not_inRange hout] at hd
    cases hd
  exact ⟨c.setAccumulator (x - y), rfl, (head_compares hx hy hword).steps⟩

/-- A condition that holds leads into the loop. -/
theorem head_enters (h : c.toStore.condition left right comparison = .ok true) :
    ∃ c', c'.toStore = c.toStore ∧
      Steps (Lowering.loopHead comparison left right cursor count) (0, c) (4, c') :=
  head_decides h

/-- A condition that does not hold leads out of the loop. -/
theorem head_leaves (h : c.toStore.condition left right comparison = .ok false) :
    ∃ c', c'.toStore = c.toStore ∧
      Steps (Lowering.loopHead comparison left right cursor count) (0, c) (count + 7, c') := by
  have hdecides : ∃ c', c'.toStore = c.toStore ∧
      Steps (Lowering.loopHead comparison left right cursor count) (0, c) (3, c') := head_decides h
  -- The jump is the fourth instruction, and leads away.
  rcases hdecides with ⟨c', hc', hsteps⟩
  exact ⟨c', hc', hsteps.tail (head_exits c')⟩

/-- A condition that faults does so in the load or in the subtraction. -/
theorem head_faults {fault : Fault}
    (h : c.toStore.condition left right comparison = .error fault) :
    ∃ p c' i, Steps (Lowering.loopHead comparison left right cursor count) (0, c) (p, c') ∧
      (Lowering.loopHead comparison left right cursor count)[p]? = some i ∧
      c'.effect i = .error fault := by
  have hstore : ∀ a, c.toStore.core.load a = c.load a := fun a => rfl
  rw [Store.condition, hstore, hstore] at h
  -- The load faults, or the subtraction does, in its cell or in its result.
  cases hx : c.load left with
  | error f =>
    rw [hx] at h
    cases h
    refine ⟨0, c, ⟨.read, left⟩, Relation.ReflTransGen.refl, rfl, ?_⟩
    rw [Core.effect_read, Core.compute_of_load_error hx]
    rfl
  | ok x =>
    have hstep0 : Step (Lowering.loopHead comparison left right cursor count) (0, c)
        (1, c.setAccumulator x) := Step.mk rfl (effect_left hx) rfl
    refine ⟨1, c.setAccumulator x, ⟨.subtract, right⟩, Relation.ReflTransGen.single hstep0, rfl, ?_⟩
    rw [hx] at h
    cases hy : c.load right with
    | error f =>
      rw [hy] at h
      have hload : (c.setAccumulator x).load right = .error f := hy
      cases h
      rw [Core.effect_subtract, Core.compute_of_load_error hload]
      rfl
    | ok y =>
      rw [hy] at h
      rw [effect_right hy]
      cases hd : ArithmeticOp.exactly (x - y) with
      | error f =>
        simp only [hd, bind, Except.bind] at h
        cases h
        rfl
      | ok d =>
        simp only [hd, bind, Except.bind] at h
        cases h

end Fragment

end AccumulatorMachine
