import AccumulatorMachine.Machine.Fault

/-!
# Arithmetic

The operations of the arithmetic unit on the accumulator and a cell.

Results are exact: an operation gives the mathematical result if it is a word, and faults if it
is not. A quotient is rounded towards negative infinity, by a correction of the one that is rounded
towards zero.

## Main definitions

* `ArithmeticOp`: The operations.
* `ArithmeticOp.roundDown`: The correction of a quotient.
* `ArithmeticOp.apply`: The result of an operation.
-/

namespace AccumulatorMachine

/-- An operation of the arithmetic unit. -/
inductive ArithmeticOp where
  /-- Passes the cell through. -/
  | replace
  | add
  | subtract
  | multiply
  | divide
  deriving DecidableEq, Repr

namespace ArithmeticOp

/-- A word, or a fault if an integer is not one. -/
def exactly (n : Int) : Except Fault Int :=
  match Word.checked n with
  | some n => .ok n
  | none => .error .arithmeticOverflow

/-- The quotient rounded towards negative infinity, from the one rounded towards zero. The latter is
    one too great if there is a remainder and the signs differ. The correction has a range check of
    its own, although no quotient of words needs it. -/
def roundDown (acc cell quotient : Int) : Except Fault Int :=
  if acc.tmod cell ≠ 0 ∧ ¬ (acc < 0 ↔ cell < 0) then exactly (quotient - 1) else .ok quotient

/-- The result of an operation on the accumulator and a cell. -/
def apply (op : ArithmeticOp) (acc cell : Int) : Except Fault Int :=
  match op with
  | replace => .ok cell
  | add => exactly (acc + cell)
  | subtract => exactly (acc - cell)
  | multiply => exactly (acc * cell)
  | divide =>
    if cell = 0 then .error .divisionByZero
    else do roundDown acc cell (← exactly (acc.tdiv cell))

end ArithmeticOp

end AccumulatorMachine
