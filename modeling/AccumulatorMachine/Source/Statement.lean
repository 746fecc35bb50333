import AccumulatorMachine.Instruction
import AccumulatorMachine.Text.Span

/-!
# Statements

The syntax of the source language: a program is a flat list of statements.

Two things are less structured here than one may expect. A loop is not a nested list of
statements, but a pair of statements that belong together because of what stands between
them. And an expression is still the list of its tokens in source order: whether they form a
formula is for the lowering to find out.

## Main definitions

* `Operand`, `BinaryOperator`, `Comparison`: The parts of formulas and conditions.
* `Expression`: An expression as it is written.
* `Statement`: A statement with its span.
-/

namespace AccumulatorMachine

/-- A value that a statement refers to. -/
inductive Operand where
  | name (text : String)
  /-- An integer with its spelling. Literals that are spelled alike share a cell. -/
  | literal (spelling : String) (value : Int)
  deriving DecidableEq, Repr

namespace Operand

/-- The literal with the usual spelling of an integer. -/
def ofInt (value : Int) : Operand := literal (Decimal.ofInt value) value

/-- The text of an operand. -/
def render : Operand → String
  | name text => text
  | literal spelling _ => spelling

end Operand

/-- An operator of an expression. -/
inductive BinaryOperator where
  | add
  | subtract
  | multiply
  | divide
  deriving DecidableEq, Repr

namespace BinaryOperator

/-- How tightly an operator binds: multiplication and division more than addition and
    subtraction. -/
def precedence : BinaryOperator → Nat
  | add | subtract => 1
  | multiply | divide => 2

/-- The instruction that applies an operator to the accumulator. -/
def opcode : BinaryOperator → OpCode
  | add => .add
  | subtract => .subtract
  | multiply => .multiply
  | divide => .divide

end BinaryOperator

/-- A part of an expression. -/
inductive ExpressionToken where
  | operand (operand : Operand)
  | operator (operator : BinaryOperator)
  | openParen
  | closeParen
  deriving DecidableEq, Repr

/-- An expression as it is written. -/
structure Expression where
  tokens : List (ExpressionToken × Span)
  /-- From the first token of the expression to its last. -/
  span : Span
  deriving DecidableEq, Repr

/-- The relation of a loop condition. -/
inductive Comparison where
  | greater
  | greaterEqual
  | less
  | lessEqual
  | equal
  | notEqual
  deriving DecidableEq, Repr

namespace Comparison

/-- The instruction that steps over the exit of a loop while the condition holds, with the
    difference of the two sides in the accumulator. -/
def skipOpCode : Comparison → OpCode
  | greater => .skip .signedOrZero true
  | greaterEqual => .skip .signed true
  | less => .skip .signed false
  | lessEqual => .skip .signedOrZero false
  | equal => .skip .zero false
  | notEqual => .skip .zero true

end Comparison

/-- What a statement says. -/
inductive Statement.Form where
  /-- Declares an integer variable. -/
  | int (name : String) (value : Int)
  /-- Declares a string variable. -/
  | string (name : String) (text : String)
  /-- Binds a name to the result of an expression. -/
  | new (name : String) (expression : Expression)
  /-- Starts a loop that runs while a comparison holds. -/
  | loop (left : Operand) (comparison : Comparison) (right : Operand)
  /-- Ends the innermost loop. -/
  | endLoop
  /-- Reads an integer into a fresh variable. -/
  | inputInt (name : String)
  /-- Prints an integer variable. -/
  | outputInt (name : String)
  /-- Reads and echoes characters until the input is exhausted. -/
  | inputStr
  /-- Prints a string variable. -/
  | outputStr (name : String)
  deriving DecidableEq, Repr

/-- A statement with its span in the source. -/
structure Statement where
  form : Statement.Form
  span : Span
  deriving DecidableEq, Repr

end AccumulatorMachine
