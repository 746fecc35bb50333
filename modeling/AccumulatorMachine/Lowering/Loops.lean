import AccumulatorMachine.Lowering.Error
import AccumulatorMachine.Source.Statement

/-!
# Pairing Loops

Which `while` and which `endWhile` belong together: as with brackets, each end closes the
innermost loop that is open.

An end without a loop is an error where it stands. A loop without an end is one only after the
last statement, and of several such loops the innermost one is reported.

## Main definitions

* `LoopPairs`: The index of the end of every loop.
* `LoopPairs.ofStatements?`: The pairs of a program.
-/

namespace AccumulatorMachine

/-- The index of the start of every loop with the index of its end. -/
abbrev LoopPairs : Type := List (Nat × Nat)

namespace LoopPairs

/-- The pairs of statements that are counted from `index` upwards, inside loops that are open,
    the innermost one first. -/
def pairFrom (index : Nat) (opened : List (Nat × Span)) :
    List Statement → Except CompileError LoopPairs
  | [] =>
    match opened with
    | [] => .ok []
    | (_, span) :: _ => .error (.atSpan .unclosedLoop span)
  | statement :: rest =>
    match statement.form with
    | .loop .. => pairFrom (index + 1) ((index, statement.span) :: opened) rest
    | .endLoop =>
      match opened with
      | [] => .error (.atSpan .unmatchedEndLoop statement.span)
      | (start, _) :: opened => (pairFrom (index + 1) opened rest).map ((start, index) :: ·)
    | _ => pairFrom (index + 1) opened rest

/-- The pairs of a list of statements. -/
def ofStatements? (statements : List Statement) : Except CompileError LoopPairs :=
  pairFrom 0 [] statements

/-- The index of the end of the loop that starts at an index. -/
def endOf? (pairs : LoopPairs) (start : Nat) : Option Nat := pairs.lookup start

end LoopPairs

end AccumulatorMachine
