import AccumulatorMachine.Source.Statement.Grammar

/-!
# Source Programs

A program as the list of its statements, and the cutting of a source text into statements.

A semicolon ends a statement wherever it stands, also in the text of a string. What is between
two of them is a statement unless it is blank.

## Main definitions

* `Program.segments`: The pieces of a source text that hold statements.
* `Program`: A list of statements.
* `Program.parse?`: The program that a source text holds.
-/

namespace AccumulatorMachine

/-- The statements of a program in source order. -/
structure Program where
  statements : List Statement
  deriving DecidableEq, Repr

namespace Program

/-- Pieces of a text with the byte offsets at which they start, if the first one starts at
    `offset` and one byte separates each from the next. -/
def placed (offset : Nat) : List (List Char) → List (Nat × List Char)
  | [] => []
  | piece :: pieces => (offset, piece) :: placed (offset + Text.byteLength piece + 1) pieces

/-- The pieces between semicolons that are not blank, with the offsets at which they start. -/
def segments (source : List Char) : List (Nat × List Char) :=
  (placed 0 (source.splitOn ';')).filter fun segment => !Text.allBlank segment.2

/-- The program that a source text holds, or the error of the first statement that has one. -/
def parse? (source : List Char) : Except ParseError Program := do
  let statements ← (segments source).mapM fun (offset, text) => Statement.parse? text offset
  return ⟨statements⟩

end Program

end AccumulatorMachine
