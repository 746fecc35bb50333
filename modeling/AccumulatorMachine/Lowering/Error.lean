import AccumulatorMachine.Source.ParseError

/-!
# Compile Errors

Why a source text has no image: it does not parse, or it parses and cannot be lowered.

## Main definitions

* `CompileError`: The reason why a program cannot be lowered.
* `SourceError`: The reason why a source text has no image.
* `SourceError.message`, `SourceError.verbose`: The wording with byte offsets, and with a line
  and a column.
-/

namespace AccumulatorMachine

/-- How a list of expression tokens fails to be a formula. -/
inductive Malformation where
  | missingOperand
  | unbalancedParentheses
  | noOperands
  | missingOperator
  deriving DecidableEq, Repr

/-- The wording of a malformation. -/
def Malformation.message : Malformation → String
  | missingOperand => "operator is missing an operand"
  | unbalancedParentheses => "unbalanced parentheses"
  | noOperands => "expression has no operands"
  | missingOperator => "operands are missing an operator"

/-- The reason why a program cannot be lowered. -/
inductive CompileError.Cause where
  /-- A name that no statement before binds, with the bound name it may have been meant to be. -/
  | unboundIdentifier (name : String) (suggestion : Option String)
  /-- A loop without an end. -/
  | unclosedLoop
  /-- The end of a loop that was not started. -/
  | unmatchedEndLoop
  | malformedExpression (reason : Malformation)
  /-- The allocator has reached a reserved address. -/
  | reservedAddress (address : Int)
  /-- A data cell lies inside the code. -/
  | segmentOverlap (address : Int) (codeLength : Nat)
  deriving DecidableEq, Repr

/-- A reason and the place it applies to, if there is one. -/
structure CompileError where
  cause : CompileError.Cause
  span : Option Span
  deriving DecidableEq, Repr

namespace CompileError

/-- The wording of a reason. -/
def Cause.message : Cause → String
  | unboundIdentifier name (some suggestion) =>
    "unbound identifier '" ++ name ++ "', did you mean '" ++ suggestion ++ "'?"
  | unboundIdentifier name none => "unbound identifier '" ++ name ++ "'"
  | unclosedLoop => "while loop is never closed with endWhile"
  | unmatchedEndLoop => "endWhile without a matching while"
  | malformedExpression reason => "malformed expression: " ++ reason.message
  | reservedAddress address =>
    "variable allocation reached the reserved address " ++ Decimal.ofInt address
  | segmentOverlap address codeLength =>
    "data cell " ++ Decimal.ofInt address ++ " overlaps the instruction segment 0.."
      ++ Decimal.ofNat codeLength

/-- A reason at a span. -/
def atSpan (cause : Cause) (span : Span) : CompileError := ⟨cause, some span⟩

/-- The message with the byte offsets of the error, if it has a place. -/
def message (e : CompileError) : String :=
  match e.span with
  | some span =>
    "error at position " ++ Decimal.ofNat span.start ++ "-" ++ Decimal.ofNat span.stop ++ ": "
      ++ e.cause.message
  | none => e.cause.message

/-- The message with the line and column of the error in a source text, if it has a place. -/
def verbose (e : CompileError) (source : List Char) : String :=
  match e.span with
  | some span => "at " ++ (Position.ofOffset source span.start).render ++ ": " ++ e.cause.message
  | none => e.cause.message

end CompileError

/-- The reason why a source text has no image. -/
inductive SourceError where
  | parse (error : ParseError)
  | compile (error : CompileError)
  deriving DecidableEq, Repr

namespace SourceError

/-- The message with byte offsets. -/
def message : SourceError → String
  | parse error => error.message
  | compile error => error.message

/-- The message with a line and a column in a source text. -/
def verbose (source : List Char) : SourceError → String
  | parse error => error.verbose source
  | compile error => error.verbose source

end SourceError

end AccumulatorMachine
