import AccumulatorMachine.Decimal
import AccumulatorMachine.Source.Token
import AccumulatorMachine.Text.Position

/-!
# Parse Errors

Why a text is not a statement, where the reason is, and what was being read there.

An error starts as a cause with a span. The readers it passes through on its way out each add
the context they know about, so the list of contexts has the innermost one first and is read
out from its end.

## Main definitions

* `ParseError.Cause`: The reason of an error.
* `ParseError.Context`: A part of a statement that was being read.
* `ParseError`: A cause with its span and its contexts.
* `ParseError.message`: The error with its byte offsets.
* `ParseError.verbose`: The error with its line and column.
-/

namespace AccumulatorMachine

/-- The reason why a text is not a statement. -/
inductive ParseError.Cause where
  /-- The statement ends where it has to go on. -/
  | endOfStatement
  | unexpectedToken
  /-- Something follows a complete statement. -/
  | trailingInput
  /-- The first token starts no statement. -/
  | unknownStatement
  /-- A number is missing or does not fit into a word. -/
  | invalidLiteral
  deriving DecidableEq, Repr

/-- A part of a statement that was being read when an error came up. -/
inductive ParseError.Context where
  | intDeclaration
  | stringDeclaration
  | newStatement
  | loopStatement
  /-- The parentheses of an input or output statement. -/
  | call (word : Keyword)
  | variableName
  | initialValue
  | expression
  | leftOperand
  | comparison
  | rightOperand
  deriving DecidableEq, Repr

/-- A cause with its span, and the contexts it came up in, the innermost one first. -/
structure ParseError where
  cause : ParseError.Cause
  span : Span
  context : List ParseError.Context
  deriving DecidableEq, Repr

namespace ParseError

/-- The wording of a cause. -/
def Cause.message : Cause → String
  | endOfStatement => "unexpected end of statement"
  | unexpectedToken => "unexpected token"
  | trailingInput => "unexpected input after statement"
  | unknownStatement => "unknown statement"
  | invalidLiteral => "invalid integer literal"

/-- The wording of a context. -/
def Context.message : Context → String
  | intDeclaration => "int declaration"
  | stringDeclaration => "string declaration"
  | newStatement => "new statement"
  | loopStatement => "while statement"
  | call word => word.spelling
  | variableName => "expected a variable name"
  | initialValue => "expected an initial value"
  | expression => "expression"
  | leftOperand => "left operand"
  | comparison => "comparison"
  | rightOperand => "right operand"

/-- An error that has no context yet. -/
def ofCause (cause : Cause) (span : Span) : ParseError := ⟨cause, span, []⟩

/-- The error that a statement ends too early, at the offset of its end. -/
def atEnd (stop : Nat) : ParseError := ofCause .endOfStatement ⟨stop, stop⟩

/-- The error that a token fits nowhere. -/
def unexpected (span : Span) : ParseError := ofCause .unexpectedToken span

/-- The error inside one more context. -/
def within (context : Context) (e : ParseError) : ParseError :=
  { e with context := e.context ++ [context] }

/-- The contexts from the outermost one inwards and the cause, separated by colons. -/
def description (e : ParseError) : String :=
  ": ".intercalate (e.context.reverse.map Context.message ++ [e.cause.message])

/-- The message with the byte offsets of the error. -/
def message (e : ParseError) : String :=
  "error at position " ++ Decimal.ofNat e.span.start ++ "-" ++ Decimal.ofNat e.span.stop ++ ": "
    ++ e.description

/-- The position of the error in a source text. -/
def position (e : ParseError) (source : List Char) : Position :=
  Position.ofOffset source e.span.start

/-- How much of the line with the error is shown. -/
def excerptLength : Nat := 20

/-- The beginning of what stands on the line of the error from its start on. -/
def excerpt (e : ParseError) (source : List Char) : String :=
  String.ofList ((Text.firstLine (Text.dropBytes e.span.start source)).take excerptLength)

/-- The message with the line and column of the error in a source text. -/
def verbose (e : ParseError) (source : List Char) : String :=
  "at " ++ (e.position source).render ++ ": " ++ e.description ++ ", at '" ++ e.excerpt source
    ++ "'"

end ParseError

end AccumulatorMachine
