import AccumulatorMachine.Lowering.Basic

/-!
# Lowering Expressions

The code that computes an expression, from its tokens in source order.

Operators wait on a stack until the one to their right turns out to bind no tighter, or a
parenthesis or the expression ends. An operator that is applied takes the addresses of its two
sides and leaves that of the left one, whose cell receives the result:

    READ  left
    op    right
    WRITE left

So an expression has the address of its first operand, and changes every cell that is the left
side of an operator. An operand alone needs no code.

Whether the tokens form a formula shows only while operators are applied: one may lack a side,
and sides may be left over at the end.

## Main definitions

* `Pending`: An operator or an open parenthesis that waits.
* `Reduction`: What has been lowered so far.
* `Lowering.expression`: The address and the code of an expression.
-/

namespace AccumulatorMachine

/-- What waits for its right side. -/
inductive Pending where
  | operator (operator : BinaryOperator)
  | openParen
  deriving DecidableEq, Repr

/-- The values that no operator has taken yet, the last one first, and the code that computes
    them. -/
structure Reduction where
  operands : List Int
  code : List Instruction
  deriving DecidableEq, Repr

namespace Reduction

/-- Nothing lowered so far. -/
def empty : Reduction := ⟨[], []⟩

/-- One more value. -/
def push (r : Reduction) (address : Int) : Reduction := ⟨address :: r.operands, r.code⟩

/-- The code that applies an operator to two cells and stores the result in the left one. -/
def operatorCode (operator : BinaryOperator) (left right : Int) : List Instruction :=
  [⟨.read, left⟩, ⟨operator.opcode, right⟩, ⟨.write, left⟩]

/-- Applies an operator to the last two values. The whole statement, at `span`, is to blame if
    there are fewer. -/
def apply (r : Reduction) (operator : BinaryOperator) (span : Span) :
    Except CompileError Reduction :=
  match r.operands with
  | right :: left :: operands =>
    .ok ⟨left :: operands, r.code ++ operatorCode operator left right⟩
  | _ => .error (.atSpan (.malformedExpression .missingOperand) span)

/-- Applies waiting operators up to the first that binds less tightly than `incoming` or to a
    parenthesis, and returns those that go on waiting. -/
def applyTighter (incoming : BinaryOperator) (span : Span) :
    List Pending → Reduction → Except CompileError (List Pending × Reduction)
  | .operator operator :: pending, r =>
    if incoming.precedence ≤ operator.precedence then do
      applyTighter incoming span pending (← r.apply operator span)
    else .ok (.operator operator :: pending, r)
  | .openParen :: pending, r => .ok (.openParen :: pending, r)
  | [], r => .ok ([], r)

/-- Applies waiting operators up to the parenthesis that the one at `paren` closes, and returns
    those before it. -/
def applyToParen (paren span : Span) :
    List Pending → Reduction → Except CompileError (List Pending × Reduction)
  | .openParen :: pending, r => .ok (pending, r)
  | .operator operator :: pending, r => do
    applyToParen paren span pending (← r.apply operator span)
  | [], _ => .error (.atSpan (.malformedExpression .unbalancedParentheses) paren)

/-- Applies all waiting operators at the end of the expression at `whole`. A parenthesis that
    still waits was never closed. -/
def applyAll (whole span : Span) : List Pending → Reduction → Except CompileError Reduction
  | .operator operator :: pending, r => do
    applyAll whole span pending (← r.apply operator span)
  | .openParen :: _, _ => .error (.atSpan (.malformedExpression .unbalancedParentheses) whole)
  | [], r => .ok r

/-- The single value that is left at the end of the expression at `whole`. -/
def result (r : Reduction) (whole : Span) : Except CompileError Int :=
  match r.operands with
  | [address] => .ok address
  | [] => .error (.atSpan (.malformedExpression .noOperands) whole)
  | _ => .error (.atSpan (.malformedExpression .missingOperator) whole)

end Reduction

namespace Lowering

variable {c : Countdown}

/-- Lowers the tokens of an expression from left to right, and applies what waits at its end. -/
def expressionTokens (whole span : Span) :
    List (ExpressionToken × Span) → List Pending → Reduction → LoweringBy c Reduction
  | [], pending, r => liftM (r.applyAll whole span pending)
  | (.operand operand, place) :: tokens, pending, r => do
    let address ← operandAddress operand place
    expressionTokens whole span tokens pending (r.push address)
  | (.operator operator, _) :: tokens, pending, r => do
    let (pending, r) ← liftM (r.applyTighter operator span pending)
    expressionTokens whole span tokens (.operator operator :: pending) r
  | (.openParen, _) :: tokens, pending, r =>
    expressionTokens whole span tokens (.openParen :: pending) r
  | (.closeParen, place) :: tokens, pending, r => do
    let (pending, r) ← liftM (r.applyToParen place span pending)
    expressionTokens whole span tokens pending r

/-- The address of the value of an expression and the code that computes it, for a statement at
    `span`. -/
def expression (e : Expression) (span : Span) : LoweringBy c (Int × List Instruction) := do
  let r ← expressionTokens e.span span e.tokens [] .empty
  return (← liftM (r.result e.span), r.code)

end Lowering

end AccumulatorMachine
