import AccumulatorMachine.Source.Statement
import AccumulatorMachine.Source.Token.Scan
import AccumulatorMachine.Source.TokenStream
import AccumulatorMachine.Text.Blank

/-!
# The Grammar of Statements

Reading a statement from its tokens. The first token decides which statement it is, and each
statement has a reader of its own for what follows.

Two statements look past the token level. A string declaration takes its text from the source
as it stands after the name, whatever tokens are in it. The arithmetic expression of a `new`
statement is checked only for what could be an operand: a minus sign where an operand has to
come is the sign of a literal, and the operator everywhere else.

## Main definitions

* `Statement.readOperand`: A name or a literal with an optional sign.
* `Statement.readExpression`: The tokens of an expression up to the end of the statement.
* `Statement.parse?`: The statement that a text holds.
-/

namespace AccumulatorMachine

namespace Statement

open TokenStream (Reader next peek take eat attempt inContext)

/-- Reads the name of a variable. -/
def readName : Reader Token (String × Span) :=
  attempt do
    match ← next with
    | (.identifier name, span) => return (name, span)
    | (_, span) => throw (.unexpected span)

/-- The word that digits after an optional minus sign denote. -/
def literalValue (negative : Bool) (digits : String) (span : Span) : Reader Token Int :=
  let size : Int := Nat.ofDigitChars 10 digits.toList 0
  match Word.checked (if negative then -size else size) with
  | some value => return value
  | none => throw (.ofCause .invalidLiteral span)

/-- Reads a name, or a literal with an optional minus sign. -/
def readOperand : Reader Token (Operand × Span) :=
  attempt do
    match ← next with
    | (.identifier name, span) => return (.name name, span)
    | (.number digits, span) =>
      return (.literal digits (← literalValue false digits span), span)
    | (.punctuation .minus, sign) =>
      -- A sign belongs to the literal, and the spelling shows no space between them.
      match ← next with
      | (.number digits, span) =>
        let value ← literalValue true digits span
        return (.literal ("-" ++ digits) value, ⟨sign.start, span.stop⟩)
      | (_, span) => throw (.unexpected span)
    | (_, span) => throw (.unexpected span)

/-- Reads a declaration of an integer after its keyword. -/
def readInt : Reader Token Form := do
  let (name, _) ← inContext .variableName readName
  let negative ← eat (.punctuation .minus)
  match ← inContext .initialValue next with
  | (.number digits, span) => return .int name (← literalValue negative digits span)
  | (_, span) => throw (.ofCause .invalidLiteral span)

/-- The value of a string declaration from the source after its name: one white space character
    before it is left out, and so is every line feed. -/
def stringText (source : List Char) : String :=
  let text := match source with
    | c :: text => if Text.isBlank c then text else c :: text
    | [] => []
  String.ofList (text.filter (· ≠ '\n'))

/-- Reads a declaration of a string after its keyword. `text` is the whole statement, which
    starts at `offset` in the source. -/
def readString (text : List Char) (offset : Nat) : Reader Token Form := do
  let (name, span) ← inContext .variableName readName
  -- The tokens of the text are passed over, so that nothing is left at the end.
  let _ ← TokenStream.rest
  return .string name (stringText (Text.dropBytes (span.stop - offset) text))

/-- Whether a token starts an operand where one has to come. -/
def startsOperand : Token → Bool
  | .identifier _ => true
  | .number _ => true
  | .punctuation .minus => true
  | _ => false

/-- The operator or parenthesis that a token is. -/
def expressionMark? : Token → Option ExpressionToken
  | .punctuation .plus => some (.operator .add)
  | .punctuation .minus => some (.operator .subtract)
  | .punctuation .star => some (.operator .multiply)
  | .punctuation .slash => some (.operator .divide)
  | .punctuation .openParen => some .openParen
  | .punctuation .closeParen => some .closeParen
  | _ => none

/-- Reads at most `count` parts of an expression. An operand has to come first and after
    everything but an operand and a closing parenthesis. -/
def readExpressionTokens : (count : Nat) → (expectOperand : Bool) →
    Reader Token (List (ExpressionToken × Span))
  | 0, _ => return []
  | count + 1, expectOperand => do
    match (← get).peek with
    | none => return []
    | some (token, span) =>
      if expectOperand && startsOperand token then
        let (operand, span) ← readOperand
        return (.operand operand, span) :: (← readExpressionTokens count false)
      else match expressionMark? token with
        | none => throw (.unexpected span)
        | some mark =>
          -- A mark counts even where an operand has to come. What it lacks shows in lowering.
          let _ ← next
          return (mark, span) :: (← readExpressionTokens count (mark ≠ .closeParen))

/-- Reads an expression, which goes on to the end of the statement and has at least one token. No
    part of it is longer than its tokens, so their number bounds the number of parts. -/
def readExpression : Reader Token Expression := do
  let s ← get
  match s.peek with
  | none => throw (.atEnd s.stop)
  | some (_, first) =>
    let tokens ← readExpressionTokens s.after.length true
    let last := (tokens.getLast?.map Prod.snd).getD first
    return ⟨tokens, ⟨first.start, last.stop⟩⟩

/-- Reads a `new` statement after its keyword. The assignment mark is optional. -/
def readNew : Reader Token Form := do
  let (name, _) ← inContext .variableName readName
  let _ ← eat (.punctuation .assign)
  return .new name (← inContext .expression readExpression)

/-- Reads the relation of a condition. -/
def readComparison : Reader Token Comparison :=
  attempt do
    match ← next with
    | (.punctuation .greater, _) => return .greater
    | (.punctuation .greaterEqual, _) => return .greaterEqual
    | (.punctuation .less, _) => return .less
    | (.punctuation .lessEqual, _) => return .lessEqual
    | (.punctuation .equal, _) => return .equal
    | (.punctuation .notEqual, _) => return .notEqual
    | (_, span) => throw (.unexpected span)

/-- Reads the condition of a loop. -/
def readLoop : Reader Token Form := do
  let (left, _) ← inContext .leftOperand readOperand
  let comparison ← inContext .comparison readComparison
  let (right, _) ← inContext .rightOperand readOperand
  return .loop left comparison right

/-- Reads a name in parentheses. -/
def readArgument : Reader Token String := do
  let _ ← take (.punctuation .openParen)
  let (name, _) ← inContext .variableName readName
  let _ ← take (.punctuation .closeParen)
  return name

/-- Reads the parentheses of an `input_str` statement, which may be missing or hold a name that
    has no meaning. -/
def readInputStr : Reader Token Form := do
  if ← eat (.punctuation .openParen) then
    if let some (.identifier _, _) := (← get).peek then
      let _ ← next
    let _ ← inContext (.call .inputStr) (take (.punctuation .closeParen))
  return .inputStr

/-- Reads what follows the keyword of a statement. -/
def readForm (text : List Char) (offset : Nat) : Keyword → Reader Token Form
  | .int => inContext .intDeclaration readInt
  | .string => inContext .stringDeclaration (readString text offset)
  | .new => inContext .newStatement readNew
  | .loop => inContext .loopStatement readLoop
  | .endLoop => return .endLoop
  | .inputInt => return .inputInt (← inContext (.call .inputInt) readArgument)
  | .outputInt => return .outputInt (← inContext (.call .outputInt) readArgument)
  | .inputStr => readInputStr
  | .outputStr => return .outputStr (← inContext (.call .outputStr) readArgument)

/-- Reads a statement. It spans from its keyword to its last character that is not white
    space. -/
def read (text : List Char) (offset : Nat) : Reader Token Statement := do
  let (token, span) ← next
  match token with
  | .keyword keyword =>
    let form ← readForm text offset keyword
    TokenStream.expectEnd
    return ⟨form, ⟨span.start, offset + Text.byteLength (Text.trimEnd text)⟩⟩
  | _ => throw (.ofCause .unknownStatement span)

/-- The statement that a text holds. The text starts at `offset` in the source, and all spans are
    those of the source. -/
def parse? (text : List Char) (offset : Nat) : Except ParseError Statement :=
  ((read text offset).runOn
    (.ofTokens (Token.scan offset text) (offset + Text.byteLength text))).1

end Statement

end AccumulatorMachine
