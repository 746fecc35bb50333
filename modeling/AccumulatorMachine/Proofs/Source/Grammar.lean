import AccumulatorMachine.Proofs.Source.Places
import AccumulatorMachine.Source.Statement.Grammar

/-!
# A Grammar of Statements

The forms of statements, as relations between tokens and what they mean.

There is no reader in here. Each relation lists the ways to write something, and an expression is
what an automaton with two states reads. The one place that looks beyond tokens is the declaration
of a string, which has the text behind its name.

## Main definitions

* `Source.IsOperand`: The ways to write an operand.
* `Source.Scans`, `Source.IsExpression`: Expressions.
* `Source.Follows`: What may follow the keyword of a statement.
* `Source.Denotes`: The statement that tokens denote.

## Theorems

* `Source.isOperand_iff`: An operand in front of other tokens.
* `Source.Scans.length_le`: No part of an expression is longer than its tokens.
* `Source.exists_isBody`: Every text is that of a string.
-/

namespace AccumulatorMachine

namespace Source

/-- The number that digits denote. -/
def number (digits : String) : Int := Nat.ofDigitChars 10 digits.toList 0

/-- A number with an optional minus sign that denotes a word. -/
inductive IsLiteral : List (Token × Span) → String → Int → Span → Prop where
  | plain {digits : String} {span : Span} (h : Word.InRange (number digits)) :
      IsLiteral [(.number digits, span)] digits (number digits) span
  | signed {digits : String} {sign span : Span} (h : Word.InRange (-number digits)) :
      IsLiteral [(.punctuation .minus, sign), (.number digits, span)] ("-" ++ digits)
        (-number digits) ⟨sign.start, span.stop⟩

/-- A name or a literal. -/
inductive IsOperand : List (Token × Span) → Operand → Span → Prop where
  | name {name : String} {span : Span} : IsOperand [(.identifier name, span)] (.name name) span
  | literal {tokens : List (Token × Span)} {spelling : String} {value : Int} {span : Span}
      (h : IsLiteral tokens spelling value span) : IsOperand tokens (.literal spelling value) span

/-- The three ways to write an operand. -/
theorem isOperand_iff {tokens rest : List (Token × Span)} {operand : Operand} {span : Span} :
    (∃ read, tokens = read ++ rest ∧ IsOperand read operand span) ↔
      (∃ name, operand = .name name ∧ tokens = (.identifier name, span) :: rest) ∨
      (∃ digits, Word.InRange (number digits) ∧ operand = .literal digits (number digits) ∧
        tokens = (.number digits, span) :: rest) ∨
      ∃ digits sign last, Word.InRange (-number digits) ∧
        operand = .literal ("-" ++ digits) (-number digits) ∧ span = ⟨sign.start, last.stop⟩ ∧
        tokens = (.punctuation .minus, sign) :: (.number digits, last) :: rest := by
  constructor
  · rintro ⟨read, rfl, h⟩
    cases h with
    | name => exact Or.inl ⟨_, rfl, rfl⟩
    | literal h =>
      cases h with
      | plain h => exact Or.inr (Or.inl ⟨_, h, rfl, rfl⟩)
      | signed h => exact Or.inr (Or.inr ⟨_, _, _, h, rfl, rfl, rfl⟩)
  · rintro (⟨name, rfl, rfl⟩ | ⟨digits, h, rfl, rfl⟩ | ⟨digits, sign, last, h, rfl, rfl, rfl⟩)
    · exact ⟨_, rfl, .name⟩
    · exact ⟨_, rfl, .literal (.plain h)⟩
    · exact ⟨_, rfl, .literal (.signed h)⟩

/-- An operator or a parenthesis. -/
inductive IsMark : Token → ExpressionToken → Prop where
  | plus : IsMark (.punctuation .plus) (.operator .add)
  | minus : IsMark (.punctuation .minus) (.operator .subtract)
  | star : IsMark (.punctuation .star) (.operator .multiply)
  | slash : IsMark (.punctuation .slash) (.operator .divide)
  | openParen : IsMark (.punctuation .openParen) .openParen
  | closeParen : IsMark (.punctuation .closeParen) .closeParen

/-- What an automaton with two states makes of tokens. The states are those of expecting an operand
    or not. An operand and a closing parenthesis lead to the second one, and all other marks to the
    first one. Where an operand is expected, a minus sign is that of a literal. -/
inductive Scans : Bool → List (Token × Span) → List (ExpressionToken × Span) → Prop where
  | done (expecting : Bool) : Scans expecting [] []
  | operand {tokens read rest : List (Token × Span)} {operand : Operand} {span : Span}
      {parts : List (ExpressionToken × Span)} (htokens : tokens = read ++ rest)
      (h : IsOperand read operand span) (hrest : Scans false rest parts) :
      Scans true tokens ((.operand operand, span) :: parts)
  | mark {expecting : Bool} {token : Token} {span : Span} {rest : List (Token × Span)}
      {mark : ExpressionToken} {parts : List (ExpressionToken × Span)} (h : IsMark token mark)
      (hminus : expecting = true → token ≠ .punctuation .minus)
      (hrest : Scans (mark ≠ .closeParen) rest parts) :
      Scans expecting ((token, span) :: rest) ((mark, span) :: parts)

/-- An expression that is not empty, from its first part to its last. -/
structure IsExpression (tokens : List (Token × Span)) (e : Expression) : Prop where
  scans : Scans true tokens e.tokens
  span : ∃ first last, e.tokens.head? = some first ∧ e.tokens.getLast? = some last ∧
    e.span = ⟨first.2.start, last.2.stop⟩

theorem IsOperand.length_pos {read : List (Token × Span)} {operand : Operand} {span : Span}
    (h : IsOperand read operand span) : 0 < read.length := by
  cases h with
  | name => exact Nat.one_pos
  | literal h => cases h <;> exact Nat.succ_pos _

/-- No part of an expression is longer than its tokens. -/
theorem Scans.length_le {expecting : Bool} {tokens : List (Token × Span)}
    {parts : List (ExpressionToken × Span)} (h : Scans expecting tokens parts) :
    parts.length ≤ tokens.length := by
  induction h with
  | done => exact Nat.le_refl _
  | operand htokens hop hrest ih =>
    have hpos := hop.length_pos
    rw [htokens, List.length_append, List.length_cons]
    omega
  | mark hmark hminus hrest ih => exact Nat.succ_le_succ ih

/-- The relation of a condition. -/
inductive IsComparison : Punctuation → Comparison → Prop where
  | greater : IsComparison .greater .greater
  | greaterEqual : IsComparison .greaterEqual .greaterEqual
  | less : IsComparison .less .less
  | lessEqual : IsComparison .lessEqual .lessEqual
  | equal : IsComparison .equal .equal
  | notEqual : IsComparison .notEqual .notEqual

/-- A name in parentheses. -/
inductive IsArgument : List (Token × Span) → String → Prop where
  | parens {name : String} {first place last : Span} :
      IsArgument [(.punctuation .openParen, first), (.identifier name, place),
        (.punctuation .closeParen, last)] name

/-- The text of a string, with at most one white space character less in front. -/
inductive IsBody : List Char → List Char → Prop where
  | blank {c : Char} {body : List Char} (h : Text.isBlank c = true) : IsBody (c :: body) body
  | visible {body : List Char} (h : ∀ c ∈ body.head?, Text.isBlank c = false) : IsBody body body

theorem IsBody.stringText_eq {back body : List Char} (h : IsBody back body) :
    Statement.stringText back = String.ofList (body.filter (· ≠ '\n')) := by
  cases h with
  | blank h => simp only [Statement.stringText, if_pos h]
  | visible h =>
    cases back with
    | nil => rfl
    | cons c back =>
      have hc := h c rfl
      simp only [Statement.stringText, hc, Bool.false_eq_true, if_false]

theorem exists_isBody (back : List Char) : ∃ body, IsBody back body := by
  cases back with
  | nil => exact ⟨[], .visible (by simp)⟩
  | cons c back =>
    by_cases hc : Text.isBlank c = true
    · exact ⟨back, .blank hc⟩
    · exact ⟨c :: back, .visible (by simpa using hc)⟩

/-- What follows the keyword of a statement, and what the statement says. The whole statement is a
    text that starts at a byte offset of the source. -/
inductive Follows (text : List Char) (offset : Nat) :
    Keyword → List (Token × Span) → Statement.Form → Prop where
  | int {name spelling : String} {place span : Span} {tokens : List (Token × Span)} {value : Int}
      (h : IsLiteral tokens spelling value span) :
      Follows text offset .int ((.identifier name, place) :: tokens) (.int name value)
  /-- Anything may follow the name. Its text is taken, without line feeds. -/
  | string {name : String} {place : Span} {tokens : List (Token × Span)}
      {front back body : List Char} (htext : text = front ++ back)
      (hplace : place.stop = offset + Text.byteLength front) (hbody : IsBody back body) :
      Follows text offset .string ((.identifier name, place) :: tokens)
        (.string name (String.ofList (body.filter (· ≠ '\n'))))
  | new {name : String} {place : Span} {tokens : List (Token × Span)} {e : Expression}
      (h : IsExpression tokens e) :
      Follows text offset .new ((.identifier name, place) :: tokens) (.new name e)
  | newAssign {name : String} {place mark : Span} {tokens : List (Token × Span)} {e : Expression}
      (h : IsExpression tokens e) :
      Follows text offset .new
        ((.identifier name, place) :: (.punctuation .assign, mark) :: tokens) (.new name e)
  | loop {leftTokens rightTokens : List (Token × Span)} {left right : Operand}
      {leftSpan place rightSpan : Span} {mark : Punctuation} {comparison : Comparison}
      (hleft : IsOperand leftTokens left leftSpan) (hmark : IsComparison mark comparison)
      (hright : IsOperand rightTokens right rightSpan) :
      Follows text offset .loop (leftTokens ++ (.punctuation mark, place) :: rightTokens)
        (.loop left comparison right)
  | endLoop : Follows text offset .endLoop [] .endLoop
  | inputInt {tokens : List (Token × Span)} {name : String} (h : IsArgument tokens name) :
      Follows text offset .inputInt tokens (.inputInt name)
  | outputInt {tokens : List (Token × Span)} {name : String} (h : IsArgument tokens name) :
      Follows text offset .outputInt tokens (.outputInt name)
  | outputStr {tokens : List (Token × Span)} {name : String} (h : IsArgument tokens name) :
      Follows text offset .outputStr tokens (.outputStr name)
  | inputStr : Follows text offset .inputStr [] .inputStr
  | inputStrParens {first last : Span} :
      Follows text offset .inputStr
        [(.punctuation .openParen, first), (.punctuation .closeParen, last)] .inputStr
  /-- A name between the parentheses has no meaning. -/
  | inputStrArgument {tokens : List (Token × Span)} {name : String} (h : IsArgument tokens name) :
      Follows text offset .inputStr tokens .inputStr

/-- The statement that tokens of a text denote. It spans from its keyword to its last visible
    character. -/
inductive Denotes (text : List Char) (offset : Nat) :
    List (Token × Span) → Statement → Prop where
  | statement {word : Keyword} {place : Span} {tokens : List (Token × Span)}
      {form : Statement.Form} (h : Follows text offset word tokens form) :
      Denotes text offset ((.keyword word, place) :: tokens)
        ⟨form, ⟨place.start, offset + Text.byteLength (Text.trimEnd text)⟩⟩

end Source

end AccumulatorMachine
