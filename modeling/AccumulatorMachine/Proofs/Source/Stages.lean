import AccumulatorMachine.Proofs.Source.Printed

/-!
# Stages of a Statement

How far a statement has come after some of its tokens.

The tokens of statements are read by an automaton. A stage says what may come next, and it knows
what has come before only as far as this matters. Stages are written down in the order of what is
still missing: `name after` is the stage where a name has to come, and `after` is the one behind it.

Nothing in here is a reader. A stage never takes a token back, and it never has to look at a second
one. So a token that cannot come next is the first one that is wrong, whatever stands behind it.
This is worth something because the automaton has no dead ends. From every stage there is a way to
one where the statement may end, and its tokens are such that they can be printed.

## Main definitions

* `Statement.Stage`: What may come next in a statement.
* `Statement.Stage.next`: The stage behind a token.
* `Statement.Stage.run`: The stage behind several tokens.
* `Statement.Stage.final`: Where a statement may end.
* `Statement.Stage.blame`: What is wrong with a token that cannot come next.

## Theorems

* `Statement.Stage.completes`: There is a way to the end from every stage.
* `Statement.Stage.run_start_cons`: A stage remembers the keyword of its statement.
* `Statement.Stage.tokens_of_value`: Where the number of a declaration has to come.
* `Statement.Stage.error_not_mem`: Characters that start no token are only found in strings.
-/

namespace AccumulatorMachine

namespace Statement

/-- What may come next in a statement. -/
inductive Stage where
  /-- A keyword. -/
  | start
  /-- Nothing, because the statement with this keyword is complete. -/
  | done (word : Keyword)
  /-- Anything, because the text of a string has begun. -/
  | text
  | name (after : Stage)
  | mark (m : Punctuation) (after : Stage)
  | operand (after : Stage)
  /-- The number of an operand that has a sign. -/
  | negated (after : Stage)
  | comparison (after : Stage)
  /-- The number of a declaration, or its sign. -/
  | value
  /-- The number of a declaration behind its sign. -/
  | digits
  /-- An expression, or the assignment mark in front of it. -/
  | assignment
  | expression
  /-- More of an expression, which may also be over. -/
  | part (expecting : Bool)
  /-- The parenthesis that opens an argument, which may also be missing. -/
  | opening
  /-- A name, or the parenthesis that closes an argument. -/
  | argument
  deriving DecidableEq

namespace Stage

/-- What follows a keyword. -/
def ofKeyword : Keyword → Stage
  | .int => name value
  | .string => name text
  | .new => name assignment
  | .loop => operand (comparison (operand (done .loop)))
  | .endLoop => done .endLoop
  | .inputStr => opening
  | .inputInt => mark .openParen (name (mark .closeParen (done .inputInt)))
  | .outputInt => mark .openParen (name (mark .closeParen (done .outputInt)))
  | .outputStr => mark .openParen (name (mark .closeParen (done .outputStr)))

/-- The stage behind the digits of a number, if it is a word. -/
def ofNumber (value : Int) (after : Stage) : Option Stage :=
  if Word.InRange value then some after else none

section OfNumber

variable {v : Int} {after q : Stage}

theorem ofNumber_of_inRange (h : Word.InRange v) : ofNumber v after = some after := if_pos h

theorem ofNumber_of_not_inRange (h : ¬ Word.InRange v) : ofNumber v after = none := if_neg h

theorem ofNumber_eq_some (h : ofNumber v after = some q) : Word.InRange v ∧ after = q := by
  rw [ofNumber] at h
  split at h
  · next hv => exact ⟨hv, Option.some.inj h⟩
  · cases h

end OfNumber

/-- The stage behind the first token of an operand. -/
def ofOperand (after : Stage) : Token → Option Stage
  | .identifier _ => some after
  | .number spelled => ofNumber (Source.number spelled) after
  | .punctuation .minus => some (negated after)
  | _ => none

/-- The stage behind the first token of a part of an expression. -/
def ofPart (expecting : Bool) (token : Token) : Option Stage :=
  if expecting && startsOperand token then ofOperand (part false) token
  else (expressionMark? token).map fun mark => part (mark ≠ .closeParen)

/-- The marks of comparisons. -/
def isComparison : Punctuation → Bool
  | .greater | .greaterEqual | .less | .lessEqual | .equal | .notEqual => true
  | _ => false

/-- The stage behind a token, if the token may come next. -/
def next : Stage → Token → Option Stage
  | start, .keyword word => some (ofKeyword word)
  | text, _ => some text
  | name after, .identifier _ => some after
  | mark m after, token => if token = .punctuation m then some after else none
  | operand after, token => ofOperand after token
  | negated after, .number spelled => ofNumber (-Source.number spelled) after
  | comparison after, .punctuation m => if isComparison m then some after else none
  | value, .number spelled => ofNumber (Source.number spelled) (done .int)
  | value, .punctuation .minus => some digits
  | digits, .number spelled => ofNumber (-Source.number spelled) (done .int)
  | assignment, .punctuation .assign => some expression
  | assignment, token => ofPart true token
  | expression, token => ofPart true token
  | part expecting, token => ofPart expecting token
  | opening, .punctuation .openParen => some argument
  | argument, .identifier _ => some (mark .closeParen (done .inputStr))
  | argument, .punctuation .closeParen => some (done .inputStr)
  | _, _ => none

/-- Whether the statement may end here. -/
def final : Stage → Bool
  | done _ | text | part _ | opening => true
  | _ => false

/-- What is wrong with a token that may not come next. -/
def blame : Stage → Token → ParseError.Cause
  | start, _ => .unknownStatement
  | done _, _ | opening, _ => .trailingInput
  | value, _ | digits, _ => .invalidLiteral
  | operand _, .number _ | negated _, .number _ | assignment, .number _ | expression, .number _
  | part true, .number _ => .invalidLiteral
  | _, _ => .unexpectedToken

/-- The stage behind several tokens, if each of them may come next. -/
def run (q : Stage) (tokens : List Token) : Option Stage := tokens.foldlM next q

section Run

variable {q q' : Stage} {tokens : List Token}

@[simp] theorem run_nil : q.run [] = some q := rfl

theorem run_cons {token : Token} (h : q.next token = some q') :
    q.run (token :: tokens) = q'.run tokens := by
  simp only [run, List.foldlM_cons, h]
  rfl

theorem run_cons_eq_some {token : Token} (h : q.run (token :: tokens) = some q') :
    ∃ mid, q.next token = some mid ∧ mid.run tokens = some q' := by
  rw [run, List.foldlM_cons] at h
  exact Option.bind_eq_some_iff.mp h

theorem run_append (h : q.run tokens = some q') (more : List Token) :
    q.run (tokens ++ more) = q'.run more := by
  have hrun : tokens.foldlM next q = some q' := h
  simp only [run, List.foldlM_append, hrun]
  rfl

/-- What may come after something may only come if this may. -/
theorem run_isSome_of_append {more : List Token} (h : (q.run (tokens ++ more)).isSome) :
    (q.run tokens).isSome := by
  rw [run, List.foldlM_append] at h
  exact Option.isSome_of_isSome_bind h

end Run

/-! ## The way to the end -/

/-- Tokens that a text can have lead to a stage where the statement may end. -/
def Completes (q : Stage) : Prop :=
  ∃ tokens last, (∀ token ∈ tokens, token.Printable) ∧ q.run tokens = some last ∧ last.final = true

theorem Completes.here {q : Stage} (h : q.final = true) : q.Completes :=
  ⟨[], q, by simp, rfl, h⟩

theorem Completes.behind {q after : Stage} (token : Token) (htoken : token.Printable)
    (hnext : q.next token = some after) (h : after.Completes) : q.Completes := by
  rcases h with ⟨tokens, last, htokens, hrun, hlast⟩
  exact ⟨token :: tokens, last, List.forall_mem_cons.mpr ⟨htoken, htokens⟩,
    (run_cons hnext).trans hrun, hlast⟩

theorem printable_zero : (Token.number "0").Printable := by
  refine ⟨by decide, ?_⟩
  simp only [← Token.isDigit_iff]
  exact List.all_eq_true.mp (by decide)

/-- There are no dead ends. -/
theorem completes (q : Stage) : q.Completes := by
  induction q with
  | start => exact .behind (.keyword .endLoop) trivial rfl (.here rfl)
  | done | text | part | opening => exact .here rfl
  | name after ih => exact .behind (.identifier "x") printable_x rfl ih
  | mark m after ih => exact .behind (.punctuation m) trivial (if_pos rfl) ih
  | operand after ih => exact .behind (.identifier "x") printable_x rfl ih
  | negated after ih => exact .behind (.number "0") printable_zero rfl ih
  | comparison after ih => exact .behind (.punctuation .equal) trivial rfl ih
  | value => exact .behind (.number "0") printable_zero rfl (.here rfl)
  | digits => exact .behind (.number "0") printable_zero rfl (.here rfl)
  | assignment | expression => exact .behind (.identifier "x") printable_x rfl (.here rfl)
  | argument => exact .behind (.punctuation .closeParen) trivial rfl (.here rfl)

/-! ## What a stage remembers -/

/-- The keyword of the statement, once it has come. -/
def word? : Stage → Option Keyword
  | start => none
  | done word => some word
  | text => some .string
  | name after | mark _ after | operand after | negated after | comparison after => after.word?
  | value | digits => some .int
  | assignment | expression | part _ => some .new
  | opening | argument => some .inputStr

section Word

variable {q q' : Stage} {tokens : List Token}

theorem word?_ofKeyword (word : Keyword) : (ofKeyword word).word? = some word := by
  cases word <;> rfl

theorem word?_of_ofOperand {after : Stage} {token : Token} (h : ofOperand after token = some q') :
    q'.word? = after.word? := by
  unfold ofOperand at h
  split at h
  · exact Option.some.inj h ▸ rfl
  · exact (ofNumber_eq_some h).2 ▸ rfl
  · exact Option.some.inj h ▸ rfl
  · cases h

theorem word?_of_ofPart {expecting : Bool} {token : Token} (h : ofPart expecting token = some q') :
    q'.word? = some .new := by
  rw [ofPart] at h
  split at h
  · exact word?_of_ofOperand h
  · rcases Option.map_eq_some_iff.mp h with ⟨mark, -, rfl⟩
    rfl

/-- Once the keyword has come, no token changes it. -/
theorem word?_next {token : Token} (h : q.next token = some q') (hq : q ≠ start) :
    q'.word? = q.word? := by
  unfold next at h
  split at h
  all_goals first
    | exact absurd rfl hq
    | exact (word?_of_ofOperand h :)
    | exact (word?_of_ofPart h :)
    | exact (ofNumber_eq_some h).2 ▸ rfl
    | cases h <;> rfl
    | split at h <;> cases h
      rfl

theorem word?_run {word : Keyword} (h : q.run tokens = some q') (hq : q.word? = some word) :
    q'.word? = some word := by
  induction tokens generalizing q with
  | nil => exact Option.some.inj h ▸ hq
  | cons token tokens ih =>
    rcases run_cons_eq_some h with ⟨mid, hnext, hrun⟩
    have hstart : q ≠ start := by
      rintro rfl
      cases hq
    exact ih hrun ((word?_next hnext hstart).trans hq)

/-- The first token of a statement is its keyword. -/
theorem run_start_cons {token : Token} (h : start.run (token :: tokens) = some q') :
    ∃ word, token = .keyword word ∧ (ofKeyword word).run tokens = some q' ∧
      q'.word? = some word := by
  rcases run_cons_eq_some h with ⟨mid, hnext, hrun⟩
  cases token with
  | keyword word =>
    cases hnext
    exact ⟨word, rfl, hrun, word?_run hrun (word?_ofKeyword word)⟩
  | error | identifier | number | punctuation => cases hnext

theorem eq_nil_of_run_start (h : start.run tokens = some start) : tokens = [] := by
  cases tokens with
  | nil => rfl
  | cons token tokens =>
    rcases run_start_cons h with ⟨word, -, -, hword⟩
    cases hword

/-- Nothing comes behind a complete statement. -/
theorem run_done {word : Keyword} (h : (done word).run tokens = some q') : q' = done word := by
  cases tokens with
  | nil => exact (Option.some.inj h).symm
  | cons token tokens =>
    rcases run_cons_eq_some h with ⟨mid, hnext, -⟩
    cases hnext

/-- The stages of a declaration of an integer, with all that has come. -/
theorem run_value (h : (name value).run tokens = some q') :
    q' = name value ∨ (∃ x, tokens = [.identifier x] ∧ q' = value) ∨
      (∃ x, tokens = [.identifier x, .punctuation .minus] ∧ q' = digits) ∨ q' = done .int := by
  -- At each of three stages the tokens may have come to an end.
  rcases tokens with _ | ⟨token, tokens⟩
  · exact Or.inl (Option.some.inj h).symm
  rcases run_cons_eq_some h with ⟨mid, hname, hrun⟩
  cases token with
  | error | keyword | number | punctuation => cases hname
  | identifier x =>
    cases hname
    rcases tokens with _ | ⟨token, tokens⟩
    · exact Or.inr (Or.inl ⟨x, rfl, (Option.some.inj hrun).symm⟩)
    rcases run_cons_eq_some hrun with ⟨mid, hvalue, hrest⟩
    cases token with
    | error | keyword | identifier => cases hvalue
    | number digits =>
      rcases ofNumber_eq_some hvalue with ⟨-, rfl⟩
      exact Or.inr (Or.inr (Or.inr (run_done hrest)))
    | punctuation mark =>
      cases mark with
      | minus =>
        cases hvalue
        rcases tokens with _ | ⟨token, tokens⟩
        · exact Or.inr (Or.inr (Or.inl ⟨x, rfl, (Option.some.inj hrest).symm⟩))
        rcases run_cons_eq_some hrest with ⟨mid, hdigits, hlast⟩
        cases token with
        | error | keyword | identifier | punctuation => cases hdigits
        | number digits =>
          rcases ofNumber_eq_some hdigits with ⟨-, rfl⟩
          exact Or.inr (Or.inr (Or.inr (run_done hlast)))
      | _ => cases hvalue

/-- The number of a declaration has to come behind its name, and behind the sign. -/
theorem tokens_of_value (h : start.run tokens = some q) (hq : q = value ∨ q = digits) :
    ∃ x, tokens = [.keyword .int, .identifier x] ∨
      tokens = [.keyword .int, .identifier x, .punctuation .minus] := by
  cases tokens with
  | nil => rcases hq with rfl | rfl <;> cases h
  | cons token tokens =>
    rcases run_start_cons h with ⟨word, rfl, hrun, hword⟩
    have hint : word = .int := by rcases hq with rfl | rfl <;> cases hword <;> rfl
    subst hint
    rcases run_value hrun with rfl | ⟨x, rfl, -⟩ | ⟨x, rfl, -⟩ | rfl
    · rcases hq with hq | hq <;> cases hq
    · exact ⟨x, Or.inl rfl⟩
    · exact ⟨x, Or.inr rfl⟩
    · rcases hq with hq | hq <;> cases hq

end Word

/-! ## Strings -/

section Text

variable {q q' : Stage} {tokens : List Token}

/-- The text of a string goes on to the end of the statement. -/
theorem run_text (tokens : List Token) : text.run tokens = some text := by
  induction tokens with
  | nil => rfl
  | cons token tokens ih => exact (run_cons rfl).trans ih

theorem next_error (h : q.next .error = some q') : q = text := by
  cases q with
  | text => rfl
  | part expecting => cases expecting <;> cases h
  | start | done | name | mark | operand | negated | comparison | value | digits | assignment
  | expression | opening | argument => cases h

/-- Only a string has characters that start no token. -/
theorem error_not_mem (h : q.run tokens = some q') (hq : q' ≠ text) : Token.error ∉ tokens := by
  induction tokens generalizing q with
  | nil => simp
  | cons token tokens ih =>
    rcases run_cons_eq_some h with ⟨mid, hnext, hrun⟩
    refine List.not_mem_cons_of_ne_of_not_mem ?_ (ih hrun)
    rintro rfl
    rw [next_error hnext, run_text] at h
    exact hq (Option.some.inj h).symm

end Text

/-! ## What is wrong -/

section Blame

variable {q : Stage} {token : Token}

theorem blame_ne_endOfStatement (q : Stage) (token : Token) :
    q.blame token ≠ .endOfStatement := by
  unfold blame
  split <;> decide

theorem eq_start_of_blame (h : q.blame token = .unknownStatement) : q = start := by
  unfold blame at h
  split at h <;> first | rfl | cases h

theorem final_of_blame (h : q.blame token = .trailingInput) :
    q.final = true ∧ ∀ expecting, q ≠ part expecting := by
  have hq : (∃ word, q = done word) ∨ q = opening := by
    unfold blame at h
    split at h <;> first | exact Or.inl ⟨_, rfl⟩ | exact Or.inr rfl | cases h
  rcases hq with ⟨word, rfl⟩ | rfl
  · exact ⟨rfl, by simp⟩
  · exact ⟨rfl, by simp⟩

/-- Where another statement than a `new` statement may end, what comes next is too much. -/
theorem blame_of_final (hfinal : q.final = true) (hpart : ∀ expecting, q ≠ part expecting)
    (hnext : q.next token = none) : q.blame token = .trailingInput := by
  cases q with
  | done | opening => rfl
  | text => cases hnext
  | part expecting => exact absurd rfl (hpart expecting)
  | start | name | mark | operand | negated | comparison | value | digits | assignment | expression
  | argument => cases hfinal

/-- A literal is invalid where the number of a declaration is missing, and where a number may come
    but not this one. -/
theorem cases_of_blame (h : q.blame token = .invalidLiteral) : q = value ∨ q = digits ∨
    ∃ spelled after, token = .number spelled ∧ q.next (.number "0") = some after := by
  unfold blame at h
  split at h
  all_goals first
    | exact Or.inl rfl
    | exact Or.inr (Or.inl rfl)
    | exact Or.inr (Or.inr ⟨_, _, rfl, rfl⟩)
    | cases h

theorem blame_number {spelled other : String} {after : Stage}
    (hnext : q.next (.number spelled) = none) (hother : q.next (.number other) = some after) :
    q.blame (.number spelled) = .invalidLiteral ∧ ¬ Word.InRange (Source.number spelled) := by
  have hplain : ∀ {after : Stage}, ofNumber (Source.number spelled) after = none →
      ¬ Word.InRange (Source.number spelled) := fun h hrange => by
    rw [ofNumber_of_inRange hrange] at h
    cases h
  -- The opposite of a word that is not negative is a word.
  have hsigned : ∀ {after : Stage}, ofNumber (-Source.number spelled) after = none →
      ¬ Word.InRange (Source.number spelled) := fun h hrange => by
    have hnonneg : 0 ≤ Source.number spelled := Int.natCast_nonneg _
    have hminus : Word.InRange (-Source.number spelled) := by
      simp only [Word.InRange, Word.minimum, Word.maximum] at hrange ⊢
      omega
    rw [ofNumber_of_inRange hminus] at h
    cases h
  cases q with
  | operand | value | assignment | expression => exact ⟨rfl, hplain hnext⟩
  | negated | digits => exact ⟨rfl, hsigned hnext⟩
  | part expecting =>
    cases expecting with
    | true => exact ⟨rfl, hplain hnext⟩
    | false => cases hother
  | text => cases hnext
  | mark m after =>
    rw [next, if_neg (by simp)] at hother
    cases hother
  | start | done | name | comparison | opening | argument => cases hother

end Blame

end Stage

end Statement

end AccumulatorMachine
