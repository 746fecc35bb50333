import AccumulatorMachine.Proofs.Source.Readers

/-!
# Shifted Statements

What reading a statement makes of the place where its text stands.

All spans come from the scanner, which counts them from the offset that it is given. The readers
take them from the tokens, put them together, and look at the offset again only to find the text of
a string and the end of a statement. So a text that stands further on is the same statement further
on, or the same error further on.

`Shifts` is the property of readers that carries this through the grammar: on a stream further on, a
reader gives the same result further on, and leaves the same stream further on. It says so of two
readers at once, since those that know the offset are not the same ones in both places. Sequences of
readers have it piece by piece.

## Main definitions

* `Span.shift`, `Expression.shift`, `Statement.shift`, `ParseError.shift`: Something that has spans,
  with all of them further on.
* `ParseError.shiftResult`: The result of a reading, further on.
* `TokenStream.Shifts`: Readers that do the same in two places.

## Theorems

* `Token.scan_shift`: The tokens of a text further on.
* `TokenStream.Shifts.bind`: Readers one after another.
* `Statement.shifts_form`, `Statement.shifts_read`: Statements are read the same everywhere.
* `Statement.parse?_shift`: A statement does not depend on the place of its text.
-/

namespace AccumulatorMachine

/-- The span `d` bytes further on. -/
def Span.shift (d : Nat) (span : Span) : Span := ⟨span.start + d, span.stop + d⟩

/-- Something at a span, `d` bytes further on. -/
def Span.shiftAt {α : Type} (d : Nat) (placed : α × Span) : α × Span :=
  (placed.1, placed.2.shift d)

/-- The expression `d` bytes further on. -/
def Expression.shift (d : Nat) (e : Expression) : Expression :=
  ⟨e.tokens.map (Span.shiftAt d), e.span.shift d⟩

/-- What a statement says `d` bytes further on. Only expressions have spans. -/
def Statement.Form.shift (d : Nat) : Statement.Form → Statement.Form
  | .new name e => .new name (e.shift d)
  | form => form

/-- The statement `d` bytes further on. -/
def Statement.shift (d : Nat) (s : Statement) : Statement := ⟨s.form.shift d, s.span.shift d⟩

namespace ParseError

/-- The error `d` bytes further on. -/
def shift (d : Nat) (e : ParseError) : ParseError := { e with span := e.span.shift d }

/-- The result of a reading, `d` bytes further on, where `f` says what becomes of the thing read. -/
def shiftResult {α β : Type} (d : Nat) (f : α → β) : Except ParseError α → Except ParseError β
  | .ok a => .ok (f a)
  | .error e => .error (e.shift d)

end ParseError

/-- The tokens of a text that stands further on are those of the text, further on. -/
theorem Token.scan_shift (d offset : Nat) (text : List Char) :
    scan (offset + d) text = (scan offset text).map (Span.shiftAt d) := by
  induction offset, text using scan.induct with
  | case1 offset => rw [scan, scan, List.map_nil]
  | case2 offset c text hskipped ih =>
    rw [scan, scan, if_pos hskipped, if_pos hskipped, ← ih, Nat.add_right_comm]
  | case3 offset c text hskipped stop ih =>
    rw [scan, scan, if_neg hskipped, if_neg hskipped, List.map_cons, ← ih]
    simp only [Span.shiftAt, Span.shift, Nat.add_right_comm offset d, stop]

namespace TokenStream

variable {T α β : Type}

/-- The stream `d` bytes further on. -/
def shift (d : Nat) (s : TokenStream T) : TokenStream T :=
  ⟨s.before.map (Span.shiftAt d), s.after.map (Span.shiftAt d), s.stop + d⟩

theorem peek_shift (d : Nat) (s : TokenStream T) : (s.shift d).peek = s.peek.map (Span.shiftAt d) :=
  List.head?_map

/-- Two readers that do the same in two places, the second one `d` bytes further on. `f` says what
    becomes of what they read. -/
def Shifts (d : Nat) (f : α → β) (reader : Reader T α) (further : Reader T β) : Prop :=
  ∀ s, further.runOn (s.shift d)
    = (ParseError.shiftResult d f (reader.runOn s).1, (reader.runOn s).2.shift d)

namespace Shifts

variable {d : Nat}

theorem pure {f : α → β} (a : α) : Shifts d f (Pure.pure a : Reader T α) (Pure.pure (f a)) :=
  fun _ => rfl

theorem throw {f : α → β} (e : ParseError) :
    Shifts d f (MonadExcept.throw e : Reader T α) (MonadExcept.throw (e.shift d)) :=
  fun _ => rfl

theorem bind {α' β' : Type} {f : α → α'} {g : β → β'} {x : Reader T α} {x' : Reader T α'}
    {k : α → Reader T β} {k' : α' → Reader T β'} (hx : Shifts d f x x')
    (hk : ∀ a, Shifts d g (k a) (k' (f a))) : Shifts d g (x >>= k) (x' >>= k') := by
  intro s
  rw [runOn_bind, runOn_bind, hx s]
  rcases x.runOn s with ⟨_ | a, mid⟩
  · rfl
  · exact hk a mid

theorem get : Shifts d (shift d) (MonadState.get : Reader T (TokenStream T)) MonadState.get :=
  fun _ => rfl

theorem next : Shifts d (Span.shiftAt d) (next : Reader T (T × Span)) next := by
  rintro ⟨before, _ | ⟨token, after⟩, stop⟩
  · rfl
  · rfl

/-- The next token decides how reading goes on. -/
theorem next_bind {f : α → β} {k : T × Span → Reader T α} {k' : T × Span → Reader T β}
    (hk : ∀ token span, Shifts d f (k (token, span)) (k' (token, span.shift d))) :
    Shifts d f (TokenStream.next >>= k) (TokenStream.next >>= k') :=
  bind next fun token => hk token.1 token.2

theorem set (s : TokenStream T) :
    Shifts d id (MonadStateOf.set s : Reader T PUnit) (MonadStateOf.set (s.shift d)) :=
  fun _ => rfl

theorem rest : Shifts d (List.map (Span.shiftAt d)) (rest : Reader T (List (T × Span))) rest := by
  rintro ⟨before, after, stop⟩
  change (_, (⟨(after.map _).reverse ++ before.map _, [], stop + d⟩ : TokenStream T)) = _
  rw [← List.map_reverse, ← List.map_append]
  rfl

theorem attempt {f : α → β} {x : Reader T α} {x' : Reader T β} (h : Shifts d f x x') :
    Shifts d f (attempt x) (attempt x') := by
  intro s
  have hs := h s
  rcases hrun : x.runOn s with ⟨e | a, mid⟩
  · rw [hrun] at hs
    rw [attempt_error hrun, attempt_error hs]
    rfl
  · rw [hrun] at hs
    rw [attempt_ok hrun, attempt_ok hs]
    rfl

theorem inContext {f : α → β} {x : Reader T α} {x' : Reader T β} (context : ParseError.Context)
    (h : Shifts d f x x') : Shifts d f (inContext context x) (inContext context x') := by
  intro s
  rw [runOn_inContext, runOn_inContext, h s]
  rcases x.runOn s with ⟨_ | a, mid⟩
  · rfl
  · rfl

theorem ite {c : Prop} [Decidable c] {f : α → β} {x y : Reader T α} {x' y' : Reader T β}
    (hx : Shifts d f x x') (hy : Shifts d f y y') :
    Shifts d f (if c then x else y) (if c then x' else y') := by
  by_cases h : c
  · rw [if_pos h, if_pos h]
    exact hx
  · rw [if_neg h, if_neg h]
    exact hy

theorem take [DecidableEq T] (expected : T) :
    Shifts d (Span.shift d) (take expected : Reader T Span) (take expected) :=
  attempt (next_bind fun _ span => ite (pure span) (throw _))

theorem eat [DecidableEq T] (wanted : T) :
    Shifts d id (eat wanted : Reader T Bool) (eat wanted) := by
  refine bind get fun s => ?_
  obtain ⟨before, _ | ⟨token, after⟩, stop⟩ := s
  · exact pure false
  · exact ite (bind (set _) fun _ => pure true) (pure false)

theorem expectEnd : Shifts d id (expectEnd : Reader T Unit) expectEnd := by
  refine bind get fun s => ?_
  rw [peek_shift]
  cases s.peek with
  | none => exact pure ()
  | some token => exact throw _

end Shifts

end TokenStream

namespace Statement

open TokenStream (Shifts)

variable {d : Nat}

theorem shifts_name : Shifts d (Span.shiftAt d) readName readName := by
  refine Shifts.attempt (Shifts.next_bind fun token span => ?_)
  cases token with
  | identifier name => exact Shifts.pure _
  | error | keyword | number | punctuation => exact Shifts.throw _

theorem shifts_literalValue (negative : Bool) (digits : String) (span : Span) :
    Shifts d id (literalValue negative digits span)
      (literalValue negative digits (span.shift d)) := by
  rw [literalValue, literalValue]
  split
  · exact Shifts.pure _
  · exact Shifts.throw _

theorem shifts_operand : Shifts d (Span.shiftAt d) readOperand readOperand := by
  refine Shifts.attempt (Shifts.next_bind fun token span => ?_)
  cases token with
  | identifier name => exact Shifts.pure _
  | number digits =>
    exact Shifts.bind (shifts_literalValue false digits span) fun _ => Shifts.pure _
  | punctuation mark =>
    cases mark with
    | minus =>
      refine Shifts.next_bind fun token last => ?_
      cases token with
      | number digits =>
        exact Shifts.bind (shifts_literalValue true digits last) fun _ => Shifts.pure _
      | error | keyword | identifier | punctuation => exact Shifts.throw _
    | _ => exact Shifts.throw _
  | error | keyword => exact Shifts.throw _

theorem shifts_int : Shifts d (Form.shift d) readInt readInt := by
  refine Shifts.bind (Shifts.inContext _ shifts_name) fun name => ?_
  refine Shifts.bind (Shifts.eat _) fun negative => ?_
  refine Shifts.bind (Shifts.inContext _ Shifts.next) fun token => ?_
  obtain ⟨token, span⟩ := token
  cases token with
  | number digits =>
    exact Shifts.bind (shifts_literalValue negative digits span) fun _ => Shifts.pure _
  | error | keyword | identifier | punctuation => exact Shifts.throw _

/-- A string is the text after its name, wherever both stand. -/
theorem shifts_string (text : List Char) (offset : Nat) :
    Shifts d (Form.shift d) (readString text offset) (readString text (offset + d)) := by
  refine Shifts.bind (Shifts.inContext _ shifts_name) fun name => ?_
  refine Shifts.bind Shifts.rest fun _ => ?_
  obtain ⟨name, span⟩ := name
  simp only [Span.shift, Nat.add_sub_add_right]
  exact Shifts.pure _

theorem shifts_expressionTokens (count : Nat) (expectOperand : Bool) :
    Shifts d (List.map (Span.shiftAt d)) (readExpressionTokens count expectOperand)
      (readExpressionTokens count expectOperand) := by
  induction count generalizing expectOperand with
  | zero => exact Shifts.pure _
  | succ count ih =>
    refine Shifts.bind Shifts.get fun s => ?_
    rw [TokenStream.peek_shift]
    cases s.peek with
    | none => exact Shifts.pure _
    | some token =>
      refine Shifts.ite ?_ ?_
      · exact Shifts.bind shifts_operand fun _ => Shifts.bind (ih false) fun _ => Shifts.pure _
      · obtain ⟨token, span⟩ := token
        cases expressionMark? token with
        | none => exact Shifts.throw _
        | some mark =>
          exact Shifts.bind Shifts.next fun _ => Shifts.bind (ih _) fun _ => Shifts.pure _

theorem shifts_expression : Shifts d (Expression.shift d) readExpression readExpression := by
  refine Shifts.bind Shifts.get fun s => ?_
  rw [TokenStream.peek_shift]
  cases s.peek with
  | none => exact Shifts.throw _
  | some first =>
    -- There are as many tokens in both places, so the bound is the same.
    have hlength : (s.shift d).after.length = s.after.length := List.length_map _
    rw [hlength]
    refine Shifts.bind (shifts_expressionTokens _ true) fun tokens => ?_
    rw [List.getLast?_map]
    cases tokens.getLast? with
    | none => exact Shifts.pure _
    | some last => exact Shifts.pure _

theorem shifts_new : Shifts d (Form.shift d) readNew readNew :=
  Shifts.bind (Shifts.inContext _ shifts_name) fun _ =>
    Shifts.bind (Shifts.eat _) fun _ =>
      Shifts.bind (Shifts.inContext _ shifts_expression) fun _ => Shifts.pure _

theorem shifts_comparison : Shifts d id readComparison readComparison := by
  refine Shifts.attempt (Shifts.next_bind fun token span => ?_)
  cases token with
  | punctuation mark => cases mark <;> first | exact Shifts.pure _ | exact Shifts.throw _
  | error | keyword | identifier | number => exact Shifts.throw _

theorem shifts_loop : Shifts d (Form.shift d) readLoop readLoop :=
  Shifts.bind (Shifts.inContext _ shifts_operand) fun _ =>
    Shifts.bind (Shifts.inContext _ shifts_comparison) fun _ =>
      Shifts.bind (Shifts.inContext _ shifts_operand) fun _ => Shifts.pure _

theorem shifts_argument : Shifts d id readArgument readArgument :=
  Shifts.bind (Shifts.take _) fun _ =>
    Shifts.bind (Shifts.inContext _ shifts_name) fun _ =>
      Shifts.bind (Shifts.take _) fun _ => Shifts.pure _

theorem shifts_inputStr : Shifts d (Form.shift d) readInputStr readInputStr := by
  refine Shifts.bind (Shifts.eat _) fun opened => ?_
  cases opened with
  | false => exact Shifts.pure _
  | true =>
    have hclose : Shifts d (Form.shift d)
        (do
          let _ ← TokenStream.inContext (.call .inputStr)
            (TokenStream.take (Token.punctuation .closeParen))
          return Form.inputStr)
        (do
          let _ ← TokenStream.inContext (.call .inputStr)
            (TokenStream.take (Token.punctuation .closeParen))
          return Form.inputStr) :=
      Shifts.bind (Shifts.inContext _ (Shifts.take _)) fun _ => Shifts.pure _
    refine Shifts.bind Shifts.get fun s => ?_
    rw [TokenStream.peek_shift]
    -- A name between the parentheses is passed over.
    rcases s.peek with _ | ⟨token, span⟩
    · exact hclose
    · cases token with
      | identifier name => exact Shifts.bind Shifts.next fun _ => hclose
      | error | keyword | number | punctuation => exact hclose

/-- What follows a keyword is read the same everywhere. -/
theorem shifts_form (text : List Char) (offset : Nat) (keyword : Keyword) :
    Shifts d (Form.shift d) (readForm text offset keyword)
      (readForm text (offset + d) keyword) := by
  cases keyword with
  | int => exact Shifts.inContext _ shifts_int
  | string => exact Shifts.inContext _ (shifts_string text offset)
  | new => exact Shifts.inContext _ shifts_new
  | loop => exact Shifts.inContext _ shifts_loop
  | endLoop => exact Shifts.pure _
  | inputInt | outputInt | outputStr =>
    exact Shifts.bind (Shifts.inContext _ shifts_argument) fun _ => Shifts.pure _
  | inputStr => exact shifts_inputStr

/-- A statement is read the same everywhere. -/
theorem shifts_read (text : List Char) (offset : Nat) :
    Shifts d (Statement.shift d) (read text offset) (read text (offset + d)) := by
  refine Shifts.next_bind fun token span => ?_
  cases token with
  | keyword keyword =>
    refine Shifts.bind (shifts_form text offset keyword) fun form => ?_
    refine Shifts.bind Shifts.expectEnd fun _ => ?_
    rw [Nat.add_right_comm offset d]
    exact Shifts.pure _
  | error | identifier | number | punctuation => exact Shifts.throw _

/-- A statement further on is the same statement further on, or the same error. -/
theorem parse?_shift (text : List Char) (offset : Nat) : parse? text (offset + d)
    = ParseError.shiftResult d (Statement.shift d) (parse? text offset) := by
  have hstream : TokenStream.ofTokens (Token.scan (offset + d) text)
      (offset + d + Text.byteLength text)
        = (TokenStream.ofTokens (Token.scan offset text)
            (offset + Text.byteLength text)).shift d := by
    rw [Token.scan_shift, Nat.add_right_comm]
    rfl
  rw [parse?, hstream, shifts_read text offset]
  rfl

end Statement

end AccumulatorMachine
