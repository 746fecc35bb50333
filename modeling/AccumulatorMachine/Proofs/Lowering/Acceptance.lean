import AccumulatorMachine.Proofs.Lowering.Formula
import AccumulatorMachine.Proofs.Lowering.Refusal
import AccumulatorMachine.Proofs.Phrase

/-!
# Which Expressions Are Lowered

An expression whose operands have addresses is lowered or refused for its form alone.

The lowering compares parentheses, and it counts values whenever it applies an operator and once
more at the end. It never asks where the values come from. So what it accepts is more than the
sentences of the grammar of infix expressions, which it accepts all. It accepts a phrase if its
operators find two values each in the order in which precedence applies them, and one value is left
of all. `( a ) ( b ) +` is such a phrase, and so are `+ a ( b )` and `a ( )`.

The proof reads a phrase as `Lowering.expressionTokens_formula` reads a formula: what waits when the
tokens of a phrase have been read binds at least as tightly as the phrase holds together, and is
applied before anything else. What is new is that this may fail, now or while the phrase is read.

## Main definitions

* `Lowering.operands`: Looks up all operands of an expression.
* `Reduction.LeavesValues`: How many values a computation leaves.
* `Lowering.ReadsPhrase`: What is left to do when the tokens of a phrase have been read.
* `CompileError.Malformed`: An error in the form of an expression.

## Theorems

* `Lowering.expressionTokens_phrase`: Reading the tokens of a phrase.
* `Lowering.expression_phrase`: A phrase is lowered if one value is left of it.
* `Lowering.expression_of_reads`: A formula is lowered.
* `Lowering.expression_malformed`: If the operands have addresses, only the form can be wrong.
* `Lowering.expression_accepts`: Which expressions are lowered.
-/

namespace AccumulatorMachine

/-- An error in the form of an expression. -/
def CompileError.Malformed (e : CompileError) : Prop :=
  ∃ reason place, e = .atSpan (.malformedExpression reason) place

namespace Reduction

/-! ## Counting values -/

/-- How many values a computation leaves. There is no number if it fails. -/
def LeavesValues (x : Except CompileError Reduction) : Option Nat → Prop
  | some n => ∃ r, x = .ok r ∧ r.operands.length = n
  | none => ∃ e, x = .error e

theorem leaves_ok_iff {r : Reduction} {n : Option Nat} :
    LeavesValues (.ok r) n ↔ n = some r.operands.length := by
  cases n with
  | none => simp [LeavesValues]
  | some n => simp [LeavesValues, eq_comm]

theorem LeavesValues.bind {x : Except CompileError Reduction} {n : Option Nat}
    {f : Reduction → Except CompileError Reduction} {g : Nat → Option Nat} (hx : LeavesValues x n)
    (hf : ∀ r, LeavesValues (f r) (g r.operands.length)) : LeavesValues (x >>= f) (n.bind g) := by
  cases n with
  | none =>
    obtain ⟨e, rfl⟩ := hx
    exact ⟨e, rfl⟩
  | some n =>
    obtain ⟨r, rfl, rfl⟩ := hx
    exact hf r

theorem leaves_apply (r : Reduction) (operator : BinaryOperator) (span : Span) :
    LeavesValues (r.apply operator span) (Phrase.combine r.operands.length) := by
  obtain ⟨operands, code⟩ := r
  match operands with
  | [] => exact ⟨_, rfl⟩
  | [_] => exact ⟨_, rfl⟩
  | _ :: _ :: _ => exact ⟨_, rfl, rfl⟩

theorem result_ok_iff (r : Reduction) (whole : Span) :
    (∃ a, r.result whole = .ok a) ↔ r.operands.length = 1 := by
  obtain ⟨operands, code⟩ := r
  match operands with
  | [] => simp [result]
  | [_] => simp [result]
  | _ :: _ :: _ => simp [result]

end Reduction

namespace Lowering

/-- Looks up the operands among tokens one after another, and gives cells to literals. -/
def operands : List (ExpressionToken × Span) → Lowering Unit
  | [] => return ()
  | (.operand o, place) :: tokens => do
    let _ ← operandAddress o place
    operands tokens
  | (.operator _, _) :: tokens => operands tokens
  | (.openParen, _) :: tokens => operands tokens
  | (.closeParen, _) :: tokens => operands tokens

theorem operands_append_ok {first second : List (ExpressionToken × Span)}
    {table table' : SymbolTable}
    (h : (operands (first ++ second)).run table = .ok ((), table')) :
    ∃ mid, (operands first).run table = .ok ((), mid)
      ∧ (operands second).run mid = .ok ((), table') := by
  induction first generalizing table with
  | nil => exact ⟨table, rfl, h⟩
  | cons token first ih =>
    obtain ⟨token, place⟩ := token
    cases token with
    | operand o =>
      obtain ⟨a, mid, ha, hrest⟩ := Outcome.run_bind_ok h
      obtain ⟨mid', hfirst, hsecond⟩ := ih hrest
      exact ⟨mid', (Outcome.run_bind_of_ok _ ha).trans hfirst, hsecond⟩
    | operator _ => exact ih h
    | openParen => exact ih h
    | closeParen => exact ih h

section Reading

open Reduction (LeavesValues applyOperators)

variable {whole span : Span} {tokens : List (ExpressionToken × Span)}

/-! ## What makes operators go -/

theorem run_operator {operators : List BinaryOperator} {incoming : BinaryOperator}
    (hle : ∀ o ∈ operators, incoming.precedence ≤ o.precedence) {pending : List Pending}
    (hbelow : Pending.Below incoming.precedence pending) (place : Span) (r : Reduction)
    (table : SymbolTable) :
    (expressionTokens whole span ((.operator incoming, place) :: tokens)
        (operators.map .operator ++ pending) r).run table
      = applyOperators span operators r >>= fun r =>
          (expressionTokens whole span tokens (.operator incoming :: pending) r).run table := by
  rw [expressionTokens, Outcome.run_liftM_bind, Reduction.applyTighter_operators hle hbelow]
  cases applyOperators span operators r <;> rfl

theorem run_closeParen (operators : List BinaryOperator) (pending : List Pending) (place : Span)
    (r : Reduction) (table : SymbolTable) :
    (expressionTokens whole span ((.closeParen, place) :: tokens)
        (operators.map .operator ++ .openParen :: pending) r).run table
      = applyOperators span operators r >>= fun r =>
          (expressionTokens whole span tokens pending r).run table := by
  rw [expressionTokens, Outcome.run_liftM_bind, Reduction.applyToParen_operators]
  cases applyOperators span operators r <;> rfl

theorem run_end (operators : List BinaryOperator) (r : Reduction) (table : SymbolTable) :
    (expressionTokens whole span [] (operators.map .operator) r).run table
      = applyOperators span operators r >>= fun r => .ok (r, table) := by
  rw [expressionTokens, Reduction.applyAll_operators]
  cases applyOperators span operators r <;> rfl

/-! ## Reading a phrase -/

/-- No operator binds as tightly as what has no operators. -/
theorem eq_nil_of_level {operators : List BinaryOperator} (h : ∀ o ∈ operators, 3 ≤ o.precedence) :
    operators = [] := by
  cases operators with
  | nil => rfl
  | cons o _ => exact absurd (h o (.head _)) (Nat.not_le_of_lt (Formula.precedence_lt o))

/-- Reading tokens as those of a phrase goes on to what follows, with operators waiting that bind at
    least as tightly as the phrase holds together and that decide what it leaves. Or it fails, if
    that is decided before. -/
def ReadsPhrase (whole span : Span) (tokens : List (ExpressionToken × Span)) (f : Phrase) : Prop :=
  ∀ (rest : List (ExpressionToken × Span)) (pending : List Pending), Pending.Below f.level pending →
    ∀ (r : Reduction) (table table' : SymbolTable),
      (operands tokens).run table = .ok ((), table') →
      (∃ operators r',
        (expressionTokens whole span (tokens ++ rest) pending r).run table
            = (expressionTokens whole span rest (operators.map .operator ++ pending) r').run table'
          ∧ (∀ o ∈ operators, f.level ≤ o.precedence)
          ∧ LeavesValues (applyOperators span operators r') (f.values r.operands.length))
        ∨ f.values r.operands.length = none
          ∧ ∃ e, (expressionTokens whole span (tokens ++ rest) pending r).run table = .error e

namespace ReadsPhrase

variable {before body left right : Phrase} {first second inner : List (ExpressionToken × Span)}

theorem nothing : ReadsPhrase whole span [] .nothing := by
  intro rest pending _ r table table' hoperands
  cases hoperands
  exact Or.inl ⟨[], r, rfl, by simp, r, rfl, rfl⟩

/-- After values side by side no operator waits. -/
theorem side_by_side (h : ReadsPhrase whole span first before) (hlevel : before.level = 3)
    (rest : List (ExpressionToken × Span)) {pending : List Pending}
    (hbelow : Pending.Below 3 pending) (r : Reduction) {table table' : SymbolTable}
    (hoperands : (operands first).run table = .ok ((), table')) :
    (∃ r', (expressionTokens whole span (first ++ rest) pending r).run table
          = (expressionTokens whole span rest pending r').run table'
        ∧ before.values r.operands.length = some r'.operands.length)
      ∨ before.values r.operands.length = none
        ∧ ∃ e, (expressionTokens whole span (first ++ rest) pending r).run table = .error e := by
  have hbelow' : Pending.Below before.level pending := by rwa [hlevel]
  rcases h rest pending hbelow' r table table' hoperands with
    ⟨operators, r', hrun, htight, hleaves⟩ | hfail
  · cases eq_nil_of_level fun o ho => hlevel ▸ htight o ho
    exact Or.inl ⟨r', hrun, Reduction.leaves_ok_iff.mp hleaves⟩
  · exact Or.inr hfail

theorem operand (h : ReadsPhrase whole span first before) (hlevel : before.level = 3) (o : Operand)
    (place : Span) :
    ReadsPhrase whole span (first ++ [(.operand o, place)]) (.operand before o) := by
  intro rest pending hbelow r table table' hoperands
  rcases operands_append_ok hoperands with ⟨mid, hfirst, hsecond⟩
  rcases Outcome.run_bind_ok hsecond with ⟨a, mid', ha, hend⟩
  cases hend
  rw [List.append_assoc]
  rcases h.side_by_side hlevel _ hbelow r hfirst with ⟨r', hrun, hcount⟩ | ⟨hnone, hfail⟩
  · refine Or.inl ⟨[], r'.push a, ?_, by simp, Reduction.leaves_ok_iff.mpr ?_⟩
    · rw [hrun]
      exact Outcome.run_bind_of_ok _ ha
    · simp only [Phrase.values, hcount, Option.map_some]
      rfl
  · exact Or.inr ⟨by rw [Phrase.values, hnone]; rfl, hfail⟩

theorem paren (h : ReadsPhrase whole span first before) (hlevel : before.level = 3)
    (hbody : ReadsPhrase whole span inner body) (opening closing : Span) :
    ReadsPhrase whole span (first ++ (.openParen, opening) :: (inner ++ [(.closeParen, closing)]))
      (.paren before body) := by
  intro rest pending hbelow r table table' hoperands
  rcases operands_append_ok hoperands with ⟨mid, hfirst, hsecond⟩
  have hgroup : (operands (inner ++ [(.closeParen, closing)])).run mid = .ok ((), table') := hsecond
  rcases operands_append_ok hgroup with ⟨_, hinner, hend⟩
  cases hend
  rw [List.append_assoc, List.cons_append, List.append_assoc, List.singleton_append]
  rcases h.side_by_side hlevel _ hbelow r hfirst with ⟨r1, hrun, hcount⟩ | ⟨hnone, hfail⟩
  · have hvalues : (Phrase.paren before body).values r.operands.length
        = body.values r1.operands.length := by
      rw [Phrase.values, hcount, Option.bind_some]
    rw [hvalues, hrun, expressionTokens]
    -- Nothing below the parenthesis is applied before it is closed.
    have hparen : Pending.Below body.level (.openParen :: pending) := trivial
    rcases hbody _ _ hparen r1 mid _ hinner with
      ⟨operators, r2, hrun', -, hleaves⟩ | ⟨hnone, hfail⟩
    · rw [hrun', run_closeParen]
      cases hcount' : body.values r1.operands.length with
      | none =>
        obtain ⟨e, he⟩ : LeavesValues _ none := hcount' ▸ hleaves
        exact Or.inr ⟨rfl, e, by rw [he]; rfl⟩
      | some n =>
        obtain ⟨r3, hr3, hn⟩ : LeavesValues _ (some n) := hcount' ▸ hleaves
        exact Or.inl ⟨[], r3, by rw [hr3]; rfl, by simp, r3, rfl, hn⟩
    · exact Or.inr ⟨hnone, hfail⟩
  · exact Or.inr ⟨by rw [Phrase.values, hnone]; rfl, hfail⟩

theorem binary {operator : BinaryOperator} (hl : ReadsPhrase whole span first left)
    (hr : ReadsPhrase whole span second right) (hle : operator.precedence ≤ left.level)
    (hlt : operator.precedence < right.level) (place : Span) :
    ReadsPhrase whole span (first ++ (.operator operator, place) :: second)
      (.binary operator left right) := by
  intro rest pending hbelow r table table' hoperands
  rcases operands_append_ok hoperands with ⟨mid, hfirst, hsecond⟩
  rw [List.append_assoc, List.cons_append]
  rcases hl _ _ (hbelow.mono hle) r table mid hfirst with
    ⟨operators, r1, hrun, htight, hleaves⟩ | ⟨hnone, hfail⟩
  · -- The operator applies all that waits of the left side, and waits itself.
    rw [hrun, run_operator (fun o ho => Nat.le_trans hle (htight o ho)) hbelow]
    cases hcount : left.values r.operands.length with
    | none =>
      obtain ⟨e, he⟩ : LeavesValues _ none := hcount ▸ hleaves
      exact Or.inr ⟨by rw [Phrase.values, hcount]; rfl, e, by rw [he]; rfl⟩
    | some n =>
      obtain ⟨r2, hr2, rfl⟩ : LeavesValues _ (some n) := hcount ▸ hleaves
      have hvalues : (Phrase.binary operator left right).values r.operands.length
          = (right.values r2.operands.length).bind Phrase.combine := by
        rw [Phrase.values, hcount, Option.bind_some]
      rw [hvalues, hr2]
      -- The right side binds more tightly than the operator, which therefore goes on waiting.
      have hwaits : Pending.Below right.level (.operator operator :: pending) := hlt
      rcases hr _ _ hwaits r2 mid table' hsecond with
        ⟨operators', r3, hrun', htight', hleaves'⟩ | ⟨hnone, hfail⟩
      · refine Or.inl ⟨operators' ++ [operator], r3, ?_, Pending.tight_concat htight' hlt, ?_⟩
        · rw [List.map_append, List.append_assoc]
          exact hrun'
        · rw [Reduction.applyOperators_concat]
          exact hleaves'.bind fun r => Reduction.leaves_apply r operator span
      · exact Or.inr ⟨by rw [hnone]; rfl, hfail⟩
  · exact Or.inr ⟨by rw [Phrase.values, hnone]; rfl, hfail⟩

end ReadsPhrase

variable (whole span) in
/-- The tokens of a phrase are read as that phrase. -/
theorem expressionTokens_phrase {f : Phrase} (hf : f.WellGrouped)
    (htokens : tokens.map Prod.fst = f.tokens) : ReadsPhrase whole span tokens f := by
  induction f generalizing tokens with
  | nothing =>
    cases List.map_eq_nil_iff.mp htokens
    exact .nothing
  | operand before o ih =>
    rcases hf with ⟨hbefore, hlevel⟩
    rcases List.map_eq_append_iff.mp htokens with ⟨first, last, rfl, hfirst, hlast⟩
    rcases placed_singleton hlast with ⟨place, rfl⟩
    exact (ih hbefore hfirst).operand hlevel o place
  | paren before body ihb ih =>
    rcases hf with ⟨hbefore, hlevel, hbody⟩
    rcases List.map_eq_append_iff.mp htokens with ⟨first, group, rfl, hfirst, hgroup⟩
    rcases placed_group hgroup with ⟨opening, inner, closing, rfl, hinner⟩
    exact (ihb hbefore hfirst).paren hlevel (ih hbody hinner) opening closing
  | binary operator left right ihl ihr =>
    rcases hf with ⟨hl, hr, hle, hlt⟩
    rcases placed_binary htokens with ⟨first, place, second, rfl, hfirst, hsecond⟩
    exact (ihl hl hfirst).binary (ihr hr hsecond) hle hlt place

/-- A phrase is lowered if one value is left of it. -/
theorem expression_phrase {e : Expression} {f : Phrase} (htokens : e.tokens.map Prod.fst = f.tokens)
    (hf : f.WellGrouped) {table table' : SymbolTable}
    (hoperands : (operands e.tokens).run table = .ok ((), table')) :
    (∃ result, (expression e span).run table = .ok result) ↔ f.values 0 = some 1 := by
  rw [expression, StateT.run_bind]
  have hread := expressionTokens_phrase e.span span hf htokens [] []
    (show Pending.Below f.level [] from trivial) .empty table table' hoperands
  rw [List.append_nil] at hread
  rcases hread with ⟨operators, r', hrun, -, hleaves⟩ | ⟨hnone, e', hfail⟩
  · -- At the end all that waits is applied, and the values are counted once more.
    rw [hrun, List.append_nil, run_end]
    cases hcount : f.values 0 with
    | none =>
      obtain ⟨e', he⟩ : LeavesValues _ none := hcount ▸ hleaves
      simp [he, bind, Except.bind]
    | some n =>
      obtain ⟨r, hr, rfl⟩ : LeavesValues _ (some n) := hcount ▸ hleaves
      rw [hr, Option.some_inj, ← Reduction.result_ok_iff r e.span]
      show (∃ result, ((liftM (r.result e.span) >>= fun a => pure (a, r.code) : Lowering _)).run
        table' = .ok result) ↔ _
      rw [Outcome.run_liftM_bind]
      cases r.result e.span with
      | error e' => simp [bind, Except.bind]
      | ok a => exact ⟨fun _ => ⟨a, rfl⟩, fun _ => ⟨_, rfl⟩⟩
  · rw [hfail]
    simp only [show f.values 0 = none from hnone]
    simp [bind, Except.bind]

end Reading

/-! ## What can be wrong -/

section Malformed

/-- A computation that fails for the form of an expression only. -/
def FailsMalformed {α : Type} (x : Except CompileError α) : Prop := ∀ e, x = .error e → e.Malformed

theorem malformed_atSpan (reason : Malformation) (place : Span) :
    CompileError.Malformed (.atSpan (.malformedExpression reason) place) :=
  ⟨reason, place, rfl⟩

theorem expressionTokens_malformed (whole span : Span) {tokens : List (ExpressionToken × Span)}
    (pending : List Pending) (r : Reduction) {table table' : SymbolTable}
    (hoperands : (operands tokens).run table = .ok ((), table')) :
    FailsMalformed ((expressionTokens whole span tokens pending r).run table) := by
  have hspan := malformed_atSpan .missingOperand span
  induction tokens generalizing pending r table with
  | nil =>
    have hwhole := malformed_atSpan .unbalancedParentheses whole
    exact FailsOnly.run_liftM (Reduction.applyAll_fails hspan hwhole pending r) table
  | cons token tokens ih =>
    obtain ⟨token, place⟩ := token
    cases token with
    | operand o =>
      obtain ⟨a, mid, ha, hrest⟩ := Outcome.run_bind_ok hoperands
      rw [expressionTokens, Outcome.run_bind_of_ok _ ha]
      exact ih pending (r.push a) hrest
    | operator o =>
      rw [expressionTokens, Outcome.run_liftM_bind]
      exact (Reduction.applyTighter_fails hspan o pending r).bind fun next _ =>
        ih (.operator o :: next.1) next.2 hoperands
    | openParen => exact ih (.openParen :: pending) r hoperands
    | closeParen =>
      have hparen := malformed_atSpan .unbalancedParentheses place
      rw [expressionTokens, Outcome.run_liftM_bind]
      exact (Reduction.applyToParen_fails hspan hparen pending r).bind
        fun next _ => ih next.1 next.2 hoperands

/-- If the operands of an expression have addresses, only its form can be wrong. -/
theorem expression_malformed {e : Expression} (span : Span) {table table' : SymbolTable}
    (hoperands : (operands e.tokens).run table = .ok ((), table')) :
    FailsMalformed ((expression e span).run table) := by
  refine FailsOnly.run_bind (expressionTokens_malformed e.span span [] .empty hoperands) ?_
  intro r mid _
  have hresult := Reduction.result_fails (fun reason => malformed_atSpan reason e.span) r
  exact FailsOnly.run_bind (FailsOnly.run_liftM hresult mid) fun a mid _ => .ok _

end Malformed

/-! ## Parentheses -/

theorem count_applyTighter {incoming : BinaryOperator} {span : Span}
    {pending pending' : List Pending} {r r' : Reduction}
    (h : Reduction.applyTighter incoming span pending r = .ok (pending', r')) :
    pending'.count .openParen = pending.count .openParen := by
  fun_induction Reduction.applyTighter incoming span pending r with
  | case1 operator pending r _ ih =>
    obtain ⟨mid, -, hrest⟩ := Outcome.bind_ok h
    rw [ih mid hrest]
    rfl
  | _ =>
    cases h
    rfl

theorem count_applyToParen {paren span : Span} {pending pending' : List Pending} {r r' : Reduction}
    (h : Reduction.applyToParen paren span pending r = .ok (pending', r')) :
    pending.count .openParen = pending'.count .openParen + 1 := by
  fun_induction Reduction.applyToParen paren span pending r with
  | case1 =>
    cases h
    exact List.count_cons_self
  | case2 operator pending r ih =>
    obtain ⟨mid, -, hrest⟩ := Outcome.bind_ok h
    rw [← ih mid hrest]
    rfl
  | case3 => cases h

theorem count_applyAll {whole span : Span} {pending : List Pending} {r r' : Reduction}
    (h : Reduction.applyAll whole span pending r = .ok r') : pending.count .openParen = 0 := by
  fun_induction Reduction.applyAll whole span pending r with
  | case1 operator pending r ih =>
    obtain ⟨mid, -, hrest⟩ := Outcome.bind_ok h
    exact ih mid hrest
  | case2 => cases h
  | case3 => rfl

/-- The parentheses of an expression that is lowered are balanced. -/
theorem depth_of_expressionTokens {whole span : Span} {tokens : List (ExpressionToken × Span)}
    {pending : List Pending} {r r' : Reduction} {table table' : SymbolTable}
    (h : (expressionTokens whole span tokens pending r).run table = .ok (r', table')) :
    ExpressionToken.depth (tokens.map Prod.fst) (pending.count .openParen) = some 0 := by
  -- The depth is the number of parentheses that are still waiting.
  induction tokens generalizing pending r table with
  | nil => exact congrArg some (count_applyAll (Outcome.run_liftM_ok h).1)
  | cons token tokens ih =>
    obtain ⟨token, place⟩ := token
    cases token with
    | operand o =>
      obtain ⟨a, mid, -, hrest⟩ := Outcome.run_bind_ok h
      exact ih hrest
    | operator o =>
      obtain ⟨⟨pending', r1⟩, mid, hlift, hrest⟩ := Outcome.run_bind_ok h
      rw [← ih hrest, List.count_cons_of_ne (by simp), count_applyTighter
        (Outcome.run_liftM_ok hlift).1]
      rfl
    | openParen =>
      rw [← ih h, List.count_cons_self]
      rfl
    | closeParen =>
      obtain ⟨⟨pending', r1⟩, mid, hlift, hrest⟩ := Outcome.run_bind_ok h
      rw [count_applyToParen (Outcome.run_liftM_ok hlift).1, ← ih hrest]
      rfl

/-- An expression that is lowered is a phrase. -/
theorem exists_phrase_of_expressionTokens {whole span : Span}
    {tokens : List (ExpressionToken × Span)} {r r' : Reduction} {table table' : SymbolTable}
    (h : (expressionTokens whole span tokens [] r).run table = .ok (r', table')) :
    ∃ f : Phrase, tokens.map Prod.fst = f.tokens ∧ f.Derives .sum := by
  obtain ⟨f, htokens, hf⟩ := Phrase.exists_wellGrouped (depth_of_expressionTokens h)
  exact ⟨f, htokens.symm, Phrase.derives_iff.mpr ⟨hf, f.level_pos⟩⟩

/-- An expression that is a formula is lowered, if all its operands have addresses. -/
theorem expression_of_reads {e : Expression} {f : Formula} (hreads : e.Reads f) (span : Span)
    {table table' : SymbolTable} (hoperands : (operands e.tokens).run table = .ok ((), table')) :
    ∃ result, (expression e span).run table = .ok result := by
  have htokens := hreads.1.trans f.tokens_toPhrase.symm
  exact (expression_phrase htokens hreads.wellGrouped.toPhrase hoperands).mpr (f.values_toPhrase 0)

/-- Which expressions are lowered, if all their operands have addresses. All sentences of the
    grammar are, and the others are refused for their form unless their values happen to work
    out. -/
theorem expression_accepts {e : Expression} (span : Span) {table table' : SymbolTable}
    (hoperands : (operands e.tokens).run table = .ok ((), table')) :
    ((∃ result, (expression e span).run table = .ok result) ↔
        ∃ f : Phrase, e.tokens.map Prod.fst = f.tokens ∧ f.Derives .sum ∧ f.values 0 = some 1)
      ∧ (e.Infix → ∃ result, (expression e span).run table = .ok result)
      ∧ ∀ err, (expression e span).run table = .error err →
          ∃ reason place, err = .atSpan (.malformedExpression reason) place := by
  have haccepts : (∃ result, (expression e span).run table = .ok result) ↔
      ∃ f : Phrase, e.tokens.map Prod.fst = f.tokens ∧ f.Derives .sum ∧ f.values 0 = some 1 := by
    refine ⟨fun haccepted => ?_, fun ⟨f, htokens, hf, hvalues⟩ =>
      (expression_phrase htokens (Phrase.derives_iff.mp hf).1 hoperands).mpr hvalues⟩
    obtain ⟨⟨⟨a, code⟩, mid⟩, hrun⟩ := haccepted
    obtain ⟨r, mid', hread, -⟩ := Outcome.run_bind_ok hrun
    obtain ⟨f, htokens, hf⟩ := exists_phrase_of_expressionTokens hread
    have hwell := (Phrase.derives_iff.mp hf).1
    exact ⟨f, htokens, hf, (expression_phrase htokens hwell hoperands).mp ⟨_, hrun⟩⟩
  refine ⟨haccepts, fun hinfix => ?_, expression_malformed span hoperands⟩
  obtain ⟨f, hreads⟩ := hinfix.reads
  exact expression_of_reads hreads span hoperands

/-! ## A phrase that is no formula -/

/-- Two variables. -/
def twoVariables : SymbolTable :=
  ((SymbolTable.empty 998).bind "a" 1000).bind "b" 999

/-- The expression `( a ) ( b ) +`. -/
def operatorLast : Expression where
  tokens := [(.openParen, ⟨0, 1⟩), (.operand (.name "a"), ⟨2, 3⟩), (.closeParen, ⟨4, 5⟩),
    (.openParen, ⟨6, 7⟩), (.operand (.name "b"), ⟨8, 9⟩), (.closeParen, ⟨10, 11⟩),
    (.operator .add, ⟨12, 13⟩)]
  span := ⟨0, 13⟩

/-- The phrase that it is: two groups side by side on the left of the operator. -/
def operatorLastPhrase : Phrase :=
  .binary .add (.paren (.paren .nothing (.operand .nothing (.name "a")))
    (.operand .nothing (.name "b"))) .nothing

theorem operatorLast_not_infix : ¬ operatorLast.Infix := by
  rintro ⟨f, hf⟩
  obtain ⟨front, token, hlast, hno⟩ := f.exists_tokens_eq_append
  rw [hlast] at hf
  -- The last token of a formula is no operator.
  have hend := congrArg List.getLast? hf
  rw [List.getLast?_concat] at hend
  exact hno .add (Option.some.inj hend).symm

theorem operatorLast_accepted :
    (operands operatorLast.tokens).run twoVariables = .ok ((), twoVariables)
      ∧ ¬ operatorLast.Infix
      ∧ ∃ result, (expression operatorLast ⟨0, 13⟩).run twoVariables = .ok result := by
  have hoperands : (operands operatorLast.tokens).run twoVariables = .ok ((), twoVariables) := rfl
  refine ⟨hoperands, operatorLast_not_infix, (expression_accepts ⟨0, 13⟩ hoperands).1.mpr ?_⟩
  have hgroup : ∀ o, Phrase.Derives .sum (.operand .nothing o) :=
    fun o => .ofProduct (.ofFactor (.operand .nothing o))
  have hgroups := Phrase.Derives.paren (.paren .nothing (hgroup (.name "a"))) (hgroup (.name "b"))
  exact ⟨operatorLastPhrase, rfl, .add (.ofProduct (.ofFactor hgroups)) (.ofFactor .nothing), rfl⟩

end Lowering

end AccumulatorMachine
