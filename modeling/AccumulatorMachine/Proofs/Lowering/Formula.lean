import AccumulatorMachine.Proofs.Formula
import AccumulatorMachine.Proofs.Lowering.Inversion

/-!
# Lowering by Precedence

The code of an expression follows its formula from the leaves to the root.

The lowering reads tokens and keeps operators waiting on a stack, and `Formula.Lowers` walks over
the tree. They come to the same, although in the middle of an expression they do not agree: when
the tokens of a formula have been read, the operators on its right spine may still wait. But they
all bind at least as tightly as the formula holds together. Whatever comes next, an operator that
takes the formula as its left side, a closing parenthesis or the end, applies all of them before it
does anything else, and then the stack is back to what it was with the formula's address on top.

## Main definitions

* `Formula.Lowers`: The address, the code and the table that a formula leads to.
* `Reduction.applyOperators`: Applying waiting operators one after another.
* `Pending.Below`: A stack whose operators wait for something that binds more tightly.

## Theorems

* `Formula.Lowers.grows`, `Formula.Lowers.within`: The tables of a formula.
* `Lowering.placed_singleton`, `Lowering.placed_binary`, `Lowering.placed_group`: Tokens that are
  known except for their places.
* `Lowering.expressionTokens_formula`: Reading the tokens of a formula.
* `Lowering.expression_formula`: An expression is lowered as its formula.
-/

namespace AccumulatorMachine

/-- A formula is lowered from the leaves to the root, and from left to right. The result of an
    operator takes the place of its left side. -/
inductive Formula.Lowers :
    Formula → SymbolTable → Int → List Instruction → SymbolTable → Prop
  | operand {o : Operand} {place : Span} {table table' : SymbolTable} {a : Int}
      (h : (Lowering.operandAddress o place).run table = .ok (a, table')) :
      Lowers (.operand o) table a [] table'
  | binary {operator : BinaryOperator} {left right : Formula} {table mid table' : SymbolTable}
      {a b : Int} {first second : List Instruction} (hleft : left.Lowers table a first mid)
      (hright : right.Lowers mid b second table') :
      Lowers (.binary operator left right) table a
        (first ++ second ++ Reduction.operatorCode operator a b) table'
  | paren {body : Formula} {table table' : SymbolTable} {a : Int} {code : List Instruction}
      (h : body.Lowers table a code table') : Lowers (.paren body) table a code table'

theorem Formula.Lowers.grows {f : Formula} {table table' : SymbolTable} {a : Int}
    {code : List Instruction} (h : f.Lowers table a code table') : table.Grows table' := by
  induction h with
  | operand ha => exact Lowering.operandAddress_grows ha
  | binary _ _ ihl ihr => exact ihl.trans ihr
  | paren _ ih => exact ih

theorem Formula.Lowers.within {f : Formula} {table table' : SymbolTable} {a base : Int}
    {code : List Instruction} (h : f.Lowers table a code table') (hw : table.Within base) :
    table'.Within base ∧ table'.HandedOut base a := by
  induction h with
  | operand ha => exact Lowering.operandAddress_within ha hw
  | binary _ hright ihl ihr =>
    rcases ihl hw with ⟨hmid, ha⟩
    exact ⟨(ihr hmid).1, ha.mono hright.grows⟩
  | paren _ ih => exact ih hw

namespace Reduction

theorem operatorCode_eq (operator : BinaryOperator) (left right : Int) :
    operatorCode operator left right
      = [⟨.read, left⟩, ⟨operator.operation, right⟩, ⟨.write, left⟩] := by
  cases operator <;> rfl

/-- Applies operators one after another. -/
def applyOperators (span : Span) : List BinaryOperator → Reduction → Except CompileError Reduction
  | [], r => .ok r
  | operator :: operators, r => do applyOperators span operators (← r.apply operator span)

/-- The operator at the end is applied last. -/
theorem applyOperators_concat (span : Span) (operators : List BinaryOperator)
    (operator : BinaryOperator) (r : Reduction) :
    applyOperators span (operators ++ [operator]) r
      = applyOperators span operators r >>= fun r => r.apply operator span := by
  induction operators generalizing r with
  | nil =>
    show (r.apply operator span >>= fun r => .ok r) = r.apply operator span
    cases r.apply operator span <;> rfl
  | cons first rest ih =>
    simp only [List.cons_append, applyOperators]
    cases r.apply first span with
    | error e => rfl
    | ok mid => exact ih mid

end Reduction

/-- All operators down to the next parenthesis wait for something that binds more tightly than they
    do. It is enough to look at the top of the stack. -/
def Pending.Below (n : Nat) : List Pending → Prop
  | .operator o :: _ => o.precedence < n
  | _ => True

theorem Pending.Below.mono {n n' : Nat} {pending : List Pending} (h : Pending.Below n pending)
    (hn : n ≤ n') : Pending.Below n' pending := by
  match pending with
  | .operator _ :: _ => exact Nat.lt_of_lt_of_le h hn
  | .openParen :: _ => trivial
  | [] => trivial

/-- An operator below others that bind more tightly is the least of them. -/
theorem Pending.tight_concat {operators : List BinaryOperator} {operator : BinaryOperator} {n : Nat}
    (htight : ∀ o ∈ operators, n ≤ o.precedence) (hlt : operator.precedence < n) :
    ∀ o ∈ operators ++ [operator], operator.precedence ≤ o.precedence := by
  intro o ho
  rcases List.mem_append.mp ho with ho | ho
  · exact Nat.le_of_lt (Nat.lt_of_lt_of_le hlt (htight o ho))
  · cases List.mem_singleton.mp ho
    exact Nat.le_refl _

namespace Reduction

variable {span : Span} {operators : List BinaryOperator} {pending : List Pending}

/-- An operator lets those go first that bind at least as tightly. -/
theorem applyTighter_operators {incoming : BinaryOperator}
    (hle : ∀ o ∈ operators, incoming.precedence ≤ o.precedence)
    (hbelow : Pending.Below incoming.precedence pending) (r : Reduction) :
    applyTighter incoming span (operators.map .operator ++ pending) r
      = (applyOperators span operators r).map (pending, ·) := by
  -- The operators are applied from the top, and the one below them ends that.
  induction operators generalizing r with
  | nil =>
    match pending with
    | .operator operator :: _ =>
      rw [List.map_nil, List.nil_append, applyTighter, if_neg (Nat.not_le_of_lt hbelow)]
      rfl
    | .openParen :: _ => rfl
    | [] => rfl
  | cons operator rest ih =>
    rw [List.map_cons, List.cons_append, applyTighter, if_pos (hle operator List.mem_cons_self),
      applyOperators]
    cases r.apply operator span with
    | error e => rfl
    | ok mid => exact ih (fun o ho => hle o (List.mem_cons_of_mem operator ho)) mid

/-- A closing parenthesis lets all operators behind its opening one go first. -/
theorem applyToParen_operators (paren : Span) (r : Reduction) :
    applyToParen paren span (operators.map .operator ++ .openParen :: pending) r
      = (applyOperators span operators r).map (pending, ·) := by
  induction operators generalizing r with
  | nil => rfl
  | cons operator rest ih =>
    rw [List.map_cons, List.cons_append, applyToParen, applyOperators]
    cases r.apply operator span with
    | error e => rfl
    | ok mid => exact ih mid

/-- The end lets all operators go. -/
theorem applyAll_operators (whole : Span) (r : Reduction) :
    applyAll whole span (operators.map .operator) r = applyOperators span operators r := by
  induction operators generalizing r with
  | nil => rfl
  | cons operator rest ih =>
    rw [List.map_cons, applyAll, applyOperators]
    cases r.apply operator span with
    | error e => rfl
    | ok mid => exact ih mid

end Reduction

namespace Lowering

/-! ## Tokens at their places -/

section Placed

variable {tokens : List (ExpressionToken × Span)}

theorem placed_singleton {token : ExpressionToken} (h : tokens.map Prod.fst = [token]) :
    ∃ place, tokens = [(token, place)] := by
  rcases List.map_eq_cons_iff.mp h with ⟨⟨token, place⟩, tail, rfl, htoken, htail⟩
  cases htoken
  cases List.map_eq_nil_iff.mp htail
  exact ⟨place, rfl⟩

/-- An operator stands between the tokens of its two sides. -/
theorem placed_binary {operator : BinaryOperator} {left right : List ExpressionToken}
    (h : tokens.map Prod.fst = left ++ .operator operator :: right) :
    ∃ first place second, tokens = first ++ (.operator operator, place) :: second ∧
      first.map Prod.fst = left ∧ second.map Prod.fst = right := by
  rcases List.map_eq_append_iff.mp h with ⟨first, tail, rfl, hfirst, htail⟩
  rcases List.map_eq_cons_iff.mp htail with ⟨⟨token, place⟩, second, rfl, htoken, hsecond⟩
  cases htoken
  exact ⟨first, place, second, rfl, hfirst, hsecond⟩

/-- A group stands between its parentheses. -/
theorem placed_group {body : List ExpressionToken}
    (h : tokens.map Prod.fst = .openParen :: (body ++ [.closeParen])) :
    ∃ opening inner closing, tokens = (.openParen, opening) :: (inner ++ [(.closeParen, closing)]) ∧
      inner.map Prod.fst = body := by
  rcases List.map_eq_cons_iff.mp h with ⟨⟨token, opening⟩, tail, rfl, htoken, htail⟩
  cases htoken
  rcases List.map_eq_append_iff.mp htail with ⟨inner, last, rfl, hinner, hlast⟩
  rcases placed_singleton hlast with ⟨closing, rfl⟩
  exact ⟨opening, inner, closing, rfl, hinner⟩

end Placed

/-! ## Reading a formula -/

/-- Reading the tokens of a formula. The operators that wait on top of those from before bind at
    least as tightly as the formula holds together, and applying them completes its code. -/
theorem expressionTokens_formula {whole span : Span} {f : Formula} (hf : f.WellGrouped)
    {tokens rest : List (ExpressionToken × Span)} (htokens : tokens.map Prod.fst = f.tokens)
    {pending : List Pending} (hbelow : Pending.Below f.level pending) {r result : Reduction}
    {table table' : SymbolTable}
    (h : (expressionTokens whole span (tokens ++ rest) pending r).run table
      = .ok (result, table')) :
    ∃ a code mid operators r', f.Lowers table a code mid ∧
      (expressionTokens whole span rest (operators.map .operator ++ pending) r').run mid
        = .ok (result, table') ∧
      (∀ o ∈ operators, f.level ≤ o.precedence) ∧
      Reduction.applyOperators span operators r' = .ok ⟨a :: r.operands, r.code ++ code⟩ := by
  induction f generalizing tokens rest pending r table with
  | operand o =>
    rcases placed_singleton htokens with ⟨place, rfl⟩
    rcases Outcome.run_bind_ok h with ⟨a, mid, ha, hrest⟩
    refine ⟨a, [], mid, [], r.push a, .operand ha, hrest, by simp, ?_⟩
    rw [List.append_nil]
    rfl
  | binary operator left right ihl ihr =>
    -- The left side comes first. What waits below it binds less tightly than it does.
    rcases hf with ⟨hl, hr, hle, hlt⟩
    rcases placed_binary htokens with ⟨ltokens, place, rtokens, rfl, hltokens, hrtokens⟩
    rw [List.append_assoc, List.cons_append] at h
    rcases ihl hl hltokens (hbelow.mono hle) h with
      ⟨a, first, mid, operators, r1, hlowers, hrest, htight, happly⟩
    -- The operator applies all that waits of the left side, and waits itself.
    rcases Outcome.run_bind_ok hrest with ⟨⟨pending', r2⟩, _, hlift, hrest'⟩
    rcases Outcome.run_liftM_ok hlift with ⟨htighter, rfl⟩
    rw [Reduction.applyTighter_operators (fun o ho => Nat.le_trans hle (htight o ho)) hbelow,
      happly] at htighter
    cases htighter
    -- The right side binds more tightly than the operator, which therefore goes on waiting.
    rcases ihr hr hrtokens (show Pending.Below right.level (.operator operator :: pending) from hlt)
      hrest' with ⟨b, second, mid', operators', r3, hlowers', hrest'', htight', happly'⟩
    refine ⟨a, first ++ second ++ Reduction.operatorCode operator a b, mid',
      operators' ++ [operator], r3, .binary hlowers hlowers', ?_, Pending.tight_concat htight' hlt,
      ?_⟩
    · rw [List.map_append, List.append_assoc]
      exact hrest''
    · rw [Reduction.applyOperators_concat, happly']
      simp only [bind, Except.bind, Reduction.apply, List.append_assoc]
  | paren body ih =>
    rcases placed_group htokens with ⟨opening, inner, closing, rfl, hinner⟩
    rw [List.cons_append, List.append_assoc] at h
    -- Nothing below the parenthesis is applied before it is closed.
    rcases ih hf hinner (show Pending.Below body.level (.openParen :: pending) from trivial) h with
      ⟨a, code, mid, operators, r1, hlowers, hrest, -, happly⟩
    rcases Outcome.run_bind_ok hrest with ⟨⟨pending', r2⟩, _, hlift, hrest'⟩
    rcases Outcome.run_liftM_ok hlift with ⟨hparen, rfl⟩
    rw [Reduction.applyToParen_operators, happly] at hparen
    cases hparen
    exact ⟨a, code, _, [], _, .paren hlowers, hrest', by simp, rfl⟩

/-- An expression is lowered as its formula. -/
theorem expression_formula {e : Expression} {f : Formula} (hreads : e.Reads f) {span : Span}
    {a : Int} {code : List Instruction} {table table' : SymbolTable}
    (h : (expression e span).run table = .ok ((a, code), table')) :
    f.Lowers table a code table' := by
  rcases Outcome.run_bind_ok h with ⟨r, mid, htokens, hrest⟩
  rcases Outcome.run_bind_ok hrest with ⟨b, _, hlift, hpure⟩
  rcases Outcome.run_liftM_ok hlift with ⟨hresult, rfl⟩
  cases hpure
  rw [← List.append_nil e.tokens] at htokens
  have hbelow : Pending.Below f.level [] := trivial
  rcases expressionTokens_formula hreads.wellGrouped hreads.1 hbelow htokens with
    ⟨a', code, mid', operators, r', hlowers, hend, -, happly⟩
  -- At the end all that waits is applied, and the address of the formula is left.
  rcases Outcome.run_liftM_ok hend with ⟨hall, rfl⟩
  rw [List.append_nil, Reduction.applyAll_operators, happly] at hall
  cases hall
  cases hresult
  exact hlowers

end Lowering

end AccumulatorMachine
