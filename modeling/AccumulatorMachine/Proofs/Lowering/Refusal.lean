import AccumulatorMachine.Proofs.Lowering.Loops

/-!
# What Lowering Refuses

Why a program is not lowered, and which statement is to blame.

Lowering stops at the first thing that is wrong. `FailsOnly` follows a property of errors through
computations that may stop at many places, as the lemmas of `Outcome` follow successful ones. An
error always has a place inside the statement that is being lowered. Most of them are about that
statement alone.

One exception are the loops, where it matters which pairs there are and which loops are open. The
other one is a name without an address, which depends on all statements before. So for names there
is more: `Lowering.Uses` says how far a statement is lowered until one of its names is looked up.
The error of a name without an address then comes up exactly if lowering gets to a use of it.

## Main definitions

* `FailsOnly`: A computation whose errors have a property.
* `Lowering.reading`: The lowering of a part of an expression.
* `Statement.Mentions`: The places of a statement that errors are reported at.
* `Lowering.Uses`: Lowering a statement up to the use of a name.
* `Lowering.Unresolved`, `Lowering.Flawed`, `Lowering.Unmatched`: What may be wrong with a
  statement.
* `Lowering.Blamed`: An error that has its place in a statement and is not about names.

## Theorems

* `Lowering.expressionTokens_append`: An expression is lowered part by part.
* `Lowering.statement_obstructed`, `Lowering.statement_fails`: What is wrong if a statement is not
  lowered.
* `Lowering.statement_unresolved`: A name without an address stops the lowering where it is used.
* `Lowering.statements_error`, `Lowering.statements_error_of`: The first statement that is not
  lowered stops the lowering of a program.
* `LoopPairs.ofStatements?_error`: The start or the end of a loop is to blame if loops are not
  paired.
* `Program.compile_error`: What is wrong if a program is not compiled.
-/

namespace AccumulatorMachine

/-- A computation whose errors have a property. -/
def FailsOnly {α : Type} (P : CompileError → Prop) (x : Except CompileError α) : Prop :=
  ∀ e, x = .error e → P e

namespace FailsOnly

variable {α β : Type} {P : CompileError → Prop}

theorem ok (a : α) : FailsOnly P (.ok a) := fun _ h => nomatch h

theorem error {e : CompileError} (h : P e) : FailsOnly P (.error e : Except CompileError α) := by
  rintro _ ⟨⟩
  exact h

theorem bind {x : Except CompileError α} {f : α → Except CompileError β} (hx : FailsOnly P x)
    (hf : ∀ a, x = .ok a → FailsOnly P (f a)) : FailsOnly P (x >>= f) := by
  cases x with
  | error e => exact error (hx e rfl)
  | ok a => exact hf a rfl

theorem run_bind {x : Lowering α} {f : α → Lowering β} {table : SymbolTable}
    (hx : FailsOnly P (x.run table))
    (hf : ∀ a mid, x.run table = .ok (a, mid) → FailsOnly P ((f a).run mid)) :
    FailsOnly P ((x >>= f).run table) := by
  rw [StateT.run_bind]
  exact hx.bind fun result hresult => hf result.1 result.2 hresult

theorem run_liftM {x : Except CompileError α} (h : FailsOnly P x) (table : SymbolTable) :
    FailsOnly P ((liftM x : Lowering α).run table) := by
  cases x with
  | error e => exact error (h e rfl)
  | ok a => exact ok _

end FailsOnly

namespace Reduction

variable {P : CompileError → Prop} {span : Span}

theorem apply_fails (hspan : P (.atSpan (.malformedExpression .missingOperand) span))
    (r : Reduction) (operator : BinaryOperator) : FailsOnly P (r.apply operator span) := by
  unfold apply
  split
  · exact .ok _
  · exact .error hspan

theorem applyTighter_fails (hspan : P (.atSpan (.malformedExpression .missingOperand) span))
    (incoming : BinaryOperator) (pending : List Pending) (r : Reduction) :
    FailsOnly P (applyTighter incoming span pending r) := by
  fun_induction applyTighter incoming span pending r with
  | case1 operator pending r _ ih =>
    exact (apply_fails hspan r operator).bind fun mid _ => ih mid
  | _ => exact .ok _

theorem applyToParen_fails (hspan : P (.atSpan (.malformedExpression .missingOperand) span))
    {paren : Span} (hparen : P (.atSpan (.malformedExpression .unbalancedParentheses) paren))
    (pending : List Pending) (r : Reduction) :
    FailsOnly P (applyToParen paren span pending r) := by
  fun_induction applyToParen paren span pending r with
  | case1 => exact .ok _
  | case2 operator pending r ih =>
    exact (apply_fails hspan r operator).bind fun mid _ => ih mid
  | case3 => exact .error hparen

theorem applyAll_fails (hspan : P (.atSpan (.malformedExpression .missingOperand) span))
    {whole : Span} (hwhole : P (.atSpan (.malformedExpression .unbalancedParentheses) whole))
    (pending : List Pending) (r : Reduction) :
    FailsOnly P (r.applyAll whole span pending) := by
  fun_induction applyAll whole span pending r with
  | case1 operator pending r ih =>
    exact (apply_fails hspan r operator).bind fun mid _ => ih mid
  | case2 => exact .error hwhole
  | case3 => exact .ok _

theorem result_fails {whole : Span}
    (hwhole : ∀ reason, P (.atSpan (.malformedExpression reason) whole)) (r : Reduction) :
    FailsOnly P (r.result whole) := by
  unfold result
  split
  · exact .ok _
  · exact .error (hwhole _)
  · exact .error (hwhole _)

end Reduction

namespace Lowering

/-! ## Reading a part of an expression -/

/-- Lowers the first tokens of an expression. What waits goes on waiting. -/
def reading (span : Span) : List (ExpressionToken × Span) → List Pending → Reduction →
    Lowering (List Pending × Reduction)
  | [], pending, r => return (pending, r)
  | (.operand operand, place) :: tokens, pending, r => do
    let address ← operandAddress operand place
    reading span tokens pending (r.push address)
  | (.operator operator, _) :: tokens, pending, r => do
    let (pending, r) ← liftM (r.applyTighter operator span pending)
    reading span tokens (.operator operator :: pending) r
  | (.openParen, _) :: tokens, pending, r => reading span tokens (.openParen :: pending) r
  | (.closeParen, place) :: tokens, pending, r => do
    let (pending, r) ← liftM (r.applyToParen place span pending)
    reading span tokens pending r

/-- An expression is lowered by reading some tokens and lowering the rest. -/
theorem expressionTokens_append (whole span : Span) (first second : List (ExpressionToken × Span))
    (pending : List Pending) (r : Reduction) :
    expressionTokens whole span (first ++ second) pending r
      = reading span first pending r >>= fun next =>
        expressionTokens whole span second next.1 next.2 := by
  induction first generalizing pending r with
  | nil => rw [reading, pure_bind, List.nil_append]
  | cons token first ih =>
    obtain ⟨token, place⟩ := token
    cases token with
    | operand o =>
      rw [List.cons_append, expressionTokens, reading, bind_assoc]
      exact congrArg _ (funext fun a => ih pending (r.push a))
    | operator o =>
      rw [List.cons_append, expressionTokens, reading, bind_assoc]
      exact congrArg _ (funext fun next => ih (.operator o :: next.1) next.2)
    | openParen => exact ih (.openParen :: pending) r
    | closeParen =>
      rw [List.cons_append, expressionTokens, reading, bind_assoc]
      exact congrArg _ (funext fun next => ih next.1 next.2)

/-! ## Names and literals -/

/-- The error of a name that is not bound in a table. -/
def unbound (table : SymbolTable) (name : String) (place : Span) : CompileError :=
  .atSpan (.unboundIdentifier name (table.suggest name)) place

/-- A name that is not bound has no address. -/
theorem resolve_unbound {name : String} {table : SymbolTable} (h : table.addressOf? name = none)
    (span : Span) : (resolve name span).run table = .error (unbound table name span) := by
  have hget : (get : Lowering SymbolTable).run table = .ok (table, table) := rfl
  rw [resolve, Outcome.run_bind_of_ok _ hget]
  simp only [h]
  rfl

theorem resolve_error {name : String} {span : Span} {table : SymbolTable} {e : CompileError}
    (h : (resolve name span).run table = .error e) :
    table.addressOf? name = none ∧ e = unbound table name span := by
  have hget : (get : Lowering SymbolTable).run table = .ok (table, table) := rfl
  cases ha : table.addressOf? name with
  | some a =>
    rw [resolve, Outcome.run_bind_of_ok _ hget] at h
    simp only [ha] at h
    cases h
  | none =>
    rw [resolve_unbound ha] at h
    cases h
    exact ⟨rfl, rfl⟩

/-- Only a reserved address stops the allocator. -/
theorem allocating_error {α : Type} {computation : SymbolTable.Allocating α} {span : Span}
    {table : SymbolTable} {e : CompileError}
    (h : (allocating span computation).run table = .error e) :
    ∃ a, e = .atSpan (.reservedAddress a) span := by
  rcases hc : computation.runOn table with ⟨reserved | a, mid⟩
  · simp only [allocating, StateT.run, hc] at h
    cases h
    exact ⟨_, rfl⟩
  · simp only [allocating, StateT.run, hc] at h
    cases h

theorem operandAddress_error {operand : Operand} {span : Span} {table : SymbolTable}
    {e : CompileError} (h : (operandAddress operand span).run table = .error e) :
    (∃ name, operand = .name name ∧ table.addressOf? name = none ∧ e = unbound table name span) ∨
      ∃ a, e = .atSpan (.reservedAddress a) span := by
  cases operand with
  | name name => exact Or.inl ⟨name, rfl, resolve_error h⟩
  | literal spelling value => exact Or.inr (allocating_error h)

end Lowering

/-! ## Statements -/

/-- The places of a statement that an error may be reported at: all of it, its expression, and a
    part of its expression. -/
inductive Statement.Mentions (s : Statement) : Span → Prop
  | whole : Mentions s s.span
  | expression {name : String} {e : Expression} (hform : s.form = .new name e) : Mentions s e.span
  | part {name : String} {e : Expression} {token : ExpressionToken} {place : Span}
      (hform : s.form = .new name e) (hpart : (token, place) ∈ e.tokens) : Mentions s place

namespace Lowering

/-- Lowering a statement gets to a use of a name, which is then looked up in another table. -/
inductive Uses (s : Statement) (table : SymbolTable) : String → Span → SymbolTable → Prop
  | outputInt {name : String} (hform : s.form = .outputInt name) : Uses s table name s.span table
  | outputStr {name : String} {zero one : Int} {mid table' : SymbolTable}
      (hform : s.form = .outputStr name)
      (hzero : (literal "0" 0 s.span).run table = .ok (zero, mid))
      (hone : (literal "1" 1 s.span).run mid = .ok (one, table')) : Uses s table name s.span table'
  | left {name : String} {comparison : Comparison} {right : Operand}
      (hform : s.form = .loop (.name name) comparison right) : Uses s table name s.span table
  | right {name : String} {left : Operand} {comparison : Comparison} {a : Int}
      {table' : SymbolTable} (hform : s.form = .loop left comparison (.name name))
      (hleft : (operandAddress left s.span).run table = .ok (a, table')) :
      Uses s table name s.span table'
  | operand {target name : String} {e : Expression} {front back : List (ExpressionToken × Span)}
      {place : Span} {pending : List Pending} {r : Reduction} {table' : SymbolTable}
      (hform : s.form = .new target e)
      (htokens : e.tokens = front ++ (.operand (.name name), place) :: back)
      (hfront : (reading s.span front [] .empty).run table = .ok ((pending, r), table')) :
      Uses s table name place table'

/-- A name is used that has no address. -/
def Unresolved (s : Statement) (table : SymbolTable) (e : CompileError) : Prop :=
  ∃ name place table', Uses s table name place table' ∧ table'.addressOf? name = none ∧
    e = unbound table' name place

/-- Something else is wrong with a statement. -/
def Blamed (s : Statement) (e : CompileError) : Prop :=
  ∃ cause place, e = .atSpan cause place ∧ s.Mentions place ∧
    ∀ name suggestion, cause ≠ .unboundIdentifier name suggestion

/-- A statement is wrong on its own: it has an expression that is none, or it is the one at which
    the allocator comes to a reserved address. -/
def Flawed (s : Statement) (e : CompileError) : Prop :=
  ∃ place, s.Mentions place ∧ ((∃ a, e = .atSpan (.reservedAddress a) place) ∨
    ∃ reason, e = .atSpan (.malformedExpression reason) place)

/-- What may be wrong with a statement, whatever loops there are. -/
def Obstructed (s : Statement) (table : SymbolTable) (e : CompileError) : Prop :=
  Unresolved s table e ∨ Flawed s e

/-- A statement starts a loop without a pair, or it ends a loop and none is open. -/
def Unmatched (pairs : LoopPairs) (index : Nat) (opened : List Nat) (s : Statement)
    (e : CompileError) : Prop :=
  ((∃ left comparison right, s.form = .loop left comparison right) ∧ pairs.endOf? index = none ∧
      e = .atSpan .unclosedLoop s.span) ∨
    s.form = .endLoop ∧ opened = [] ∧ e = .atSpan .unmatchedEndLoop s.span

/-- What may be wrong with a statement that follows others. -/
def Refuses (s : Statement) (table : SymbolTable) (e : CompileError) : Prop :=
  Unresolved s table e ∨ Blamed s e

theorem Uses.mentions {s : Statement} {table table' : SymbolTable} {name : String} {place : Span}
    (h : Uses s table name place table') : s.Mentions place := by
  cases h with
  | operand hform htokens => exact .part hform (htokens ▸ List.mem_append_right _ (.head _))
  | outputInt | outputStr | left | right => exact .whole

theorem Flawed.reserved {s : Statement} {place : Span} (h : s.Mentions place) (a : Int) :
    Flawed s (.atSpan (.reservedAddress a) place) :=
  ⟨place, h, Or.inl ⟨a, rfl⟩⟩

theorem Flawed.malformed {s : Statement} {place : Span} (h : s.Mentions place)
    (reason : Malformation) : Flawed s (.atSpan (.malformedExpression reason) place) :=
  ⟨place, h, Or.inr ⟨reason, rfl⟩⟩

theorem Flawed.blamed {s : Statement} {e : CompileError} (h : Flawed s e) : Blamed s e := by
  rcases h with ⟨place, hplace, ⟨a, rfl⟩ | ⟨reason, rfl⟩⟩
  · exact ⟨_, place, rfl, hplace, fun _ _ h => by cases h⟩
  · exact ⟨_, place, rfl, hplace, fun _ _ h => by cases h⟩

theorem Unmatched.blamed {pairs : LoopPairs} {index : Nat} {opened : List Nat} {s : Statement}
    {e : CompileError} (h : Unmatched pairs index opened s e) : Blamed s e := by
  rcases h with ⟨-, -, rfl⟩ | ⟨-, -, rfl⟩
  · exact ⟨_, s.span, rfl, .whole, fun _ _ h => by cases h⟩
  · exact ⟨_, s.span, rfl, .whole, fun _ _ h => by cases h⟩

section Refused

variable {s : Statement} {table : SymbolTable} {err : CompileError}

/-- Reading the tokens of an expression gets to a name without an address. -/
def Stops (span : Span) (tokens : List (ExpressionToken × Span)) (pending : List Pending)
    (r : Reduction) (table : SymbolTable) (err : CompileError) : Prop :=
  ∃ front name place back pending' r' table',
    tokens = front ++ (.operand (.name name), place) :: back ∧
    (reading span front pending r).run table = .ok ((pending', r'), table') ∧
    table'.addressOf? name = none ∧ err = unbound table' name place

theorem Stops.cons {span : Span} {token : ExpressionToken × Span}
    {tokens : List (ExpressionToken × Span)} {pending pending' : List Pending} {r r' : Reduction}
    {mid : SymbolTable}
    (hread : ∀ front, (reading span (token :: front) pending r).run table
      = (reading span front pending' r').run mid)
    (h : Stops span tokens pending' r' mid err) :
    Stops span (token :: tokens) pending r table err := by
  rcases h with ⟨front, name, place, back, pending'', r'', table', rfl, hfront, hnone, rfl⟩
  exact ⟨token :: front, name, place, back, pending'', r'', table', rfl,
    (hread front).trans hfront, hnone, rfl⟩

/-- What is wrong with the tokens of an expression, if not a name without an address, has its place
    among them. -/
theorem expressionTokens_fails {name : String} {e : Expression} (hform : s.form = .new name e)
    {tokens : List (ExpressionToken × Span)} (hparts : ∀ part ∈ tokens, part ∈ e.tokens)
    (pending : List Pending) (r : Reduction) (table : SymbolTable) :
    FailsOnly (fun err => Stops s.span tokens pending r table err ∨ Flawed s err)
      ((expressionTokens e.span s.span tokens pending r).run table) := by
  have hspan := Flawed.malformed (Statement.Mentions.whole (s := s)) .missingOperand
  have hwhole := Flawed.malformed (Statement.Mentions.expression hform) .unbalancedParentheses
  -- Reading stops at the first name without an address. All else that fails is a flaw.
  induction tokens generalizing pending r table with
  | nil =>
    exact FailsOnly.run_liftM (Reduction.applyAll_fails (Or.inr hspan) (Or.inr hwhole) pending r)
      table
  | cons token tokens ih =>
    obtain ⟨token, place⟩ := token
    have hplace : s.Mentions place := .part hform (hparts _ List.mem_cons_self)
    have hrest : ∀ part ∈ tokens, part ∈ e.tokens :=
      fun part hpart => hparts part (List.mem_cons_of_mem _ hpart)
    cases token with
    | operand operand =>
      refine FailsOnly.run_bind (fun err herr => ?_) fun a mid ha err herr => ?_
      · rcases operandAddress_error herr with ⟨name, rfl, hnone, rfl⟩ | ⟨a, rfl⟩
        · exact Or.inl ⟨[], name, place, tokens, pending, r, table, rfl, rfl, hnone, rfl⟩
        · exact Or.inr (.reserved hplace a)
      · refine (ih hrest pending (r.push a) mid err herr).imp_left (Stops.cons fun front => ?_)
        exact Outcome.run_bind_of_ok _ ha
    | operator operator =>
      refine FailsOnly.run_bind (FailsOnly.run_liftM
        (Reduction.applyTighter_fails (Or.inr hspan) operator pending r) table)
        fun next mid hnext err herr => ?_
      refine (ih hrest _ _ _ err herr).imp_left (Stops.cons fun front => ?_)
      exact Outcome.run_bind_of_ok _ hnext
    | openParen =>
      exact fun err herr => (ih hrest _ _ _ err herr).imp_left (Stops.cons fun _ => rfl)
    | closeParen =>
      have hparen := Flawed.malformed hplace .unbalancedParentheses
      refine FailsOnly.run_bind (FailsOnly.run_liftM
        (Reduction.applyToParen_fails (Or.inr hspan) (Or.inr hparen) pending r) table)
        fun next mid hnext err herr => ?_
      refine (ih hrest _ _ _ err herr).imp_left (Stops.cons fun front => ?_)
      exact Outcome.run_bind_of_ok _ hnext

theorem expression_fails {name : String} {e : Expression} (hform : s.form = .new name e)
    (table : SymbolTable) :
    FailsOnly (Obstructed s table) ((expression e s.span).run table) := by
  refine FailsOnly.run_bind (fun err herr => ?_) fun r mid _ => ?_
  · refine (expressionTokens_fails hform (fun _ => id) [] .empty table err herr).imp_left ?_
    rintro ⟨front, name, place, back, pending, r, table', htokens, hfront, hnone, rfl⟩
    exact ⟨name, place, table', .operand hform htokens hfront, hnone, rfl⟩
  · have hresult := Reduction.result_fails (P := Obstructed s table)
      (fun reason => Or.inr (.malformed (.expression hform) reason)) r
    exact FailsOnly.run_bind (FailsOnly.run_liftM hresult mid) fun _ _ _ => .ok _

theorem allocating_fails {α : Type} (computation : SymbolTable.Allocating α)
    (table mid : SymbolTable) :
    FailsOnly (Obstructed s table) ((allocating s.span computation).run mid) := by
  intro err herr
  rcases allocating_error herr with ⟨a, rfl⟩
  exact Or.inr (.reserved .whole a)

theorem resolve_fails {name : String} {mid : SymbolTable} (h : Uses s table name s.span mid) :
    FailsOnly (Obstructed s table) ((resolve name s.span).run mid) := by
  intro err herr
  rcases resolve_error herr with ⟨hnone, rfl⟩
  exact Or.inl ⟨name, s.span, mid, h, hnone, rfl⟩

theorem operandAddress_fails {operand : Operand} {mid : SymbolTable}
    (h : ∀ name, operand = .name name → Uses s table name s.span mid) :
    FailsOnly (Obstructed s table) ((operandAddress operand s.span).run mid) := by
  cases operand with
  | name name => exact resolve_fails (h name rfl)
  | literal spelling value => exact allocating_fails _ table mid

theorem form_fails {f : Statement.Form} (hform : s.form = f) (table : SymbolTable) :
    FailsOnly (Obstructed s table) ((form s.span f).run table) := by
  cases f with
  | int name value =>
    exact FailsOnly.run_bind (allocating_fails _ table table) fun _ _ _ => .ok _
  | string name text =>
    exact FailsOnly.run_bind (allocating_fails _ table table) fun _ _ _ => .ok _
  | new name e =>
    exact FailsOnly.run_bind (expression_fails hform table) fun _ _ _ => .ok _
  | inputInt name =>
    exact FailsOnly.run_bind (allocating_fails _ table table) fun _ _ _ => .ok _
  | outputInt name =>
    exact FailsOnly.run_bind (resolve_fails (.outputInt hform)) fun _ _ _ => .ok _
  | inputStr =>
    refine FailsOnly.run_bind (allocating_fails _ table table) fun zero mid _ => ?_
    exact FailsOnly.run_bind (allocating_fails _ table mid) fun _ _ _ => .ok _
  | outputStr name =>
    refine FailsOnly.run_bind (allocating_fails _ table table) fun zero mid hzero => ?_
    refine FailsOnly.run_bind (allocating_fails _ table mid) fun one table' hone => ?_
    -- The name is looked up last, in the table that the literals have left.
    exact FailsOnly.run_bind (resolve_fails (.outputStr hform hzero hone)) fun _ _ _ => .ok _
  | loop left comparison right => exact .ok _
  | endLoop => exact .ok _

variable {pairs : LoopPairs} {index : Nat} {opened : List Nat}

/-- What is wrong if a statement is not lowered, and what about loops that depends on. -/
theorem statement_obstructed (pairs : LoopPairs) (index : Nat) (opened : List Nat) (s : Statement)
    (table : SymbolTable) :
    FailsOnly (fun err => Obstructed s table err ∨ Unmatched pairs index opened s err)
      ((statement pairs index opened s).run table) := by
  rcases s.form.loop_or_endLoop_or_plain with ⟨left, comparison, right, hform⟩ | hform | hplain
  · simp only [statement, hform]
    cases hstop : pairs.endOf? index with
    | none => exact FailsOnly.error (Or.inr (Or.inl ⟨⟨_, _, _, hform⟩, hstop, rfl⟩))
    | some stop =>
      have hleft : FailsOnly (Obstructed s table) ((operandAddress left s.span).run table) := by
        refine operandAddress_fails ?_
        rintro name rfl
        exact .left hform
      refine FailsOnly.run_bind (fun err herr => Or.inl (hleft err herr)) fun a mid ha => ?_
      -- The right operand is looked up in the table that the left one has left.
      have hright : FailsOnly (Obstructed s table) ((operandAddress right s.span).run mid) := by
        refine operandAddress_fails ?_
        rintro name rfl
        exact .right hform ha
      exact FailsOnly.run_bind (fun err herr => Or.inl (hright err herr)) fun _ _ _ => .ok _
  · simp only [statement, hform]
    cases opened with
    | nil => exact FailsOnly.error (Or.inr (Or.inr ⟨hform, rfl, rfl⟩))
    | cons count outer => exact FailsOnly.ok _
  · rw [statement_of_plain hplain]
    exact FailsOnly.run_bind (fun err herr => Or.inl (form_fails rfl table err herr))
      fun _ _ _ => .ok _

/-- What is wrong if a statement is not lowered: one of its names has no address, or something that
    is not about names. -/
theorem statement_fails (pairs : LoopPairs) (index : Nat) (opened : List Nat) (s : Statement)
    (table : SymbolTable) :
    FailsOnly (Refuses s table) ((statement pairs index opened s).run table) := by
  intro err herr
  rcases statement_obstructed pairs index opened s table err herr with (hname | hflaw) | hloop
  · exact Or.inl hname
  · exact Or.inr hflaw.blamed
  · exact Or.inr hloop.blamed

/-- A name without an address stops the lowering of a statement where it is used. -/
theorem statement_unresolved {pairs : LoopPairs} {index : Nat} (opened : List Nat)
    (h : Unresolved s table err)
    (hpaired : ∀ left comparison right, s.form = .loop left comparison right →
      ∃ stop, pairs.endOf? index = some stop) :
    (statement pairs index opened s).run table = .error err := by
  rcases h with ⟨name, place, table', huses, hnone, rfl⟩
  cases huses with
  | outputInt hform =>
    rw [statement_of_plain (by rw [hform]; trivial), hform]
    exact Outcome.run_bind_of_error _ (Outcome.run_bind_of_error _ (resolve_unbound hnone _))
  | outputStr hform hzero hone =>
    rw [statement_of_plain (by rw [hform]; trivial), hform]
    refine Outcome.run_bind_of_error _ ?_
    rw [form, Outcome.run_bind_of_ok _ hzero, Outcome.run_bind_of_ok _ hone]
    exact Outcome.run_bind_of_error _ (resolve_unbound hnone _)
  | left hform =>
    rcases hpaired _ _ _ hform with ⟨stop, hstop⟩
    simp only [statement, hform, hstop]
    exact Outcome.run_bind_of_error _ (resolve_unbound hnone _)
  | right hform hleft =>
    rcases hpaired _ _ _ hform with ⟨stop, hstop⟩
    simp only [statement, hform, hstop]
    rw [Outcome.run_bind_of_ok _ hleft]
    exact Outcome.run_bind_of_error _ (resolve_unbound hnone _)
  | operand hform htokens hfront =>
    rw [statement_of_plain (by rw [hform]; trivial), hform]
    refine Outcome.run_bind_of_error _
      (Outcome.run_bind_of_error _ (Outcome.run_bind_of_error _ ?_))
    -- The tokens in front of the name are read as if nothing followed.
    rw [htokens, expressionTokens_append, Outcome.run_bind_of_ok _ hfront]
    exact Outcome.run_bind_of_error _ (resolve_unbound hnone _)

/-! ## Programs -/

/-- Lowering stops at the first statement that is not lowered. -/
theorem statements_error {pairs : LoopPairs} {index : Nat} {opened : List Nat}
    {ss : List Statement} (h : (statements pairs index opened ss).run table = .error err) :
    ∃ k s blocks mid opened', ss[k]? = some s ∧
      (statements pairs index opened (ss.take k)).run table = .ok (blocks, mid) ∧
      (statement pairs (index + k) opened' s).run mid = .error err := by
  induction ss generalizing index opened table with
  | nil => cases h
  | cons first rest ih =>
    -- Either the first statement is not lowered, or one of the others that follow it is not.
    rcases hfirst : (statement pairs index opened first).run table with e | ⟨⟨block, opened'⟩, mid⟩
    · rw [statements, Outcome.run_bind_of_error _ hfirst] at h
      cases h
      exact ⟨0, first, [], table, opened, rfl, rfl, hfirst⟩
    · rw [statements, Outcome.run_bind_of_ok _ hfirst] at h
      rcases hrest : (statements pairs (index + 1) opened' rest).run mid with e | ⟨blocks, last⟩
      · rw [Outcome.run_bind_of_error _ hrest] at h
        cases h
        rcases ih hrest with ⟨k, s, blocks, table', opened'', hs, hbefore, hfails⟩
        rw [Nat.add_right_comm index 1 k] at hfails
        exact ⟨k + 1, s, block :: blocks, table', opened'', hs, statements_cons hfirst hbefore,
          hfails⟩
      · rw [Outcome.run_bind_of_ok _ hrest] at h
        cases h

/-- A statement that is not lowered stops the lowering of a program. -/
theorem statements_error_of {pairs : LoopPairs} {index : Nat} {opened : List Nat}
    {ss : List Statement} {k : Nat} {blocks : List Block} {mid : SymbolTable}
    (hs : ss[k]? = some s)
    (hbefore : (statements pairs index opened (ss.take k)).run table = .ok (blocks, mid))
    (hfails : ∀ opened', (statement pairs (index + k) opened' s).run mid = .error err) :
    (statements pairs index opened ss).run table = .error err := by
  induction ss generalizing index opened table blocks k with
  | nil => cases hs
  | cons first rest ih =>
    rw [statements]
    cases k with
    | zero =>
      cases hs
      cases hbefore
      exact Outcome.run_bind_of_error _ (hfails opened)
    | succ k =>
      rcases statements_cons_ok hbefore with ⟨block, opened', table', blocks', rfl, hfirst, hrest⟩
      rw [Outcome.run_bind_of_ok _ hfirst]
      refine Outcome.run_bind_of_error _ (ih hs hrest fun opened' => ?_)
      rw [Nat.add_right_comm index 1 k]
      exact hfails opened'

end Refused

end Lowering

namespace LoopPairs

/-- The end of a loop that was not started, or the start of one that does not end, among statements
    and the loops that are open in front of them. -/
def Unpaired (opened : List (Nat × Span)) (ss : List Statement) (err : CompileError) : Prop :=
  (∃ s ∈ ss, s.form = .endLoop ∧ err = .atSpan .unmatchedEndLoop s.span) ∨
    (∃ entry ∈ opened, err = .atSpan .unclosedLoop entry.2) ∨
    ∃ s ∈ ss, (∃ left comparison right, s.form = .loop left comparison right) ∧
      err = .atSpan .unclosedLoop s.span

/-- What is wrong behind a statement is wrong with the statement in front, too. -/
theorem Unpaired.cons {s : Statement} {opened outer : List (Nat × Span)} {rest : List Statement}
    {err : CompileError} (h : Unpaired outer rest err)
    (houter : ∀ entry ∈ outer, entry ∈ opened ∨
      entry.2 = s.span ∧ ∃ left comparison right, s.form = .loop left comparison right) :
    Unpaired opened (s :: rest) err := by
  rcases h with ⟨s', hs', hend⟩ | ⟨entry, hentry, rfl⟩ | ⟨s', hs', hloop⟩
  · exact Or.inl ⟨s', List.mem_cons_of_mem _ hs', hend⟩
  · rcases houter entry hentry with hopened | ⟨hspan, hform⟩
    · exact Or.inr (Or.inl ⟨entry, hopened, rfl⟩)
    · exact Or.inr (Or.inr ⟨s, List.mem_cons_self, hform, hspan ▸ rfl⟩)
  · exact Or.inr (Or.inr ⟨s', List.mem_cons_of_mem _ hs', hloop⟩)

theorem pairFrom_error {index : Nat} {opened : List (Nat × Span)} {ss : List Statement}
    {err : CompileError} (h : pairFrom index opened ss = .error err) : Unpaired opened ss err := by
  induction ss using Statement.loopInduction generalizing index opened with
  | nil =>
    cases opened with
    | nil => cases h
    | cons first outer =>
      cases h
      exact Or.inr (Or.inl ⟨first, List.mem_cons_self, rfl⟩)
  | loop s rest left comparison right hform ih =>
    rw [pairFrom_of_loop hform] at h
    refine (ih h).cons fun entry hentry => ?_
    -- The loop that is open on top is the one this statement starts.
    rcases List.mem_cons.mp hentry with rfl | hentry
    · exact Or.inr ⟨rfl, left, comparison, right, hform⟩
    · exact Or.inl hentry
  | endLoop s rest hform ih =>
    cases opened with
    | nil =>
      rw [pairFrom_of_endLoop_nil hform] at h
      cases h
      exact Or.inl ⟨s, List.mem_cons_self, hform, rfl⟩
    | cons first outer =>
      rw [pairFrom_of_endLoop hform] at h
      exact (ih (Outcome.map_error h)).cons
        fun entry hentry => Or.inl (List.mem_cons_of_mem _ hentry)
  | plain s rest hplain ih =>
    rw [pairFrom_of_plain hplain] at h
    exact (ih h).cons fun entry hentry => Or.inl hentry

/-- If loops cannot be paired, the start or the end of one is to blame. -/
theorem ofStatements?_error {ss : List Statement} {err : CompileError}
    (h : ofStatements? ss = .error err) :
    ∃ (k : Nat) (s : Statement) (cause : CompileError.Cause), ss[k]? = some s ∧
      err = .atSpan cause s.span ∧
      ∀ name suggestion, cause ≠ .unboundIdentifier name suggestion := by
  rcases pairFrom_error h with ⟨s, hs, -, rfl⟩ | ⟨entry, hentry, -⟩ | ⟨s, hs, -, rfl⟩
  · rcases List.mem_iff_getElem?.mp hs with ⟨k, hk⟩
    exact ⟨k, s, .unmatchedEndLoop, hk, rfl, fun _ _ h => by cases h⟩
  · cases hentry
  · rcases List.mem_iff_getElem?.mp hs with ⟨k, hk⟩
    exact ⟨k, s, .unclosedLoop, hk, rfl, fun _ _ h => by cases h⟩

end LoopPairs

namespace Program

variable {program : Program} {dataBase : Int} {err : CompileError}

/-- What is wrong if a program is not compiled: its loops, a statement that follows others, or that
    a cell lies inside the code. -/
theorem compile_error (h : program.compile dataBase = .error err) :
    LoopPairs.ofStatements? program.statements = .error err ∨
      (∃ pairs k s blocks table opened, LoopPairs.ofStatements? program.statements = .ok pairs ∧
        program.statements[k]? = some s ∧
        (Lowering.statements pairs 0 [] (program.statements.take k)).run (.empty dataBase)
          = .ok (blocks, table) ∧
        (Lowering.statement pairs k opened s).run table = .error err) ∨
      ∃ address length, err = ⟨.segmentOverlap address length, none⟩ := by
  rw [compile] at h
  -- Pairing comes first, then lowering, and at last the check whether the segments overlap.
  cases hpairs : LoopPairs.ofStatements? program.statements with
  | error e =>
    rw [hpairs] at h
    cases h
    exact Or.inl rfl
  | ok pairs =>
    rw [hpairs] at h
    rcases hrun : (Lowering.statements pairs 0 [] program.statements).run (.empty dataBase) with
      e | ⟨blocks, symbols⟩
    · simp only [hrun, bind, Except.bind] at h
      cases h
      rcases Lowering.statements_error hrun with ⟨k, s, blocks, mid, opened, hs, hbefore, hfails⟩
      rw [Nat.zero_add] at hfails
      exact Or.inr (Or.inl ⟨pairs, k, s, blocks, mid, opened, rfl, hs, hbefore, hfails⟩)
    · simp only [hrun, bind, Except.bind] at h
      split at h
      · cases h
        exact Or.inr (Or.inr ⟨_, _, rfl⟩)
      · cases h

end Program

end AccumulatorMachine
