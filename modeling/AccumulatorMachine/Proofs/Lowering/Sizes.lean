import AccumulatorMachine.Proofs.Lowering.Blocks

/-!
# Sizes of Statements

How many instructions a statement has, and what its declaration did, read off the statement.

The number of instructions does not depend on the symbol table, and not on how the operators of an
expression group either. Each operator comes to three instructions once, whenever it is applied.
Until then it waits, so what has been emitted and what waits add up to what has been read. With this
sum as what is kept, applying operators is a matter of one step.

A declaration has no code. It is ignored just if the table has an address for its name.

## Main definitions

* `Statement.Form.size`: The number of instructions of a statement.
* `Statement.Form.declared?`: The name that a statement declares.

## Theorems

* `Reduction.keptWith_length`: Emitting and waiting add up.
* `Lowering.Lowers.length_eq_size`: The size of a statement is that of its code.
* `Lowering.Lowers.length_ne_one`: Only an end has exactly one instruction.
* `Lowering.Lowers.redeclared_eq`: The declarations that are ignored.
-/

namespace AccumulatorMachine

/-- Whether a part of an expression is an operator. -/
def ExpressionToken.isOperator : ExpressionToken → Bool
  | .operator _ => true
  | _ => false

/-- Whether an operator is what waits. -/
def Pending.isOperator : Pending → Bool
  | .operator _ => true
  | .openParen => false

/-- The number of operators of an expression. -/
def Expression.operatorCount (tokens : List (ExpressionToken × Span)) : Nat :=
  tokens.countP fun token => token.1.isOperator

theorem Expression.operatorCount_cons (token : ExpressionToken) (place : Span)
    (tokens : List (ExpressionToken × Span)) : operatorCount ((token, place) :: tokens)
      = operatorCount tokens + if token.isOperator then 1 else 0 :=
  List.countP_cons

namespace Statement.Form

/-- The number of instructions of a statement. -/
def size : Statement.Form → Nat
  | .int .. | .string .. => 0
  | .new _ e => 3 * Expression.operatorCount e.tokens
  | .loop .. => 4
  | .endLoop => 1
  | .inputInt _ | .outputInt _ => 2
  | .inputStr => 10
  | .outputStr _ => 14

/-- The name that a statement declares. -/
def declared? : Statement.Form → Option String
  | .int name _ | .string name _ => some name
  | _ => none

/-- Only an end has exactly one instruction. -/
theorem size_ne_one {f : Statement.Form} (h : f ≠ .endLoop) : f.size ≠ 1 := by
  cases f with
  | endLoop => exact absurd rfl h
  | new name e =>
    rw [size]
    omega
  | int | string | loop | inputInt | outputInt | inputStr | outputStr => nofun

end Statement.Form

namespace Reduction

/-- What has been emitted and what the operators that wait come to add up. -/
theorem keptWith_length (total : Nat) : KeptWith fun pending r =>
    r.code.length + 3 * pending.countP Pending.isOperator = total where
  operator := by
    intro r r' operator span pending hr h
    rcases apply_ok hr with ⟨right, left, operands, -, rfl⟩
    rw [List.countP_cons_of_pos (by rfl)] at h
    rw [List.length_append, show (operatorCode operator left right).length = 3 from rfl]
    omega
  openParen := by
    intro r pending h
    rwa [List.countP_cons_of_neg (by simp [Pending.isOperator])] at h

end Reduction

namespace Lowering

variable {table table' : SymbolTable} {span : Span}

/-- The code of an expression has three instructions for each operator that is read or waits. -/
theorem expressionTokens_length {whole : Span} {tokens : List (ExpressionToken × Span)}
    {pending : List Pending} {r r' : Reduction}
    (h : (expressionTokens whole span tokens pending r).run table = .ok (r', table')) :
    r'.code.length = r.code.length + 3 * pending.countP Pending.isOperator
      + 3 * Expression.operatorCount tokens := by
  -- An operator is paid for when it is applied. Until then it is counted among those that wait.
  induction tokens generalizing pending r table with
  | nil =>
    rcases Outcome.run_liftM_ok h with ⟨hall, -⟩
    exact (Reduction.keptWith_length _).applyAll rfl hall
  | cons token tokens ih =>
    obtain ⟨token, place⟩ := token
    cases token with
    | operand operand =>
      rcases Outcome.run_bind_ok h with ⟨a, mid, -, hrest⟩
      have hlast := ih hrest
      exact hlast
    | operator operator =>
      rcases Outcome.run_bind_ok h with ⟨⟨pending', mid⟩, _, hlift, hrest⟩
      rcases Outcome.run_liftM_ok hlift with ⟨hmid, rfl⟩
      have hkept := (Reduction.keptWith_length _).applyTighter rfl hmid
      have hlast := ih hrest
      rw [List.countP_cons_of_pos (by rfl)] at hlast
      rw [Expression.operatorCount_cons, if_pos (by rfl)]
      omega
    | openParen =>
      have hlast := ih h
      exact hlast
    | closeParen =>
      rcases Outcome.run_bind_ok h with ⟨⟨pending', mid⟩, _, hlift, hrest⟩
      rcases Outcome.run_liftM_ok hlift with ⟨hmid, rfl⟩
      have hkept := (Reduction.keptWith_length _).applyToParen rfl hmid
      have hlast := ih hrest
      rw [Expression.operatorCount_cons, if_neg (by nofun)]
      omega

theorem expression_length {e : Expression} {a : Int} {code : List Instruction}
    (h : (expression e span).run table = .ok ((a, code), table')) :
    code.length = 3 * Expression.operatorCount e.tokens := by
  rcases Outcome.run_bind_ok h with ⟨r, mid, htokens, hrest⟩
  rcases Outcome.run_bind_ok hrest with ⟨b, _, -, hpure⟩
  cases hpure
  simpa [Reduction.empty] using expressionTokens_length htokens

section Statements

variable {pairs : LoopPairs} {index : Nat} {opened opened' : List Nat} {s : Statement}
  {block : Block}

/-- The size of a statement is that of its code. -/
theorem Lowers.length_eq_size (h : Lowers pairs index opened table s block opened' table') :
    block.code.length = s.form.size := by
  -- All code but that of expressions is a fixed list, so its length can be read off.
  cases h with
  | loop hform =>
    rw [hform]
    rfl
  | endLoop hform =>
    rw [hform]
    rfl
  | plain hplain hform =>
    cases hf : s.form with
    | int name value =>
      rw [hf] at hform
      rw [(form_int_ok hform).1]
      rfl
    | string name text =>
      rw [hf] at hform
      rw [(form_string_ok hform).1]
      rfl
    | new name e =>
      -- An expression has as many instructions as its operators ask for, in whatever order.
      rw [hf] at hform
      rcases form_new_ok hform with ⟨a, mid, he, -⟩
      exact expression_length he
    | inputInt name =>
      rw [hf] at hform
      rw [(form_inputInt_ok hform).2.1]
      rfl
    | outputInt name =>
      rw [hf] at hform
      rcases form_outputInt_ok hform with ⟨a, -, rfl, -⟩
      rfl
    | inputStr =>
      rw [hf] at hform
      rcases form_inputStr_ok hform with ⟨zero, one, mid, -, -, rfl⟩
      rfl
    | outputStr name =>
      rw [hf] at hform
      rcases form_outputStr_ok hform with ⟨zero, one, string, mid, -, -, -, rfl⟩
      rfl
    | loop | endLoop =>
      rw [hf] at hplain
      exact hplain.elim

/-- Only an end has exactly one instruction. -/
theorem Lowers.length_ne_one (h : Lowers pairs index opened table s block opened' table')
    (hend : s.form ≠ .endLoop) : block.code.length ≠ 1 :=
  h.length_eq_size ▸ Statement.Form.size_ne_one hend

/-- A declaration is ignored just if its name has an address, and then with this address. -/
theorem form_redeclared {f : Statement.Form} {code : List Instruction}
    {redeclared : Option (String × Int)}
    (h : (form span f).run table = .ok ((code, redeclared), table')) : redeclared
      = f.declared?.bind fun name => (table.addressOf? name).map fun a => (name, a) := by
  -- A declaration looks up its name before all else, and no other statement is ever ignored.
  cases f with
  | int name value =>
    rcases Outcome.run_bind_ok h with ⟨declared, mid, hdeclare, hpure⟩
    cases hpure
    rcases SymbolTable.declare_ok (allocating_ok hdeclare) with
      ⟨info, hget, rfl, -⟩ | ⟨hget, -, rfl, -⟩
    · simp [Statement.Form.declared?, SymbolTable.addressOf?, hget, ignored]
    · simp [Statement.Form.declared?, SymbolTable.addressOf?, hget, ignored]
  | string name text =>
    rcases Outcome.run_bind_ok h with ⟨declared, mid, hdeclare, hpure⟩
    cases hpure
    rcases SymbolTable.declareString_ok (allocating_ok hdeclare) with
      ⟨info, hget, rfl, -⟩ | ⟨hget, rfl, -⟩
    · simp [Statement.Form.declared?, SymbolTable.addressOf?, hget, ignored]
    · simp [Statement.Form.declared?, SymbolTable.addressOf?, hget, ignored]
  | new name e =>
    rcases Outcome.run_bind_ok h with ⟨_, _, -, hrest⟩
    rcases Outcome.run_bind_ok hrest with ⟨_, _, -, hpure⟩
    cases hpure
    rfl
  | inputInt name | outputInt name =>
    rcases Outcome.run_bind_ok h with ⟨_, _, -, hpure⟩
    cases hpure
    rfl
  | inputStr =>
    rcases Outcome.run_bind_ok h with ⟨_, _, -, hone⟩
    rcases Outcome.run_bind_ok hone with ⟨_, _, -, hcode⟩
    rcases Outcome.run_bind_ok hcode with ⟨_, _, -, hpure⟩
    cases hpure
    rfl
  | outputStr name =>
    rcases Outcome.run_bind_ok h with ⟨_, _, -, hone⟩
    rcases Outcome.run_bind_ok hone with ⟨_, _, -, hprint⟩
    rcases Outcome.run_bind_ok hprint with ⟨_, _, -, hcode⟩
    rcases Outcome.run_bind_ok hcode with ⟨_, _, -, hpure⟩
    cases hpure
    rfl
  | loop | endLoop =>
    cases h
    rfl

theorem Lowers.redeclared_eq (h : Lowers pairs index opened table s block opened' table') :
    block.redeclared
      = s.form.declared?.bind fun name => (table.addressOf? name).map fun a => (name, a) := by
  cases h with
  | loop hform =>
    rw [hform]
    rfl
  | endLoop hform =>
    rw [hform]
    rfl
  | plain hplain hform => exact form_redeclared hform

end Statements

end Lowering

end AccumulatorMachine
