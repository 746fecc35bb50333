import AccumulatorMachine.Proofs.Lowering.Acceptance
import AccumulatorMachine.Proofs.Lowering.Scope

/-!
# Post-Order Code

The code of an expression is its tree in post-order.

The lowering does not know the tree. It reads tokens from left to right and keeps two stacks, and
what it emits in between depends on when an operator stops waiting.

What comes out depends on the tree and on the addresses of its operands alone. An operand keeps the
address that it gets where it stands, since looking up the operands behind it binds no name again.
So addresses can be read off the table that is left at the end, and `Formula.code` is a function of
them: the code of the left side, the code of the right side, and then the three instructions of the
operator on the two cells where these have left their values.

## Main definitions

* `Formula.operands`, `Formula.first`: The operands of a formula, and the first of them.
* `Formula.result`: The cell in which a formula leaves its value.
* `Formula.code`: The code of a formula in post-order.

## Theorems

* `Formula.result_eq`: A formula leaves its value in the cell of its first operand.
* `Lowering.expression_code`: Lowering emits the code of the formula that an expression is.
* `Lowering.expression_postorder`: The same for the sentences of the grammar.
-/

namespace AccumulatorMachine

namespace Formula

/-! ## Post-order -/

/-- The operands of a formula from left to right. -/
def operands : Formula → List Operand
  | operand o => [o]
  | binary _ left right => left.operands ++ right.operands
  | paren body => body.operands

/-- The leftmost operand of a formula. -/
def first : Formula → Operand
  | operand o => o
  | binary _ left _ => left.first
  | paren body => body.first

theorem head?_operands (f : Formula) : f.operands.head? = some f.first := by
  induction f with
  | operand o => rfl
  | binary operator left right ih _ =>
    rw [operands, List.head?_append, ih]
    rfl
  | paren body ih => exact ih

theorem first_mem_operands (f : Formula) : f.first ∈ f.operands :=
  List.mem_of_head? f.head?_operands

/-- The operands of a formula are those among its tokens. -/
theorem operandsOf_eq {tokens : List (ExpressionToken × Span)} {f : Formula}
    (h : tokens.map Prod.fst = f.tokens) : Expression.operandsOf tokens = f.operands := by
  have hmap : Expression.operandsOf tokens
      = (tokens.map Prod.fst).filterMap ExpressionToken.operand? := by
    rw [List.filterMap_map]
    rfl
  rw [hmap, h]
  -- The parts are read off the formula, whatever their places were.
  clear hmap h
  induction f with
  | operand o => rfl
  | binary operator left right ihl ihr =>
    rw [Formula.tokens, List.filterMap_append, List.filterMap_cons_none rfl, ihl, ihr]
    rfl
  | paren body ih =>
    rw [Formula.tokens, List.filterMap_cons_none rfl, List.filterMap_append, ih]
    exact List.append_nil _

section Code

variable (address : Operand → Int)

/-- The cell in which a formula leaves its value. An operator leaves it in the cell of its left
    side. -/
def result : Formula → Int
  | operand o => address o
  | binary _ left _ => left.result
  | paren body => body.result

/-- The code of a formula in post-order. -/
def code : Formula → List Instruction
  | operand _ => []
  | binary operator left right => left.code ++ right.code ++
      [⟨.read, left.result address⟩, ⟨operator.operation, right.result address⟩,
        ⟨.write, left.result address⟩]
  | paren body => body.code

/-- The last instructions of a formula are those of its outermost operator. -/
theorem code_binary (operator : BinaryOperator) (left right : Formula) :
    (binary operator left right).code address = left.code address ++ right.code address
      ++ Reduction.operatorCode operator (left.result address) (right.result address) := by
  rw [code, Reduction.operatorCode_eq]

/-- A formula leaves its value in the cell of its first operand. -/
theorem result_eq (f : Formula) : f.result address = address f.first := by
  induction f with
  | operand o => rfl
  | binary operator left right ih _ => exact ih
  | paren body ih => exact ih

end Code

/-! ## Lowering -/

namespace Lowers

variable {f : Formula} {table table' : SymbolTable} {a : Int} {code : List Instruction}

/-- No name that is bound already is bound to something else for a formula. -/
theorem keeps (h : f.Lowers table a code table') {name : String} {b : Int}
    (hname : table.addressOf? name = some b) : table'.addressOf? name = some b := by
  induction h with
  | operand ha => exact Lowering.operandAddress_keeps ha hname
  | binary _ _ ihl ihr => exact ihr (ihl hname)
  | paren _ ih => exact ih hname

/-- All operands of a formula are bound in the end. -/
theorem binds (h : f.Lowers table a code table') :
    ∀ o ∈ f.operands, ∃ b, table'.addressOf? o.render = some b := by
  induction h with
  | operand ha =>
    intro o ho
    rw [List.mem_singleton.mp ho]
    exact ⟨_, Lowering.operandAddress_binds ha⟩
  | binary _ hright ihl ihr =>
    intro o ho
    rcases List.mem_append.mp ho with ho | ho
    · rcases ihl o ho with ⟨b, hb⟩
      exact ⟨b, hright.keeps hb⟩
    · exact ihr o ho
  | paren _ ih => exact ih

/-- The code of a formula, from the addresses that its operands have in the end. -/
theorem code_eq {address : Operand → Int} (h : f.Lowers table a code table')
    (haddress : ∀ o ∈ f.operands, table'.addressOf? o.render = some (address o)) :
    a = f.result address ∧ code = f.code address := by
  induction h with
  | @operand o place _ _ b ha =>
    have hb := (Lowering.operandAddress_binds ha).symm.trans (haddress o List.mem_cons_self)
    exact ⟨Option.some.inj hb, rfl⟩
  | @binary operator left right _ mid _ _ _ _ _ hleft hright ihl ihr =>
    -- What the left side looks up has the same addresses behind it and behind the right side.
    have hmid : ∀ o ∈ left.operands, mid.addressOf? o.render = some (address o) := by
      intro o ho
      rcases hleft.binds o ho with ⟨b, hb⟩
      have hend := haddress o (List.mem_append_left _ ho)
      rw [hright.keeps hb] at hend
      rw [hb, hend]
    rcases ihl hmid with ⟨rfl, rfl⟩
    rcases ihr fun o ho => haddress o (List.mem_append_right _ ho) with ⟨rfl, rfl⟩
    exact ⟨rfl, (code_binary address operator left right).symm⟩
  | paren _ ih => exact ih haddress

end Lowers

end Formula

namespace Lowering

variable {table table' : SymbolTable}

/-- No name that is bound already is bound to something else for operands. -/
theorem operands_keeps {tokens : List (ExpressionToken × Span)}
    (h : (operands tokens).run table = .ok ((), table')) {name : String} {a : Int}
    (hname : table.addressOf? name = some a) : table'.addressOf? name = some a := by
  induction tokens generalizing table with
  | nil =>
    cases h
    exact hname
  | cons token tokens ih =>
    obtain ⟨token, place⟩ := token
    cases token with
    | operand o =>
      rcases Outcome.run_bind_ok h with ⟨b, mid, hb, hrest⟩
      exact ih hrest (operandAddress_keeps hb hname)
    | operator _ | openParen | closeParen => exact ih h hname

/-- Lowering the tokens of an expression looks up its operands, and changes the table by nothing
    else. -/
theorem operands_of_expressionTokens {whole span : Span}
    {tokens : List (ExpressionToken × Span)} {pending : List Pending} {r r' : Reduction}
    (h : (expressionTokens whole span tokens pending r).run table = .ok (r', table')) :
    (operands tokens).run table = .ok ((), table') := by
  induction tokens generalizing pending r table with
  | nil =>
    rcases Outcome.run_liftM_ok h with ⟨-, rfl⟩
    rfl
  | cons token tokens ih =>
    obtain ⟨token, place⟩ := token
    cases token with
    | operand o =>
      rcases Outcome.run_bind_ok h with ⟨a, mid, ha, hrest⟩
      exact (Outcome.run_bind_of_ok _ ha).trans (ih hrest)
    | operator o =>
      rcases Outcome.run_bind_ok h with ⟨_, _, hlift, hrest⟩
      rcases Outcome.run_liftM_ok hlift with ⟨-, rfl⟩
      exact ih hrest
    | openParen => exact ih h
    | closeParen =>
      rcases Outcome.run_bind_ok h with ⟨_, _, hlift, hrest⟩
      rcases Outcome.run_liftM_ok hlift with ⟨-, rfl⟩
      exact ih hrest

section Reading

variable {e : Expression} {f : Formula} (hreads : e.Reads f)
  (hoperands : (operands e.tokens).run table = .ok ((), table')) (span : Span)

include hreads hoperands

/-- If the operands of an expression have addresses, it is lowered as its formula, and the table is
    as the operands leave it. -/
theorem expression_lowers : ∃ a code, f.Lowers table a code table' ∧
    (expression e span).run table = .ok ((a, code), table') := by
  rcases expression_of_reads hreads span hoperands with ⟨⟨⟨a, code⟩, last⟩, hrun⟩
  rcases Outcome.run_bind_ok hrun with ⟨r, mid, htokens, hrest⟩
  rcases Outcome.run_bind_ok hrest with ⟨b, _, hlift, hpure⟩
  rcases Outcome.run_liftM_ok hlift with ⟨-, rfl⟩
  cases hpure
  -- The operands have been looked up once, so both tables are the same.
  have hlast := (operands_of_expressionTokens htokens).symm.trans hoperands
  cases hlast
  exact ⟨_, _, expression_formula hreads hrun, hrun⟩

/-- Lowering emits the code of the formula that an expression is. -/
theorem expression_code {address : Operand → Int}
    (haddress : ∀ o ∈ f.operands, table'.addressOf? o.render = some (address o)) :
    (expression e span).run table = .ok ((f.result address, f.code address), table') := by
  rcases expression_lowers hreads hoperands span with ⟨a, code, hlowers, hrun⟩
  rcases hlowers.code_eq haddress with ⟨rfl, rfl⟩
  exact hrun

/-- All operands of an expression have an address when they have been looked up. -/
theorem exists_address : ∃ address : Operand → Int,
    ∀ o ∈ f.operands, table'.addressOf? o.render = some (address o) := by
  rcases expression_lowers hreads hoperands ⟨0, 0⟩ with ⟨a, code, hlowers, -⟩
  refine ⟨fun o => (table'.addressOf? o.render).getD 0, fun o ho => ?_⟩
  rcases hlowers.binds o ho with ⟨b, hb⟩
  simp only [hb, Option.getD_some]

omit hreads in
/-- An operand is looked up when those in front of it have been, and those behind it follow. -/
theorem operands_split {address : Operand → Int}
    (haddress : ∀ o ∈ Expression.operandsOf e.tokens,
      table'.addressOf? o.render = some (address o))
    {before after : List (ExpressionToken × Span)} {o : Operand} {place : Span}
    (htokens : e.tokens = before ++ (.operand o, place) :: after) :
    ∃ mid mid', (operands before).run table = .ok ((), mid) ∧
      (operandAddress o place).run mid = .ok (address o, mid') ∧
      (operands after).run mid' = .ok ((), table') := by
  rw [htokens] at hoperands
  rcases operands_append_ok hoperands with ⟨mid, hbefore, hrest⟩
  rcases Outcome.run_bind_ok hrest with ⟨a, mid', ha, hafter⟩
  refine ⟨mid, mid', hbefore, ?_, hafter⟩
  -- The address is still that of the operand in the end.
  have hmem : o ∈ Expression.operandsOf e.tokens := by
    rw [htokens]
    exact List.mem_filterMap.mpr ⟨(.operand o, place), by simp, rfl⟩
  have hend := operands_keeps hafter (operandAddress_binds ha)
  rw [haddress o hmem] at hend
  cases hend
  exact ha

end Reading

/-- The code of a sentence of the grammar. Its operands are looked up from left to right, each at
    its turn. Then the code is that of the tree in post-order and nothing else, and its value is in
    the cell of the first operand in the text. -/
theorem expression_postorder {e : Expression} {f : Formula}
    (htokens : e.tokens.map Prod.fst = f.tokens) (hf : f.Derives .sum)
    (hoperands : (operands e.tokens).run table = .ok ((), table')) (span : Span) :
    ∃ address : Operand → Int,
      (∀ before o place after, e.tokens = before ++ (.operand o, place) :: after →
        ∃ mid mid', (operands before).run table = .ok ((), mid) ∧
          (operandAddress o place).run mid = .ok (address o, mid') ∧
          (operands after).run mid' = .ok ((), table')) ∧
      (expression e span).run table = .ok ((f.result address, f.code address), table') ∧
      (Expression.operandsOf e.tokens).head?.map address = some (f.result address) := by
  have hreads : e.Reads f := ⟨htokens, hf⟩
  have hof := Formula.operandsOf_eq htokens
  rcases exists_address hreads hoperands with ⟨address, haddress⟩
  refine ⟨address, fun before o place after hsplit => ?_,
    expression_code hreads hoperands span haddress, ?_⟩
  · exact operands_split hoperands (hof.symm ▸ haddress) hsplit
  · rw [hof, f.head?_operands, f.result_eq address]
    rfl

/-- The expression `a - ( b + 2 ) * 2 / b`. -/
def mixedOperators : Expression where
  tokens := [(.operand (.name "a"), ⟨0, 1⟩), (.operator .subtract, ⟨2, 3⟩), (.openParen, ⟨4, 5⟩),
    (.operand (.name "b"), ⟨6, 7⟩), (.operator .add, ⟨8, 9⟩),
    (.operand (.literal "2" 2), ⟨10, 11⟩), (.closeParen, ⟨12, 13⟩), (.operator .multiply, ⟨14, 15⟩),
    (.operand (.literal "2" 2), ⟨16, 17⟩), (.operator .divide, ⟨18, 19⟩),
    (.operand (.name "b"), ⟨20, 21⟩)]
  span := ⟨0, 21⟩

/-- Its tree. -/
def mixedOperatorsTree : Formula :=
  .binary .subtract (.operand (.name "a")) (.binary .divide (.binary .multiply
    (.paren (.binary .add (.operand (.name "b")) (.operand (.literal "2" 2))))
    (.operand (.literal "2" 2))) (.operand (.name "b")))

theorem mixedOperators_postorder :
    (operands mixedOperators.tokens).run twoVariables
      = .ok ((), twoVariables.fresh "2" 2 .literal) ∧
    mixedOperators.tokens.map Prod.fst = mixedOperatorsTree.tokens ∧
    mixedOperatorsTree.Derives .sum ∧
    (∃ address : Operand → Int, (expression mixedOperators ⟨0, 21⟩).run twoVariables
      = .ok ((mixedOperatorsTree.result address, mixedOperatorsTree.code address),
        twoVariables.fresh "2" 2 .literal)) ∧
    (expression mixedOperators ⟨0, 21⟩).run twoVariables = .ok ((1000,
      [⟨.read, 999⟩, ⟨.add, 998⟩, ⟨.write, 999⟩, ⟨.read, 999⟩, ⟨.multiply, 998⟩, ⟨.write, 999⟩,
        ⟨.read, 999⟩, ⟨.divide, 999⟩, ⟨.write, 999⟩, ⟨.read, 1000⟩, ⟨.subtract, 999⟩,
        ⟨.write, 1000⟩]), twoVariables.fresh "2" 2 .literal) := by
  have hoperands : (operands mixedOperators.tokens).run twoVariables
      = .ok ((), twoVariables.fresh "2" 2 .literal) := rfl
  have hsum : Formula.Derives .sum (.binary .add (.operand (.name "b"))
      (.operand (.literal "2" 2))) :=
    .add (.ofProduct (.ofFactor (.operand _))) (.ofFactor (.operand _))
  -- The product and the quotient stand in one stratum, and are grouped from the left.
  have hf : mixedOperatorsTree.Derives .sum :=
    .subtract (.ofProduct (.ofFactor (.operand _)))
      (.divide (.multiply (.ofFactor (.paren hsum)) (.operand _)) (.operand _))
  rcases expression_postorder rfl hf hoperands ⟨0, 21⟩ with ⟨address, -, hcode, -⟩
  exact ⟨hoperands, rfl, hf, ⟨address, hcode⟩, rfl⟩

end Lowering

end AccumulatorMachine
