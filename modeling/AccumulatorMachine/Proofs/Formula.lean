import AccumulatorMachine.Source.Statement

/-!
# Formulas

What the tokens of an expression mean, before anything is lowered.

A sentence of the ambiguous grammar

    E ::= operand | E op E | ( E )

is a tree, and several trees may have the same tokens. Precedence picks one of them. It can be
written into a grammar that has one stratum for each strength of binding:

    sum     ::= sum (+ | -) product | product
    product ::= product (* | /) factor | factor
    factor  ::= operand | ( sum )

The formula that an expression is by precedence is the tree of this grammar. The lowering knows
nothing of it. It compares the numbers that `BinaryOperator.precedence` has for two operators, and
in terms of these a tree is right if an operator has on its left only what binds at least as tightly
as it does, and on its right only what binds more tightly. That is `WellGrouped`, and both say the
same.

Every sentence has a tree that is well grouped. It is built from left to right: a further operator
at the end descends the right spine of what is there as long as the operators on it bind less
tightly. That is `snoc`, and the same rule is behind the stack of waiting operators in the
lowering.

## Main definitions

* `BinaryOperator.operation`: The operation of the machine that an operator stands for.
* `Formula`: A sentence of the ambiguous grammar.
* `Formula.tokens`: The tokens of a sentence.
* `Formula.Stratum`, `Formula.Derives`: The grammar with a stratum for each strength of binding.
* `Formula.WellGrouped`: The grouping that precedence asks for.
* `Formula.snoc`: One more operator and its right side at the end of a formula.
* `Expression.operandsOf`: The operands of an expression.
* `Expression.Reads`: The formula that an expression is by precedence.

## Theorems

* `Formula.exists_tokens_eq_append`: A formula does not end with an operator.
* `Formula.derives_iff`: The trees of the grammar are the formulas that are grouped by precedence.
* `Formula.WellGrouped.snoc`: One more operator keeps a formula well grouped.
* `Formula.exists_wellGrouped`: Every sentence can be grouped by precedence.
-/

namespace AccumulatorMachine

/-- The operation of the machine that an operator stands for. -/
def BinaryOperator.operation : BinaryOperator → OpCode
  | add => .add
  | subtract => .subtract
  | multiply => .multiply
  | divide => .divide

/-- A sentence of the grammar of infix expressions, as a tree. -/
inductive Formula where
  | operand (operand : Operand)
  | binary (operator : BinaryOperator) (left right : Formula)
  | paren (body : Formula)
  deriving DecidableEq, Repr

namespace Formula

/-- The tokens of a formula from left to right. -/
def tokens : Formula → List ExpressionToken
  | operand o => [.operand o]
  | binary operator left right => left.tokens ++ .operator operator :: right.tokens
  | paren body => .openParen :: (body.tokens ++ [.closeParen])

/-- A formula does not end with an operator. -/
theorem exists_tokens_eq_append (f : Formula) :
    ∃ front last, f.tokens = front ++ [last] ∧ ∀ operator, last ≠ .operator operator := by
  induction f with
  | operand o => exact ⟨[], .operand o, rfl, fun _ => nofun⟩
  | binary operator left right _ ih =>
    obtain ⟨front, last, hlast, hno⟩ := ih
    refine ⟨left.tokens ++ .operator operator :: front, last, ?_, hno⟩
    rw [tokens, hlast, List.append_assoc, List.cons_append]
  | paren body _ => exact ⟨.openParen :: body.tokens, .closeParen, rfl, fun _ => nofun⟩

/-! ## Precedence -/

/-- The nonterminals of the grammar of expressions. -/
inductive Stratum where
  | sum
  | product
  | factor
  deriving DecidableEq, Repr

/-- How tightly the formulas of a stratum hold together at least. -/
def Stratum.level : Stratum → Nat
  | sum => 1
  | product => 2
  | factor => 3

/-- What holds of a stratum holds of every one that asks for less, if it does so step by step. -/
theorem Stratum.descend (holds : Stratum → Prop) (hproduct : holds .product → holds .sum)
    (hfactor : holds .factor → holds .product) {s t : Stratum} (h : holds s)
    (hle : t.level ≤ s.level) : holds t := by
  cases s with
  | sum =>
    cases t with
    | sum => exact h
    | product | factor => exact absurd hle (by decide)
  | product =>
    cases t with
    | sum => exact hproduct h
    | product => exact h
    | factor => exact absurd hle (by decide)
  | factor =>
    cases t with
    | sum => exact hproduct (hfactor h)
    | product => exact hfactor h
    | factor => exact h

/-- The derivations of the grammar. A formula is the tree that is left of a derivation when the
    steps from a stratum to the next one are not counted. -/
inductive Derives : Stratum → Formula → Prop
  | add {left right : Formula} (hleft : Derives .sum left) (hright : Derives .product right) :
      Derives .sum (.binary .add left right)
  | subtract {left right : Formula} (hleft : Derives .sum left) (hright : Derives .product right) :
      Derives .sum (.binary .subtract left right)
  | ofProduct {f : Formula} (h : Derives .product f) : Derives .sum f
  | multiply {left right : Formula} (hleft : Derives .product left)
      (hright : Derives .factor right) : Derives .product (.binary .multiply left right)
  | divide {left right : Formula} (hleft : Derives .product left)
      (hright : Derives .factor right) : Derives .product (.binary .divide left right)
  | ofFactor {f : Formula} (h : Derives .factor f) : Derives .product f
  | operand (o : Operand) : Derives .factor (.operand o)
  | paren {body : Formula} (h : Derives .sum body) : Derives .factor (.paren body)

/-- A formula of a stratum is one of every stratum that asks for less. -/
theorem Derives.weaken {s t : Stratum} {f : Formula} (h : Derives s f) (hle : t.level ≤ s.level) :
    Derives t f :=
  Stratum.descend (Derives · f) .ofProduct .ofFactor h hle

/-- How tightly a formula holds together: as its outermost operator binds, or more tightly than any
    operator if it is none. -/
def level : Formula → Nat
  | operand _ => 3
  | binary operator _ _ => operator.precedence
  | paren _ => 3

/-- A formula is grouped by precedence, and from the left where that leaves a choice. -/
def WellGrouped : Formula → Prop
  | operand _ => True
  | binary operator left right => left.WellGrouped ∧ right.WellGrouped ∧
      operator.precedence ≤ left.level ∧ operator.precedence < right.level
  | paren body => body.WellGrouped

theorem precedence_lt (operator : BinaryOperator) : operator.precedence < 3 := by
  cases operator <;> decide

theorem precedence_pos (operator : BinaryOperator) : 0 < operator.precedence := by
  cases operator <;> decide

theorem level_pos (f : Formula) : 0 < f.level := by
  cases f with
  | operand | paren => exact Nat.succ_pos 2
  | binary operator left right => exact precedence_pos operator

/-- The trees of the grammar are the formulas that are grouped by precedence. -/
theorem derives_iff {s : Stratum} {f : Formula} :
    Derives s f ↔ f.WellGrouped ∧ s.level ≤ f.level := by
  constructor
  · intro h
    induction h with
    | add _ _ ihl ihr | subtract _ _ ihl ihr | multiply _ _ ihl ihr | divide _ _ ihl ihr =>
      exact ⟨⟨ihl.1, ihr.1, ihl.2, ihr.2⟩, Nat.le_refl _⟩
    | ofProduct _ ih => exact ⟨ih.1, Nat.le_trans (by decide) ih.2⟩
    | ofFactor _ ih => exact ⟨ih.1, Nat.le_trans (by decide) ih.2⟩
    | operand o => exact ⟨trivial, Nat.le_refl _⟩
    | paren _ ih => exact ⟨ih.1, Nat.le_refl _⟩
  · rintro ⟨hf, hs⟩
    induction f generalizing s with
    | operand o => exact (Derives.operand o).weaken hs
    | paren body ih => exact (Derives.paren (ih hf body.level_pos)).weaken hs
    | binary operator left right ihl ihr =>
      rcases hf with ⟨hl, hr, hle, hlt⟩
      -- The operator says which rule it is, and the sides bind as tightly as that rule asks.
      cases operator with
      | add => exact (Derives.add (ihl hl hle) (ihr hr hlt)).weaken hs
      | subtract => exact (Derives.subtract (ihl hl hle) (ihr hr hlt)).weaken hs
      | multiply => exact (Derives.multiply (ihl hl hle) (ihr hr hlt)).weaken hs
      | divide => exact (Derives.divide (ihl hl hle) (ihr hr hlt)).weaken hs

/-! ## Grouping from the left -/

/-- A formula with one more operator and its right side at the end. -/
def snoc (f : Formula) (operator : BinaryOperator) (right : Formula) : Formula :=
  match f with
  | binary outer first last =>
    if outer.precedence < operator.precedence then binary outer first (last.snoc operator right)
    else binary operator (binary outer first last) right
  | f => binary operator f right

theorem tokens_snoc (f : Formula) (operator : BinaryOperator) (right : Formula) :
    (f.snoc operator right).tokens = f.tokens ++ .operator operator :: right.tokens := by
  induction f with
  | operand o => rfl
  | paren body _ => rfl
  | binary outer first last _ ih =>
    rw [snoc]
    -- The new operator goes down the right spine, or on top of all.
    by_cases h : outer.precedence < operator.precedence
    · rw [if_pos h, tokens, ih, tokens]
      simp only [List.append_assoc, List.cons_append]
    · rw [if_neg h, tokens]

/-- The end of a formula holds together as tightly as before or as the new operator binds. -/
theorem le_level_snoc {f : Formula} {operator : BinaryOperator} {right : Formula} {n : Nat}
    (hf : n ≤ f.level) (ho : n ≤ operator.precedence) : n ≤ (f.snoc operator right).level := by
  cases f with
  | operand o => exact ho
  | paren body => exact ho
  | binary outer first last =>
    rw [snoc]
    by_cases h : outer.precedence < operator.precedence
    · rw [if_pos h]
      exact hf
    · rw [if_neg h]
      exact ho

theorem WellGrouped.snoc {f right : Formula} (hf : f.WellGrouped) (hr : right.WellGrouped)
    (hlevel : right.level = 3) (operator : BinaryOperator) :
    (f.snoc operator right).WellGrouped := by
  have hright : operator.precedence < right.level := by
    rw [hlevel]
    exact precedence_lt operator
  have hthree := precedence_lt operator
  induction f with
  | operand o => exact ⟨hf, hr, Nat.le_of_lt hthree, hright⟩
  | paren body _ => exact ⟨hf, hr, Nat.le_of_lt hthree, hright⟩
  | binary outer first last _ ih =>
    rw [Formula.snoc]
    -- It goes down past operators that bind less tightly, and stops at the first that does not.
    by_cases h : outer.precedence < operator.precedence
    · rw [if_pos h]
      rcases hf with ⟨hfirst, hlast, hle, hlt⟩
      exact ⟨hfirst, ih hlast, hle, le_level_snoc hlt h⟩
    · rw [if_neg h]
      exact ⟨hf, hr, Nat.le_of_not_lt h, hright⟩

/-- Every sentence can be grouped by precedence, also if it is the right side of an operator behind
    something that is grouped already. -/
theorem exists_wellGrouped_both (f : Formula) :
    (∃ g : Formula, g.WellGrouped ∧ g.tokens = f.tokens) ∧
      ∀ (first : Formula) (operator : BinaryOperator), first.WellGrouped →
        ∃ g : Formula, g.WellGrouped ∧
          g.tokens = first.tokens ++ .operator operator :: f.tokens := by
  induction f with
  | operand o =>
    have ho : (operand o).WellGrouped := trivial
    refine ⟨⟨operand o, ho, rfl⟩, fun first operator hfirst => ?_⟩
    exact ⟨first.snoc operator (operand o), hfirst.snoc ho rfl operator,
      tokens_snoc first operator (operand o)⟩
  | paren body ih =>
    rcases ih.1 with ⟨g, hg, htokens⟩
    have hp : (paren g).WellGrouped := hg
    -- What stands in parentheses is grouped on its own.
    refine ⟨⟨paren g, hp, by rw [tokens, tokens, htokens]⟩, fun first operator hfirst => ?_⟩
    refine ⟨first.snoc operator (paren g), hfirst.snoc hp rfl operator, ?_⟩
    rw [tokens_snoc, tokens, tokens, htokens]
  | binary inner left right ihl ihr =>
    refine ⟨?_, fun first operator hfirst => ?_⟩
    · rcases ihl.1 with ⟨g, hg, htokens⟩
      rcases ihr.2 g inner hg with ⟨g', hg', htokens'⟩
      exact ⟨g', hg', by rw [htokens', htokens, tokens]⟩
    · -- What stands before the operator takes in the left side first, and then the right one.
      rcases ihl.2 first operator hfirst with ⟨g, hg, htokens⟩
      rcases ihr.2 g inner hg with ⟨g', hg', htokens'⟩
      refine ⟨g', hg', ?_⟩
      rw [htokens', htokens, tokens]
      simp only [List.append_assoc, List.cons_append]

theorem exists_wellGrouped (f : Formula) : ∃ g : Formula, g.WellGrouped ∧ g.tokens = f.tokens :=
  (exists_wellGrouped_both f).1

end Formula

/-- The operand that a part of an expression is. -/
def ExpressionToken.operand? : ExpressionToken → Option Operand
  | .operand o => some o
  | _ => none

namespace Expression

/-- The operands among the parts of an expression. -/
def operandsOf (tokens : List (ExpressionToken × Span)) : List Operand :=
  tokens.filterMap fun token => token.1.operand?

/-- An expression is a sentence of the grammar of infix expressions. -/
def Infix (e : Expression) : Prop := ∃ f : Formula, e.tokens.map Prod.fst = f.tokens

/-- The formula that an expression is by precedence. -/
def Reads (e : Expression) (f : Formula) : Prop :=
  e.tokens.map Prod.fst = f.tokens ∧ f.Derives .sum

theorem Reads.wellGrouped {e : Expression} {f : Formula} (h : e.Reads f) : f.WellGrouped :=
  (Formula.derives_iff.mp h.2).1

theorem Infix.reads {e : Expression} (h : e.Infix) : ∃ f, e.Reads f := by
  rcases h with ⟨f, hf⟩
  rcases f.exists_wellGrouped with ⟨g, hg, htokens⟩
  exact ⟨g, hf.trans htokens.symm, Formula.derives_iff.mpr ⟨hg, g.level_pos⟩⟩

end Expression

end AccumulatorMachine
