import AccumulatorMachine.Proofs.Formula

/-!
# Phrases

What the tokens of an expression can be grouped into if nothing but the parentheses is right.

A phrase is looser than a formula. Its operands and its groups stand side by side without an
operator between them, a group may be empty, and an operator may have nothing on a side, or more
than one value. So every list of tokens with balanced parentheses is a phrase, and precedence
groups it just as it groups a formula: the grammar of phrases has the same strata, and only its
factors are looser. It is not ambiguous. When the tokens of a phrase are read once more, from left
to right, the same phrase comes out, so there is no other one that has them.

What is left of arithmetic in a phrase is counting. Operands and groups leave values, and an
operator that comes after its two sides replaces the last two values by one. The count tells
whether there are two, and it does not tell where they come from: `a ( + b )` leaves one value as
`a + b` does. For a formula there is nothing to find out, since it always adds one value. With the
cells of the operands the same walk writes the code of a phrase.

## Main definitions

* `Phrase`: Values and groups side by side, and operators between phrases.
* `Phrase.Derives`: The grammar of phrases with a stratum for each strength of binding.
* `Phrase.values`: How many values there are after a phrase.
* `Phrase.code?`: The cells of these values, and the code that computes them.
* `Phrase.read`: The phrase that tokens are from left to right.
* `ExpressionToken.depth`: How many parentheses are open after a list of tokens.
* `Formula.toPhrase`: A formula as a phrase.

## Theorems

* `Phrase.derives_iff`: The trees of the grammar are the phrases that are grouped by precedence.
* `Phrase.exists_wellGrouped`: Tokens with balanced parentheses are those of a phrase.
* `Phrase.read_tokens`: A phrase is read from its tokens.
* `Phrase.WellGrouped.eq_of_tokens`, `Expression.Reads.unique`: Tokens are grouped in one way only.
* `Formula.values_toPhrase`: A formula adds one value.
-/

namespace AccumulatorMachine

/-- Operands and groups side by side, and operators between phrases. -/
inductive Phrase where
  | nothing
  /-- An operand behind a phrase. -/
  | operand (before : Phrase) (operand : Operand)
  /-- A group in parentheses behind a phrase. -/
  | paren (before body : Phrase)
  | binary (operator : BinaryOperator) (left right : Phrase)
  deriving DecidableEq, Repr

namespace Phrase

/-- The tokens of a phrase from left to right. -/
def tokens : Phrase → List ExpressionToken
  | nothing => []
  | operand before o => before.tokens ++ [.operand o]
  | paren before body => before.tokens ++ .openParen :: (body.tokens ++ [.closeParen])
  | binary operator left right => left.tokens ++ .operator operator :: right.tokens

/-- The derivations of the grammar of phrases. A factor has operands and groups side by side, and
    there may be none. -/
inductive Derives : Formula.Stratum → Phrase → Prop
  | add {left right : Phrase} (hleft : Derives .sum left) (hright : Derives .product right) :
      Derives .sum (.binary .add left right)
  | subtract {left right : Phrase} (hleft : Derives .sum left) (hright : Derives .product right) :
      Derives .sum (.binary .subtract left right)
  | ofProduct {f : Phrase} (h : Derives .product f) : Derives .sum f
  | multiply {left right : Phrase} (hleft : Derives .product left)
      (hright : Derives .factor right) : Derives .product (.binary .multiply left right)
  | divide {left right : Phrase} (hleft : Derives .product left)
      (hright : Derives .factor right) : Derives .product (.binary .divide left right)
  | ofFactor {f : Phrase} (h : Derives .factor f) : Derives .product f
  | nothing : Derives .factor .nothing
  | operand {before : Phrase} (hbefore : Derives .factor before) (o : Operand) :
      Derives .factor (.operand before o)
  | paren {before body : Phrase} (hbefore : Derives .factor before) (hbody : Derives .sum body) :
      Derives .factor (.paren before body)

/-- How tightly a phrase holds together: as its outermost operator binds, or more tightly than any
    operator if it has none outside of groups. -/
def level : Phrase → Nat
  | binary operator _ _ => operator.precedence
  | _ => 3

/-- A phrase is grouped by precedence, and from the left where that leaves a choice. What stands
    side by side is not torn apart by an operator. -/
def WellGrouped : Phrase → Prop
  | nothing => True
  | operand before _ => before.WellGrouped ∧ before.level = 3
  | paren before body => before.WellGrouped ∧ before.level = 3 ∧ body.WellGrouped
  | binary operator left right => left.WellGrouped ∧ right.WellGrouped ∧
      operator.precedence ≤ left.level ∧ operator.precedence < right.level

theorem level_le (f : Phrase) : f.level ≤ 3 := by
  cases f with
  | binary operator left right => exact Nat.le_of_lt (Formula.precedence_lt operator)
  | nothing | operand | paren => exact Nat.le_refl 3

theorem level_pos (f : Phrase) : 0 < f.level := by
  cases f with
  | binary operator left right => exact Formula.precedence_pos operator
  | nothing | operand | paren => exact Nat.succ_pos 2

theorem Derives.weaken {s t : Formula.Stratum} {f : Phrase} (h : Derives s f)
    (hle : t.level ≤ s.level) : Derives t f :=
  Formula.Stratum.descend (Derives · f) .ofProduct .ofFactor h hle

/-- The trees of the grammar are the phrases that are grouped by precedence. -/
theorem derives_iff {s : Formula.Stratum} {f : Phrase} :
    Derives s f ↔ f.WellGrouped ∧ s.level ≤ f.level := by
  constructor
  · intro h
    induction h with
    | add _ _ ihl ihr | subtract _ _ ihl ihr | multiply _ _ ihl ihr | divide _ _ ihl ihr =>
      exact ⟨⟨ihl.1, ihr.1, ihl.2, ihr.2⟩, Nat.le_refl _⟩
    | ofProduct _ ih | ofFactor _ ih => exact ⟨ih.1, Nat.le_trans (by decide) ih.2⟩
    | nothing => exact ⟨trivial, Nat.le_refl _⟩
    | operand _ o ih => exact ⟨⟨ih.1, Nat.le_antisymm (level_le _) ih.2⟩, Nat.le_refl _⟩
    | paren _ _ ihb ih =>
      exact ⟨⟨ihb.1, Nat.le_antisymm (level_le _) ihb.2, ih.1⟩, Nat.le_refl _⟩
  · rintro ⟨hf, hs⟩
    induction f generalizing s with
    | nothing => exact Derives.nothing.weaken hs
    | operand before o ih =>
      exact (Derives.operand (ih hf.1 (Nat.le_of_eq hf.2.symm)) o).weaken hs
    | paren before body ihb ih =>
      rcases hf with ⟨hbefore, hlevel, hbody⟩
      have hfactor := ihb (s := .factor) hbefore (Nat.le_of_eq hlevel.symm)
      exact (Derives.paren hfactor (ih hbody body.level_pos)).weaken hs
    | binary operator left right ihl ihr =>
      rcases hf with ⟨hl, hr, hle, hlt⟩
      -- The operator says which rule it is, and the sides bind as tightly as that rule asks.
      cases operator with
      | add => exact (Derives.add (ihl hl hle) (ihr hr hlt)).weaken hs
      | subtract => exact (Derives.subtract (ihl hl hle) (ihr hr hlt)).weaken hs
      | multiply => exact (Derives.multiply (ihl hl hle) (ihr hr hlt)).weaken hs
      | divide => exact (Derives.divide (ihl hl hle) (ihr hr hlt)).weaken hs

/-! ## Values -/

/-- What is left of so many values after an operator has taken two and given one. -/
def combine : Nat → Option Nat
  | n + 2 => some (n + 1)
  | _ => none

/-- How many values there are after a phrase if there are `n` before it. There is no number if some
    operator does not find two. -/
def values : Phrase → Nat → Option Nat
  | nothing, n => some n
  | operand before _, n => (before.values n).map (· + 1)
  | paren before body, n => (before.values n).bind body.values
  | binary _ left right, n => ((left.values n).bind right.values).bind combine

/-- An operator takes the cells of the last two values and leaves that of its left side, in which it
    stores the result. -/
def operate (operator : BinaryOperator) :
    List Int × List Instruction → Option (List Int × List Instruction)
  | (b :: a :: cells, code) =>
    some (a :: cells, code ++ [⟨.read, a⟩, ⟨operator.operation, b⟩, ⟨.write, a⟩])
  | _ => none

/-- The cells of the values after a phrase, the last one first, and the code up to there, from those
    before it and the addresses of operands. There are none if an operand has no address or some
    operator does not find two values. -/
def code? (address? : Operand → Option Int) :
    Phrase → List Int × List Instruction → Option (List Int × List Instruction)
  | nothing, s => some s
  | operand before o, s =>
    (before.code? address? s).bind fun s => (address? o).map fun a => (a :: s.1, s.2)
  | paren before body, s => (before.code? address? s).bind (body.code? address?)
  | binary operator left right, s =>
    ((left.code? address? s).bind (right.code? address?)).bind (operate operator)

/-! ## Building a phrase from the left -/

/-- A phrase with one more operator at its end, and nothing on the right of it. -/
def addOperator (operator : BinaryOperator) : Phrase → Phrase
  | binary outer first last =>
    if outer.precedence < operator.precedence then binary outer first (last.addOperator operator)
    else binary operator (binary outer first last) nothing
  | f => binary operator f nothing

/-- A phrase with something at its end. It goes to the right side of the last operator. -/
def atEnd (item : Phrase → Phrase) : Phrase → Phrase
  | binary outer first last => binary outer first (last.atEnd item)
  | f => item f

theorem tokens_addOperator (operator : BinaryOperator) (f : Phrase) :
    (f.addOperator operator).tokens = f.tokens ++ [.operator operator] := by
  induction f with
  | binary outer first last _ ih =>
    rw [addOperator]
    by_cases h : outer.precedence < operator.precedence
    · rw [if_pos h, tokens, ih, tokens]
      simp only [List.append_assoc, List.cons_append]
    · rw [if_neg h]
      rfl
  | _ => rfl

theorem le_level_addOperator {operator : BinaryOperator} {f : Phrase} {n : Nat} (hf : n ≤ f.level)
    (ho : n ≤ operator.precedence) : n ≤ (f.addOperator operator).level := by
  cases f with
  | binary outer first last =>
    rw [addOperator]
    by_cases h : outer.precedence < operator.precedence
    · rw [if_pos h]
      exact hf
    · rw [if_neg h]
      exact ho
  | _ => exact ho

theorem WellGrouped.addOperator {f : Phrase} (hf : f.WellGrouped) (operator : BinaryOperator) :
    (f.addOperator operator).WellGrouped := by
  have hthree := Formula.precedence_lt operator
  induction f with
  | binary outer first last _ ih =>
    rw [Phrase.addOperator]
    -- It goes down past operators that bind less tightly, and stops at the first that does not.
    by_cases h : outer.precedence < operator.precedence
    · rw [if_pos h]
      rcases hf with ⟨hfirst, hlast, hle, hlt⟩
      exact ⟨hfirst, ih hlast, hle, le_level_addOperator hlt h⟩
    · rw [if_neg h]
      exact ⟨hf, trivial, Nat.le_of_not_lt h, hthree⟩
  | _ => exact ⟨hf, trivial, Nat.le_of_lt hthree, hthree⟩

section AtEnd

variable (item : Phrase → Phrase)

theorem tokens_atEnd (added : List ExpressionToken)
    (h : ∀ f : Phrase, (item f).tokens = f.tokens ++ added) (f : Phrase) :
    (f.atEnd item).tokens = f.tokens ++ added := by
  induction f with
  | binary outer first last _ ih => simp only [atEnd, tokens, ih, List.append_assoc,
      List.cons_append]
  | _ => exact h _

theorem level_atEnd (h : ∀ f : Phrase, (item f).level = 3) (f : Phrase) :
    (f.atEnd item).level = f.level := by
  cases f with
  | binary outer first last => rfl
  | _ => exact h _

theorem WellGrouped.atEnd (hlevel : ∀ f : Phrase, (item f).level = 3)
    (hitem : ∀ f : Phrase, f.WellGrouped → f.level = 3 → (item f).WellGrouped) {f : Phrase}
    (hf : f.WellGrouped) : (f.atEnd item).WellGrouped := by
  induction f with
  | binary outer first last _ ih =>
    rcases hf with ⟨hfirst, hlast, hle, hlt⟩
    exact ⟨hfirst, ih hlast, hle, by rwa [level_atEnd item hlevel]⟩
  | _ => exact hitem _ hf rfl

end AtEnd

/-- The tokens of groups that are still open, the innermost first, and of what has been read of the
    last one. -/
def opened (current : List ExpressionToken) : List Phrase → List ExpressionToken
  | [] => current
  | f :: outer => opened (f.tokens ++ .openParen :: current) outer

theorem opened_append (current added : List ExpressionToken) (outer : List Phrase) :
    opened (current ++ added) outer = opened current outer ++ added := by
  induction outer generalizing current with
  | nil => rfl
  | cons f outer ih =>
    rw [opened, opened, ← ih]
    simp only [List.append_assoc, List.cons_append]

end Phrase

/-- How many parentheses are open after a list of tokens if `n` are open before it. There is no
    number if one is closed that is not open. -/
def ExpressionToken.depth : List ExpressionToken → Nat → Option Nat
  | [], n => some n
  | .openParen :: tokens, n => depth tokens (n + 1)
  | .closeParen :: _, 0 => none
  | .closeParen :: tokens, n + 1 => depth tokens n
  | .operand _ :: tokens, n => depth tokens n
  | .operator _ :: tokens, n => depth tokens n

namespace Phrase

/-- The end of an expression can be read if it closes what is open. -/
theorem exists_wellGrouped_of_opened (rest : List ExpressionToken) (current : Phrase)
    (outer : List Phrase) (hcurrent : current.WellGrouped) (houter : ∀ f ∈ outer, f.WellGrouped)
    (h : ExpressionToken.depth rest outer.length = some 0) :
    ∃ f : Phrase, f.tokens = opened current.tokens outer ++ rest ∧ f.WellGrouped := by
  induction rest generalizing current outer with
  | nil =>
    -- Nothing is open at the end.
    cases List.eq_nil_of_length_eq_zero (Option.some.inj h)
    exact ⟨current, (List.append_nil _).symm, hcurrent⟩
  | cons token rest ih =>
    cases token with
    | operand o =>
      have hgrouped : (current.atEnd (operand · o)).WellGrouped :=
        hcurrent.atEnd (operand · o) (fun _ => rfl) fun _ hf hlevel => ⟨hf, hlevel⟩
      obtain ⟨f, hf, hwell⟩ := ih _ outer hgrouped houter h
      refine ⟨f, ?_, hwell⟩
      rw [hf, tokens_atEnd (operand · o) [.operand o] fun _ => rfl, opened_append,
        List.append_assoc, List.singleton_append]
    | operator o =>
      obtain ⟨f, hf, hwell⟩ := ih _ outer (hcurrent.addOperator o) houter h
      refine ⟨f, ?_, hwell⟩
      rw [hf, tokens_addOperator, opened_append, List.append_assoc, List.singleton_append]
    | openParen =>
      have hopen : ∀ f ∈ current :: outer, f.WellGrouped := by
        intro f hf
        rcases List.mem_cons.mp hf with rfl | hf
        · exact hcurrent
        · exact houter f hf
      obtain ⟨f, hf, hwell⟩ := ih nothing (current :: outer) trivial hopen h
      refine ⟨f, ?_, hwell⟩
      rw [hf, opened, tokens, opened_append, List.append_assoc, List.singleton_append]
    | closeParen =>
      match outer, houter, h with
      | last :: outer, houter, h =>
        have hgrouped : (last.atEnd (paren · current)).WellGrouped :=
          (houter last (.head _)).atEnd (paren · current) (fun _ => rfl)
            fun _ hf hlevel => ⟨hf, hlevel, hcurrent⟩
        have htokens : (last.atEnd (paren · current)).tokens
            = (last.tokens ++ .openParen :: current.tokens) ++ [.closeParen] := by
          rw [tokens_atEnd (paren · current) (.openParen :: (current.tokens ++ [.closeParen]))
            fun _ => rfl, List.append_assoc, List.cons_append]
        obtain ⟨f, hf, hwell⟩ := ih _ outer hgrouped (fun f hf => houter f (.tail _ hf)) h
        refine ⟨f, ?_, hwell⟩
        rw [hf, htokens, opened_append, opened, List.append_assoc, List.singleton_append]

/-- Tokens with balanced parentheses are those of a phrase that is grouped by precedence. -/
theorem exists_wellGrouped {expression : List ExpressionToken}
    (h : ExpressionToken.depth expression 0 = some 0) :
    ∃ f : Phrase, f.tokens = expression ∧ f.WellGrouped :=
  exists_wellGrouped_of_opened expression nothing [] trivial (fun _ hf => nomatch hf) h

/-! ## Reading a phrase -/

/-- The phrase that is read from tokens behind `current`, which stands in groups that are still
    open, the innermost first. -/
def read : List ExpressionToken → Phrase → List Phrase → Option Phrase
  | [], current, [] => some current
  | [], _, _ :: _ => none
  | .operand o :: tokens, current, outer => read tokens (current.atEnd (operand · o)) outer
  | .operator o :: tokens, current, outer => read tokens (current.addOperator o) outer
  | .openParen :: tokens, current, outer => read tokens nothing (current :: outer)
  | .closeParen :: tokens, current, last :: outer =>
    read tokens (last.atEnd (paren · current)) outer
  | .closeParen :: _, _, [] => none

/-- The operators on the right spine of a phrase bind less tightly than `n`. -/
def Below (n : Nat) : Phrase → Prop
  | binary operator _ last => operator.precedence < n ∧ last.Below n
  | _ => True

theorem Below.mono {n n' : Nat} {f : Phrase} (h : f.Below n) (hn : n ≤ n') : f.Below n' := by
  induction f with
  | binary operator first last _ ih => exact ⟨Nat.lt_of_lt_of_le h.1 hn, ih h.2⟩
  | nothing | operand | paren => trivial

section Spine

variable {n : Nat} (spine : Phrase) {f : Phrase}

theorem Below.atEnd {spine : Phrase} (h : spine.Below n) (hf : f.Below n) :
    (spine.atEnd fun _ => f).Below n := by
  induction spine with
  | binary operator first last _ ih => exact ⟨h.1, ih h.2⟩
  | nothing | operand | paren => exact hf

theorem atEnd_of_level (item : Phrase → Phrase) (h : f.level = 3) : f.atEnd item = item f := by
  cases f with
  | binary operator first last => exact absurd h (Nat.ne_of_lt (Formula.precedence_lt operator))
  | nothing | operand | paren => rfl

theorem atEnd_atEnd (item : Phrase → Phrase) :
    (spine.atEnd fun _ => f).atEnd item = spine.atEnd fun _ => f.atEnd item := by
  induction spine with
  | binary operator first last _ ih => rw [atEnd, atEnd, ih, atEnd]
  | nothing | operand | paren => rfl

/-- An operator goes down past all that bind less tightly. -/
theorem addOperator_atEnd {operator : BinaryOperator} (h : spine.Below operator.precedence) :
    (spine.atEnd fun _ => f).addOperator operator
      = spine.atEnd fun _ => f.addOperator operator := by
  induction spine with
  | binary outer first last _ ih => rw [atEnd, addOperator, if_pos h.1, ih h.2, atEnd]
  | nothing | operand | paren => rfl

/-- An operator takes what binds as tightly as it does for its left side. -/
theorem addOperator_of_le {operator : BinaryOperator} (h : operator.precedence ≤ f.level) :
    f.addOperator operator = binary operator f nothing := by
  cases f with
  | binary outer first last => exact if_neg (Nat.not_lt_of_le h)
  | nothing | operand | paren => rfl

end Spine

/-- The tokens of a phrase are read as that phrase, at the end of any right spine whose operators
    bind less tightly. -/
theorem read_append {f : Phrase} (hf : f.WellGrouped) {spine : Phrase} (h : spine.Below f.level)
    (rest : List ExpressionToken) (outer : List Phrase) :
    read (f.tokens ++ rest) (spine.atEnd fun _ => nothing) outer
      = read rest (spine.atEnd fun _ => f) outer := by
  induction f generalizing spine rest outer with
  | nothing => rfl
  | operand before o ih =>
    rcases hf with ⟨hbefore, hlevel⟩
    rw [tokens, List.append_assoc, List.singleton_append, ih hbefore (hlevel ▸ h), read,
      atEnd_atEnd, atEnd_of_level _ hlevel]
  | paren before body ihb ih =>
    rcases hf with ⟨hbefore, hlevel, hbody⟩
    -- What stands in the group is read with nothing in front of it.
    have hinner := ih hbody (show nothing.Below body.level from trivial) (.closeParen :: rest)
      ((spine.atEnd fun _ => before) :: outer)
    simp only [atEnd] at hinner
    rw [tokens, List.append_assoc, List.cons_append, List.append_assoc, List.singleton_append,
      ihb hbefore (hlevel ▸ h), read, hinner, read, atEnd_atEnd, atEnd_of_level _ hlevel]
  | binary operator left right ihl ihr =>
    rcases hf with ⟨hl, hr, hle, hlt⟩
    have hspine : (spine.atEnd fun _ => binary operator left nothing).Below right.level :=
      (h.mono (Nat.le_of_lt hlt)).atEnd ⟨hlt, trivial⟩
    -- The operator takes the left side, and stands on the spine of the right one.
    have hright := ihr hr hspine rest outer
    rw [atEnd_atEnd, atEnd_atEnd] at hright
    rw [tokens, List.append_assoc, List.cons_append, ihl hl (h.mono hle), read,
      addOperator_atEnd spine h, addOperator_of_le hle]
    exact hright

/-- A phrase is read from its tokens. -/
theorem read_tokens {f : Phrase} (hf : f.WellGrouped) : read f.tokens nothing [] = some f := by
  have h := read_append hf (show nothing.Below f.level from trivial) [] []
  rwa [List.append_nil] at h

/-- Tokens are grouped by precedence in one way only. -/
theorem WellGrouped.eq_of_tokens {f g : Phrase} (hf : f.WellGrouped) (hg : g.WellGrouped)
    (h : f.tokens = g.tokens) : f = g := by
  have hread := read_tokens hf
  rw [h, read_tokens hg] at hread
  exact (Option.some.inj hread).symm

end Phrase

namespace Formula

/-- A formula as a phrase. -/
def toPhrase : Formula → Phrase
  | operand o => .operand .nothing o
  | paren body => .paren .nothing body.toPhrase
  | binary operator left right => .binary operator left.toPhrase right.toPhrase

theorem tokens_toPhrase (f : Formula) : f.toPhrase.tokens = f.tokens := by
  induction f with
  | operand o => rfl
  | paren body ih => simp only [toPhrase, Phrase.tokens, tokens, ih, List.nil_append]
  | binary operator left right ihl ihr => simp only [toPhrase, Phrase.tokens, tokens, ihl, ihr]

theorem level_toPhrase (f : Formula) : f.toPhrase.level = f.level := by
  cases f <;> rfl

theorem WellGrouped.toPhrase {f : Formula} (h : f.WellGrouped) : f.toPhrase.WellGrouped := by
  induction f with
  | operand o => exact ⟨trivial, rfl⟩
  | paren body ih => exact ⟨trivial, rfl, ih h⟩
  | binary operator left right ihl ihr =>
    rcases h with ⟨hl, hr, hle, hlt⟩
    exact ⟨ihl hl, ihr hr, by rwa [level_toPhrase], by rwa [level_toPhrase]⟩

/-- A formula adds one value. -/
theorem values_toPhrase (f : Formula) (n : Nat) : f.toPhrase.values n = some (n + 1) := by
  induction f generalizing n with
  | operand o => rfl
  | paren body ih => exact ih n
  | binary operator left right ihl ihr =>
    simp only [toPhrase, Phrase.values, ihl, ihr, Option.bind_some, Phrase.combine]

theorem toPhrase_injective : Function.Injective toPhrase := by
  intro f
  induction f with
  | operand o =>
    intro g h
    cases g <;> cases h
    rfl
  | paren body ih =>
    intro g h
    cases g with
    | paren other => rw [ih (Phrase.paren.inj h).2]
    | operand | binary => cases h
  | binary operator left right ihl ihr =>
    intro g h
    cases g with
    | binary operator' left' right' =>
      rcases Phrase.binary.inj h with ⟨rfl, hl, hr⟩
      rw [ihl hl, ihr hr]
    | operand | paren => cases h

end Formula

/-- An expression is one formula by precedence. -/
theorem Expression.Reads.unique {e : Expression} {f g : Formula} (hf : e.Reads f)
    (hg : e.Reads g) : f = g := by
  refine Formula.toPhrase_injective
    (hf.wellGrouped.toPhrase.eq_of_tokens hg.wellGrouped.toPhrase ?_)
  rw [f.tokens_toPhrase, g.tokens_toPhrase, ← hf.1, hg.1]

end AccumulatorMachine
