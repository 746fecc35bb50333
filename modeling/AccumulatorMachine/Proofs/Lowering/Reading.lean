import AccumulatorMachine.Proofs.Lowering.Acceptance

/-!
# Reading With Addresses

What the lowering of an expression does once its operands have addresses.

No symbol table takes part in it any more. Operands are pushed, operators wait and are applied, and
`Expression.Resolves` follows this token by token. It knows when the lowering applies an operator,
and nothing of the sides that the operator has in the expression.

These are a matter of the phrase. While its tokens are read, operators of its right spine go on
waiting, so a phrase is not done when its last token is. But they bind at least as tightly as the
phrase holds together, and they are applied before anything else. If this succeeds, the phrase has
left the cells and the code that `Phrase.code?` has for it.

## Main definitions

* `Expression.Resolves`: Reading an expression, from the addresses of its operands.

## Theorems

* `Expression.Resolves.getLast?_operands`: An expression has the address of its first operand.
* `Expression.Resolves.phrase`: Reading the tokens of a phrase.
* `Expression.Resolves.code?_eq`: Reading all tokens leaves the code of the phrase that they are.
-/

namespace AccumulatorMachine

/-- Reading parts of an expression whose operands have addresses: the operators that still wait,
    and what has been computed. -/
inductive Expression.Resolves (address? : Operand → Option Int) (span : Span) :
    List (ExpressionToken × Span) → List Pending → Reduction → List Pending → Reduction → Prop
  | done (pending : List Pending) (r : Reduction) : Resolves address? span [] pending r pending r
  | operand {o : Operand} {place : Span} {a : Int} {tokens : List (ExpressionToken × Span)}
      {pending pending' : List Pending} {r r' : Reduction} (ha : address? o = some a)
      (hrest : Resolves address? span tokens pending (r.push a) pending' r') :
      Resolves address? span ((.operand o, place) :: tokens) pending r pending' r'
  | operator {o : BinaryOperator} {place : Span} {tokens : List (ExpressionToken × Span)}
      {pending waiting pending' : List Pending} {r mid r' : Reduction}
      (happly : r.applyTighter o span pending = .ok (waiting, mid))
      (hrest : Resolves address? span tokens (.operator o :: waiting) mid pending' r') :
      Resolves address? span ((.operator o, place) :: tokens) pending r pending' r'
  | openParen {place : Span} {tokens : List (ExpressionToken × Span)}
      {pending pending' : List Pending} {r r' : Reduction}
      (hrest : Resolves address? span tokens (.openParen :: pending) r pending' r') :
      Resolves address? span ((.openParen, place) :: tokens) pending r pending' r'
  | closeParen {place : Span} {tokens : List (ExpressionToken × Span)}
      {pending waiting pending' : List Pending} {r mid r' : Reduction}
      (happly : r.applyToParen place span pending = .ok (waiting, mid))
      (hrest : Resolves address? span tokens waiting mid pending' r') :
      Resolves address? span ((.closeParen, place) :: tokens) pending r pending' r'

/-! ## The first operand -/

/-- Applying operators leaves the operand at the bottom where it is. -/
theorem Reduction.kept_getLast? (bottom : Option Int) :
    Kept fun r => r.operands.getLast? = bottom := by
  intro r r' operator span happly h
  rcases apply_ok happly with ⟨right, left, operands, hoperands, rfl⟩
  rwa [hoperands, List.getLast?_cons_cons] at h

/-- The operand at the bottom is the first one that was read. -/
theorem Expression.Resolves.getLast?_operands {address? : Operand → Option Int} {span : Span}
    {tokens : List (ExpressionToken × Span)} {pending pending' : List Pending} {r r' : Reduction}
    (h : Expression.Resolves address? span tokens pending r pending' r') :
    r'.operands.getLast?
      = r.operands.getLast?.or ((Expression.operandsOf tokens).head?.bind address?) := by
  induction h with
  | done => exact Option.or_none.symm
  | @operand o place a tokens pending pending' r r' ha hrest ih =>
    rw [ih, Reduction.push]
    cases hr : r.operands with
    | nil => simp [Expression.operandsOf, ExpressionToken.operand?, ha]
    | cons b operands =>
      rw [List.getLast?_cons_cons]
      simp [List.getLast?_cons]
  | operator happly hrest ih =>
    rw [ih, (Reduction.kept_getLast? _).applyTighter rfl happly]
    rfl
  | openParen hrest ih => exact ih
  | closeParen happly hrest ih =>
    rw [ih, (Reduction.kept_getLast? _).applyToParen rfl happly]
    rfl

/-! ## The phrase -/

namespace Expression.Resolves

variable {address? : Operand → Option Int} {span : Span}
  {tokens rest : List (ExpressionToken × Span)} {pending pending' : List Pending} {r r' : Reduction}

/-- An operator applies those that wait and bind at least as tightly, and waits itself. -/
theorem operator_ok {operators : List BinaryOperator} {incoming : BinaryOperator} {place : Span}
    (hle : ∀ o ∈ operators, incoming.precedence ≤ o.precedence)
    (hbelow : Pending.Below incoming.precedence pending)
    (h : Resolves address? span ((.operator incoming, place) :: rest)
      (operators.map .operator ++ pending) r pending' r') :
    ∃ mid, Reduction.applyOperators span operators r = .ok mid ∧
      Resolves address? span rest (.operator incoming :: pending) mid pending' r' := by
  cases h with
  | operator happly hrest =>
    rw [Reduction.applyTighter_operators hle hbelow] at happly
    rcases Outcome.map_ok happly with ⟨_, hmid, heq⟩
    cases heq
    exact ⟨_, hmid, hrest⟩

/-- A closing parenthesis applies those that wait behind its opening one. -/
theorem closeParen_ok {operators : List BinaryOperator} {place : Span}
    (h : Resolves address? span ((.closeParen, place) :: rest)
      (operators.map .operator ++ .openParen :: pending) r pending' r') :
    ∃ mid, Reduction.applyOperators span operators r = .ok mid ∧
      Resolves address? span rest pending mid pending' r' := by
  cases h with
  | closeParen happly hrest =>
    rw [Reduction.applyToParen_operators] at happly
    rcases Outcome.map_ok happly with ⟨_, hmid, heq⟩
    cases heq
    exact ⟨_, hmid, hrest⟩

/-- Reading the tokens of a phrase. The operators that wait on top of those from before bind at
    least as tightly as the phrase holds together, and applying them completes its code. -/
theorem phrase {f : Phrase} (hf : f.WellGrouped) (htokens : tokens.map Prod.fst = f.tokens)
    (hbelow : Pending.Below f.level pending)
    (h : Resolves address? span (tokens ++ rest) pending r pending' r') :
    ∃ operators mid,
      Resolves address? span rest (operators.map .operator ++ pending) mid pending' r' ∧
      (∀ o ∈ operators, f.level ≤ o.precedence) ∧
      ∀ done, Reduction.applyOperators span operators mid = .ok done →
        f.code? address? (r.operands, r.code) = some (done.operands, done.code) := by
  induction f generalizing tokens rest pending r with
  | nothing =>
    cases List.map_eq_nil_iff.mp htokens
    refine ⟨[], r, h, by simp, fun done hdone => ?_⟩
    cases hdone
    rfl
  | operand before o ih =>
    rcases hf with ⟨hbefore, hlevel⟩
    rcases List.map_eq_append_iff.mp htokens with ⟨first, last, rfl, hfirst, hlast⟩
    rcases Lowering.placed_singleton hlast with ⟨place, rfl⟩
    rw [List.append_assoc] at h
    rcases ih hbefore hfirst (hlevel ▸ hbelow) h with ⟨operators, mid, hrest, htight, hcode⟩
    -- After values side by side no operator waits.
    cases Lowering.eq_nil_of_level fun o ho => hlevel ▸ htight o ho
    cases hrest with
    | @operand _ _ a _ _ _ _ _ ha hrest =>
      refine ⟨[], mid.push a, hrest, by simp, fun done hdone => ?_⟩
      cases hdone
      rw [Phrase.code?, hcode mid rfl, Option.bind_some, ha, Option.map_some]
      rfl
  | paren before body ihb ih =>
    rcases hf with ⟨hbefore, hlevel, hbody⟩
    rcases List.map_eq_append_iff.mp htokens with ⟨first, group, rfl, hfirst, hgroup⟩
    rcases Lowering.placed_group hgroup with ⟨opening, inner, closing, rfl, hinner⟩
    rw [List.append_assoc, List.cons_append, List.append_assoc, List.singleton_append] at h
    rcases ihb hbefore hfirst (hlevel ▸ hbelow) h with ⟨operators, mid, hrest, htight, hcode⟩
    cases Lowering.eq_nil_of_level fun o ho => hlevel ▸ htight o ho
    cases hrest with
    | openParen hrest =>
      -- Nothing below the parenthesis is applied before it is closed.
      rcases ih hbody hinner (show Pending.Below body.level (.openParen :: pending) from trivial)
        hrest with ⟨operators, mid', hrest, -, hcode'⟩
      rcases hrest.closeParen_ok with ⟨last, hlast, hrest⟩
      refine ⟨[], last, hrest, by simp, fun done hdone => ?_⟩
      cases hdone
      rw [Phrase.code?, hcode mid rfl, Option.bind_some, hcode' last hlast]
  | binary operator left right ihl ihr =>
    rcases hf with ⟨hl, hr, hle, hlt⟩
    rcases Lowering.placed_binary htokens with ⟨first, place, second, rfl, hfirst, hsecond⟩
    rw [List.append_assoc, List.cons_append] at h
    rcases ihl hl hfirst (hbelow.mono hle) h with ⟨operators, r1, hrest, htight, hcode⟩
    -- The operator applies all that waits of the left side, and waits itself.
    rcases hrest.operator_ok (fun o ho => Nat.le_trans hle (htight o ho)) hbelow with
      ⟨r2, hr2, hrest⟩
    -- The right side binds more tightly than the operator, which therefore goes on waiting.
    rcases ihr hr hsecond (show Pending.Below right.level (.operator operator :: pending) from hlt)
      hrest with ⟨operators', r3, hrest, htight', hcode'⟩
    refine ⟨operators' ++ [operator], r3, ?_, Pending.tight_concat htight' hlt,
      fun done hdone => ?_⟩
    · rw [List.map_append, List.append_assoc]
      exact hrest
    · rw [Reduction.applyOperators_concat] at hdone
      rcases Outcome.bind_ok hdone with ⟨r4, hr4, happly⟩
      rcases Reduction.apply_ok happly with ⟨b, a, cells, hcells, rfl⟩
      rw [Phrase.code?, hcode r2 hr2, Option.bind_some, hcode' r4 hr4, Option.bind_some, hcells,
        Phrase.operate, Reduction.operatorCode_eq]

/-- Reading all tokens of an expression leaves the code of the phrase that it is. -/
theorem code?_eq {f : Phrase} (hf : f.WellGrouped) (htokens : tokens.map Prod.fst = f.tokens)
    {whole : Span} (h : Resolves address? span tokens [] .empty pending r)
    (hall : r.applyAll whole span pending = .ok r') :
    f.code? address? ([], []) = some (r'.operands, r'.code) := by
  rw [← List.append_nil tokens] at h
  rcases h.phrase hf htokens (show Pending.Below f.level [] from trivial) with
    ⟨operators, mid, hrest, -, hcode⟩
  -- At the end all that waits is applied.
  cases hrest
  rw [List.append_nil, Reduction.applyAll_operators] at hall
  exact hcode r' hall

end Expression.Resolves

end AccumulatorMachine
