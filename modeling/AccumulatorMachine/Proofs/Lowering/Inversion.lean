import AccumulatorMachine.Compiled
import AccumulatorMachine.Proofs.Allocation
import AccumulatorMachine.Proofs.Outcome

/-!
# What Lowering Has Done

Successful lowering, traced back to what it has done to the symbol table and to the code it
returns.

A statement is lowered by a computation that may stop for many reasons. Here only the successful
ones count. Each form has one lemma that says what table and what code it leads to, and later
modules open lowering only through them.

For an expression the exact code depends on how its operators group. Much of the theory does not
need that. It is enough that the code is a sequence of operator applications, and that they are
applied to addresses the allocator has handed out.

## Main definitions

* `OperatorSteps`: Code that applies operators to some cells.
* `Reduction.Names`: A reduction that only knows some cells.
* `Reduction.Kept`, `Reduction.KeptWith`: What applying operators to a reduction does not change.

## Theorems

* `Lowering.operandAddress_ok`: An operand is bound, or a literal that gets a cell.
* `Lowering.operandAddress_binds`, `Lowering.operandAddress_keeps`: The names that are bound after
  an operand.
* `Lowering.expression_ok`: The code of an expression applies operators to cells that were handed
  out.
* `Lowering.form_int_ok`, `Lowering.form_string_ok`, `Lowering.form_new_ok`,
  `Lowering.form_inputInt_ok`, `Lowering.form_outputInt_ok`, `Lowering.form_inputStr_ok`,
  `Lowering.form_outputStr_ok`: The code and the table of each form.
-/

namespace AccumulatorMachine

namespace Lowering

section Inversion

variable {α β : Type} {table table' : SymbolTable} {span : Span}

theorem allocating_ok {c : Countdown} {table table' : SymbolTable c}
    {computation : SymbolTable.AllocatingBy c α} {a : α}
    (h : (allocating span computation).run table = .ok (a, table')) :
    computation.runOn table = (.ok a, table') := by
  rcases hc : computation.runOn table with ⟨_ | b, mid⟩
  · simp only [allocating, StateT.run, hc] at h
    cases h
  · simp only [allocating, StateT.run, hc] at h
    cases h
    rfl

theorem run_allocating {c : Countdown} {table table' : SymbolTable c}
    {computation : SymbolTable.AllocatingBy c α} {a : α}
    (h : computation.runOn table = (.ok a, table')) :
    (allocating span computation).run table = .ok (a, table') := by
  simp only [allocating, StateT.run, h]

theorem resolve_ok {name : String} {a : Int}
    (h : (resolve name span).run table = .ok (a, table')) :
    table.addressOf? name = some a ∧ table' = table := by
  rcases Outcome.run_bind_ok h with ⟨mid, _, hget, h⟩
  cases hget
  cases ha : table.addressOf? name with
  | none =>
    simp only [ha] at h
    cases h
  | some a =>
    simp only [ha] at h
    cases h
    exact ⟨rfl, rfl⟩

theorem literal_ok {spelling : String} {value a : Int}
    (h : (literal spelling value span).run table = .ok (a, table')) :
    (table.addressOf? spelling = some a ∧ table' = table) ∨
      (table.get? spelling = none ∧ SymbolTable.isReserved table.cursor = false ∧
        a = table.cursor ∧ table' = table.fresh spelling value .literal) :=
  SymbolTable.declareLiteral_ok (allocating_ok h)

theorem operandAddress_ok {operand : Operand} {a : Int}
    (h : (operandAddress operand span).run table = .ok (a, table')) :
    (table.addressOf? operand.render = some a ∧ table' = table) ∨
      ∃ value, operand = .literal operand.render value ∧ table.get? operand.render = none ∧
        SymbolTable.isReserved table.cursor = false ∧ a = table.cursor ∧
        table' = table.fresh operand.render value .literal := by
  cases operand with
  | name text => exact Or.inl (resolve_ok h)
  | literal spelling value =>
    rcases literal_ok h with hbound | hfresh
    · exact Or.inl hbound
    · exact Or.inr ⟨value, rfl, hfresh⟩

end Inversion

theorem operandAddress_grows {table table' : SymbolTable} {span : Span} {operand : Operand}
    {a : Int} (h : (operandAddress operand span).run table = .ok (a, table')) :
    table.Grows table' := by
  rcases operandAddress_ok h with ⟨-, rfl⟩ | ⟨value, -, -, hr, -, rfl⟩
  · exact SymbolTable.Grows.refl table'
  · exact SymbolTable.Grows.fresh hr _ value _

theorem operandAddress_within {table table' : SymbolTable} {span : Span} {operand : Operand}
    {a base : Int} (h : (operandAddress operand span).run table = .ok (a, table'))
    (hw : table.Within base) : table'.Within base ∧ table'.HandedOut base a := by
  rcases operandAddress_ok h with ⟨ha, rfl⟩ | ⟨value, -, -, hr, rfl, rfl⟩
  · exact ⟨hw, hw.bound _ _ ha⟩
  · have hfresh := hw.fresh hr operand.render value .literal
    refine ⟨hfresh, hfresh.bound operand.render _ ?_⟩
    rw [SymbolTable.fresh, SymbolTable.addressOf?_insert, if_pos rfl]

/-- An operand is bound to its address from then on. -/
theorem operandAddress_binds {table table' : SymbolTable} {span : Span} {operand : Operand}
    {a : Int} (h : (operandAddress operand span).run table = .ok (a, table')) :
    table'.addressOf? operand.render = some a := by
  rcases operandAddress_ok h with ⟨ha, rfl⟩ | ⟨value, -, -, -, rfl, rfl⟩
  · exact ha
  · rw [SymbolTable.fresh, SymbolTable.addressOf?_insert, if_pos rfl]

/-- No name that is bound already is bound to something else for an operand. -/
theorem operandAddress_keeps {table table' : SymbolTable} {span : Span} {operand : Operand}
    {a b : Int} {name : String} (h : (operandAddress operand span).run table = .ok (a, table'))
    (hname : table.addressOf? name = some b) : table'.addressOf? name = some b := by
  rcases operandAddress_ok h with ⟨-, rfl⟩ | ⟨value, -, hnone, -, -, rfl⟩
  · exact hname
  · -- A literal gets a cell only if it was not bound, so it is another name.
    have hne : name ≠ operand.render := by
      rintro rfl
      rw [SymbolTable.addressOf?, hnone] at hname
      cases hname
    rw [SymbolTable.fresh, SymbolTable.addressOf?_insert, if_neg hne]
    exact hname

/-- An operand is given a cell if it is given an address. -/
theorem operandAddress_accounts {table table' : SymbolTable} {span : Span} {operand : Operand}
    {a : Int} (h : (operandAddress operand span).run table = .ok (a, table'))
    (stored : Int → Prop) : SymbolTable.Accounts stored table table' := by
  rcases operandAddress_ok h with ⟨-, rfl⟩ | ⟨value, -, -, -, -, rfl⟩
  · exact SymbolTable.Accounts.refl stored table'
  · exact SymbolTable.Accounts.fresh stored table _ value _

theorem literal_grows {table table' : SymbolTable} {span : Span} {spelling : String}
    {value a : Int} (h : (literal spelling value span).run table = .ok (a, table')) :
    table.Grows table' :=
  operandAddress_grows (show (operandAddress (.literal spelling value) span).run table = _ from h)

/-- A literal is bound to its address from then on. -/
theorem literal_binds {table table' : SymbolTable} {span : Span} {spelling : String}
    {value a : Int} (h : (literal spelling value span).run table = .ok (a, table')) :
    table'.addressOf? spelling = some a :=
  operandAddress_binds (show (operandAddress (.literal spelling value) span).run table = _ from h)

/-- No name that is bound already is bound to something else for a literal. -/
theorem literal_keeps {table table' : SymbolTable} {span : Span} {spelling name : String}
    {value a b : Int} (h : (literal spelling value span).run table = .ok (a, table'))
    (hname : table.addressOf? name = some b) : table'.addressOf? name = some b :=
  operandAddress_keeps (show (operandAddress (.literal spelling value) span).run table = _ from h)
    hname

theorem literal_within {table table' : SymbolTable} {span : Span} {spelling : String}
    {value a base : Int} (h : (literal spelling value span).run table = .ok (a, table'))
    (hw : table.Within base) : table'.Within base ∧ table'.HandedOut base a :=
  operandAddress_within
    (show (operandAddress (.literal spelling value) span).run table = _ from h) hw

theorem literal_accounts {table table' : SymbolTable} {span : Span} {spelling : String}
    {value a : Int} (h : (literal spelling value span).run table = .ok (a, table'))
    (stored : Int → Prop) : SymbolTable.Accounts stored table table' :=
  operandAddress_accounts
    (show (operandAddress (.literal spelling value) span).run table = _ from h) stored

end Lowering

/-- Code that applies operators to cells one after another. -/
def OperatorSteps (cell : Int → Prop) (code : List Instruction) : Prop :=
  ∃ steps : List (BinaryOperator × Int × Int),
    code = steps.flatMap (fun s => Reduction.operatorCode s.1 s.2.1 s.2.2) ∧
      ∀ s ∈ steps, cell s.2.1 ∧ cell s.2.2

theorem OperatorSteps.mono {cell cell' : Int → Prop} {code : List Instruction}
    (h : OperatorSteps cell code) (hc : ∀ a, cell a → cell' a) : OperatorSteps cell' code := by
  rcases h with ⟨steps, rfl, hs⟩
  exact ⟨steps, rfl, fun s hmem => ⟨hc _ (hs s hmem).1, hc _ (hs s hmem).2⟩⟩

namespace Reduction

/-- A reduction whose values and code only name some cells. -/
structure Names (cell : Int → Prop) (r : Reduction) : Prop where
  operands : ∀ a ∈ r.operands, cell a
  code : OperatorSteps cell r.code

variable {cell : Int → Prop} {r r' : Reduction}

theorem Names.push (h : r.Names cell) {a : Int} (ha : cell a) : (r.push a).Names cell := by
  refine ⟨fun b hb => ?_, h.code⟩
  rcases List.mem_cons.mp hb with rfl | hb
  · exact ha
  · exact h.operands b hb

theorem apply_ok {operator : BinaryOperator} {span : Span}
    (h : r.apply operator span = .ok r') :
    ∃ right left operands, r.operands = right :: left :: operands ∧
      r' = ⟨left :: operands, r.code ++ operatorCode operator left right⟩ := by
  obtain ⟨operands, code⟩ := r
  match operands, h with
  | right :: left :: operands, h =>
    cases h
    exact ⟨right, left, operands, rfl, rfl⟩

theorem Names.apply (h : r.Names cell) {operator : BinaryOperator} {span : Span}
    (hr : r.apply operator span = .ok r') : r'.Names cell := by
  rcases apply_ok hr with ⟨right, left, operands, hops, rfl⟩
  have hright : cell right := h.operands right (by rw [hops]; exact List.mem_cons_self)
  have hleft : cell left := h.operands left (by rw [hops]; simp)
  refine ⟨fun a ha => h.operands a ?_, ?_⟩
  · rw [hops]
    exact List.mem_cons_of_mem right ha
  · -- The code grows by one more application, to the two values that are taken.
    rcases h.code with ⟨steps, hcode, hs⟩
    refine ⟨steps ++ [(operator, left, right)], ?_, fun s hmem => ?_⟩
    · rw [hcode, List.flatMap_append, List.flatMap_singleton]
    · rcases List.mem_append.mp hmem with hmem | hmem
      · exact hs s hmem
      · rw [List.mem_singleton.mp hmem]
        exact ⟨hleft, hright⟩

/-! Whatever applying one operator keeps is kept by applying several of them. -/

/-- A property of reductions that applying an operator keeps. -/
def Kept (P : Reduction → Prop) : Prop :=
  ∀ ⦃r r' : Reduction⦄ ⦃operator : BinaryOperator⦄ ⦃span : Span⦄,
    r.apply operator span = .ok r' → P r → P r'

theorem Names.kept (cell : Int → Prop) : Kept (Names cell) :=
  fun _ _ _ _ hr h => h.apply hr

/-- A property of reductions and of what waits that is kept when the first that waits is taken off:
    an operator is applied, and a parenthesis goes without a trace. -/
structure KeptWith (P : List Pending → Reduction → Prop) : Prop where
  operator : ∀ {r r' : Reduction} {operator : BinaryOperator} {span : Span}
    {pending : List Pending}, r.apply operator span = .ok r' →
      P (.operator operator :: pending) r → P pending r'
  openParen : ∀ {r : Reduction} {pending : List Pending}, P (.openParen :: pending) r → P pending r

section KeptWith

variable {P : List Pending → Reduction → Prop} (hkept : KeptWith P)
  {pending pending' : List Pending}

include hkept

theorem KeptWith.applyTighter {incoming : BinaryOperator} {span : Span} (h : P pending r)
    (hr : applyTighter incoming span pending r = .ok (pending', r')) : P pending' r' := by
  induction pending generalizing r with
  | nil =>
    cases hr
    exact h
  | cons top pending ih =>
    cases top with
    | openParen =>
      cases hr
      exact h
    | operator operator =>
      rw [Reduction.applyTighter] at hr
      -- An operator that binds less tightly goes on waiting, and nothing more is applied.
      by_cases hp : incoming.precedence ≤ operator.precedence
      · rw [if_pos hp] at hr
        rcases Outcome.bind_ok hr with ⟨mid, hmid, hrest⟩
        exact ih (hkept.operator hmid h) hrest
      · rw [if_neg hp] at hr
        cases hr
        exact h

theorem KeptWith.applyToParen {paren span : Span} (h : P pending r)
    (hr : applyToParen paren span pending r = .ok (pending', r')) : P pending' r' := by
  induction pending generalizing r with
  | nil => cases hr
  | cons top pending ih =>
    cases top with
    | openParen =>
      cases hr
      exact hkept.openParen h
    | operator operator =>
      rcases Outcome.bind_ok hr with ⟨mid, hmid, hrest⟩
      exact ih (hkept.operator hmid h) hrest

theorem KeptWith.applyAll {whole span : Span} (h : P pending r)
    (hr : applyAll whole span pending r = .ok r') : P [] r' := by
  induction pending generalizing r with
  | nil =>
    cases hr
    exact h
  | cons top pending ih =>
    cases top with
    | openParen => cases hr
    | operator operator =>
      rcases Outcome.bind_ok hr with ⟨mid, hmid, hrest⟩
      exact ih (hkept.operator hmid h) hrest

end KeptWith

section Kept

variable {P : Reduction → Prop} (hkept : Kept P)

include hkept

theorem Kept.keptWith : KeptWith fun _ r => P r := ⟨fun hr h => hkept hr h, id⟩

theorem Kept.applyTighter {incoming : BinaryOperator} {span : Span}
    {pending pending' : List Pending} (h : P r)
    (hr : applyTighter incoming span pending r = .ok (pending', r')) : P r' :=
  hkept.keptWith.applyTighter h hr

theorem Kept.applyToParen {paren span : Span} {pending pending' : List Pending} (h : P r)
    (hr : applyToParen paren span pending r = .ok (pending', r')) : P r' :=
  hkept.keptWith.applyToParen h hr

theorem Kept.applyAll {whole span : Span} {pending : List Pending} (h : P r)
    (hr : applyAll whole span pending r = .ok r') : P r' :=
  hkept.keptWith.applyAll h hr

end Kept

theorem result_ok {whole : Span} {a : Int} (h : r.result whole = .ok a) : r.operands = [a] := by
  obtain ⟨operands, code⟩ := r
  match operands, h with
  | [b], h =>
    cases h
    rfl

end Reduction

namespace Lowering

theorem expressionTokens_ok {whole span : Span} {tokens : List (ExpressionToken × Span)}
    {pending : List Pending} {r r' : Reduction} {table table' : SymbolTable} {base : Int}
    (h : (expressionTokens whole span tokens pending r).run table = .ok (r', table'))
    (hw : table.Within base) (hr : r.Names (table.HandedOut base)) :
    table.Grows table' ∧ SymbolTable.Accounts (fun _ => False) table table' ∧
      table'.Within base ∧ r'.Names (table'.HandedOut base) := by
  induction tokens generalizing pending r table with
  | nil =>
    rcases Outcome.run_liftM_ok h with ⟨hall, rfl⟩
    exact ⟨SymbolTable.Grows.refl table', SymbolTable.Accounts.refl _ table', hw,
      (Reduction.Names.kept _).applyAll hr hall⟩
  | cons token tokens ih =>
    obtain ⟨token, place⟩ := token
    cases token with
    | operand operand =>
      rcases Outcome.run_bind_ok h with ⟨a, mid, ha, hrest⟩
      have hgrows := operandAddress_grows ha
      rcases operandAddress_within ha hw with ⟨hmid, hnew⟩
      -- What was known before the operand is still known in the table it leaves.
      have hr' : r.Names (mid.HandedOut base) :=
        ⟨fun b hb => (hr.operands b hb).mono hgrows, hr.code.mono fun b hb => hb.mono hgrows⟩
      have hcells := operandAddress_accounts ha fun _ => False
      rcases ih hrest hmid (hr'.push hnew) with ⟨hg, hc, hfinal⟩
      exact ⟨hgrows.trans hg, hcells.trans hc hg, hfinal⟩
    | operator operator =>
      rcases Outcome.run_bind_ok h with ⟨⟨pending', mid⟩, _, hlift, hrest⟩
      rcases Outcome.run_liftM_ok hlift with ⟨hmid, rfl⟩
      exact ih hrest hw ((Reduction.Names.kept _).applyTighter hr hmid)
    | openParen => exact ih h hw hr
    | closeParen =>
      rcases Outcome.run_bind_ok h with ⟨⟨pending', mid⟩, _, hlift, hrest⟩
      rcases Outcome.run_liftM_ok hlift with ⟨hmid, rfl⟩
      exact ih hrest hw ((Reduction.Names.kept _).applyToParen hr hmid)

theorem expression_ok {e : Expression} {span : Span} {a : Int} {code : List Instruction}
    {table table' : SymbolTable} {base : Int}
    (h : (expression e span).run table = .ok ((a, code), table')) (hw : table.Within base) :
    table.Grows table' ∧ SymbolTable.Accounts (fun _ => False) table table' ∧
      table'.Within base ∧ table'.HandedOut base a ∧
      OperatorSteps (table'.HandedOut base) code := by
  rcases Outcome.run_bind_ok h with ⟨r, mid, htokens, hrest⟩
  rcases Outcome.run_bind_ok hrest with ⟨b, _, hlift, hpure⟩
  rcases Outcome.run_liftM_ok hlift with ⟨hresult, rfl⟩
  cases hpure
  -- Nothing is known at the start, which is no more than the table has handed out.
  have hempty : Reduction.empty.Names (table.HandedOut base) :=
    ⟨by simp [Reduction.empty], [], rfl, by simp⟩
  rcases expressionTokens_ok htokens hw hempty with ⟨hg, hcells, hfinal, hnames⟩
  refine ⟨hg, hcells, hfinal, hnames.operands a ?_, hnames.code⟩
  rw [Reduction.result_ok hresult]
  exact List.mem_singleton_self a

section Forms

variable {table table' : SymbolTable} {span : Span} {name text : String} {value : Int}
  {code : List Instruction} {redeclared : Option (String × Int)}

theorem form_int_ok
    (h : (form span (.int name value)).run table = .ok ((code, redeclared), table')) :
    code = [] ∧ ((∃ info, table.get? name = some info ∧ table' = table) ∨
      (table.get? name = none ∧ SymbolTable.isReserved table.cursor = false ∧
        table' = table.fresh name value .int)) := by
  rcases Outcome.run_bind_ok h with ⟨declared, mid, hdeclare, hpure⟩
  cases hpure
  rcases SymbolTable.declare_ok (allocating_ok hdeclare) with
    ⟨info, hget, -, rfl⟩ | ⟨hget, hr, -, rfl⟩
  · exact ⟨rfl, Or.inl ⟨info, hget, rfl⟩⟩
  · exact ⟨rfl, Or.inr ⟨hget, hr, rfl⟩⟩

theorem form_string_ok
    (h : (form span (.string name text)).run table = .ok ((code, redeclared), table')) :
    code = [] ∧ ((∃ info, table.get? name = some info ∧ table' = table) ∨
      (table.get? name = none ∧
        (∀ a, table.cursor - text.toList.length ≤ a → a ≤ table.cursor →
          SymbolTable.isReserved a = false) ∧
        table' = .chars text.toList
          (table.fresh name text.toList.length (.str text.toList.length)))) := by
  rcases Outcome.run_bind_ok h with ⟨declared, mid, hdeclare, hpure⟩
  cases hpure
  rcases SymbolTable.declareString_ok (allocating_ok hdeclare) with
    ⟨info, hget, -, rfl⟩ | ⟨hget, -, hr, rfl⟩
  · exact ⟨rfl, Or.inl ⟨info, hget, rfl⟩⟩
  · exact ⟨rfl, Or.inr ⟨hget, hr, rfl⟩⟩

theorem form_new_ok {e : Expression}
    (h : (form span (.new name e)).run table = .ok ((code, redeclared), table')) :
    ∃ a mid, (expression e span).run table = .ok ((a, code), mid) ∧ table' = mid.bind name a := by
  rcases Outcome.run_bind_ok h with ⟨⟨a, code⟩, mid, he, hrest⟩
  rcases Outcome.run_bind_ok hrest with ⟨_, _, hmodify, hpure⟩
  cases hmodify
  cases hpure
  exact ⟨a, mid, he, rfl⟩

theorem form_inputInt_ok
    (h : (form span (.inputInt name)).run table = .ok ((code, redeclared), table')) :
    SymbolTable.isReserved table.cursor = false ∧
      code = [⟨.input, integerMode⟩, ⟨.write, table.cursor⟩] ∧ table' = table.slot name := by
  rcases Outcome.run_bind_ok h with ⟨a, mid, hslot, hpure⟩
  cases hpure
  rcases SymbolTable.allocateSlot_ok (allocating_ok hslot) with ⟨hr, rfl, rfl⟩
  exact ⟨hr, rfl, rfl⟩

theorem form_outputInt_ok
    (h : (form span (.outputInt name)).run table = .ok ((code, redeclared), table')) :
    ∃ a, table.addressOf? name = some a ∧ code = [⟨.read, a⟩, ⟨.output, integerMode⟩] ∧
      table' = table := by
  rcases Outcome.run_bind_ok h with ⟨a, mid, hresolve, hpure⟩
  cases hpure
  rcases resolve_ok hresolve with ⟨ha, rfl⟩
  exact ⟨a, ha, rfl, rfl⟩

theorem form_inputStr_ok
    (h : (form span .inputStr).run table = .ok ((code, redeclared), table')) :
    ∃ zero one mid, (literal "0" 0 span).run table = .ok (zero, mid) ∧
      (literal "1" 1 span).run mid = .ok (one, table') ∧
      code = inputStrCode zero table'.cursor := by
  rcases Outcome.run_bind_ok h with ⟨zero, mid, hzero, hrest⟩
  rcases Outcome.run_bind_ok hrest with ⟨one, mid', hone, hcode⟩
  rcases Outcome.run_bind_ok hcode with ⟨_, _, hget, hpure⟩
  cases hget
  cases hpure
  exact ⟨zero, one, mid, hzero, hone, rfl⟩

theorem form_outputStr_ok
    (h : (form span (.outputStr name)).run table = .ok ((code, redeclared), table')) :
    ∃ zero one string mid, (literal "0" 0 span).run table = .ok (zero, mid) ∧
      (literal "1" 1 span).run mid = .ok (one, table') ∧ table'.addressOf? name = some string ∧
      code = outputStrCode zero one string table'.cursor := by
  rcases Outcome.run_bind_ok h with ⟨zero, mid, hzero, hrest⟩
  rcases Outcome.run_bind_ok hrest with ⟨one, mid', hone, hprint⟩
  rcases Outcome.run_bind_ok hprint with ⟨string, _, hresolve, hcode⟩
  rcases resolve_ok hresolve with ⟨hstring, rfl⟩
  rcases Outcome.run_bind_ok hcode with ⟨_, _, hget, hpure⟩
  cases hget
  cases hpure
  exact ⟨zero, one, string, mid, hzero, hone, hstring, rfl⟩

end Forms

end Lowering

end AccumulatorMachine
