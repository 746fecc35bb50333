import AccumulatorMachine.Proofs.Lowering.Blocks

/-!
# Relocation

What lowering makes of another address to start from.

The allocator counts addresses down from a base, and the rest of lowering passes them on. It never
computes with them, and it never looks at what they are. So if two runs start from bases that are
`d` apart, everything that one of them allocates is `d` away from what the other one allocates in
its place. Only the two scratch cells are where they are in any case, and the allocator never hands
out their addresses.

`Relocates` says so of two computations on symbol tables at once: if both succeed, the second one on
a table that is moved by `d`, their results are the same but for the move, and so are the tables
that they leave. One of them may well fail where the other one does not, since it comes across the
reserved addresses at another time or not at all.

## Main definitions

* `relocateCell`: The address that a cell is moved to.
* `SymbolTable.relocate`, `Instruction.relocate`, `Reduction.relocate`, `Block.relocate`: Something
  that has addresses, with all of them moved.
* `Lowering.Relocates`: Computations that do the same on tables that are moved.

## Theorems

* `SymbolTable.relocate_fresh`, `SymbolTable.relocate_slot`, `SymbolTable.relocate_chars`:
  Allocations in a table that is moved.
* `Lowering.Relocates.bind`: Computations one after another.
* `Lowering.relocates_operandAddress`, `Lowering.relocates_expression`, `Lowering.relocates_form`,
  `Lowering.relocates_statement`, `Lowering.relocates_statements`: All of lowering relocates.
-/

namespace AccumulatorMachine

/-- The address that a cell is moved to. The scratch cells stay where they are. -/
def relocateCell (d a : Int) : Int := if SymbolTable.isReserved a then a else a + d

theorem relocateCell_of_unreserved {d a : Int} (h : SymbolTable.isReserved a = false) :
    relocateCell d a = a + d := by
  rw [relocateCell, h]
  rfl

/-- The instruction with its data moved. The operand of a skip has no effect, but it is an address
    that would be allocated next. All other operands are distances and modes. -/
def Instruction.relocate (d : Int) (i : Instruction) : Instruction :=
  match i.opcode with
  | .read | .write | .add | .subtract | .multiply | .divide | .readAddress =>
    ⟨i.opcode, relocateCell d i.operand⟩
  | .skip _ _ => ⟨i.opcode, i.operand + d⟩
  | .jump | .writeAddress | .input | .output | .halt => i

@[simp] theorem Instruction.opcode_relocate (d : Int) (i : Instruction) :
    (i.relocate d).opcode = i.opcode := by
  obtain ⟨opcode, operand⟩ := i
  cases opcode <;> rfl

/-- A name and its address, moved. -/
def relocateNamed (d : Int) (named : String × Int) : String × Int :=
  (named.1, relocateCell d named.2)

/-- The block with its data moved. -/
def Block.relocate (d : Int) (block : Block) : Block :=
  { block with code := block.code.map (Instruction.relocate d)
               redeclared := block.redeclared.map (relocateNamed d) }

namespace SymbolTable

/-- What a name is bound to, with its address moved. -/
def relocateInfo (d : Int) (info : SymbolInfo) : SymbolInfo :=
  { info with address := relocateCell d info.address }

/-- A binding with its address moved. -/
def relocateBinding (d : Int) (binding : String × SymbolInfo) : String × SymbolInfo :=
  (binding.1, relocateInfo d binding.2)

/-- A cell that is moved. -/
def relocateData (d : Int) (cell : Cell) : Cell :=
  { cell with address := relocateCell d cell.address }

/-- The table with everything moved that it has allocated and will allocate. -/
def relocate (d : Int) (table : SymbolTable) : SymbolTable where
  bindings := table.bindings.map (relocateBinding d)
  cells := table.cells.map (relocateData d)
  cursor := table.cursor + d

section Relocate

variable (d : Int) (table : SymbolTable) (name : String)

@[simp] theorem cursor_relocate : (table.relocate d).cursor = table.cursor + d := rfl

theorem relocate_empty (base : Int) : (empty base).relocate d = empty (base + d) := rfl

@[simp] theorem get?_relocate : (table.relocate d).get? name
    = (table.get? name).map (relocateInfo d) := by
  rw [get?, get?, relocate]
  induction table.bindings with
  | nil => rfl
  | cons binding rest ih =>
    obtain ⟨key, info⟩ := binding
    rw [List.map_cons, relocateBinding, lookup_cons_eq_ite, lookup_cons_eq_ite, ih]
    by_cases h : name = key
    · rw [if_pos h, if_pos h]
      rfl
    · rw [if_neg h, if_neg h]

@[simp] theorem addressOf?_relocate : (table.relocate d).addressOf? name
    = (table.addressOf? name).map (relocateCell d) := by
  rw [addressOf?, addressOf?, get?_relocate]
  cases table.get? name <;> rfl

theorem relocate_rebind (info : SymbolInfo) (bindings : List (String × SymbolInfo)) :
    (rebind name info bindings).map (relocateBinding d)
      = rebind name (relocateInfo d info) (bindings.map (relocateBinding d)) := by
  induction bindings with
  | nil => rfl
  | cons binding rest ih =>
    obtain ⟨key, old⟩ := binding
    rw [rebind, List.map_cons, relocateBinding, rebind, ← ih]
    by_cases h : key = name
    · rw [if_pos h, if_pos h]
      rfl
    · rw [if_neg h, if_neg h]
      rfl

theorem relocate_insert (info : SymbolInfo) : (table.insert name info).relocate d
    = (table.relocate d).insert name (relocateInfo d info) := by
  rw [insert, relocate, relocate_rebind]
  rfl

theorem relocate_bind (a : Int) : (table.bind name a).relocate d
    = (table.relocate d).bind name (relocateCell d a) :=
  relocate_insert d table name ⟨a, .aliased⟩

end Relocate

variable {d : Int} {table : SymbolTable} (hr : isReserved table.cursor = false)

include hr

theorem relocate_addCell (value : Int) :
    (table.taken.addCell table.cursor value).relocate d
      = (table.relocate d).taken.addCell (table.relocate d).cursor value := by
  have hcursor : table.cursor - 1 + d = table.cursor + d - 1 := by omega
  simp only [relocate, addCell, taken, List.map_append, List.map_cons, List.map_nil, relocateData,
    relocateCell_of_unreserved hr, hcursor]

theorem relocate_fresh (name : String) (value : Int) (kind : SymbolKind) :
    (table.fresh name value kind).relocate d = (table.relocate d).fresh name value kind := by
  rw [fresh, relocate_insert, relocate_addCell hr, relocateInfo, relocateCell_of_unreserved hr]
  rfl

theorem relocate_slot (name : String) :
    (table.slot name).relocate d = (table.relocate d).slot name := by
  have hcursor : table.cursor - 1 + d = table.cursor + d - 1 := by omega
  rw [slot, relocate_insert, relocateInfo, relocateCell_of_unreserved hr]
  simp only [slot, taken, relocate, hcursor]

omit hr in
theorem relocate_chars {text : List Char} {table : SymbolTable}
    (hr : ∀ a, table.cursor - text.length < a → a ≤ table.cursor → isReserved a = false) :
    (chars text table).relocate d = chars text (table.relocate d) := by
  induction text generalizing table with
  | nil => rfl
  | cons c text ih =>
    rw [List.length_cons] at hr
    have hfirst : isReserved table.cursor = false := hr _ (by omega) (Int.le_refl _)
    rw [chars, chars, ← relocate_addCell hfirst]
    refine ih fun a hl hu => hr a ?_ ?_
    · simp only [addCell, taken] at hl
      omega
    · simp only [addCell, taken] at hu
      omega

end SymbolTable

namespace Reduction

/-- The reduction with all data moved. -/
def relocate (d : Int) (r : Reduction) : Reduction :=
  ⟨r.operands.map (relocateCell d), r.code.map (Instruction.relocate d)⟩

/-- What still waits, and the reduction with all data moved. -/
def relocatePair (d : Int) (pair : List Pending × Reduction) : List Pending × Reduction :=
  (pair.1, pair.2.relocate d)

variable (d : Int) (span : Span) (r : Reduction)

theorem relocate_operatorCode (operator : BinaryOperator) (left right : Int) :
    (operatorCode operator left right).map (Instruction.relocate d)
      = operatorCode operator (relocateCell d left) (relocateCell d right) := by
  cases operator <;> rfl

theorem apply_relocate (operator : BinaryOperator) :
    (r.relocate d).apply operator span = (r.apply operator span).map (relocate d) := by
  obtain ⟨operands, code⟩ := r
  match operands with
  | [] | [_] => rfl
  | right :: left :: operands =>
    simp only [relocate, apply, List.map_cons, Except.map, List.map_append, relocate_operatorCode]

theorem applyTighter_relocate (incoming : BinaryOperator) (pending : List Pending) :
    applyTighter incoming span pending (r.relocate d)
      = (applyTighter incoming span pending r).map (relocatePair d) := by
  induction pending generalizing r with
  | nil => rfl
  | cons top pending ih =>
    cases top with
    | openParen => rfl
    | operator operator =>
      rw [applyTighter, applyTighter]
      by_cases hp : incoming.precedence ≤ operator.precedence
      · rw [if_pos hp, if_pos hp, apply_relocate]
        cases r.apply operator span with
        | error e => rfl
        | ok mid => exact ih mid
      · rw [if_neg hp, if_neg hp]
        rfl

theorem applyToParen_relocate (paren : Span) (pending : List Pending) :
    applyToParen paren span pending (r.relocate d)
      = (applyToParen paren span pending r).map (relocatePair d) := by
  induction pending generalizing r with
  | nil => rfl
  | cons top pending ih =>
    cases top with
    | openParen => rfl
    | operator operator =>
      rw [applyToParen, applyToParen, apply_relocate]
      cases r.apply operator span with
      | error e => rfl
      | ok mid => exact ih mid

theorem applyAll_relocate (whole : Span) (pending : List Pending) :
    applyAll whole span pending (r.relocate d)
      = (applyAll whole span pending r).map (relocate d) := by
  induction pending generalizing r with
  | nil => rfl
  | cons top pending ih =>
    cases top with
    | openParen => rfl
    | operator operator =>
      rw [applyAll, applyAll, apply_relocate]
      cases r.apply operator span with
      | error e => rfl
      | ok mid => exact ih mid

theorem result_relocate (whole : Span) :
    (r.relocate d).result whole = (r.result whole).map (relocateCell d) := by
  obtain ⟨operands, code⟩ := r
  match operands with
  | [] | [_] | _ :: _ :: _ => rfl

end Reduction

namespace Lowering

/-- Two computations on tables that do the same if the second one starts from a table that is moved
    by `d`, as long as both succeed. `f` says what becomes of their result. -/
def Relocates {α β : Type} (d : Int) (f : α → β) (x : Lowering α) (y : Lowering β) : Prop :=
  ∀ ⦃table table' : SymbolTable⦄ ⦃a : α⦄, x.run table = .ok (a, table') →
    ∀ ⦃moved : SymbolTable⦄ ⦃b : β⦄, y.run (table.relocate d) = .ok (b, moved) →
      b = f a ∧ moved = table'.relocate d

namespace Relocates

variable {d : Int} {α α' β β' : Type}

theorem pure {f : α → α'} (a : α) :
    Relocates d f (Pure.pure a : Lowering α) (Pure.pure (f a)) := by
  intro table table' b h moved b' h'
  cases h
  cases h'
  exact ⟨rfl, rfl⟩

theorem bind {f : α → α'} {g : β → β'} {x : Lowering α} {x' : Lowering α'}
    {k : α → Lowering β} {k' : α' → Lowering β'} (hx : Relocates d f x x')
    (hk : ∀ a, Relocates d g (k a) (k' (f a))) : Relocates d g (x >>= k) (x' >>= k') := by
  intro table table' b h moved b' h'
  rcases Outcome.run_bind_ok h with ⟨a, mid, hfirst, hrest⟩
  rcases Outcome.run_bind_ok h' with ⟨a', mid', hfirst', hrest'⟩
  rcases hx hfirst hfirst' with ⟨rfl, rfl⟩
  exact hk a hrest hrest'

theorem get : Relocates d (SymbolTable.relocate d)
    (MonadState.get : Lowering SymbolTable) MonadState.get := by
  intro table table' a h moved b h'
  cases h
  cases h'
  exact ⟨rfl, rfl⟩

theorem modify {f f' : SymbolTable → SymbolTable}
    (h : ∀ table, (f table).relocate d = f' (table.relocate d)) :
    Relocates d id (modifyGet (fun table => ((), f table)) : Lowering Unit)
      (modifyGet fun table => ((), f' table)) := by
  intro table table' a hrun moved b hrun'
  cases hrun
  cases hrun'
  exact ⟨rfl, (h table).symm⟩

theorem lift {f : α → α'} {x : Except CompileError α} {x' : Except CompileError α'}
    (h : x' = x.map f) : Relocates d f (liftM x : Lowering α) (liftM x') := by
  intro table table' a hrun moved b hrun'
  subst h
  rcases Outcome.run_liftM_ok hrun with ⟨rfl, rfl⟩
  rcases Outcome.run_liftM_ok hrun' with ⟨hb, rfl⟩
  cases hb
  exact ⟨rfl, rfl⟩

/-- Nothing is said about computations of which one fails. -/
theorem throw {f : α → α'} (e : CompileError) {y : Lowering α'} :
    Relocates d f (MonadExcept.throw e : Lowering α) y := by
  intro table table' a h
  cases h

end Relocates

variable (d : Int) (span : Span) (name : String)

theorem relocates_resolve :
    Relocates d (relocateCell d) (resolve name span) (resolve name span) := by
  intro table table' a h moved b h'
  rcases resolve_ok h with ⟨ha, rfl⟩
  rcases resolve_ok h' with ⟨hb, rfl⟩
  rw [SymbolTable.addressOf?_relocate, ha] at hb
  cases hb
  exact ⟨rfl, rfl⟩

/-- The outcome of a declaration, moved. -/
def relocateAllocation (d : Int) : Allocation → Allocation
  | .fresh a => .fresh (relocateCell d a)
  | .existing a => .existing (relocateCell d a)

theorem relocates_declare (value : Int) (kind : SymbolKind) :
    Relocates d (relocateAllocation d) (allocating span (SymbolTable.declare name value kind))
      (allocating span (SymbolTable.declare name value kind)) := by
  intro table table' al h moved al' h'
  -- The name is bound in both tables or in none of them.
  rcases SymbolTable.declare_ok (allocating_ok h) with
    ⟨info, hget, rfl, rfl⟩ | ⟨hget, hr, rfl, rfl⟩
  · rcases SymbolTable.declare_ok (allocating_ok h') with
      ⟨info', hget', rfl, rfl⟩ | ⟨hget', -, -, -⟩
    · rw [SymbolTable.get?_relocate, hget] at hget'
      cases hget'
      exact ⟨rfl, rfl⟩
    · rw [SymbolTable.get?_relocate, hget] at hget'
      cases hget'
  · rcases SymbolTable.declare_ok (allocating_ok h') with
      ⟨info', hget', -, -⟩ | ⟨-, -, rfl, rfl⟩
    · rw [SymbolTable.get?_relocate, hget] at hget'
      cases hget'
    · rw [SymbolTable.relocate_fresh hr, relocateAllocation, relocateCell_of_unreserved hr]
      exact ⟨rfl, rfl⟩

theorem relocates_declareString (text : String) :
    Relocates d (relocateAllocation d) (allocating span (SymbolTable.declareString name text))
      (allocating span (SymbolTable.declareString name text)) := by
  intro table table' al h moved al' h'
  rcases SymbolTable.declareString_ok (allocating_ok h) with
    ⟨info, hget, rfl, rfl⟩ | ⟨hget, rfl, hr, rfl⟩
  · rcases SymbolTable.declareString_ok (allocating_ok h') with
      ⟨info', hget', rfl, rfl⟩ | ⟨hget', -, -, -⟩
    · rw [SymbolTable.get?_relocate, hget] at hget'
      cases hget'
      exact ⟨rfl, rfl⟩
    · rw [SymbolTable.get?_relocate, hget] at hget'
      cases hget'
  · rcases SymbolTable.declareString_ok (allocating_ok h') with
      ⟨info', hget', -, -⟩ | ⟨-, rfl, -, rfl⟩
    · rw [SymbolTable.get?_relocate, hget] at hget'
      cases hget'
    · have hfirst := hr table.cursor (by omega) (Int.le_refl _)
      rw [SymbolTable.relocate_chars fun a hl hu => ?_, SymbolTable.relocate_fresh hfirst,
        relocateAllocation, relocateCell_of_unreserved hfirst]
      · exact ⟨rfl, rfl⟩
      · rw [SymbolTable.cursor_fresh] at hl hu
        exact hr a (by omega) (by omega)

theorem relocates_allocateSlot :
    Relocates d (relocateCell d) (allocating span (SymbolTable.allocateSlot name))
      (allocating span (SymbolTable.allocateSlot name)) := by
  intro table table' a h moved b h'
  rcases SymbolTable.allocateSlot_ok (allocating_ok h) with ⟨hr, rfl, rfl⟩
  rcases SymbolTable.allocateSlot_ok (allocating_ok h') with ⟨-, rfl, rfl⟩
  rw [SymbolTable.relocate_slot hr, relocateCell_of_unreserved hr]
  exact ⟨rfl, rfl⟩

theorem relocates_literal (spelling : String) (value : Int) :
    Relocates d (relocateCell d) (literal spelling value span) (literal spelling value span) := by
  intro table table' a h moved b h'
  rcases literal_ok h with ⟨ha, rfl⟩ | ⟨hnone, hr, rfl, rfl⟩
  · rcases literal_ok h' with ⟨hb, rfl⟩ | ⟨hnone', -⟩
    · rw [SymbolTable.addressOf?_relocate, ha] at hb
      cases hb
      exact ⟨rfl, rfl⟩
    · rw [SymbolTable.get?_relocate, Option.map_eq_none_iff] at hnone'
      exact absurd hnone' (SymbolTable.get?_of_addressOf? ha)
  · rcases literal_ok h' with ⟨hb, -⟩ | ⟨-, -, rfl, rfl⟩
    · rw [SymbolTable.addressOf?_relocate, SymbolTable.addressOf?, hnone] at hb
      cases hb
    · rw [SymbolTable.relocate_fresh hr, relocateCell_of_unreserved hr]
      exact ⟨rfl, rfl⟩

theorem relocates_operandAddress (operand : Operand) :
    Relocates d (relocateCell d) (operandAddress operand span) (operandAddress operand span) := by
  cases operand with
  | name name => exact relocates_resolve d span name
  | literal spelling value => exact relocates_literal d span spelling value

theorem relocates_expressionTokens (whole : Span) (tokens : List (ExpressionToken × Span))
    (pending : List Pending) (r : Reduction) :
    Relocates d (Reduction.relocate d) (expressionTokens whole span tokens pending r)
      (expressionTokens whole span tokens pending (r.relocate d)) := by
  induction tokens generalizing pending r with
  | nil => exact Relocates.lift (Reduction.applyAll_relocate d span r whole pending)
  | cons token tokens ih =>
    obtain ⟨token, place⟩ := token
    cases token with
    | operand operand =>
      exact (relocates_operandAddress d place operand).bind fun a => ih pending (r.push a)
    | operator operator =>
      exact (Relocates.lift (Reduction.applyTighter_relocate d span r operator pending)).bind
        fun pair => ih (.operator operator :: pair.1) pair.2
    | openParen => exact ih (.openParen :: pending) r
    | closeParen =>
      exact (Relocates.lift (Reduction.applyToParen_relocate d span r place pending)).bind
        fun pair => ih pair.1 pair.2

/-- An address and code, moved. -/
def relocateValue (d : Int) (value : Int × List Instruction) : Int × List Instruction :=
  (relocateCell d value.1, value.2.map (Instruction.relocate d))

theorem relocates_expression (e : Expression) :
    Relocates d (relocateValue d) (expression e span) (expression e span) :=
  (relocates_expressionTokens d span e.span e.tokens [] .empty).bind fun r =>
    (Relocates.lift (Reduction.result_relocate d r e.span)).bind fun a => .pure (a, r.code)

/-- Code and an ignored declaration, moved. -/
def relocateForm (d : Int) (form : List Instruction × Option (String × Int)) :
    List Instruction × Option (String × Int) :=
  (form.1.map (Instruction.relocate d), form.2.map (relocateNamed d))

theorem relocates_form (f : Statement.Form) :
    Relocates d (relocateForm d) (form span f) (form span f) := by
  cases f with
  | int name value =>
    refine (relocates_declare d span name value .int).bind fun al => ?_
    cases al <;> exact .pure ([], _)
  | string name text =>
    refine (relocates_declareString d span name text).bind fun al => ?_
    cases al <;> exact .pure ([], _)
  | new name e =>
    refine (relocates_expression d span e).bind fun value => ?_
    exact (Relocates.modify fun table => SymbolTable.relocate_bind d table name value.1).bind
      fun _ => .pure (value.2, none)
  | inputInt name =>
    exact (relocates_allocateSlot d span name).bind fun a =>
      .pure (([⟨.input, integerMode⟩, ⟨.write, a⟩] : List Instruction), none)
  | outputInt name =>
    exact (relocates_resolve d span name).bind fun a =>
      .pure (([⟨.read, a⟩, ⟨.output, integerMode⟩] : List Instruction), none)
  | inputStr =>
    exact (relocates_literal d span "0" 0).bind fun zero =>
      (relocates_literal d span "1" 1).bind fun _ =>
        Relocates.get.bind fun table => .pure (inputStrCode zero table.cursor, none)
  | outputStr name =>
    exact (relocates_literal d span "0" 0).bind fun zero =>
      (relocates_literal d span "1" 1).bind fun one =>
        (relocates_resolve d span name).bind fun string =>
          Relocates.get.bind fun table => .pure (outputStrCode zero one string table.cursor, none)
  | loop | endLoop => exact .pure ([], none)

theorem relocate_loopHead (comparison : Comparison) (left right cursor : Int) (count : Nat) :
    (loopHead comparison left right cursor count).map (Instruction.relocate d)
      = loopHead comparison (relocateCell d left) (relocateCell d right) (cursor + d) count := by
  cases comparison <;> rfl

/-- A block and the sizes of open loops, moved. -/
def relocateStatement (d : Int) (statement : Block × List Nat) : Block × List Nat :=
  (statement.1.relocate d, statement.2)

theorem relocates_statement (pairs : LoopPairs) (index : Nat) (opened : List Nat) (s : Statement) :
    Relocates d (relocateStatement d) (statement pairs index opened s)
      (statement pairs index opened s) := by
  rcases s.form.loop_or_endLoop_or_plain with ⟨left, comparison, right, hform⟩ | hform | hplain
  · simp only [statement, hform]
    cases pairs.endOf? index with
    | none => exact .throw _
    | some stop =>
      refine (relocates_operandAddress d s.span left).bind fun a =>
        (relocates_operandAddress d s.span right).bind fun b => Relocates.get.bind fun table => ?_
      rw [SymbolTable.cursor_relocate, ← relocate_loopHead]
      exact .pure ((⟨s.span, loopHead comparison a b table.cursor (stop - index + 1),
        !opened.isEmpty, none⟩ : Block), (stop - index + 1) :: opened)
  · cases opened with
    | nil =>
      simp only [statement, hform]
      exact .throw _
    | cons count outer =>
      simp only [statement, hform]
      exact .pure ((⟨s.span, loopEnd count, !(count :: outer).isEmpty, none⟩ : Block), outer)
  · rw [statement_of_plain hplain]
    exact (relocates_form d s.span s.form).bind fun result =>
      .pure ((⟨s.span, result.1, !opened.isEmpty, result.2⟩ : Block), opened)

theorem relocates_statements (pairs : LoopPairs) (index : Nat) (opened : List Nat)
    (ss : List Statement) : Relocates d (List.map (Block.relocate d))
      (statements pairs index opened ss) (statements pairs index opened ss) := by
  induction ss generalizing index opened with
  | nil => exact .pure []
  | cons s rest ih =>
    exact (relocates_statement d pairs index opened s).bind fun result =>
      (ih (index + 1) result.2).bind fun blocks => .pure (result.1 :: blocks)

end Lowering

end AccumulatorMachine
