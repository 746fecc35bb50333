import AccumulatorMachine.Proofs.Structured.Interpreter

/-!
# Symbol Tables on the Way

How the symbol table changes from statement to statement.

Lowering goes through many tables, but it changes them in four ways only: a name that is not bound
gets a new cell, the characters of a text get cells of their own, a name gets a new address without
a cell, or it gets the address that another name has. `TableStep` lists them, with what the
statement has to do with it. A property of tables that holds after each of these steps therefore
holds after the statement, and by `Program.table_induction` after any number of statements.

Three properties are followed that way. A name keeps its address until a statement rebinds it. An
address that was handed out without a name never gets one. And the name that a literal is bound
under always has a cell with the value of the literal.

## Main definitions

* `Statement.Form.Introduces`: The names that a statement binds to new cells with a value.
* `Statement.Form.Rebinds`: The statements that bind a name again.
* `SymbolTable.Binds`: An address that has a name.
* `Lowering.TableStep`, `Lowering.TableSteps`: The changes that a statement makes.
* `Program.tableAt?`: The table in front of a statement.

## Theorems

* `Lowering.form_tables`: A statement changes the table by its steps.
* `OperatorSteps.store`, `Lowering.form_store`: What a statement stores to.
* `Lowering.TableStep.keeps`, `Lowering.TableStep.nameless`, `Lowering.TableStep.spells`: The three
  properties.
* `Program.compile_tables`: The tables around a statement.
* `Program.table_induction`: What every step keeps, a program keeps.
-/

namespace AccumulatorMachine

namespace SymbolTable

/-- An address that a name is bound to. -/
def Binds (table : SymbolTable) (a : Int) : Prop := ∃ name, table.addressOf? name = some a

end SymbolTable

/-- Code that applies operators stores to their left sides. -/
theorem OperatorSteps.store {cell : Int → Prop} {code : List Instruction} {a : Int}
    (h : OperatorSteps cell code) (hmem : ⟨.write, a⟩ ∈ code) :
    cell a ∧ ∃ operator right, Reduction.operatorCode operator a right <:+: code := by
  rcases h with ⟨steps, rfl, hcells⟩
  rcases List.mem_flatMap.mp hmem with ⟨⟨operator, left, right⟩, hstep, hi⟩
  -- Of the three instructions of an operator only the last one is a store.
  have ha : a = left := by
    cases operator <;> simpa [Reduction.operatorCode, BinaryOperator.opcode] using hi
  subst ha
  rcases List.append_of_mem hstep with ⟨before, after, rfl⟩
  refine ⟨(hcells _ hstep).1, operator, right, before.flatMap fun s =>
    Reduction.operatorCode s.1 s.2.1 s.2.2, after.flatMap fun s =>
    Reduction.operatorCode s.1 s.2.1 s.2.2, ?_⟩
  rw [List.flatMap_append, List.flatMap_cons, List.append_assoc]

/-- The names that a statement may bind to a new cell, with the values of these cells. -/
inductive Statement.Form.Introduces : Statement.Form → String → Int → Prop
  | int (name : String) (value : Int) : Introduces (.int name value) name value
  | string (name text : String) : Introduces (.string name text) name text.toList.length
  | literal {name spelling : String} {value : Int} {e : Expression} {place : Span}
      (h : (.operand (.literal spelling value), place) ∈ e.tokens) :
      Introduces (.new name e) spelling value
  | inputZero : Introduces .inputStr "0" 0
  | inputOne : Introduces .inputStr "1" 1
  | outputZero (name : String) : Introduces (.outputStr name) "0" 0
  | outputOne (name : String) : Introduces (.outputStr name) "1" 1

/-- The statements that bind a name whether it is bound already or not. -/
def Statement.Form.Rebinds (name : String) : Statement.Form → Prop
  | .new other _ => other = name
  | .inputInt other => other = name
  | _ => False

namespace Lowering

/-- A change that a statement makes to the table. -/
inductive TableStep (f : Statement.Form) : SymbolTable → SymbolTable → Prop
  | fresh {table : SymbolTable} {name : String} {value : Int} (kind : SymbolKind)
      (hintro : f.Introduces name value) (hget : table.get? name = none) :
      TableStep f table (table.fresh name value kind)
  | chars (table : SymbolTable) (text : List Char) : TableStep f table (.chars text table)
  | slot (table : SymbolTable) {name : String} (hf : f = .inputInt name) :
      TableStep f table (table.slot name)
  | bind {table : SymbolTable} {name : String} {e : Expression} {a : Int} (hf : f = .new name e)
      (ha : table.Binds a) : TableStep f table (table.bind name a)

/-- Any number of changes that a statement makes to the table. -/
abbrev TableSteps (f : Statement.Form) : SymbolTable → SymbolTable → Prop :=
  Relation.ReflTransGen (TableStep f)

/-- A property that every change keeps is kept by all of them. -/
theorem TableSteps.induction {f : Statement.Form} {P : SymbolTable → Prop}
    {table table' : SymbolTable} (h : TableSteps f table table')
    (hstep : ∀ first second, TableStep f first second → P first → P second) (hP : P table) :
    P table' := by
  induction h with
  | refl => exact hP
  | tail _ hlast ih => exact hstep _ _ hlast ih

section Steps

variable {f : Statement.Form} {table table' : SymbolTable} {span : Span}

theorem operandAddress_tables {operand : Operand} {a : Int}
    (h : (operandAddress operand span).run table = .ok (a, table'))
    (hintro : ∀ spelling value, operand = .literal spelling value → f.Introduces spelling value) :
    TableSteps f table table' := by
  rcases operandAddress_ok h with ⟨-, rfl⟩ | ⟨value, hoperand, hget, -, -, rfl⟩
  · exact Relation.ReflTransGen.refl
  · exact Relation.ReflTransGen.single (.fresh .literal (hintro _ value hoperand) hget)

theorem literal_tables {spelling : String} {value a : Int}
    (h : (literal spelling value span).run table = .ok (a, table'))
    (hintro : f.Introduces spelling value) : TableSteps f table table' := by
  have haddress : (operandAddress (.literal spelling value) span).run table = .ok (a, table') := h
  refine operandAddress_tables haddress fun _ _ heq => ?_
  cases heq
  exact hintro

/-- The addresses that have a name still have it after an operand. -/
theorem operandAddress_binds_mono {operand : Operand} {a b : Int}
    (h : (operandAddress operand span).run table = .ok (a, table')) (hb : table.Binds b) :
    table'.Binds b := by
  rcases hb with ⟨name, hname⟩
  exact ⟨name, operandAddress_keeps h hname⟩

/-- An expression gives cells to its literals and computes with addresses that have a name. -/
theorem expressionTokens_tables {whole : Span} {tokens : List (ExpressionToken × Span)}
    {pending : List Pending} {r r' : Reduction}
    (h : (expressionTokens whole span tokens pending r).run table = .ok (r', table'))
    (hintro : ∀ spelling value place, (.operand (.literal spelling value), place) ∈ tokens →
      f.Introduces spelling value)
    (hr : r.Names table.Binds) : TableSteps f table table' ∧ r'.Names table'.Binds := by
  induction tokens generalizing pending r table with
  | nil =>
    rcases Outcome.run_liftM_ok h with ⟨hall, rfl⟩
    exact ⟨Relation.ReflTransGen.refl, (Reduction.Names.kept _).applyAll hr hall⟩
  | cons token tokens ih =>
    obtain ⟨token, place⟩ := token
    have hrest : ∀ spelling value place, (.operand (.literal spelling value), place) ∈ tokens →
        f.Introduces spelling value :=
      fun spelling value place hmem => hintro spelling value place (List.mem_cons_of_mem _ hmem)
    cases token with
    | operand operand =>
      rcases Outcome.run_bind_ok h with ⟨a, mid, ha, hlast⟩
      have hmid : TableSteps f table mid := by
        refine operandAddress_tables ha fun spelling value heq => ?_
        subst heq
        exact hintro spelling value place List.mem_cons_self
      -- The names that were bound before the operand are bound to the same addresses after it.
      have hr' : r.Names mid.Binds :=
        ⟨fun b hb => operandAddress_binds_mono ha (hr.operands b hb),
          hr.code.mono fun b hb => operandAddress_binds_mono ha hb⟩
      rcases ih hlast hrest (hr'.push ⟨_, operandAddress_binds ha⟩) with ⟨hsteps, hnames⟩
      exact ⟨hmid.trans hsteps, hnames⟩
    | operator operator =>
      rcases Outcome.run_bind_ok h with ⟨⟨pending', mid⟩, _, hlift, hlast⟩
      rcases Outcome.run_liftM_ok hlift with ⟨hmid, rfl⟩
      exact ih hlast hrest ((Reduction.Names.kept _).applyTighter hr hmid)
    | openParen => exact ih h hrest hr
    | closeParen =>
      rcases Outcome.run_bind_ok h with ⟨⟨pending', mid⟩, _, hlift, hlast⟩
      rcases Outcome.run_liftM_ok hlift with ⟨hmid, rfl⟩
      exact ih hlast hrest ((Reduction.Names.kept _).applyToParen hr hmid)

theorem expression_tables (name : String) {e : Expression} {a : Int} {code : List Instruction}
    (h : (expression e span).run table = .ok ((a, code), table')) :
    TableSteps (.new name e) table table' ∧ table'.Binds a ∧ OperatorSteps table'.Binds code := by
  rcases Outcome.run_bind_ok h with ⟨r, mid, htokens, hrest⟩
  rcases Outcome.run_bind_ok hrest with ⟨b, _, hlift, hpure⟩
  rcases Outcome.run_liftM_ok hlift with ⟨hresult, rfl⟩
  cases hpure
  have hempty : Reduction.empty.Names table.Binds := ⟨by simp [Reduction.empty], [], rfl, by simp⟩
  rcases expressionTokens_tables htokens (fun _ _ _ hmem => .literal hmem) hempty with
    ⟨hsteps, hnames⟩
  refine ⟨hsteps, hnames.operands a ?_, hnames.code⟩
  rw [Reduction.result_ok hresult]
  exact List.mem_singleton_self a

/-- A statement changes the table by its steps. -/
theorem form_tables {code : List Instruction} {redeclared : Option (String × Int)}
    (h : (form span f).run table = .ok ((code, redeclared), table')) :
    TableSteps f table table' := by
  cases f with
  | int name value =>
    rcases form_int_ok h with ⟨-, ⟨info, -, rfl⟩ | ⟨hget, -, rfl⟩⟩
    · exact Relation.ReflTransGen.refl
    · exact Relation.ReflTransGen.single (.fresh .int (.int name value) hget)
  | string name text =>
    rcases form_string_ok h with ⟨-, ⟨info, -, rfl⟩ | ⟨hget, -, rfl⟩⟩
    · exact Relation.ReflTransGen.refl
    · exact (Relation.ReflTransGen.single (.fresh _ (.string name text) hget)).tail (.chars _ _)
  | new name e =>
    rcases form_new_ok h with ⟨a, mid, he, rfl⟩
    rcases expression_tables name he with ⟨hsteps, ha, -⟩
    exact hsteps.tail (.bind rfl ha)
  | inputInt name =>
    rcases form_inputInt_ok h with ⟨-, -, rfl⟩
    exact Relation.ReflTransGen.single (.slot table rfl)
  | outputInt name =>
    rcases form_outputInt_ok h with ⟨a, -, -, rfl⟩
    exact Relation.ReflTransGen.refl
  | inputStr =>
    rcases form_inputStr_ok h with ⟨zero, one, mid, hzero, hone, -⟩
    exact (literal_tables hzero .inputZero).trans (literal_tables hone .inputOne)
  | outputStr name =>
    rcases form_outputStr_ok h with ⟨zero, one, string, mid, hzero, hone, -, -⟩
    exact (literal_tables hzero (.outputZero name)).trans (literal_tables hone (.outputOne name))
  | loop left comparison right =>
    cases h
    exact Relation.ReflTransGen.refl
  | endLoop =>
    cases h
    exact Relation.ReflTransGen.refl

end Steps

/-- What a statement stores to: reserved addresses, the address an integer is read to, and the left
    sides of operators, which have a name when they are applied. -/
theorem form_store {f : Statement.Form} {table table' : SymbolTable} {span : Span}
    {code : List Instruction} {redeclared : Option (String × Int)} {a : Int}
    (h : (form span f).run table = .ok ((code, redeclared), table'))
    (hmem : ⟨.write, a⟩ ∈ code) :
    SymbolTable.isReserved a = true ∨ ((∃ name, f = .inputInt name) ∧ a = table.cursor) ∨
      ∃ name e mid operator right, f = .new name e ∧ TableSteps f table mid ∧ mid.Binds a ∧
        Reduction.operatorCode operator a right <:+: code := by
  -- The result of an operator is stored in the cell of its left operand, and an integer that is
  -- read in a new one. All else is scratch.
  cases f with
  | int name value =>
    rcases form_int_ok h with ⟨rfl, -⟩
    cases hmem
  | string name text =>
    rcases form_string_ok h with ⟨rfl, -⟩
    cases hmem
  | new name e =>
    rcases form_new_ok h with ⟨b, mid, he, -⟩
    rcases expression_tables name he with ⟨hsteps, -, hcode⟩
    rcases hcode.store hmem with ⟨ha, operator, right, hinfix⟩
    exact Or.inr (Or.inr ⟨name, e, mid, operator, right, rfl, hsteps, ha, hinfix⟩)
  | inputInt name =>
    rcases form_inputInt_ok h with ⟨-, rfl, -⟩
    simp only [List.mem_cons, List.not_mem_nil, or_false, Instruction.mk.injEq, reduceCtorEq,
      false_and, true_and, false_or] at hmem
    exact Or.inr (Or.inl ⟨⟨name, rfl⟩, hmem⟩)
  | outputInt name =>
    rcases form_outputInt_ok h with ⟨b, -, rfl, -⟩
    simp at hmem
  | inputStr =>
    rcases form_inputStr_ok h with ⟨zero, one, mid, -, -, rfl⟩
    refine Or.inl (SymbolTable.isReserved_iff.mpr ?_)
    simpa [inputStrCode] using hmem
  | outputStr name =>
    rcases form_outputStr_ok h with ⟨zero, one, string, mid, -, -, -, rfl⟩
    refine Or.inl (SymbolTable.isReserved_iff.mpr (Or.inl ?_))
    simpa [outputStrCode] using hmem
  | loop left comparison right =>
    cases h
    cases hmem
  | endLoop =>
    cases h
    cases hmem

namespace TableStep

variable {f : Statement.Form} {table table' : SymbolTable} (h : TableStep f table table')

include h

theorem cursor_le : table'.cursor ≤ table.cursor := by
  cases h with
  | fresh kind hintro hget =>
    simp only [SymbolTable.fresh, SymbolTable.insert, SymbolTable.addCell, SymbolTable.taken]
    omega
  | chars text =>
    rw [SymbolTable.cursor_chars]
    omega
  | slot heq =>
    simp only [SymbolTable.slot, SymbolTable.insert, SymbolTable.taken]
    omega
  | bind heq ha => exact Int.le_refl _

/-- A name keeps its address unless the statement binds it again. -/
theorem keeps {name : String} {a : Int} (hf : ¬ f.Rebinds name)
    (hname : table.addressOf? name = some a) : table'.addressOf? name = some a := by
  cases h with
  | fresh kind hintro hget =>
    -- The name of a new cell is one that was not bound.
    rw [SymbolTable.addressOf?_fresh, if_neg fun heq => ?_]
    · exact hname
    · exact SymbolTable.get?_of_addressOf? hname (heq ▸ hget)
  | chars text => rwa [SymbolTable.addressOf?_chars]
  | slot heq =>
    subst heq
    rw [SymbolTable.addressOf?_slot, if_neg fun heq => hf heq.symm]
    exact hname
  | bind heq ha =>
    subst heq
    rw [SymbolTable.addressOf?_bind, if_neg fun heq => hf heq.symm]
    exact hname

/-- An address that was handed out without a name does not get one. -/
theorem nameless {a : Int} (ha : table.cursor < a ∧ ¬ table.Binds a) :
    table'.cursor < a ∧ ¬ table'.Binds a := by
  rcases ha with ⟨hlt, hnone⟩
  refine ⟨Int.lt_of_le_of_lt h.cursor_le hlt, ?_⟩
  -- New names go to addresses that are handed out only now, and other names share one.
  have hkept : ∀ {name : String} {b : Int}, b ≠ a →
      (∀ other, table'.addressOf? other
        = if other = name then some b else table.addressOf? other) → ¬ table'.Binds a := by
    rintro name b hb hbinds ⟨other, hother⟩
    rw [hbinds] at hother
    by_cases heq : other = name
    · rw [if_pos heq] at hother
      cases hother
      exact hb rfl
    · rw [if_neg heq] at hother
      exact hnone ⟨other, hother⟩
  cases h with
  | fresh kind hintro hget =>
    exact hkept (by omega) fun other => SymbolTable.addressOf?_fresh _ _ other _ kind
  | chars text =>
    rintro ⟨other, hother⟩
    rw [SymbolTable.addressOf?_chars] at hother
    exact hnone ⟨other, hother⟩
  | slot heq => exact hkept (by omega) fun other => SymbolTable.addressOf?_slot _ _ other
  | bind heq hb =>
    exact hkept (fun hba => hnone (hba ▸ hb)) fun other => SymbolTable.addressOf?_bind _ _ other _

/-- The cell of a literal has its value if the name of the literal is given to no other cell. -/
theorem spells {spelling : String} {value : Int}
    (hvalue : ∀ other, f.Introduces spelling other → other = value) (hf : ¬ f.Rebinds spelling)
    (hspells : ∀ a, table.addressOf? spelling = some a → ⟨.data value, a⟩ ∈ table.cells) {a : Int}
    (ha : table'.addressOf? spelling = some a) : ⟨.data value, a⟩ ∈ table'.cells := by
  -- Other names get cells of their own, and this one may get a cell only with its value.
  cases h with
  | @fresh name other kind hintro hget =>
    rw [SymbolTable.addressOf?_fresh] at ha
    by_cases heq : spelling = name
    · subst heq
      rw [if_pos rfl] at ha
      cases ha
      rw [hvalue other hintro]
      exact List.mem_append_right _ List.mem_cons_self
    · rw [if_neg heq] at ha
      exact List.mem_append_left _ (hspells a ha)
  | chars text =>
    rw [SymbolTable.addressOf?_chars] at ha
    exact SymbolTable.mem_chars text (hspells a ha)
  | slot heq =>
    subst heq
    rw [SymbolTable.addressOf?_slot, if_neg fun heq => hf heq.symm] at ha
    exact hspells a ha
  | bind heq hb =>
    subst heq
    rw [SymbolTable.addressOf?_bind, if_neg fun heq => hf heq.symm] at ha
    exact hspells a ha

end TableStep

end Lowering

namespace Program

/-- The table in front of the statement at an index. -/
def tableAt? (program : Program) (dataBase : Int) (index : Nat) : Option SymbolTable :=
  match LoopPairs.ofStatements? program.statements with
  | .ok pairs =>
    match (Lowering.statements pairs 0 [] (program.statements.take index)).run
        (.empty dataBase) with
    | .ok (_, table) => some table
    | .error _ => none
  | .error _ => none

variable {program : Program} {dataBase : Int} {compiled : Compiled}

/-- An operand of a statement is looked up in the table behind the statement. -/
theorem addressAt?_eq {index : Nat} {table : SymbolTable}
    (h : program.tableAt? dataBase (index + 1) = some table) (operand : Operand) :
    program.addressAt? dataBase index operand = table.addressOf? operand.render := by
  rw [tableAt?] at h
  rw [addressAt?]
  cases hpairs : LoopPairs.ofStatements? program.statements with
  | error e =>
    simp only [hpairs] at h
    cases h
  | ok pairs =>
    simp only [hpairs] at h
    cases hrun : (Lowering.statements pairs 0 [] (program.statements.take (index + 1))).run
        (.empty dataBase) with
    | error e =>
      simp only [hrun] at h
      cases h
    | ok result =>
      simp only [hrun] at h
      cases h
      simp only [hrun]

section Compiled

variable (h : program.compile dataBase = .ok compiled)

include h

/-- A compiled program has a table in front of every statement and behind the last one. -/
theorem compile_tableAt (k : Nat) : ∃ table, program.tableAt? dataBase k = some table ∧
    table.Within dataBase ∧ (SymbolTable.empty dataBase).Grows table ∧
    table.Grows compiled.symbols := by
  rcases compile_ok h with ⟨pairs, hpairs, hlowering, -⟩
  have hempty := SymbolTable.Within.empty dataBase
  by_cases hk : k < program.statements.length
  · rcases Lowering.statements_get hlowering (List.getElem?_eq_getElem hk) with
      ⟨block, openedBefore, before, openedAfter, after, -, hlowers, hbefore, -, hrest⟩
    have hleaves := Lowering.statements_leaves hbefore hempty
    have hafter := hlowers.leaves hleaves.within
    refine ⟨before, ?_, hleaves.within, hleaves.grows,
      hafter.grows.trans (Lowering.statements_leaves hrest hafter.within).grows⟩
    simp only [tableAt?, hpairs, hbefore]
  · have hleaves := Lowering.statements_leaves hlowering hempty
    refine ⟨compiled.symbols, ?_, hleaves.within, hleaves.grows, SymbolTable.Grows.refl _⟩
    simp only [tableAt?, hpairs, List.take_of_length_le (Nat.le_of_not_lt hk), hlowering]

theorem tableAt?_zero : program.tableAt? dataBase 0 = some (.empty dataBase) := by
  rcases compile_ok h with ⟨pairs, hpairs, -, -⟩
  rw [tableAt?, hpairs]
  rfl

theorem compile_tableAt_within {k : Nat} {table : SymbolTable}
    (htable : program.tableAt? dataBase k = some table) : table.Within dataBase := by
  rcases compile_tableAt h k with ⟨_, htable', hwithin, -⟩
  rw [htable] at htable'
  cases htable'
  exact hwithin

theorem compile_tableAt_grown {k : Nat} {table : SymbolTable}
    (htable : program.tableAt? dataBase k = some table) :
    (SymbolTable.empty dataBase).Grows table := by
  rcases compile_tableAt h k with ⟨_, htable', -, hgrown, -⟩
  rw [htable] at htable'
  cases htable'
  exact hgrown

theorem compile_tableAt_grows {k : Nat} {table : SymbolTable}
    (htable : program.tableAt? dataBase k = some table) : table.Grows compiled.symbols := by
  rcases compile_tableAt h k with ⟨_, htable', -, -, hgrows⟩
  rw [htable] at htable'
  cases htable'
  exact hgrows

/-- A plain statement is lowered from the table in front of it to the one behind it. -/
theorem compile_tables {k : Nat} {s : Statement} (hs : program.statements[k]? = some s)
    (hplain : s.form.Plain) :
    ∃ block before after, compiled.blocks[k]? = some block ∧
      program.tableAt? dataBase k = some before ∧
      program.tableAt? dataBase (k + 1) = some after ∧
      (Lowering.form s.span s.form).run before = .ok ((block.code, block.redeclared), after) := by
  rcases compile_ok h with ⟨pairs, hpairs, hlowering, -⟩
  rcases Lowering.statements_get hlowering hs with
    ⟨block, openedBefore, before, openedAfter, after, hblock, hlowers, hbefore, hafter, -⟩
  refine ⟨block, before, after, hblock, ?_, ?_, ?_⟩
  · simp only [tableAt?, hpairs, hbefore]
  · simp only [tableAt?, hpairs, hafter]
  · cases hlowers with
    | loop hform =>
      rw [hform] at hplain
      exact absurd hplain id
    | endLoop hform =>
      rw [hform] at hplain
      exact absurd hplain id
    | plain _ hform => exact hform

/-- What every change of the table keeps, the statements between two places keep. -/
theorem table_induction {P : SymbolTable → Prop} {i k : Nat} {first last : SymbolTable}
    (hik : i ≤ k) (hplain : ∀ s ∈ program.statements, s.form.Plain)
    (hstep : ∀ j s table table', i ≤ j → j < k → program.statements[j]? = some s →
      Lowering.TableStep s.form table table' → P table → P table')
    (hfirst : program.tableAt? dataBase i = some first)
    (hlast : program.tableAt? dataBase k = some last) (hP : P first) : P last := by
  induction hik generalizing last with
  | refl =>
    rw [hfirst] at hlast
    cases hlast
    exact hP
  | @step k hik ih =>
    rcases compile_tableAt h k with ⟨before, hbefore, -⟩
    have hbefore' := ih (fun j s table table' hi hj => hstep j s table table' hi (by omega)) hbefore
    by_cases hk : k < program.statements.length
    · have hs : program.statements[k]? = some program.statements[k] := List.getElem?_eq_getElem hk
      rcases compile_tables h hs (hplain _ (List.getElem_mem hk)) with
        ⟨block, table, after, -, htable, hafter, hform⟩
      rw [hbefore] at htable
      cases htable
      rw [hlast] at hafter
      cases hafter
      exact (Lowering.form_tables hform).induction
        (fun first second => hstep k _ first second hik (Nat.lt_succ_self k) hs) hbefore'
    · -- There are no more statements, and the table is the same.
      rw [tableAt?, List.take_of_length_le (by omega)] at hbefore hlast
      rw [hbefore] at hlast
      cases hlast
      exact hbefore'

end Compiled

end Program

end AccumulatorMachine
