import AccumulatorMachine.Proofs.LoopFree
import AccumulatorMachine.Proofs.Lowering.Tables
import AccumulatorMachine.Proofs.Source.Spelling
import AccumulatorMachine.Proofs.Strings.Printing
import AccumulatorMachine.Proofs.Structured.Simulation

/-!
# Declared Strings

Where a declared string lies, and what can happen to it.

The declaration of a string takes a cell for its length and, right below it, one for every
character. The name leads to the cell of the length. The characters have no names, so that no
expression can get at them: an operator replaces its left side, and its sides are cells with names.
That leaves one way to change a string, which is to put its name, or another name for the same cell,
on the left side of an operator.

All of this is about programs without loops, where the statements before a place are those that
have been run. Only one more thing can store to the cell of a variable. An integer is read to an
address of its own, which is no initial cell of anything.

## Main definitions

* `Program.LeftSide`, `Program.Overwrites`: The left sides of operators before a statement.
* `Program.BindsString`: A name that is bound by the declaration of a string.

## Theorems

* `Statement.Form.Faithful.spells`: No statement gives the name of a literal to anything else.
* `Program.spares_of_cell`: Only operators store to initial cells.
* `Program.char_not_leftSide`: No operator is applied to a character.
* `Program.declared_string`: The cells of a declared string, and what stores to them.
-/

namespace AccumulatorMachine

/-- What a faithful statement binds under the spelling of a literal is the literal, and its names
    are spelled otherwise. -/
theorem Statement.Form.Faithful.spells {f : Statement.Form} (h : f.Faithful) {spelling : String}
    {value : Int} (hspelling : Decimal.word? spelling.toList = some value) :
    (∀ other, f.Introduces spelling other → other = value) ∧ ¬ f.Rebinds spelling := by
  -- A spelling of a number is no word, so no name of a variable can be one.
  have hword : ∀ {name : String}, Source.IsWord name → name ≠ spelling := by
    rintro name hname rfl
    rw [Decimal.word?_of_isWord hname] at hspelling
    cases hspelling
  refine ⟨fun other hintro => ?_, fun hrebinds => ?_⟩
  · cases hintro with
    | int => exact absurd rfl (hword h)
    | string => exact absurd rfl (hword h)
    | literal hmem =>
      have hliteral : Decimal.word? spelling.toList = some other := h.2 _ hmem
      rw [hspelling] at hliteral
      exact (Option.some.inj hliteral).symm
    | inputZero | outputZero =>
      have hzero : Decimal.word? "0".toList = some 0 := by decide
      rw [hspelling] at hzero
      exact (Option.some.inj hzero).symm
    | inputOne | outputOne =>
      have hone : Decimal.word? "1".toList = some 1 := by decide
      rw [hspelling] at hone
      exact (Option.some.inj hone).symm
  · cases f with
    | new name e => exact hword h.1 hrebinds
    | inputInt name => exact hword h hrebinds
    | int | string | loop | endLoop | outputInt | inputStr | outputStr => exact hrebinds

namespace SymbolTable

variable (table : SymbolTable) (name text : String)

/-- The cells of the characters have no names. -/
theorem not_binds_withString {base b : Int} (hw : table.Within base) (hb : b < table.cursor) :
    ¬ (table.withString name text).Binds b := by
  rintro ⟨other, hother⟩
  rw [addressOf?_withString] at hother
  by_cases heq : other = name
  · rw [if_pos heq] at hother
    cases hother
    exact absurd hb (Int.lt_irrefl _)
  · rw [if_neg heq] at hother
    have := (hw.bound other b hother).1
    omega

end SymbolTable

namespace Lowering

/-- A declaration that was not ignored has given cells to the string. -/
theorem form_string_fresh {span : Span} {name text : String} {table table' : SymbolTable}
    {code : List Instruction}
    (h : (form span (.string name text)).run table = .ok ((code, none), table')) :
    table' = table.withString name text := by
  rcases Outcome.run_bind_ok h with ⟨declared, mid, hdeclare, hpure⟩
  rcases SymbolTable.declareString_ok (allocating_ok hdeclare) with
    ⟨info, -, rfl, -⟩ | ⟨-, rfl, -, rfl⟩
  · cases hpure
  · cases hpure
    rfl

end Lowering

namespace Program

/-- An expression before a statement has a cell as the left side of an operator. -/
def LeftSide (program : Program) (compiled : Compiled) (k : Nat) (a : Int) : Prop :=
  ∃ j < k, ∃ name e block operator right, program.formAt? j = some (.new name e) ∧
    compiled.blocks[j]? = some block ∧ Reduction.operatorCode operator a right <:+: block.code

/-- An expression before a statement has the cell of a name or a literal as the left side of an
    operator, whatever it is called there. -/
def Overwrites (program : Program) (dataBase : Int) (compiled : Compiled) (k : Nat)
    (operand : Operand) : Prop :=
  ∃ a, program.addressAt? dataBase k operand = some a ∧ program.LeftSide compiled k a

/-- A name is bound by the declaration of a string where a statement stands: a declaration before
    the statement was not ignored, and no statement in between binds the name again. -/
def BindsString (program : Program) (compiled : Compiled) (k : Nat) (name text : String) : Prop :=
  ∃ i < k, ∃ block, program.formAt? i = some (.string name text) ∧
    compiled.blocks[i]? = some block ∧ block.redeclared = none ∧
    ∀ j f, i < j → j < k → program.formAt? j = some f → ¬ f.Rebinds name

theorem LeftSide.store {program : Program} {compiled : Compiled} {k : Nat} {a : Int}
    (h : program.LeftSide compiled k a) : ∃ j < k, ∃ name e block,
      program.formAt? j = some (.new name e) ∧ compiled.blocks[j]? = some block ∧
      ⟨.write, a⟩ ∈ block.code := by
  rcases h with ⟨j, hj, name, e, block, operator, right, hf, hblock, hinfix⟩
  refine ⟨j, hj, name, e, block, hf, hblock, hinfix.subset ?_⟩
  simp [Reduction.operatorCode]

variable {program : Program} {dataBase : Int} {compiled : Compiled}
  (h : program.compile dataBase = .ok compiled) (hfree : program.LoopFree)

include h hfree

/-- An integer is read to an address that has no initial cell. -/
theorem slot_ne_cell {j : Nat} {s : Statement} {name : String} {before : SymbolTable}
    (hs : program.statements[j]? = some s) (hf : s.form = .inputInt name)
    (hbefore : program.tableAt? dataBase j = some before) {cell : Cell}
    (hcell : cell ∈ compiled.symbols.cells) : cell.address ≠ before.cursor := by
  rcases compile_tables h hs (hfree s (List.mem_of_getElem? hs)) with
    ⟨block, table, after, hblock, htable, hafter, hform⟩
  rw [hbefore] at htable
  cases htable
  rw [hf] at hform
  rcases Lowering.form_inputInt_ok hform with ⟨-, -, rfl⟩
  -- The cells before the statement lie above the address, and those after it below.
  rcases (compile_tableAt_grown h hbefore).cells with ⟨old, hold, hin, -⟩
  rcases (compile_tableAt_grows h hafter).cells with ⟨new, hnew, hin', -⟩
  rw [hnew] at hcell
  rcases List.mem_append.mp hcell with hcell | hcell
  · have hmem : cell ∈ before.cells := hcell
    rw [hold] at hmem
    have := hin cell hmem
    omega
  · have := hin' cell hcell
    simp only [SymbolTable.slot, SymbolTable.insert, SymbolTable.taken] at this
    omega

/-- A cell with an initial value is stored to only where it is the left side of an operator. -/
theorem spares_of_cell {k : Nat} {f : Statement.Form} (hk : program.formAt? k = some f)
    (hnew : ∀ name e, f ≠ .new name e) {cell : Cell} (hcell : cell ∈ compiled.symbols.cells)
    (hleft : ¬ program.LeftSide compiled k cell.address) : compiled.Spares k cell.address := by
  intro j hj block hblock hmem
  have hlt : j < program.statements.length := by
    rw [← compile_length h]
    exact (List.getElem?_eq_some_iff.mp hblock).1
  have hs : program.statements[j]? = some program.statements[j] := List.getElem?_eq_getElem hlt
  have hformAt : program.formAt? j = some program.statements[j].form := by
    rw [formAt?, hs]
    rfl
  rcases compile_tables h hs (hfree _ (List.getElem_mem hlt)) with
    ⟨block', before, after, hblock', hbefore, hafter, hform⟩
  rw [hblock] at hblock'
  cases hblock'
  rcases Lowering.form_store hform hmem with
    hreserved | ⟨⟨name, hf⟩, ha⟩ | ⟨name, e, mid, operator, right, hf, -, -, hinfix⟩
  · rw [compile_unreserved h ((compile_cells h).1 cell hcell).2.1] at hreserved
    cases hreserved
  · exact slot_ne_cell h hfree hs hf hbefore hcell ha
  · -- The statement itself is no expression, so this one comes before it.
    rcases Nat.lt_or_eq_of_le hj with hlt | rfl
    · exact hleft ⟨j, hlt, name, e, block, operator, right, hf ▸ hformAt, hblock, hinfix⟩
    · rw [hk] at hformAt
      cases hformAt
      exact hnew name e hf

/-- Addresses are only ever handed out. -/
theorem cursor_tableAt_le {i k : Nat} {first last : SymbolTable} (hik : i ≤ k)
    (hfirst : program.tableAt? dataBase i = some first)
    (hlast : program.tableAt? dataBase k = some last) : last.cursor ≤ first.cursor :=
  table_induction h (P := fun table => table.cursor ≤ first.cursor) hik hfree
    (fun _ _ _ _ _ _ _ hstep hle => Int.le_trans hstep.cursor_le hle) hfirst hlast
    (Int.le_refl _)

/-- The address of a name that is bound by the declaration of a string. -/
theorem addressAt?_declared {i k : Nat} {f : Statement.Form} {name text : String}
    {before : SymbolTable} (hik : i < k) (hk : program.formAt? k = some f) (hf : ¬ f.Rebinds name)
    (hlater : ∀ j f, i < j → j < k → program.formAt? j = some f → ¬ f.Rebinds name)
    (hafter : program.tableAt? dataBase (i + 1) = some (before.withString name text)) :
    program.addressAt? dataBase k (.name name) = some before.cursor := by
  rcases compile_tableAt h (k + 1) with ⟨last, hlast, -⟩
  rw [addressAt?_eq hlast]
  -- The name keeps its address from the declaration on.
  refine table_induction h (P := fun table => table.addressOf? name = some before.cursor)
    (show i + 1 ≤ k + 1 by omega) hfree (fun j s _ _ hij hjk hj hstep => hstep.keeps ?_) hafter
    hlast ?_
  · have hform : program.formAt? j = some s.form := by
      rw [formAt?, hj]
      rfl
    rcases Nat.lt_or_eq_of_le (Nat.le_of_lt_succ hjk) with hlt | rfl
    · exact hlater j _ (by omega) hlt hform
    · rw [hk] at hform
      cases hform
      exact hf
  · rw [SymbolTable.addressOf?_withString, if_pos rfl]

/-- No operator is applied to the cell of a character, since it has no name. -/
theorem char_not_leftSide {i k : Nat} {name text : String} {before : SymbolTable} {b : Int}
    (hi : program.formAt? i = some (.string name text))
    (hbefore : program.tableAt? dataBase i = some before)
    (hafter : program.tableAt? dataBase (i + 1) = some (before.withString name text))
    (hupper : b < before.cursor) (hlower : before.cursor - 1 - text.toList.length < b)
    (hreserved : SymbolTable.isReserved b = false) : ¬ program.LeftSide compiled k b := by
  intro hleft
  rcases hleft.store with ⟨j, -, other, e, block, hj, hblock, hmem⟩
  rcases Option.map_eq_some_iff.mp hj with ⟨s, hs, hf⟩
  rcases compile_tables h hs (hfree s (List.mem_of_getElem? hs)) with
    ⟨block', first, last, hblock', hfirst, hlast, hform⟩
  rw [hblock] at hblock'
  cases hblock'
  rcases Nat.lt_trichotomy j i with hlt | rfl | hlt
  · -- Before the declaration the address was not handed out.
    have hwithin := compile_tableAt_within h hfirst
    have hcursor := cursor_tableAt_le h hfree (show j + 1 ≤ i from hlt) hlast hbefore
    rcases (Lowering.form_leaves hform hwithin).names _ hmem rfl with hout | hout
    · have := hout.1
      simp only at this
      omega
    · rw [hreserved] at hout
      cases hout
  · rw [hi] at hj
    cases hj
  · -- After it the address never gets a name.
    have hnameless : first.cursor < b ∧ ¬ first.Binds b := by
      refine table_induction h (P := fun table => table.cursor < b ∧ ¬ table.Binds b)
        (show i + 1 ≤ j from hlt) hfree (fun _ _ _ _ _ _ _ hstep => hstep.nameless) hafter hfirst
        ⟨?_, SymbolTable.not_binds_withString _ _ _ (compile_tableAt_within h hbefore) hupper⟩
      rw [SymbolTable.cursor_withString]
      exact hlower
    rw [hf] at hform
    rcases Lowering.form_new_ok hform with ⟨c, mid, he, -⟩
    rcases Lowering.expression_tables other he with ⟨hsteps, -, hcode⟩
    exact (hsteps.induction (fun _ _ hstep => hstep.nameless) hnameless).2 (hcode.store hmem).1

/-- A name that is bound by the declaration of a string, where a statement stands that does not bind
    it again, has the address of the length. The characters lie below it, and only an expression
    with the name on the left side of an operator stores to any of these cells. -/
theorem declared_string {k : Nat} {f : Statement.Form} {name text : String}
    (hk : program.formAt? k = some f) (hnew : ∀ other e, f ≠ .new other e)
    (hf : ¬ f.Rebinds name) (hbinds : program.BindsString compiled k name text) :
    ∃ a, program.addressAt? dataBase k (.name name) = some a ∧
      (⟨.data text.toList.length, a⟩ : Cell) ∈ compiled.symbols.cells ∧
      (¬ program.LeftSide compiled k a → compiled.Spares k a) ∧
      ∀ (n : Nat) (c : Char), text.toList[n]? = some c →
        (⟨.data c.toNat, a - (n + 1 : Nat)⟩ : Cell) ∈ compiled.symbols.cells ∧
        compiled.Spares k (a - (n + 1 : Nat)) := by
  rcases hbinds with ⟨i, hik, block, hi, hblock, hdeclares, hlater⟩
  rcases Option.map_eq_some_iff.mp hi with ⟨s, hs, hstring⟩
  rcases compile_tables h hs (hfree s (List.mem_of_getElem? hs)) with
    ⟨block', before, after, hblock', hbefore, hafter, hform⟩
  rw [hblock] at hblock'
  cases hblock'
  rw [hstring, hdeclares] at hform
  cases Lowering.form_string_fresh hform
  -- The cells were written by the declaration, and cells are only ever added.
  have hcells : ∀ cell ∈ (before.withString name text).cells, cell ∈ compiled.symbols.cells :=
    fun cell => (compile_tableAt_grows h hafter).mem_cells
  have hlength := hcells _ (before.length_mem_withString name text)
  refine ⟨before.cursor, addressAt?_declared h hfree hik hk hf hlater hafter, hlength,
    spares_of_cell h hfree hk hnew hlength, fun n c hc => ?_⟩
  have hchar := hcells _ (before.char_mem_withString name text hc)
  have hout := ((compile_cells h).1 _ hchar).2.1
  have hn : n < text.toList.length := (List.getElem?_eq_some_iff.mp hc).1
  exact ⟨hchar, spares_of_cell h hfree hk hnew hchar (char_not_leftSide h hfree hi hbefore hafter
    (by simp only; omega) (by simp only; omega)
    (compile_unreserved h hout))⟩

end Program

end AccumulatorMachine
