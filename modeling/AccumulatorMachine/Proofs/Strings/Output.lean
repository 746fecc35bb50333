import AccumulatorMachine.Proofs.Strings.Declared
import AccumulatorMachine.Proofs.Strings.Printing
import AccumulatorMachine.Proofs.Structured.Simulation

/-!
# Output of Declared Strings

What a program without loops prints where it prints a string.

The block that prints a string reads the cells of the string and those of the literals `0` and `1`,
from which it takes the start of its counter and its step. A program can store to all of them only
by an operator with the name or the literal on its left side, because the result of an operator
replaces its left side. If no expression before has done that to the string, then its cells are as
declared. What is printed depends on the two literals alone then: it is the declared text if their
cells hold zero and one, and they do unless an expression has overwritten one of them too.

A literal that was overwritten is no exception that shows. The block prints whatever `Spells` says,
so for another start it leaves out the beginning of the text and goes on as if nothing had happened.

## Main definitions

* `Program.HoldsLiterals`: A machine in which the two literals have their values.

## Theorems

* `Program.compile_outputStr`: The block that prints a string.
* `Program.prints_of_spells`: A machine in front of that block prints what is spelled.
* `Program.literal_cell`: A literal has a cell with its value.
* `Program.holdsLiterals_of_untouched`: It keeps its value unless it is overwritten.
* `Program.spells_of_untouched`: A string that is not overwritten is spelled as declared.
* `Program.prints_as_declared`: When a string is printed as declared.
-/

namespace AccumulatorMachine

/-- What a machine has printed, if it has printed characters. -/
theorem Machine.output_of_printed {m m' : Machine} {text : String}
    (h : m'.core.printed = (text.toList.map String.singleton).reverse ++ m.core.printed) :
    m'.output = m.output ++ text := by
  have hprinted : m'.path.printed
      = (text.toList.map String.singleton).reverse ++ m.path.printed := h
  have htext : String.join (text.toList.map String.singleton) = text := by
    rw [← String.toList_inj, String.toList_join, List.flatMap_map]
    simp
  rw [output, output, DataPath.tokens, DataPath.tokens, hprinted, List.reverse_append,
    List.reverse_reverse, String.join_append, htext]

namespace Program

/-- The cells of the literals `0` and `1`, as a statement names them, hold their values. -/
def HoldsLiterals (program : Program) (dataBase : Int) (k : Nat) (m : Machine) : Prop :=
  ∀ n ∈ [0, 1], ∀ a, program.addressAt? dataBase k (.ofInt n) = some a →
    m.core.memory.read a = some (.data n)

variable {program : Program} {dataBase : Int} {compiled : Compiled}

section Compiled

variable (h : program.compile dataBase = .ok compiled)

include h

/-- The allocator never hands out the scratch cells. -/
theorem unreserved_of_bound {k : Nat} {table : SymbolTable}
    (htable : program.tableAt? dataBase k = some table) {name : String} {a : Int}
    (ha : table.addressOf? name = some a) : SymbolTable.isReserved a = false :=
  compile_unreserved h (((compile_tableAt_within h htable).bound name _ ha).mono
    (compile_tableAt_grows h htable))

/-- The block that prints a string works on the cells of the literals `0` and `1` and of the name,
    which are no scratch cells. -/
theorem compile_outputStr {k : Nat} {name : String}
    (hk : program.formAt? k = some (.outputStr name)) :
    ∃ block zero one string cursor, compiled.blocks[k]? = some block ∧
      block.code = Lowering.outputStrCode zero one string cursor ∧
      program.addressAt? dataBase k (.ofInt 0) = some zero ∧
      program.addressAt? dataBase k (.ofInt 1) = some one ∧
      program.addressAt? dataBase k (.name name) = some string ∧
      one ≠ counterCell ∧ string ≠ counterCell := by
  rcases Option.map_eq_some_iff.mp hk with ⟨s, hs, hf⟩
  rcases compile_tables h hs (by rw [hf]; trivial) with
    ⟨block, before, after, hblock, hbefore, hafter, hform⟩
  rw [hf] at hform
  rcases Lowering.form_outputStr_ok hform with ⟨zero, one, string, mid, hzero, hone, hstring, hcode⟩
  have hzero' := Lowering.literal_keeps hone (Lowering.literal_binds hzero)
  have hone' := Lowering.literal_binds hone
  have hscratch : ∀ {other a}, after.addressOf? other = some a → a ≠ counterCell := by
    rintro other a ha rfl
    cases unreserved_of_bound h hafter ha
  exact ⟨block, zero, one, string, after.cursor, hblock, hcode,
    (addressAt?_eq hafter _).trans hzero', (addressAt?_eq hafter _).trans hone',
    (addressAt?_eq hafter _).trans hstring, hscratch hone', hscratch hstring⟩

section Machine

variable (hapart : compiled.KeepsApart dataBase)
  (hmax : (compiled.code.length : Int) ≤ Word.maximum) {k : Nat} {name : String}
  (hk : program.formAt? k = some (.outputStr name)) {m : Machine} {c : Core}
  (hat : m.At (compiled.start k) c) (hready : c.memory.Ready compiled.code)

include hapart hmax hk hat hready

/-- A machine in front of a block that prints a string prints what is spelled with the numbers in
    the cells of the two literals, and comes to the next statement. -/
theorem prints_of_spells {zero one string start step length : Int} {text : List Char}
    (hzero : program.addressAt? dataBase k (.ofInt 0) = some zero)
    (hone : program.addressAt? dataBase k (.ofInt 1) = some one)
    (hstring : program.addressAt? dataBase k (.name name) = some string)
    (hstart : c.memory.read zero = some (.data start))
    (hstep : c.memory.read one = some (.data step))
    (hlength : c.memory.read string = some (.data length))
    (hspells : Spells c.memory string length step start text) :
    ∃ steps m', Machine.Passes (compiled.start k) (compiled.start (k + 1)) steps m m' ∧
      m'.halted = false ∧ m'.pc = compiled.start (k + 1) ∧
      Prints m.core.toStore text m'.core.toStore := by
  rcases compile_outputStr h hk with
    ⟨block, zero', one', string', cursor, hblock, hcode, hzero', hone', hstring', hfree, hfree'⟩
  -- The code was made with the very cells that the operands stand for.
  rw [hzero] at hzero'
  cases hzero'
  rw [hone] at hone'
  cases hone'
  rw [hstring] at hstring'
  cases hstring'
  have hself : Fragment.SelfContained block.code := by
    rw [hcode]
    exact Fragment.selfContained_outputStr zero one string cursor
  have hfinishes : ∃ c', Fragment.Steps block.code (0, c) (14, c') ∧
      Prints c.toStore text c'.toStore := by
    rw [hcode]
    exact Fragment.outputStr_finishes hlength hstep hfree' hfree hstart hspells
  rcases hfinishes with ⟨c', hsteps, hprints⟩
  rcases Structured.passes_of_steps h hapart hmax hblock (hself.fits (compiled.sits hblock)) hat
    hready hsteps with ⟨steps, m', hpass, hat', -⟩
  have hend : compiled.start k + 14 = compiled.start (k + 1) := by
    rw [Compiled.start_succ hblock, hcode]
    rfl
  rw [hend] at hat'
  exact ⟨steps, m', hpass, hat'.running, hat'.pc_eq, by rwa [hat.core_eq, hat'.core_eq]⟩

end Machine

/-- The name of a literal, once it is bound, has a cell with its value, as long as all names of the
    program are words and all its literals have the values that they spell. -/
theorem literal_cell (hfree : program.LoopFree)
    (hfaithful : ∀ s ∈ program.statements, s.form.Faithful) {spelling : String} {value : Int}
    (hspelling : Decimal.word? spelling.toList = some value) {k : Nat} {table : SymbolTable}
    (htable : program.tableAt? dataBase k = some table) {a : Int}
    (ha : table.addressOf? spelling = some a) : (⟨.data value, a⟩ : Cell) ∈ table.cells := by
  -- The first table has no names, and every change keeps the property.
  refine table_induction h
    (P := fun table => ∀ a, table.addressOf? spelling = some a →
      (⟨.data value, a⟩ : Cell) ∈ table.cells)
    (Nat.zero_le k) hfree (fun _ s _ _ _ _ hs hstep hcell _ hbound => ?_) (tableAt?_zero h)
    htable ?_ a ha
  · rcases (hfaithful s (List.mem_of_getElem? hs)).spells hspelling with ⟨hvalue, hrebinds⟩
    exact hstep.spells hvalue hrebinds hcell hbound
  · intro b hb
    cases hb

/-- Where the literals are not on the left side of an operator before, their cells hold their
    values in a machine that has left alone what was spared. -/
theorem holdsLiterals_of_untouched (hfree : program.LoopFree)
    (hfaithful : ∀ s ∈ program.statements, s.form.Faithful) {k : Nat} {name : String}
    (hk : program.formAt? k = some (.outputStr name))
    (hliterals : ∀ n ∈ [0, 1], ¬ program.Overwrites dataBase compiled k (.ofInt n))
    {m : Machine} {c : Core} (hm : compiled.Untouched m (compiled.start k) c)
    (hnext : compiled.start k < compiled.start (k + 1)) : program.HoldsLiterals dataBase k m := by
  intro n hn a ha
  have hspelling : Decimal.word? (Operand.ofInt n).render.toList = some n := by
    rcases List.mem_cons.mp hn with rfl | hn
    · decide
    · cases List.mem_singleton.mp hn
      decide
  rcases compile_tableAt h (k + 1) with ⟨table, htable, -⟩
  have hbound : table.addressOf? (Operand.ofInt n).render = some a :=
    (addressAt?_eq htable _).symm.trans ha
  have hcell := (compile_tableAt_grows h htable).mem_cells
    (literal_cell h hfree hfaithful hspelling htable hbound)
  have hspares : compiled.Spares k a := spares_of_cell h hfree hk (fun _ _ hf => nomatch hf) hcell
    fun hleft => hliterals n hn ⟨a, ha, hleft⟩
  rw [hm.place.core_eq, hm.cells k a hnext hspares]
  exact compile_read_cell h hcell

/-- A string whose name is not on the left side of an operator before is spelled as declared, in a
    machine that has left alone what was spared. -/
theorem spells_of_untouched (hfree : program.LoopFree)
    (hwords : ∀ a, compiled.symbols.HandedOut dataBase a → Word.InRange a)
    {k : Nat} {name text : String} (hk : program.formAt? k = some (.outputStr name))
    (hbinds : program.BindsString compiled k name text)
    (hlength : (text.toList.length : Int) ≤ Word.maximum)
    (hkept : ¬ program.Overwrites dataBase compiled k (.name name))
    {m : Machine} {c : Core} (hm : compiled.Untouched m (compiled.start k) c)
    (hnext : compiled.start k < compiled.start (k + 1)) :
    ∃ a, program.addressAt? dataBase k (.name name) = some a ∧
      c.memory.read a = some (.data text.toList.length) ∧
      Spells c.memory a text.toList.length 1 0 text.toList := by
  rcases declared_string h hfree hk (fun _ _ hf => nomatch hf) id hbinds with
    ⟨a, ha, hcell, hspares, hchars⟩
  have hread : ∀ cell ∈ compiled.symbols.cells, compiled.Spares k cell.address →
      c.memory.read cell.address = some cell.value := fun cell hcell hspares =>
    (hm.cells k cell.address hnext hspares).trans (compile_read_cell h hcell)
  refine ⟨a, ha, hread _ hcell (hspares fun hleft => hkept ⟨a, ha, hleft⟩), ?_⟩
  refine Spells.declared 0 (by simp) hlength (fun n hn hle => ?_) fun n ch hch => ?_
  · -- Every address that is computed is that of a character.
    have hch : text.toList[n - 1]? = some text.toList[n - 1] := List.getElem?_eq_getElem (by omega)
    have hout := ((compile_cells h).1 _ (hchars _ _ hch).1).2.1
    have hplace : a - ((n - 1 : Nat) + 1 : Nat) = a - (n : Int) := by omega
    rw [hplace] at hout
    refine ⟨hwords _ hout, fun heq => ?_⟩
    have hreserved := compile_unreserved h hout
    rw [heq] at hreserved
    cases hreserved
  · rw [Nat.zero_add]
    exact hread _ (hchars n ch hch).1 (hchars n ch hch).2

end Compiled

/-- A string is printed as declared. When a run of a program without loops comes to a block that
    prints a string, whose name is bound by a declaration and was not on the left side of an
    operator before, then the block prints the declared text and comes to the next statement,
    provided that the cells of the literals `0` and `1` hold their values. They do unless they were
    on the left side of an operator before. -/
theorem prints_as_declared {source : List Char} (hsource : Program.parse? source = .ok program)
    (h : program.compile dataBase = .ok compiled) (hfree : program.LoopFree)
    (hapart : compiled.KeepsApart dataBase) (hmax : (compiled.code.length : Int) ≤ Word.maximum)
    (hwords : ∀ a, compiled.symbols.HandedOut dataBase a → Word.InRange a)
    {k : Nat} {name text : String} (hk : program.formAt? k = some (.outputStr name))
    (hbinds : program.BindsString compiled k name text)
    (hlength : (text.toList.length : Int) ≤ Word.maximum)
    (hkept : ¬ program.Overwrites dataBase compiled k (.name name))
    {input : List Char} {n : Nat} {m : Machine}
    (hruns : Machine.runFor n (.load compiled.image input none) = (m, none))
    (hrunning : m.halted = false) (hpc : m.pc = compiled.start k) :
    ((∀ n ∈ [0, 1], ¬ program.Overwrites dataBase compiled k (.ofInt n)) →
      program.HoldsLiterals dataBase k m) ∧
    (program.HoldsLiterals dataBase k m → ∃ steps m',
      Machine.Passes (compiled.start k) (compiled.start (k + 1)) steps m m' ∧
        m'.halted = false ∧ m'.pc = compiled.start (k + 1) ∧ m'.output = m.output ++ text ∧
        Prints m.core.toStore text.toList m'.core.toStore) := by
  rcases untouched_of_runFor h hfree hapart hmax hruns hrunning with ⟨p, c, hm⟩
  obtain rfl : p = compiled.start k := by
    have hplace : m.pc = p := hm.place.pc_eq
    omega
  rcases compile_outputStr h hk with
    ⟨block, zero, one, string, cursor, hblock, hcode, hzero, hone, -⟩
  -- The machine is in front of the statement, so it has not yet passed its end.
  have hnext : compiled.start k < compiled.start (k + 1) := by
    rw [Compiled.start_succ hblock, hcode]
    exact Nat.lt_add_of_pos_right (Nat.zero_lt_succ 13)
  refine ⟨fun hliterals => holdsLiterals_of_untouched h hfree (parse?_faithful hsource) hk hliterals
    hm hnext, fun hholds => ?_⟩
  rcases spells_of_untouched h hfree hwords hk hbinds hlength hkept hm hnext with
    ⟨a, ha, hcell, hspells⟩
  have hstart := hholds 0 (by decide) zero hzero
  have hstep := hholds 1 (by decide) one hone
  rw [hm.place.core_eq] at hstart hstep
  rcases prints_of_spells h hapart hmax hk hm.place hm.ready hzero hone ha hstart hstep hcell
    hspells with ⟨steps, m', hpass, hrunning', hpc', hprints⟩
  exact ⟨steps, m', hpass, hrunning', hpc', Machine.output_of_printed hprints.printed, hprints⟩

/-- A literal on the left side of an operator is no longer what it says. The counter of the string
    starts with one here, so that its first character is left out. -/
example : (do
    let source := "string s hi; new x 0 + 1; output_str(s)".toList
    let compiled ← (Compiled.ofSource? source 1000).toOption
    let execution ← (execute compiled.image [] none).toOption
    return execution.output) = some "i" := by
  decide +kernel

/-- A program that prints a string after it has added two literals. -/
def greets : Program where
  statements := [⟨.string "s" "hi", ⟨0, 11⟩⟩,
    ⟨.new "x" ⟨[(.operand (.literal "2" 2), ⟨19, 20⟩), (.operator .add, ⟨21, 22⟩),
      (.operand (.literal "5" 5), ⟨23, 24⟩)], ⟨19, 24⟩⟩, ⟨13, 24⟩⟩,
    ⟨.outputStr "s", ⟨26, 39⟩⟩]

/-- The same program, compiled. -/
def greetsCompiled : Compiled where
  blocks := [⟨⟨0, 11⟩, [], false, none⟩,
    ⟨⟨13, 24⟩, Reduction.operatorCode .add 997 996, false, none⟩,
    ⟨⟨26, 39⟩, Lowering.outputStrCode 995 994 1000 993, false, none⟩]
  symbols := ⟨[("s", ⟨1000, .str 2⟩), ("2", ⟨997, .literal⟩), ("5", ⟨996, .literal⟩),
    ("x", ⟨997, .aliased⟩), ("0", ⟨995, .literal⟩), ("1", ⟨994, .literal⟩)],
    [⟨.data 2, 1000⟩, ⟨.data 104, 999⟩, ⟨.data 105, 998⟩, ⟨.data 2, 997⟩, ⟨.data 5, 996⟩,
      ⟨.data 0, 995⟩, ⟨.data 1, 994⟩], 993⟩

/-- The program comes to its last statement after three steps and prints the string there. -/
theorem greets_prints :
    Program.parse? "string s hi; new x 2 + 5; output_str(s)".toList = .ok greets ∧
    greets.compile 1000 = .ok greetsCompiled ∧ ∃ m,
      Machine.runFor 3 (.load greetsCompiled.image [] none) = (m, none) ∧
      greets.HoldsLiterals 1000 2 m ∧ ∃ steps m', Machine.Passes 3 17 steps m m' ∧
        m'.halted = false ∧ m'.pc = 17 ∧ m'.output = "hi" := by
  have hsource : Program.parse? "string s hi; new x 2 + 5; output_str(s)".toList = .ok greets := by
    decide +kernel
  have hcompile : greets.compile 1000 = .ok greetsCompiled := rfl
  have hfree : greets.LoopFree := by
    simp [LoopFree, greets, Statement.Form.Plain]
  have hlength : greetsCompiled.code.length = 17 := rfl
  have hapart : greetsCompiled.KeepsApart 1000 := by
    refine ⟨fun a ha => Or.inr ?_, fun a ha _ => ?_⟩
    · have hlow : (993 : Int) < a := ha.1
      omega
    · rcases SymbolTable.isReserved_iff.mp ha with rfl | rfl
      · decide
      · decide
  have hwords : ∀ a, greetsCompiled.symbols.HandedOut 1000 a → Word.InRange a := by
    rintro a ⟨hlow, hhigh⟩
    have hcursor : greetsCompiled.symbols.cursor = 993 := rfl
    have hmin : Word.minimum = -9223372036854775808 := rfl
    have hmax : Word.maximum = 9223372036854775807 := rfl
    exact ⟨by omega, by omega⟩
  -- The one expression stores to the cell of the literal `2` only.
  have hleft : ∀ a, greets.LeftSide greetsCompiled 2 a → a = 997 := by
    intro a ha
    rcases ha.store with ⟨_ | _ | j, hj, name, e, block, hf, hblock, hmem⟩
    · cases hf
    · cases hblock
      simpa [Reduction.operatorCode, BinaryOperator.opcode] using hmem
    · omega
  have hkept : ∀ operand a, greets.addressAt? 1000 2 operand = some a → a ≠ 997 →
      ¬ greets.Overwrites 1000 greetsCompiled 2 operand := by
    rintro operand a ha hne ⟨b, hb, hleftSide⟩
    rw [ha] at hb
    cases hb
    exact hne (hleft a hleftSide)
  have hbinds : greets.BindsString greetsCompiled 2 "s" "hi" := by
    refine ⟨0, by decide, _, rfl, rfl, rfl, fun j f hij hjk hf => ?_⟩
    obtain rfl : j = 1 := by omega
    cases hf
    exact fun heq : "x" = "s" => absurd heq (by decide)
  have hruns : Machine.runFor 3 (.load greetsCompiled.image [] none)
      = ((Machine.runFor 3 (.load greetsCompiled.image [] none)).1, none) := rfl
  rcases prints_as_declared (k := 2) hsource hcompile hfree hapart (by rw [hlength]; decide) hwords
    rfl hbinds (by decide) (hkept _ 1000 rfl (by decide)) hruns rfl rfl with ⟨hholds, hprints⟩
  have hliterals := hholds fun n hn => by
    rcases List.mem_cons.mp hn with rfl | hn
    · exact hkept _ 995 rfl (by decide)
    · cases List.mem_singleton.mp hn
      exact hkept _ 994 rfl (by decide)
  rcases hprints hliterals with ⟨steps, m', hpass, hrunning, hpc, houtput, -⟩
  exact ⟨hsource, hcompile, _, hruns, hliterals, steps, m', hpass, hrunning, hpc, houtput⟩

end Program

end AccumulatorMachine
