import AccumulatorMachine.Proofs.Compilation

/-!
# The End of the Code

How a program ends that computes with its own numbers and has no loops.

No instruction of such a program is a halt. The program ends because the machine fetches from the
address behind the code and finds no cell there. All addresses it names have initial cells that
hold numbers, so until then nothing can go wrong but arithmetic.

That there is no cell behind the code is up to the compiler, and its check is short of it by one
address. It refuses cells at the addresses of the code, but not at the address where the code
ends. A program with a data cell there runs all its statements and then fails, because it fetches
a number.

## Main definitions

* `Program.Arithmetic`: A program that only declares, computes and prints integers.
* `Compiled.Computes`: An instruction of such a program.
* `Compiled.Sound`: A memory with the code, and with numbers in all initial cells.
* `Compiled.FailsInStatement`, `Compiled.HaltsAtEnd`, `Compiled.FetchesDataAtEnd`: The ways to end.

## Theorems

* `Compiled.Computes.effect`: An instruction of such a program goes on by one or fails in its
  arithmetic.
* `Compiled.Sound.effect`: An instruction of such a program keeps the memory sound.
* `Compiled.runFor_ends`: A run from any place in the code ends in one of the three ways.
* `Program.run_ends_iff`: When a program ends properly.
* `Program.not_halts_of_data_at_end`: A program that does not.
-/

namespace AccumulatorMachine

/-- A program without loops that only declares, computes and prints integers. -/
def Program.Arithmetic (program : Program) : Prop :=
  ∀ s ∈ program.statements, (∃ name value, s.form = .int name value) ∨
    (∃ name e, s.form = .new name e) ∨ ∃ name, s.form = .outputInt name

namespace Compiled

/-- An instruction that computes with an initial cell, or prints an integer. -/
def Computes (compiled : Compiled) (i : Instruction) : Prop :=
  ((i.opcode = .read ∨ i.opcode = .write ∨ ∃ operator : BinaryOperator,
      i.opcode = operator.opcode) ∧ ∃ cell ∈ compiled.symbols.cells, cell.address = i.operand) ∨
    (i.opcode = .output ∧ i.operand = integerMode)

/-- A memory that holds the code and has numbers in all initial cells. Where the code ends there is
    no cell unless there is an initial one. -/
structure Sound (compiled : Compiled) (memory : Memory) : Prop where
  holds : memory.Holds compiled.code
  cells : ∀ cell ∈ compiled.symbols.cells, ∃ value, memory.read cell.address = some (.data value)
  ends : (∀ cell ∈ compiled.symbols.cells, cell.address ≠ compiled.code.length) →
    memory.read compiled.code.length = none

variable {compiled : Compiled} {c c' : Core} {i : Instruction}

/-- An instruction that computes goes on by one, or fails in its arithmetic. -/
theorem Computes.effect (h : compiled.Computes i) (hm : compiled.Sound c.memory) :
    (∃ c', c.effect i = .ok (c', 1)) ∨
      ∃ fault, c.effect i = .error fault ∧
        (fault = .divisionByZero ∨ fault = .arithmeticOverflow) := by
  obtain ⟨opcode, operand⟩ := i
  rcases h with ⟨hop, cell, hcell, rfl⟩ | ⟨rfl, rfl⟩
  · rcases hm.cells cell hcell with ⟨value, hvalue⟩
    -- All operations on a cell are a computation followed by a move.
    have hcompute : ∀ op : ArithmeticOp, c.effect ⟨opcode, cell.address⟩
        = (do return (← c.compute op cell.address, 1)) →
        (∃ c', c.effect ⟨opcode, cell.address⟩ = .ok (c', 1)) ∨
          ∃ fault, c.effect ⟨opcode, cell.address⟩ = .error fault ∧
            (fault = .divisionByZero ∨ fault = .arithmeticOverflow) := by
      intro op heffect
      rw [heffect, Core.compute_of_data hvalue]
      cases hresult : op.apply c.acc value with
      | ok result => exact Or.inl ⟨c.setAccumulator result, rfl⟩
      | error fault => exact Or.inr ⟨fault, rfl, ArithmeticOp.apply_error hresult⟩
    -- A store cannot fail, and an operation fails in its arithmetic at most.
    rcases hop with rfl | rfl | ⟨operator, rfl⟩
    · exact hcompute .replace rfl
    · exact Or.inl ⟨c.store cell.address, rfl⟩
    · cases operator with
      | add => exact hcompute .add rfl
      | subtract => exact hcompute .subtract rfl
      | multiply => exact hcompute .multiply rfl
      | divide => exact hcompute .divide rfl
  · exact Or.inl ⟨{ c with printed := Decimal.ofInt c.acc :: c.printed }, rfl⟩

theorem Computes.runs (h : compiled.Computes i) :
    i.opcode ≠ .halt ∧ i.opcode ≠ .input := by
  rcases h with ⟨hop | hop | ⟨operator, hop⟩, -⟩ | ⟨hop, -⟩
  · rw [hop]
    decide
  · rw [hop]
    decide
  · rw [hop]
    cases operator <;> decide
  · rw [hop]
    decide

/-- An instruction that computes only stores to initial cells. -/
theorem Computes.stores (h : compiled.Computes i) (hop : i.opcode = .write) :
    ∃ cell ∈ compiled.symbols.cells, cell.address = i.operand := by
  rcases h with ⟨-, hcell⟩ | ⟨houtput, -⟩
  · exact hcell
  · rw [hop] at houtput
    cases houtput

theorem Sound.effect (hm : compiled.Sound c.memory) (h : compiled.Computes i) {distance : Int}
    (hcode : ∀ cell ∈ compiled.symbols.cells,
      ¬ (0 ≤ cell.address ∧ cell.address < compiled.code.length))
    (he : c.effect i = .ok (c', distance)) : compiled.Sound c'.memory where
  holds := by
    intro n j hj
    have hlt : n < compiled.code.length := (List.getElem?_eq_some_iff.mp hj).1
    rw [Core.read_effect he fun hop => ?_]
    · exact hm.holds n j hj
    · rcases h.stores hop with ⟨cell, hcell, haddress⟩
      have := hcode cell hcell
      omega
  cells := by
    intro cell hcell
    -- The cell that is stored to has a new number, and the others have the old ones.
    by_cases hstore : i.opcode = .write ∧ i.operand = cell.address
    · obtain ⟨opcode, operand⟩ := i
      rcases hstore with ⟨rfl, rfl⟩
      cases he
      exact ⟨c.acc, by rw [Core.store, Memory.read_write, if_pos rfl]⟩
    · rw [Core.read_effect he fun hop hoperand => hstore ⟨hop, hoperand⟩]
      exact hm.cells cell hcell
  ends := by
    intro hnone
    rw [Core.read_effect he fun hop => ?_]
    · exact hm.ends hnone
    · rcases h.stores hop with ⟨cell, hcell, haddress⟩
      rw [← haddress]
      exact hnone cell hcell

/-- A run that fails in the arithmetic of a statement. -/
def FailsInStatement (compiled : Compiled) (outcome : Machine × Option Failure) : Prop :=
  ∃ m failure k, outcome = (m, some failure) ∧
    (failure.fault = .divisionByZero ∨ failure.fault = .arithmeticOverflow) ∧
    compiled.InBlock k failure.pc

/-- A run that halts because there is no cell where the code ends. -/
def HaltsAtEnd (compiled : Compiled) (outcome : Machine × Option Failure) : Prop :=
  ∃ m, outcome = (m, none) ∧ m.halted = true ∧ m.pc = compiled.code.length ∧
    m.path.memory.read compiled.code.length = none

/-- A run that fails because there is a number where the code ends. -/
def FetchesDataAtEnd (compiled : Compiled) (outcome : Machine × Option Failure) : Prop :=
  ∃ m value tick, outcome = (m, some
    ⟨.notAnInstruction compiled.code.length value, compiled.code.length, tick⟩)

/-- A run ends at the end of the code, one way or the other. -/
theorem runFor_at_end {m : Machine} (hat : m.At compiled.code.length c)
    (hm : compiled.Sound c.memory) (fuel : Nat) :
    ((∀ cell ∈ compiled.symbols.cells, cell.address ≠ compiled.code.length) ∧
      compiled.HaltsAtEnd (Machine.runFor (fuel + 1) m)) ∨
    ((∃ cell ∈ compiled.symbols.cells, cell.address = compiled.code.length) ∧
      compiled.FetchesDataAtEnd (Machine.runFor (fuel + 1) m)) := by
  have hrunning : ¬ m.halted = true := by rw [hat.running]; decide
  rw [Machine.runFor, if_neg hrunning]
  -- An initial cell at this address is still there, and otherwise there is no cell.
  by_cases hcell : ∃ cell ∈ compiled.symbols.cells, cell.address = compiled.code.length
  · refine Or.inr ⟨hcell, ?_⟩
    rcases hcell with ⟨cell, hmem, haddress⟩
    rcases hm.cells cell hmem with ⟨value, hvalue⟩
    rw [haddress] at hvalue
    rcases Machine.step_of_data hat hvalue with ⟨m', tick, hstep⟩
    rw [hstep]
    exact ⟨m', value, tick, rfl⟩
  · have hnone : ∀ cell ∈ compiled.symbols.cells, cell.address ≠ compiled.code.length :=
      fun cell hmem haddress => hcell ⟨cell, hmem, haddress⟩
    refine Or.inl ⟨hnone, ?_⟩
    have habsent := hm.ends hnone
    rcases Machine.step_of_absent hat habsent with ⟨m', hstep, hhalted, hpc, hcore⟩
    rw [hstep]
    refine ⟨m', Machine.runFor_of_halted hhalted fuel, hhalted, hpc, ?_⟩
    rw [← hcore] at habsent
    exact habsent

/-- A run from any place in the code ends in one of three ways. The number of steps is bounded by
    the room that the program counter has. -/
theorem runFor_ends (hcomputes : ∀ i ∈ compiled.code, compiled.Computes i)
    (hcode : ∀ cell ∈ compiled.symbols.cells,
      ¬ (0 ≤ cell.address ∧ cell.address < compiled.code.length))
    {fuel n : Nat} {m : Machine} (hat : m.At n c) (hm : compiled.Sound c.memory)
    (hn : n ≤ compiled.code.length) (hmax : n ≤ Word.maximum)
    (hfuel : Word.maximum + 1 < n + fuel) :
    compiled.FailsInStatement (Machine.runFor fuel m) ∨
    ((∀ cell ∈ compiled.symbols.cells, cell.address ≠ compiled.code.length) ∧
      compiled.HaltsAtEnd (Machine.runFor fuel m)) ∨
    ((∃ cell ∈ compiled.symbols.cells, cell.address = compiled.code.length) ∧
      compiled.FetchesDataAtEnd (Machine.runFor fuel m)) := by
  -- The induction is on the fuel. Each step uses up one unit and moves on by one.
  induction fuel generalizing n m c with
  | zero => omega
  | succ fuel ih =>
    by_cases hend : n = compiled.code.length
    · rw [hend] at hat
      exact Or.inr (runFor_at_end hat hm fuel)
    · have hlt : n < compiled.code.length := by omega
      have hi : compiled.code[n]? = some compiled.code[n] := List.getElem?_eq_getElem hlt
      have hcomp := hcomputes _ (List.getElem_mem hlt)
      have hread := hm.holds n _ hi
      have hinput : compiled.code[n].opcode = .input → 0 ≤ (n : Int) ∧
          0 ≤ compiled.code[n].operand ∧ n + compiled.code[n].operand + 1 ≤ Word.maximum :=
        fun hop => absurd hop hcomp.runs.2
      have hrunning : ¬ m.halted = true := by rw [hat.running]; decide
      have hmin : Word.minimum ≤ 0 := by decide
      rcases inBlock_of_lt hlt with ⟨k, hk⟩
      rw [Machine.runFor, if_neg hrunning]
      rcases hcomp.effect hm with ⟨c', he⟩ | ⟨fault, he, hkind⟩
      · by_cases hroom : (n : Int) + 1 ≤ Word.maximum
        · rcases Machine.step_of_effect hat hread hcomp.runs.1 hinput he ⟨by omega, hroom⟩ with
            ⟨m', hstep, hat'⟩
          rw [hstep]
          have hat'' : m'.At ((n + 1 : Nat) : Int) c' := hat'
          exact ih hat'' (hm.effect hcomp hcode he) (by omega) (by omega) (by omega)
        · -- The program counter has no room to move on.
          rcases Machine.step_of_overflow hat hread hcomp.runs.1 hinput he
            (fun hin => hroom hin.2) with ⟨m', tick, hstep⟩
          rw [hstep]
          exact Or.inl ⟨m', _, k, rfl, Or.inr rfl, hk⟩
      · rcases Machine.step_of_fault hat hread hcomp.runs.1 he with ⟨m', tick, hstep⟩
        rw [hstep]
        exact Or.inl ⟨m', _, k, rfl, hkind, hk⟩

end Compiled

namespace Program

variable {program : Program} {dataBase : Int} {compiled : Compiled}

/-- All addresses that are handed out have cells, since no integer is read. -/
theorem Arithmetic.cell_of_handedOut (harith : program.Arithmetic)
    (h : program.compile dataBase = .ok compiled) {a : Int}
    (ha : compiled.symbols.HandedOut dataBase a) :
    ∃ cell ∈ compiled.symbols.cells, cell.address = a := by
  rcases compile_ok h with ⟨pairs, -, hlowering, -⟩
  rcases Lowering.statements_accounts hlowering (.empty dataBase) a ha.1 ha.2 with
    hcell | ⟨⟨s, hs, name, hform⟩, -⟩
  · exact hcell
  · -- Only a statement that reads an integer stores to an address without a cell.
    rcases harith s hs with ⟨other, value, hs⟩ | ⟨other, e, hs⟩ | ⟨other, hs⟩
    · rw [hform] at hs
      cases hs
    · rw [hform] at hs
      cases hs
    · rw [hform] at hs
      cases hs

theorem Arithmetic.computes (harith : program.Arithmetic)
    (h : program.compile dataBase = .ok compiled) : ∀ i ∈ compiled.code, compiled.Computes i := by
  intro i hi
  rcases List.mem_flatMap.mp hi with ⟨block, hblock, hcode⟩
  rcases compile_block h hblock with
    ⟨_, k, s, openedBefore, before, openedAfter, after, hs, hlowers, hwithin, hgrows⟩
  have hplain : s.form.Plain := by
    rcases harith s (List.mem_of_getElem? hs) with ⟨_, _, hf⟩ | ⟨_, _, hf⟩ | ⟨_, hf⟩ <;> rw [hf] <;>
      trivial
  rcases hlowers.form_of_plain hplain with ⟨redeclared, hform⟩
  -- A declaration has no code. An expression only computes, and an output reads a cell and prints.
  rcases harith s (List.mem_of_getElem? hs) with ⟨name, value, hf⟩ | ⟨name, e, hf⟩ | ⟨name, hf⟩
  · rw [hf] at hform
    rw [(Lowering.form_int_ok hform).1] at hcode
    cases hcode
  · rw [hf] at hform
    rcases Lowering.form_new_ok hform with ⟨a, mid, he, rfl⟩
    rcases Lowering.expression_ok he hwithin with ⟨-, -, -, -, hsteps⟩
    rcases hsteps.mem hcode with ⟨hop, hcell⟩
    exact Or.inl ⟨hop, harith.cell_of_handedOut h
      ((hcell.mono (SymbolTable.Grows.bind mid name a)).mono hgrows)⟩
  · rw [hf] at hform
    rcases Lowering.form_outputInt_ok hform with ⟨a, ha, hblock', rfl⟩
    rw [hblock'] at hcode
    simp only [List.mem_cons, List.not_mem_nil, or_false] at hcode
    rcases hcode with rfl | rfl
    · exact Or.inl ⟨Or.inl rfl, harith.cell_of_handedOut h ((hwithin.bound name a ha).mono hgrows)⟩
    · exact Or.inr ⟨rfl, rfl⟩

/-- The memory that a program starts with is sound. -/
theorem compile_sound (h : program.compile dataBase = .ok compiled) :
    compiled.Sound compiled.memory where
  holds := compile_holds h
  cells := by
    intro cell hcell
    rcases ((compile_cells h).1 cell hcell).1 with ⟨value, hvalue⟩
    exact ⟨value, by rw [compile_read_cell h hcell, hvalue]⟩
  ends := fun hnone => compiled.memory_none (by omega) hnone

/-- A program that only declares, computes and prints integers fails in its arithmetic or halts at
    the end of its code, exactly unless there is a data cell at the address where the code ends. If
    there is one, a program that does not fail before fails because it fetches that cell. -/
theorem run_ends_iff (h : program.compile dataBase = .ok compiled) (harith : program.Arithmetic)
    (input : List Char) :
    (compiled.FailsInStatement (Machine.load compiled.image input none).run ∨
        compiled.HaltsAtEnd (Machine.load compiled.image input none).run ↔
      compiled.FailsInStatement (Machine.load compiled.image input none).run ∨
        ∀ cell ∈ compiled.symbols.cells, cell.address ≠ compiled.code.length) ∧
    (compiled.FailsInStatement (Machine.load compiled.image input none).run ∨
      compiled.HaltsAtEnd (Machine.load compiled.image input none).run ∨
      compiled.FetchesDataAtEnd (Machine.load compiled.image input none).run) := by
  have hfuel : Word.maximum + 1 < ((0 : Nat) : Int) + ((Nat.pow 2 64 : Nat) : Int) := by decide
  have hends := Compiled.runFor_ends (harith.computes h) (fun cell hcell =>
    ((compile_cells h).1 cell hcell).2.2) (compiled.load_at input) (compile_sound h)
    (Nat.zero_le _) (by decide) hfuel
  have hrun : (Machine.load compiled.image input none).run
      = Machine.runFor (Nat.pow 2 64) (Machine.load compiled.image input none) := rfl
  rw [hrun]
  -- The three ways to end exclude each other, as they differ in their outcomes.
  rcases hends with hfails | ⟨hnone, hhalts⟩ | ⟨⟨cell, hcell, haddress⟩, hfetches⟩
  · exact ⟨⟨fun _ => Or.inl hfails, fun _ => Or.inl hfails⟩, Or.inl hfails⟩
  · exact ⟨⟨fun _ => Or.inr hnone, fun _ => Or.inr hhalts⟩, Or.inr (Or.inl hhalts)⟩
  · refine ⟨⟨fun hgood => ?_, fun hgood => ?_⟩, Or.inr (Or.inr hfetches)⟩
    · rcases hgood with hfails | ⟨m, hm, -⟩
      · exact Or.inl hfails
      · -- A run has only one outcome.
        rcases hfetches with ⟨m', value, tick, hm'⟩
        rw [hm'] at hm
        cases hm
    · rcases hgood with hfails | hnone
      · exact Or.inl hfails
      · exact absurd haddress (hnone cell hcell)

/-- A program that prints a variable. -/
def printsOne : Program := ⟨[⟨.int "a" 1, ⟨0, 7⟩⟩, ⟨.outputInt "a", ⟨9, 22⟩⟩]⟩

/-- The same program, compiled so that its variable gets the address where its code ends. -/
def printsOneBeforeData : Compiled :=
  ⟨[⟨⟨0, 7⟩, [], false, none⟩, ⟨⟨9, 22⟩, [⟨.read, 2⟩, ⟨.output, integerMode⟩], false, none⟩],
    ⟨[("a", ⟨2, .int⟩)], [⟨.data 1, 2⟩], 1⟩⟩

/-- The compiler accepts a program that does not end properly. -/
theorem not_halts_of_data_at_end :
    printsOne.compile 2 = .ok printsOneBeforeData ∧ printsOne.Arithmetic ∧
      ¬ (printsOneBeforeData.FailsInStatement (Machine.load printsOneBeforeData.image [] none).run ∨
        printsOneBeforeData.HaltsAtEnd (Machine.load printsOneBeforeData.image [] none).run) := by
  have hcompile : printsOne.compile 2 = .ok printsOneBeforeData := rfl
  have harith : printsOne.Arithmetic := by simp [Program.Arithmetic, printsOne]
  have hfailure : (Machine.load printsOneBeforeData.image [] none).run.2
      = some ⟨.notAnInstruction 2 1, 2, 6⟩ := rfl
  refine ⟨hcompile, harith, fun hends => ?_⟩
  rcases (run_ends_iff hcompile harith []).1.mp hends with ⟨m, failure, k, hrun, hkind, -⟩ | hnone
  · rw [hrun] at hfailure
    cases hfailure
    rcases hkind with hkind | hkind
    · cases hkind
    · cases hkind
  · exact hnone ⟨.data 1, 2⟩ (by decide) (by decide)

end Program

end AccumulatorMachine
