import AccumulatorMachine.Proofs.Compilation
import AccumulatorMachine.Proofs.Machine.Action

/-!
# The Code Segment

Whether a running program overwrites its own code.

The memory of a machine changes only when it runs a store, and `Machine.Stores` says when it is
about to. So the code stays in memory for as long as no store reaches it. An image whose data
cells lie in the code is refused, but the cells that a program stores to are not all data cells.
A statement that reads an integer stores to an address that has no cell before it runs, and the
loops that read and print strings store to fixed addresses. The check passes over both, and these
are the only ways for a program to overwrite its code.

Steps are followed beyond failures, since a machine that has failed can be stepped again, and
with and without a limit on the ticks.

## Main definitions

* `Machine.Reachable`: The machines that steps lead to.
* `Machine.Stores`: A machine that is about to store to an address.
* `Statement.Form.StoresScratch`: The statements that store to fixed addresses.
* `Compiled.InCode`: An address among those of the code.

## Theorems

* `Machine.step_memory`: A step changes the memory by the store it runs, if it runs one.
* `Program.compile_store`: What a program can store to.
* `Program.code_stays_iff`: When the code stays in memory.
* `Program.code_overwritten_of_slot`: A program that overwrites its code.
-/

namespace AccumulatorMachine

namespace Machine

/-- The machines that steps lead to, which may go on after a failure. -/
inductive Reachable (image : Image) (input : List Char) (limit : Option Nat) : Machine → Prop
  | load : Reachable image input limit (.load image input limit)
  | step {m : Machine} (h : Reachable image input limit m) : Reachable image input limit m.step.1

/-- A machine that is about to store to an address, and is granted the tick to fetch the store. -/
structure Stores (m : Machine) (a : Int) : Prop where
  running : m.halted = false
  granted : ∀ limit, m.tickLimit = some limit → m.tick ≤ limit
  fetches : ∃ i, m.path.memory.read m.path.pc = some (.code i) ∧ i.opcode = .write ∧ i.operand = a

theorem Performs.memory_eq {m m' : Machine} {action : Action} (h : m.Performs action m')
    (ha : action ≠ .micro .write) : m'.path.memory = m.path.memory := by
  cases h with
  | micro hpath => exact hpath.memory_eq fun hop => ha (congrArg Action.micro hop)
  | jumps _ hpath => exact hpath.memory_eq (by decide)
  | stays | reportStore | reportOutput | endTick | halt => rfl

/-- Actions without a store leave the memory alone, also when they fault. -/
theorem performAll_memory {actions : List Action} (h : ∀ action ∈ actions, action ≠ .micro .write)
    (m : Machine) : (performAll actions m).1.path.memory = m.path.memory :=
  performAll_induction (motive := fun m' => m'.path.memory = m.path.memory)
    (fun action hmem _ _ hkept hperform => (hperform.memory_eq (h action hmem)).trans hkept) rfl

/-- Only the microprogram of a store has one. -/
theorem actions_ne_write {opcode : OpCode} (h : opcode ≠ .write) (zero signed : Bool) :
    ∀ action ∈ opcode.actions zero signed, action ≠ .micro .write := by
  cases opcode with
  | write => exact absurd rfl h
  | skip condition negated => simp [OpCode.actions]
  | add | subtract | multiply | divide | jump | read | readAddress | writeAddress | input | output
  | halt => simp [OpCode.actions, arithmeticActions]

/-- The fetch fails if it is not granted its tick, and otherwise latches the cell at the program
    counter. -/
theorem performAll_fetch (m : Machine) :
    (∃ m' fault, performAll fetchActions m = (m', some fault) ∧
      m'.path.memory = m.path.memory ∧ ∃ limit, m.tickLimit = some limit ∧ limit < m.tick) ∨
    (∃ m', performAll fetchActions m = (m', none) ∧ m'.path.memory = m.path.memory ∧
      m'.path.acc = m.path.acc ∧ m'.path.instruction = m.path.memory.read m.path.pc ∧
      ∀ limit, m.tickLimit = some limit → m.tick ≤ limit) := by
  have hrun : performAll fetchActions m = performAll [.endTick] { m with path :=
      { m.path with address := m.path.pc, instruction := m.path.memory.read m.path.pc } } := rfl
  rw [hrun, performAll, perform, endTick]
  -- The tick of the fetch is the only thing that can go wrong.
  cases hlimit : m.tickLimit with
  | none => exact Or.inr ⟨_, rfl, rfl, rfl, rfl, fun limit h => by cases h⟩
  | some limit =>
    by_cases hlt : limit < m.tick
    · simp only [if_pos hlt]
      exact Or.inl ⟨_, _, rfl, rfl, limit, rfl, hlt⟩
    · simp only [if_neg hlt]
      refine Or.inr ⟨_, rfl, rfl, rfl, rfl, fun other h => ?_⟩
      cases h
      omega

/-- The memory after the microprogram of a store, whether the program counter can move on or
    not. -/
theorem performAll_write {m : Machine} {i : Instruction}
    (hi : m.path.instruction = some (.code i)) (hop : i.opcode = .write) :
    (performAll (i.opcode.actions m.path.zero m.path.signed) m).1.path.memory
      = m.path.memory.write i.operand (.data m.path.acc) := by
  have ha : m.path.operand = i.operand := by rw [DataPath.operand, hi]
  have hrun : performAll (i.opcode.actions m.path.zero m.path.signed) m
      = performAll [.micro (.latchPc .advance), .reportStore, .endTick] { m with path :=
        { m.path with address := m.path.operand
                      memory := m.path.memory.write m.path.operand (.data m.path.acc) } } := by
    rw [hop]
    rfl
  rw [hrun, performAll_memory (by decide), ha]

/-- A step changes the memory by the store it runs, if it runs one. -/
theorem step_memory (m : Machine) :
    (∃ a, m.Stores a ∧ m.step.1.path.memory = m.path.memory.write a (.data m.path.acc)) ∨
      ((∀ a, ¬ m.Stores a) ∧ m.step.1.path.memory = m.path.memory) := by
  by_cases hhalted : m.halted = true
  · refine Or.inr ⟨fun a h => ?_, by rw [step_of_halted hhalted]⟩
    rw [h.running] at hhalted
    cases hhalted
  · have hrunning : m.halted = false := Bool.eq_false_iff.mpr hhalted
    have hstep : m.step.1 = m.cycle.1 := by rw [step, if_neg hhalted]
    rw [hstep, cycle]
    -- A step is a fetch and a microprogram, and either may come to nothing.
    rcases performAll_fetch m with
      ⟨m', fault, hfetch, hmemory, limit, hlimit, hlt⟩ |
      ⟨m', hfetch, hmemory, hacc, hcell, hgranted⟩
    · refine Or.inr ⟨fun a h => ?_, by rw [hfetch]; exact hmemory⟩
      have := h.granted limit hlimit
      omega
    · simp only [hfetch]
      -- What the fetch has found decides whether there is a microprogram.
      rcases hread : m.path.memory.read m.path.pc with _ | value | i
      · refine Or.inr ⟨fun a h => ?_, ?_⟩
        · rcases h.fetches with ⟨i, hi, -⟩
          rw [hread] at hi
          cases hi
        · rw [decoded, hcell, hread]
          simp only
          rw [performAll_memory (by decide), hmemory]
      · refine Or.inr ⟨fun a h => ?_, ?_⟩
        · rcases h.fetches with ⟨i, hi, -⟩
          rw [hread] at hi
          cases hi
        · rw [decoded, hcell, hread]
          exact hmemory
      · have hdecoded : m'.decoded = .ok (i.opcode.actions m'.path.zero m'.path.signed) := by
          rw [decoded, hcell, hread]
        rw [hdecoded]
        by_cases hop : i.opcode = .write
        · refine Or.inl ⟨i.operand, ⟨hrunning, hgranted, i, hread, hop, rfl⟩, ?_⟩
          rw [← hmemory, ← hacc]
          exact performAll_write (by rw [hcell, hread]) hop
        · refine Or.inr ⟨fun a h => ?_, ?_⟩
          · rcases h.fetches with ⟨j, hj, hwrite, -⟩
            rw [hread] at hj
            cases hj
            exact hop hwrite
          · simp only
            rw [performAll_memory (actions_ne_write hop _ _), hmemory]

end Machine

/-- The statements whose code stores to a scratch cell. -/
def Statement.Form.StoresScratch (a : Int) : Statement.Form → Prop
  | .inputStr => a = counterCell ∨ a = bufferCell
  | .outputStr _ => a = counterCell
  | _ => False

/-- An address among those of the code. -/
def Compiled.InCode (compiled : Compiled) (a : Int) : Prop := 0 ≤ a ∧ a < compiled.code.length

instance (compiled : Compiled) (a : Int) : Decidable (compiled.InCode a) :=
  inferInstanceAs (Decidable (0 ≤ a ∧ a < compiled.code.length))

namespace Lowering

variable {pairs : LoopPairs} {index : Nat} {opened opened' : List Nat} {s : Statement}
  {block : Block} {table table' : SymbolTable} {base a : Int}

/-- A store to a reserved address comes from a loop that reads or prints a string. -/
theorem Lowers.scratch (h : Lowers pairs index opened table s block opened' table')
    (hw : table.Within base)
    (hfree : ∀ a, table'.HandedOut base a → SymbolTable.isReserved a = false)
    (ha : SymbolTable.isReserved a = true) (hmem : ⟨.write, a⟩ ∈ block.code) :
    s.form.StoresScratch a := by
  -- The reserved addresses are never handed out, so no other cell has one.
  have hreserved : ∀ {b}, table'.HandedOut base b → a ≠ b := by
    intro b hb hab
    rw [hab, hfree b hb] at ha
    cases ha
  cases h with
  | loop hform hstop hleft hright =>
    rename_i comparison _ _ _ _
    cases comparison <;> simp [loopHead, Comparison.skipOpCode] at hmem
  | endLoop hform hopened => simp [loopEnd] at hmem
  | plain hplain hform =>
    cases hf : s.form with
    | int name value =>
      rw [hf] at hform
      rcases form_int_ok hform with ⟨hcode, -⟩
      simp [hcode] at hmem
    | string name text =>
      rw [hf] at hform
      rcases form_string_ok hform with ⟨hcode, -⟩
      simp [hcode] at hmem
    | new name e =>
      rw [hf] at hform
      rcases form_new_ok hform with ⟨b, mid, he, rfl⟩
      rcases expression_ok he hw with ⟨-, -, -, -, hsteps⟩
      exact absurd rfl (hreserved ((hsteps.mem hmem).2.mono (SymbolTable.Grows.bind mid name b)))
    | inputInt name =>
      rw [hf] at hform
      rcases form_inputInt_ok hform with ⟨hr, rfl, -⟩
      simp at hmem
      rw [hmem, hr] at ha
      cases ha
    | outputInt name =>
      rw [hf] at hform
      rcases form_outputInt_ok hform with ⟨b, -, rfl, -⟩
      simp at hmem
    | inputStr =>
      rw [hf] at hform
      rcases form_inputStr_ok hform with ⟨zero, one, mid, -, -, rfl⟩
      simpa [inputStrCode, Statement.Form.StoresScratch] using hmem
    | outputStr name =>
      rw [hf] at hform
      rcases form_outputStr_ok hform with ⟨zero, one, string, mid, -, -, -, rfl⟩
      simpa [outputStrCode, Statement.Form.StoresScratch] using hmem
    | loop left comparison right =>
      rw [hf] at hplain
      exact absurd hplain id
    | endLoop =>
      rw [hf] at hplain
      exact absurd hplain id

/-- The loops that read and print strings store to their scratch cells. -/
theorem Lowers.mem_of_storesScratch (h : Lowers pairs index opened table s block opened' table')
    (hs : s.form.StoresScratch a) : ⟨.write, a⟩ ∈ block.code := by
  cases hf : s.form with
  | inputStr =>
    rcases h.form_of_plain (by rw [hf]; trivial) with ⟨redeclared, hform⟩
    rw [hf] at hform hs
    rcases form_inputStr_ok hform with ⟨zero, one, mid, -, -, hcode⟩
    rw [hcode]
    simpa [inputStrCode, Statement.Form.StoresScratch] using hs
  | outputStr name =>
    rcases h.form_of_plain (by rw [hf]; trivial) with ⟨redeclared, hform⟩
    rw [hf] at hform hs
    rcases form_outputStr_ok hform with ⟨zero, one, string, mid, -, -, -, hcode⟩
    rw [hcode]
    simpa [outputStrCode, Statement.Form.StoresScratch] using hs
  | int | string | new | inputInt | outputInt | loop | endLoop =>
    rw [hf] at hs
    exact absurd hs id

end Lowering

namespace Program

variable {program : Program} {dataBase : Int} {compiled : Compiled}

/-- A store to a reserved address comes from a statement that reads or prints a string. -/
theorem compile_scratch (h : program.compile dataBase = .ok compiled) {a : Int}
    (ha : SymbolTable.isReserved a = true) (hmem : ⟨.write, a⟩ ∈ compiled.code) :
    ∃ s ∈ program.statements, s.form.StoresScratch a := by
  rcases List.mem_flatMap.mp hmem with ⟨block, hblock, hcode⟩
  rcases compile_block h hblock with
    ⟨_, k, s, openedBefore, before, openedAfter, after, hs, hlowers, hwithin, hgrows⟩
  refine ⟨s, List.mem_of_getElem? hs, hlowers.scratch hwithin (fun b hb => ?_) ha hcode⟩
  exact compile_unreserved h (hb.mono hgrows)

/-- What a program can store to among the addresses of its code: those that were handed out
    without a cell, and the scratch cells of the loops it has. -/
theorem compile_store (h : program.compile dataBase = .ok compiled) {a : Int}
    (ha : compiled.InCode a) : ⟨.write, a⟩ ∈ compiled.code ↔
      (compiled.symbols.HandedOut dataBase a ∧
        ∀ cell ∈ compiled.symbols.cells, cell.address ≠ a) ∨
      ∃ s ∈ program.statements, s.form.StoresScratch a := by
  rcases compile_ok h with ⟨pairs, -, hlowering, -⟩
  constructor
  · intro hmem
    -- A store is to a scratch cell or to an address that was handed out.
    by_cases hreserved : SymbolTable.isReserved a = true
    · exact Or.inr (compile_scratch h hreserved hmem)
    · rcases (compile_leaves h).names _ hmem rfl with hcell | hcell
      · refine Or.inl ⟨hcell, fun cell hc heq => ?_⟩
        -- A cell among the addresses of the code is what the compiler does check for.
        exact ((compile_cells h).1 cell hc).2.2 (heq ▸ ha)
      · exact absurd hcell hreserved
  · rintro (⟨hcell, hnone⟩ | ⟨s, hs, hscratch⟩)
    · rcases Lowering.statements_accounts hlowering (.empty dataBase) a hcell.1 hcell.2 with
        ⟨cell, hc, heq⟩ | ⟨-, hmem⟩
      · exact absurd heq (hnone cell hc)
      · exact hmem
    · rcases List.mem_iff_getElem?.mp hs with ⟨k, hk⟩
      rcases Lowering.statements_get hlowering hk with
        ⟨block, openedBefore, before, openedAfter, after, hblock, hlowers, -⟩
      exact List.mem_flatMap.mpr ⟨block, List.mem_of_getElem? hblock,
        hlowers.mem_of_storesScratch hscratch⟩

/-- The code stays in memory as long as no store reaches it. -/
theorem holds_of_reachable (h : program.compile dataBase = .ok compiled) {input : List Char}
    {limit : Option Nat}
    (hstores : ∀ m a, Machine.Reachable compiled.image input limit m → m.Stores a →
      ¬ compiled.InCode a) {m : Machine} (hm : Machine.Reachable compiled.image input limit m) :
    m.path.memory.Holds compiled.code := by
  induction hm with
  | load => exact compile_holds h
  | @step m hm ih =>
    rcases m.step_memory with ⟨a, ha, hmemory⟩ | ⟨-, hmemory⟩
    · rw [hmemory]
      intro n i hi
      have hlt : n < compiled.code.length := (List.getElem?_eq_some_iff.mp hi).1
      -- The store is outside the code, and all other cells are as they were.
      have hout := hstores m a hm ha
      have hne : (n : Int) ≠ a := by
        rintro rfl
        exact hout ⟨by omega, by omega⟩
      rw [Memory.read_write, if_neg hne]
      exact ih n i hi
    · rw [hmemory]
      exact ih

/-- All instructions in memory are those of the code, at their places. -/
theorem code_of_reachable (h : program.compile dataBase = .ok compiled) {input : List Char}
    {limit : Option Nat} {m : Machine} (hm : Machine.Reachable compiled.image input limit m)
    {a : Int} {i : Instruction} (hread : m.path.memory.read a = some (.code i)) :
    i ∈ compiled.code := by
  induction hm with
  | load =>
    rcases compile_read_code h hread with ⟨n, -, hget⟩
    exact List.mem_of_getElem? hget
  | @step m hm ih =>
    rcases m.step_memory with ⟨b, -, hmemory⟩ | ⟨-, hmemory⟩
    · -- What a store leaves is a number.
      rw [hmemory, Memory.read_write] at hread
      by_cases hab : a = b
      · rw [if_pos hab] at hread
        cases hread
      · rw [if_neg hab] at hread
        exact ih hread
    · rw [hmemory] at hread
      exact ih hread

/-- The code of a program stays in memory exactly if no store that is run reaches it. A program
    whose code has no such store never overwrites it, and the stores it may have among the addresses
    of its code are those that the check of the data cells does not cover. -/
theorem code_stays_iff (h : program.compile dataBase = .ok compiled) :
    (∀ input limit, (∀ m, Machine.Reachable compiled.image input limit m →
        m.path.memory.Holds compiled.code) ↔
      ∀ m a, Machine.Reachable compiled.image input limit m → m.Stores a → ¬ compiled.InCode a) ∧
    ((∀ a, compiled.InCode a → ⟨.write, a⟩ ∉ compiled.code) →
      ∀ input limit m, Machine.Reachable compiled.image input limit m →
        m.path.memory.Holds compiled.code) ∧
    ∀ a, compiled.InCode a → (⟨.write, a⟩ ∈ compiled.code ↔
      (compiled.symbols.HandedOut dataBase a ∧
        ∀ cell ∈ compiled.symbols.cells, cell.address ≠ a) ∨
      ∃ s ∈ program.statements, s.form.StoresScratch a) := by
  refine ⟨fun input limit => ⟨fun hholds m a hm ha hin => ?_, fun hstores m hm => ?_⟩,
    fun hnone input limit m hm => ?_, fun a ha => compile_store h ha⟩
  · rcases m.step_memory with ⟨b, hb, hmemory⟩ | ⟨hno, -⟩
    · -- The address that is stored to is the operand of the one instruction that is fetched.
      have hab : a = b := by
        rcases ha.fetches with ⟨i, hi, -, rfl⟩
        rcases hb.fetches with ⟨j, hj, -, rfl⟩
        rw [hi] at hj
        cases hj
        rfl
      have hlt : a.toNat < compiled.code.length := by
        have := hin.1
        have := hin.2
        omega
      have hcode := hholds _ (.step hm) a.toNat _ (List.getElem?_eq_getElem hlt)
      rw [hmemory, ← hab, Int.toNat_of_nonneg hin.1, Memory.read_write, if_pos rfl] at hcode
      cases hcode
    · exact hno a ha
  · exact holds_of_reachable h hstores hm
  · refine holds_of_reachable h (fun m a hm ha hin => ?_) hm
    rcases ha.fetches with ⟨⟨opcode, operand⟩, hi, rfl, rfl⟩
    exact hnone _ hin (code_of_reachable h hm hi)

/-- A program that reads an integer. -/
def readsInteger : Program := ⟨[⟨.inputInt "x", ⟨0, 12⟩⟩]⟩

/-- The same program, compiled so that the integer gets the address of the second instruction. -/
def readsIntegerIntoCode : Compiled :=
  ⟨[⟨⟨0, 12⟩, [⟨.input, integerMode⟩, ⟨.write, 1⟩], false, none⟩], ⟨[("x", ⟨1, .slot⟩)], [], 0⟩⟩

/-- The compiler accepts a program that stores the integer it reads over its own code. -/
theorem code_overwritten_of_slot :
    readsInteger.compile 1 = .ok readsIntegerIntoCode ∧
      ¬ ∀ m, Machine.Reachable readsIntegerIntoCode.image ['7'] none m →
        m.path.memory.Holds readsIntegerIntoCode.code := by
  have hcompile : readsInteger.compile 1 = .ok readsIntegerIntoCode := rfl
  refine ⟨hcompile, fun hholds => ?_⟩
  have hstores := ((code_stays_iff hcompile).1 ['7'] none).mp hholds
  have hstore : (Machine.load readsIntegerIntoCode.image ['7'] none).step.1.Stores 1 :=
    ⟨rfl, fun limit h => (nomatch h), ⟨.write, 1⟩, rfl, rfl, rfl⟩
  exact hstores _ 1 (.step .load) hstore (by decide)

end Program

end AccumulatorMachine
