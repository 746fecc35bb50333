import AccumulatorMachine.Proofs.Lowering.Blocks
import AccumulatorMachine.Proofs.Machine.Placement

/-!
# Compiled Programs in Memory

What a successful compilation guarantees, and what the memory holds before the first step.

The blocks of a program stand side by side from address zero upwards, so a block starts where all
blocks before it end. The initial data cells are those of the symbol table. They have different
addresses, and none of them lies among the addresses of the code, so each cell of the image can
be read back from the memory it is loaded into.

## Main definitions

* `Compiled.start`: The address of the first instruction of a block.
* `Compiled.InBlock`: A place in a block.
* `Compiled.memory`: The memory that a program starts with.
* `Compiled.KeepsApart`: A program whose cells are nowhere near its code.

## Theorems

* `Memory.read_ofCells_of_mem`, `Memory.read_ofCells_of_not_mem`: Reading loaded cells.
* `Program.compile_ok`: What a successful compilation has done.
* `Compiled.sits_take`, `Compiled.sits`: A block stands in the code where all blocks before it end.
* `Program.compile_holds`, `Program.compile_read_cell`, `Program.compile_read`,
  `Compiled.memory_none`: The cells that a program starts with.
* `Compiled.load_at`: The machine that a program starts with.
-/

namespace AccumulatorMachine

namespace Memory

variable {cells : List Cell}

theorem read_foldl_of_not_mem (memory : Memory) {a : Int} (h : ∀ cell ∈ cells, cell.address ≠ a) :
    (cells.foldl (fun memory cell => memory.write cell.address cell.value) memory).read a
      = memory.read a := by
  induction cells generalizing memory with
  | nil => rfl
  | cons cell rest ih =>
    -- No write of the rest is to the address, and neither is the first.
    have hne : a ≠ cell.address := fun hc => h cell List.mem_cons_self hc.symm
    rw [List.foldl_cons, ih _ fun other hother => h other (List.mem_cons_of_mem cell hother),
      read_write, if_neg hne]

theorem read_foldl_of_mem (memory : Memory) {cell : Cell}
    (hd : cells.Pairwise fun a b => a.address ≠ b.address) (hc : cell ∈ cells) :
    (cells.foldl (fun memory cell => memory.write cell.address cell.value) memory).read cell.address
      = some cell.value := by
  induction cells generalizing memory with
  | nil => cases hc
  | cons first rest ih =>
    rcases List.pairwise_cons.mp hd with ⟨hfirst, hrest⟩
    rw [List.foldl_cons]
    rcases List.mem_cons.mp hc with rfl | hc
    · -- The cells after it are elsewhere, so none of them is loaded over it.
      rw [read_foldl_of_not_mem _ fun other hother => (hfirst other hother).symm, read_write,
        if_pos rfl]
    · exact ih _ hrest hc

theorem read_ofCells_of_mem {cell : Cell} (hd : cells.Pairwise fun a b => a.address ≠ b.address)
    (hc : cell ∈ cells) : (ofCells cells).read cell.address = some cell.value :=
  read_foldl_of_mem empty hd hc

theorem read_ofCells_of_not_mem {a : Int} (h : ∀ cell ∈ cells, cell.address ≠ a) :
    (ofCells cells).read a = none := by
  rw [ofCells, read_foldl_of_not_mem empty h, read_empty]

end Memory

namespace Image

theorem mem_codeCells {start : Nat} {code : List Instruction} {cell : Cell} :
    cell ∈ codeCells start code ↔
      ∃ n i, code[n]? = some i ∧ cell = ⟨.code i, ((start + n : Nat) : Int)⟩ := by
  induction code generalizing start with
  | nil => simp [codeCells]
  | cons first rest ih =>
    rw [codeCells, List.mem_cons, ih]
    constructor
    · rintro (rfl | ⟨n, i, hi, rfl⟩)
      · exact ⟨0, first, rfl, rfl⟩
      · exact ⟨n + 1, i, hi, by rw [Nat.add_right_comm, Nat.add_assoc]⟩
    · rintro ⟨_ | n, i, hi, rfl⟩
      · cases hi
        exact Or.inl rfl
      · exact Or.inr ⟨n, i, hi, by rw [Nat.add_right_comm, Nat.add_assoc]⟩

theorem pairwise_codeCells (start : Nat) (code : List Instruction) :
    (codeCells start code).Pairwise fun a b => a.address ≠ b.address := by
  induction code generalizing start with
  | nil => exact List.Pairwise.nil
  | cons first rest ih =>
    refine List.pairwise_cons.mpr ⟨fun cell hcell => ?_, ih (start + 1)⟩
    rcases mem_codeCells.mp hcell with ⟨n, i, -, rfl⟩
    simp only
    omega

end Image

namespace Compiled

/-- The address of the first instruction of a block. -/
def start (compiled : Compiled) (k : Nat) : Nat :=
  ((compiled.blocks.take k).flatMap Block.code).length

/-- The memory that a program starts with. -/
def memory (compiled : Compiled) : Memory := .ofCells compiled.image.cells

variable {compiled : Compiled} {k : Nat} {block : Block}

theorem start_length (compiled : Compiled) :
    compiled.start compiled.blocks.length = compiled.code.length := by
  rw [start, List.take_length, code]

theorem start_succ (h : compiled.blocks[k]? = some block) :
    compiled.start (k + 1) = compiled.start k + block.code.length := by
  rw [start, List.take_add_one, h, List.flatMap_append, List.length_append, start]
  simp

theorem start_mono {i j : Nat} (h : i ≤ j) : compiled.start i ≤ compiled.start j := by
  rw [start, start, ← Nat.add_sub_cancel' h, List.take_add, List.flatMap_append, List.length_append]
  exact Nat.le_add_right _ _

theorem start_le (k : Nat) : compiled.start k ≤ compiled.code.length := by
  rcases Nat.le_total k compiled.blocks.length with h | h
  · rw [← start_length]
    exact start_mono h
  · refine Nat.le_of_eq ?_
    rw [start, List.take_of_length_le h, code]

/-- The blocks before a block stand at the beginning of the code, and the others behind them. -/
theorem sits_take (compiled : Compiled) (k : Nat) :
    Fragment.Sits ((compiled.blocks.take k).flatMap Block.code) compiled.code 0 ∧
      Fragment.Sits ((compiled.blocks.drop k).flatMap Block.code) compiled.code
        (compiled.start k) := by
  have hcode : compiled.code = (compiled.blocks.take k).flatMap Block.code
      ++ (compiled.blocks.drop k).flatMap Block.code := by
    rw [← List.flatMap_append, List.take_append_drop, code]
  have hall := Fragment.Sits.refl compiled.code
  have hsplit : Fragment.Sits ((compiled.blocks.take k).flatMap Block.code
      ++ (compiled.blocks.drop k).flatMap Block.code) compiled.code 0 := by rwa [← hcode]
  rw [start, ← Nat.zero_add (List.length _)]
  exact hsplit.append

/-- A block stands in the code where all blocks before it end. -/
theorem sits (h : compiled.blocks[k]? = some block) :
    Fragment.Sits block.code compiled.code (compiled.start k) := by
  -- The block is the first of those that are left.
  have hdrop : compiled.blocks.drop k = block :: compiled.blocks.drop (k + 1) := by
    rw [List.drop_eq_getElem_cons (List.getElem?_eq_some_iff.mp h).1,
      (List.getElem?_eq_some_iff.mp h).2]
  have hsits := (compiled.sits_take k).2
  rw [hdrop, List.flatMap_cons] at hsits
  exact hsits.append.1

/-- A place in a block. -/
def InBlock (compiled : Compiled) (k : Nat) (pc : Int) : Prop :=
  ∃ block, compiled.blocks[k]? = some block ∧ compiled.start k ≤ pc ∧
    pc < compiled.start k + block.code.length

/-- Every place in the code is one in a block. -/
theorem inBlock_of_lt {n : Nat} (h : n < compiled.code.length) : ∃ k, compiled.InBlock k n := by
  -- The induction is on the number of blocks that are looked at.
  have hbelow : ∀ last ≤ compiled.blocks.length, n < compiled.start last →
      ∃ k, compiled.InBlock k n := by
    intro last hlast hn
    induction last with
    | zero => exact absurd hn (Nat.not_lt_zero n)
    | succ k ih =>
      by_cases hk : n < compiled.start k
      · exact ih (by omega) hk
      · have hblock : compiled.blocks[k]? = some compiled.blocks[k] :=
          List.getElem?_eq_getElem (by omega)
        rw [start_succ hblock] at hn
        exact ⟨k, compiled.blocks[k], hblock, by omega, by omega⟩
  refine hbelow compiled.blocks.length (Nat.le_refl _) ?_
  rw [start_length]
  exact h

/-- A block ends where the next one starts, so no place is in two of them. -/
theorem start_unique {i j : Nat} {pc : Int}
    (hi : compiled.start i ≤ pc ∧ pc < compiled.start (i + 1))
    (hj : compiled.start j ≤ pc ∧ pc < compiled.start (j + 1)) : i = j := by
  rcases Nat.lt_trichotomy i j with hlt | heq | hlt
  · have hle : compiled.start (i + 1) ≤ compiled.start j := start_mono hlt
    omega
  · exact heq
  · have hle : compiled.start (j + 1) ≤ compiled.start i := start_mono hlt
    omega

/-- No place is in two blocks. -/
theorem InBlock.unique {i j : Nat} {pc : Int} (hi : compiled.InBlock i pc)
    (hj : compiled.InBlock j pc) : i = j := by
  rcases hi with ⟨block, hblock, hlow, hhigh⟩
  rcases hj with ⟨block', hblock', hlow', hhigh'⟩
  have hnext := start_succ hblock
  have hnext' := start_succ hblock'
  exact start_unique ⟨hlow, by omega⟩ ⟨hlow', by omega⟩

/-- There are no cells but those of the code and the initial ones. -/
theorem memory_none (compiled : Compiled) {a : Int}
    (hcode : ¬ (0 ≤ a ∧ a < compiled.code.length))
    (hcells : ∀ cell ∈ compiled.symbols.cells, cell.address ≠ a) :
    compiled.memory.read a = none := by
  refine Memory.read_ofCells_of_not_mem fun cell hcell => ?_
  rcases List.mem_append.mp hcell with hcell | hcell
  · rcases Image.mem_codeCells.mp hcell with ⟨n, i, hi, rfl⟩
    have hlt : n < compiled.code.length := (List.getElem?_eq_some_iff.mp hi).1
    simp only
    omega
  · exact hcells cell hcell

/-- The machine that a program starts with. -/
theorem load_at (compiled : Compiled) (input : List Char) :
    (Machine.load compiled.image input none).At 0
      (Store.core ⟨compiled.memory, input, false, []⟩) :=
  ⟨rfl, rfl, rfl, rfl⟩

end Compiled

namespace Program

variable {program : Program} {dataBase : Int} {compiled : Compiled}

/-- A successful compilation has paired the loops, lowered the statements and found no overlap. -/
theorem compile_ok {c : Countdown} {compiled : Compiled c}
    (h : program.compile dataBase c = .ok compiled) :
    ∃ pairs, LoopPairs.ofStatements? program.statements = .ok pairs ∧
      (Lowering.statements pairs 0 [] program.statements).run (.empty dataBase c)
        = .ok (compiled.blocks, compiled.symbols) ∧ compiled.overlap? = none := by
  rcases Outcome.bind_ok h with ⟨pairs, hpairs, hrest⟩
  rcases Outcome.bind_ok hrest with ⟨⟨blocks, symbols⟩, hblocks, hcheck⟩
  cases hoverlap : (⟨blocks, symbols⟩ : Compiled c).overlap? with
  | some cell =>
    simp only [hoverlap] at hcheck
    cases hcheck
  | none =>
    simp only [hoverlap] at hcheck
    cases hcheck
    exact ⟨pairs, hpairs, hblocks, hoverlap⟩

theorem compile_of_run {c : Countdown} {compiled : Compiled c} {pairs : LoopPairs}
    (hpairs : LoopPairs.ofStatements? program.statements = .ok pairs)
    (hrun : (Lowering.statements pairs 0 [] program.statements).run (.empty dataBase c)
      = .ok (compiled.blocks, compiled.symbols)) (hoverlap : compiled.overlap? = none) :
    program.compile dataBase c = .ok compiled := by
  rw [compile, hpairs]
  simp only [bind, Except.bind, hrun, hoverlap]

theorem compile_leaves (h : program.compile dataBase = .ok compiled) :
    Lowering.Leaves dataBase (.empty dataBase) compiled.code compiled.symbols := by
  rcases compile_ok h with ⟨pairs, -, hlowering, -⟩
  exact Lowering.statements_leaves hlowering (.empty dataBase)

/-- No address that was handed out is a scratch cell. -/
theorem compile_unreserved (h : program.compile dataBase = .ok compiled) {a : Int}
    (ha : compiled.symbols.HandedOut dataBase a) : SymbolTable.isReserved a = false :=
  (compile_leaves h).grows.unreserved a ha.1 ha.2

/-- Every block is that of a statement, lowered on the way from the first table to the last. -/
theorem compile_block (h : program.compile dataBase = .ok compiled) {block : Block}
    (hblock : block ∈ compiled.blocks) :
    ∃ pairs k s openedBefore before openedAfter after, program.statements[k]? = some s ∧
      Lowering.Lowers pairs k openedBefore before s block openedAfter after ∧
      before.Within dataBase ∧ after.Grows compiled.symbols := by
  rcases compile_ok h with ⟨pairs, -, hlowering, -⟩
  rcases List.mem_iff_getElem?.mp hblock with ⟨k, hk⟩
  have hlt : k < program.statements.length := by
    rw [← Lowering.statements_length hlowering]
    exact (List.getElem?_eq_some_iff.mp hk).1
  have hs : program.statements[k]? = some program.statements[k] := List.getElem?_eq_getElem hlt
  rcases Lowering.statements_get hlowering hs with
    ⟨other, openedBefore, before, openedAfter, after, hget, hlowers, hbefore, -, hrest⟩
  rw [hk] at hget
  cases hget
  rw [Nat.zero_add] at hlowers
  have hwithin := (Lowering.statements_leaves hbefore (.empty dataBase)).within
  exact ⟨pairs, k, _, openedBefore, before, openedAfter, after, hs, hlowers, hwithin,
    (Lowering.statements_leaves hrest (hlowers.leaves hwithin).within).grows⟩

/-- The initial cells hold numbers, have different addresses that were handed out, and lie outside
    the code. -/
theorem compile_cells (h : program.compile dataBase = .ok compiled) :
    (∀ cell ∈ compiled.symbols.cells, (∃ value, cell.value = .data value) ∧
      compiled.symbols.HandedOut dataBase cell.address ∧
      ¬ (0 ≤ cell.address ∧ cell.address < compiled.code.length)) ∧
    compiled.symbols.cells.Pairwise fun a b => a.address ≠ b.address := by
  rcases compile_ok h with ⟨pairs, -, -, hoverlap⟩
  rcases (compile_leaves h).grows.cells with ⟨new, hnew, hrange, hdata, hdesc⟩
  have hcells : compiled.symbols.cells = new := hnew
  rw [hcells]
  refine ⟨fun cell hcell => ⟨hdata cell hcell, hrange cell hcell, ?_⟩, ?_⟩
  · rw [Compiled.overlap?, hcells, List.find?_eq_none] at hoverlap
    have := hoverlap cell hcell
    simpa only [decide_eq_true_eq] using this
  · refine hdesc.imp fun {upper lower} hlt => ?_
    omega

/-- All cells of an image have different addresses. -/
theorem compile_pairwise (h : program.compile dataBase = .ok compiled) :
    compiled.image.cells.Pairwise fun a b => a.address ≠ b.address := by
  rcases compile_cells h with ⟨hcells, hdistinct⟩
  refine List.pairwise_append.mpr ⟨Image.pairwise_codeCells 0 compiled.code, hdistinct, ?_⟩
  intro upper hupper lower hlower
  -- The addresses of the code are those that the data cells were checked against.
  rcases Image.mem_codeCells.mp hupper with ⟨n, i, hi, rfl⟩
  have hlt : n < compiled.code.length := (List.getElem?_eq_some_iff.mp hi).1
  have hout := (hcells lower hlower).2.2
  simp only
  omega

/-- The memory holds the code. -/
theorem compile_holds (h : program.compile dataBase = .ok compiled) :
    compiled.memory.Holds compiled.code := by
  intro n i hi
  have hcell : (⟨.code i, (n : Int)⟩ : Cell) ∈ compiled.image.cells := by
    refine List.mem_append_left _ (Image.mem_codeCells.mpr ⟨n, i, hi, ?_⟩)
    rw [Nat.zero_add]
  exact Memory.read_ofCells_of_mem (compile_pairwise h) hcell

/-- The memory holds the initial cells. -/
theorem compile_read_cell (h : program.compile dataBase = .ok compiled) {cell : Cell}
    (hcell : cell ∈ compiled.symbols.cells) :
    compiled.memory.read cell.address = some cell.value :=
  Memory.read_ofCells_of_mem (compile_pairwise h) (List.mem_append_right _ hcell)

/-- Whatever is in the memory that a program starts with is an instruction of its code, at its
    place, or an initial cell. -/
theorem compile_read (h : program.compile dataBase = .ok compiled) {a : Int} {value : CellValue}
    (hread : compiled.memory.read a = some value) :
    (∃ (n : Nat) (i : Instruction), a = n ∧ compiled.code[n]? = some i ∧ value = .code i) ∨
      ∃ cell ∈ compiled.symbols.cells, cell.address = a ∧ cell.value = value := by
  -- An address is among those of the code, or it has an initial cell, or no cell at all.
  by_cases hin : 0 ≤ a ∧ a < compiled.code.length
  · have hlt : a.toNat < compiled.code.length := by omega
    have hget : compiled.code[a.toNat]? = some compiled.code[a.toNat] :=
      List.getElem?_eq_getElem hlt
    have hcell := compile_holds h a.toNat _ hget
    rw [Int.toNat_of_nonneg hin.1, hread] at hcell
    cases hcell
    exact Or.inl ⟨a.toNat, _, (Int.toNat_of_nonneg hin.1).symm, hget, rfl⟩
  · by_cases hcell : ∃ cell ∈ compiled.symbols.cells, cell.address = a
    · rcases hcell with ⟨cell, hmem, rfl⟩
      rw [compile_read_cell h hmem] at hread
      cases hread
      exact Or.inr ⟨cell, hmem, rfl, rfl⟩
    · rw [Compiled.memory_none compiled hin fun cell hmem hc => hcell ⟨cell, hmem, hc⟩] at hread
      cases hread

/-- An instruction in the memory that a program starts with is one of its code, at its place. -/
theorem compile_read_code (h : program.compile dataBase = .ok compiled) {a : Int} {i : Instruction}
    (hread : compiled.memory.read a = some (.code i)) :
    ∃ n : Nat, a = n ∧ compiled.code[n]? = some i := by
  rcases compile_read h hread with ⟨n, j, ha, hget, hvalue⟩ | ⟨cell, hmem, -, hvalue⟩
  · cases hvalue
    exact ⟨n, ha, hget⟩
  · rcases ((compile_cells h).1 cell hmem).1 with ⟨value, hdata⟩
    rw [hdata] at hvalue
    cases hvalue

/-- A number in the memory that a program starts with is at an address that was handed out. -/
theorem compile_read_data (h : program.compile dataBase = .ok compiled) {a value : Int}
    (hread : compiled.memory.read a = some (.data value)) :
    compiled.symbols.HandedOut dataBase a := by
  rcases compile_read h hread with ⟨n, j, -, -, hvalue⟩ | ⟨cell, hmem, rfl, -⟩
  · cases hvalue
  · exact ((compile_cells h).1 cell hmem).2.1

end Program

/-- Nothing that a program can store to lies among the addresses of its code or where the code
    ends: no address that was handed out, and no scratch cell that it uses. -/
structure Compiled.KeepsApart (compiled : Compiled) (dataBase : Int) : Prop where
  cells : ∀ a, compiled.symbols.HandedOut dataBase a → a < 0 ∨ compiled.code.length < a
  scratch : ∀ a, SymbolTable.isReserved a = true → ⟨.write, a⟩ ∈ compiled.code →
    compiled.code.length < a

namespace Program

variable {program : Program} {dataBase : Int} {compiled : Compiled}

theorem compile_storesApart (h : program.compile dataBase = .ok compiled)
    (hapart : compiled.KeepsApart dataBase) : StoresApart compiled.code := by
  rintro ⟨opcode, operand⟩ hi rfl
  rcases (compile_leaves h).names _ hi rfl with hcell | hreserved
  · exact hapart.cells operand hcell
  · exact Or.inr (hapart.scratch operand hreserved hi)

/-- The memory that a program starts with holds its code and has no cell where the code ends. -/
theorem compile_ready (h : program.compile dataBase = .ok compiled)
    (hapart : compiled.KeepsApart dataBase) : compiled.memory.Ready compiled.code where
  holds := compile_holds h
  ends := by
    refine compiled.memory_none (by omega) fun cell hcell => ?_
    have := hapart.cells _ ((compile_cells h).1 cell hcell).2.1
    omega

end Program

end AccumulatorMachine
