import AccumulatorMachine.Proofs.Compilation
import AccumulatorMachine.Proofs.Lowering.Countdown
import AccumulatorMachine.Proofs.Lowering.Relocation
import AccumulatorMachine.Proofs.Lowering.Sizes

/-!
# Relocated Programs

A program compiled for two data bases.

Where the data of a program begins is a choice that the compiler leaves open. It makes no difference
to anything but addresses. The two results have the same instructions for the same statements, and
every cell and every symbol of the one is as far from its counterpart in the other as the two bases
are from each other.

An address may stand in an instruction, in a cell, in a symbol and in a finding about a name that is
declared twice. Nothing else moves: not the lengths of strings, which are numbers in cells, nor the
distances of jumps, nor the two scratch cells.

## Main definitions

* `Diagnostic.relocate`: A finding with its address moved.
* `Compiled.Shifted`: Compiled programs that differ only in where their data is.

## Theorems

* `Lowering.Lowers.redeclared_bound`: A declaration is ignored if its name is bound, and the address
  that is reported is the one that the name is bound to.
* `Block.diagnostics_relocate`: The findings about a block that is moved.
* `Program.compile_blocks`: The blocks and the table of a program, for another data base.
* `Program.compile_shifted`, `Program.compile_relocates`: The data base only relocates, for integers
  without conditions and for words as long as they do not run out.
-/

namespace AccumulatorMachine

/-- The finding with its address moved, if there is an address in it. -/
def Diagnostic.relocate (d : Int) (finding : Diagnostic) : Diagnostic :=
  match finding.kind with
  | .redeclaration name address => ⟨.redeclaration name (address + d), finding.span⟩
  | .loopBodyExpansion _ => finding

/-- Another program that differs only in where its data is: everything in it is `d` away. -/
structure Compiled.Shifted {c : Countdown} (d : Int) (compiled other : Compiled c) : Prop where
  /-- The operands that name cells are, and so are those of skips. -/
  code : other.code = compiled.code.map (Instruction.relocate d)
  opcodes : other.code.map Instruction.opcode = compiled.code.map Instruction.opcode
  sourceMap : other.sourceMap = compiled.sourceMap
  diagnostics : other.diagnostics = compiled.diagnostics.map (Diagnostic.relocate d)
  /-- Cells have the same values in the same order. -/
  cells : other.symbols.cells
    = compiled.symbols.cells.map fun cell => ⟨cell.value, cell.address + d⟩
  names : other.symbols.bindings.map Prod.fst = compiled.symbols.bindings.map Prod.fst
  /-- Symbols are of the same kind. -/
  symbols : ∀ name, other.symbols.get? name = (compiled.symbols.get? name).map
    fun info => ⟨info.address + d, info.kind⟩

namespace Lowering

variable {table table' : SymbolTable} {name : String} {a : Int}

/-- A declaration is ignored if its name is bound, and the address that is reported is the one that
    the name is bound to. -/
theorem Lowers.redeclared_bound {pairs : LoopPairs} {index : Nat} {opened opened' : List Nat}
    {s : Statement} {block : Block} (h : Lowers pairs index opened table s block opened' table')
    (hname : block.redeclared = some (name, a)) : table.addressOf? name = some a := by
  rw [h.redeclared_eq, Option.bind_eq_some_iff] at hname
  rcases hname with ⟨other, -, hbound⟩
  rcases Option.map_eq_some_iff.mp hbound with ⟨address, haddress, ⟨⟩⟩
  exact haddress

end Lowering

namespace Block

variable (d : Int)

theorem length_relocate (block : Block) : (block.relocate d).code.length = block.code.length :=
  List.length_map _

/-- The findings about a block that is moved. No address that is reported is that of a scratch
    cell. -/
theorem diagnostics_relocate {block : Block}
    (h : ∀ name a, block.redeclared = some (name, a) → SymbolTable.isReserved a = false) :
    (block.relocate d).diagnostics = block.diagnostics.map (Diagnostic.relocate d) := by
  rw [diagnostics, diagnostics, length_relocate, List.map_append]
  congr 1
  · obtain ⟨span, code, inLoop, redeclared⟩ := block
    cases redeclared with
    | none => rfl
    | some named =>
      have hnamed := relocateCell_of_unreserved (d := d) (h named.1 named.2 rfl)
      simp only [relocate, relocateNamed, Option.map_some, Option.toList_some, List.map_cons,
        List.map_nil, hnamed, Diagnostic.relocate]
  · have hinLoop : (block.relocate d).inLoop = block.inLoop := rfl
    rw [hinLoop]
    by_cases hreport : block.inLoop = true ∧ block.code.length ≠ 1
    · rw [if_pos hreport, if_pos hreport]
      rfl
    · rw [if_neg hreport, if_neg hreport]
      rfl

end Block

namespace Program

variable {program : Program} {first second : Int} {compiled other : Compiled}

/-- The blocks and the table of a program, for another data base. -/
theorem compile_blocks (h : program.compile first = .ok compiled)
    (hother : program.compile second = .ok other) :
    other.blocks = compiled.blocks.map (Block.relocate (second - first)) ∧
      other.symbols = compiled.symbols.relocate (second - first) := by
  rcases compile_ok h with ⟨pairs, hpairs, hrun, -⟩
  rcases compile_ok hother with ⟨pairs', hpairs', hrun', -⟩
  rw [hpairs] at hpairs'
  cases hpairs'
  have hbase : SymbolTable.empty second
      = (SymbolTable.empty first).relocate (second - first) := by
    rw [SymbolTable.relocate_empty]
    exact congrArg SymbolTable.empty (by omega)
  rw [hbase] at hrun'
  exact Lowering.relocates_statements _ pairs 0 [] program.statements hrun hrun'

theorem redeclared_unreserved (h : program.compile first = .ok compiled) {block : Block}
    (hblock : block ∈ compiled.blocks) {name : String} {a : Int}
    (hname : block.redeclared = some (name, a)) : SymbolTable.isReserved a = false := by
  rcases compile_block h hblock with ⟨_, k, s, _, before, _, after, -, hlowers, hwithin, hgrows⟩
  have hbound := hwithin.bound name a (hlowers.redeclared_bound hname)
  exact compile_unreserved h (hbound.mono ((hlowers.leaves hwithin).grows.trans hgrows))

/-- The data base only relocates, if addresses are integers. -/
theorem compile_shifted (h : program.compile first = .ok compiled)
    (hother : program.compile second = .ok other) :
    compiled.Shifted (second - first) other := by
  rcases compile_blocks h hother with ⟨hblocks, hsymbols⟩
  have hcode : other.code = compiled.code.map (Instruction.relocate (second - first)) := by
    rw [Compiled.code, Compiled.code, hblocks, List.flatMap_map, List.map_flatMap]
    rfl
  refine ⟨hcode, ?_, ?_, ?_, ?_, ?_, fun name => ?_⟩
  · rw [hcode, List.map_map]
    exact List.map_congr_left fun i _ => i.opcode_relocate _
  · rw [Compiled.sourceMap, Compiled.sourceMap, hblocks, List.flatMap_map]
    simp only [Block.length_relocate]
    rfl
  · rw [Compiled.diagnostics, Compiled.diagnostics, hblocks, List.flatMap_map, List.map_flatMap]
    exact List.flatMap_congr fun block hblock =>
      Block.diagnostics_relocate _ fun name a hname => redeclared_unreserved h hblock hname
  · rw [hsymbols, SymbolTable.relocate]
    refine List.map_congr_left fun cell hcell => ?_
    -- No cell of a table is a reserved one, so all of them move.
    have hcell := compile_unreserved h ((compile_cells h).1 cell hcell).2.1
    rw [SymbolTable.relocateData, relocateCell_of_unreserved hcell]
  · rw [hsymbols, SymbolTable.relocate, List.map_map]
    rfl
  · rw [hsymbols, SymbolTable.get?_relocate]
    cases hget : compiled.symbols.get? name with
    | none => rfl
    | some info =>
      have hbound : compiled.symbols.addressOf? name = some info.address := by
        rw [SymbolTable.addressOf?, hget]
        rfl
      have haddress := compile_unreserved h ((compile_leaves h).within.bound name _ hbound)
      rw [Option.map_some, Option.map_some, SymbolTable.relocateInfo,
        relocateCell_of_unreserved haddress]

/-- A program that prints a string in a loop and declares a name twice. -/
def printsInTurn : Program where
  statements := [⟨.int "a" 3, ⟨0, 7⟩⟩, ⟨.string "s" "hi", ⟨8, 21⟩⟩, ⟨.int "a" 4, ⟨22, 29⟩⟩,
    ⟨.loop (.name "a") .greater (.literal "0" 0), ⟨30, 41⟩⟩, ⟨.outputStr "s", ⟨42, 55⟩⟩,
    ⟨.endLoop, ⟨56, 64⟩⟩]

/-- The same program, compiled. -/
def printsInTurnCompiled : Compiled .wrapping where
  blocks := [⟨⟨0, 7⟩, [], false, none⟩, ⟨⟨8, 21⟩, [], false, none⟩,
    ⟨⟨22, 29⟩, [], false, some ("a", 1000)⟩,
    ⟨⟨30, 41⟩, Lowering.loopHead .greater 1000 996 995 3, false, none⟩,
    ⟨⟨42, 55⟩, Lowering.outputStrCode 996 995 999 994, true, none⟩,
    ⟨⟨56, 64⟩, Lowering.loopEnd 3, true, none⟩]
  symbols := ⟨[("a", ⟨1000, .int⟩), ("s", ⟨999, .str 2⟩), ("0", ⟨996, .literal⟩),
    ("1", ⟨995, .literal⟩)], [⟨.data 3, 1000⟩, ⟨.data 2, 999⟩, ⟨.data 104, 998⟩,
    ⟨.data 105, 997⟩, ⟨.data 0, 996⟩, ⟨.data 1, 995⟩], 994⟩

/-- From the least word downwards there is no room for the string behind the number. -/
example : ((printsInTurn.compile Word.minimum .wrapping).toOption.map (·.symbols.cells.take 2))
    = some [⟨.data 3, Word.minimum⟩, ⟨.data 2, Word.maximum⟩] := rfl

end Program

end AccumulatorMachine
