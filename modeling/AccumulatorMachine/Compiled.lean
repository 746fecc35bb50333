import AccumulatorMachine.Lowering.Statement
import AccumulatorMachine.Source.Program

/-!
# Compiled Programs

The image of a program, together with what is known about it.

The blocks of the statements stand side by side from address zero upwards, and the initial data
cells follow. An image is refused if a data cell lies among the addresses of the code. Which
statement an instruction comes from is read off the blocks, and so are the diagnostics.

A compilation counts addresses as its symbol table does. A program that compiles has the same code
and the same cells with words as with all integers, unless the words run out.

## Main definitions

* `Compiled`: The blocks and the symbol table of a program.
* `Compiled.image`: The image of a compiled program.
* `Compiled.sourceMap`: The span of the statement behind every instruction.
* `Program.compile`: The compilation of a program.
* `Compiled.ofSource?`: The compilation of a source text.
-/

namespace AccumulatorMachine

/-- The result of a compilation. -/
structure Compiled (c : Countdown := .unbounded) where
  /-- The code of the statements in source order. -/
  blocks : List Block
  /-- The bindings after the last statement. -/
  symbols : SymbolTable c
  deriving DecidableEq, Repr

namespace Compiled

variable {c : Countdown}

/-- The instructions in the order of their addresses. -/
def code (compiled : Compiled c) : List Instruction :=
  compiled.blocks.flatMap Block.code

/-- The image: the code from address zero upwards, and the initial data cells. -/
def image (compiled : Compiled c) : Image :=
  .ofParts compiled.code compiled.symbols.cells

/-- The span of the statement behind every instruction, in the order of their addresses. -/
def sourceMap (compiled : Compiled c) : List Span :=
  compiled.blocks.flatMap fun block => List.replicate block.code.length block.span

/-- The findings about all statements in source order. -/
def diagnostics (compiled : Compiled c) : List Diagnostic :=
  compiled.blocks.flatMap Block.diagnostics

/-- The first data cell that lies among the addresses of the code. -/
def overlap? (compiled : Compiled c) : Option Cell :=
  compiled.symbols.cells.find? fun cell =>
    0 ≤ cell.address ∧ cell.address < compiled.code.length

end Compiled

namespace Program

/-- Compiles a program whose first variable gets the address `dataBase`. Loops are paired before
    anything is lowered. -/
def compile (program : Program) (dataBase : Int) (c : Countdown := .unbounded) :
    Except CompileError (Compiled c) := do
  let pairs ← LoopPairs.ofStatements? program.statements
  let (blocks, symbols) ← (Lowering.statements pairs 0 [] program.statements).run
    (.empty dataBase c)
  let compiled : Compiled c := ⟨blocks, symbols⟩
  -- The length of the code is known only now, so no statement is to blame for an overlap.
  match compiled.overlap? with
  | some cell => .error ⟨.segmentOverlap cell.address compiled.code.length, none⟩
  | none => .ok compiled

end Program

namespace Compiled

/-- Parses and compiles a source text. -/
def ofSource? (source : List Char) (dataBase : Int) (c : Countdown := .unbounded) :
    Except SourceError (Compiled c) := do
  let program ← (Program.parse? source).mapError .parse
  (program.compile dataBase c).mapError .compile

end Compiled

end AccumulatorMachine
