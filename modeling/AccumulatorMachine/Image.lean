import AccumulatorMachine.Instruction

/-!
# Program Images

What is loaded into the memory of the machine: a list of addressed cells, each holding an
instruction or a number.

An image keeps its cells in the order in which they were laid out, code first, and nothing
in the type stops two cells from naming one address. `get?` answers with the first of them.

## Main definitions

* `CellValue`, `Cell`: What a cell holds, and where.
* `Image`: A list of cells.
* `Image.ofParts`: Code from address zero upwards, and data after it.
* `Image.get?`: The first cell at an address.
-/

namespace AccumulatorMachine

/-- The contents of a memory cell. -/
inductive CellValue where
  | data (value : Int)
  | code (instruction : Instruction)
  deriving DecidableEq, Repr

namespace CellValue

/-- The decimal number or the instruction, as the journal shows it. -/
def render : CellValue → String
  | data value => Decimal.ofInt value
  | code instruction => instruction.render

end CellValue

/-- A memory cell with its address. -/
structure Cell where
  value : CellValue
  address : Int
  deriving DecidableEq, Repr

namespace Cell

/-- The address and the value of the cell. -/
def render (cell : Cell) : String :=
  Decimal.ofInt cell.address ++ ": " ++ cell.value.render

end Cell

/-- The cells of a program, in the order in which they were laid out. -/
structure Image where
  cells : List Cell
  deriving DecidableEq, Repr

namespace Image

/-- The cells of a list of instructions, from address `start` upwards. -/
def codeCells (start : Nat) : List Instruction → List Cell
  | [] => []
  | instruction :: code => ⟨.code instruction, start⟩ :: codeCells (start + 1) code

/-- The image of code from address zero upwards, followed by data cells as they are. -/
def ofParts (code : List Instruction) (data : List Cell) : Image :=
  ⟨codeCells 0 code ++ data⟩

/-- The instruction cells in image order. -/
def instructions (image : Image) : List (Int × Instruction) :=
  image.cells.filterMap fun cell => match cell.value with
    | .code instruction => some (cell.address, instruction)
    | .data _ => none

/-- The data cells in image order. -/
def data (image : Image) : List (Int × Int) :=
  image.cells.filterMap fun cell => match cell.value with
    | .data value => some (cell.address, value)
    | .code _ => none

/-- The value of the first cell at an address. -/
def get? (image : Image) (address : Int) : Option CellValue :=
  (image.cells.find? fun cell => cell.address = address).map Cell.value

end Image

end AccumulatorMachine
