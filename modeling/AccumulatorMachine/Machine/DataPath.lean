import AccumulatorMachine.Machine.Arithmetic
import AccumulatorMachine.Machine.Memory

/-!
# The Data Path

The registers, the flags, the memory and the two devices of the machine, and the operations
that move words between them.

Every micro-operation changes one register and what depends on it. It either succeeds as a
whole or faults, so a fault can be noticed between two of them but never inside one. Which
operations run in which order is not the business of the data path. Neither is the program: an
operation sees of it only the operand of the instruction that is latched.

## Main definitions

* `DataPath`: The state of the data path.
* `MicroOp`: The micro-operations.
* `DataPath.apply`: What a micro-operation does.
* `DataPath.emitted`: The output of a character or a number.
-/

namespace AccumulatorMachine

/-- The state of the data path. -/
structure DataPath where
  memory : Memory
  /-- The accumulator. -/
  acc : Int
  /-- The memory address register. -/
  address : Int
  /-- The program counter. -/
  pc : Int
  /-- Whether the accumulator was zero when it was last written. -/
  zero : Bool
  /-- Whether the accumulator was negative when it was last written. -/
  signed : Bool
  /-- Whether a character was read when there was none. -/
  exhausted : Bool
  /-- What the last fetch found. -/
  instruction : Option CellValue
  /-- The input that has not been consumed. -/
  input : List Char
  /-- The tokens that have been printed, the newest one first. -/
  printed : List String

/-- Where the address register is loaded from. -/
inductive AddressSource where
  | programCounter
  /-- The operand of the latched instruction. -/
  | direct
  /-- The accumulator. -/
  | indirect
  deriving DecidableEq, Repr

/-- Where the accumulator is loaded from. -/
inductive AccumulatorSource where
  /-- The input device. -/
  | input
  /-- The address register. -/
  | address
  /-- The arithmetic unit, fed with the accumulator and the cell at the address register. -/
  | arithmetic (op : ArithmeticOp)
  deriving DecidableEq, Repr

/-- How the program counter moves on. -/
inductive PcUpdate where
  /-- By the operand of the latched instruction. -/
  | jump
  /-- Over the next instruction. -/
  | skip
  | advance
  deriving DecidableEq, Repr

/-- An operation on the data path that is done as a whole or not at all. -/
inductive MicroOp where
  | latchAddress (source : AddressSource)
  /-- Loads the instruction register from the cell at the address register. -/
  | latchInstruction
  | latchAccumulator (source : AccumulatorSource)
  /-- Stores the accumulator into the cell at the address register. -/
  | write
  | latchPc (update : PcUpdate)
  /-- Prints the accumulator. -/
  | emit
  deriving DecidableEq, Repr

/-- The white space that may stand around an integer in the input. -/
def isInputSpace (c : Char) : Bool := c = ' ' || c = '\t' || c = '\r' || c = '\n'

/-- The word that a whole input denotes: a numeral with an optional sign, with white space around
    it. -/
def inputInteger? (input : List Char) : Option Int :=
  let text := input.dropWhile isInputSpace
  Decimal.word? ((text.reverse.dropWhile isInputSpace).reverse)

/-- The character with a code. -/
def charOfCode? (code : Int) : Option Char :=
  if 0 ≤ code ∧ code.toNat.isValidChar then some (Char.ofNat code.toNat) else none

namespace DataPath

/-- A data path at the first instruction, with a loaded memory and an untouched input. -/
def start (memory : Memory) (input : List Char) : DataPath where
  memory := memory
  acc := 0
  address := 0
  pc := 0
  zero := false
  signed := false
  exhausted := false
  instruction := none
  input := input
  printed := []

/-- The tokens that have been printed, in order. -/
def tokens (d : DataPath) : List String := d.printed.reverse

/-- The operand of the latched instruction, or zero if none is latched. -/
def operand (d : DataPath) : Int :=
  match d.instruction with
  | some (.code instruction) => instruction.operand
  | _ => 0

/-- The data path with a word in the accumulator and with the flags for it. -/
def setAccumulator (d : DataPath) (value : Int) : DataPath :=
  { d with acc := value, zero := value = 0, signed := value < 0 }

/-- The number in the cell at the address register. -/
def readData (d : DataPath) : Except Fault Int :=
  match d.memory.read d.address with
  | some (.data value) => .ok value
  | some (.code _) => .error (.notData d.address)
  | none => .error (.unmappedAddress d.address)

/-- Reads an integer from the input, which has to be an integer as a whole and is not consumed. -/
def readInteger (d : DataPath) : Except Fault DataPath :=
  match inputInteger? d.input with
  | some value => .ok (d.setAccumulator value)
  | none => .error (.invalidIntegerInput d.input)

/-- Reads a character from the input. Without input the accumulator keeps its word, and the flags
    are set for it. -/
def readCharacter (d : DataPath) : DataPath :=
  match d.input with
  | c :: input => { d with input := input }.setAccumulator c.toNat
  | [] => { d with exhausted := true }.setAccumulator d.acc

/-- What the accumulator is as output: a character in character mode, and a decimal number in any
    other. -/
def emitted (d : DataPath) : Except Fault String :=
  if d.operand = characterMode then
    match charOfCode? d.acc with
    | some c => .ok (String.singleton c)
    | none => .error (.invalidCharacter d.acc)
  -- Any other operand means integer mode.
  else .ok (Decimal.ofInt d.acc)

/-- The word that the address register is loaded with. -/
def sourceAddress (d : DataPath) : AddressSource → Int
  | .programCounter => d.pc
  | .direct => d.operand
  | .indirect => d.acc

/-- The distance that the program counter moves on. -/
def offset (d : DataPath) : PcUpdate → Int
  | .jump => d.operand
  | .skip => 2
  | .advance => 1

/-- Loads the accumulator. -/
def loadAccumulator (d : DataPath) : AccumulatorSource → Except Fault DataPath
  | .input => if d.operand = integerMode then d.readInteger else .ok d.readCharacter
  | .address => .ok (d.setAccumulator d.address)
  | .arithmetic op => do
    let value ← op.apply d.acc (← d.readData)
    return d.setAccumulator value

/-- What a micro-operation does. -/
def apply (d : DataPath) : MicroOp → Except Fault DataPath
  | .latchAddress source => .ok { d with address := d.sourceAddress source }
  | .latchInstruction => .ok { d with instruction := d.memory.read d.address }
  | .latchAccumulator source => d.loadAccumulator source
  | .write => .ok { d with memory := d.memory.write d.address (.data d.acc) }
  | .latchPc update => do
    let pc ← ArithmeticOp.exactly (d.pc + d.offset update)
    return { d with pc := pc }
  | .emit => do
    let token ← d.emitted
    return { d with printed := token :: d.printed }

end DataPath

end AccumulatorMachine
