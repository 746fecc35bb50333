import AccumulatorMachine.Decimal

/-!
# Instructions

The instruction set of the accumulator machine. Every instruction is an opcode with one
operand, which an opcode takes as a cell address, a relative offset, a mode or not at all.

Opcodes are known by their mnemonics outside the machine. `OpCode.all` is the whole set in
its fixed order, and reading a mnemonic is searching that list, so the table of spellings is
written down once.

## Main definitions

* `SkipCondition`: A predicate on the flags.
* `OpCode`, `OpCode.mnemonic`, `OpCode.ofMnemonic?`: The opcodes and their spellings.
* `Instruction`: An opcode with its operand.

## Theorems

* `OpCode.mem_all`: The list of opcodes is complete.
* `OpCode.ofMnemonic?_mnemonic`: A mnemonic reads back as its opcode.
* `OpCode.mnemonic_of_ofMnemonic?`: Only the mnemonic of an opcode reads as that opcode.
-/

namespace AccumulatorMachine

/-- The address of the first variable unless another one is asked for. Variables are given
    addresses downwards from here. -/
def dataSegmentBase : Int := 1000

/-- The scratch cell that counts characters in the loops that read and print strings. -/
def counterCell : Int := 1001

/-- The scratch cell that holds a character between reading and echoing it. -/
def bufferCell : Int := 1002

/-- The operand of an input or output instruction that works on decimal integers. -/
def integerMode : Int := 0

/-- The operand of an output instruction that works on single characters. -/
def characterMode : Int := 1

/-- A predicate on the flags that a skip instruction tests. -/
inductive SkipCondition where
  /-- The zero flag is set. -/
  | zero
  /-- The signed flag is set. -/
  | signed
  /-- One of the two flags is set. -/
  | signedOrZero
  deriving DecidableEq, Repr

/-- Whether the flags satisfy a condition. -/
def SkipCondition.holds (zero signed : Bool) : SkipCondition → Bool
  | .zero => zero
  | .signed => signed
  | .signedOrZero => signed || zero

/-- The operations of the machine. -/
inductive OpCode where
  /-- Adds a cell to the accumulator. -/
  | add
  /-- Subtracts a cell from the accumulator. -/
  | subtract
  /-- Multiplies the accumulator by a cell. -/
  | multiply
  /-- Divides the accumulator by a cell and rounds the quotient down. -/
  | divide
  /-- Adds the operand to the program counter. -/
  | jump
  /-- Steps over the next instruction if the condition holds, or if it does not hold when
      negated. -/
  | skip (condition : SkipCondition) (negated : Bool)
  /-- Loads a cell into the accumulator. -/
  | read
  /-- Stores the accumulator into a cell. -/
  | write
  /-- Loads the operand itself into the accumulator. -/
  | readAddress
  /-- Loads the cell that the accumulator points to into the accumulator. -/
  | writeAddress
  /-- Reads an integer or a character from the input. -/
  | input
  /-- Writes the accumulator to the output as an integer or a character. -/
  | output
  /-- Halts the machine. -/
  | halt
  deriving DecidableEq, Repr

namespace OpCode

/-- All opcodes in their fixed order. -/
def all : List OpCode :=
  [add, subtract, multiply, divide, jump,
    skip .zero false, skip .zero true, skip .signed false, skip .signed true,
    skip .signedOrZero false, skip .signedOrZero true,
    read, write, readAddress, writeAddress, input, output, halt]

/-- The spelling of an opcode. -/
def mnemonic : OpCode → String
  | add => "ADD"
  | subtract => "SUB"
  | multiply => "MUL"
  | divide => "DIV"
  | jump => "JUMP"
  | skip .zero false => "JMPZ"
  | skip .zero true => "JMPNZ"
  | skip .signed false => "JMPS"
  | skip .signed true => "JMPNS"
  | skip .signedOrZero false => "JMPSZ"
  | skip .signedOrZero true => "JMPNSNZ"
  | read => "READ"
  | write => "WRITE"
  | readAddress => "READADR"
  | writeAddress => "WRITEADR"
  | input => "INPUT"
  | output => "OUTPUT"
  | halt => "BREAK"

/-- The opcode that is spelled like this. Case matters. -/
def ofMnemonic? (text : String) : Option OpCode :=
  all.find? fun opcode => opcode.mnemonic = text

theorem mem_all (opcode : OpCode) : opcode ∈ all := by
  cases opcode with
  | skip condition negated => cases condition <;> cases negated <;> decide
  | _ => decide

theorem ofMnemonic?_mnemonic (opcode : OpCode) : ofMnemonic? opcode.mnemonic = some opcode := by
  cases opcode with
  | skip condition negated => cases condition <;> cases negated <;> decide
  | _ => decide

theorem mnemonic_of_ofMnemonic? {text : String} {opcode : OpCode}
    (h : ofMnemonic? text = some opcode) : opcode.mnemonic = text := by
  simpa using List.find?_some h

/-- The message for a text that spells no opcode. -/
def unknownMessage (text : String) : String :=
  "unknown opcode mnemonic '" ++ text ++ "'"

end OpCode

/-- An opcode with its operand. -/
structure Instruction where
  opcode : OpCode
  operand : Int
  deriving DecidableEq, Repr

namespace Instruction

/-- The instruction as the journal shows it: a dictionary of its opcode and its operand. -/
def render (instruction : Instruction) : String :=
  "\x7b'opcode': '" ++ instruction.opcode.mnemonic ++ "', 'address': "
    ++ Decimal.ofInt instruction.operand ++ "\x7d"

end Instruction

end AccumulatorMachine
