import AccumulatorMachine.Decimal
import AccumulatorMachine.Text.Quoted

/-!
# Faults

What can stop the machine in the middle of an instruction.

A fault is raised by a single operation, which does not know the place in the program that it
works for. A failure adds that place: the program counter, and the number of the tick.

## Main definitions

* `Fault`: The reason why an operation cannot be done.
* `Failure`: A fault with its place in a run.
-/

namespace AccumulatorMachine

/-- The reason why an operation of the machine cannot be done. -/
inductive Fault where
  | divisionByZero
  /-- The result of an operation is not a word. -/
  | arithmeticOverflow
  /-- There is no cell at an address that is read. -/
  | unmappedAddress (address : Int)
  /-- There is an instruction at an address that is read. -/
  | notData (address : Int)
  /-- There is a number where an instruction is fetched. -/
  | notAnInstruction (address value : Int)
  /-- A number that is printed as a character is none. -/
  | invalidCharacter (value : Int)
  /-- The input that is read as an integer is none. -/
  | invalidIntegerInput (input : List Char)
  | tickLimitExceeded (limit : Nat)
  deriving DecidableEq, Repr

/-- The wording of a fault. -/
def Fault.message : Fault → String
  | divisionByZero => "division by zero"
  | arithmeticOverflow => "arithmetic overflow"
  | unmappedAddress address => "read from unmapped address " ++ Decimal.ofInt address
  | notData address => "cell " ++ Decimal.ofInt address ++ " holds an instruction, not data"
  | notAnInstruction address value =>
    "cell " ++ Decimal.ofInt address ++ " holds the data value " ++ Decimal.ofInt value
      ++ ", not an instruction"
  | invalidCharacter value => Decimal.ofInt value ++ " is not a valid character code"
  | invalidIntegerInput input => "input " ++ Text.quoted input ++ " is not an integer"
  | tickLimitExceeded limit => "tick limit of " ++ Decimal.ofNat limit ++ " exceeded"

/-- A fault with the place in the run at which it came up. -/
structure Failure where
  fault : Fault
  /-- The program counter when the machine stopped. -/
  pc : Int
  /-- The number of the tick that was not completed. -/
  tick : Nat
  deriving DecidableEq, Repr

/-- The message of a failure. -/
def Failure.message (f : Failure) : String :=
  "tick " ++ Decimal.ofNat f.tick ++ ", PC " ++ Decimal.ofInt f.pc ++ ": " ++ f.fault.message

end AccumulatorMachine
