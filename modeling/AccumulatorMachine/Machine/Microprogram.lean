import AccumulatorMachine.Machine.DataPath

/-!
# Microprograms

What the machine does for every instruction, as a list of actions.

An instruction takes one tick to fetch and then as many as its microprogram has ends of a tick:
one for most, two for those that load an address first, none to halt. A store and an output are
reported only after the program counter has moved on, so an overflow there leaves them
unreported.

## Main definitions

* `Action`: A step of a microprogram.
* `fetchActions`: What every instruction starts with.
* `OpCode.actions`: The microprogram of an instruction.
-/

namespace AccumulatorMachine

/-- A step of a microprogram. -/
inductive Action where
  | micro (op : MicroOp)
  /-- Moves the program counter by the operand if there was no character to read. -/
  | jumpIfExhausted
  /-- Reports the word that was stored. -/
  | reportStore
  /-- Reports the token that was printed. -/
  | reportOutput
  /-- Ends the tick, unless that exceeds the limit. -/
  | endTick
  | halt
  deriving DecidableEq, Repr

/-- The actions that load the instruction register from the program counter. -/
def fetchActions : List Action :=
  [.micro (.latchAddress .programCounter), .micro .latchInstruction, .endTick]

/-- The actions of an operation of the arithmetic unit on the cell that the operand names. -/
def arithmeticActions (op : ArithmeticOp) : List Action :=
  [.micro (.latchAddress .direct), .micro (.latchAccumulator (.arithmetic op)),
    .micro (.latchPc .advance), .endTick]

/-- The actions of an instruction after its fetch, with the given flags. -/
def OpCode.actions (zero signed : Bool) : OpCode → List Action
  | .read => arithmeticActions .replace
  | .add => arithmeticActions .add
  | .subtract => arithmeticActions .subtract
  | .multiply => arithmeticActions .multiply
  | .divide => arithmeticActions .divide
  | .write =>
    [.micro (.latchAddress .direct), .micro .write, .micro (.latchPc .advance), .reportStore,
      .endTick]
  | .jump => [.micro (.latchPc .jump), .endTick]
  | .skip condition negated =>
    [.micro (.latchPc (if condition.holds zero signed != negated then .skip else .advance)),
      .endTick]
  | .readAddress =>
    [.micro (.latchAddress .direct), .endTick,
      .micro (.latchAccumulator .address), .micro (.latchPc .advance), .endTick]
  | .writeAddress =>
    [.micro (.latchAddress .indirect), .endTick,
      .micro (.latchAccumulator (.arithmetic .replace)), .micro (.latchPc .advance), .endTick]
  | .input =>
    -- The jump is taken on top of the usual advance, so it leads one further than its operand.
    [.micro (.latchAccumulator .input), .jumpIfExhausted, .micro (.latchPc .advance), .endTick]
  | .output => [.micro .emit, .micro (.latchPc .advance), .reportOutput, .endTick]
  -- No tick ends here, so a halt is not in the journal.
  | .halt => [.halt]

end AccumulatorMachine
