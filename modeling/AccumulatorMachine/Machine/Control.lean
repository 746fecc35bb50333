import AccumulatorMachine.Machine.Event
import AccumulatorMachine.Machine.Microprogram

/-!
# The Machine

The data path under the control of microprograms, tick by tick.

A step runs one instruction: its fetch, and then the microprogram of what was fetched. A fault
stops it between two actions and keeps what was done before, ticks and events included. It does
not halt the machine, so a later step fetches again from where the program counter is. A halted
machine stays as it is.

A run may go on forever. `runFor` cuts it after a number of steps, and `run` after so many that
no run with a tick limit gets there, since each of its steps but the last ends a tick.

## Main definitions

* `Machine`: The data path with its clock and its events.
* `Machine.load`: A machine with an image and an input.
* `Machine.perform`, `Machine.performAll`: What actions do.
* `Machine.step`: One instruction.
* `Machine.runFor`, `Machine.run`: Instructions until the machine stops.
* `execute`: The result of a run that halts.

## Theorems

* `Machine.step_of_halted`: A halted machine stays as it is.
* `Machine.runFor_add`: Splitting a run at an intermediate count.
-/

namespace AccumulatorMachine

/-- The data path with its clock and what it has reported. -/
structure Machine where
  path : DataPath
  /-- The number of the tick that is going on, counted from one. -/
  tick : Nat
  halted : Bool
  /-- The greatest number of ticks that may end. -/
  tickLimit : Option Nat
  /-- What was reported, the newest event first. -/
  log : List Event

namespace Machine

/-- A machine that starts with an image in its memory and an input. -/
def load (image : Image) (input : List Char) (tickLimit : Option Nat) : Machine where
  path := .start (.ofCells image.cells) input
  tick := 1
  halted := false
  tickLimit := tickLimit
  log := []

/-- The number of ticks that have ended. -/
def ticks (m : Machine) : Nat := m.tick - 1

/-- Everything that was printed. -/
def output (m : Machine) : String := String.join m.path.tokens

/-- What was reported, in order. -/
def events (m : Machine) : List Event := m.log.reverse

/-- The records of the ticks that have ended. -/
def journal (m : Machine) : List TickRecord := m.events.filterMap Event.record?

/-- The record of the tick that is going on. -/
def record (m : Machine) : TickRecord :=
  ⟨m.tick, m.path.acc, m.path.address, m.path.pc, m.path.instruction⟩

/-- The machine after it has reported something. -/
def report (m : Machine) (event : Event) : Machine := { m with log := event :: m.log }

/-- Ends the tick that is going on. The limit is checked here and not when the tick starts, so
    what the tick has done stays done. -/
def endTick (m : Machine) : Except Fault Machine :=
  -- The record shows the tick that ends, and the clock goes on from there.
  let ended := { m.report (.tick m.record) with tick := m.tick + 1 }
  match m.tickLimit with
  | some limit => if limit < m.tick then .error (.tickLimitExceeded limit) else .ok ended
  | none => .ok ended

/-- Does a micro-operation on the data path. -/
def micro (m : Machine) (op : MicroOp) : Except Fault Machine := do
  let path ← m.path.apply op
  return { m with path := path }

/-- Does an action. -/
def perform (m : Machine) : Action → Except Fault Machine
  | .micro op => m.micro op
  | .jumpIfExhausted => if m.path.exhausted then m.micro (.latchPc .jump) else .ok m
  | .reportStore => .ok (m.report (.stored m.path.address m.path.acc))
  | .reportOutput => .ok (m.report (.printed (m.path.printed.headD "")))
  | .endTick => m.endTick
  | .halt => .ok ({ m with halted := true }.report (.halted m.ticks))

/-- Does actions up to the first that faults. -/
def performAll : List Action → Machine → Machine × Option Fault
  | [], m => (m, none)
  | action :: actions, m =>
    match m.perform action with
    | .ok m => performAll actions m
    | .error fault => (m, some fault)

/-- The actions of what was fetched. Where there is no cell the program ends. -/
def decoded (m : Machine) : Except Fault (List Action) :=
  match m.path.instruction with
  | some (.code instruction) =>
    .ok (instruction.opcode.actions m.path.zero m.path.signed)
  | some (.data value) => .error (.notAnInstruction m.path.address value)
  -- An address without a cell is the end of the program.
  | none => .ok [.halt]

/-- Fetches an instruction and does its actions. -/
def cycle (m : Machine) : Machine × Option Fault :=
  match performAll fetchActions m with
  | (m, some fault) => (m, some fault)
  | (m, none) =>
    match m.decoded with
    | .ok actions => performAll actions m
    | .error fault => (m, some fault)

/-- Runs one instruction unless the machine has halted. -/
def step (m : Machine) : Machine × Option Failure :=
  if m.halted then (m, none)
  else
    -- The failure has the program counter as the fault found it, which may have moved.
    let (m, fault) := m.cycle
    (m, fault.map fun fault => ⟨fault, m.path.pc, m.tick⟩)

/-- Runs instructions until the machine halts or fails, but at most a number of them. -/
def runFor : Nat → Machine → Machine × Option Failure
  | 0, m => (m, none)
  | steps + 1, m =>
    if m.halted then (m, none)
    else match m.step with
      | (m, none) => runFor steps m
      | (m, some failure) => (m, some failure)

theorem step_of_halted {m : Machine} (h : m.halted = true) : m.step = (m, none) := by
  rw [step, if_pos h]

theorem runFor_of_halted {m : Machine} (h : m.halted = true) (steps : Nat) :
    runFor steps m = (m, none) := by
  cases steps with
  | zero => rfl
  | succ steps => rw [runFor, if_pos h]

/-- A run can be split anywhere. If its first part ends by a halt or a failure, the second part
    adds nothing to it. -/
theorem runFor_add (first second : Nat) (m : Machine) :
    runFor (first + second) m = match runFor first m with
      | (m', none) => runFor second m'
      | (m', some failure) => (m', some failure) := by
  induction first generalizing m with
  | zero => rw [Nat.zero_add, runFor]
  | succ first ih =>
    rw [Nat.add_right_comm, runFor, runFor]
    split
    -- A machine that has halted makes no step in either part.
    · next halted => exact (runFor_of_halted halted second).symm
    · cases m.step with
      | mk m' failure =>
        cases failure with
        | none => exact ih m'
        | some failure => rfl

/-- The number of steps after which a run is cut. With a tick limit every run is over by then,
    and without one the ticks have left the range of the clock, which has 64 bits. -/
def stepBound (m : Machine) : Nat :=
  match m.tickLimit with
  | some limit => limit + 1
  | none => Nat.pow 2 64

/-- Runs the machine until it halts or fails. -/
def run (m : Machine) : Machine × Option Failure := runFor m.stepBound m

end Machine

/-- What a run leaves that has halted. -/
structure Execution where
  output : String
  journal : List TickRecord
  memory : Memory

/-- Runs an image on an input. -/
def execute (image : Image) (input : List Char) (tickLimit : Option Nat) :
    Except Failure Execution :=
  match (Machine.load image input tickLimit).run with
  | (m, none) => .ok ⟨m.output, m.journal, m.path.memory⟩
  | (_, some failure) => .error failure

end AccumulatorMachine
