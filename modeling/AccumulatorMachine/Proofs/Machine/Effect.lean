import AccumulatorMachine.Machine.Control
import AccumulatorMachine.Proofs.Machine.Arithmetic
import AccumulatorMachine.Proofs.Outcome

/-!
# Instructions as a Whole

What an instruction does to a machine, without the ticks it takes.

The control unit spreads an instruction over micro-operations, with registers that matter only
in between: the address register, the instruction register and the clock. A program cannot see
them. What it can see is the `Core`, and `Core.effect` says for every instruction what happens to
the core and by how much the program counter moves.

All moves are relative. The effect of an instruction therefore does not depend on where it
stands, which is what lets a piece of code be understood on its own and then be placed anywhere.

The two descriptions meet in `cycle_of_code`. An instruction whose effect is a fault stops the
machine where it is. Otherwise the machine has the new core, and has moved on, unless the move
leaves the range of the program counter. Only an input may move in two legs, and each of them is
checked.

## Main definitions

* `Core`: The state that a program can see, except for its place.
* `Core.effect`: What an instruction does.
* `Machine.At`: A machine at a place with a core, not stopped by a halt or by a limit.
* `Instruction.legs`: The moves an instruction makes one after another.
* `Machine.MovesAlong`, `Machine.HasEffect`: The outcomes of moves and of an instruction.

## Theorems

* `Core.compute_of_data`: An operation on a number.
* `DataPath.loadAccumulator_arithmetic`, `DataPath.loadAccumulator_input`, `DataPath.apply_emit`:
  The micro-operations that compute are functions of the core.
* `Machine.performAll_actions`: A microprogram has the effect of its instruction.
* `Machine.cycle_of_code`: A cycle has the effect of the instruction at the program counter.
* `Machine.movesAlong_of_legs`: Where nothing goes out of range, the legs come to one move.
* `Machine.step_of_effect`, `Machine.step_of_overflow`, `Machine.step_of_fault`: The outcomes of a
  step onto an instruction.
* `Machine.step_of_absent`: A step without a cell at the program counter halts.
* `Machine.step_of_data`: A step onto a number fails.
-/

namespace AccumulatorMachine

/-- What a program can see of a machine, except for its place in the program. -/
structure Core where
  memory : Memory
  acc : Int
  zero : Bool
  signed : Bool
  exhausted : Bool
  input : List Char
  /-- The tokens that have been printed, the newest one first. -/
  printed : List String

namespace Core

/-- The core with a word in the accumulator and with the flags for it. -/
def setAccumulator (c : Core) (value : Int) : Core :=
  { c with acc := value, zero := value = 0, signed := value < 0 }

/-- The number in a cell. -/
def load (c : Core) (address : Int) : Except Fault Int :=
  match c.memory.read address with
  | some (.data value) => .ok value
  | some (.code _) => .error (.notData address)
  | none => .error (.unmappedAddress address)

/-- The core after the accumulator is stored. -/
def store (c : Core) (address : Int) : Core :=
  { c with memory := c.memory.write address (.data c.acc) }

/-- The core after an operation on the accumulator and a cell. -/
def compute (c : Core) (op : ArithmeticOp) (address : Int) : Except Fault Core := do
  let cell ← c.load address
  let value ← op.apply c.acc cell
  return c.setAccumulator value

theorem compute_of_load {c : Core} {op : ArithmeticOp} {address value : Int}
    (h : c.load address = .ok value) :
    c.compute op address = (op.apply c.acc value).map c.setAccumulator := by
  rw [compute, h]
  cases hresult : op.apply c.acc value <;> simp [bind, Except.bind, hresult, Except.map, pure,
    Except.pure]

theorem compute_of_load_error {c : Core} {op : ArithmeticOp} {address : Int} {fault : Fault}
    (h : c.load address = .error fault) : c.compute op address = .error fault := by
  rw [compute, h]
  rfl

/-- An operation on a cell that holds a number depends on the number only. -/
theorem compute_of_data {c : Core} {op : ArithmeticOp} {address value : Int}
    (h : c.memory.read address = some (.data value)) :
    c.compute op address = (op.apply c.acc value).map c.setAccumulator :=
  compute_of_load (by rw [load, h])

/-- The core after input: the whole input as an integer, which stays, or one character of it. -/
def readInput (c : Core) (mode : Int) : Except Fault Core :=
  if mode = integerMode then
    match inputInteger? c.input with
    | some value => .ok (c.setAccumulator value)
    | none => .error (.invalidIntegerInput c.input)
  else match c.input with
    | ch :: input => .ok ({ c with input := input }.setAccumulator ch.toNat)
    | [] => .ok ({ c with exhausted := true }.setAccumulator c.acc)

/-- The core after the accumulator is printed. -/
def print (c : Core) (mode : Int) : Except Fault Core :=
  if mode = characterMode then
    match charOfCode? c.acc with
    | some ch => .ok { c with printed := String.singleton ch :: c.printed }
    | none => .error (.invalidCharacter c.acc)
  else .ok { c with printed := Decimal.ofInt c.acc :: c.printed }

/-- The core after an instruction, and the distance the program counter moves. -/
def effect (c : Core) (i : Instruction) : Except Fault (Core × Int) :=
  match i.opcode with
  | .read => do return (← c.compute .replace i.operand, 1)
  | .add => do return (← c.compute .add i.operand, 1)
  | .subtract => do return (← c.compute .subtract i.operand, 1)
  | .multiply => do return (← c.compute .multiply i.operand, 1)
  | .divide => do return (← c.compute .divide i.operand, 1)
  | .write => .ok (c.store i.operand, 1)
  | .jump => .ok (c, i.operand)
  | .skip condition negated =>
    .ok (c, if condition.holds c.zero c.signed != negated then 2 else 1)
  | .readAddress => .ok (c.setAccumulator i.operand, 1)
  | .writeAddress => do return (← c.compute .replace c.acc, 1)
  | .input => do
    let c ← c.readInput i.operand
    return (c, if c.exhausted then i.operand + 1 else 1)
  | .output => do return (← c.print i.operand, 1)
  | .halt => .ok (c, 0)

theorem effect_read (c : Core) (a : Int) :
    c.effect ⟨.read, a⟩ = (c.compute .replace a).map fun c => (c, 1) := by
  rw [effect]
  cases c.compute .replace a <;> rfl

theorem effect_subtract (c : Core) (a : Int) :
    c.effect ⟨.subtract, a⟩ = (c.compute .subtract a).map fun c => (c, 1) := by
  rw [effect]
  cases c.compute .subtract a <;> rfl

end Core

/-- The moves that an instruction makes one after another, where it has led to a core and to a
    distance. An input without a character moves by its operand first, and then on as always. -/
def Instruction.legs (i : Instruction) (after : Core) (distance : Int) : List Int :=
  match i.opcode with
  | .input => if after.exhausted then [i.operand, 1] else [1]
  | _ => [distance]

namespace DataPath

/-- The core of a data path. -/
def core (d : DataPath) : Core :=
  ⟨d.memory, d.acc, d.zero, d.signed, d.exhausted, d.input, d.printed⟩

/-- The data path with another core. -/
def withCore (d : DataPath) (c : Core) : DataPath :=
  { d with memory := c.memory, acc := c.acc, zero := c.zero, signed := c.signed,
           exhausted := c.exhausted, input := c.input, printed := c.printed }

theorem loadAccumulator_arithmetic (d : DataPath) (op : ArithmeticOp) :
    d.loadAccumulator (.arithmetic op) = (d.core.compute op d.address).map d.withCore := by
  have hload : d.readData = d.core.load d.address := rfl
  have hacc : d.core.acc = d.acc := rfl
  rw [loadAccumulator, hload, Core.compute, hacc]
  cases d.core.load d.address with
  | error fault => rfl
  | ok cell =>
    simp only [bind, Except.bind]
    cases op.apply d.acc cell <;> rfl

theorem loadAccumulator_input (d : DataPath) :
    d.loadAccumulator .input = (d.core.readInput d.operand).map d.withCore := by
  have hinput : d.core.input = d.input := rfl
  rw [loadAccumulator, Core.readInput, hinput]
  by_cases hmode : d.operand = integerMode
  · rw [if_pos hmode, if_pos hmode, readInteger]
    cases inputInteger? d.input <;> rfl
  · rw [if_neg hmode, if_neg hmode, readCharacter]
    cases d.input <;> rfl

theorem apply_emit (d : DataPath) :
    d.apply .emit = (d.core.print d.operand).map d.withCore := by
  have hacc : d.core.acc = d.acc := rfl
  rw [apply, emitted, Core.print, hacc]
  by_cases hmode : d.operand = characterMode
  · rw [if_pos hmode, if_pos hmode]
    cases charOfCode? d.acc <;> rfl
  · rw [if_neg hmode, if_neg hmode]
    rfl

theorem apply_latchPc (d : DataPath) (update : PcUpdate) :
    d.apply (.latchPc update) = if Word.InRange (d.pc + d.offset update) then
      .ok { d with pc := d.pc + d.offset update } else .error .arithmeticOverflow := by
  rw [apply]
  by_cases h : Word.InRange (d.pc + d.offset update)
  · rw [ArithmeticOp.exactly_of_inRange h, if_pos h]
    rfl
  · rw [ArithmeticOp.exactly_of_not_inRange h, if_neg h]
    rfl

end DataPath

namespace Machine

/-- The core of a machine. -/
def core (m : Machine) : Core := m.path.core

/-- The place of a machine in its program. -/
def pc (m : Machine) : Int := m.path.pc

/-- A machine that is about to run the instruction at a place, with a given core, and is not
    stopped by a halt or by a limit. -/
structure At (m : Machine) (pc : Int) (c : Core) : Prop where
  running : m.halted = false
  unlimited : m.tickLimit = none
  pc_eq : m.pc = pc
  core_eq : m.core = c

theorem performAll_micro (op : MicroOp) (rest : List Action) (m : Machine) :
    performAll (.micro op :: rest) m = match m.path.apply op with
      | .ok path => performAll rest { m with path := path }
      | .error fault => (m, some fault) := by
  rw [performAll, perform, micro]
  cases m.path.apply op <;> rfl

theorem performAll_endTick {m : Machine} (h : m.tickLimit = none) (rest : List Action) :
    performAll (.endTick :: rest) m
      = performAll rest { m.report (.tick m.record) with tick := m.tick + 1 } := by
  rw [performAll, perform, endTick, h]

/-- Reports and the end of a tick change nothing that a program can see. -/
theorem performAll_reports {m : Machine} {pc : Int} {c : Core} (h : m.At pc c)
    {reports : List Action} (hr : reports ∈ [[], [.reportStore], [.reportOutput]]) :
    ∃ m', performAll (reports ++ [.endTick]) m = (m', none) ∧ m'.At pc c := by
  obtain ⟨hrun, hlimit, hpc, hcore⟩ := h
  simp only [List.mem_cons, List.not_mem_nil, or_false] at hr
  rcases hr with rfl | rfl | rfl
  · exact ⟨_, performAll_endTick hlimit [], hrun, hlimit, hpc, hcore⟩
  · exact ⟨_, performAll_endTick (m := m.report _) hlimit [], hrun, hlimit, hpc, hcore⟩
  · exact ⟨_, performAll_endTick (m := m.report _) hlimit [], hrun, hlimit, hpc, hcore⟩

/-- The outcome of moving from a place by one distance after another, with a given core. It fails
    where a place on the way would leave the range of the program counter. -/
def MovesAlong (c : Core) (outcome : Machine × Option Fault) (pc : Int) : List Int → Prop
  | [] => ∃ m', outcome = (m', none) ∧ m'.At pc c
  | leg :: legs =>
    if Word.InRange (pc + leg) then MovesAlong c outcome (pc + leg) legs
    else ∃ m', outcome = (m', some .arithmeticOverflow) ∧ m'.pc = pc

theorem performAll_latchPc {m : Machine} {pc : Int} {c : Core} (h : m.At pc c)
    (update : PcUpdate) (reports : List Action)
    (hr : reports ∈ [[], [.reportStore], [.reportOutput]]) :
    MovesAlong c (performAll (.micro (.latchPc update) :: (reports ++ [.endTick])) m) pc
      [m.path.offset update] := by
  have hpc : m.path.pc = pc := h.pc_eq
  rw [MovesAlong, performAll_micro, DataPath.apply_latchPc, hpc]
  -- The move is refused if the place is no word, and the machine has not moved then.
  by_cases hp : Word.InRange (pc + m.path.offset update)
  · rw [if_pos hp, if_pos hp]
    exact performAll_reports
      (m := { m with path := { m.path with pc := pc + m.path.offset update } })
      ⟨h.running, h.unlimited, rfl, h.core_eq⟩ hr
  · rw [if_neg hp, if_neg hp]
    exact ⟨m, rfl, hpc⟩

/-- The outcome of an instruction with a given effect, for a machine at a place with a core. The
    distance may be made in several legs. -/
def HasEffect (pc : Int) (c : Core) (legs : Core → Int → List Int)
    (effect : Except Fault (Core × Int)) (outcome : Machine × Option Fault) : Prop :=
  match effect with
  | .ok (c', distance) => MovesAlong c' outcome pc (legs c' distance)
  | .error fault => ∃ m', outcome = (m', some fault) ∧ m'.At pc c

/-- The actions that load the accumulator from the cell at the address register and move on. -/
theorem performAll_compute {m : Machine} {pc : Int} {c : Core} (h : m.At pc c)
    (op : ArithmeticOp) :
    HasEffect pc c (fun _ distance => [distance])
      ((c.compute op m.path.address).map fun c => (c, 1)) (performAll
        [.micro (.latchAccumulator (.arithmetic op)), .micro (.latchPc .advance), .endTick] m) := by
  have hcore : m.path.core = c := h.core_eq
  rw [performAll_micro, DataPath.apply, DataPath.loadAccumulator_arithmetic, hcore]
  cases c.compute op m.path.address with
  | error fault => exact ⟨m, rfl, h⟩
  | ok c =>
    exact performAll_latchPc (m := { m with path := m.path.withCore c })
      ⟨h.running, h.unlimited, h.pc_eq, rfl⟩ .advance [] List.mem_cons_self

/-- A tick that only loads the address register. -/
theorem performAll_addressTick {m : Machine} {pc : Int} {c : Core} (h : m.At pc c)
    (source : AddressSource) :
    ∃ m', m'.At pc c ∧ m'.path.address = m.path.sourceAddress source ∧
      ∀ rest, performAll (.micro (.latchAddress source) :: .endTick :: rest) m
        = performAll rest m' := by
  refine ⟨_, ?_, ?_, fun rest => performAll_endTick
    (m := { m with path := { m.path with address := m.path.sourceAddress source } })
    h.unlimited rest⟩
  · exact ⟨h.running, h.unlimited, h.pc_eq, h.core_eq⟩
  · rfl

/-- The actions of an operation of the arithmetic unit. -/
theorem performAll_arithmeticActions {m : Machine} {pc a : Int} {c : Core} (h : m.At pc c)
    (ha : m.path.operand = a) (op : ArithmeticOp) :
    HasEffect pc c (fun _ distance => [distance]) ((c.compute op a).map fun c => (c, 1))
      (performAll (arithmeticActions op) m) := by
  rw [← ha]
  exact performAll_compute (m := { m with path := { m.path with address := m.path.operand } })
    ⟨h.running, h.unlimited, h.pc_eq, h.core_eq⟩ op

/-- The actions of an input instruction. Without a character left they move twice. -/
theorem performAll_inputActions {m : Machine} {pc a : Int} {c : Core} (h : m.At pc c)
    (ha : m.path.operand = a) :
    HasEffect pc c (Instruction.legs ⟨.input, a⟩)
      ((c.readInput a).map fun c => (c, if c.exhausted then a + 1 else 1))
      (performAll [.micro (.latchAccumulator .input), .jumpIfExhausted, .micro (.latchPc .advance),
        .endTick] m) := by
  have hcore : m.path.core = c := h.core_eq
  rw [performAll_micro, DataPath.apply, DataPath.loadAccumulator_input, hcore, ha]
  cases c.readInput a with
  | error fault => exact ⟨m, rfl, h⟩
  | ok c =>
    have hread : Machine.At { m with path := m.path.withCore c } pc c :=
      ⟨h.running, h.unlimited, h.pc_eq, rfl⟩
    have hpath : m.path.pc = pc := h.pc_eq
    simp only [Except.map, HasEffect, Instruction.legs]
    rw [performAll, perform]
    -- Without a character the counter moves by the operand, and then by one as always.
    by_cases hx : c.exhausted = true
    · have hjump : (m.path.withCore c).apply (.latchPc .jump)
          = if Word.InRange (pc + a) then .ok { m.path.withCore c with pc := pc + a }
            else .error .arithmeticOverflow := by
        rw [← hpath, ← ha]
        exact (m.path.withCore c).apply_latchPc .jump
      rw [if_pos hx, if_pos (show (m.path.withCore c).exhausted = true from hx), micro, hjump,
        MovesAlong]
      by_cases hin : Word.InRange (pc + a)
      · rw [if_pos hin, if_pos hin]
        exact performAll_latchPc
          (m := { m with path := { m.path.withCore c with pc := pc + a } })
          ⟨h.running, h.unlimited, rfl, rfl⟩ .advance [] List.mem_cons_self
      · rw [if_neg hin, if_neg hin]
        exact ⟨_, rfl, h.pc_eq⟩
    · rw [if_neg hx, if_neg (show ¬ (m.path.withCore c).exhausted = true from hx)]
      exact performAll_latchPc hread .advance [] List.mem_cons_self

/-- A microprogram has the effect of its instruction. -/
theorem performAll_actions {m : Machine} {pc : Int} {c : Core} {i : Instruction} (h : m.At pc c)
    (hi : m.path.instruction = some (.code i)) (hhalt : i.opcode ≠ .halt) :
    HasEffect pc c i.legs (c.effect i)
      (performAll (i.opcode.actions m.path.zero m.path.signed) m) := by
  obtain ⟨opcode, operand⟩ := i
  have ha : m.path.operand = operand := by rw [DataPath.operand, hi]
  have hzero : m.path.zero = c.zero := congrArg Core.zero h.core_eq
  have hsigned : m.path.signed = c.signed := congrArg Core.signed h.core_eq
  have hcore : m.path.core = c := h.core_eq
  cases opcode with
  | read => exact performAll_arithmeticActions h ha .replace
  | add => exact performAll_arithmeticActions h ha .add
  | subtract => exact performAll_arithmeticActions h ha .subtract
  | multiply => exact performAll_arithmeticActions h ha .multiply
  | divide => exact performAll_arithmeticActions h ha .divide
  | write =>
    subst hcore ha
    exact performAll_latchPc
      (m := { m with path := { m.path with
        address := m.path.operand
        memory := m.path.memory.write m.path.operand (.data m.path.acc) } })
      ⟨h.running, h.unlimited, h.pc_eq, rfl⟩ .advance [.reportStore] (by decide)
  | jump =>
    have hmove := performAll_latchPc h .jump [] List.mem_cons_self
    rw [DataPath.offset, ha] at hmove
    exact hmove
  | skip condition negated =>
    have hmove := performAll_latchPc h
      (if condition.holds c.zero c.signed != negated then .skip else .advance) []
      List.mem_cons_self
    rw [hzero, hsigned, Core.effect]
    by_cases hc : (condition.holds c.zero c.signed != negated) = true
    · simp only [OpCode.actions, if_pos hc] at hmove ⊢
      exact hmove
    · simp only [OpCode.actions, if_neg hc] at hmove ⊢
      exact hmove
  | readAddress =>
    -- The operand goes through the address register, which takes a tick of its own.
    rcases performAll_addressTick h .direct with ⟨m', hm', haddress, hrun⟩
    rw [OpCode.actions, hrun]
    have hcore' : (m'.path.setAccumulator m'.path.address).core = c.setAccumulator operand := by
      rw [haddress, DataPath.sourceAddress, ha, ← hm'.core_eq]
      rfl
    exact performAll_latchPc (m := { m' with path := m'.path.setAccumulator m'.path.address })
      ⟨hm'.running, hm'.unlimited, hm'.pc_eq, hcore'⟩ .advance [] List.mem_cons_self
  | writeAddress =>
    -- The accumulator is the address, and the load is that of a read from there.
    rcases performAll_addressTick h .indirect with ⟨m', hm', haddress, hrun⟩
    have hacc : m.path.acc = c.acc := congrArg Core.acc h.core_eq
    rw [OpCode.actions, hrun]
    have hcompute := performAll_compute hm' .replace
    rw [haddress, DataPath.sourceAddress, hacc] at hcompute
    exact hcompute
  | input => exact performAll_inputActions h ha
  | output =>
    rw [OpCode.actions, performAll_micro, DataPath.apply_emit, hcore, ha, Core.effect]
    simp only
    cases c.print operand with
    | error fault => exact ⟨m, rfl, h⟩
    | ok c' =>
      exact performAll_latchPc (m := { m with path := m.path.withCore c' })
        ⟨h.running, h.unlimited, h.pc_eq, rfl⟩ .advance [.reportOutput] (by decide)
  | halt => exact absurd rfl hhalt

/-- The fetch finds the cell at the program counter, and changes nothing that a program can
    see. -/
theorem performAll_fetchActions {m : Machine} {pc : Int} {c : Core} (h : m.At pc c) :
    ∃ m', performAll fetchActions m = (m', none) ∧ m'.At pc c
      ∧ m'.path.instruction = c.memory.read pc ∧ m'.path.address = pc := by
  refine ⟨_, performAll_endTick (m := { m with path := { m.path with
    address := m.path.pc, instruction := m.path.memory.read m.path.pc } }) h.unlimited [],
    ?_, ?_, ?_⟩
  · exact ⟨h.running, h.unlimited, h.pc_eq, h.core_eq⟩
  · rw [← h.pc_eq, ← h.core_eq]
    rfl
  · exact h.pc_eq

/-- A cycle has the effect of the instruction at the program counter. -/
theorem cycle_of_code {m : Machine} {pc : Int} {c : Core} {i : Instruction} (h : m.At pc c)
    (hi : c.memory.read pc = some (.code i)) (hhalt : i.opcode ≠ .halt) :
    HasEffect pc c i.legs (c.effect i) m.cycle := by
  rcases performAll_fetchActions h with ⟨m', hfetch, hm', hcell, -⟩
  rw [hi] at hcell
  have hdecoded : m'.decoded = .ok (i.opcode.actions m'.path.zero m'.path.signed) := by
    rw [decoded, hcell]
  simp only [cycle, hfetch, hdecoded]
  exact performAll_actions hm' hcell hhalt

/-- Where all places on the way are in range, two moves come to one. -/
theorem movesAlong_of_legs {pc distance : Int} {c c' : Core} {i : Instruction}
    {outcome : Machine × Option Fault} (he : c.effect i = .ok (c', distance))
    (hinput : i.opcode = .input → 0 ≤ pc ∧ 0 ≤ i.operand ∧ pc + i.operand + 1 ≤ Word.maximum)
    (h : MovesAlong c' outcome pc (i.legs c' distance)) : MovesAlong c' outcome pc [distance] := by
  have hmin : Word.minimum ≤ 0 := by decide
  obtain ⟨opcode, operand⟩ := i
  cases opcode with
  | input =>
    rcases hinput rfl with ⟨hpc, hle, hmax⟩
    rcases Outcome.bind_ok he with ⟨after, -, hpure⟩
    cases hpure
    simp only at hle hmax
    simp only [Instruction.legs] at h
    by_cases hx : c'.exhausted = true
    · have hfirst : Word.InRange (pc + operand) := ⟨by omega, by omega⟩
      have hboth : Word.InRange (pc + (operand + 1)) := ⟨by omega, by omega⟩
      rw [if_pos hx] at h ⊢
      rw [MovesAlong, if_pos hfirst, MovesAlong, Int.add_assoc, if_pos hboth] at h
      rw [MovesAlong, if_pos hboth]
      exact h
    · rw [if_neg hx] at h ⊢
      exact h
  | _ => exact h

theorem step_of_cycle {m m' : Machine} {fault : Option Fault} (h : m.halted = false)
    (hcycle : m.cycle = (m', fault)) :
    m.step = (m', fault.map fun fault => ⟨fault, m'.pc, m'.tick⟩) := by
  have hn : ¬ m.halted = true := by simp only [h, Bool.false_eq_true, not_false_eq_true]
  rw [step, if_neg hn, hcycle]
  rfl

section Code

variable {m : Machine} {pc : Int} {c : Core} {i : Instruction} (h : m.At pc c)
  (hi : c.memory.read pc = some (.code i)) (hhalt : i.opcode ≠ .halt)
  (hinput : i.opcode = .input → 0 ≤ pc ∧ 0 ≤ i.operand ∧ pc + i.operand + 1 ≤ Word.maximum)

include h hi hhalt

/-- A step onto an instruction without an effect fails with its fault. -/
theorem step_of_fault {fault : Fault} (he : c.effect i = .error fault) :
    ∃ m' tick, m.step = (m', some ⟨fault, pc, tick⟩) := by
  have hcycle := cycle_of_code h hi hhalt
  rw [he] at hcycle
  rcases hcycle with ⟨m', hrun, hm'⟩
  exact ⟨m', m'.tick, hm'.pc_eq ▸ step_of_cycle h.running hrun⟩

include hinput

/-- A step onto an instruction has its effect. -/
theorem step_of_effect {c' : Core} {distance : Int} (he : c.effect i = .ok (c', distance))
    (hp : Word.InRange (pc + distance)) :
    ∃ m', m.step = (m', none) ∧ m'.At (pc + distance) c' := by
  have hcycle := cycle_of_code h hi hhalt
  rw [he] at hcycle
  have hmove := movesAlong_of_legs he hinput hcycle
  rw [MovesAlong, if_pos hp] at hmove
  rcases hmove with ⟨m', hrun, hm'⟩
  exact ⟨m', step_of_cycle h.running hrun, hm'⟩

/-- A step that would leave the range of the program counter fails. -/
theorem step_of_overflow {c' : Core} {distance : Int} (he : c.effect i = .ok (c', distance))
    (hp : ¬ Word.InRange (pc + distance)) :
    ∃ m' tick, m.step = (m', some ⟨.arithmeticOverflow, pc, tick⟩) := by
  have hcycle := cycle_of_code h hi hhalt
  rw [he] at hcycle
  have hmove := movesAlong_of_legs he hinput hcycle
  rw [MovesAlong, if_neg hp] at hmove
  rcases hmove with ⟨m', hrun, hm'⟩
  exact ⟨m', m'.tick, hm' ▸ step_of_cycle h.running hrun⟩

end Code

/-- A step onto an address without a cell halts the machine. -/
theorem step_of_absent {m : Machine} {pc : Int} {c : Core} (h : m.At pc c)
    (hnone : c.memory.read pc = none) :
    ∃ m', m.step = (m', none) ∧ m'.halted = true ∧ m'.pc = pc ∧ m'.core = c := by
  rcases performAll_fetchActions h with ⟨m', hfetch, hm', hcell, -⟩
  rw [hnone] at hcell
  have hdecoded : m'.decoded = .ok [.halt] := by rw [decoded, hcell]
  have hcycle : m.cycle
      = (({ m' with halted := true } : Machine).report (.halted m'.ticks), none) := by
    simp only [cycle, hfetch, hdecoded, performAll, perform]
  exact ⟨_, step_of_cycle h.running hcycle, rfl, hm'.pc_eq, hm'.core_eq⟩

/-- A step onto a number fails. -/
theorem step_of_data {m : Machine} {pc value : Int} {c : Core} (h : m.At pc c)
    (hdata : c.memory.read pc = some (.data value)) :
    ∃ m' tick, m.step = (m', some ⟨.notAnInstruction pc value, pc, tick⟩) := by
  rcases performAll_fetchActions h with ⟨m', hfetch, hm', hcell, haddress⟩
  rw [hdata] at hcell
  have hdecoded : m'.decoded = .error (.notAnInstruction pc value) := by
    rw [decoded, hcell, haddress]
  have hcycle : m.cycle = (m', some (.notAnInstruction pc value)) := by
    simp only [cycle, hfetch, hdecoded]
  exact ⟨m', m'.tick, hm'.pc_eq ▸ step_of_cycle h.running hcycle⟩

end Machine

end AccumulatorMachine
