import AccumulatorMachine.Proofs.Machine.Action

/-!
# Micro-Operations Register by Register

Micro-operations are atomic, although they are made of transfers that are not.

The library takes a micro-operation as one function, which gives a data path or a fault. That
leaves open how a data path with several registers, a memory and two devices gets from one to the
other. Here each micro-operation is a sequence of transfers. A transfer changes one register, one
flag or one device, and it stays done when a later one faults. So a micro-operation that faults
could leave something behind, and that it does not is a matter of the order of its transfers: what
may fault comes before the first change.

From this it follows that both descriptions agree, also in what they leave behind. What a
micro-operation changes can then be read off the ways in which it succeeds.

## Main definitions

* `Transfer`: A computation on a data path that keeps what it has done when it faults.
* `MicroOp.transfers`: The transfers of a micro-operation.
* `MicroOp.Changes`: What a micro-operation may change, and to what.
* `MicroOp.Contained`: What holds of a micro-operation on a data path.

## Theorems

* `MicroOp.runOn_transfers`: The transfers of a micro-operation come to the whole of it, or to
  nothing.
* `MicroOp.changes_of_does`: A micro-operation that succeeds changes only its own register.
* `MicroOp.contained`: Micro-operations are atomic and change one register.
-/

namespace AccumulatorMachine

/-- A computation on a data path that keeps what it has done when it faults. -/
abbrev Transfer : Type → Type := ExceptT Fault (StateM DataPath)

namespace Transfer

variable {α : Type}

/-- The result of a computation on a data path, and the data path it leaves. -/
def runOn (transfer : Transfer α) (d : DataPath) : Except Fault α × DataPath :=
  transfer.run.run d

/-- Sets the flags for what is in the accumulator, one after the other. -/
def setFlags : Transfer Unit := do
  modify fun d => { d with zero := d.acc = 0 }
  modify fun d => { d with signed := d.acc < 0 }

/-- Writes the accumulator, and then the flags. -/
def setAccumulator (value : Int) : Transfer Unit := do
  modify fun d => { d with acc := value }
  setFlags

/-- Takes a character from the input, if there is one. -/
def takeCharacter : Transfer (Option Char) := do
  match (← get).input with
  | c :: rest =>
    modify fun d => { d with input := rest }
    return some c
  | [] => return none

/-- Reads an integer from the whole input, which stays. -/
def readInteger : Transfer Unit := do
  let text := (← get).input
  match inputInteger? text with
  | some value => setAccumulator value
  | none => throw (.invalidIntegerInput text)

/-- Reads a character. The exhaustion flag is set before the other flags. -/
def readCharacter : Transfer Unit := do
  match ← takeCharacter with
  | some c => setAccumulator c.toNat
  | none =>
    modify fun d => { d with exhausted := true }
    setFlags

/-- Loads the accumulator. -/
def loadAccumulator : AccumulatorSource → Transfer Unit
  | .input => do if (← get).operand = integerMode then readInteger else readCharacter
  | .address => do setAccumulator (← get).address
  | .arithmetic op => do
    let cell ← liftM (← get).readData
    let value ← liftM (op.apply (← get).acc cell)
    setAccumulator value

end Transfer

namespace MicroOp

/-- The transfers of a micro-operation. -/
def transfers : MicroOp → Transfer Unit
  | .latchAddress source => modify fun d => { d with address := d.sourceAddress source }
  | .latchInstruction => modify fun d => { d with instruction := d.memory.read d.address }
  | .latchAccumulator source => Transfer.loadAccumulator source
  | .write => modify fun d => { d with memory := d.memory.write d.address (.data d.acc) }
  | .latchPc update => do
    let d ← get
    let pc ← liftM (ArithmeticOp.exactly (d.pc + d.offset update))
    modify fun d => { d with pc := pc }
  | .emit => do
    let token ← liftM (← get).emitted
    modify fun d => { d with printed := token :: d.printed }

end MicroOp

namespace Transfer

variable {α β : Type}

/-- What a computation leaves that is done as a whole or not at all. -/
def asWhole (d : DataPath) : Except Fault DataPath → Except Fault Unit × DataPath
  | .ok d' => (.ok (), d')
  | .error fault => (.error fault, d)

theorem runOn_bind (x : Transfer α) (f : α → Transfer β) (d : DataPath) :
    (x >>= f).runOn d = match x.runOn d with
      | (.ok a, d') => (f a).runOn d'
      | (.error fault, d') => (.error fault, d') := by
  rw [runOn, ExceptT.run_bind, StateT.run_bind]
  have hx : StateT.run (ExceptT.run x) d = x.runOn d := rfl
  rw [hx]
  rcases x.runOn d with ⟨_ | a, d'⟩ <;> rfl

theorem runOn_get (d : DataPath) : runOn get d = (.ok d, d) := rfl

theorem runOn_liftM (x : Except Fault α) (d : DataPath) :
    (liftM x : Transfer α).runOn d = (x, d) := by
  cases x <;> rfl

theorem runOn_setAccumulator (value : Int) (d : DataPath) :
    (setAccumulator value).runOn d = (.ok (), d.setAccumulator value) := rfl

theorem runOn_readCharacter (d : DataPath) : readCharacter.runOn d = (.ok (), d.readCharacter) := by
  obtain ⟨memory, acc, address, pc, zero, signed, exhausted, instruction, input, printed⟩ := d
  cases input with
  | nil => rfl
  | cons c rest => rfl

theorem runOn_readInteger (d : DataPath) : readInteger.runOn d = asWhole d d.readInteger := by
  rw [readInteger, runOn_bind, runOn_get, DataPath.readInteger]
  cases hvalue : inputInteger? d.input with
  | some value =>
    simp only [hvalue]
    rfl
  | none =>
    simp only [hvalue]
    rfl

theorem runOn_loadAccumulator (source : AccumulatorSource) (d : DataPath) :
    (loadAccumulator source).runOn d = asWhole d (d.loadAccumulator source) := by
  cases source with
  | input =>
    rw [loadAccumulator, runOn_bind, runOn_get, DataPath.loadAccumulator]
    by_cases hmode : d.operand = integerMode
    · simp only [if_pos hmode, runOn_readInteger]
    · simp only [if_neg hmode, runOn_readCharacter]
      rfl
  | address => rfl
  | arithmetic op =>
    rw [loadAccumulator, DataPath.loadAccumulator]
    simp only [runOn_bind, runOn_get, runOn_liftM]
    cases d.readData with
    | error fault => rfl
    | ok cell =>
      -- Reading the cell has changed nothing, so the accumulator is still the one at the start.
      cases hvalue : op.apply d.acc cell with
      | error fault => simp only [bind, Except.bind, hvalue, asWhole]
      | ok value =>
        simp only [bind, Except.bind, hvalue, runOn_setAccumulator]
        rfl

end Transfer

namespace MicroOp

open Transfer

/-- The transfers of a micro-operation come to the whole of it, or to nothing. -/
theorem runOn_transfers (op : MicroOp) (d : DataPath) :
    op.transfers.runOn d = asWhole d (d.apply op) := by
  cases op with
  | latchAddress source => rfl
  | latchInstruction => rfl
  | latchAccumulator source => exact runOn_loadAccumulator source d
  | write => rfl
  | latchPc update =>
    rw [transfers, DataPath.apply]
    simp only [runOn_bind, runOn_get, runOn_liftM]
    cases ArithmeticOp.exactly (d.pc + d.offset update) with
    | error fault => rfl
    | ok pc => rfl
  | emit =>
    rw [transfers, DataPath.apply]
    simp only [runOn_bind, runOn_get, runOn_liftM]
    cases d.emitted with
    | error fault => rfl
    | ok token => rfl

/-- What a micro-operation may change, and to what. Everything else is as it was. -/
def Changes (d d' : DataPath) : MicroOp → Prop
  | .latchAddress source => d' = { d with address := d.sourceAddress source }
  | .latchInstruction => d' = { d with instruction := d.memory.read d.address }
  | .latchAccumulator source =>
    -- The flags follow the accumulator, also where it keeps its word.
    d' = { d with
      acc := d'.acc
      zero := d'.acc = 0
      signed := d'.acc < 0
      input := d'.input
      exhausted := d'.exhausted } ∧
    if source = .input ∧ d.operand ≠ integerMode then
      (∃ c : Char, d.input = c :: d'.input ∧ d'.acc = c.toNat ∧ d'.exhausted = d.exhausted) ∨
        d.input = [] ∧ d'.input = [] ∧ d'.acc = d.acc ∧ d'.exhausted = true
    else d'.input = d.input ∧ d'.exhausted = d.exhausted
  | .write => d' = { d with memory := d'.memory } ∧ ∀ a, d'.memory.read a
      = if a = d.address then some (.data d.acc) else d.memory.read a
  | .latchPc update => d' = { d with pc := d.pc + d.offset update }
  | .emit => ∃ token, d.emitted = .ok token ∧ d' = { d with printed := d'.printed } ∧
      d'.tokens = d.tokens ++ [token]

/-- A micro-operation that succeeds changes only its own register. -/
theorem changes_of_does {op : MicroOp} {d d' : DataPath} (h : d.Does op d') : op.Changes d d' := by
  cases h with
  | latchAddress | latchInstruction => rfl
  | compute | address => exact ⟨rfl, by rw [if_neg (by simp)]; exact ⟨rfl, rfl⟩⟩
  | integer hmode => exact ⟨rfl, by rw [if_neg fun h => h.2 hmode]; exact ⟨rfl, rfl⟩⟩
  | @character c rest hmode hinput =>
    refine ⟨rfl, ?_⟩
    rw [if_pos ⟨rfl, hmode⟩]
    exact Or.inl ⟨c, hinput, rfl, rfl⟩
  | exhausted hmode hinput =>
    refine ⟨rfl, ?_⟩
    rw [if_pos ⟨rfl, hmode⟩]
    exact Or.inr ⟨hinput, hinput, rfl, rfl⟩
  | write => exact ⟨rfl, fun a => Memory.read_write d.memory d.address a (.data d.acc)⟩
  | latchPc => rfl
  | @emit token htoken => exact ⟨token, htoken, rfl, List.reverse_cons⟩

/-- A micro-operation is done as a whole or not at all, and it changes one register. -/
structure Contained (op : MicroOp) (d : DataPath) : Prop where
  /-- The transfers lead where the whole operation leads. -/
  whole : ∀ d', op.transfers.runOn d = (.ok (), d') ↔ d.apply op = .ok d'
  /-- They fault as it does, and leave nothing behind. -/
  atomic : ∀ fault d', op.transfers.runOn d = (.error fault, d') →
    d.apply op = .error fault ∧ d' = d
  /-- Where they succeed, all but one register is as it was. -/
  changes : ∀ d', op.transfers.runOn d = (.ok (), d') → op.Changes d d'
  /-- Loads of the address and the instruction register do not fault, and neither do stores. -/
  total : (∃ source, op = .latchAddress source) ∨ op = .latchInstruction ∨ op = .write →
    ∃ d', op.transfers.runOn d = (.ok (), d')

/-- Micro-operations are atomic and change one register. -/
theorem contained (op : MicroOp) (d : DataPath) : op.Contained d := by
  have hwhole : ∀ d', op.transfers.runOn d = (.ok (), d') ↔ d.apply op = .ok d' := by
    intro d'
    rw [runOn_transfers]
    cases d.apply op with
    | error fault => simp [asWhole]
    | ok mid => simp [asWhole]
  refine ⟨hwhole, fun fault d' h => ?_, fun d' h => ?_, fun hop => ?_⟩
  · rw [runOn_transfers] at h
    cases happly : d.apply op with
    | error other =>
      rw [happly] at h
      cases h
      exact ⟨rfl, rfl⟩
    | ok mid =>
      rw [happly] at h
      cases h
  · exact changes_of_does (DataPath.apply_ok_iff.mp ((hwhole d').mp h))
  · rcases hop with ⟨source, rfl⟩ | rfl | rfl
    · exact ⟨_, rfl⟩
    · exact ⟨_, rfl⟩
    · exact ⟨_, rfl⟩

end MicroOp

end AccumulatorMachine
