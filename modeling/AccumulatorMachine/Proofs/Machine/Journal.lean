import AccumulatorMachine.Proofs.Machine.Action

/-!
# The Journal of an Instruction

Which records the actions of an instruction leave.

A record is made whenever a tick ends, and it shows the registers as they are at that moment. Most
microprograms end a single tick, as the last thing they do, so their record can be read off the
machine they end with. The two that load an address first end one tick more, right after it.

So there is no need to follow the registers through a microprogram. It is enough that the actions
between the ends of ticks keep what a program cannot see and a record shows, the instruction
register and the address register, and that they add nothing to the journal themselves.

## Main definitions

* `Action.Inner`: An action that ends no tick and loads neither of the two registers.
* `Machine.addressed`: The machine with the address register loaded.
* `Machine.microRecords`: The records that a microprogram leaves.

## Theorems

* `Machine.journal_report`: Only the end of a tick adds a record.
* `Machine.Performs.inner`: What actions inside a tick keep.
* `Machine.performAll_lastTick`: The record of a tick, read off the machine it leaves.
* `Machine.performAll_journal`: The records of a microprogram.
* `Machine.performAll_fetch_journal`: The record of a fetch.
-/

namespace AccumulatorMachine

/-- An action inside a tick that loads neither the instruction register nor the address
    register. -/
def Action.Inner : Action → Prop
  | .micro .latchInstruction => False
  | .micro (.latchAddress _) => False
  | .endTick => False
  | _ => True

instance (action : Action) : Decidable action.Inner := by
  unfold Action.Inner
  split <;> infer_instance

namespace Machine

/-- The machine with the address register loaded. -/
def addressed (m : Machine) (source : AddressSource) : Machine :=
  { m with path := { m.path with address := m.path.sourceAddress source } }

/-- The records that the microprogram of an opcode leaves, from the machine before it and the
    machine after it. Two opcodes show the address in a record of its own. -/
def microRecords (m : Machine) (opcode : OpCode) (m' : Machine) : List TickRecord :=
  match opcode with
  | .read | .add | .subtract | .multiply | .divide | .write =>
    [⟨m.tick, m'.path.acc, m.path.operand, m'.path.pc, m.path.instruction⟩]
  | .readAddress =>
    [⟨m.tick, m.path.acc, m.path.operand, m.path.pc, m.path.instruction⟩,
      ⟨m.tick + 1, m'.path.acc, m.path.operand, m'.path.pc, m.path.instruction⟩]
  | .writeAddress =>
    [⟨m.tick, m.path.acc, m.path.acc, m.path.pc, m.path.instruction⟩,
      ⟨m.tick + 1, m'.path.acc, m.path.acc, m'.path.pc, m.path.instruction⟩]
  | .halt => []
  | _ => [⟨m.tick, m'.path.acc, m.path.address, m'.path.pc, m.path.instruction⟩]

/-- Only the end of a tick adds a record to the journal. -/
theorem journal_report (m : Machine) (event : Event) :
    (m.report event).journal = m.journal ++ event.record?.toList := by
  rw [journal, events, report, List.reverse_cons, List.filterMap_append, journal, events]
  cases event <;> rfl

section Inner

variable {m m' : Machine}

/-- Inside a tick the journal and the clock stay, and so do the registers that a record shows next
    to the accumulator and the program counter. -/
theorem Performs.inner {action : Action} (h : m.Performs action m') (hinner : action.Inner) :
    m'.journal = m.journal ∧ m'.tick = m.tick ∧ m'.tickLimit = m.tickLimit ∧
      m'.path.instruction = m.path.instruction ∧ m'.path.address = m.path.address := by
  cases h with
  | micro hpath =>
    refine ⟨rfl, rfl, rfl, ?_⟩
    cases hpath with
    | latchAddress | latchInstruction => exact hinner.elim
    | compute | address | integer | character | exhausted | write | latchPc | emit =>
      exact ⟨rfl, rfl⟩
  | jumps _ hpath =>
    cases hpath
    exact ⟨rfl, rfl, rfl, rfl, rfl⟩
  | stays => exact ⟨rfl, rfl, rfl, rfl, rfl⟩
  | reportStore | reportOutput | halt =>
    refine ⟨?_, rfl, rfl, rfl, rfl⟩
    rw [journal_report]
    exact List.append_nil _
  | endTick => exact hinner.elim

theorem performAll_cons_ok {action : Action} {actions : List Action}
    (h : performAll (action :: actions) m = (m', none)) :
    ∃ mid, m.perform action = .ok mid ∧ performAll actions mid = (m', none) := by
  rw [performAll] at h
  cases hfirst : m.perform action with
  | error fault =>
    simp only [hfirst] at h
    cases h
  | ok mid =>
    simp only [hfirst] at h
    exact ⟨mid, rfl, h⟩

/-- The record of a tick that ends after actions inside it shows the machine as it is left. -/
theorem performAll_lastTick (inner : List Action) (hinner : ∀ action ∈ inner, action.Inner)
    (hlimit : m.tickLimit = none) (h : performAll (inner ++ [.endTick]) m = (m', none)) :
    m'.tick = m.tick + 1 ∧ m'.journal = m.journal ++
      [⟨m.tick, m'.path.acc, m.path.address, m'.path.pc, m.path.instruction⟩] := by
  induction inner generalizing m with
  | nil =>
    rw [List.nil_append, performAll_endTick hlimit] at h
    cases h
    exact ⟨rfl, journal_report m (.tick m.record)⟩
  | cons action rest ih =>
    rcases performAll_cons_ok h with ⟨mid, hfirst, hrest⟩
    rcases (perform_ok_iff.mp hfirst).inner (hinner action List.mem_cons_self) with
      ⟨hjournal, htick, hlimit', hinstruction, haddress⟩
    have hend := ih (fun other hother => hinner other (List.mem_cons_of_mem action hother))
      (hlimit'.trans hlimit) hrest
    rwa [hjournal, htick, hinstruction, haddress] at hend

/-- The same for a tick that starts by loading the address register. -/
theorem performAll_addressedTick (inner : List Action) (hinner : ∀ action ∈ inner, action.Inner)
    (hlimit : m.tickLimit = none) (source : AddressSource)
    (h : performAll (.micro (.latchAddress source) :: (inner ++ [.endTick])) m = (m', none)) :
    m'.tick = m.tick + 1 ∧ m'.journal = m.journal ++
      [⟨m.tick, m'.path.acc, m.path.sourceAddress source, m'.path.pc, m.path.instruction⟩] :=
  performAll_lastTick (m := m.addressed source) inner hinner hlimit h

/-- A tick that only loads the address register, and one more. -/
theorem performAll_twoTicks (inner : List Action) (hinner : ∀ action ∈ inner, action.Inner)
    (hlimit : m.tickLimit = none) (source : AddressSource)
    (h : performAll (.micro (.latchAddress source) :: .endTick :: (inner ++ [.endTick])) m
      = (m', none)) :
    m'.tick = m.tick + 1 + 1 ∧ m'.journal = m.journal ++
      [⟨m.tick, m.path.acc, m.path.sourceAddress source, m.path.pc, m.path.instruction⟩,
        ⟨m.tick + 1, m'.path.acc, m.path.sourceAddress source, m'.path.pc,
          m.path.instruction⟩] := by
  have hrun : performAll (.endTick :: (inner ++ [.endTick])) (m.addressed source) = (m', none) := h
  rw [performAll_endTick (m := m.addressed source) hlimit] at hrun
  rcases performAll_lastTick inner hinner (by exact hlimit) hrun with ⟨htick, hjournal⟩
  refine ⟨htick, hjournal.trans ?_⟩
  -- The first of the two records is in the journal already.
  have hfirst : ((m.addressed source).report (.tick (m.addressed source).record)).journal
      = m.journal ++ [(m.addressed source).record] := journal_report _ _
  exact (congrArg (· ++ _) hfirst).trans (List.append_assoc _ _ _)

/-- The record of a fetch, which shows the cell at the program counter. -/
theorem performAll_fetch_journal (hlimit : m.tickLimit = none)
    (h : performAll fetchActions m = (m', none)) :
    m'.tick = m.tick + 1 ∧ m'.journal = m.journal ++
      [⟨m.tick, m'.path.acc, m.path.pc, m'.path.pc, m.path.memory.read m.path.pc⟩] :=
  performAll_lastTick (m := { m with path := { m.path with
    address := m.path.pc, instruction := m.path.memory.read m.path.pc } }) [] (by simp) hlimit h

end Inner

/-- The records of a microprogram that comes to its end. -/
theorem performAll_journal {m m' : Machine} {opcode : OpCode} (hlimit : m.tickLimit = none)
    (h : performAll (opcode.actions m.path.zero m.path.signed) m = (m', none)) :
    m'.tick = m.tick + (m.microRecords opcode m').length ∧
      m'.journal = m.journal ++ m.microRecords opcode m' := by
  cases opcode with
  | read | add | subtract | multiply | divide =>
    exact performAll_addressedTick [_, _] (by decide) hlimit .direct h
  | write => exact performAll_addressedTick [_, _, _] (by decide) hlimit .direct h
  | readAddress => exact performAll_twoTicks [_, _] (by decide) hlimit .direct h
  | writeAddress => exact performAll_twoTicks [_, _] (by decide) hlimit .indirect h
  | jump => exact performAll_lastTick [_] (by decide) hlimit h
  | skip condition negated =>
    exact performAll_lastTick [_] (by simp [Action.Inner]) hlimit h
  | input | output => exact performAll_lastTick [_, _, _] (by decide) hlimit h
  | halt =>
    cases h
    exact ⟨rfl, journal_report _ _⟩

end Machine

end AccumulatorMachine
