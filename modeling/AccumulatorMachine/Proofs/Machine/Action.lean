import AccumulatorMachine.Proofs.Machine.Effect

/-!
# Actions One by One

What a single action does where it can be done.

A micro-operation either faults or leads to one data path, and `DataPath.Does` lists the ways in
which it can lead there, each with the condition under which it is the way. `Machine.Performs` does
the same for actions, which micro-operations are most of. A property of the machine is kept by all
actions if it is kept in each of these ways. So this is the one place where they are opened, and
whatever is said about sequences of them starts here.

Loading the accumulator from the input has three of the ways: a whole integer, a character, and no
character at all. These differ in what they leave of the input.

## Main definitions

* `DataPath.Does`: The ways in which a micro-operation leads from one data path to another.
* `Machine.Performs`: The ways in which an action leads from one machine to another.

## Theorems

* `DataPath.apply_ok_iff`: A micro-operation succeeds in one of these ways and in no other.
* `Machine.perform_ok_iff`: The same for an action.
* `Machine.performAll_induction`, `Machine.step_induction`: What actions keep, sequences of them and
  steps keep.
* `Machine.performAll_error`: Which fault actions stop with.
* `DataPath.Does.pc_eq`: Only a move changes the program counter.
* `DataPath.Does.memory_eq`, `DataPath.Does.printed_eq`: Only a store changes the memory, and only
  an output what is printed.
-/

namespace AccumulatorMachine

namespace DataPath

/-- The ways in which a micro-operation leads from a data path to another one. -/
inductive Does (d : DataPath) : MicroOp → DataPath → Prop
  | latchAddress (source : AddressSource) :
      Does d (.latchAddress source) { d with address := d.sourceAddress source }
  | latchInstruction : Does d .latchInstruction { d with instruction := d.memory.read d.address }
  | compute {op : ArithmeticOp} {cell value : Int} (hcell : d.readData = .ok cell)
      (hvalue : op.apply d.acc cell = .ok value) :
      Does d (.latchAccumulator (.arithmetic op)) (d.setAccumulator value)
  | address : Does d (.latchAccumulator .address) (d.setAccumulator d.address)
  | integer {value : Int} (hmode : d.operand = integerMode)
      (hvalue : inputInteger? d.input = some value) :
      Does d (.latchAccumulator .input) (d.setAccumulator value)
  | character {c : Char} {rest : List Char} (hmode : d.operand ≠ integerMode)
      (hinput : d.input = c :: rest) :
      Does d (.latchAccumulator .input) ({ d with input := rest }.setAccumulator c.toNat)
  | exhausted (hmode : d.operand ≠ integerMode) (hinput : d.input = []) :
      Does d (.latchAccumulator .input) ({ d with exhausted := true }.setAccumulator d.acc)
  | write : Does d .write { d with memory := d.memory.write d.address (.data d.acc) }
  | latchPc {update : PcUpdate} (hpc : Word.InRange (d.pc + d.offset update)) :
      Does d (.latchPc update) { d with pc := d.pc + d.offset update }
  | emit {token : String} (htoken : d.emitted = .ok token) :
      Does d .emit { d with printed := token :: d.printed }

variable {d d' : DataPath} {op : MicroOp}

theorem readCharacter_of_nil (h : d.input = []) :
    d.readCharacter = { d with exhausted := true }.setAccumulator d.acc := by
  unfold readCharacter
  split
  · next hinput =>
    rw [h] at hinput
    cases hinput
  · rfl

theorem readCharacter_of_cons {c : Char} {rest : List Char} (h : d.input = c :: rest) :
    d.readCharacter = { d with input := rest }.setAccumulator c.toNat := by
  unfold readCharacter
  split
  · next hinput =>
    rw [h] at hinput
    cases hinput
    rfl
  · next hinput =>
    rw [h] at hinput
    cases hinput

theorem does_of_loadAccumulator {source : AccumulatorSource}
    (h : d.loadAccumulator source = .ok d') : d.Does (.latchAccumulator source) d' := by
  cases source with
  | address =>
    cases h
    exact .address
  | arithmetic op =>
    rcases Outcome.bind_ok h with ⟨cell, hcell, hrest⟩
    rcases Outcome.bind_ok hrest with ⟨value, hvalue, hpure⟩
    cases hpure
    exact .compute hcell hvalue
  | input =>
    rw [loadAccumulator] at h
    by_cases hmode : d.operand = integerMode
    · rw [if_pos hmode, readInteger] at h
      cases hvalue : inputInteger? d.input with
      | none =>
        simp only [hvalue] at h
        cases h
      | some value =>
        simp only [hvalue] at h
        cases h
        exact .integer hmode hvalue
    · rw [if_neg hmode] at h
      rcases hinput : d.input with _ | ⟨c, rest⟩
      · rw [readCharacter_of_nil hinput] at h
        cases h
        exact .exhausted hmode hinput
      · rw [readCharacter_of_cons hinput] at h
        cases h
        exact .character hmode hinput

theorem Does.loadAccumulator_eq {source : AccumulatorSource}
    (h : d.Does (.latchAccumulator source) d') : d.loadAccumulator source = .ok d' := by
  cases h with
  | compute hcell hvalue =>
    simp only [loadAccumulator, hcell, hvalue, bind, Except.bind, pure, Except.pure]
  | address => rfl
  | integer hmode hvalue =>
    rw [loadAccumulator, if_pos hmode, readInteger]
    simp only [hvalue]
  | character hmode hinput => rw [loadAccumulator, if_neg hmode, readCharacter_of_cons hinput]
  | exhausted hmode hinput => rw [loadAccumulator, if_neg hmode, readCharacter_of_nil hinput]

/-- A micro-operation succeeds in one of the ways and in no other. -/
theorem apply_ok_iff : d.apply op = .ok d' ↔ d.Does op d' := by
  constructor
  · intro h
    cases op with
    | latchAddress source =>
      cases h
      exact .latchAddress source
    | latchInstruction =>
      cases h
      exact .latchInstruction
    | latchAccumulator source => exact does_of_loadAccumulator h
    | write =>
      cases h
      exact .write
    | latchPc update =>
      rw [apply_latchPc] at h
      by_cases hpc : Word.InRange (d.pc + d.offset update)
      · rw [if_pos hpc] at h
        cases h
        exact .latchPc hpc
      · rw [if_neg hpc] at h
        cases h
    | emit =>
      rcases Outcome.bind_ok h with ⟨token, htoken, hpure⟩
      cases hpure
      exact .emit htoken
  · intro h
    cases op with
    | latchAccumulator source => exact h.loadAccumulator_eq
    | latchAddress source | latchInstruction | write =>
      cases h
      rfl
    | latchPc update =>
      cases h with
      | latchPc hpc => rw [apply_latchPc, if_pos hpc]
    | emit =>
      cases h with
      | emit htoken => simp only [apply, htoken, bind, Except.bind, pure, Except.pure]

namespace Does

variable (h : d.Does op d')

include h

/-- The program counter stays a word. -/
theorem pc_inRange (hpc : Word.InRange d.pc) : Word.InRange d'.pc := by
  cases h with
  | latchPc hnext => exact hnext
  | latchAddress | latchInstruction | compute | address | integer | character | exhausted | write
  | emit => exact hpc

/-- Only a move changes the program counter. -/
theorem pc_eq (hop : ∀ update, op ≠ .latchPc update) : d'.pc = d.pc := by
  cases h with
  | latchPc hpc => exact absurd rfl (hop _)
  | latchAddress | latchInstruction | compute | address | integer | character | exhausted | write
  | emit => rfl

/-- Only a store changes the memory. -/
theorem memory_eq (hop : op ≠ .write) : d'.memory = d.memory := by
  cases h with
  | write => exact absurd rfl hop
  | latchAddress | latchInstruction | compute | address | integer | character | exhausted | latchPc
  | emit => rfl

/-- Only an output changes what is printed. -/
theorem printed_eq (hop : op ≠ .emit) : d'.printed = d.printed := by
  cases h with
  | emit => exact absurd rfl hop
  | latchAddress | latchInstruction | compute | address | integer | character | exhausted | write
  | latchPc => rfl

end Does

end DataPath

namespace Machine

/-- The ways in which an action leads from a machine to another one. -/
inductive Performs (m : Machine) : Action → Machine → Prop
  | micro {op : MicroOp} {path : DataPath} (hpath : m.path.Does op path) :
      Performs m (.micro op) { m with path := path }
  | jumps {path : DataPath} (hexhausted : m.path.exhausted = true)
      (hpath : m.path.Does (.latchPc .jump) path) :
      Performs m .jumpIfExhausted { m with path := path }
  | stays (hexhausted : m.path.exhausted ≠ true) : Performs m .jumpIfExhausted m
  | reportStore : Performs m .reportStore (m.report (.stored m.path.address m.path.acc))
  | reportOutput : Performs m .reportOutput (m.report (.printed (m.path.printed.headD "")))
  | endTick (hgranted : ∀ limit, m.tickLimit = some limit → m.tick ≤ limit) :
      Performs m .endTick { m.report (.tick m.record) with tick := m.tick + 1 }
  | halt : Performs m .halt ({ m with halted := true }.report (.halted m.ticks))

variable {m m' : Machine}

theorem micro_ok_iff {op : MicroOp} :
    m.micro op = .ok m' ↔ ∃ path, m.path.Does op path ∧ m' = { m with path := path } := by
  constructor
  · intro h
    rcases Outcome.bind_ok h with ⟨path, hpath, hpure⟩
    cases hpure
    exact ⟨path, DataPath.apply_ok_iff.mp hpath, rfl⟩
  · rintro ⟨path, hpath, rfl⟩
    rw [micro, DataPath.apply_ok_iff.mpr hpath]
    rfl

/-- A tick ends unless it is beyond the limit. -/
theorem endTick_ok_iff : m.endTick = .ok m' ↔
    (∀ limit, m.tickLimit = some limit → m.tick ≤ limit) ∧
      m' = { m.report (.tick m.record) with tick := m.tick + 1 } := by
  rw [endTick]
  cases hlimit : m.tickLimit with
  | none => simp [eq_comm]
  | some limit =>
    simp only [Option.some.injEq, forall_eq']
    by_cases hlt : limit < m.tick
    · rw [if_pos hlt]
      refine ⟨fun h => ?_, fun h => absurd h.1 (Nat.not_le_of_lt hlt)⟩
      cases h
    · rw [if_neg hlt]
      refine ⟨fun h => ?_, fun h => by rw [h.2]⟩
      cases h
      exact ⟨Nat.le_of_not_lt hlt, rfl⟩

/-- An action succeeds in one of the ways and in no other. -/
theorem perform_ok_iff {action : Action} : m.perform action = .ok m' ↔ m.Performs action m' := by
  constructor
  · intro h
    cases action with
    | micro op =>
      rcases micro_ok_iff.mp h with ⟨path, hpath, rfl⟩
      exact .micro hpath
    | jumpIfExhausted =>
      rw [perform] at h
      by_cases hx : m.path.exhausted = true
      · rw [if_pos hx] at h
        rcases micro_ok_iff.mp h with ⟨path, hpath, rfl⟩
        exact .jumps hx hpath
      · rw [if_neg hx] at h
        cases h
        exact .stays hx
    | endTick =>
      rcases endTick_ok_iff.mp h with ⟨hgranted, rfl⟩
      exact .endTick hgranted
    | reportStore =>
      cases h
      exact .reportStore
    | reportOutput =>
      cases h
      exact .reportOutput
    | halt =>
      cases h
      exact .halt
  · intro h
    cases h with
    | micro hpath => exact micro_ok_iff.mpr ⟨_, hpath, rfl⟩
    | jumps hx hpath =>
      rw [perform, if_pos hx]
      exact micro_ok_iff.mpr ⟨_, hpath, rfl⟩
    | stays hx => rw [perform, if_neg hx]
    | endTick hgranted => exact endTick_ok_iff.mpr ⟨hgranted, rfl⟩
    | reportStore | reportOutput | halt => rfl

/-- What each of some actions keeps, they keep one after another, also when one of them faults. -/
theorem performAll_induction {motive : Machine → Prop} {actions : List Action}
    (hkept : ∀ action ∈ actions, ∀ {m m' : Machine}, motive m → m.Performs action m' → motive m')
    (hm : motive m) : motive (performAll actions m).1 := by
  induction actions generalizing m with
  | nil => exact hm
  | cons action rest ih =>
    rw [performAll]
    cases hperform : m.perform action with
    | error fault => exact hm
    | ok mid =>
      exact ih (fun other hother => hkept other (List.mem_cons_of_mem action hother))
        (hkept action List.mem_cons_self hm (perform_ok_iff.mp hperform))

/-- What every action keeps, a step keeps, also when it fails. -/
theorem step_induction {motive : Machine → Prop}
    (hkept : ∀ {m m' : Machine} {action : Action}, motive m → m.Performs action m' → motive m')
    (hm : motive m) : motive m.step.1 := by
  rw [step]
  by_cases hhalted : m.halted = true
  · rw [if_pos hhalted]
    exact hm
  · have hfetch := performAll_induction (fun action (_ : action ∈ fetchActions) => hkept) hm
    rw [if_neg hhalted]
    simp only [cycle]
    rcases hrun : performAll fetchActions m with ⟨mid, _ | fault⟩
    · rw [hrun] at hfetch
      cases hdecoded : mid.decoded with
      | ok actions =>
        simp only [hdecoded]
        exact performAll_induction (fun action _ => hkept) hfetch
      | error fault =>
        simp only [hdecoded]
        exact hfetch
    · rw [hrun] at hfetch
      exact hfetch

/-- Actions that stop have the fault of one of them, which is the one that finds the machine as it
    is left. -/
theorem performAll_error {actions : List Action} {fault : Fault}
    (h : performAll actions m = (m', some fault)) :
    ∃ action ∈ actions, m'.perform action = .error fault := by
  induction actions generalizing m with
  | nil => cases h
  | cons action rest ih =>
    rw [performAll] at h
    cases hperform : m.perform action with
    | error other =>
      simp only [hperform] at h
      cases h
      exact ⟨action, List.mem_cons_self, hperform⟩
    | ok mid =>
      simp only [hperform] at h
      rcases ih h with ⟨later, hlater, herror⟩
      exact ⟨later, List.mem_cons_of_mem action hlater, herror⟩

end Machine

end AccumulatorMachine
