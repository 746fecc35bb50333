import AccumulatorMachine.Proofs.CodeSegment
import AccumulatorMachine.Proofs.Machine.Action
import AccumulatorMachine.Proofs.Machine.Events

/-!
# Failed Steps

What a step that fails has done until then.

A microprogram is a list of actions, and nothing is undone when one of them faults. A failed step is
without a trace for another reason: the actions come in an order in which the one that may fault is
the first that a program could see. Before it there are only loads of the address register and the
instruction register, and ends of ticks. After it the machine moves on and reports. So what was done
can be seen after a failure only if the move fails, or the clock.

The move fails where the program counter is at the end of its range. An input moves a second time if
it finds no character, and that by any distance. Jumps and skips do nothing but move, so they leave
no trace wherever they are.

## Main definitions

* `Action.Hidden`: An action that a program cannot see.
* `Action.Clerical`: An action that only reports something or ends a tick.
* `Fault.LeavesNoTrace`: The faults that leave a machine as it was.
* `Machine.Clocked`: What actions keep of the clock and the program counter.

## Theorems

* `OpCode.actions_shape`: The order of the actions of a microprogram.
* `Machine.performAll_failed`: A microprogram that fails has done nothing that can be seen.
* `Machine.clocked_of_reachable`: The clock has counted the records in every state.
* `Machine.fault_leaves_no_trace`: A step that fails leaves the machine as it was.
* `Machine.dividesByZero_leaves_no_trace`: A division that leaves no trace.
-/

namespace AccumulatorMachine

/-- An action that a program cannot see: it loads the address register or the instruction register,
    or ends a tick. -/
def Action.Hidden : Action → Prop
  | .micro (.latchAddress _) => True
  | .micro .latchInstruction => True
  | .endTick => True
  | _ => False

/-- An action that only reports something or ends a tick. -/
def Action.Clerical : Action → Prop
  | .reportStore | .reportOutput | .endTick | .halt => True
  | _ => False

instance : DecidablePred Action.Hidden
  | .micro (.latchAddress _) | .micro .latchInstruction | .endTick => isTrue trivial
  | .micro (.latchAccumulator _) | .micro .write | .micro (.latchPc _) | .micro .emit
  | .jumpIfExhausted | .reportStore | .reportOutput | .halt => isFalse id

instance : DecidablePred Action.Clerical
  | .reportStore | .reportOutput | .endTick | .halt => isTrue trivial
  | .micro _ | .jumpIfExhausted => isFalse id

/-- The order of the actions of a microprogram. After some that cannot be seen it does one thing,
    moves on and reports. A jump and a skip have nothing to do but to move, and a halt not even
    that. -/
theorem OpCode.actions_shape (opcode : OpCode) (zero signed : Bool) :
    ∃ hidden rest, opcode.actions zero signed = hidden ++ rest ∧
      (∀ action ∈ hidden, action.Hidden) ∧
      (rest = [.halt] ∨ (∃ update, rest = [.micro (.latchPc update), .endTick]) ∨
        ∃ op moves reports, rest = .micro op :: (moves ++ reports) ∧
          (∀ update, op ≠ .latchPc update) ∧ (∀ action ∈ moves, action.Moves) ∧
          (∀ action ∈ reports, action.Clerical) ∧
          (opcode = .input ∨ moves = [.micro (.latchPc .advance)])) := by
  -- In each list the first action that can be seen is named, and the others are read off.
  cases opcode with
  | read | add | subtract | multiply | divide =>
    exact ⟨[.micro (.latchAddress .direct)], _, rfl, by decide, Or.inr (Or.inr
      ⟨.latchAccumulator (.arithmetic _), [.micro (.latchPc .advance)], [.endTick], rfl, by simp,
        by simp [Action.Moves], by decide, Or.inr rfl⟩)⟩
  | write =>
    exact ⟨[.micro (.latchAddress .direct)], _, rfl, by decide, Or.inr (Or.inr
      ⟨.write, [.micro (.latchPc .advance)], [.reportStore, .endTick], rfl, by simp,
        by simp [Action.Moves], by decide, Or.inr rfl⟩)⟩
  | readAddress =>
    exact ⟨[.micro (.latchAddress .direct), .endTick], _, rfl, by decide, Or.inr (Or.inr
      ⟨.latchAccumulator .address, [.micro (.latchPc .advance)], [.endTick], rfl, by simp,
        by simp [Action.Moves], by decide, Or.inr rfl⟩)⟩
  | writeAddress =>
    exact ⟨[.micro (.latchAddress .indirect), .endTick], _, rfl, by decide, Or.inr (Or.inr
      ⟨.latchAccumulator (.arithmetic .replace), [.micro (.latchPc .advance)], [.endTick], rfl,
        by simp, by simp [Action.Moves], by decide, Or.inr rfl⟩)⟩
  | input =>
    exact ⟨[], _, rfl, by decide, Or.inr (Or.inr
      ⟨.latchAccumulator .input, [.jumpIfExhausted, .micro (.latchPc .advance)], [.endTick], rfl,
        by simp, by simp [Action.Moves], by decide, Or.inl rfl⟩)⟩
  | output =>
    exact ⟨[], _, rfl, by decide, Or.inr (Or.inr
      ⟨.emit, [.micro (.latchPc .advance)], [.reportOutput, .endTick], rfl, by simp,
        by simp [Action.Moves], by decide, Or.inr rfl⟩)⟩
  | jump | skip => exact ⟨[], _, rfl, by decide, Or.inr (Or.inl ⟨_, rfl⟩)⟩
  | halt => exact ⟨[], _, rfl, by decide, Or.inl rfl⟩

/-- The faults after which a machine is as it was before the step. Exceeding the limit is none of
    them. An overflow is one unless the machine cannot move on from where it is, or an input may
    have to move far. -/
def Fault.LeavesNoTrace (m : Machine) : Fault → Prop
  | .tickLimitExceeded _ => False
  | .arithmeticOverflow => m.pc < Word.maximum ∧
      ∀ i, m.path.memory.read m.pc = some (.code i) → i.opcode ≠ .input
  | _ => True

namespace Machine

section Actions

variable {m m' : Machine} {fault : Fault}

/-- Actions one after another, where the second part is done only if the first succeeds. -/
theorem performAll_append (first second : List Action) (m : Machine) :
    performAll (first ++ second) m = match performAll first m with
      | (m', none) => performAll second m'
      | (m', some fault) => (m', some fault) := by
  induction first generalizing m with
  | nil => rfl
  | cons action rest ih =>
    rw [List.cons_append, performAll, performAll]
    cases m.perform action with
    | error fault => rfl
    | ok mid => exact ih mid

theorem endTick_error (h : m.endTick = .error fault) :
    ∃ limit, fault = .tickLimitExceeded limit := by
  rw [endTick] at h
  cases hlimit : m.tickLimit with
  | none =>
    simp only [hlimit] at h
    cases h
  | some limit =>
    simp only [hlimit] at h
    by_cases hlt : limit < m.tick
    · rw [if_pos hlt] at h
      cases h
      exact ⟨limit, rfl⟩
    · rw [if_neg hlt] at h
      cases h

theorem Performs.hidden {action : Action} (h : m.Performs action m') (hhidden : action.Hidden) :
    m'.situation = m.situation := by
  cases h with
  | micro hpath =>
    cases hpath with
    | latchAddress | latchInstruction => rfl
    | compute | address | integer | character | exhausted | write | latchPc | emit =>
      exact hhidden.elim
  | endTick => rfl
  | jumps | stays | reportStore | reportOutput | halt => exact hhidden.elim

theorem perform_hidden_error {action : Action} (hhidden : action.Hidden)
    (h : m.perform action = .error fault) : ∃ limit, fault = .tickLimitExceeded limit := by
  cases action with
  | micro op =>
    cases op with
    | latchAddress source | latchInstruction => cases h
    | latchAccumulator | write | latchPc | emit => exact hhidden.elim
  | endTick => exact endTick_error h
  | jumpIfExhausted | reportStore | reportOutput | halt => exact hhidden.elim

theorem perform_clerical_error {action : Action} (hclerical : action.Clerical)
    (h : m.perform action = .error fault) : ∃ limit, fault = .tickLimitExceeded limit := by
  cases action with
  | endTick => exact endTick_error h
  | reportStore | reportOutput | halt => cases h
  | micro | jumpIfExhausted => exact hclerical.elim

/-- Hidden actions leave what can be seen, and fail only at the limit. -/
theorem performAll_hidden {actions : List Action} (hhidden : ∀ action ∈ actions, action.Hidden)
    (m : Machine) : (performAll actions m).1.situation = m.situation ∧
      ∀ fault, (performAll actions m).2 = some fault →
        ∃ limit, fault = .tickLimitExceeded limit := by
  refine ⟨performAll_induction (motive := fun m' => m'.situation = m.situation)
    (fun action hmem _ _ hkept hperform => (hperform.hidden (hhidden action hmem)).trans hkept) rfl,
    fun fault hfault => ?_⟩
  rcases performAll_error (Prod.ext rfl hfault) with ⟨action, hmem, herror⟩
  exact perform_hidden_error (hhidden action hmem) herror

/-- Reports fail only at the limit. -/
theorem performAll_clerical {actions : List Action}
    (hclerical : ∀ action ∈ actions, action.Clerical)
    (h : performAll actions m = (m', some fault)) : ∃ limit, fault = .tickLimitExceeded limit := by
  rcases performAll_error h with ⟨action, hmem, herror⟩
  exact perform_clerical_error (hclerical action hmem) herror

/-- Moves fail only by an overflow. -/
theorem performAll_moves {actions : List Action} (hmoves : ∀ action ∈ actions, action.Moves)
    (h : performAll actions m = (m', some fault)) : fault = .arithmeticOverflow := by
  rcases performAll_error h with ⟨action, hmem, herror⟩
  rcases perform_moves_error (hmoves action hmem) herror with ⟨update, hupdate⟩
  exact (micro_latchPc_error hupdate).1

/-- Where one thing is done, then moves are made, and then there are reports, only the first of
    these can fail, unless it is a matter of moving on or of the limit. -/
theorem performAll_first_failed {op : MicroOp} {moves reports : List Action}
    (hop : ∀ update, op ≠ .latchPc update) (hmoves : ∀ action ∈ moves, action.Moves)
    (hreports : ∀ action ∈ reports, action.Clerical) (hpc : Word.InRange m.pc)
    (h : performAll (.micro op :: (moves ++ reports)) m = (m', some fault))
    (hlimit : ∀ limit, fault ≠ .tickLimitExceeded limit)
    (hoverflow : fault = .arithmeticOverflow →
      m.pc < Word.maximum ∧ moves = [.micro (.latchPc .advance)]) : m' = m := by
  rw [performAll_micro] at h
  cases happly : m.path.apply op with
  | error other =>
    simp only [happly] at h
    cases h
    rfl
  | ok path =>
    -- The one thing has been done, so what fails now is a move or the clock.
    simp only [happly] at h
    rw [performAll_append] at h
    rcases hmove : performAll moves { m with path := path } with ⟨moved, _ | other⟩
    · rw [hmove] at h
      rcases performAll_clerical hreports h with ⟨limit, heq⟩
      exact absurd heq (hlimit limit)
    · rw [hmove] at h
      cases h
      rcases hoverflow (performAll_moves hmoves hmove) with ⟨hlt, hadvance⟩
      have hkept : path.pc = m.pc := (DataPath.apply_ok_iff.mp happly).pc_eq hop
      have hnext : Word.InRange (path.pc + path.offset .advance) := by
        have hone : path.offset .advance = 1 := rfl
        rw [hkept, hone]
        exact ⟨by have := hpc.1; omega, by omega⟩
      rw [hadvance, performAll_micro, DataPath.apply_latchPc, if_pos hnext] at hmove
      cases hmove

/-- A microprogram that fails has done nothing that can be seen, unless it fails to move on or at
    the limit. -/
theorem performAll_failed {opcode : OpCode} {zero signed : Bool} (hpc : Word.InRange m.pc)
    (h : performAll (opcode.actions zero signed) m = (m', some fault))
    (hlimit : ∀ limit, fault ≠ .tickLimitExceeded limit)
    (hoverflow : fault = .arithmeticOverflow → m.pc < Word.maximum ∧ opcode ≠ .input) :
    m'.situation = m.situation := by
  rcases opcode.actions_shape zero signed with ⟨hidden, rest, hactions, hhidden, hrest⟩
  rcases performAll_hidden hhidden m with ⟨hsituation, hstops⟩
  rw [hactions, performAll_append] at h
  rcases hrun : performAll hidden m with ⟨mid, _ | other⟩
  · rw [hrun] at h hsituation
    simp only at h hsituation
    have hpc' : mid.pc = m.pc := congrArg Situation.pc hsituation
    -- Up to here nothing was changed that can be seen, so all depends on the second part.
    rcases hrest with rfl | ⟨update, rfl⟩ | ⟨op, moves, reports, rfl, hop, hmoves, hreports, hlast⟩
    · cases h
    · rw [performAll_micro] at h
      cases happly : mid.path.apply (.latchPc update) with
      | error other =>
        simp only [happly] at h
        cases h
        exact hsituation
      | ok path =>
        simp only [happly] at h
        rcases performAll_clerical (by decide) h with ⟨limit, heq⟩
        exact absurd heq (hlimit limit)
    · have hfailed := performAll_first_failed hop hmoves hreports (hpc' ▸ hpc) h hlimit
        fun heq => ⟨hpc' ▸ (hoverflow heq).1, hlast.resolve_left (hoverflow heq).2⟩
      rw [hfailed]
      exact hsituation
  · rw [hrun] at h
    cases h
    rcases hstops fault (congrArg Prod.snd hrun) with ⟨limit, heq⟩
    exact absurd heq (hlimit limit)

end Actions

/-- What actions keep of the clock and the program counter. -/
structure Clocked (m : Machine) : Prop where
  /-- The tick that is going on comes after those that have a record. -/
  tick_eq : m.tick = m.journal.length + 1
  inRange : Word.InRange m.path.pc

theorem Clocked.performs {m m' : Machine} {action : Action} (hm : m.Clocked)
    (h : m.Performs action m') : m'.Clocked := by
  cases h with
  | micro hpath => exact ⟨hm.tick_eq, hpath.pc_inRange hm.inRange⟩
  | jumps _ hpath => exact ⟨hm.tick_eq, hpath.pc_inRange hm.inRange⟩
  | stays => exact hm
  | endTick =>
    have hjournal : m.ticked.journal = m.journal ++ [m.record] := journal_report m _
    refine ⟨(congrArg (· + 1) hm.tick_eq).trans ?_, hm.inRange⟩
    exact congrArg (· + 1) ((congrArg List.length hjournal).trans List.length_append).symm
  | reportStore | reportOutput | halt =>
    refine ⟨hm.tick_eq.trans ?_, hm.inRange⟩
    rw [journal_report]
    exact congrArg (List.length · + 1) (List.append_nil _).symm

/-- The clock has counted the records in every state. -/
theorem clocked_of_reachable {image : Image} {input : List Char} {limit : Option Nat} {m : Machine}
    (hm : Reachable image input limit m) : m.Clocked := by
  induction hm with
  | load => exact ⟨rfl, show Word.InRange 0 by decide⟩
  | step _ ih => exact step_induction Clocked.performs ih

/-- A cycle that fails has done nothing that can be seen, unless it fails to move on or at the
    limit. -/
theorem cycle_failed {m m' : Machine} {fault : Fault} (hpc : Word.InRange m.pc)
    (h : m.cycle = (m', some fault)) (htrace : fault.LeavesNoTrace m) :
    m'.situation = m.situation := by
  have hlimit : ∀ limit, fault ≠ .tickLimitExceeded limit := by
    rintro limit rfl
    exact htrace
  have hhidden : ∀ action ∈ fetchActions, action.Hidden := by decide
  rcases performAll_hidden hhidden m with ⟨hsituation, -⟩
  rw [cycle] at h
  rcases hfetch : performAll fetchActions m with ⟨mid, _ | other⟩
  · rw [hfetch] at hsituation
    have hpc' : mid.pc = m.pc := congrArg Situation.pc hsituation
    -- What was fetched is the cell at the program counter before the cycle.
    have hcell : mid.path.instruction = m.path.memory.read m.pc := by
      rcases performAll_fetch m with ⟨m₁, other, hrun, -⟩ | ⟨m₁, hrun, -, -, hcell, -⟩
      · rw [hrun] at hfetch
        cases hfetch
      · rw [hrun] at hfetch
        cases hfetch
        exact hcell
    simp only [hfetch, decoded, hcell] at h
    rcases hread : m.path.memory.read m.pc with _ | value | i
    · simp only [hread] at h
      cases h
    · simp only [hread] at h
      cases h
      exact hsituation
    · simp only [hread] at h
      refine (performAll_failed (hpc' ▸ hpc) h hlimit fun hoverflow => ?_).trans hsituation
      subst hoverflow
      exact ⟨hpc' ▸ htrace.1, htrace.2 i hread⟩
  · rw [hfetch] at h hsituation
    cases h
    exact hsituation

/-- A step that fails leaves no trace. All that a program can see is as it was, and the machine has
    not halted, so the next step tries the same again. The failure tells where the machine is, and
    that as many ticks have ended as there are records. The exceptions are a limit that is exceeded
    and an overflow on the way to the next instruction. -/
theorem fault_leaves_no_trace {image : Image} {input : List Char} {limit : Option Nat}
    {m m' : Machine} {failure : Failure} (hm : Reachable image input limit m)
    (hstep : m.step = (m', some failure)) (htrace : failure.fault.LeavesNoTrace m) :
    m'.core = m.core ∧ m'.pc = m.pc ∧ m'.halted = false ∧ failure.pc = m.pc ∧
      failure.tick = m'.ticks + 1 ∧ m'.ticks = m'.journal.length := by
  have hclocked := clocked_of_reachable hm
  have hclocked' : m'.Clocked := by
    have hafter := clocked_of_reachable (.step hm)
    rwa [hstep] at hafter
  have hticks : m'.ticks = m'.journal.length := by rw [ticks, hclocked'.tick_eq, Nat.add_sub_cancel]
  by_cases hhalted : m.halted = true
  · rw [step_of_halted hhalted] at hstep
    cases hstep
  · rw [step, if_neg hhalted] at hstep
    rcases hcycle : m.cycle with ⟨mid, _ | fault⟩
    · rw [hcycle] at hstep
      cases hstep
    · rw [hcycle] at hstep
      cases hstep
      -- The cycle has only fetched and latched, which is no part of the situation.
      have hsituation := cycle_failed hclocked.inRange hcycle htrace
      have hpc : m'.pc = m.pc := congrArg Situation.pc hsituation
      refine ⟨congrArg Situation.core hsituation, hpc, ?_, hpc, ?_, hticks⟩
      · rw [show m'.halted = m.halted from congrArg Situation.halted hsituation]
        exact Bool.eq_false_iff.mpr hhalted
      · rw [hticks]
        exact hclocked'.tick_eq

/-- An image that loads a number and divides it by zero. -/
def dividesByZero : Image :=
  ⟨[⟨.code ⟨.readAddress, 7⟩, 0⟩, ⟨.code ⟨.divide, 9⟩, 1⟩, ⟨.data 0, 9⟩]⟩

/-- The division fails after its fetch, in the fifth tick, and the number is still there. -/
theorem dividesByZero_leaves_no_trace :
    let m := (load dividesByZero ['x'] (some 10)).step.1
    m.step.2 = some ⟨.divisionByZero, 1, 5⟩ ∧ m.step.1.core = m.core ∧ m.step.1.pc = 1 ∧
      m.step.1.halted = false ∧ m.step.1.journal.length = 4 := by
  intro m
  have hfailure : m.step.2 = some ⟨.divisionByZero, 1, 5⟩ := rfl
  rcases fault_leaves_no_trace (.step .load) (Prod.ext rfl hfailure) trivial with
    ⟨hcore, hpc, hhalted, -, htick, hticks⟩
  exact ⟨hfailure, hcore, hpc, hhalted, by rw [← hticks]; exact (Nat.succ.inj htick).symm⟩

end Machine

end AccumulatorMachine
