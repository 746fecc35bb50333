import AccumulatorMachine.CommandLine
import AccumulatorMachine.Proofs.Machine.Fragment
import AccumulatorMachine.Proofs.Machine.TickLimit

/-!
# Interruption

What a run has done when its tick limit stops it.

The limit is looked at after a tick has done its work. So the tick beyond the limit leaves no
record, but what it stores, prints or consumes stays stored, printed or consumed. A run with a limit
thus leaves a journal of that many ticks, and a memory, an output and an input of one tick more.

Most ticks do not show this, since they work on registers only. The ticks that do show it are the
last ones of stores, of outputs, and of inputs that find a character. These instructions take one
tick after their fetch. So the limit is late exactly where it falls between the two ticks of such an
instruction, and nothing can be seen of the tick beyond it in a fetch or in an instruction with two
ticks after the fetch.

## Main definitions

* `Core.outside`: What can be seen outside of the registers.
* `Core.Acts`, `Machine.ActsNext`: An instruction that changes it.

## Theorems

* `Core.outside_effect`: The effect of an instruction is seen exactly if it acts.
* `Instruction.actions_ticks`: The ticks of a microprogram.
* `Machine.runFor_ne_tickLimitExceeded`: Without a limit none is exceeded.
* `Machine.outside_cycleEnds`: In which tick an instruction acts.
* `Machine.runEnds_get`: Every tick belongs to an instruction.
* `Machine.runEnds_before`: What a tick does that can be seen.
* `Machine.run_interrupted`: What a run has done when its limit stops it.
* `Machine.printsZero_interrupted`: A run that prints in the tick beyond its limit.
-/

namespace AccumulatorMachine

namespace Core

/-- What a program leaves outside of the registers: the memory, the printed tokens and the input
    that it has not consumed. -/
def outside (c : Core) : Memory × List String × List Char := (c.memory, c.printed, c.input)

/-- An instruction that changes something outside of the registers: it stores a number that is not
    there yet, prints, or consumes a character. -/
def Acts (c : Core) (i : Instruction) : Prop :=
  (i.opcode = .write ∧ c.memory.read i.operand ≠ some (.data c.acc)) ∨ i.opcode = .output ∨
    (i.opcode = .input ∧ i.operand ≠ integerMode ∧ c.input ≠ [])

section Effect

variable {c c' : Core}

theorem outside_compute {op : ArithmeticOp} {a : Int} (h : c.compute op a = .ok c') :
    c'.outside = c.outside := by
  rcases Outcome.bind_ok h with ⟨cell, -, hvalue⟩
  rcases Outcome.bind_ok hvalue with ⟨value, -, hpure⟩
  cases hpure
  rfl

/-- A store is seen unless the number was there. -/
theorem outside_store (c : Core) (a : Int) :
    (c.store a).outside = c.outside ↔ c.memory.read a = some (.data c.acc) := by
  constructor
  · intro h
    have hmemory : c.memory.write a (.data c.acc) = c.memory := congrArg Prod.fst h
    rw [← hmemory, Memory.read_write, if_pos rfl]
  · intro h
    have hmemory : c.memory.write a (.data c.acc) = c.memory := by
      refine Memory.ext_read fun other => ?_
      rw [Memory.read_write]
      by_cases hother : other = a
      · rw [if_pos hother, hother, h]
      · rw [if_neg hother]
    rw [outside, store, hmemory]
    rfl

theorem outside_print {mode : Int} (h : c.print mode = .ok c') : c'.outside ≠ c.outside := by
  have hprinted : ∃ token, c'.printed = token :: c.printed := by
    rw [print] at h
    by_cases hmode : mode = characterMode
    · rw [if_pos hmode] at h
      cases hchar : charOfCode? c.acc with
      | none => simp only [hchar] at h; cases h
      | some ch => simp only [hchar] at h; cases h; exact ⟨_, rfl⟩
    · rw [if_neg hmode] at h
      cases h
      exact ⟨_, rfl⟩
  rcases hprinted with ⟨token, htoken⟩
  intro hsame
  have hlist : token :: c.printed = c.printed :=
    htoken ▸ congrArg (fun parts => parts.2.1) hsame
  exact List.cons_ne_self token c.printed hlist

theorem outside_readInput {mode : Int} (h : c.readInput mode = .ok c') :
    c'.outside = c.outside ↔ ¬ (mode ≠ integerMode ∧ c.input ≠ []) := by
  rw [readInput] at h
  -- An integer is read without taking it from the input.
  by_cases hmode : mode = integerMode
  · rw [if_pos hmode] at h
    cases hvalue : inputInteger? c.input with
    | none => simp only [hvalue] at h; cases h
    | some value =>
      simp only [hvalue] at h
      cases h
      exact ⟨fun _ hboth => hboth.1 hmode, fun _ => rfl⟩
  · rw [if_neg hmode] at h
    cases hinput : c.input with
    | nil =>
      simp only [hinput] at h
      cases h
      exact ⟨fun _ hboth => hboth.2 rfl,
        fun _ => (congrArg (fun rest => (c.memory, c.printed, rest)) hinput).symm⟩
    | cons ch input =>
      simp only [hinput] at h
      cases h
      refine ⟨fun hsame => ?_, fun hnot => absurd ⟨hmode, List.cons_ne_nil ch input⟩ hnot⟩
      have hlist : input = c.input := congrArg (fun parts => parts.2.2) hsame
      rw [hinput] at hlist
      exact absurd hlist.symm (List.cons_ne_self ch input)

/-- The effect of an instruction is seen from outside exactly if it acts. -/
theorem outside_effect {i : Instruction} {distance : Int} (h : c.effect i = .ok (c', distance)) :
    c'.outside = c.outside ↔ ¬ c.Acts i := by
  obtain ⟨opcode, operand⟩ := i
  cases opcode with
  | write =>
    cases h
    rw [outside_store]
    simp [Acts]
  | output =>
    rcases Outcome.bind_ok h with ⟨mid, hmid, hpure⟩
    cases hpure
    simp [Acts, outside_print hmid]
  | input =>
    rcases Outcome.bind_ok h with ⟨mid, hmid, hpure⟩
    cases hpure
    rw [outside_readInput hmid]
    simp [Acts]
  | jump | skip | readAddress | halt =>
    cases h
    simp [Acts, outside, setAccumulator]
  | read | add | subtract | multiply | divide | writeAddress =>
    rcases Outcome.bind_ok h with ⟨mid, hmid, hpure⟩
    cases hpure
    simp [Acts, outside_compute hmid]

end Effect

end Core

/-- The data path knows no ticks. -/
theorem DataPath.apply_ne_tickLimitExceeded (d : DataPath) (op : MicroOp) (limit : Nat) :
    d.apply op ≠ .error (.tickLimitExceeded limit) := by
  intro h
  -- Only four operations can fault, and none of their faults is about ticks.
  cases op with
  | latchAddress source => cases h
  | latchInstruction => cases h
  | write => cases h
  | latchPc update =>
    rw [apply_latchPc] at h
    by_cases hin : Word.InRange (d.pc + d.offset update)
    · rw [if_pos hin] at h
      cases h
    · rw [if_neg hin] at h
      cases h
  | emit =>
    rw [apply, emitted] at h
    by_cases hmode : d.operand = characterMode
    · rw [if_pos hmode] at h
      cases hchar : charOfCode? d.acc <;> simp only [hchar] at h <;> cases h
    · rw [if_neg hmode] at h
      cases h
  | latchAccumulator source =>
    cases source with
    | address => cases h
    | input =>
      rw [apply, loadAccumulator, readInteger] at h
      by_cases hmode : d.operand = integerMode
      · rw [if_pos hmode] at h
        cases hvalue : inputInteger? d.input <;> simp only [hvalue] at h <;> cases h
      · rw [if_neg hmode] at h
        cases h
    | arithmetic op =>
      rw [apply, loadAccumulator, readData] at h
      rcases hread : d.memory.read d.address with _ | value | i
      · simp only [hread] at h
        cases h
      · simp only [hread, bind, Except.bind] at h
        cases hresult : op.apply d.acc value with
        | ok result => simp only [hresult] at h; cases h
        | error fault =>
          simp only [hresult] at h
          cases h
          rcases ArithmeticOp.apply_error hresult with hfault | hfault <;> cases hfault
      · simp only [hread] at h
        cases h

/-- Every microprogram but the one of a halt is a single tick, or a tick that loads the address
    register and another one. The instructions that take two ticks do not act. -/
theorem Instruction.actions_ticks {i : Instruction} (hhalt : i.opcode ≠ .halt)
    (zero signed : Bool) : ∃ inner, (∀ action ∈ inner, action ≠ Action.endTick) ∧
      (i.opcode.actions zero signed = inner ++ [.endTick] ∨ (∀ c : Core, ¬ c.Acts i) ∧
        ∃ source, i.opcode.actions zero signed
          = .micro (.latchAddress source) :: .endTick :: (inner ++ [.endTick])) := by
  obtain ⟨opcode, operand⟩ := i
  cases opcode with
  | read | add | subtract | multiply | divide => exact ⟨[_, _, _], by decide, Or.inl rfl⟩
  | write => exact ⟨[_, _, _, _], by decide, Or.inl rfl⟩
  | readAddress =>
    exact ⟨[_, _], by decide, Or.inr ⟨by simp [Core.Acts], .direct, rfl⟩⟩
  | writeAddress =>
    exact ⟨[_, _], by decide, Or.inr ⟨by simp [Core.Acts], .indirect, rfl⟩⟩
  | jump => exact ⟨[_], by decide, Or.inl rfl⟩
  | skip condition negated => exact ⟨[_], by simp, Or.inl rfl⟩
  | input | output => exact ⟨[_, _, _], by decide, Or.inl rfl⟩
  | halt => exact absurd rfl hhalt

namespace Machine

/-- A machine that is about to run an instruction that acts. -/
def ActsNext (m : Machine) : Prop :=
  ∃ i, m.path.memory.read m.path.pc = some (.code i) ∧ m.core.Acts i

section Faults

variable {m m' : Machine} (hlimit : m.tickLimit = none)

include hlimit

theorem perform_ne_tickLimitExceeded (action : Action) (limit : Nat) :
    m.perform action ≠ .error (.tickLimitExceeded limit) := by
  have hmicro : ∀ op, m.micro op ≠ .error (.tickLimitExceeded limit) := by
    intro op h
    rw [micro] at h
    cases hpath : m.path.apply op with
    | ok path =>
      rw [hpath] at h
      cases h
    | error fault =>
      rw [hpath] at h
      cases h
      exact m.path.apply_ne_tickLimitExceeded op limit hpath
  cases action with
  | micro op => exact hmicro op
  | jumpIfExhausted =>
    rw [perform]
    by_cases hx : m.path.exhausted = true
    · rw [if_pos hx]
      exact hmicro (.latchPc .jump)
    · rw [if_neg hx]
      intro h
      cases h
  | endTick =>
    -- This action alone looks at the limit, and there is none.
    rw [perform_endTick_unlimited hlimit]
    intro h
    cases h
  | reportStore | reportOutput | halt =>
    intro h
    cases h

theorem performAll_ne_tickLimitExceeded (actions : List Action) (limit : Nat) :
    (performAll actions m).2 ≠ some (.tickLimitExceeded limit) := by
  intro h
  rcases performAll_error (Prod.ext rfl h) with ⟨action, -, herror⟩
  have hlimit' := (trail_performAll hlimit actions).unlimited hlimit
  exact perform_ne_tickLimitExceeded hlimit' action limit herror

theorem cycle_ne_tickLimitExceeded (limit : Nat) : m.cycle.2 ≠ some (.tickLimitExceeded limit) := by
  rw [cycle_unlimited hlimit, decoded]
  rcases m.fetching.ticked.path.instruction with _ | value | i
  · intro h
    cases h
  · intro h
    cases h
  · exact performAll_ne_tickLimitExceeded (m := m.fetching.ticked) hlimit _ limit

/-- Without a limit none is exceeded. -/
theorem runFor_ne_tickLimitExceeded {n : Nat} {failure : Failure}
    (h : runFor n m = (m', some failure)) (limit : Nat) :
    failure.fault ≠ .tickLimitExceeded limit := by
  induction n generalizing m with
  | zero => cases h
  | succ n ih =>
    rw [runFor] at h
    by_cases hhalted : m.halted = true
    · rw [if_pos hhalted] at h
      cases h
    · have hrunning := Bool.eq_false_iff.mpr hhalted
      have hstep := trail_step hlimit hrunning
      rw [if_neg hhalted] at h
      rw [step_running hrunning] at h hstep
      cases hfault : m.cycle.2 with
      | none =>
        simp only [hfault] at h
        exact ih (hstep.unlimited hlimit) h
      | some fault =>
        simp only [hfault] at h
        cases h
        intro heq
        exact cycle_ne_tickLimitExceeded hlimit limit (hfault.trans (congrArg some heq))

end Faults

section Ends

variable {m m' : Machine} (hlimit : m.tickLimit = none)

include hlimit

/-- Where a single tick ends, at the end of the actions, they have all been done. -/
theorem tickEnds_lastTick (inner : List Action) (hinner : ∀ action ∈ inner, action ≠ .endTick)
    {k : Nat} {e : Machine} (h : (tickEnds (inner ++ [.endTick]) m)[k]? = some e) :
    k = 0 ∧ performAll (inner ++ [.endTick]) m = (e.ticked, none) := by
  -- No action in front of the last one ends a tick.
  induction inner generalizing m with
  | nil =>
    rw [List.nil_append, tickEnds, perform_endTick_unlimited hlimit] at h
    rw [List.nil_append, performAll, perform_endTick_unlimited hlimit]
    cases k with
    | zero =>
      cases h
      exact ⟨rfl, rfl⟩
    | succ k => cases h
  | cons action rest ih =>
    have hfirst := hinner action List.mem_cons_self
    rw [List.cons_append, tickEnds] at h
    rw [List.cons_append, performAll]
    cases hperform : m.perform action with
    | error fault =>
      simp only [hperform] at h
      cases h
    | ok mid =>
      simp only [hperform, if_neg hfirst] at h
      exact ih (perform_unlimited hlimit hperform)
        (fun other hother => hinner other (List.mem_cons_of_mem action hother)) h

/-- The same where another tick only loads the address register before. -/
theorem tickEnds_twoTicks (inner : List Action) (hinner : ∀ action ∈ inner, action ≠ .endTick)
    (source : AddressSource) {k : Nat} {e : Machine}
    (h : (tickEnds (.micro (.latchAddress source) :: .endTick :: (inner ++ [.endTick])) m)[k]?
      = some e) :
    k = 0 ∧ e.core = m.core ∨ k = 1 ∧
      performAll (.micro (.latchAddress source) :: .endTick :: (inner ++ [.endTick])) m
        = (e.ticked, none) := by
  have hends : tickEnds (.micro (.latchAddress source) :: .endTick :: (inner ++ [.endTick])) m
      = tickEnds (.endTick :: (inner ++ [.endTick])) (m.addressed source) := rfl
  have hrun : performAll (.micro (.latchAddress source) :: .endTick :: (inner ++ [.endTick])) m
      = performAll (.endTick :: (inner ++ [.endTick])) (m.addressed source) := rfl
  rw [hends, tickEnds, perform_endTick_unlimited (m := m.addressed source) hlimit] at h
  rw [hrun, performAll, perform_endTick_unlimited (m := m.addressed source) hlimit]
  cases k with
  | zero =>
    cases h
    exact Or.inl ⟨rfl, rfl⟩
  | succ k =>
    rcases tickEnds_lastTick (m := (m.addressed source).ticked) hlimit inner hinner h with
      ⟨rfl, hlast⟩
    exact Or.inr ⟨rfl, hlast⟩

/-- Where a microprogram is about to end a tick, either it has been done as a whole, or it has
    loaded an address and nothing else. -/
theorem tickEnds_actions {i : Instruction} (hhalt : i.opcode ≠ .halt) {k : Nat} {e : Machine}
    (h : (tickEnds (i.opcode.actions m.path.zero m.path.signed) m)[k]? = some e) :
    (k = 0 ∨ k = 1 ∧ ∀ c : Core, ¬ c.Acts i) ∧
      ((∀ c : Core, ¬ c.Acts i) ∧ e.core = m.core ∨
        performAll (i.opcode.actions m.path.zero m.path.signed) m = (e.ticked, none)) := by
  rcases i.actions_ticks hhalt m.path.zero m.path.signed with
    ⟨inner, hinner, hactions | ⟨hsilent, source, hactions⟩⟩
  · rw [hactions] at h ⊢
    rcases tickEnds_lastTick hlimit inner hinner h with ⟨hk, hlast⟩
    exact ⟨Or.inl hk, Or.inr hlast⟩
  · rw [hactions] at h ⊢
    rcases tickEnds_twoTicks hlimit inner hinner source h with ⟨hk, hcore⟩ | ⟨hk, hlast⟩
    · exact ⟨Or.inl hk, Or.inl ⟨hsilent, hcore⟩⟩
    · exact ⟨Or.inr ⟨hk, hsilent⟩, Or.inr hlast⟩

/-- Actions that end with a tick leave the machine as this tick does. -/
theorem tickEnds_of_ok (inner : List Action)
    (h : performAll (inner ++ [.endTick]) m = (m', none)) :
    ∃ init e, tickEnds (inner ++ [.endTick]) m = init ++ [e] ∧ m' = e.ticked := by
  induction inner generalizing m with
  | nil =>
    rw [List.nil_append, performAll, perform_endTick_unlimited hlimit] at h
    rw [List.nil_append, tickEnds, perform_endTick_unlimited hlimit]
    cases h
    exact ⟨[], m, rfl, rfl⟩
  | cons action rest ih =>
    rcases performAll_cons_ok h with ⟨mid, hperform, hrest⟩
    rcases ih (perform_unlimited hlimit hperform) hrest with ⟨init, e, hends, hm'⟩
    rw [List.cons_append, tickEnds, hperform]
    simp only [hends]
    exact ⟨_ ++ init, e, (List.append_assoc _ _ _).symm, hm'⟩

end Ends

theorem core_of_movesAlong {c : Core} {m' : Machine} {pc : Int} {legs : List Int}
    (h : MovesAlong c (m', none) pc legs) : m'.core = c := by
  induction legs generalizing pc with
  | nil =>
    rcases h with ⟨mid, hmid, hat⟩
    cases hmid
    exact hat.core_eq
  | cons leg legs ih =>
    rw [MovesAlong] at h
    by_cases hin : Word.InRange (pc + leg)
    · rw [if_pos hin] at h
      exact ih h
    · rw [if_neg hin] at h
      rcases h with ⟨mid, hmid, -⟩
      cases hmid

section Cycle

variable {m m' : Machine} (hlimit : m.tickLimit = none) (hrunning : m.halted = false)

include hlimit hrunning

/-- An instruction that has come to its end is seen from outside exactly if it acts. -/
theorem outside_cycle {i : Instruction} (hi : m.path.memory.read m.path.pc = some (.code i))
    (hhalt : i.opcode ≠ .halt) (h : m.cycle = (m', none)) :
    m'.core.outside = m.core.outside ↔ ¬ m.core.Acts i := by
  have heffect := cycle_of_code (m := m) ⟨hrunning, hlimit, rfl, rfl⟩ hi hhalt
  rw [h] at heffect
  cases hcore : m.core.effect i with
  | error fault =>
    rw [hcore] at heffect
    rcases heffect with ⟨mid, hmid, -⟩
    cases hmid
  | ok result =>
    rw [hcore] at heffect
    rw [core_of_movesAlong heffect]
    exact Core.outside_effect hcore

/-- Where an instruction is about to end a tick, it is seen from outside exactly if it acts and this
    is the tick after its fetch. An instruction that acts has no later tick. -/
theorem outside_cycleEnds {k : Nat} {e : Machine} (h : m.cycleEnds[k]? = some e) :
    (e.core.outside = m.core.outside ↔ ¬ (k = 1 ∧ m.ActsNext)) ∧ (m.ActsNext → k ≤ 1) := by
  rw [cycleEnds] at h
  -- The first tick only fetches. The others are those of the instruction that it has fetched.
  cases k with
  | zero =>
    cases h
    exact ⟨iff_of_true rfl fun hboth => Nat.zero_ne_one hboth.1, fun _ => Nat.zero_le 1⟩
  | succ k =>
    rw [List.getElem?_cons_succ, decodedEnds, decoded] at h
    have hfetched : m.fetching.ticked.path.instruction = m.path.memory.read m.path.pc := rfl
    rw [hfetched] at h
    rcases hi : m.path.memory.read m.path.pc with _ | value | i
    · simp only [hi] at h
      cases h
    · simp only [hi] at h
      cases h
    · simp only [hi] at h
      have hhalt : i.opcode ≠ .halt := by
        intro hop
        rw [hop] at h
        cases h
      rcases tickEnds_actions (m := m.fetching.ticked) hlimit hhalt h with ⟨hk, hdone⟩
      have hacts : m.ActsNext ↔ m.core.Acts i := by
        refine ⟨fun hnext => ?_, fun hacts => ⟨i, hi, hacts⟩⟩
        rcases hnext with ⟨j, hj, hacts⟩
        rw [hi] at hj
        cases hj
        exact hacts
      -- The tick is the last one, or the instruction does nothing that is seen from outside.
      have hseen : e.core.outside = m.core.outside ↔ ¬ m.core.Acts i := by
        rcases hdone with ⟨hsilent, hcore⟩ | hlast
        · rw [hcore]
          exact iff_of_true rfl (hsilent m.core)
        · have hdecoded : m.fetching.ticked.decoded = .ok (i.opcode.actions
              m.fetching.ticked.path.zero m.fetching.ticked.path.signed) := by
            rw [decoded, hfetched, hi]
          have hcycle : m.cycle = (e.ticked, none) := by
            rw [cycle_unlimited hlimit, hdecoded]
            exact hlast
          have hcore : e.core = e.ticked.core := rfl
          rw [hcore]
          exact outside_cycle hlimit hrunning hi hhalt hcycle
      rw [hacts, hseen]
      rcases hk with rfl | ⟨rfl, hsilent⟩
      · exact ⟨by simp only [Nat.zero_add, true_and], fun _ => Nat.le_refl 1⟩
      · exact ⟨iff_of_true (hsilent m.core) fun hboth => hsilent m.core hboth.2,
          fun hacts => absurd hacts (hsilent m.core)⟩

/-- A step that goes on leaves the machine as its last tick does. -/
theorem cycleEnds_of_step (hstep : m.step = (m', none)) (hgoes : m'.halted = false) :
    ∃ init e, m.cycleEnds = init ++ [e] ∧ m' = e.ticked := by
  rw [step_running hrunning, cycle_unlimited hlimit] at hstep
  rw [cycleEnds, decodedEnds]
  -- A machine that goes on has not halted, neither by an instruction nor for want of one.
  have hhalts : ∀ ended : Machine, performAll [.halt] ended = (m', none) → False := by
    intro ended hrun
    cases hrun
    cases hgoes
  cases hdecoded : m.fetching.ticked.decoded with
  | error fault =>
    rw [hdecoded] at hstep
    cases hstep
  | ok actions =>
    rw [hdecoded] at hstep
    have hrun : performAll actions m.fetching.ticked = (m', none) := by
      cases hperform : performAll actions m.fetching.ticked with
      | mk ended fault =>
        simp only [hperform] at hstep
        cases fault with
        | some fault => cases hstep
        | none => exact congrArg (·, none) (congrArg Prod.fst hstep)
    rw [decoded] at hdecoded
    rcases hinstruction : m.fetching.ticked.path.instruction with _ | value | i
    · simp only [hinstruction] at hdecoded
      cases hdecoded
      exact (hhalts _ hrun).elim
    · simp only [hinstruction] at hdecoded
      cases hdecoded
    · simp only [hinstruction] at hdecoded
      cases hdecoded
      by_cases hhalt : i.opcode = .halt
      · rw [hhalt] at hrun
        exact (hhalts _ hrun).elim
      · have hends : ∃ inner : List Action, i.opcode.actions m.fetching.ticked.path.zero
            m.fetching.ticked.path.signed = inner ++ [.endTick] := by
          rcases i.actions_ticks hhalt m.fetching.ticked.path.zero m.fetching.ticked.path.signed
            with ⟨inner, -, hactions | ⟨-, source, hactions⟩⟩
          · exact ⟨inner, hactions⟩
          · exact ⟨_ :: _ :: inner, hactions⟩
        rcases hends with ⟨inner, hactions⟩
        simp only [hactions] at hrun ⊢
        rcases tickEnds_of_ok (m := m.fetching.ticked) hlimit inner hrun with ⟨init, e, hlast, hm'⟩
        exact ⟨m.fetching :: init, e, congrArg (m.fetching :: ·) hlast, hm'⟩

end Cycle

section Run

variable {m : Machine} (hlimit : m.tickLimit = none)

include hlimit

/-- Between two instructions a machine has the core that it had when the last tick ended. -/
theorem runEnds_last {n : Nat} {m' : Machine} (h : runFor n m = (m', none))
    (hgoes : m'.halted = false) :
    ∃ init last, m :: runEnds n m = init ++ [last] ∧ m'.core = last.core := by
  induction n generalizing m with
  | zero =>
    cases h
    exact ⟨[], _, rfl, rfl⟩
  | succ n ih =>
    rw [runFor] at h
    rw [runEnds]
    by_cases hhalted : m.halted = true
    · rw [if_pos hhalted] at h
      cases h
      rw [hhalted] at hgoes
      cases hgoes
    · have hrunning := Bool.eq_false_iff.mpr hhalted
      have htrail := trail_step hlimit hrunning
      rw [if_neg hhalted] at h ⊢
      cases hstep : m.step with
      | mk mid failure =>
        rw [hstep] at h htrail
        cases failure with
        | some failure => cases h
        | none =>
          have hrest : runFor n mid = (m', none) := h
          have hmid : mid.halted = false := by
            refine Bool.eq_false_iff.mpr fun hmid => ?_
            rw [runFor_of_halted hmid] at hrest
            cases hrest
            rw [hmid] at hgoes
            cases hgoes
          rcases cycleEnds_of_step hlimit hrunning hstep hmid with ⟨first, e, hcycle, rfl⟩
          rcases ih (htrail.unlimited hlimit) hrest with ⟨init, last, hends, hcore⟩
          cases init with
          | nil =>
            -- No tick has ended since, so the last one is that of the step.
            rw [List.nil_append, List.cons.injEq] at hends
            rcases hends with ⟨rfl, hnone⟩
            simp only [hnone, hcycle]
            exact ⟨m :: first, e, by simp, hcore⟩
          | cons other init =>
            rw [List.cons_append, List.cons.injEq] at hends
            simp only [hends.2]
            exact ⟨m :: (m.cycleEnds ++ init), last, by simp, hcore⟩

/-- A tick that a run is about to end belongs to one of its instructions. -/
theorem runEnds_get {n k : Nat} {e : Machine} (h : (runEnds n m)[k]? = some e) :
    ∃ j first rest i, runFor j m = (first, none) ∧ first.halted = false ∧
      runEnds n m = runEnds j m ++ (first.cycleEnds ++ rest) ∧
      k = (runEnds j m).length + i ∧ first.cycleEnds[i]? = some e := by
  induction n generalizing m k with
  | zero => cases h
  | succ n ih =>
    rw [runEnds] at h ⊢
    by_cases hhalted : m.halted = true
    · rw [if_pos hhalted] at h
      cases h
    · have hrunning := Bool.eq_false_iff.mpr hhalted
      have htrail := trail_step hlimit hrunning
      rw [if_neg hhalted, List.getElem?_append] at h
      rw [if_neg hhalted]
      -- The tick is one of the first instruction, or one of the run behind it.
      by_cases hlt : k < m.cycleEnds.length
      · rw [if_pos hlt] at h
        exact ⟨0, m, _, k, rfl, hrunning, rfl, (Nat.zero_add k).symm, h⟩
      · rw [if_neg hlt] at h
        cases hstep : m.step with
        | mk mid failure =>
          rw [hstep] at h htrail
          cases failure with
          | some failure => cases h
          | none =>
            rcases ih (m := mid) (htrail.unlimited hlimit) h with
              ⟨j, first, rest, i, hrun, hgoes, hends, hk, he⟩
            have hmore : runEnds (j + 1) m = m.cycleEnds ++ runEnds j mid := by
              rw [runEnds, if_neg hhalted, hstep]
            refine ⟨j + 1, first, rest, i, ?_, hgoes, ?_, ?_, he⟩
            · rw [runFor_succ, hstep]
              exact hrun
            · rw [hmore, List.append_assoc, ← hends]
            · rw [hmore, List.length_append]
              omega

/-- The tick before one that a run is about to end, and what of the instruction in between can be
    seen from outside. -/
theorem runEnds_before {n k : Nat} {e : Machine} (h : (runEnds n m)[k]? = some e) :
    ∃ before j first i, (m :: runEnds n m)[k]? = some before ∧ runFor j m = (first, none) ∧
      first.halted = false ∧ e.tick = first.tick + i ∧
      (e.core.outside = before.core.outside ↔ ¬ (i = 1 ∧ first.ActsNext)) := by
  rcases runEnds_get hlimit h with ⟨j, first, rest, i, hrun, hgoes, hends, rfl, he⟩
  have htrail := trail_runFor hlimit j
  rw [hrun] at htrail
  have hfirst := htrail.unlimited hlimit
  have hlt := (List.getElem?_eq_some_iff.mp he).1
  have htick := ((trail_step hfirst hgoes).take he).tick_eq
  rw [List.length_take_of_le (Nat.le_of_lt hlt)] at htick
  rcases outside_cycleEnds hfirst hgoes he with ⟨hseen, -⟩
  cases i with
  | zero =>
    -- The tick is that of a fetch, and the tick before belongs to an earlier instruction.
    rcases runEnds_last hlimit hrun hgoes with ⟨init, last, hlast, hcore⟩
    have hlength : init.length = (runEnds j m).length := by
      have := congrArg List.length hlast
      simp only [List.length_cons, List.length_append, List.length_nil] at this
      omega
    refine ⟨last, j, first, 0, ?_, hrun, hgoes, htick, ?_⟩
    · rw [hends, ← List.cons_append, hlast, Nat.add_zero, ← hlength]
      simp
    · rw [← hcore]
      exact hseen
  | succ i =>
    -- The tick before belongs to the same instruction, which had not acted by then.
    obtain ⟨before, hbefore⟩ : ∃ before, first.cycleEnds[i]? = some before :=
      ⟨_, List.getElem?_eq_getElem (by omega)⟩
    have hquiet : before.core.outside = first.core.outside := by
      refine (outside_cycleEnds hfirst hgoes hbefore).1.mpr ?_
      rintro ⟨rfl, hacts⟩
      have := (outside_cycleEnds hfirst hgoes he).2 hacts
      omega
    refine ⟨before, j, first, i + 1, ?_, hrun, hgoes, htick, ?_⟩
    · rw [← Nat.add_assoc, List.getElem?_cons_succ, hends, List.getElem?_append_right (by omega),
        Nat.add_sub_cancel_left, List.getElem?_append_left (by omega)]
      exact hbefore
    · rw [hquiet]
      exact hseen

end Run

/-- What a run has done when its limit stops it. It has done all that the run without a limit does
    up to the end of the next tick, although the records of its journal end with the limit. So it
    has changed since the end of the last tick that was granted exactly if the next one is the
    second tick of an instruction that acts. -/
theorem run_interrupted {image : Image} {input : List Char} {limit : Nat} {m : Machine}
    {failure : Failure} (hrun : (load image input (some limit)).run = (m, some failure))
    (hfault : failure.fault = .tickLimitExceeded limit) :
    ∃ before e j first k,
      (load image input none :: runEnds (limit + 1) (load image input none))[limit]?
        = some before ∧
      (runEnds (limit + 1) (load image input none))[limit]? = some e ∧ m = e.limited limit ∧
      m.journal = (runFor (limit + 1) (load image input none)).1.journal.take limit ∧
      m.journal.length = limit ∧
      runFor j (load image input none) = (first, none) ∧ first.halted = false ∧
      first.tick + k = limit + 1 ∧
      (m.core.outside = before.core.outside ↔ ¬ (k = 1 ∧ first.ActsNext)) ∧
      ∀ file option, Image.ofLines? file = .ok image →
        CommandLine.tickLimit? option = .ok (some limit) →
        CommandLine.run file (String.ofList input) option = .ok ⟨m.output,
          CommandLine.journalText m, some ("Execution error: " ++ failure.message)⟩ := by
  have hcut := run_limited image input limit (Nat.lt_succ_self limit)
  have hstart : (load image input none).tick = 1 := rfl
  have htrail := trail_runFor (m := load image input none) rfl (limit + 1)
  rw [hrun, cut, hstart, Nat.add_sub_cancel] at hcut
  cases hget : (runEnds (limit + 1) (load image input none))[limit]? with
  | none =>
    -- The run without a limit has no such fault.
    simp only [hget] at hcut
    cases hlong : runFor (limit + 1) (load image input none) with
    | mk m' failure' =>
      rw [hlong] at hcut
      cases hcut
      exact absurd hfault (runFor_ne_tickLimitExceeded rfl hlong limit)
  | some e =>
    simp only [hget] at hcut
    cases hcut
    have hlt := (List.getElem?_eq_some_iff.mp hget).1
    have he := htrail.take hget
    have htick := he.tick_eq
    rw [List.length_take_of_le (Nat.le_of_lt hlt), hstart] at htick
    have hjournal : (e.limited limit).journal
        = ((runEnds (limit + 1) (load image input none)).take limit).map record := he.journal_eq
    rcases runEnds_before rfl hget with ⟨before, j, first, k, hbefore, hj, hgoes, hk, hseen⟩
    refine ⟨before, e, j, first, k, hbefore, rfl, rfl, ?_, ?_, hj, hgoes, by omega, hseen, ?_⟩
    · rw [← run_limited_journal image input limit (Nat.lt_succ_self limit), hrun]
    · rw [hjournal, List.length_map, List.length_take_of_le (Nat.le_of_lt hlt)]
    · intro file option hfile hoption
      rw [CommandLine.run, hoption]
      simp only [bind, Except.bind, hfile, String.toList_ofList, hrun]
      rfl

/-- With a limit of one tick nothing but the fetch of an output is granted, and yet the output has
    been printed. -/
theorem printsZero_interrupted :
    (load printsZero [] (some 1)).run.1.output = "0" ∧
      ((load printsZero [] none :: runEnds 2 (load printsZero [] none))[1]?.map output = some "") ∧
      (load printsZero [] (some 1)).run.1.journal.length = 1 ∧
      ∃ j first, runFor j (load printsZero [] none) = (first, none) ∧ first.tick = 1 ∧
        first.ActsNext := by
  have hrun : (load printsZero [] (some 1)).run
      = ((load printsZero [] (some 1)).run.1, some ⟨.tickLimitExceeded 1, 1, 2⟩) := rfl
  rcases run_interrupted hrun rfl with
    ⟨before, e, j, first, k, hbefore, -, -, -, hlength, hj, -, htick, hseen, -⟩
  have hprinted : (load printsZero [] (some 1)).run.1.core.outside ≠ before.core.outside := by
    cases hbefore
    intro h
    cases congrArg (fun parts => parts.2.1) h
  have hacts := Classical.not_not.mp (mt hseen.mpr hprinted)
  refine ⟨by decide, rfl, hlength, j, first, hj, ?_, hacts.2⟩
  have := hacts.1
  omega

end Machine

end AccumulatorMachine
