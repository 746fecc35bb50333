import AccumulatorMachine.Proofs.Machine.TickLimit
import AccumulatorMachine.Proofs.StraightLine.Placed

/-!
# Ticks of Code

How long a machine takes for a piece of code, wherever the code is.

A step is made of ticks, and how many they are depends on the opcode alone. So the ticks of a run
can be counted along with its instructions, on the piece of code on its own. `passes_of_takes` hands
the counts over to a machine. Nothing is said about the address of the code but that the program
counter can follow all its moves, and that the code does not store to where it stands. Unlike
straight code it may jump back and be run through many times, and so it has to be there as a whole
until the end.

A tick limit does not matter to a run that is over before the limit is reached. What was shown of a
machine without a limit is then true of one with a limit, too.

## Main definitions

* `Machine.withLimit`: A machine with another limit.
* `Fragment.RunsAt`: Code that can be run from an address on.

## Theorems

* `Machine.step_takes`: The ticks of a step.
* `Machine.step_faults`: The ticks of a step that fails.
* `Fragment.passes_of_takes`: A machine passes through code in the ticks that are counted.
* `Fragment.fails_of_takes`: A machine fails where code has a fault.
* `Fragment.SelfContained.passes_to_end`: A machine comes to the end of code.
* `Image.halts_of_passes`: A run that comes to a place without a cell.
* `Machine.runFor_of_unlimited`, `Machine.Passes.of_unlimited`: A limit that is not reached.
-/

namespace AccumulatorMachine

/-- If an instruction leads to a word, so do all its legs. -/
theorem Situation.travel_legs {c c' : Core} {i : Instruction} {pc distance : Int}
    (he : c.effect i = .ok (c', distance)) (hpc : Word.minimum ≤ pc)
    (hread : i.opcode = .input → 0 ≤ i.operand) (hword : Word.InRange (pc + distance)) :
    travel pc (i.legs c' distance) = .ok (pc + distance) := by
  have hone : ∀ d, Word.InRange (pc + d) → travel pc [d] = .ok (pc + d) := by
    intro d hd
    rw [travel, ArithmeticOp.exactly_of_inRange hd]
    rfl
  obtain ⟨opcode, operand⟩ := i
  cases opcode with
  | input =>
    rcases Outcome.bind_ok he with ⟨after, -, hpure⟩
    cases hpure
    have hle := hread rfl
    simp only [Instruction.legs] at hle hword ⊢
    by_cases hx : c'.exhausted = true
    · simp only [if_pos hx] at hword ⊢
      -- The first leg ends between the place of the instruction and the place it leads to.
      have hfirst : Word.InRange (pc + operand) := by
        unfold Word.InRange at hword ⊢
        omega
      have hlast : Word.InRange (pc + operand + 1) := by rwa [Int.add_assoc]
      rw [travel, ArithmeticOp.exactly_of_inRange hfirst]
      simp only [bind, Except.bind]
      rw [travel, ArithmeticOp.exactly_of_inRange hlast, Int.add_assoc]
      rfl
    · simp only [if_neg hx] at hword ⊢
      exact hone 1 hword
  | _ => exact hone distance hword

namespace Machine

/-- A microprogram comes to the ticks of its instruction after the fetch. -/
theorem length_microRecords (m m' : Machine) (i : Instruction) :
    1 + (m.microRecords i.opcode m').length = i.ticks := by
  obtain ⟨opcode, operand⟩ := i
  cases opcode <;> rfl

/-- Actions end no more ticks than they have ends of ticks. -/
theorem length_tickEnds (actions : List Action) (m : Machine) :
    (tickEnds actions m).length ≤ actions.count .endTick := by
  induction actions generalizing m with
  | nil => exact Nat.le_refl 0
  | cons action actions ih =>
    rw [tickEnds, List.count_cons]
    cases m.perform action with
    | error fault => exact Nat.zero_le _
    | ok m' =>
      have hrest := ih m'
      by_cases hend : action = .endTick
      · simp [hend]
        omega
      · simp [hend]
        omega

/-- An instruction takes no more ticks than its own, also where it fails. -/
theorem length_cycleEnds {m : Machine} {pc : Int} {c : Core} {i : Instruction} (h : m.At pc c)
    (hi : c.memory.read pc = some (.code i)) : m.cycleEnds.length ≤ i.ticks := by
  have hcell : m.fetching.ticked.path.instruction = some (.code i) := by
    rw [← hi, ← h.pc_eq, ← h.core_eq]
    rfl
  have hends := length_tickEnds (i.opcode.actions m.fetching.ticked.path.zero
    m.fetching.ticked.path.signed) m.fetching.ticked
  have hcount : (i.opcode.actions m.fetching.ticked.path.zero
      m.fetching.ticked.path.signed).count .endTick + 1 = i.ticks := by
    obtain ⟨opcode, operand⟩ := i
    cases opcode <;> rfl
  rw [cycleEnds, decodedEnds, decoded, hcell, List.length_cons]
  simp only
  omega

section Step

variable {m : Machine} {pc : Int} {c : Core} {i : Instruction} (h : m.At pc c)
  (hi : c.memory.read pc = some (.code i)) (hhalt : i.opcode ≠ .halt)

include h hi hhalt

/-- A step onto an instruction that leads somewhere, and its ticks. -/
theorem step_takes {c' : Core} {distance : Int} (he : c.effect i = .ok (c', distance))
    (hpc : Word.minimum ≤ pc) (hread : i.opcode = .input → 0 ≤ i.operand)
    (hword : Word.InRange (pc + distance)) :
    ∃ m', m.step = (m', none) ∧ m'.At (pc + distance) c' ∧ m'.tick = m.tick + i.ticks := by
  rcases performAll_fetchActions h with ⟨m1, hfetch, hat1, hcell, -⟩
  rcases performAll_fetch_journal h.unlimited hfetch with ⟨hfetched, -⟩
  rw [hi] at hcell
  have hdecoded : m1.decoded = .ok (i.opcode.actions m1.path.zero m1.path.signed) := by
    rw [decoded, hcell]
  have hmoves := performAll_actions hat1 hcell hhalt
  rw [he] at hmoves
  have htravel := movesAlong_travel hmoves
  rw [Situation.travel_legs he hpc hread hword] at htravel
  rcases htravel with ⟨m', hdone, hat'⟩
  rcases performAll_journal hat1.unlimited hdone with ⟨htick, -⟩
  have hcycle : m.cycle = (m', none) := by
    simp only [cycle, hfetch, hdecoded, hdone]
  have hlength := length_microRecords m1 m' i
  exact ⟨m', step_of_cycle h.running hcycle, hat', by omega⟩

/-- A step onto an instruction that fails, and its ticks. -/
theorem step_faults {fault : Fault} (he : c.effect i = .error fault) :
    ∃ m', m.step = (m', some ⟨fault, pc, m'.tick⟩) ∧ m'.tick ≤ m.tick + i.ticks := by
  rcases step_of_fault h hi hhalt he with ⟨m', tick, hstep⟩
  have hrun : runFor 1 m = (m', some ⟨fault, pc, tick⟩) := by
    rw [runFor_succ, hstep]
  have htick : tick = m'.tick := tick_of_failure hrun
  have htrail := (trail_step h.unlimited h.running).tick_eq
  simp only [hstep] at htrail
  have hlength := length_cycleEnds h hi
  subst htick
  exact ⟨m', hstep, by omega⟩

end Step

/-- The machine with another limit on its ticks, or with none. -/
def withLimit (m : Machine) (limit : Option Nat) : Machine := { m with tickLimit := limit }

theorem withLimit_self (m : Machine) : m.withLimit m.tickLimit = m := rfl

/-- What a machine does without a limit it does within one. -/
theorem runFor_of_room {n limit : Nat} {m m' : Machine} {failure : Option Failure}
    (hlimit : m.tickLimit = none) (hrun : runFor n m = (m', failure))
    (hroom : m'.tick ≤ limit + 1) :
    runFor n (m.limited limit) = (m'.limited limit, failure) := by
  have htick := (trail_runFor hlimit n).tick_eq
  rw [hrun] at htick
  simp only at htick
  rw [runFor_limited hlimit, cut, List.getElem?_eq_none (by omega), hrun]

/-- A machine passes through the same places within a limit as it does without one. -/
theorem Passes.of_room {low high : Int} {k limit : Nat} {m m' : Machine}
    (h : Passes low high k m m') (hlimit : m.tickLimit = none) (hroom : m'.tick ≤ limit + 1) :
    Passes low high k (m.limited limit) (m'.limited limit) := by
  induction h with
  | stay m => exact .stay _
  | @step m next m' k hrun hlow hhigh hstep hrest ih =>
    have hnext : next.tickLimit = none := by
      have htrail := trail_step hlimit hrun
      rw [hstep] at htrail
      exact htrail.unlimited hlimit
    -- The first step is over before the whole run is.
    have htick := (trail_runFor hnext k).tick_eq
    rw [hrest.runFor_eq] at htick
    simp only at htick
    have hone : runFor 1 m = (next, none) := by
      rw [runFor_succ, hstep]
      rfl
    have hstep' := runFor_of_room hlimit hone (by omega : next.tick ≤ limit + 1)
    rw [runFor_succ] at hstep'
    refine .step hrun hlow hhigh ?_ (ih hnext hroom)
    cases hm : (m.limited limit).step with
    | mk other failure =>
      rw [hm] at hstep'
      cases failure with
      | none => exact hstep'
      | some failure => exact hstep'

section Room

variable {m m' : Machine} {n : Nat} {failure : Option Failure}

theorem tickLimit_of_runFor (hrun : runFor n (m.withLimit none) = (m', failure)) :
    m'.tickLimit = none := by
  have htrail := trail_runFor (m := m.withLimit none) rfl n
  rw [hrun] at htrail
  exact htrail.unlimited rfl

theorem limited_withLimit {limit : Nat} (h : m.tickLimit = some limit) :
    (m.withLimit none).limited limit = m := by
  rw [← withLimit_self m, h]
  rfl

/-- A machine runs as it does without a limit, if it has one and does not reach it. -/
theorem runFor_of_unlimited (hrun : runFor n (m.withLimit none) = (m', failure))
    (hroom : ∀ limit, m.tickLimit = some limit → m'.tick ≤ limit + 1) :
    runFor n m = (m'.withLimit m.tickLimit, failure) := by
  cases hlimit : m.tickLimit with
  | none =>
    have hnone := tickLimit_of_runFor hrun
    rw [← hlimit, withLimit_self] at hrun
    rw [← hnone, withLimit_self, hrun]
  | some limit =>
    have hlimited := runFor_of_room (m := m.withLimit none) rfl hrun (hroom limit hlimit)
    rw [limited_withLimit hlimit] at hlimited
    exact hlimited

theorem Passes.of_unlimited {low high : Int} {k : Nat}
    (h : Passes low high k (m.withLimit none) m')
    (hroom : ∀ limit, m.tickLimit = some limit → m'.tick ≤ limit + 1) :
    Passes low high k m (m'.withLimit m.tickLimit) := by
  cases hlimit : m.tickLimit with
  | none =>
    have hnone := tickLimit_of_runFor h.runFor_eq
    rw [← hlimit, withLimit_self] at h
    rwa [← hnone, withLimit_self]
  | some limit =>
    have hlimited := h.of_room rfl (hroom limit hlimit)
    rw [limited_withLimit hlimit] at hlimited
    exact hlimited

end Room

end Machine

namespace Fragment

variable {code : List Instruction} {start : Int}

/-- Code that can be run from an address on. None of its moves leads out of the range of the program
    counter, and it stores beside where it stands. -/
structure RunsAt (code : List Instruction) (start : Int) : Prop where
  runs : ∀ i ∈ code, i.opcode ≠ .halt
  reads : ∀ i ∈ code, i.opcode = .input → 0 ≤ i.operand
  beside : StoresBeside code start code.length
  low : Word.minimum ≤ start
  words : ∀ (p : Nat) (i : Instruction), code[p]? = some i →
    ∀ d ∈ i.distances, Word.InRange (start + p + d)

/-- Code that is left only over its end can be run wherever it fits. -/
theorem SelfContained.runsAt (hcode : SelfContained code)
    (hbeside : StoresBeside code start code.length) (hlow : Word.minimum ≤ start)
    (hhigh : start + code.length ≤ Word.maximum) : RunsAt code start where
  runs := hcode.runs
  reads := hcode.reads
  beside := hbeside
  low := hlow
  words := by
    intro p i hi d hd
    have hstay := hcode.stays p i hi d hd
    unfold Word.InRange
    omega

section Placed

variable {x y : Nat × Core} {n ticks : Nat} {m : Machine} (hcode : RunsAt code start)
  (htakes : Takes code n ticks x y) (hat : m.At (start + x.1) x.2)
  (hheld : x.2.memory.HoldsAt code start)

include hcode htakes hat hheld

/-- A machine passes through code in the ticks that are counted, and leaves it where it is. -/
theorem passes_of_takes : ∃ m', Machine.Passes start (start + code.length) n m m' ∧
    m'.At (start + y.1) y.2 ∧ m'.tick = m.tick + ticks ∧ y.2.memory.HoldsAt code start := by
  induction htakes with
  | refl => exact ⟨m, .stay m, hat, rfl, hheld⟩
  | @tail n ticks _ y _ _ hstep ih =>
    rcases ih hat hheld with ⟨mid, hpass, hmid, htick, hheld'⟩
    cases hstep with
    | @mk p q c c' i distance hi he hq =>
      have hmem : i ∈ code := List.mem_of_getElem? hi
      have hlt : p < code.length := (List.getElem?_eq_some_iff.mp hi).1
      have hword := hcode.words p i hi distance (Core.effect_distance he)
      have hlow := hcode.low
      rcases Machine.step_takes hmid (hheld' p i hi) (hcode.runs i hmem) he (by omega)
        (hcode.reads i hmem) hword with ⟨m', hstep, hat', htick'⟩
      have hplace : start + (p : Int) + distance = start + (q : Nat) := by omega
      rw [hplace] at hat'
      have hpc := hmid.pc_eq
      have hticks : ticksAt code p = i.ticks := by
        rw [ticksAt, hi]
        rfl
      refine ⟨m', hpass.trans (.step hmid.running (by omega) (by omega) hstep (.stay m')), hat', ?_,
        fun k j hj => ?_⟩
      · simp only
        omega
      · -- The instruction stores beside the code.
        have hk : k < code.length := (List.getElem?_eq_some_iff.mp hj).1
        rw [Core.read_effect he fun hop => hcode.beside i hmem hop k hk]
        exact hheld' k j hj

/-- A machine fails where code has a fault, within the ticks that are counted. -/
theorem fails_of_takes {i : Instruction} {fault : Fault} (hi : code[y.1]? = some i)
    (he : y.2.effect i = .error fault) :
    ∃ m', (∀ k, Machine.runFor (n + (k + 1)) m = (m', some ⟨fault, start + y.1, m'.tick⟩)) ∧
      m'.tick ≤ m.tick + ticks + i.ticks := by
  rcases passes_of_takes hcode htakes hat hheld with ⟨mid, hpass, hmid, htick, hheld'⟩
  rcases Machine.step_faults hmid (hheld' y.1 i hi) (hcode.runs i (List.mem_of_getElem? hi)) he with
    ⟨m', hstep, htick'⟩
  refine ⟨m', fun k => ?_, by omega⟩
  rw [hpass.runFor_add, Machine.runFor_succ, hstep]

end Placed

/-- A machine comes to the end of code that is left only there, wherever the code stands. -/
theorem SelfContained.passes_to_end (hcode : SelfContained code) {size : Nat}
    (hsize : code.length = size) (hbeside : StoresBeside code start size)
    (hlow : Word.minimum ≤ start) (hhigh : start + size ≤ Word.maximum) {m : Machine} {c c' : Core}
    (hat : m.At start c) (hheld : c.memory.HoldsAt code start) {n ticks : Nat}
    (htakes : Takes code n ticks (0, c) (size, c')) :
    ∃ m', Machine.Passes start (start + size) n m m' ∧ m'.At (start + size) m'.core ∧
      m'.tick = m.tick + ticks ∧ m'.core = c' := by
  subst hsize
  have hat' : m.At (start + (0 : Nat)) c := by
    rw [Int.natCast_zero, Int.add_zero]
    exact hat
  rcases passes_of_takes (hcode.runsAt hbeside hlow hhigh) htakes hat' hheld with
    ⟨m', hpass, hend, htick, -⟩
  have hcore : m'.core = c' := hend.core_eq
  exact ⟨m', hpass, hcore.symm ▸ hend, htick, hcore⟩

end Fragment

/-- A run that comes to a place where there is nothing halts, with the output that it has so far. -/
theorem Image.halts_of_passes {image : Image} {input : List Char} {low high place : Int} {k : Nat}
    {m : Machine} (hpass : Machine.Passes low high k (.load image input none) m)
    (hat : m.At place m.core) (hnone : m.core.memory.read place = none) :
    ∃ m', image.HaltsIn input m' ∧ m'.output = m.output := by
  rcases Machine.step_of_absent hat hnone with ⟨m', hstep, hhalted, -, hcore⟩
  refine ⟨m', ⟨hhalted, k + 1, ?_⟩, ?_⟩
  · rw [hpass.runFor_add, Machine.runFor_succ, hstep]
    rfl
  · have hprinted : m'.path.printed = m.path.printed := congrArg Core.printed hcore
    rw [Machine.output, Machine.output, DataPath.tokens, DataPath.tokens, hprinted]

end AccumulatorMachine
