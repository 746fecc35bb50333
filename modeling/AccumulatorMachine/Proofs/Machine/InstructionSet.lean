import AccumulatorMachine.Proofs.Machine.Journal

/-!
# The Instruction Set

What the machine does, told instruction by instruction.

An observer who looks at the machine only between instructions sees a `Situation`: the core, the
place in the program, and whether the machine has halted. `Situation.next` says for every situation
what comes next, with no registers in between and no ticks. Where an instruction has no meaning, it
names the fault.

Such an observer can even write the journal. The records of an instruction show the situations
before it and after it, the cell that was fetched, and the address that the instruction worked on.

The program counter has a range, and it is checked whenever the counter moves. An instruction moves
it once, except for an input that finds no character. That one moves by its operand and then by one,
and fails if the first move leaves the range, even if the second would have led back. `oneByOne` and
`atOnce` are the two ways to see a move of several legs, and they differ in this case alone.

## Main definitions

* `Situation`: What can be seen of a machine between two instructions.
* `Route`, `Route.oneByOne`, `Route.atOnce`: The ways to make several moves.
* `Situation.next`: The meaning of the instruction at the program counter.
* `Situation.records`: The records that an instruction leaves.
* `Situation.run`: The meaning of a number of instructions, and the journal they leave.

## Theorems

* `Machine.step_shows`: A step does what the instruction means.
* `Machine.seen_runFor`: A number of steps do what as many instructions mean.
* `Machine.seen_runFor_load`: The same from the start of a program.
* `Machine.seen_runFor_ne_atOnce`: An input that moves far below is refused on its way.
-/

namespace AccumulatorMachine

/-- What can be seen of a machine between two instructions. -/
structure Situation where
  core : Core
  pc : Int
  halted : Bool

/-- How several moves of the program counter are made. -/
abbrev Route : Type := List Int → List Int

namespace Route

/-- The moves are made one by one, and the counter is checked after each of them. -/
def oneByOne : Route := id

/-- The moves are added up and made at once. -/
def atOnce : Route := fun legs => [legs.foldr (· + ·) 0]

end Route

namespace Situation

/-- The situation in which a program starts. -/
def start (image : Image) (input : List Char) : Situation where
  core := ⟨.ofCells image.cells, 0, false, false, false, input, []⟩
  pc := 0
  halted := false

/-- The place to which moves lead. There is none if a place on the way is no word. -/
def travel (pc : Int) : List Int → Except Fault Int
  | [] => .ok pc
  | leg :: legs => do travel (← ArithmeticOp.exactly (pc + leg)) legs

/-- The situation after the instruction at the program counter. A machine that has halted stays as
    it is, and one that finds no cell halts. -/
def next (route : Route) (s : Situation) : Except Fault Situation :=
  if s.halted then .ok s
  else match s.core.memory.read s.pc with
    | none => .ok { s with halted := true }
    | some (.data value) => .error (.notAnInstruction s.pc value)
    | some (.code i) =>
      if i.opcode = .halt then .ok { s with halted := true }
      else do
        let (core, distance) ← s.core.effect i
        let pc ← travel s.pc (route (i.legs core distance))
        return ⟨core, pc, false⟩

section Next

variable (route : Route) {s : Situation} {i : Instruction}

theorem next_of_halted (hhalted : s.halted = true) : s.next route = .ok s := by
  rw [next, if_pos hhalted]

variable (hrun : s.halted = false)

include hrun

theorem next_of_absent (hcell : s.core.memory.read s.pc = none) :
    s.next route = .ok { s with halted := true } := by
  rw [next, if_neg (by rw [hrun]; decide), hcell]

theorem next_of_data {value : Int} (hcell : s.core.memory.read s.pc = some (.data value)) :
    s.next route = .error (.notAnInstruction s.pc value) := by
  rw [next, if_neg (by rw [hrun]; decide), hcell]

variable (hcell : s.core.memory.read s.pc = some (.code i))

include hcell

theorem next_of_halt (hop : i.opcode = .halt) : s.next route = .ok { s with halted := true } := by
  rw [next, if_neg (by rw [hrun]; decide), hcell]
  exact if_pos hop

theorem next_of_fault (hop : i.opcode ≠ .halt) {fault : Fault}
    (he : s.core.effect i = .error fault) : s.next route = .error fault := by
  rw [next, if_neg (by rw [hrun]; decide), hcell]
  simp only [if_neg hop, he]
  rfl

/-- An instruction with an effect leads to the core of the effect, and moves there by its legs. -/
theorem next_of_effect (hop : i.opcode ≠ .halt) {core : Core} {distance : Int}
    (he : s.core.effect i = .ok (core, distance)) :
    s.next route = (travel s.pc (route (i.legs core distance))).map (⟨core, ·, false⟩) := by
  rw [next, if_neg (by rw [hrun]; decide), hcell]
  simp only [if_neg hop, he, bind, Except.bind]
  cases travel s.pc (route (i.legs core distance)) <;> rfl

end Next

/-- The address that an instruction works on, as it stays in the address register. An instruction
    that works on none leaves the address it was fetched from. -/
def addressed (s : Situation) (i : Instruction) : Int :=
  match i.opcode with
  | .read | .add | .subtract | .multiply | .divide | .write | .readAddress => i.operand
  | .writeAddress => s.core.acc
  | _ => s.pc

/-- The record of a fetch, which shows the cell at the program counter. -/
def fetched (s : Situation) (tick : Nat) : TickRecord :=
  ⟨tick, s.core.acc, s.pc, s.pc, s.core.memory.read s.pc⟩

/-- The records of an instruction after its fetch, from `tick` on, where it leads to the next
    situation. At last the new accumulator and the new place are shown. Two opcodes show the address
    that they work on before that. -/
def results (s s' : Situation) (i : Instruction) (tick : Nat) : List TickRecord :=
  match i.opcode with
  | .halt => []
  | .readAddress | .writeAddress =>
    [⟨tick, s.core.acc, s.addressed i, s.pc, some (.code i)⟩,
      ⟨tick + 1, s'.core.acc, s.addressed i, s'.pc, some (.code i)⟩]
  | _ => [⟨tick, s'.core.acc, s.addressed i, s'.pc, some (.code i)⟩]

/-- The records from `tick` on that lead from a situation to the next. -/
def records (s s' : Situation) (tick : Nat) : List TickRecord :=
  if s.halted then []
  else match s.core.memory.read s.pc with
    | some (.code i) => s.fetched tick :: s.results s' i (tick + 1)
    | _ => [s.fetched tick]

/-- The situation after a number of instructions, and the journal that goes on from `journal`. -/
def run (route : Route) : Nat → Situation → List TickRecord →
    Except Fault (Situation × List TickRecord)
  | 0, s, journal => .ok (s, journal)
  | n + 1, s, journal => do
    let s' ← s.next route
    run route n s' (journal ++ s.records s' (journal.length + 1))

end Situation

namespace Machine

/-- What can be seen of a machine. -/
def situation (m : Machine) : Situation := ⟨m.core, m.pc, m.halted⟩

/-- What can be seen of the outcome of steps: the situation and the journal, or the fault. -/
def seen : Machine × Option Failure → Except Fault (Situation × List TickRecord)
  | (m, none) => .ok (m.situation, m.journal)
  | (_, some failure) => .error failure.fault

/-- A step, and then the others. A machine that has halted makes them all without a change. -/
theorem runFor_succ (n : Nat) (m : Machine) : runFor (n + 1) m = match m.step with
    | (m', none) => runFor n m'
    | (m', some failure) => (m', some failure) := by
  rw [runFor]
  by_cases hhalted : m.halted = true
  · rw [if_pos hhalted, step_of_halted hhalted]
    exact (runFor_of_halted hhalted n).symm
  · exact if_neg hhalted

/-- A machine that nothing limits and whose clock has counted its journal. -/
structure Shows (m : Machine) (s : Situation) (journal : List TickRecord) : Prop where
  unlimited : m.tickLimit = none
  situation_eq : m.situation = s
  journal_eq : m.journal = journal
  tick_eq : m.tick = journal.length + 1

/-- Moves of a machine lead where they lead for an observer. -/
theorem movesAlong_travel {c : Core} {outcome : Machine × Option Fault} {pc : Int}
    {legs : List Int} (h : MovesAlong c outcome pc legs) :
    match Situation.travel pc legs with
    | .ok pc' => ∃ m', outcome = (m', none) ∧ m'.At pc' c
    | .error fault => ∃ m', outcome = (m', some fault) := by
  induction legs generalizing pc with
  | nil => exact h
  | cons leg legs ih =>
    rw [MovesAlong] at h
    rw [Situation.travel]
    by_cases hin : Word.InRange (pc + leg)
    · rw [if_pos hin] at h
      rw [ArithmeticOp.exactly_of_inRange hin]
      exact ih h
    · rw [if_neg hin] at h
      rw [ArithmeticOp.exactly_of_not_inRange hin]
      rcases h with ⟨m', houtcome, -⟩
      exact ⟨m', houtcome⟩

/-- A machine that has fetched what is at the program counter in a situation. -/
structure HasFetched (m : Machine) (s : Situation) (journal : List TickRecord) : Prop
    extends m.At s.pc s.core where
  latched : m.path.instruction = s.core.memory.read s.pc
  address_eq : m.path.address = s.pc
  tick_eq : m.tick = journal.length + 2
  journal_eq : m.journal = journal ++ [s.fetched (journal.length + 1)]

namespace Shows

variable {m : Machine} {s : Situation} {journal : List TickRecord}

theorem at_pc (h : m.Shows s journal) (hrun : s.halted = false) : m.At s.pc s.core := by
  obtain ⟨hlimit, rfl, -, -⟩ := h
  exact ⟨hrun, hlimit, rfl, rfl⟩

/-- The fetch leaves its record. -/
theorem fetch (h : m.Shows s journal) (hrun : s.halted = false) :
    ∃ m', performAll fetchActions m = (m', none) ∧ m'.HasFetched s journal := by
  have hat := h.at_pc hrun
  rcases performAll_fetchActions hat with ⟨m', hfetch, hat', hlatched, haddress⟩
  rcases performAll_fetch_journal h.unlimited hfetch with ⟨htick, hjournal⟩
  have hacc : m'.path.acc = s.core.acc := congrArg Core.acc hat'.core_eq
  have hpc : m.path.pc = s.pc := hat.pc_eq
  have hpc' : m'.path.pc = s.pc := hat'.pc_eq
  have hmemory : m.path.memory = s.core.memory := congrArg Core.memory hat.core_eq
  rw [h.tick_eq] at htick hjournal
  rw [h.journal_eq, hacc, hpc, hpc', hmemory] at hjournal
  exact ⟨m', hfetch, hat', hlatched, haddress, htick, hjournal⟩

end Shows

namespace HasFetched

variable {m m' : Machine} {s s' : Situation} {journal : List TickRecord} {i : Instruction}
  (h : m.HasFetched s journal) (hcell : s.core.memory.read s.pc = some (.code i))

include h hcell

/-- The records of a microprogram are those that an observer writes. -/
theorem microRecords_eq (hs' : m'.situation = s') :
    m.microRecords i.opcode m' = s.results s' i m.tick := by
  subst hs'
  have hi := h.latched.trans hcell
  have haddress := h.address_eq
  have hacc : m.path.acc = s.core.acc := congrArg Core.acc h.core_eq
  have hpc : m.path.pc = s.pc := h.pc_eq
  have hoperand : m.path.operand = i.operand := by rw [DataPath.operand, hi]
  obtain ⟨opcode, operand⟩ := i
  cases opcode <;>
    simp only [microRecords, Situation.results, Situation.addressed, hacc, hpc, hoperand, hi,
      haddress] <;> rfl

/-- The actions of an instruction leave the journal that its meaning asks for. -/
theorem shows (hrun : s.halted = false)
    (hdone : performAll (i.opcode.actions m.path.zero m.path.signed) m = (m', none))
    (hlimit : m'.tickLimit = none) (hs' : m'.situation = s') :
    m'.Shows s' (journal ++ s.records s' (journal.length + 1)) := by
  rcases performAll_journal h.unlimited hdone with ⟨htick, hjournal⟩
  rw [h.microRecords_eq hcell hs', h.tick_eq] at htick hjournal
  have hrecords : s.records s' (journal.length + 1)
      = s.fetched (journal.length + 1) :: s.results s' i (journal.length + 2) := by
    rw [Situation.records, if_neg (by rw [hrun]; decide), hcell]
  refine ⟨hlimit, hs', ?_, ?_⟩
  · rw [hjournal, h.journal_eq, hrecords, List.append_assoc]
    rfl
  · rw [htick, hrecords, List.length_append, List.length_cons]
    omega

end HasFetched

section Step

variable {m m1 : Machine} {s : Situation} {journal : List TickRecord} (h : m.Shows s journal)
  (hrun : s.halted = false) (hfetch : performAll fetchActions m = (m1, none))
  (hm1 : m1.HasFetched s journal)

include h hrun hfetch hm1

/-- Without a cell at the program counter the machine halts, and the record of the fetch is its
    last. -/
theorem shows_of_absent (hcell : s.core.memory.read s.pc = none) :
    ∃ m', m.step = (m', none) ∧ m'.Shows { s with halted := true }
      (journal ++ s.records { s with halted := true } (journal.length + 1)) := by
  have hdecoded : m1.decoded = .ok [.halt] := by rw [decoded, hm1.latched, hcell]
  have hcycle : m.cycle
      = (({ m1 with halted := true } : Machine).report (.halted m1.ticks), none) := by
    simp only [cycle, hfetch, hdecoded, performAll, perform]
  have hrecords : s.records { s with halted := true } (journal.length + 1)
      = [s.fetched (journal.length + 1)] := by
    rw [Situation.records, if_neg (by rw [hrun]; decide), hcell]
  refine ⟨_, step_of_cycle (h.at_pc hrun).running hcycle, hm1.unlimited, ?_, ?_, ?_⟩
  · rw [← hm1.pc_eq, ← hm1.core_eq]
    rfl
  · rw [hrecords, journal_report]
    exact (List.append_nil _).trans hm1.journal_eq
  · rw [hrecords, List.length_append]
    exact hm1.tick_eq

variable {i : Instruction} (hcell : s.core.memory.read s.pc = some (.code i))

include hcell

/-- A step onto an instruction is its microprogram. -/
theorem step_of_actions {m' : Machine} {fault : Option Fault}
    (hdone : performAll (i.opcode.actions m1.path.zero m1.path.signed) m1 = (m', fault)) :
    m.step = (m', fault.map fun fault => ⟨fault, m'.pc, m'.tick⟩) := by
  have hdecoded : m1.decoded = .ok (i.opcode.actions m1.path.zero m1.path.signed) := by
    rw [decoded, hm1.latched, hcell]
  refine step_of_cycle (h.at_pc hrun).running ?_
  simp only [cycle, hfetch, hdecoded, hdone]

theorem shows_of_halt (hop : i.opcode = .halt) :
    ∃ m', m.step = (m', none) ∧ m'.Shows { s with halted := true }
      (journal ++ s.records { s with halted := true } (journal.length + 1)) := by
  have hdone : performAll (i.opcode.actions m1.path.zero m1.path.signed) m1
      = (({ m1 with halted := true } : Machine).report (.halted m1.ticks), none) := by
    rw [hop]
    rfl
  refine ⟨_, step_of_actions h hrun hfetch hm1 hcell hdone,
    hm1.shows hcell hrun hdone hm1.unlimited ?_⟩
  rw [← hm1.pc_eq, ← hm1.core_eq]
  rfl

/-- An instruction that leads to a core moves there, or fails on the way. -/
theorem shows_of_effect (hop : i.opcode ≠ .halt) {core : Core} {distance : Int}
    (he : s.core.effect i = .ok (core, distance)) :
    match Situation.travel s.pc (i.legs core distance) with
    | .ok pc => ∃ m', m.step = (m', none) ∧ m'.Shows ⟨core, pc, false⟩
        (journal ++ s.records ⟨core, pc, false⟩ (journal.length + 1))
    | .error fault => ∃ m' failure, m.step = (m', some failure) ∧ failure.fault = fault := by
  have heffect := performAll_actions hm1.toAt (hm1.latched.trans hcell) hop
  rw [he] at heffect
  have hmoves := movesAlong_travel heffect
  cases htravel : Situation.travel s.pc (i.legs core distance) with
  | error fault =>
    rw [htravel] at hmoves
    rcases hmoves with ⟨m', hdone⟩
    exact ⟨m', _, step_of_actions h hrun hfetch hm1 hcell hdone, rfl⟩
  | ok pc =>
    rw [htravel] at hmoves
    rcases hmoves with ⟨m', hdone, hat'⟩
    refine ⟨m', step_of_actions h hrun hfetch hm1 hcell hdone,
      hm1.shows hcell hrun hdone hat'.unlimited ?_⟩
    rw [situation, hat'.core_eq, hat'.pc_eq, hat'.running]

end Step

/-- A step does what the instruction at the program counter means. It fails where that has no
    meaning. -/
theorem step_shows {m : Machine} {s : Situation} {journal : List TickRecord}
    (h : m.Shows s journal) :
    match s.next .oneByOne with
    | .ok s' => ∃ m', m.step = (m', none) ∧
        m'.Shows s' (journal ++ s.records s' (journal.length + 1))
    | .error fault => ∃ m' failure, m.step = (m', some failure) ∧ failure.fault = fault := by
  by_cases hhalted : s.halted = true
  · -- A machine that has halted makes no step and no record.
    have hrecords : s.records s (journal.length + 1) = [] := by
      rw [Situation.records, if_pos hhalted]
    have hm : m.halted = true := (congrArg Situation.halted h.situation_eq).trans hhalted
    rw [Situation.next_of_halted .oneByOne hhalted]
    refine ⟨m, step_of_halted hm, ?_⟩
    rwa [hrecords, List.append_nil]
  · have hrun : s.halted = false := Bool.eq_false_iff.mpr hhalted
    have hat := h.at_pc hrun
    rcases h.fetch hrun with ⟨m1, hfetch, hm1⟩
    cases hcell : s.core.memory.read s.pc with
    | none =>
      rw [Situation.next_of_absent .oneByOne hrun hcell]
      exact shows_of_absent h hrun hfetch hm1 hcell
    | some cell =>
      cases cell with
      | data value =>
        rcases step_of_data hat hcell with ⟨m', tick, hstep⟩
        rw [Situation.next_of_data .oneByOne hrun hcell]
        exact ⟨m', _, hstep, rfl⟩
      | code i =>
        by_cases hop : i.opcode = .halt
        · rw [Situation.next_of_halt .oneByOne hrun hcell hop]
          exact shows_of_halt h hrun hfetch hm1 hcell hop
        · cases he : s.core.effect i with
          | error fault =>
            rcases step_of_fault hat hcell hop he with ⟨m', tick, hstep⟩
            rw [Situation.next_of_fault .oneByOne hrun hcell hop he]
            exact ⟨m', _, hstep, rfl⟩
          | ok result =>
            obtain ⟨core, distance⟩ := result
            have hshows := shows_of_effect h hrun hfetch hm1 hcell hop he
            rw [Situation.next_of_effect .oneByOne hrun hcell hop he, Route.oneByOne, id]
            cases htravel : Situation.travel s.pc (i.legs core distance) with
            | error fault =>
              rw [htravel] at hshows
              exact hshows
            | ok pc =>
              rw [htravel] at hshows
              exact hshows

/-- A number of steps do what as many instructions mean, and leave the journal that an observer
    writes. They fail where one of the instructions has no meaning. -/
theorem seen_runFor {m : Machine} {s : Situation} {journal : List TickRecord}
    (h : m.Shows s journal) (n : Nat) : seen (runFor n m) = s.run .oneByOne n journal := by
  induction n generalizing m s journal with
  | zero =>
    rw [runFor, seen, Situation.run, h.situation_eq, h.journal_eq]
  | succ n ih =>
    have hstep := step_shows h
    rw [runFor_succ, Situation.run]
    cases hnext : s.next .oneByOne with
    | error fault =>
      rw [hnext] at hstep
      rcases hstep with ⟨m', failure, hstep, rfl⟩
      rw [hstep]
      rfl
    | ok s' =>
      rw [hnext] at hstep
      rcases hstep with ⟨m', hstep, hm'⟩
      rw [hstep]
      exact ih hm'

/-- A program starts with an empty journal. -/
theorem load_shows (image : Image) (input : List Char) :
    (load image input none).Shows (.start image input) [] :=
  ⟨rfl, rfl, rfl, rfl⟩

/-- The machine refines the instruction set: from the start of any program, on any input, a number
    of steps lead to the situation and to the journal that the meaning of as many instructions leads
    to, and they fail exactly where that meaning has a fault. -/
theorem seen_runFor_load (image : Image) (input : List Char) (n : Nat) :
    seen (runFor n (load image input none))
      = (Situation.start image input).run .oneByOne n [] :=
  seen_runFor (load_shows image input) n

/-- A jump below the code, to an input that moves as far below as its operand can say. -/
def farBelow : Image :=
  ⟨[⟨.code ⟨.jump, -1⟩, 0⟩, ⟨.code ⟨.input, Word.minimum⟩, -1⟩]⟩

/-- An input that finds no character fails if its first move leaves the range of the program
    counter, although both its moves together do not. -/
theorem seen_runFor_ne_atOnce :
    seen (runFor 2 (load farBelow [] none)) = .error .arithmeticOverflow ∧
      ((Situation.start farBelow []).run .atOnce 2 []).map (fun result => result.1.pc)
        = .ok Word.minimum := by
  rw [seen_runFor (load_shows farBelow [])]
  have hjump : (Situation.start farBelow []).core.memory.read 0 = some (.code ⟨.jump, -1⟩) := by
    simp [Situation.start, farBelow, Memory.ofCells]
  have hinput : (Situation.start farBelow []).core.memory.read (-1)
      = some (.code ⟨.input, Word.minimum⟩) := by
    simp [Situation.start, farBelow, Memory.ofCells]
  -- The jump is a single move, and leads below the code either way.
  have hjumped : ∀ route : Route, route [-1] = [-1] → (Situation.start farBelow []).next route
      = .ok { Situation.start farBelow [] with pc := -1 } := by
    intro route hroute
    have hnext := Situation.next_of_effect route (s := .start farBelow []) rfl hjump
      (by decide) rfl
    rw [hnext, Instruction.legs, hroute, Situation.travel,
      ArithmeticOp.exactly_of_inRange (by decide)]
    rfl
  -- The input finds no character, and moves by its operand and by one.
  have hread : ∀ route : Route,
      ({ Situation.start farBelow [] with pc := -1 } : Situation).next route
        = (Situation.travel (-1) (route [Word.minimum, 1])).map fun pc =>
          ⟨{ (Situation.start farBelow []).core with exhausted := true }.setAccumulator 0, pc,
            false⟩ :=
    fun route => Situation.next_of_effect route
      (s := { Situation.start farBelow [] with pc := -1 }) rfl hinput (by decide) rfl
  have hfirst : Situation.travel (-1) [Word.minimum, 1] = .error .arithmeticOverflow := by
    rw [Situation.travel, ArithmeticOp.exactly_of_not_inRange (by decide)]
    rfl
  have hsum : Situation.travel (-1) [[Word.minimum, 1].foldr (· + ·) 0] = .ok Word.minimum := by
    rw [Situation.travel, ArithmeticOp.exactly_of_inRange (by decide)]
    rfl
  constructor
  · rw [Situation.run, hjumped .oneByOne rfl]
    simp only [bind, Except.bind]
    rw [Situation.run, hread, Route.oneByOne, id, hfirst]
    rfl
  · rw [Situation.run, hjumped .atOnce rfl]
    simp only [bind, Except.bind]
    rw [Situation.run, hread, Route.atOnce, hsum]
    rfl

end Machine

end AccumulatorMachine
