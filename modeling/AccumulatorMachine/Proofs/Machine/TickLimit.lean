import AccumulatorMachine.Proofs.Machine.InstructionSet

/-!
# Tick Limits

What a limit on its ticks does to a run.

The limit is looked at when a tick ends and nowhere else. So a run with a limit is the run without
one up to the first tick beyond the limit, and it stops where that tick is about to end. Whether it
gets there is decided by the ticks alone. It does not matter whether the tick belongs to a fetch or
to what was fetched, nor what would have come after it: a halt, a fault, or no end at all.

To compare the two runs, the machines are listed at which the run without a limit is about to end
a tick. If the list is long enough, the run with a limit stops at the machine in it that ends the
first tick beyond the limit, and otherwise the two runs are the same. This holds for actions, for
an instruction and for a run, and each time for the same reason: what comes after a part of a run
goes on with its own list where the list of the part ends.

## Main definitions

* `Machine.limited`: A machine with a limit.
* `Machine.tickEnds`, `Machine.cycleEnds`, `Machine.runEnds`: The machines at which a tick is about
  to end.
* `Machine.cut`: The outcome under a limit, from the one without.
* `Machine.Trail`: What lies between two machines of a run.
* `Machine.Ended`: The outcome of a run that does not go on.
* `Image.HaltsIn`, `Image.FailsWith`: The ways in which a run without a limit ends.

## Theorems

* `Machine.Trail.tick_eq`, `Machine.Trail.journal_eq`, `Machine.Trail.take`: The clock and the
  journal on the way.
* `Machine.trail_runFor`: A run leads through the ends of its ticks.
* `Machine.performAll_limited`, `Machine.cycle_limited`, `Machine.runFor_limited`: A limit cuts
  actions, instructions and runs.
* `Machine.run_limited`, `Machine.run_limited_journal`: A limit cuts what the machine does when it
  is run, and its journal.
* `execute_limited`: The result of a run with a limit.
-/

namespace AccumulatorMachine

namespace Machine

/-- The machine with a limit on its ticks. -/
def limited (m : Machine) (limit : Nat) : Machine := { m with tickLimit := some limit }

/-- The machine after a tick that nothing limits. -/
def ticked (m : Machine) : Machine := { m.report (.tick m.record) with tick := m.tick + 1 }

theorem ticked_tick (m : Machine) : m.ticked.tick = m.tick + 1 := rfl

/-- The machine where the tick of a fetch is about to end. -/
def fetching (m : Machine) : Machine :=
  { m with path := { m.path with
    address := m.path.pc, instruction := m.path.memory.read m.path.pc } }

/-- The machines at which actions are about to end a tick. -/
def tickEnds : List Action → Machine → List Machine
  | [], _ => []
  | action :: actions, m =>
    match m.perform action with
    | .ok m' => (if action = .endTick then [m] else []) ++ tickEnds actions m'
    | .error _ => []

/-- The machines at which the actions of what was fetched are about to end a tick. -/
def decodedEnds (m : Machine) : List Machine :=
  match m.decoded with
  | .ok actions => tickEnds actions m
  | .error _ => []

/-- The machines at which an instruction is about to end a tick. -/
def cycleEnds (m : Machine) : List Machine := m.fetching :: m.fetching.ticked.decodedEnds

/-- The machines at which a number of instructions are about to end a tick. -/
def runEnds : Nat → Machine → List Machine
  | 0, _ => []
  | n + 1, m =>
    if m.halted then []
    else m.cycleEnds ++ match m.step with
      | (m', none) => runEnds n m'
      | (_, some _) => []

/-- The outcome under a limit, from the outcome without one and from the machines at which a tick is
    about to end. The one that is to end the first tick beyond the limit stops. -/
def cut {α : Type} (limit : Nat) (stop : Machine → α) (m : Machine) (ends : List Machine)
    (outcome : Machine × Option α) : Machine × Option α :=
  match ends[limit + 1 - m.tick]? with
  | some e => (e.limited limit, some (stop e))
  | none => (outcome.1.limited limit, outcome.2)

section Cut

variable {α : Type} {limit : Nat} {stop : Machine → α} {m m' : Machine}

theorem cut_cons (e : Machine) (ends : List Machine) (outcome : Machine × Option α)
    (h : m'.tick = m.tick + 1) : cut limit stop m (e :: ends) outcome
      = if limit < m.tick then (e.limited limit, some (stop e))
        else cut limit stop m' ends outcome := by
  by_cases hlt : limit < m.tick
  · have hindex : limit + 1 - m.tick = 0 := by omega
    rw [if_pos hlt, cut, hindex]
    rfl
  · have hindex : limit + 1 - m.tick = (limit + 1 - m'.tick) + 1 := by omega
    rw [if_neg hlt, cut, cut, hindex, List.getElem?_cons_succ]

/-- A second part is cut with its own list where the list of the first part ends. -/
theorem cut_append (ends more : List Machine) (outcome : Machine × Option α)
    (h : m'.tick = m.tick + ends.length) : cut limit stop m (ends ++ more) outcome
      = match ends[limit + 1 - m.tick]? with
        | some e => (e.limited limit, some (stop e))
        | none => cut limit stop m' more outcome := by
  rw [cut, List.getElem?_append]
  by_cases hlt : limit + 1 - m.tick < ends.length
  · rw [if_pos hlt, List.getElem?_eq_getElem hlt]
  · have hindex : limit + 1 - m.tick - ends.length = limit + 1 - m'.tick := by omega
    rw [if_neg hlt, List.getElem?_eq_none (Nat.le_of_not_lt hlt), cut, hindex]

end Cut

/-- What lies between two machines of a run: the machines at which a tick is about to end, and in
    between nothing that ends one. -/
inductive Trail : Machine → List Machine → Machine → Prop
  | inside {m m' : Machine} (tick : m'.tick = m.tick) (journal : m'.journal = m.journal)
      (limit : m'.tickLimit = m.tickLimit) : Trail m [] m'
  | tick {m e m' : Machine} {ends : List Machine} (first : Trail m [] e)
      (rest : Trail e.ticked ends m') : Trail m (e :: ends) m'

namespace Trail

variable {m m' m'' : Machine} {ends more : List Machine}

theorem refl (m : Machine) : Trail m [] m := inside rfl rfl rfl

theorem trans_inside (h : Trail m [] m') (rest : Trail m' more m'') : Trail m more m'' := by
  obtain ⟨htick, hjournal, hlimit⟩ := h
  induction rest with
  | inside htick' hjournal' hlimit' =>
    exact inside (htick'.trans htick) (hjournal'.trans hjournal) (hlimit'.trans hlimit)
  | tick first rest ihFirst _ => exact tick (ihFirst htick hjournal hlimit) rest

theorem append (h : Trail m ends m') (rest : Trail m' more m'') : Trail m (ends ++ more) m'' := by
  induction h with
  | inside htick hjournal hlimit => exact (inside htick hjournal hlimit).trans_inside rest
  | tick first _ _ ih => exact tick first (ih rest)

theorem unlimited (h : Trail m ends m') (hm : m.tickLimit = none) : m'.tickLimit = none := by
  induction h with
  | inside _ _ hlimit => exact hlimit.trans hm
  | tick _ _ ihFirst ihRest => exact ihRest (ihFirst hm)

/-- The clock counts the ends of ticks. -/
theorem tick_eq (h : Trail m ends m') : m'.tick = m.tick + ends.length := by
  induction h with
  | inside htick _ _ => exact htick
  | tick first _ ihFirst ihRest =>
    rw [ihRest, ticked_tick, ihFirst, List.length_nil, List.length_cons]
    omega

/-- The journal has the records of the ends of ticks. -/
theorem journal_eq (h : Trail m ends m') : m'.journal = m.journal ++ ends.map record := by
  induction h with
  | inside _ hjournal _ => rw [hjournal, List.map_nil, List.append_nil]
  | @tick m e m' ends _ _ ihFirst ihRest =>
    have hticked : e.ticked.journal = e.journal ++ [e.record] := journal_report e _
    rw [ihRest, hticked, ihFirst, List.map_nil, List.append_nil, List.append_assoc]
    rfl

/-- The way to the end of a tick leads through the ends before it. -/
theorem take (h : Trail m ends m') {k : Nat} {e : Machine} (he : ends[k]? = some e) :
    Trail m (ends.take k) e := by
  induction h generalizing k with
  | inside _ _ _ => cases he
  | tick first rest _ ihRest =>
    cases k with
    | zero =>
      cases he
      exact first
    | succ k => exact tick first (ihRest he)

end Trail

/-- A tick that ends has ended as if there were no limit. -/
theorem endTick_ok {m m' : Machine} (h : m.endTick = .ok m') : m' = m.ticked :=
  (endTick_ok_iff.mp h).2

theorem perform_endTick_limited (m : Machine) (limit : Nat) : (m.limited limit).perform .endTick
    = if limit < m.tick then .error (.tickLimitExceeded limit)
      else .ok (m.ticked.limited limit) := rfl

/-- Only the end of a tick looks at the limit. -/
theorem perform_limited {action : Action} (h : action ≠ .endTick) (m : Machine) (limit : Nat) :
    (m.limited limit).perform action = (m.perform action).map (limited · limit) := by
  have hmicro : ∀ op, (m.limited limit).micro op = (m.micro op).map (limited · limit) := by
    intro op
    have hpath : (m.limited limit).path = m.path := rfl
    rw [micro, micro, hpath]
    cases m.path.apply op <;> rfl
  cases action with
  | micro op => exact hmicro op
  | jumpIfExhausted =>
    have hexhausted : (m.limited limit).path.exhausted = m.path.exhausted := rfl
    rw [perform, perform, hexhausted]
    by_cases hx : m.path.exhausted = true
    · rw [if_pos hx, if_pos hx]
      exact hmicro (.latchPc .jump)
    · rw [if_neg hx, if_neg hx]
      rfl
  | endTick => exact absurd rfl h
  | reportStore | reportOutput | halt => rfl

/-- An action that ends no tick. -/
theorem trail_perform {action : Action} (h : action ≠ .endTick) {m m' : Machine}
    (hperform : m.perform action = .ok m') : Trail m [] m' := by
  cases perform_ok_iff.mp hperform with
  | micro | jumps => exact .inside rfl rfl rfl
  | stays => exact .refl m
  | endTick => exact absurd rfl h
  | reportStore | reportOutput | halt =>
    refine .inside rfl ?_ rfl
    rw [journal_report]
    exact List.append_nil _

section Unlimited

variable {m : Machine} (hlimit : m.tickLimit = none)

include hlimit

theorem perform_endTick_unlimited : m.perform .endTick = .ok m.ticked := by
  rw [perform, endTick, hlimit]
  rfl

theorem perform_unlimited {action : Action} {m' : Machine} (h : m.perform action = .ok m') :
    m'.tickLimit = none := by
  by_cases hend : action = .endTick
  · subst hend
    rw [perform_endTick_unlimited hlimit] at h
    cases h
    exact hlimit
  · exact (trail_perform hend h).unlimited hlimit

/-- Actions lead through the ends of their ticks. -/
theorem trail_performAll (actions : List Action) :
    Trail m (tickEnds actions m) (performAll actions m).1 := by
  induction actions generalizing m with
  | nil => exact .refl m
  | cons action actions ih =>
    rw [tickEnds, performAll]
    by_cases hend : action = .endTick
    · subst hend
      rw [perform_endTick_unlimited hlimit]
      exact .tick (.refl m) (ih hlimit)
    · cases hperform : m.perform action with
      | error fault => exact .refl m
      | ok m' =>
        simp only [if_neg hend]
        exact (trail_perform hend hperform).append (ih (perform_unlimited hlimit hperform))

/-- A limit cuts actions. -/
theorem performAll_limited (limit : Nat) (actions : List Action) :
    performAll actions (m.limited limit) = cut limit (fun _ => .tickLimitExceeded limit) m
      (tickEnds actions m) (performAll actions m) := by
  induction actions generalizing m with
  | nil => rfl
  | cons action actions ih =>
    rw [tickEnds, performAll, performAll]
    by_cases hend : action = .endTick
    · subst hend
      rw [perform_endTick_unlimited hlimit, perform_endTick_limited]
      simp only [if_true, List.singleton_append]
      rw [cut_cons m _ _ m.ticked_tick]
      by_cases hlt : limit < m.tick
      · rw [if_pos hlt, if_pos hlt]
      · rw [if_neg hlt, if_neg hlt]
        exact ih hlimit
    · rw [perform_limited hend]
      cases hperform : m.perform action with
      | error fault => rfl
      | ok m' =>
        simp only [if_neg hend, Except.map]
        rw [cut_append [] _ _ (trail_perform hend hperform).tick_eq]
        exact ih (perform_unlimited hlimit hperform)

theorem performAll_fetch_unlimited : performAll fetchActions m = (m.fetching.ticked, none) :=
  performAll_endTick (m := m.fetching) hlimit []

theorem tickEnds_fetch : tickEnds fetchActions m = [m.fetching] := by
  have hends : tickEnds fetchActions m = tickEnds [.endTick] m.fetching := rfl
  rw [hends, tickEnds, perform_endTick_unlimited (m := m.fetching) hlimit]
  rfl

theorem cycle_unlimited : m.cycle = match m.fetching.ticked.decoded with
    | .ok actions => performAll actions m.fetching.ticked
    | .error fault => (m.fetching.ticked, some fault) := by
  cases hdecoded : m.fetching.ticked.decoded <;>
    simp only [cycle, performAll_fetch_unlimited hlimit, hdecoded]

/-- An instruction leads through the ends of its ticks. -/
theorem trail_cycle : Trail m m.cycleEnds m.cycle.1 := by
  rw [cycle_unlimited hlimit, cycleEnds, decodedEnds]
  refine .tick (.inside rfl rfl rfl) ?_
  cases m.fetching.ticked.decoded with
  | ok actions => exact trail_performAll (m := m.fetching.ticked) hlimit actions
  | error fault => exact .refl _

/-- A limit cuts an instruction. -/
theorem cycle_limited (limit : Nat) : (m.limited limit).cycle
    = cut limit (fun _ => .tickLimitExceeded limit) m m.cycleEnds m.cycle := by
  have hdecoded : (m.fetching.ticked.limited limit).decoded = m.fetching.ticked.decoded := rfl
  have htick : m.fetching.ticked.tick = m.tick + 1 := rfl
  rw [cycle, performAll_limited hlimit, tickEnds_fetch hlimit, performAll_fetch_unlimited hlimit,
    cycleEnds, cut_cons _ _ _ htick, cut_cons _ _ _ htick]
  by_cases hlt : limit < m.tick
  · rw [if_pos hlt, if_pos hlt]
  · simp only [if_neg hlt, cut, List.getElem?_nil, hdecoded]
    rw [cycle_unlimited hlimit, decodedEnds]
    cases m.fetching.ticked.decoded with
    | ok actions => exact performAll_limited (m := m.fetching.ticked) hlimit limit actions
    | error fault => rfl

end Unlimited

/-- The failure of a machine that is about to end a tick beyond the limit. -/
def overrun (limit : Nat) (m : Machine) : Failure := ⟨.tickLimitExceeded limit, m.path.pc, m.tick⟩

section Run

variable {m : Machine} (hlimit : m.tickLimit = none)

theorem step_running (hrunning : m.halted = false) :
    m.step = (m.cycle.1, m.cycle.2.map fun fault => ⟨fault, m.cycle.1.path.pc, m.cycle.1.tick⟩) :=
  step_of_cycle hrunning rfl

include hlimit

/-- A limit cuts a step. -/
theorem step_limited (hrunning : m.halted = false) (limit : Nat) :
    (m.limited limit).step = cut limit (overrun limit) m m.cycleEnds m.step := by
  have hcycle := cycle_limited hlimit limit
  rw [step_running (m := m.limited limit) hrunning, step_running hrunning, hcycle, cut, cut]
  cases m.cycleEnds[limit + 1 - m.tick]? <;> rfl

theorem trail_step (hrunning : m.halted = false) : Trail m m.cycleEnds m.step.1 := by
  rw [step_running hrunning]
  exact trail_cycle hlimit

/-- A run leads through the ends of its ticks. -/
theorem trail_runFor (n : Nat) : Trail m (runEnds n m) (runFor n m).1 := by
  induction n generalizing m with
  | zero => exact .refl m
  | succ n ih =>
    rw [runEnds, runFor]
    by_cases hhalted : m.halted = true
    · rw [if_pos hhalted, if_pos hhalted]
      exact .refl m
    · have hstep := trail_step hlimit (Bool.eq_false_iff.mpr hhalted)
      rw [if_neg hhalted, if_neg hhalted]
      cases hm : m.step with
      | mk m' failure =>
        rw [hm] at hstep
        refine hstep.append ?_
        cases failure with
        | none => exact ih (hstep.unlimited hlimit)
        | some failure => exact .refl m'

/-- A limit cuts a run. -/
theorem runFor_limited (limit n : Nat) : runFor n (m.limited limit)
    = cut limit (overrun limit) m (runEnds n m) (runFor n m) := by
  induction n generalizing m with
  | zero => rfl
  | succ n ih =>
    have hhalted' : (m.limited limit).halted = m.halted := rfl
    rw [runEnds, runFor, runFor, hhalted']
    by_cases hhalted : m.halted = true
    · rw [if_pos hhalted, if_pos hhalted, if_pos hhalted]
      rfl
    · have hrunning := Bool.eq_false_iff.mpr hhalted
      have hstep := trail_step hlimit hrunning
      rw [if_neg hhalted, if_neg hhalted, if_neg hhalted, cut_append _ _ _ hstep.tick_eq,
        step_limited hlimit hrunning, cut]
      -- The step is cut itself, or the rest of the run is.
      cases m.cycleEnds[limit + 1 - m.tick]? with
      | some e => rfl
      | none =>
        cases hm : m.step with
        | mk m' failure =>
          rw [hm] at hstep
          cases failure with
          | none => exact ih (hstep.unlimited hlimit)
          | some failure => rfl

/-- Every step ends a tick, or the machine stops. -/
theorem le_tick_of_runFor (n : Nat) {m' : Machine} (h : runFor n m = (m', none))
    (hrunning : m'.halted = false) : m.tick + n ≤ m'.tick := by
  induction n generalizing m with
  | zero =>
    cases h
    exact Nat.le_refl _
  | succ n ih =>
    rw [runFor] at h
    by_cases hhalted : m.halted = true
    · rw [if_pos hhalted] at h
      cases h
      rw [hhalted] at hrunning
      cases hrunning
    · -- A step has at least one tick, that of fetching.
      have hstep := trail_step hlimit (Bool.eq_false_iff.mpr hhalted)
      rw [if_neg hhalted] at h
      cases hm : m.step with
      | mk mid failure =>
        rw [hm] at h hstep
        cases failure with
        | some failure => cases h
        | none =>
          have hrest := ih (hstep.unlimited hlimit) h
          have htick := hstep.tick_eq
          rw [cycleEnds, List.length_cons] at htick
          omega

end Run

/-- A failure has the clock of the machine that it leaves. -/
theorem tick_of_failure {n : Nat} {m m' : Machine} {failure : Failure}
    (h : runFor n m = (m', some failure)) : failure.tick = m'.tick := by
  induction n generalizing m with
  | zero => cases h
  | succ n ih =>
    rw [runFor_succ] at h
    cases hm : m.step with
    | mk mid stepFailure =>
      rw [hm] at h
      cases stepFailure with
      | none => exact ih h
      | some stepFailure =>
        cases h
        by_cases hhalted : m.halted = true
        · rw [step_of_halted hhalted] at hm
          cases hm
        · rw [step_running (Bool.eq_false_iff.mpr hhalted)] at hm
          cases hcycle : m.cycle with
          | mk ended fault =>
            rw [hcycle] at hm
            cases fault with
            | none => cases hm
            | some fault =>
              cases hm
              rfl

/-- A run that has halted or failed. -/
def Ended (outcome : Machine × Option Failure) : Prop :=
  outcome.1.halted = true ∨ outcome.2.isSome = true

/-- A run that has ended does not go on. -/
theorem runFor_of_ended {n k : Nat} {m : Machine} (h : Ended (runFor n m)) (hk : n ≤ k) :
    runFor k m = runFor n m := by
  obtain ⟨more, rfl⟩ := Nat.exists_eq_add_of_le hk
  rw [runFor_add]
  cases hrun : runFor n m with
  | mk m' failure =>
    rw [hrun] at h
    cases failure with
    | some failure => rfl
    | none =>
      rcases h with hhalted | hfailed
      · exact runFor_of_halted hhalted more
      · cases hfailed

section Load

variable (image : Image) (input : List Char) (limit : Nat)

/-- The run without a limit ends by a tick or goes beyond it. -/
theorem ended_or_lt_runEnds (n : Nat) : Ended (runFor n (load image input none)) ∨
    n ≤ (runEnds n (load image input none)).length := by
  have htick := (trail_runFor (m := load image input none) rfl n).tick_eq
  have hstart : (load image input none).tick = 1 := rfl
  cases hrun : runFor n (load image input none) with
  | mk m failure =>
    simp only [hrun] at htick
    by_cases hended : Ended (m, failure)
    · exact Or.inl hended
    · have hrunning : m.halted = false := Bool.eq_false_iff.mpr fun h => hended (Or.inl h)
      cases failure with
      | some failure => exact absurd (Or.inr rfl) hended
      | none =>
        have hle := le_tick_of_runFor (m := load image input none) rfl n hrun hrunning
        exact Or.inr (by omega)

/-- A run with a limit is cut out of every run without one that is long enough. -/
theorem run_limited {n : Nat} (hn : limit < n) : (load image input (some limit)).run
    = cut limit (overrun limit) (load image input none) (runEnds n (load image input none))
        (runFor n (load image input none)) := by
  have hcut := runFor_limited (m := load image input none) rfl limit
  have hrun : (load image input (some limit)).run
      = runFor (limit + 1) ((load image input none).limited limit) := rfl
  have hindex : limit + 1 - (load image input none).tick = limit := rfl
  -- By then the limited run has ended.
  have hended : Ended (runFor (limit + 1) ((load image input none).limited limit)) := by
    rw [hcut, cut, hindex]
    cases hget : (runEnds (limit + 1) (load image input none))[limit]? with
    | some e => exact Or.inr rfl
    | none =>
      have hlength := List.getElem?_eq_none_iff.mp hget
      rcases ended_or_lt_runEnds image input (limit + 1) with hended | hle
      · exact hended
      · omega
  rw [hrun, ← runFor_of_ended hended hn, hcut]

/-- A run with a limit has the first records of the run without one. -/
theorem run_limited_journal {n : Nat} (hn : limit < n) :
    (load image input (some limit)).run.1.journal
      = (runFor n (load image input none)).1.journal.take limit := by
  have htrail := trail_runFor (m := load image input none) rfl n
  have hindex : limit + 1 - (load image input none).tick = limit := rfl
  have hstart : (load image input none).journal = [] := rfl
  rw [run_limited image input limit hn, htrail.journal_eq, hstart, List.nil_append, cut, hindex,
    ← List.map_take]
  cases hget : (runEnds n (load image input none))[limit]? with
  | some e =>
    have hjournal := (htrail.take hget).journal_eq
    rw [hstart, List.nil_append] at hjournal
    exact hjournal
  | none =>
    have hlength := List.getElem?_eq_none_iff.mp hget
    have hjournal := htrail.journal_eq
    rw [hstart, List.nil_append] at hjournal
    rw [List.take_of_length_le hlength]
    exact hjournal

/-- A run without a limit that has ended is not changed by a limit that it keeps to. -/
theorem run_of_ended {n : Nat} {m : Machine} {failure : Option Failure}
    (hrun : runFor n (load image input none) = (m, failure)) (hended : Ended (m, failure))
    (hticks : m.ticks ≤ limit) :
    (load image input (some limit)).run = (m.limited limit, failure) := by
  have hlong : runFor (n + (limit + 1)) (load image input none) = (m, failure) := by
    rw [runFor_of_ended (hrun ▸ hended) (Nat.le_add_right n _), hrun]
  have htick := (trail_runFor (m := load image input none) rfl (n + (limit + 1))).tick_eq
  have hstart : (load image input none).tick = 1 := rfl
  simp only [hlong, hstart] at htick
  rw [ticks] at hticks
  rw [run_limited image input limit (n := n + (limit + 1)) (by omega), cut, hstart,
    List.getElem?_eq_none (by omega), hlong]

end Load

end Machine

namespace Image

/-- The run without a limit halts and leaves a machine. -/
def HaltsIn (image : Image) (input : List Char) (m : Machine) : Prop :=
  m.halted = true ∧ ∃ n, Machine.runFor n (.load image input none) = (m, none)

/-- The run without a limit fails. -/
def FailsWith (image : Image) (input : List Char) (failure : Failure) : Prop :=
  ∃ n m, Machine.runFor n (.load image input none) = (m, some failure)

/-- All pieces of the run without a limit that have ended are the same. -/
theorem ended_unique {image : Image} {input : List Char} {n k : Nat}
    {first second : Machine × Option Failure}
    (hn : Machine.runFor n (.load image input none) = first) (hfirst : Machine.Ended first)
    (hk : Machine.runFor k (.load image input none) = second) (hsecond : Machine.Ended second) :
    first = second := by
  subst hn hk
  rcases Nat.le_total n k with hle | hle
  · exact (Machine.runFor_of_ended hfirst hle).symm
  · exact Machine.runFor_of_ended hsecond hle

end Image

/-- The result of a run with a limit. It is that of the run without one if this has ended by then.
    Otherwise, also if the run without a limit never ends, the first tick beyond the limit fails. In
    all cases the records are the first ones of any piece of the run without a limit that is long
    enough. -/
theorem execute_limited (image : Image) (input : List Char) (limit : Nat) :
    (∀ m, image.HaltsIn input m → m.ticks ≤ limit →
      execute image input (some limit) = .ok ⟨m.output, m.journal, m.path.memory⟩) ∧
    (∀ failure, image.FailsWith input failure → failure.tick - 1 ≤ limit →
      execute image input (some limit) = .error failure) ∧
    ((∀ m, image.HaltsIn input m → limit < m.ticks) →
      (∀ failure, image.FailsWith input failure → limit < failure.tick - 1) →
      ∃ pc, execute image input (some limit)
        = .error ⟨.tickLimitExceeded limit, pc, limit + 1⟩) ∧
    ∀ n, limit < n → (Machine.load image input (some limit)).run.1.journal
      = (Machine.runFor n (.load image input none)).1.journal.take limit := by
  refine ⟨?_, ?_, ?_, fun n hn => Machine.run_limited_journal image input limit hn⟩
  · rintro m ⟨hhalted, n, hrun⟩ hticks
    rw [execute, Machine.run_of_ended image input limit hrun (Or.inl hhalted) hticks]
    rfl
  · rintro failure ⟨n, m, hrun⟩ hticks
    rw [Machine.tick_of_failure hrun] at hticks
    rw [execute, Machine.run_of_ended image input limit hrun (Or.inr rfl) hticks]
  · intro hhalts hfails
    have hcut := Machine.run_limited image input limit (Nat.lt_succ_self limit)
    have htrail := Machine.trail_runFor (m := .load image input none) rfl (limit + 1)
    have htick := htrail.tick_eq
    have hstart : (Machine.load image input none).tick = 1 := rfl
    rw [Machine.cut, hstart, Nat.add_sub_cancel] at hcut
    cases hget : (Machine.runEnds (limit + 1) (.load image input none))[limit]? with
    | some e =>
      have he := (htrail.take hget).tick_eq
      have hlt := (List.getElem?_eq_some_iff.mp hget).1
      rw [List.length_take_of_le (Nat.le_of_lt hlt), hstart, Nat.add_comm] at he
      simp only [hget] at hcut
      rw [execute, hcut, ← he]
      exact ⟨e.path.pc, rfl⟩
    | none =>
      -- A run that ends so few ticks has ended, and by then neither way to end is left.
      have hlength := List.getElem?_eq_none_iff.mp hget
      rcases Machine.ended_or_lt_runEnds image input (limit + 1) with hended | hle
      · exfalso
        cases hrun : Machine.runFor (limit + 1) (.load image input none) with
        | mk m failure =>
          simp only [hrun, hstart] at htick
          cases failure with
          | some failure =>
            have hlate := hfails failure ⟨limit + 1, m, hrun⟩
            rw [Machine.tick_of_failure hrun] at hlate
            omega
          | none =>
            rw [hrun] at hended
            rcases hended with hhalted | hfailed
            · have hlate := hhalts m ⟨hhalted, limit + 1, hrun⟩
              rw [Machine.ticks] at hlate
              omega
            · cases hfailed
      · omega

/-- An image with a single instruction, which prints the zero that the accumulator starts with. -/
def printsZero : Image := ⟨[⟨.code ⟨.output, integerMode⟩, 0⟩]⟩

/-- It takes three ticks to halt. With a limit of two ticks it fails in the third. -/
theorem printsZero_limited :
    execute printsZero [] (some 3) = .ok ⟨"0",
      [⟨1, 0, 0, 0, some (.code ⟨.output, integerMode⟩)⟩,
        ⟨2, 0, 0, 1, some (.code ⟨.output, integerMode⟩)⟩, ⟨3, 0, 1, 1, none⟩],
      .ofCells printsZero.cells⟩ ∧
      ∃ pc, execute printsZero [] (some 2) = .error ⟨.tickLimitExceeded 2, pc, 3⟩ := by
  have hrun : Machine.runFor 2 (.load printsZero [] none)
      = ((Machine.runFor 2 (.load printsZero [] none)).1, none) := rfl
  refine ⟨(execute_limited printsZero [] 3).1 _ ⟨rfl, 2, hrun⟩ (by decide),
    (execute_limited printsZero [] 2).2.2.1 ?_ ?_⟩
  · rintro m ⟨hhalted, n, hm⟩
    cases Image.ended_unique hm (Or.inl hhalted) hrun (Or.inl rfl)
    decide
  · rintro failure ⟨n, m, hm⟩
    cases Image.ended_unique hm (Or.inr rfl) hrun (Or.inl rfl)

end AccumulatorMachine
