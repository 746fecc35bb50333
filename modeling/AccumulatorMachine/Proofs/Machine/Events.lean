import AccumulatorMachine.Proofs.Machine.TickLimit

/-!
# Events as a Mirror

What a listener knows of a machine who only hears its events.

The machine changes its memory and its output in one action and reports the change in another one,
after the program counter has moved on. So the events mirror the machine only where both actions
have been done. The move between them is the one action there that can fail, and a failed step is
not undone. After a store or an output that could not move on, the change is there and its event
is not, and the events never catch up. Any other failure comes before the change or after its
event, and the events go on being a mirror for as long as the machine is stepped.

## Main definitions

* `Event.applyTo`, `Event.token?`: What an event tells about the memory and the output.
* `Machine.after`: Steps that go on after failures.
* `Machine.OverflowsPc`: A step that fails because the program counter leaves its range.
* `Machine.Live`, `Machine.Done`: A machine that its events mirror, before its halt and after it.

## Theorems

* `Machine.Live.performAll_quiet`: Actions that neither change nor report anything keep the mirror.
* `Machine.Live.step`: A step keeps the mirror unless it fails to move on.
* `Machine.fault_of_overflowsPc`: A step that fails to move on is an overflow.
* `Machine.events_mirror`: The events after any number of steps.
-/

namespace AccumulatorMachine

namespace Event

/-- The memory after an event. -/
def applyTo (event : Event) (memory : Memory) : Memory :=
  match event with
  | stored address value => memory.write address (.data value)
  | _ => memory

/-- The token that an event tells. -/
def token? : Event → Option String
  | printed token => some token
  | _ => none

end Event

/-- An action that moves the program counter. -/
def Action.Moves : Action → Prop
  | .micro (.latchPc _) => True
  | .jumpIfExhausted => True
  | _ => False

/-- An action that neither changes what events tell about nor reports anything but the end of a
    tick. -/
def Action.Quiet : Action → Prop
  | .micro .write => False
  | .micro .emit => False
  | .reportStore => False
  | .reportOutput => False
  | .halt => False
  | _ => True

instance (action : Action) : Decidable action.Quiet := by
  unfold Action.Quiet
  split <;> infer_instance

theorem OpCode.actions_quiet {opcode : OpCode} (hwrite : opcode ≠ .write)
    (houtput : opcode ≠ .output) (hhalt : opcode ≠ .halt) (zero signed : Bool) :
    ∀ action ∈ opcode.actions zero signed, action.Quiet := by
  cases opcode with
  | write => exact absurd rfl hwrite
  | output => exact absurd rfl houtput
  | halt => exact absurd rfl hhalt
  | read | add | subtract | multiply | divide | jump | skip | readAddress | writeAddress | input =>
    simp [OpCode.actions, arithmeticActions, Action.Quiet]

namespace Machine

/-- The action at which actions stop, if they stop before their end. -/
def stoppedBy : List Action → Machine → Option Action
  | [], _ => none
  | action :: actions, m =>
    match m.perform action with
    | .ok m' => stoppedBy actions m'
    | .error _ => some action

/-- The action at which an instruction stops, if it stops before its end. -/
def cycleStoppedBy (m : Machine) : Option Action :=
  match performAll fetchActions m with
  | (_, some _) => stoppedBy fetchActions m
  | (m', none) =>
    match m'.decoded with
    | .ok actions => stoppedBy actions m'
    | .error _ => none

/-- A machine whose next step fails because the program counter would leave its range. -/
def OverflowsPc (m : Machine) : Prop :=
  m.halted = false ∧ ∃ action, m.cycleStoppedBy = some action ∧ action.Moves

/-- The machine after a number of steps, which go on after failures. -/
def after (m : Machine) : Nat → Machine
  | 0 => m
  | n + 1 => (m.after n).step.1

/-- A machine that has not halted and that its events mirror. -/
structure Live (image : Image) (m : Machine) : Prop where
  running : m.halted = false
  started : 0 < m.tick
  numbers : (m.log.filterMap Event.record?).map TickRecord.tick = (List.range' 1 m.ticks).reverse
  memory : m.log.foldr Event.applyTo (.ofCells image.cells) = m.path.memory
  printed : m.log.filterMap Event.token? = m.path.printed
  not_halted : ∀ ticks, Event.halted ticks ∉ m.log

/-- The machine after it has halted. -/
def done (m : Machine) : Machine := ({ m with halted := true }).report (.halted m.ticks)

/-- A machine that has halted and that its events mirror. -/
def Done (image : Image) (m : Machine) : Prop := ∃ before, Live image before ∧ m = before.done

theorem live_load (image : Image) (input : List Char) (limit : Option Nat) :
    Live image (load image input limit) where
  running := rfl
  started := Nat.one_pos
  numbers := rfl
  memory := rfl
  printed := rfl
  not_halted := fun _ h => nomatch h

namespace Live

variable {image : Image} {m m' : Machine}

/-- What changes registers only keeps the mirror. -/
theorem withPath (h : Live image m) {path : DataPath} (hmemory : path.memory = m.path.memory)
    (hprinted : path.printed = m.path.printed) : Live image { m with path := path } :=
  ⟨h.running, h.started, h.numbers, h.memory.trans hmemory.symm, h.printed.trans hprinted.symm,
    h.not_halted⟩

/-- The end of a tick has the next number. -/
theorem endTick (h : Live image m) (hend : m.endTick = .ok m') : Live image m' := by
  rw [endTick_ok hend]
  refine ⟨h.running, Nat.succ_pos _, ?_, h.memory, h.printed, ?_⟩
  · obtain ⟨n, hn⟩ : ∃ n, m.tick = n + 1 :=
      Nat.exists_eq_succ_of_ne_zero (Nat.ne_of_gt h.started)
    have hnumbers := h.numbers
    rw [ticks, hn, Nat.add_sub_cancel] at hnumbers
    rw [ticks, ticked_tick, Nat.add_sub_cancel, hn, List.range'_concat, List.reverse_append,
      ← hnumbers]
    simp [ticked, report, record, Event.record?, hn, Nat.add_comm]
  · intro ticks hmem
    rcases List.mem_cons.mp hmem with heq | hmem
    · cases heq
    · exact h.not_halted ticks hmem

theorem performs (h : Live image m) {action : Action} (hquiet : action.Quiet)
    (hperforms : m.Performs action m') : Live image m' := by
  cases hperforms with
  | @micro op path hpath =>
    have hop : op ≠ .write ∧ op ≠ .emit := by
      constructor <;> rintro rfl <;> exact hquiet
    exact h.withPath (hpath.memory_eq hop.1) (hpath.printed_eq hop.2)
  | jumps _ hpath => exact h.withPath (hpath.memory_eq (by decide)) (hpath.printed_eq (by decide))
  | stays => exact h
  | endTick hgranted => exact h.endTick (endTick_ok_iff.mpr ⟨hgranted, rfl⟩)
  | reportStore | reportOutput | halt => exact hquiet.elim

/-- Quiet actions keep the mirror, also when they fault. -/
theorem performAll_quiet (h : Live image m) (actions : List Action)
    (hquiet : ∀ action ∈ actions, action.Quiet) : Live image (performAll actions m).1 :=
  performAll_induction
    (fun action hmem _ _ hm hperforms => hm.performs (hquiet action hmem) hperforms) h

/-- A change that is reported at once keeps the mirror. -/
theorem reported (h : Live image m) (path : DataPath) (event : Event)
    (hrecord : event.record? = none) (hhalted : ∀ ticks, event ≠ .halted ticks)
    (hmemory : event.applyTo m.path.memory = path.memory)
    (hprinted : event.token?.toList ++ m.path.printed = path.printed) :
    Live image ({ m with path := path }.report event) where
  running := h.running
  started := h.started
  numbers := by
    have hlog : (event :: m.log).filterMap Event.record? = m.log.filterMap Event.record? :=
      List.filterMap_cons_none hrecord
    exact (congrArg (List.map TickRecord.tick) hlog).trans h.numbers
  memory := by
    have hfold : (event :: m.log).foldr Event.applyTo (.ofCells image.cells)
        = event.applyTo (m.log.foldr Event.applyTo (.ofCells image.cells)) := rfl
    rw [h.memory, hmemory] at hfold
    exact hfold
  printed := by
    have hfilter : (event :: m.log).filterMap Event.token?
        = event.token?.toList ++ m.log.filterMap Event.token? := by
      rw [List.filterMap_cons]
      cases event.token? <;> rfl
    rw [h.printed, hprinted] at hfilter
    exact hfilter
  not_halted := by
    intro ticks hmem
    rcases List.mem_cons.mp hmem with heq | hmem
    · exact hhalted ticks heq.symm
    · exact h.not_halted ticks hmem

/-- A store keeps the mirror if the program counter can move on. -/
theorem performAll_write (h : Live image m)
    (hmoves : ∀ action, stoppedBy (OpCode.write.actions m.path.zero m.path.signed) m = some action →
      ¬ action.Moves) :
    Live image (Machine.performAll (OpCode.write.actions m.path.zero m.path.signed) m).1 := by
  let stored : DataPath := { m.path with
    address := m.path.operand, memory := m.path.memory.write m.path.operand (.data m.path.acc) }
  have hrun : Machine.performAll (OpCode.write.actions m.path.zero m.path.signed) m
      = Machine.performAll [.micro (.latchPc .advance), .reportStore, .endTick]
          { m with path := stored } := rfl
  have hstop : stoppedBy (OpCode.write.actions m.path.zero m.path.signed) m
      = stoppedBy [.micro (.latchPc .advance), .reportStore, .endTick]
          { m with path := stored } := rfl
  rw [hrun, performAll_micro]
  -- The store is reported behind the move, so a move that failed would leave it untold.
  cases hmove : stored.apply (.latchPc .advance) with
  | error fault =>
    refine absurd trivial (hmoves (.micro (.latchPc .advance)) ?_)
    rw [hstop, stoppedBy, Machine.perform, micro, hmove]
    rfl
  | ok path =>
    rcases Outcome.bind_ok hmove with ⟨pc, -, hpure⟩
    cases hpure
    have hgoes : ∀ ticks, Event.stored m.path.operand m.path.acc ≠ .halted ticks := by
      intro ticks heq
      cases heq
    exact (h.reported { stored with pc := pc } (.stored m.path.operand m.path.acc) rfl
      hgoes rfl rfl).performAll_quiet [.endTick] (by decide)

/-- An output keeps the mirror if the program counter can move on, or if it prints nothing. -/
theorem performAll_output (h : Live image m)
    (hmoves : ∀ action,
      stoppedBy (OpCode.output.actions m.path.zero m.path.signed) m = some action →
        ¬ action.Moves) :
    Live image (Machine.performAll (OpCode.output.actions m.path.zero m.path.signed) m).1 := by
  have hactions : OpCode.output.actions m.path.zero m.path.signed
      = [.micro .emit, .micro (.latchPc .advance), .reportOutput, .endTick] := rfl
  rw [hactions, performAll_micro]
  rw [hactions, stoppedBy, Machine.perform, micro] at hmoves
  cases hemit : m.path.apply .emit with
  | error fault => exact h
  | ok printed =>
    rw [hemit] at hmoves
    simp only [performAll_micro]
    -- The output is reported behind the move, so a move that failed would leave it untold.
    cases hmove : printed.apply (.latchPc .advance) with
    | error fault =>
      refine absurd trivial (hmoves (.micro (.latchPc .advance)) ?_)
      simp only [bind, Except.bind, pure, Except.pure]
      rw [stoppedBy, Machine.perform, micro, hmove]
      rfl
    | ok path =>
      rcases Outcome.bind_ok hemit with ⟨token, -, hpure⟩
      cases hpure
      rcases Outcome.bind_ok hmove with ⟨pc, -, hpure⟩
      cases hpure
      have hgoes : ∀ ticks, Event.printed token ≠ .halted ticks := by
        intro ticks heq
        cases heq
      exact (h.reported { m.path with printed := token :: m.path.printed, pc := pc }
        (.printed token) rfl hgoes rfl rfl).performAll_quiet [.endTick] (by decide)

/-- A step keeps the mirror unless the program counter cannot move on. -/
theorem step (h : Live image m) (hpc : ¬ m.OverflowsPc) :
    Live image m.step.1 ∨ Done image m.step.1 := by
  have hstep : m.step.1 = m.cycle.1 := by
    rw [Machine.step, if_neg (by rw [h.running]; decide)]
  have hfetch := h.performAll_quiet fetchActions (by decide)
  have hmoves : ∀ action, m.cycleStoppedBy = some action → ¬ action.Moves :=
    fun action hstop hmove => hpc ⟨h.running, action, hstop, hmove⟩
  rw [hstep, cycle]
  rw [cycleStoppedBy] at hmoves
  cases hperform : Machine.performAll fetchActions m with
  | mk m' fault =>
    rw [hperform] at hfetch
    rw [hperform] at hmoves
    cases fault with
    | some fault => exact Or.inl hfetch
    | none =>
      simp only [decoded] at hmoves ⊢
      rcases hinstruction : m'.path.instruction with _ | value | ⟨opcode, operand⟩
      · exact Or.inr ⟨m', hfetch, rfl⟩
      · exact Or.inl hfetch
      · simp only [hinstruction] at hmoves ⊢
        -- All instructions but these leave the memory and the output as they are.
        by_cases hquiet : opcode = .write ∨ opcode = .output ∨ opcode = .halt
        · rcases hquiet with rfl | rfl | rfl
          · exact Or.inl (performAll_write hfetch hmoves)
          · exact Or.inl (performAll_output hfetch hmoves)
          · exact Or.inr ⟨m', hfetch, rfl⟩
        · rw [not_or, not_or] at hquiet
          exact Or.inl (performAll_quiet hfetch _
            (OpCode.actions_quiet hquiet.1 hquiet.2.1 hquiet.2.2 _ _))

/-- What the events tell. -/
theorem tells (h : Live image m) :
    (m.events.filterMap Event.record?).map TickRecord.tick = List.range' 1 m.ticks ∧
      m.events.foldl (fun memory event => event.applyTo memory) (.ofCells image.cells)
        = m.path.memory ∧
      String.join (m.events.filterMap Event.token?) = m.output := by
  refine ⟨?_, ?_, ?_⟩
  · rw [events, List.filterMap_reverse, List.map_reverse, h.numbers, List.reverse_reverse]
  · rw [events, List.foldl_reverse]
    exact h.memory
  · rw [events, List.filterMap_reverse, h.printed]
    rfl

end Live

theorem events_done (m : Machine) : m.done.events = m.events ++ [.halted m.ticks] :=
  List.reverse_cons

/-- The events mirror the machine after any number of steps that do not fail to move on. -/
theorem live_or_done_after (image : Image) (input : List Char) (limit : Option Nat) (n : Nat)
    (h : ∀ k < n, ¬ ((load image input limit).after k).OverflowsPc) :
    Live image ((load image input limit).after n) ∨
      Done image ((load image input limit).after n) := by
  induction n with
  | zero => exact Or.inl (live_load image input limit)
  | succ n ih =>
    rcases ih fun k hk => h k (Nat.lt_succ_of_lt hk) with hlive | ⟨before, hlive, hdone⟩
    · exact hlive.step (h n (Nat.lt_succ_self n))
    · have hstep := step_of_halted (m := before.done) rfl
      rw [after, hdone, hstep]
      exact Or.inr ⟨before, hlive, rfl⟩

theorem after_of_halted {m : Machine} (h : m.halted = true) (n : Nat) : m.after n = m := by
  induction n with
  | zero => rfl
  | succ n ih => rw [after, ih, step_of_halted h]

section Overflow

/-- Actions that stop at an action have its fault. -/
theorem performAll_of_stoppedBy {actions : List Action} {m : Machine} {action : Action}
    (h : stoppedBy actions m = some action) : ∃ m' fault,
      performAll actions m = (m', some fault) ∧ m'.perform action = .error fault := by
  induction actions generalizing m with
  | nil => cases h
  | cons first rest ih =>
    rw [stoppedBy] at h
    rw [performAll]
    cases hperform : m.perform first with
    | error fault =>
      simp only [hperform] at h
      cases h
      exact ⟨m, fault, rfl, hperform⟩
    | ok mid =>
      simp only [hperform] at h
      exact ih h

theorem micro_latchPc_error {m : Machine} {update : PcUpdate} {fault : Fault}
    (h : m.micro (.latchPc update) = .error fault) :
    fault = .arithmeticOverflow ∧ ¬ Word.InRange (m.path.pc + m.path.offset update) := by
  rw [micro, DataPath.apply_latchPc] at h
  by_cases hin : Word.InRange (m.path.pc + m.path.offset update)
  · rw [if_pos hin] at h
    cases h
  · rw [if_neg hin] at h
    cases h
    exact ⟨rfl, hin⟩

/-- Where a move fails, the program counter cannot be loaded. -/
theorem perform_moves_error {m : Machine} {action : Action} (hmoves : action.Moves) {fault : Fault}
    (h : m.perform action = .error fault) : ∃ update, m.micro (.latchPc update) = .error fault := by
  cases action with
  | micro op =>
    cases op with
    | latchPc update => exact ⟨update, h⟩
    | latchAddress | latchInstruction | latchAccumulator | write | emit => exact hmoves.elim
  | jumpIfExhausted =>
    rw [perform] at h
    by_cases hx : m.path.exhausted = true
    · rw [if_pos hx] at h
      exact ⟨.jump, h⟩
    · rw [if_neg hx] at h
      cases h
  | reportStore | reportOutput | endTick | halt => exact hmoves.elim

/-- A step that cannot move on fails with an overflow, and where it should have led is no word. -/
theorem fault_of_overflowsPc {m : Machine} (h : m.OverflowsPc) : ∃ m' update,
    m.step = (m', some ⟨.arithmeticOverflow, m'.path.pc, m'.tick⟩) ∧
      ¬ Word.InRange (m'.path.pc + m'.path.offset update) := by
  obtain ⟨hrunning, action, hstop, hmoves⟩ := h
  -- The action at which the cycle is stopped is the one that has failed.
  have hcycle : ∃ m' fault, m.cycle = (m', some fault) ∧ m'.perform action = .error fault := by
    rw [cycleStoppedBy] at hstop
    rw [cycle]
    cases hfetch : performAll fetchActions m with
    | mk mid fault =>
      rw [hfetch] at hstop
      cases fault with
      | some fault =>
        rcases performAll_of_stoppedBy hstop with ⟨m', fault', hrun, hfault⟩
        rw [hfetch] at hrun
        exact ⟨m', fault', hrun, hfault⟩
      | none =>
        cases hdecoded : mid.decoded with
        | ok actions =>
          simp only [hdecoded] at hstop ⊢
          exact performAll_of_stoppedBy hstop
        | error fault =>
          simp only [hdecoded] at hstop
          cases hstop
  rcases hcycle with ⟨m', fault, hcycle, hfault⟩
  rcases perform_moves_error hmoves hfault with ⟨update, hupdate⟩
  rcases micro_latchPc_error hupdate with ⟨rfl, hin⟩
  exact ⟨m', update, step_of_cycle hrunning hcycle, hin⟩

end Overflow

/-- The events mirror the machine. After any number of steps, which may go on after failures but do
    not fail to move on, they number the ticks, they lead from the memory at the start to the one
    there is, and they spell the output. A halt is told last, once, and with the number of ticks,
    and nothing happens after it. -/
theorem events_mirror (image : Image) (input : List Char) (limit : Option Nat) (n : Nat)
    (h : ∀ k < n, ¬ ((load image input limit).after k).OverflowsPc) :
    let m := (load image input limit).after n
    (m.events.filterMap Event.record?).map TickRecord.tick = List.range' 1 m.ticks ∧
      m.events.foldl (fun memory event => event.applyTo memory) (.ofCells image.cells)
        = m.path.memory ∧
      String.join (m.events.filterMap Event.token?) = m.output ∧
      (m.halted = true ↔ ∃ ticks, Event.halted ticks ∈ m.events) ∧
      (m.halted = true → ∃ earlier, m.events = earlier ++ [.halted m.ticks] ∧
        (∀ ticks, Event.halted ticks ∉ earlier) ∧ m.step = (m, none) ∧ ∀ k, m.after k = m) := by
  intro m
  -- A machine that has halted is one that was running, with one more event.
  rcases live_or_done_after image input limit n h with hlive | ⟨before, hlive, hdone⟩
  · rcases hlive.tells with ⟨hnumbers, hmemory, houtput⟩
    have hnone : ∀ ticks, Event.halted ticks ∉ m.events :=
      fun ticks hmem => hlive.not_halted ticks (List.mem_reverse.mp hmem)
    have hrunning : ¬ m.halted = true := by
      rw [hlive.running]
      decide
    exact ⟨hnumbers, hmemory, houtput, ⟨fun hhalted => absurd hhalted hrunning,
      fun ⟨ticks, hmem⟩ => absurd hmem (hnone ticks)⟩, fun hhalted => absurd hhalted hrunning⟩
  · rcases hlive.tells with ⟨hnumbers, hmemory, houtput⟩
    have hm : m = before.done := hdone
    have hhalted : m.halted = true := by
      rw [hm]
      rfl
    have hevents : m.events = before.events ++ [.halted m.ticks] := by
      rw [hm]
      exact before.events_done
    refine ⟨?_, ?_, ?_, ⟨fun _ => ⟨m.ticks, by rw [hevents]; simp⟩, fun _ => hhalted⟩,
      fun _ => ⟨before.events, hevents,
        fun ticks hmem => hlive.not_halted ticks (List.mem_reverse.mp hmem),
        step_of_halted hhalted, after_of_halted hhalted⟩⟩
    · rw [hevents, List.filterMap_append, List.map_append, hnumbers, hm]
      exact List.append_nil _
    · rw [hevents, List.foldl_append, hmemory, hm]
      rfl
    · rw [hevents, List.filterMap_append, hm]
      exact (congrArg String.join (List.append_nil _)).trans houtput

/-- An image that stores and prints, and then halts. -/
def storesAndPrints : Image :=
  ⟨[⟨.code ⟨.readAddress, 7⟩, 0⟩, ⟨.code ⟨.write, 9⟩, 1⟩, ⟨.code ⟨.output, integerMode⟩, 2⟩]⟩

/-- Its events after all its steps and some more, with a limit that it keeps to. -/
theorem storesAndPrints_mirror :
    ((load storesAndPrints [] (some 10)).after 6).halted = true ∧
      ((load storesAndPrints [] (some 10)).after 6).output = "7" ∧
      ((load storesAndPrints [] (some 10)).after 6).path.memory
        = (Memory.ofCells storesAndPrints.cells).write 9 (.data 7) ∧
      ∃ earlier, ((load storesAndPrints [] (some 10)).after 6).events = earlier ++ [.halted 8] := by
  have hmoves : ∀ k < 6, ¬ ((load storesAndPrints [] (some 10)).after k).OverflowsPc := by
    intro k hk hoverflows
    obtain ⟨-, action, hstop, -⟩ := hoverflows
    have hnone : ((load storesAndPrints [] (some 10)).after k).cycleStoppedBy = none := by
      rcases k with _ | _ | _ | _ | _ | _ | k
      · rfl
      · rfl
      · rfl
      · rfl
      · rfl
      · rfl
      · omega
    rw [hnone] at hstop
    cases hstop
  rcases events_mirror storesAndPrints [] (some 10) 6 hmoves with
    ⟨-, hmemory, houtput, -, hlast⟩
  rcases hlast rfl with ⟨earlier, hevents, -⟩
  exact ⟨rfl, houtput.symm.trans (by decide), hmemory.symm.trans rfl, earlier, hevents⟩

end Machine

end AccumulatorMachine
