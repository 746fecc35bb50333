import Mathlib.Logic.Relation
import AccumulatorMachine.Proofs.Machine.Effect
import AccumulatorMachine.Proofs.Outcome

/-!
# Pieces of Code

What a list of instructions does on its own, with places counted from its start.

The effect of an instruction is relative, so a piece of code can be run without a machine around
it. `Fragment.Step` does one instruction of it. The code of a statement is never left except over
its end, which `SelfContained` demands of its moves, so a run of it has one of three outcomes: it
finishes at the end, it faults, or it hangs.

A statement of the source language knows nothing of an accumulator. Its code begins with a load
or with an input, which overwrites the accumulator and the flags whatever they were. The outcome
is therefore a function of the `Store` alone, and the three outcomes are stated for a store. The
lemmas named `congr` carry them over to any core with that store.

## Main definitions

* `Instruction.distances`: The moves an instruction may make.
* `Instruction.ticks`: The ticks an instruction takes.
* `Fragment.Step`, `Fragment.Steps`: Running code on its own.
* `Fragment.Takes`: Running code on its own, with a count of its instructions and ticks.
* `Fragment.SelfContained`: Code that is left only over its end.
* `Straight`: Code that always moves on by one.
* `Store`: A core without its accumulator and flags.
* `Fragment.Finishes`, `Fragment.Faults`, `Fragment.Hangs`: The outcomes of code.

## Theorems

* `Core.read_effect`: Only a store changes the memory, and only in one cell.
* `Core.effect_distance`: An instruction moves by one of its distances.
* `Fragment.Step.unique`: There is at most one next step.
* `Fragment.SelfContained.outcome`: Every run finishes, faults or hangs.
* `Fragment.Steps.unique`: Runs that are stuck are stuck in the same place.
* `Fragment.Finishes.unique`, `Fragment.Faults.unique`, `Fragment.Finishes.not_faults`,
  `Fragment.Finishes.not_hangs`, `Fragment.Faults.not_hangs`: Code has only one outcome.
-/

namespace AccumulatorMachine

/-- The distances by which an instruction may move the program counter. -/
def Instruction.distances (i : Instruction) : List Int :=
  match i.opcode with
  | .jump => [i.operand]
  | .skip .. => [1, 2]
  | .input => [1, i.operand + 1]
  | .halt => [0]
  | _ => [1]

/-- The number of ticks that an instruction takes, its fetch included. Two instructions load an
    address in a tick of its own. -/
def Instruction.ticks (i : Instruction) : Nat :=
  match i.opcode with
  | .readAddress | .writeAddress => 3
  | .halt => 1
  | _ => 2

namespace Core

theorem memory_compute {c c' : Core} {op : ArithmeticOp} {a : Int} (h : c.compute op a = .ok c') :
    c'.memory = c.memory := by
  rcases Outcome.bind_ok h with ⟨cell, -, hrest⟩
  rcases Outcome.bind_ok hrest with ⟨value, -, hpure⟩
  cases hpure
  rfl

theorem memory_readInput {c c' : Core} {mode : Int} (h : c.readInput mode = .ok c') :
    c'.memory = c.memory := by
  rw [readInput] at h
  by_cases hmode : mode = integerMode
  · rw [if_pos hmode] at h
    cases hvalue : inputInteger? c.input with
    | none => simp only [hvalue] at h; cases h
    | some value => simp only [hvalue] at h; cases h; rfl
  · rw [if_neg hmode] at h
    cases hinput : c.input with
    | nil => simp only [hinput] at h; cases h; rfl
    | cons ch input => simp only [hinput] at h; cases h; rfl

theorem memory_print {c c' : Core} {mode : Int} (h : c.print mode = .ok c') :
    c'.memory = c.memory := by
  rw [print] at h
  by_cases hmode : mode = characterMode
  · rw [if_pos hmode] at h
    cases hchar : charOfCode? c.acc with
    | none => simp only [hchar] at h; cases h
    | some ch => simp only [hchar] at h; cases h; rfl
  · rw [if_neg hmode] at h
    cases h
    rfl

/-- Only a store changes the memory, and only in one cell. -/
theorem read_effect {c c' : Core} {i : Instruction} {distance : Int}
    (h : c.effect i = .ok (c', distance)) {a : Int} (ha : i.opcode = .write → i.operand ≠ a) :
    c'.memory.read a = c.memory.read a := by
  obtain ⟨opcode, operand⟩ := i
  cases opcode with
  | write =>
    cases h
    -- The one cell that is stored to is not the one in question.
    have hne : a ≠ operand := fun hc => ha rfl hc.symm
    rw [store, Memory.read_write, if_neg hne]
  | jump => cases h; rfl
  | skip condition negated => cases h; rfl
  | readAddress => cases h; rfl
  | halt => cases h; rfl
  | input =>
    rcases Outcome.bind_ok h with ⟨mid, hmid, hpure⟩
    cases hpure
    rw [memory_readInput hmid]
  | output =>
    rcases Outcome.bind_ok h with ⟨mid, hmid, hpure⟩
    cases hpure
    rw [memory_print hmid]
  | read | add | subtract | multiply | divide | writeAddress =>
    rcases Outcome.bind_ok h with ⟨mid, hmid, hpure⟩
    cases hpure
    rw [memory_compute hmid]

theorem effect_distance {c c' : Core} {i : Instruction} {distance : Int}
    (h : c.effect i = .ok (c', distance)) : distance ∈ i.distances := by
  obtain ⟨opcode, operand⟩ := i
  cases opcode with
  | write | jump | readAddress | halt =>
    cases h
    exact List.mem_singleton_self _
  | skip condition negated =>
    cases h
    by_cases hc : (condition.holds c.zero c.signed != negated) = true
    · simp only [Instruction.distances, if_pos hc]
      decide
    · simp only [Instruction.distances, if_neg hc]
      decide
  | input =>
    rcases Outcome.bind_ok h with ⟨mid, hmid, hpure⟩
    cases hpure
    -- Without input the machine moves on by the operand and one more.
    by_cases hx : c'.exhausted = true
    · rw [if_pos hx]
      exact List.mem_cons_of_mem _ List.mem_cons_self
    · rw [if_neg hx]
      exact List.mem_cons_self
  | output | read | add | subtract | multiply | divide | writeAddress =>
    rcases Outcome.bind_ok h with ⟨mid, hmid, hpure⟩
    cases hpure
    exact List.mem_singleton_self _

end Core

namespace Fragment

/-- A piece of code that runs on its own: one instruction, from a place in it to the next. -/
inductive Step (code : List Instruction) : Nat × Core → Nat × Core → Prop
  | mk {p q : Nat} {c c' : Core} {i : Instruction} {distance : Int} (hi : code[p]? = some i)
      (he : c.effect i = .ok (c', distance)) (hq : (q : Int) = p + distance) :
      Step code (p, c) (q, c')

/-- Any number of instructions. -/
abbrev Steps (code : List Instruction) : Nat × Core → Nat × Core → Prop :=
  Relation.ReflTransGen (Step code)

/-- The number of ticks that the instruction at a place takes. -/
def ticksAt (code : List Instruction) (p : Nat) : Nat := (code[p]?.map Instruction.ticks).getD 0

/-- A number of instructions, and the number of ticks that they take together. -/
inductive Takes (code : List Instruction) : Nat → Nat → Nat × Core → Nat × Core → Prop
  | refl (x : Nat × Core) : Takes code 0 0 x x
  | tail {n ticks : Nat} {x y z : Nat × Core} (h : Takes code n ticks x y) (hstep : Step code y z) :
      Takes code (n + 1) (ticks + ticksAt code y.1) x z

namespace Takes

variable {code : List Instruction} {n n' ticks ticks' : Nat} {x y z : Nat × Core}

/-- Counts can be written in another way. -/
theorem of_eq (h : Takes code n ticks x y) (hn : n = n') (hticks : ticks = ticks') :
    Takes code n' ticks' x y := by
  rw [← hn, ← hticks]
  exact h

theorem single (h : Step code x y) : Takes code 1 (ticksAt code x.1) x y :=
  ((refl x).tail h).of_eq (Nat.zero_add _) (Nat.zero_add _)

theorem trans (h : Takes code n ticks x y) (h' : Takes code n' ticks' y z) :
    Takes code (n + n') (ticks + ticks') x z := by
  induction h' with
  | refl => exact h
  | tail _ hstep ih =>
    rw [← Nat.add_assoc, ← Nat.add_assoc]
    exact (ih h).tail hstep

theorem steps (h : Takes code n ticks x y) : Steps code x y := by
  induction h with
  | refl => exact Relation.ReflTransGen.refl
  | tail _ hstep ih => exact ih.tail hstep

end Takes

theorem Step.unique {code : List Instruction} {x y z : Nat × Core} (hy : Step code x y)
    (hz : Step code x z) : y = z := by
  cases hy with
  | mk hi he hq =>
    cases hz with
    | mk hi' he' hq' =>
      -- The instruction is the same, its effect is a function, and so is the next place.
      rw [hi] at hi'
      cases hi'
      rw [he] at he'
      cases he'
      exact Prod.ext (by omega) rfl

/-- Code whose moves stay inside it or lead to its end, and that starts with an instruction that
    overwrites the accumulator. -/
structure SelfContained (code : List Instruction) : Prop where
  runs : ∀ i ∈ code, i.opcode ≠ .halt
  reads : ∀ i ∈ code, i.opcode = .input → 0 ≤ i.operand
  stays : ∀ (p : Nat) (i : Instruction), code[p]? = some i →
    ∀ d ∈ i.distances, 0 ≤ p + d ∧ p + d ≤ code.length
  starts : ∀ i, code[0]? = some i →
    i.opcode = .read ∨ i.opcode = .input ∧ i.operand = integerMode

end Fragment

/-- Code that always moves on by one: no instruction of it jumps, skips or halts, and where it reads
    it reads integers. -/
def Straight (code : List Instruction) : Prop := ∀ i ∈ code, ∀ d ∈ i.distances, d = 1

namespace Straight

theorem nil : Straight [] := by simp [Straight]

variable {code : List Instruction} {i : Instruction}

theorem runs (h : Straight code) (hi : i ∈ code) : i.opcode ≠ .halt := by
  intro hop
  have hmem : 0 ∈ i.distances := by
    rw [Instruction.distances, hop]
    exact List.mem_cons_self
  have := h i hi 0 hmem
  omega

theorem reads (h : Straight code) (hi : i ∈ code) (hop : i.opcode = .input) : 0 ≤ i.operand := by
  have hmem : i.operand + 1 ∈ i.distances := by
    rw [Instruction.distances, hop]
    exact List.mem_cons_of_mem _ List.mem_cons_self
  have := h i hi _ hmem
  omega

theorem stays (h : Straight code) {p : Nat} (hi : code[p]? = some i) :
    ∀ d ∈ i.distances, 0 ≤ (p : Int) + d ∧ (p : Int) + d ≤ code.length := by
  intro d hd
  have hlt : p < code.length := (List.getElem?_eq_some_iff.mp hi).1
  have hone := h i (List.mem_of_getElem? hi) d hd
  omega

end Straight

namespace Fragment

theorem SelfContained.of_straight {code : List Instruction} (h : Straight code)
    (hstarts : ∀ i, code[0]? = some i →
      i.opcode = .read ∨ i.opcode = .input ∧ i.operand = integerMode) : SelfContained code where
  runs := fun _ hi => h.runs hi
  reads := fun _ hi => h.reads hi
  stays := fun _ _ hi => h.stays hi
  starts := hstarts

theorem Step.le_length {code : List Instruction} (hcode : SelfContained code)
    {x y : Nat × Core} (h : Step code x y) : y.1 ≤ code.length := by
  cases h with
  | mk hi he hq =>
    have := hcode.stays _ _ hi _ (Core.effect_distance he)
    omega

theorem Steps.le_length {code : List Instruction} (hcode : SelfContained code)
    {x y : Nat × Core} (h : Steps code x y) (hx : x.1 ≤ code.length) : y.1 ≤ code.length := by
  induction h with
  | refl => exact hx
  | tail _ hstep _ => exact hstep.le_length hcode

/-- Inside the code there is always a next step or a fault. -/
theorem SelfContained.progress {code : List Instruction} (hcode : SelfContained code) {p : Nat}
    (hp : p < code.length) (c : Core) :
    (∃ y, Step code (p, c) y) ∨ ∃ i fault, code[p]? = some i ∧ c.effect i = .error fault := by
  have hi : code[p]? = some code[p] := List.getElem?_eq_getElem hp
  -- An instruction has an effect, which stays inside, or a fault.
  cases he : c.effect code[p] with
  | error fault => exact Or.inr ⟨code[p], fault, hi, he⟩
  | ok result =>
    obtain ⟨c', distance⟩ := result
    have hstay := hcode.stays _ _ hi _ (Core.effect_distance he)
    exact Or.inl ⟨((p + distance).toNat, c'), Step.mk hi he (by omega)⟩

end Fragment

/-- What a statement can see of a machine. -/
structure Store where
  memory : Memory
  input : List Char
  /-- Whether a character was read when there was none. -/
  exhausted : Bool
  /-- The tokens that have been printed, the newest one first. -/
  printed : List String

/-- The store of a core. -/
def Core.toStore (c : Core) : Store := ⟨c.memory, c.input, c.exhausted, c.printed⟩

/-- A core with a given store and an accumulator that was never written. -/
def Store.core (s : Store) : Core where
  memory := s.memory
  acc := 0
  zero := false
  signed := false
  exhausted := s.exhausted
  input := s.input
  printed := s.printed

namespace Fragment

variable {code : List Instruction} {s s' : Store}

/-- The code runs from its start to its end. -/
def Finishes (code : List Instruction) (s s' : Store) : Prop :=
  ∃ c, Steps code (0, s.core) (code.length, c) ∧ c.toStore = s'

/-- The code runs into a fault. -/
def Faults (code : List Instruction) (s : Store) (fault : Fault) : Prop :=
  ∃ p c i, Steps code (0, s.core) (p, c) ∧ code[p]? = some i ∧ c.effect i = .error fault

/-- The code runs forever. -/
def Hangs (code : List Instruction) (s : Store) : Prop :=
  ∀ x, Steps code (0, s.core) x → ∃ y, Step code x y

/-- Whatever code does, it finishes, runs into a fault or runs forever. -/
theorem SelfContained.outcome (hcode : SelfContained code) (s : Store) :
    (∃ s', Finishes code s s') ∨ (∃ fault, Faults code s fault) ∨ Hangs code s := by
  -- A run that does not go on forever comes to a place without a next step.
  by_cases hhangs : Hangs code s
  · exact Or.inr (Or.inr hhangs)
  · simp only [Hangs, Classical.not_forall] at hhangs
    rcases hhangs with ⟨⟨p, c⟩, hreach, hstuck⟩
    have hle : p ≤ code.length := hreach.le_length hcode (Nat.zero_le _)
    by_cases hp : p = code.length
    · exact Or.inl ⟨c.toStore, c, hp ▸ hreach, rfl⟩
    · rcases hcode.progress (by omega : p < code.length) c with hstep | ⟨i, fault, hi, he⟩
      · exact absurd hstep hstuck
      · exact Or.inr (Or.inl ⟨fault, p, c, i, hreach, hi, he⟩)

/-- The first instruction overwrites the accumulator, so code depends on the store alone. -/
theorem SelfContained.effect_congr (hcode : SelfContained code) {i : Instruction}
    (hi : code[0]? = some i) {c d : Core} (h : c.toStore = d.toStore) :
    c.effect i = d.effect i := by
  obtain ⟨opcode, operand⟩ := i
  obtain ⟨memory, acc, zero, signed, exhausted, input, printed⟩ := c
  obtain ⟨memory', acc', zero', signed', exhausted', input', printed'⟩ := d
  simp only [Core.toStore, Store.mk.injEq] at h
  rcases h with ⟨rfl, rfl, rfl, rfl⟩
  -- A read and an input of an integer both set the accumulator and the flags anew.
  rcases hcode.starts _ hi with hop | ⟨hop, hmode⟩
  · cases hop
    rw [Core.effect, Core.effect]
    simp only [Core.compute, Core.load]
    cases memory.read operand with
    | none => rfl
    | some cell => cases cell <;> rfl
  · cases hop
    cases hmode
    rw [Core.effect, Core.effect]
    simp only [Core.readInput]
    cases inputInteger? input <;> rfl

theorem SelfContained.step_congr (hcode : SelfContained code) {c d : Core}
    (h : c.toStore = d.toStore) {y : Nat × Core} (hstep : Step code (0, c) y) :
    Step code (0, d) y := by
  cases hstep with
  | mk hi he hq => exact Step.mk hi (hcode.effect_congr hi h ▸ he) hq

/-- A run can start with other contents of the accumulator. -/
theorem SelfContained.steps_congr (hcode : SelfContained code) {c d : Core}
    (h : c.toStore = d.toStore) {x : Nat × Core} (hsteps : Steps code (0, c) x) :
    x = (0, c) ∨ Steps code (0, d) x := by
  rcases Relation.ReflTransGen.cases_head hsteps with heq | ⟨y, hstep, hrest⟩
  · exact Or.inl heq.symm
  · exact Or.inr (Relation.ReflTransGen.head (hcode.step_congr h hstep) hrest)

theorem SelfContained.finishes_congr (hcode : SelfContained code) (h : Finishes code s s')
    {c : Core} (hc : c.toStore = s) :
    ∃ c', Steps code (0, c) (code.length, c') ∧ c'.toStore = s' := by
  rcases h with ⟨c', hsteps, hc'⟩
  rcases hcode.steps_congr (show s.core.toStore = c.toStore from hc.symm) hsteps with heq | hsteps
  · -- The code is empty, and any core is at its start and at its end.
    rcases Prod.mk.inj heq with ⟨hlen, rfl⟩
    exact ⟨c, hlen ▸ Relation.ReflTransGen.refl, hc.trans hc'⟩
  · exact ⟨c', hsteps, hc'⟩

theorem SelfContained.faults_congr (hcode : SelfContained code) {fault : Fault}
    (h : Faults code s fault) {c : Core} (hc : c.toStore = s) :
    ∃ p c' i, Steps code (0, c) (p, c') ∧ code[p]? = some i ∧ c'.effect i = .error fault := by
  rcases h with ⟨p, c', i, hsteps, hi, he⟩
  rcases hcode.steps_congr (show s.core.toStore = c.toStore from hc.symm) hsteps with heq | hsteps
  · -- The fault is in the first instruction, where the accumulator does not matter.
    cases heq
    refine ⟨0, c, i, Relation.ReflTransGen.refl, hi, ?_⟩
    rw [hcode.effect_congr hi (show c.toStore = s.core.toStore from hc)]
    exact he
  · exact ⟨p, c', i, hsteps, hi, he⟩

theorem SelfContained.hangs_congr (hcode : SelfContained code) (h : Hangs code s) {c : Core}
    (hc : c.toStore = s) {x : Nat × Core} (hsteps : Steps code (0, c) x) :
    ∃ y, Step code x y := by
  rcases hcode.steps_congr (show c.toStore = s.core.toStore from hc) hsteps with rfl | hsteps
  · rcases h _ Relation.ReflTransGen.refl with ⟨y, hstep⟩
    exact ⟨y, hcode.step_congr (show s.core.toStore = c.toStore from hc.symm) hstep⟩
  · exact h x hsteps

/-- The end of code has no next step. -/
theorem not_step_of_end {c : Core} {y : Nat × Core} : ¬ Step code (code.length, c) y := by
  intro h
  cases h with
  | mk hi he hq =>
    rw [List.getElem?_eq_none (Nat.le_refl _)] at hi
    cases hi

/-- A fault has no next step. -/
theorem not_step_of_fault {p : Nat} {c : Core} {i : Instruction} {fault : Fault}
    (hi : code[p]? = some i) (he : c.effect i = .error fault) {y : Nat × Core} :
    ¬ Step code (p, c) y := by
  intro h
  cases h with
  | mk hi' he' hq =>
    rw [hi] at hi'
    cases hi'
    rw [he] at he'
    cases he'

/-- Two ways to get to places without a next step lead to the same place. -/
theorem Steps.unique {x y z : Nat × Core} (hy : Steps code x y) (hz : Steps code x z)
    (hy' : ∀ w, ¬ Step code y w) (hz' : ∀ w, ¬ Step code z w) : y = z := by
  have hunique : Relator.RightUnique (Step code) := fun _ _ _ h1 h2 => h1.unique h2
  -- One of the two runs is the beginning of the other, and cannot go on.
  rcases Relation.ReflTransGen.total_of_right_unique hunique hy hz with h | h
  · rcases Relation.ReflTransGen.cases_head h with heq | ⟨w, hstep, -⟩
    · exact heq
    · exact absurd hstep (hy' w)
  · rcases Relation.ReflTransGen.cases_head h with heq | ⟨w, hstep, -⟩
    · exact heq.symm
    · exact absurd hstep (hz' w)

theorem Finishes.unique {s'' : Store} (h : Finishes code s s') (h' : Finishes code s s'') :
    s' = s'' := by
  rcases h with ⟨c, hsteps, rfl⟩
  rcases h' with ⟨c', hsteps', rfl⟩
  have heq := hsteps.unique hsteps' (fun _ => not_step_of_end) (fun _ => not_step_of_end)
  cases heq
  rfl

theorem Faults.unique {fault fault' : Fault} (h : Faults code s fault)
    (h' : Faults code s fault') : fault = fault' := by
  rcases h with ⟨p, c, i, hsteps, hi, he⟩
  rcases h' with ⟨p', c', i', hsteps', hi', he'⟩
  have heq := hsteps.unique hsteps' (fun _ => not_step_of_fault hi he)
    (fun _ => not_step_of_fault hi' he')
  cases heq
  rw [hi] at hi'
  cases hi'
  rw [he] at he'
  cases he'
  rfl

theorem Finishes.not_faults (h : Finishes code s s') (fault : Fault) : ¬ Faults code s fault := by
  rcases h with ⟨c, hsteps, -⟩
  rintro ⟨p, c', i, hsteps', hi, he⟩
  have heq := hsteps.unique hsteps' (fun _ => not_step_of_end) (fun _ => not_step_of_fault hi he)
  cases heq
  rw [List.getElem?_eq_none (Nat.le_refl _)] at hi
  cases hi

theorem Finishes.not_hangs (h : Finishes code s s') : ¬ Hangs code s := by
  rcases h with ⟨c, hsteps, -⟩
  intro hhangs
  rcases hhangs _ hsteps with ⟨y, hstep⟩
  exact not_step_of_end hstep

theorem Faults.not_hangs {fault : Fault} (h : Faults code s fault) : ¬ Hangs code s := by
  rcases h with ⟨p, c, i, hsteps, hi, he⟩
  intro hhangs
  rcases hhangs _ hsteps with ⟨y, hstep⟩
  exact not_step_of_fault hi he hstep

end Fragment

end AccumulatorMachine
