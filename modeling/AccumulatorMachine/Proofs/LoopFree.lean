import AccumulatorMachine.Proofs.Structured.Interpreter

/-!
# Programs without Loops

Which cells a run through a program without loops leaves alone.

The code of a statement that is no part of a loop is left only over its end. So a machine that runs
a program without loops never comes back to a block it has left. Wherever it is, it has only run
code of the blocks up to there, and a cell that none of them stores to is as it was at the start.

That is `Compiled.Untouched`, which speaks of a machine and its place. It holds at the start, every
step keeps it, and so it holds for every machine that is still running.

## Main definitions

* `Program.LoopFree`: A program without loops.
* `Compiled.Spares`: Blocks that do not store to a cell.
* `Compiled.Untouched`: A machine that has left alone what the blocks up to its place spare.

## Theorems

* `Compiled.step_inBlock`: A step in a block stays in it or leads to its end.
* `Compiled.Untouched.step`: A step leaves alone what the blocks spare.
* `Program.untouched_of_runFor`: So does a run.
-/

namespace AccumulatorMachine

/-- A program none of whose statements starts or ends a loop. -/
def Program.LoopFree (program : Program) : Prop := ∀ s ∈ program.statements, s.form.Plain

namespace Compiled

/-- No block up to the one at an index stores to a cell. -/
def Spares (compiled : Compiled) (k : Nat) (a : Int) : Prop :=
  ∀ j ≤ k, ∀ block, compiled.blocks[j]? = some block → ⟨.write, a⟩ ∉ block.code

/-- A running machine at a place in the code, which the memory still holds, where every cell that
    the blocks up to this place spare is as at the start. -/
structure Untouched (compiled : Compiled) (m : Machine) (p : Nat) (c : Core) : Prop where
  place : m.At p c
  inCode : p ≤ compiled.code.length
  ready : c.memory.Ready compiled.code
  cells : ∀ k a, p < compiled.start (k + 1) → compiled.Spares k a →
    c.memory.read a = compiled.memory.read a

variable {program : Program} {dataBase : Int} {compiled : Compiled}
  (h : program.compile dataBase = .ok compiled) (hfree : program.LoopFree)
  (hapart : compiled.KeepsApart dataBase)
  (hmax : (compiled.code.length : Int) ≤ Word.maximum)

include h hapart in
theorem untouched_load (input : List Char) : compiled.Untouched (.load compiled.image input none) 0
    (Store.core ⟨compiled.memory, input, false, []⟩) where
  place := compiled.load_at input
  inCode := Nat.zero_le _
  ready := Program.compile_ready h hapart
  cells := fun _ _ _ _ => rfl

include h hfree hmax

/-- A step in a block is that of one of its instructions, and leads to a place in the block or to
    its end. -/
theorem step_inBlock {m m' : Machine} {p j : Nat} {c : Core} (hat : m.At p c)
    (hready : c.memory.Ready compiled.code) (hp : compiled.InBlock j p)
    (hstep : m.step = (m', none)) :
    ∃ block i c' distance q, compiled.blocks[j]? = some block ∧ i ∈ block.code ∧
      i ∈ compiled.code ∧ c.effect i = .ok (c', distance) ∧ m'.At (q : Nat) c' ∧
      compiled.start j ≤ q ∧ q ≤ compiled.start (j + 1) := by
  rcases hp with ⟨block, hblock, hlow, hhigh⟩
  have hj : j < program.statements.length := by
    rw [← Program.compile_length h]
    exact (List.getElem?_eq_some_iff.mp hblock).1
  rcases Program.compile_plain h (List.getElem?_eq_getElem hj)
    (hfree _ (List.getElem_mem hj)) with ⟨_, hblock', hself⟩
  rw [hblock] at hblock'
  cases hblock'
  -- The machine is at the instruction number `r` of the block.
  obtain ⟨r, rfl⟩ : ∃ r, p = compiled.start j + r := ⟨p - compiled.start j, by omega⟩
  have hi : block.code[r]? = some block.code[r] := List.getElem?_eq_getElem (by omega)
  have hmem := List.mem_of_getElem? hi
  have hfits := hself.fits (compiled.sits hblock)
  have hcode := hfits.get r _ hi
  cases he : c.effect block.code[r] with
  | error fault =>
    rcases Machine.step_fault_of_holds hat hready.holds hcode (hfits.runs _ hmem) he with
      ⟨_, _, hfault⟩
    rw [hstep] at hfault
    cases hfault
  | ok result =>
    obtain ⟨c', distance⟩ := result
    rcases Machine.step_of_holds hmax hat hready.holds hcode (hfits.runs _ hmem)
      (hfits.reads _ hmem) (hfits.stays r _ hi) he with ⟨_, hstep', hat'⟩
    rw [hstep] at hstep'
    cases hstep'
    have hstays := hself.stays r _ hi _ (Core.effect_distance he)
    have hnext := Compiled.start_succ hblock
    obtain ⟨q, hq⟩ : ∃ q : Nat, (q : Int) = (compiled.start j + r : Nat) + distance :=
      ⟨((compiled.start j + r : Nat) + distance).toNat, by omega⟩
    exact ⟨block, _, c', distance, q, hblock, hmem, List.mem_of_getElem? hcode, he, hq ▸ hat',
      by omega, by omega⟩

include hapart

/-- A step leaves alone what the blocks spare, unless it halts. -/
theorem Untouched.step {m m' : Machine} {p : Nat} {c : Core} (hm : compiled.Untouched m p c)
    (hstep : m.step = (m', none)) (hrun : m'.halted = false) :
    ∃ q c', compiled.Untouched m' q c' := by
  have hplace := hm.inCode
  by_cases hend : p = compiled.code.length
  · -- Behind the code there is no cell, so the machine would have halted.
    subst hend
    rcases Machine.step_of_absent hm.place hm.ready.ends with ⟨_, hhalt, hhalted, -⟩
    rw [hstep] at hhalt
    cases hhalt
    rw [hhalted] at hrun
    cases hrun
  · rcases compiled.inBlock_of_lt (by omega : p < compiled.code.length) with ⟨j, hin⟩
    rcases step_inBlock h hfree hmax hm.place hm.ready hin hstep with
      ⟨block, i, c', distance, q, hblock, hi, hcode, he, hat, hlow, hhigh⟩
    have hlength := compiled.start_le (j + 1)
    refine ⟨q, c', hat, by omega,
      hm.ready.effect (Program.compile_storesApart h hapart) hcode he, fun k a hk ha => ?_⟩
    -- The block of the step is among those that spare the cell.
    have hjk : j ≤ k := by
      by_contra hlt
      have hle : compiled.start (k + 1) ≤ compiled.start j := Compiled.start_mono (by omega)
      omega
    rw [Core.read_effect he fun hop heq => ha j hjk block hblock ?_]
    · rcases hin with ⟨_, hblock', -, hbelow⟩
      rw [hblock] at hblock'
      cases hblock'
      have hnext := Compiled.start_succ hblock
      have hle : compiled.start (j + 1) ≤ compiled.start (k + 1) := Compiled.start_mono (by omega)
      exact hm.cells k a (by omega) ha
    · rw [← hop, ← heq]
      exact hi

/-- A run leaves alone what the blocks up to its place spare. -/
theorem Untouched.runFor {n p : Nat} {m m' : Machine} {c : Core} (hm : compiled.Untouched m p c)
    (hsteps : Machine.runFor n m = (m', none)) (hrun : m'.halted = false) :
    ∃ q c', compiled.Untouched m' q c' := by
  induction n generalizing m p c with
  | zero =>
    cases hsteps
    exact ⟨p, c, hm⟩
  | succ n ih =>
    rw [Machine.runFor, if_neg (by rw [hm.place.running]; decide)] at hsteps
    rcases hstep : m.step with ⟨mid, _ | failure⟩
    · simp only [hstep] at hsteps
      -- A machine that had halted in between would still be halted at the end.
      have hmid : mid.halted = false := by
        refine Bool.eq_false_iff.mpr fun hhalted => ?_
        rw [Machine.runFor_of_halted hhalted] at hsteps
        cases hsteps
        rw [hhalted] at hrun
        cases hrun
      rcases hm.step h hfree hapart hmax hstep hmid with ⟨q, c', hm'⟩
      exact ih hm' hsteps
    · simp only [hstep] at hsteps
      cases hsteps

end Compiled

/-- A machine that runs a program without loops leaves alone what the blocks up to its place
    spare. -/
theorem Program.untouched_of_runFor {program : Program} {dataBase : Int} {compiled : Compiled}
    (h : program.compile dataBase = .ok compiled) (hfree : program.LoopFree)
    (hapart : compiled.KeepsApart dataBase)
    (hmax : (compiled.code.length : Int) ≤ Word.maximum) {input : List Char} {n : Nat}
    {m : Machine} (hsteps : Machine.runFor n (.load compiled.image input none) = (m, none))
    (hrun : m.halted = false) : ∃ p c, compiled.Untouched m p c :=
  (Compiled.untouched_load h hapart input).runFor h hfree hapart hmax hsteps hrun

end AccumulatorMachine
