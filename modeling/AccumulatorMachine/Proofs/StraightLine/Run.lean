import AccumulatorMachine.Proofs.Machine.Placement

/-!
# Straight-Line Code

What a machine does whose code never jumps.

Code in which every instruction moves on by one can be read without a program counter. Its
instructions are applied to a core one after another, which is `Core.runAll`, and the first fault
is the end. Code that is put together from pieces is run piece by piece, so what an expression or a
statement does can be said on its own and the meanings are composed.

A machine that holds such code does the same. It passes through the code in as many steps as there
are instructions, and then it fetches from the address behind the code and halts. So the bound on
the steps of a run is never met.

## Main definitions

* `Core.runAll`: Instructions applied one after another.

## Theorems

* `Core.runAll_append`: Code is run piece by piece.
* `Core.runAll_error`: A fault comes up in one of the instructions.
* `Straight.passes`: A machine passes through straight code as the core says.
* `Straight.halts`: A machine halts behind straight code that has no fault.
* `Straight.fails`: A machine fails where straight code has a fault.
-/

namespace AccumulatorMachine

namespace Core

/-- The core after instructions that are run one after another, wherever they would move. -/
def runAll : List Instruction → Core → Except Fault Core
  | [], c => .ok c
  | i :: code, c => do
    let (c, _) ← c.effect i
    runAll code c

theorem runAll_append (first second : List Instruction) (c : Core) :
    runAll (first ++ second) c = (do runAll second (← runAll first c)) := by
  induction first generalizing c with
  | nil => rfl
  | cons i rest ih =>
    rw [List.cons_append, runAll, runAll]
    cases he : c.effect i with
    | error fault => rfl
    | ok result => exact ih result.1

theorem runAll_append_of_ok {first : List Instruction} {c c' : Core}
    (h : runAll first c = .ok c') (second : List Instruction) :
    runAll (first ++ second) c = runAll second c' := by
  rw [runAll_append, h]
  rfl

/-- A fault comes up in one of the instructions, after those before it. -/
theorem runAll_error {code : List Instruction} {c : Core} {fault : Fault}
    (h : runAll code c = .error fault) :
    ∃ first i rest c', code = first ++ i :: rest ∧ runAll first c = .ok c' ∧
      c'.effect i = .error fault := by
  induction code generalizing c with
  | nil => cases h
  | cons i rest ih =>
    rw [runAll] at h
    cases he : c.effect i with
    | error other =>
      rw [he] at h
      cases h
      exact ⟨[], i, rest, c, rfl, rfl, he⟩
    | ok result =>
      rw [he] at h
      rcases ih h with ⟨first, j, last, c', rfl, hfirst, hj⟩
      refine ⟨i :: first, j, last, c', rfl, ?_, hj⟩
      rw [runAll, he]
      exact hfirst

end Core

namespace Straight

section Machine

variable {code piece : List Instruction} {base : Nat} {m : Machine} {c c' : Core}
  (hcode : Straight code) (hmax : (code.length : Int) ≤ Word.maximum) (hapart : StoresApart code)
  (hsits : Fragment.Sits piece code base) (hat : m.At base c) (hready : c.memory.Ready code)

include hcode hmax hapart hsits hat hready

/-- A machine passes through a piece of straight code with as many steps as it has instructions. -/
theorem passes (hrun : Core.runAll piece c = .ok c') :
    ∃ m', Machine.Passes 0 code.length piece.length m m' ∧
      m'.At ((base + piece.length : Nat) : Int) c' ∧ c'.memory.Ready code := by
  -- The induction is on the piece. Each instruction is one step, and the rest sits one further on.
  induction piece generalizing base m c with
  | nil =>
    cases hrun
    exact ⟨m, Machine.Passes.stay m, hat, hready⟩
  | cons i rest ih =>
    rcases Outcome.bind_ok hrun with ⟨⟨mid, distance⟩, he, hrest⟩
    have hi : code[base]? = some i := hsits.get 0 i rfl
    have hmem : i ∈ code := List.mem_of_getElem? hi
    have hlt : base < code.length := (List.getElem?_eq_some_iff.mp hi).1
    have hone : distance = 1 := hcode i hmem distance (Core.effect_distance he)
    rcases Machine.step_of_holds hmax hat hready.holds hi (hcode.runs hmem) (hcode.reads hmem)
      (hcode.stays hi) he with ⟨next, hstep, hnext⟩
    rw [hone] at hnext
    rcases ih hsits.tail (show next.At ((base + 1 : Nat) : Int) mid from hnext)
      (hready.effect hapart hmem he) hrest with ⟨m', hpass, hat', hready'⟩
    have hpc := hat.pc_eq
    have hplace : base + 1 + rest.length = base + (i :: rest).length := by
      rw [List.length_cons]
      omega
    rw [hplace] at hat'
    exact ⟨m', Machine.Passes.step hat.running (by omega) (by omega) hstep hpass, hat', hready'⟩

/-- A machine fails where a piece of straight code has a fault. -/
theorem fails {fault : Fault} (hrun : Core.runAll piece c = .error fault) :
    ∃ p m' tick, p < piece.length ∧ ∀ n, Machine.runFor (p + (n + 1)) m
      = (m', some ⟨fault, ((base + p : Nat) : Int), tick⟩) := by
  -- The instructions before the fault are passed through.
  rcases Core.runAll_error hrun with ⟨first, i, rest, mid, rfl, hfirst, he⟩
  rcases hsits.append with ⟨hsits1, hsits2⟩
  rcases passes hcode hmax hapart hsits1 hat hready hfirst with ⟨m1, hpass, hat1, hready1⟩
  have hi : code[base + first.length]? = some i := hsits2.get 0 i rfl
  rcases Machine.step_fault_of_holds hat1 hready1.holds hi
    (hcode.runs (List.mem_of_getElem? hi)) he with ⟨m', tick, hstep⟩
  refine ⟨first.length, m', tick, by simp, fun n => ?_⟩
  rw [hpass.runFor_add, Machine.runFor, if_neg (by rw [hat1.running]; decide), hstep]

omit hsits hat in
/-- A machine halts behind straight code that has no fault. -/
theorem halts (hat : m.At 0 c) (hrun : Core.runAll code c = .ok c') :
    ∃ m', m'.halted = true ∧ m'.core = c' ∧
      ∀ n, Machine.runFor (code.length + (n + 1)) m = (m', none) := by
  rcases passes hcode hmax hapart (Fragment.Sits.refl code) (show m.At ((0 : Nat) : Int) c from hat)
    hready hrun with ⟨m1, hpass, hat1, hready1⟩
  rw [Nat.zero_add] at hat1
  -- No cell is behind the code, so the fetch there halts.
  rcases Machine.step_of_absent hat1 hready1.ends with ⟨m', hstep, hhalted, -, hcore⟩
  refine ⟨m', hhalted, hcore, fun n => ?_⟩
  rw [hpass.runFor_add, Machine.runFor, if_neg (by rw [hat1.running]; decide), hstep]
  exact Machine.runFor_of_halted hhalted n

end Machine

end Straight

end AccumulatorMachine
