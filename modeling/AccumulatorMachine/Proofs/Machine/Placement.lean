import AccumulatorMachine.Proofs.Machine.Fragment

/-!
# Code in a Machine

A machine runs the code that its memory holds, for as long as the code does not overwrite itself.

A piece of code that was understood on its own is found again in a machine. The piece sits
somewhere in the whole code, the memory holds the whole code, and the machine stands in the piece
at some place with some core. Then each step of the piece is a step of the machine, to the same
core and to the corresponding place, and a fault of the piece is a failure of the machine.

The memory goes on holding the code because none of its stores reaches it. This is a condition on
the code, `StoresApart`, and it includes the cell behind the code, where a program ends.

## Main definitions

* `Memory.Holds`, `Memory.Ready`: A memory that holds code, and has no cell behind it.
* `StoresApart`: Code whose stores stay away from it.
* `Machine.Passes`: A run through a range of places.
* `Fragment.Sits`, `Fragment.Fits`: A piece of code inside other code.

## Theorems

* `Machine.Passes.runFor_add`: A run through places is the beginning of a longer run.
* `Machine.Passes.split`: A run through places can be stopped anywhere.
* `Memory.Ready.effect`: Code that stores apart stays in memory.
* `Fragment.machine_steps`: A machine in a piece of code does what the piece does.
* `Fragment.machine_fault`: A machine in a piece of code fails where the piece has a fault.
* `Fragment.machine_hangs`: A machine in a piece of code that runs forever does so too.
-/

namespace AccumulatorMachine

/-- The memory holds code, from address zero upwards. -/
def Memory.Holds (memory : Memory) (code : List Instruction) : Prop :=
  ∀ (n : Nat) (i : Instruction), code[n]? = some i → memory.read n = some (.code i)

namespace Machine

/-- A run from one machine to another that takes a number of steps, each of them from a place
    from `low` on and below `high`. -/
inductive Passes (low high : Int) : Nat → Machine → Machine → Prop
  | stay (m : Machine) : Passes low high 0 m m
  | step {m next m' : Machine} {k : Nat} (hrun : m.halted = false) (hlow : low ≤ m.pc)
      (hhigh : m.pc < high) (hstep : m.step = (next, none)) (hrest : Passes low high k next m') :
      Passes low high (k + 1) m m'

theorem Passes.runFor_add {low high : Int} {k : Nat} {m m' : Machine}
    (h : Passes low high k m m') (n : Nat) : runFor (k + n) m = runFor n m' := by
  induction h with
  | stay m => rw [Nat.zero_add]
  | step hrun hlow hhigh hstep hrest ih =>
    rw [Nat.add_right_comm, runFor, if_neg (by rw [hrun]; decide), hstep]
    exact ih

theorem Passes.trans {low high : Int} {k k' : Nat} {m m' m'' : Machine}
    (h : Passes low high k m m') (h' : Passes low high k' m' m'') :
    Passes low high (k + k') m m'' := by
  induction h with
  | stay m => rwa [Nat.zero_add]
  | step hrun hlow hhigh hstep hrest ih =>
    rw [Nat.add_right_comm]
    exact Passes.step hrun hlow hhigh hstep (ih h')

/-- A machine that has passed through places has made that many steps. -/
theorem Passes.runFor_eq {low high : Int} {k : Nat} {m m' : Machine} (h : Passes low high k m m') :
    runFor k m = (m', none) :=
  h.runFor_add 0

/-- A run through places can be stopped anywhere. -/
theorem Passes.split {low high : Int} {k k' : Nat} {m m'' : Machine}
    (h : Passes low high (k + k') m m'') (hk : 0 < k') :
    ∃ m', Passes low high k m m' ∧ m'.halted = false := by
  induction k generalizing m with
  | zero =>
    obtain ⟨k', rfl⟩ : ∃ n, k' = n + 1 := ⟨k' - 1, by omega⟩
    rw [Nat.zero_add] at h
    -- The first step is made from a machine that is running.
    cases h with
    | step hrun => exact ⟨m, Passes.stay m, hrun⟩
  | succ k ih =>
    rw [Nat.add_right_comm] at h
    cases h with
    | step hrun hlow hhigh hstep hrest =>
      rcases ih hrest with ⟨m', hpass, hm'⟩
      exact ⟨m', Passes.step hrun hlow hhigh hstep hpass, hm'⟩

section Step

variable {code : List Instruction} {m : Machine} {n : Nat} {c : Core} {i : Instruction}
  (hmax : (code.length : Int) ≤ Word.maximum) (h : m.At n c) (hcode : c.memory.Holds code)
  (hi : code[n]? = some i) (hrun : i.opcode ≠ .halt)
  (hread : i.opcode = .input → 0 ≤ i.operand)
  (hstay : ∀ d ∈ i.distances, 0 ≤ n + d ∧ n + d ≤ code.length)

include hmax hread hstay in
theorem input_bounds (hop : i.opcode = .input) :
    0 ≤ (n : Int) ∧ 0 ≤ i.operand ∧ n + i.operand + 1 ≤ Word.maximum := by
  have hmem : i.operand + 1 ∈ i.distances := by
    rw [Instruction.distances, hop]
    exact List.mem_cons_of_mem _ List.mem_cons_self
  have := hstay _ hmem
  have := hread hop
  omega

include h hcode hi hrun

/-- A fault in code that the memory holds. -/
theorem step_fault_of_holds {fault : Fault} (he : c.effect i = .error fault) :
    ∃ m' tick, m.step = (m', some ⟨fault, n, tick⟩) :=
  step_of_fault h (hcode n i hi) hrun he

include hmax hread hstay

/-- A step in code that the memory holds. -/
theorem step_of_holds {c' : Core} {distance : Int} (he : c.effect i = .ok (c', distance)) :
    ∃ m', m.step = (m', none) ∧ m'.At (n + distance) c' := by
  have hmin : Word.minimum ≤ 0 := by decide
  have hin := hstay distance (Core.effect_distance he)
  exact step_of_effect h (hcode n i hi) hrun (input_bounds hmax hread hstay) he
    ⟨by omega, by omega⟩

end Step

end Machine

/-- A memory that holds code, with no cell behind it. -/
structure Memory.Ready (memory : Memory) (code : List Instruction) : Prop where
  holds : memory.Holds code
  ends : memory.read code.length = none

/-- Code that stores neither into itself nor into the cell behind it. -/
def StoresApart (code : List Instruction) : Prop :=
  ∀ i ∈ code, i.opcode = .write → i.operand < 0 ∨ code.length < i.operand

theorem Memory.Ready.effect {code : List Instruction} {c c' : Core} {i : Instruction}
    {distance : Int} (h : c.memory.Ready code) (hapart : StoresApart code) (hi : i ∈ code)
    (he : c.effect i = .ok (c', distance)) : c'.memory.Ready code := by
  refine ⟨fun n j hj => ?_, ?_⟩
  · have hlt : n < code.length := (List.getElem?_eq_some_iff.mp hj).1
    -- A store that reached this address would not be apart from the code.
    rw [Core.read_effect he fun hop => ?_]
    · exact h.holds n j hj
    · have := hapart i hi hop
      omega
  · rw [Core.read_effect he fun hop => ?_]
    · exact h.ends
    · have := hapart i hi hop
      omega

namespace Fragment

/-- A piece of code stands at a place in other code. -/
structure Sits (piece code : List Instruction) (base : Nat) : Prop where
  le : base + piece.length ≤ code.length
  get : ∀ (p : Nat) (i : Instruction), piece[p]? = some i → code[base + p]? = some i

namespace Sits

theorem refl (code : List Instruction) : Sits code code 0 where
  le := by omega
  get := fun p i hi => by rwa [Nat.zero_add]

theorem append {first second code : List Instruction} {base : Nat}
    (h : Sits (first ++ second) code base) :
    Sits first code base ∧ Sits second code (base + first.length) := by
  have hle := h.le
  rw [List.length_append] at hle
  refine ⟨⟨by omega, fun p i hi => h.get p i ?_⟩, ⟨by omega, fun p i hi => ?_⟩⟩
  · rw [List.getElem?_append_left (List.getElem?_eq_some_iff.mp hi).1, hi]
  · rw [Nat.add_assoc]
    refine h.get (first.length + p) i ?_
    rw [List.getElem?_append_right (Nat.le_add_right _ _), Nat.add_sub_cancel_left, hi]

theorem tail {i : Instruction} {rest code : List Instruction} {base : Nat}
    (h : Sits (i :: rest) code base) : Sits rest code (base + 1) :=
  (append (show Sits ([i] ++ rest) code base from h)).2

end Sits

/-- A piece of code at a place in other code, none of whose moves leads out of all the code. -/
structure Fits (piece code : List Instruction) (base : Nat) : Prop
    extends Sits piece code base where
  runs : ∀ i ∈ piece, i.opcode ≠ .halt
  reads : ∀ i ∈ piece, i.opcode = .input → 0 ≤ i.operand
  stays : ∀ (p : Nat) (i : Instruction), piece[p]? = some i →
    ∀ d ∈ i.distances, 0 ≤ ((base + p : Nat) : Int) + d ∧ ((base + p : Nat) : Int) + d ≤ code.length

/-- Code that is left only over its end fits wherever it stands. -/
theorem SelfContained.fits {piece code : List Instruction} {base : Nat} (h : SelfContained piece)
    (hsits : Sits piece code base) : Fits piece code base where
  toSits := hsits
  runs := h.runs
  reads := h.reads
  stays := by
    intro p i hi d hd
    have hle := hsits.le
    have := h.stays p i hi d hd
    omega

section Simulation

variable {piece code : List Instruction} {base : Nat}
  (hmax : (code.length : Int) ≤ Word.maximum) (hapart : StoresApart code)
  (hfits : Fits piece code base)

include hmax hapart hfits

/-- A machine in a piece of code does what the piece does on its own. -/
theorem machine_step {m : Machine} {p : Nat} {c : Core} {y : Nat × Core}
    (hstep : Step piece (p, c) y) (h : m.At ↑(base + p) c) (hready : c.memory.Ready code) :
    ∃ m', Machine.Passes base ↑(base + piece.length) 1 m m' ∧ m'.At ↑(base + y.1) y.2 ∧
      y.2.memory.Ready code := by
  cases hstep with
  | mk hi he hq =>
    rename_i q c' i distance
    have hlt : p < piece.length := (List.getElem?_eq_some_iff.mp hi).1
    have hmem := List.mem_of_getElem? hi
    have hcode := hfits.get p i hi
    rcases Machine.step_of_holds hmax h hready.holds hcode (hfits.runs i hmem)
      (hfits.reads i hmem) (hfits.stays p i hi) he with ⟨m', hm', hat⟩
    have hpc := h.pc_eq
    -- The piece counts its places from the base.
    have hplace : ((base + p : Nat) : Int) + distance = ((base + q : Nat) : Int) := by omega
    refine ⟨m', Machine.Passes.step h.running (by omega) (by omega) hm' (Machine.Passes.stay m'),
      hplace ▸ hat, hready.effect hapart (List.mem_of_getElem? hcode) he⟩

theorem machine_steps {m : Machine} {x y : Nat × Core} (hsteps : Steps piece x y)
    (h : m.At ↑(base + x.1) x.2) (hready : x.2.memory.Ready code) :
    ∃ k m', Machine.Passes base ↑(base + piece.length) k m m' ∧ m'.At ↑(base + y.1) y.2 ∧
      y.2.memory.Ready code := by
  induction hsteps with
  | refl => exact ⟨0, m, Machine.Passes.stay m, h, hready⟩
  | tail _ hstep ih =>
    rcases ih with ⟨k, m', hpass, hat, hready'⟩
    rcases machine_step hmax hapart hfits hstep hat hready' with ⟨m'', hpass', hat', hready''⟩
    exact ⟨k + 1, m'', hpass.trans hpass', hat', hready''⟩

/-- A machine in a piece of code that never comes to an end makes any number of steps there. -/
theorem machine_hangs {m : Machine} {c : Core}
    (hhangs : ∀ x, Steps piece (0, c) x → ∃ y, Step piece x y) (h : m.At ↑(base + 0) c)
    (hready : c.memory.Ready code) (k : Nat) :
    ∃ m', Machine.Passes base ↑(base + piece.length) k m m' ∧ m'.halted = false := by
  -- After any number of steps the machine is where the piece has got to.
  have hreach : ∃ m' x, Machine.Passes base ↑(base + piece.length) k m m' ∧
      m'.At ↑(base + x.1) x.2 ∧ x.2.memory.Ready code ∧ Steps piece (0, c) x := by
    induction k with
    | zero => exact ⟨m, (0, c), Machine.Passes.stay m, h, hready, Relation.ReflTransGen.refl⟩
    | succ k ih =>
      rcases ih with ⟨m', x, hpass, hat, hready', hsteps⟩
      rcases hhangs x hsteps with ⟨y, hstep⟩
      rcases machine_step hmax hapart hfits hstep hat hready' with ⟨m'', hpass', hat', hready''⟩
      exact ⟨m'', y, hpass.trans hpass', hat', hready'', hsteps.tail hstep⟩
  rcases hreach with ⟨m', x, hpass, hat, -, -⟩
  exact ⟨m', hpass, hat.running⟩

omit hmax hapart in
/-- A machine fails in a piece of code where the piece has a fault. -/
theorem machine_fault {m : Machine} {p : Nat} {c : Core} {i : Instruction} {fault : Fault}
    (hi : piece[p]? = some i) (he : c.effect i = .error fault) (h : m.At ↑(base + p) c)
    (hready : c.memory.Ready code) :
    ∃ m' tick, m.step = (m', some ⟨fault, ↑(base + p), tick⟩) := by
  exact Machine.step_fault_of_holds h hready.holds (hfits.get p i hi)
    (hfits.runs i (List.mem_of_getElem? hi)) he

end Simulation

end Fragment

end AccumulatorMachine
