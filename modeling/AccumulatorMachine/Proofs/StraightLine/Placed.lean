import AccumulatorMachine.Proofs.StraightLine.Run

/-!
# Straight Code at any Address

What a machine does whose memory holds straight code somewhere.

The programs that the compiler makes have their code at address zero, with nothing behind it. A
piece of code does not need that. Wherever the memory holds it, a machine that stands in front of it
passes through it instruction by instruction, as long as the code does not overwrite what is still
to come. What the rest of the memory holds makes no difference, and the code need not be part of a
program.

The one thing that counts about the address is that the program counter can get from the first
instruction to the place behind the last one.

## Main definitions

* `Memory.HoldsAt`: A memory that holds code from an address upwards.
* `StoresBeside`: Code whose stores miss the addresses that it stands at.

## Theorems

* `Core.read_runAll`: Code changes the cells that it stores to, and no others.
* `Straight.passesAt`: A machine passes through straight code as the core says.
* `Straight.failsAt`: A machine fails where straight code has a fault.
-/

namespace AccumulatorMachine

/-- The memory holds code, from an address upwards. -/
def Memory.HoldsAt (memory : Memory) (code : List Instruction) (start : Int) : Prop :=
  ∀ (n : Nat) (i : Instruction), code[n]? = some i → memory.read (start + n) = some (.code i)

/-- None of the instructions stores to one of a number of addresses from `start` upwards. -/
def StoresBeside (code : List Instruction) (start : Int) (count : Nat) : Prop :=
  ∀ i ∈ code, i.opcode = .write → ∀ n < count, i.operand ≠ start + (n : Nat)

namespace Memory.HoldsAt

variable {memory : Memory} {i : Instruction} {first second rest : List Instruction} {start : Int}

theorem head (h : memory.HoldsAt (i :: rest) start) : memory.read start = some (.code i) := by
  have hread := h 0 i rfl
  rwa [Int.natCast_zero, Int.add_zero] at hread

theorem tail (h : memory.HoldsAt (i :: rest) start) : memory.HoldsAt rest (start + 1) := by
  intro n j hj
  have hread := h (n + 1) j hj
  have hplace : start + ((n + 1 : Nat) : Int) = start + 1 + n := by omega
  rwa [hplace] at hread

theorem append (h : memory.HoldsAt (first ++ second) start) :
    memory.HoldsAt first start ∧ memory.HoldsAt second (start + first.length) := by
  refine ⟨fun n j hj => h n j ?_, fun n j hj => ?_⟩
  · rw [List.getElem?_append_left (List.getElem?_eq_some_iff.mp hj).1, hj]
  · have hread := h (first.length + n) j ?_
    · have hplace : start + ((first.length + n : Nat) : Int) = start + first.length + n := by omega
      rwa [hplace] at hread
    · rw [List.getElem?_append_right (Nat.le_add_right _ _), Nat.add_sub_cancel_left, hj]

end Memory.HoldsAt

/-- Code changes the cells that it stores to, and no others. -/
theorem Core.read_runAll {code : List Instruction} {c c' : Core} (h : runAll code c = .ok c')
    {a : Int} (ha : ∀ i ∈ code, i.opcode = .write → i.operand ≠ a) :
    c'.memory.read a = c.memory.read a := by
  induction code generalizing c with
  | nil =>
    cases h
    rfl
  | cons i rest ih =>
    rcases Outcome.bind_ok h with ⟨⟨mid, distance⟩, he, hrest⟩
    rw [ih hrest fun j hj => ha j (List.mem_cons_of_mem i hj)]
    exact read_effect he (ha i List.mem_cons_self)

/-- Code stays where it is if it stores beside it. -/
theorem Memory.HoldsAt.runAll {code piece : List Instruction} {start : Int} {c c' : Core}
    (h : c.memory.HoldsAt code start) (hrun : Core.runAll piece c = .ok c')
    (hbeside : StoresBeside piece start code.length) : c'.memory.HoldsAt code start := by
  intro n i hi
  have hlt : n < code.length := (List.getElem?_eq_some_iff.mp hi).1
  rw [Core.read_runAll hrun fun j hj hop => hbeside j hj hop n hlt]
  exact h n i hi

namespace Straight

variable {piece : List Instruction} {start : Int} {m : Machine} {c c' : Core}

/-- A machine passes through straight code, wherever it is, with as many steps as it has
    instructions. -/
theorem passesAt {low high : Int} (hcode : Straight piece)
    (hread : ∀ i ∈ piece, i.opcode ≠ .input) (hat : m.At start c)
    (hheld : c.memory.HoldsAt piece start) (hbeside : StoresBeside piece start piece.length)
    (hlow : low ≤ start) (hhigh : start + piece.length ≤ high) (hmin : Word.minimum ≤ start)
    (hmax : start + piece.length ≤ Word.maximum) (hrun : Core.runAll piece c = .ok c') :
    ∃ m', Machine.Passes low high piece.length m m' ∧ m'.At (start + piece.length) c' := by
  -- The induction is on the code. Each instruction is one step, and the rest stands one further on.
  induction piece generalizing start m c with
  | nil =>
    cases hrun
    refine ⟨m, Machine.Passes.stay m, ?_⟩
    rw [List.length_nil, Int.natCast_zero, Int.add_zero]
    exact hat
  | cons i rest ih =>
    rcases Outcome.bind_ok hrun with ⟨⟨mid, distance⟩, he, hrest⟩
    have hone : distance = 1 := hcode i List.mem_cons_self distance (Core.effect_distance he)
    subst hone
    rw [List.length_cons] at hhigh hmax hbeside
    rcases Machine.step_of_effect hat hheld.head (hcode.runs List.mem_cons_self)
      (fun hop => absurd hop (hread i List.mem_cons_self)) he ⟨by omega, by omega⟩ with
      ⟨next, hstep, hnext⟩
    -- The instruction stores beside the rest of the code, which is therefore still there.
    have hheld' : mid.memory.HoldsAt rest (start + 1) := by
      intro n j hj
      have hlt : n < rest.length := (List.getElem?_eq_some_iff.mp hj).1
      rw [Core.read_effect he fun hop heq => hbeside i List.mem_cons_self hop (n + 1) (by omega)
        (by omega)]
      exact hheld.tail n j hj
    have hbeside' : StoresBeside rest (start + 1) rest.length := by
      intro j hj hop n hn heq
      exact hbeside j (List.mem_cons_of_mem i hj) hop (n + 1) (by omega) (by omega)
    rcases ih (fun j hj => hcode j (List.mem_cons_of_mem i hj))
      (fun j hj => hread j (List.mem_cons_of_mem i hj)) hnext hheld' hbeside' (by omega) (by omega)
      (by omega) (by omega) hrest with ⟨m', hpass, hat'⟩
    have hpc := hat.pc_eq
    have hplace : start + 1 + (rest.length : Int) = start + ((i :: rest).length : Int) := by
      rw [List.length_cons]
      omega
    rw [hplace] at hat'
    exact ⟨m', Machine.Passes.step hat.running (by omega) (by omega) hstep hpass, hat'⟩

/-- A machine fails in straight code, wherever it is, at the instruction that has a fault. -/
theorem failsAt {first rest : List Instruction} {i : Instruction} {fault : Fault}
    (hcode : Straight (first ++ i :: rest)) (hread : ∀ j ∈ first, j.opcode ≠ .input)
    (hat : m.At start c) (hheld : c.memory.HoldsAt (first ++ i :: rest) start)
    (hbeside : StoresBeside first start (first ++ i :: rest).length) (hmin : Word.minimum ≤ start)
    (hmax : start + first.length ≤ Word.maximum) (hrun : Core.runAll first c = .ok c')
    (he : c'.effect i = .error fault) :
    ∃ m' tick, ∀ n, Machine.runFor (first.length + (n + 1)) m
      = (m', some ⟨fault, start + first.length, tick⟩) := by
  have hfirst : Straight first := fun j hj => hcode j (List.mem_append_left _ hj)
  have hshort : StoresBeside first start first.length := by
    intro j hj hop n hn
    exact hbeside j hj hop n (by rw [List.length_append]; omega)
  -- The instructions before the fault are passed through, and leave the faulty one where it is.
  rcases passesAt hfirst hread hat hheld.append.1 hshort (Int.le_refl _) (Int.le_refl _) hmin hmax
    hrun with ⟨m1, hpass, hat1⟩
  have hfault := (hheld.runAll hrun hbeside).append.2.head
  have hhalt : i.opcode ≠ .halt := hcode.runs (List.mem_append_right _ List.mem_cons_self)
  rcases Machine.step_of_fault hat1 hfault hhalt he with ⟨m', tick, hstep⟩
  refine ⟨m', tick, fun n => ?_⟩
  rw [hpass.runFor_add, Machine.runFor, if_neg (by rw [hat1.running]; decide), hstep]

end Straight

end AccumulatorMachine
