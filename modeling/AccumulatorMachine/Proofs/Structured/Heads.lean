import AccumulatorMachine.Proofs.Machine.Timing
import AccumulatorMachine.Proofs.Structured.Offsets

/-!
# Heads of Loops

How the code at the start of a loop decides the comparison.

A comparison is decided by the flags of a difference. For this the difference has to be a word, and
then the flags tell the truth about all six comparisons, also close to the ends of the range. If it
is none the machine fails, even where it is plain which of the two numbers is greater. What the
accumulator and the flags were before does not matter, because the first instruction overwrites
them.

The head need not be where the compiler has put it. It leads to the place behind it or away from it
by as many places as its loop has statements and seven more, and whether there is the end of the
loop is not its concern. A limit on the ticks does not matter either, as long as the head is over
before it is reached.

## Main definitions

* `Machine.GetsTo`: A machine that gets to a place and changes nothing in between.

## Theorems

* `Fragment.runsAt_loopHead`: Where the code at the start of a loop can be run.
* `Fragment.loopHead_decided`, `Fragment.loopHead_fails`: What a machine does in it.
* `Program.loopHead_decides`: The start of a loop decides the comparison.
-/

namespace AccumulatorMachine

/-- A machine gets to a place in a number of steps, all of them from a range of places, and has
    changed nothing on the way but its accumulator and flags. -/
def Machine.GetsTo (m : Machine) (low high : Int) (steps : Nat) (place : Int) : Prop :=
  ∃ m', Passes low high steps m m' ∧ m'.halted = false ∧ m'.pc = place ∧
    m'.core.toStore = m.core.toStore

namespace Fragment

variable {comparison : Comparison} {left right cursor : Int} {count : Nat} {head : Int}

/-- The code at the start of a loop can be run where all its moves lead to words. -/
theorem runsAt_loopHead (hlow : Word.minimum ≤ head)
    (hhigh : head + count + 7 ≤ Word.maximum) :
    RunsAt (Lowering.loopHead comparison left right cursor count) head where
  runs := by
    have hskip := comparison.skipOpCode_ne
    simp [Lowering.loopHead, hskip.1]
  reads := by
    have hskip := comparison.skipOpCode_ne
    simp [Lowering.loopHead, hskip.2]
  beside := by
    intro i hi hop
    cases comparison <;> simp [Lowering.loopHead, Comparison.skipOpCode] at hi <;>
      rcases hi with rfl | rfl | rfl | rfl <;> cases hop
  low := hlow
  words := by
    refine forall_of_zipIdx ?_
    simp only [Lowering.loopHead, List.zipIdx_cons, List.zipIdx_nil, List.forall_mem_cons]
    rw [Comparison.distances_skipOpCode]
    simp [Instruction.distances, Word.InRange]
    omega

section Machine

variable {m : Machine} (hrunning : m.halted = false) (hpc : m.pc = head)

include hrunning hpc

theorem at_withLimit : (m.withLimit none).At (head + (0 : Nat)) m.core := by
  rw [Int.natCast_zero, Int.add_zero]
  exact ⟨hrunning, rfl, hpc, rfl⟩

/-- A machine gets through code that leaves the store alone. -/
theorem getsTo_of_takes {code : List Instruction} {n ticks q : Nat} {c' : Core}
    (hcode : RunsAt code head) (hheld : m.core.memory.HoldsAt code head)
    (htakes : Takes code n ticks (0, m.core) (q, c')) (hstore : c'.toStore = m.core.toStore)
    (hroom : ∀ limit, m.tickLimit = some limit → m.tick + ticks ≤ limit + 1) :
    m.GetsTo head (head + code.length) n (head + q) := by
  rcases passes_of_takes hcode htakes (at_withLimit hrunning hpc) hheld with
    ⟨m', hpass, hend, htick, -⟩
  have hlimit : ∀ limit, m.tickLimit = some limit → m'.tick ≤ limit + 1 := by
    intro limit hl
    have hfits := hroom limit hl
    have hsame : (m.withLimit none).tick = m.tick := rfl
    omega
  refine ⟨_, hpass.of_unlimited hlimit, hend.running, hend.pc_eq, ?_⟩
  have hcore : m'.core.toStore = m.core.toStore := by rw [hend.core_eq, hstore]
  exact hcore

variable {x y : Int}
  (hheld : m.core.memory.HoldsAt (Lowering.loopHead comparison left right cursor count) head)
  (hlow : Word.minimum ≤ head) (hhigh : head + count + 7 ≤ Word.maximum)
  (hroom : ∀ limit, m.tickLimit = some limit → m.tick + 7 ≤ limit)
  (hx : m.core.load left = .ok x) (hy : m.core.load right = .ok y)

include hheld hlow hhigh hroom hx hy

/-- Where the difference is a word, a machine gets behind the head if the comparison holds, and away
    from it if it does not. -/
theorem loopHead_decided (hword : Word.InRange (x - y)) :
    (comparison.holds x y = true → m.GetsTo head (head + 4) 3 (head + 4)) ∧
      (comparison.holds x y = false → m.GetsTo head (head + 4) 4 (head + (count + 7))) := by
  have hruns : RunsAt (Lowering.loopHead comparison left right cursor count) head :=
    runsAt_loopHead hlow hhigh
  have hcompares : Takes (Lowering.loopHead comparison left right cursor count) 3 6 (0, m.core) _ :=
    head_compares hx hy hword
  constructor
  · intro hholds
    rw [if_pos hholds] at hcompares
    exact getsTo_of_takes hrunning hpc hruns hheld hcompares rfl fun limit hl => by
      have hfits := hroom limit hl
      omega
  · intro hholds
    rw [if_neg (by rw [hholds]; decide)] at hcompares
    have hexits : Takes (Lowering.loopHead comparison left right cursor count) 4 8 (0, m.core)
        (count + 7, _) := hcompares.tail (head_exits _)
    exact getsTo_of_takes hrunning hpc hruns hheld hexits rfl fun limit hl => by
      have hfits := hroom limit hl
      omega

/-- Where the difference is not a word, a machine fails in the subtraction. -/
theorem loopHead_fails (hword : ¬ Word.InRange (x - y)) :
    ∃ m' tick, ∀ k, Machine.runFor (2 + k) m
      = (m', some ⟨.arithmeticOverflow, head + 1, tick⟩) := by
  have hruns : RunsAt (Lowering.loopHead comparison left right cursor count) head :=
    runsAt_loopHead hlow hhigh
  have hoverflows : Takes (Lowering.loopHead comparison left right cursor count) 1 2 (0, m.core) _
      ∧ _ := head_overflows hx hy hword
  rcases hoverflows with ⟨htakes, he⟩
  rcases fails_of_takes hruns htakes (at_withLimit hrunning hpc) hheld rfl he with
    ⟨m', hfails, htick⟩
  refine ⟨m'.withLimit m.tickLimit, m'.tick, fun k => ?_⟩
  have hlimit : ∀ limit, m.tickLimit = some limit → m'.tick ≤ limit + 1 := by
    intro limit hl
    have hfits := hroom limit hl
    have hsame : (m.withLimit none).tick = m.tick := rfl
    have hticks : (⟨.subtract, right⟩ : Instruction).ticks = 2 := rfl
    omega
  have hrun := Machine.runFor_of_unlimited (hfails k) hlimit
  rwa [← Nat.add_assoc, Nat.add_right_comm] at hrun

end Machine

end Fragment

namespace Program

/-- The start of a loop decides the comparison. A machine that comes to it with any two numbers in
    the cells of the operands gets behind it exactly if the comparison holds, and if not, away from
    it by the number of statements of the loop and seven more. It fails if the difference of the
    numbers is not a word. The accumulator and the flags that it comes with make no difference. -/
theorem loopHead_decides {program : Program} {dataBase : Int} {compiled : Compiled}
    (h : program.compile dataBase = .ok compiled) {start stop : Nat}
    (hmatched : program.Matched start stop) {left right : Operand} {comparison : Comparison}
    (hform : program.formAt? start = some (.loop left comparison right)) {block : Block}
    (hblock : compiled.blocks[start]? = some block) {a b : Int}
    (ha : program.addressAt? dataBase start left = some a)
    (hb : program.addressAt? dataBase start right = some b) {head : Int} {m : Machine}
    (hrunning : m.halted = false) (hpc : m.pc = head)
    (hheld : m.core.memory.HoldsAt block.code head) (hlow : Word.minimum ≤ head)
    (hhigh : head + (stop - start + 1 : Nat) + 7 ≤ Word.maximum)
    (hroom : ∀ limit, m.tickLimit = some limit → m.tick + 7 ≤ limit) {x y : Int}
    (hx : m.core.memory.read a = some (.data x)) (hy : m.core.memory.read b = some (.data y)) :
    (Word.InRange (x - y) →
      (comparison.holds x y = true → m.GetsTo head (head + 4) 3 (head + 4)) ∧
      (comparison.holds x y = false →
        m.GetsTo head (head + 4) 4 (head + ((stop - start + 1 : Nat) + 7)))) ∧
    (¬ Word.InRange (x - y) → ∃ m' tick, ∀ k, Machine.runFor (2 + k) m
      = (m', some ⟨.arithmeticOverflow, head + 1, tick⟩)) := by
  rcases Option.map_eq_some_iff.mp hform with ⟨s, hs, hloop⟩
  rcases compile_loop h hs hloop with
    ⟨block', a', b', stop', cursor, hblock', hstop, ha', hb', hcode⟩
  -- The block is the compiled one, and its code names the cells of the two operands.
  cases hblock.symm.trans hblock'
  cases ha.symm.trans ha'
  cases hb.symm.trans hb'
  cases hstop.symm.trans (endOf?_of_matched h hmatched)
  rw [hcode] at hheld
  have hloadX : m.core.load a = .ok x := by rw [Core.load, hx]
  have hloadY : m.core.load b = .ok y := by rw [Core.load, hy]
  exact ⟨Fragment.loopHead_decided hrunning hpc hheld hlow hhigh hroom hloadX hloadY,
    Fragment.loopHead_fails hrunning hpc hheld hlow hhigh hroom hloadX hloadY⟩

/-- A program with an empty loop. -/
def compares : Program where
  statements := [⟨.int "a" 1, ⟨0, 7⟩⟩, ⟨.int "b" 2, ⟨9, 16⟩⟩,
    ⟨.loop (.name "a") .less (.name "b"), ⟨18, 29⟩⟩, ⟨.endLoop, ⟨31, 39⟩⟩]

/-- The same program, compiled. -/
def comparesCompiled : Compiled where
  blocks := [⟨⟨0, 7⟩, [], false, none⟩, ⟨⟨9, 16⟩, [], false, none⟩,
    ⟨⟨18, 29⟩, Lowering.loopHead .less 1000 999 998 2, false, none⟩,
    ⟨⟨31, 39⟩, Lowering.loopEnd 2, true, none⟩]
  symbols := ⟨[("a", ⟨1000, .int⟩), ("b", ⟨999, .int⟩)], [⟨.data 1, 1000⟩, ⟨.data 2, 999⟩], 998⟩

/-- The program gets into its loop, because one is less than two. -/
theorem compares_decides : compares.compile 1000 = .ok comparesCompiled ∧
    compares.Matched 2 3 ∧ (Machine.load comparesCompiled.image [] none).GetsTo 0 4 3 4 := by
  have hcompile : compares.compile 1000 = .ok comparesCompiled := rfl
  have hmatched : compares.Matched 2 3 :=
    ⟨by decide, ⟨_, rfl, _, _, _, rfl⟩, ⟨_, rfl, rfl⟩, rfl⟩
  have hheld : comparesCompiled.memory.HoldsAt (Lowering.loopHead .less 1000 999 998 2) 0 := by
    intro n i hi
    rw [Int.zero_add]
    refine compile_holds hcompile n i ?_
    have hcode : comparesCompiled.code
        = Lowering.loopHead .less 1000 999 998 2 ++ Lowering.loopEnd 2 := rfl
    rw [hcode, List.getElem?_append_left (List.getElem?_eq_some_iff.mp hi).1, hi]
  have hread : ∀ cell ∈ comparesCompiled.symbols.cells,
      comparesCompiled.memory.read cell.address = some cell.value :=
    fun cell hcell => compile_read_cell hcompile hcell
  have hdecides := loopHead_decides (m := .load comparesCompiled.image [] none) hcompile hmatched
    rfl rfl rfl rfl rfl rfl hheld (by decide) (by decide) (fun limit hl => nomatch hl)
    (hread ⟨.data 1, 1000⟩ (by decide)) (hread ⟨.data 2, 999⟩ (by decide))
  exact ⟨hcompile, hmatched, (hdecides.1 (by decide)).1 rfl⟩

end Program

end AccumulatorMachine
