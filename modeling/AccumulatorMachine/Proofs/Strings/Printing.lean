import AccumulatorMachine.Proofs.StraightLine.Matching
import AccumulatorMachine.Proofs.Structured.Condition

/-!
# Printing a String

What the loop that prints a string does on its own.

The loop counts in a scratch cell. While the counter is less than the length, it is moved on and the
character is printed that lies as far below the length as the counter says. The number that the
counter starts with and the number it is moved on by come from two cells that the rest of the
program can store to, so what is printed depends on them. `Spells` says what it is: the loop goes
from counter to counter exactly as the constructors of `Spells` do, and the induction is on them.

A string is spelled as declared if the counter starts at zero and is moved on by one. Then the
counter says how many characters were printed, and the other ones are those that are left.

## Main definitions

* `Spells`: The characters that the loop prints.
* `Prints`: A store after characters were printed.

## Theorems

* `Fragment.printLoop_round`: Once around the loop.
* `Fragment.printLoop_leaves`: The way out of the loop.
* `Fragment.printLoop_prints`, `Fragment.outputStr_takes`: The loop prints what is spelled, and the
  instructions and ticks that it takes.
* `Spells.declared`: A declared string is spelled as declared.
-/

namespace AccumulatorMachine

theorem charOfCode?_toNat (c : Char) : charOfCode? c.toNat = some c := by
  have hvalid : c.toNat.isValidChar := c.valid
  rw [charOfCode?, Int.toNat_natCast, if_pos ⟨Int.natCast_nonneg _, hvalid⟩, Char.ofNat_toNat]

namespace Core

variable {c : Core} {a x : Int}

theorem compute_of_apply {op : ArithmeticOp} {result : Int}
    (h : c.memory.read a = some (.data x)) (hop : op.apply c.acc x = .ok result) :
    c.compute op a = .ok (c.setAccumulator result) := by
  rw [compute_of_data h, hop]
  rfl

theorem effect_add_of_data (h : c.memory.read a = some (.data x))
    (hr : Word.InRange (c.acc + x)) :
    c.effect ⟨.add, a⟩ = .ok (c.setAccumulator (c.acc + x), 1) := by
  have hcompute : c.compute .add a = _ :=
    compute_of_apply h (ArithmeticOp.exactly_of_inRange hr)
  rw [effect]
  simp only
  rw [hcompute]
  rfl

theorem effect_subtract_of_data (h : c.memory.read a = some (.data x))
    (hr : Word.InRange (c.acc - x)) :
    c.effect ⟨.subtract, a⟩ = .ok (c.setAccumulator (c.acc - x), 1) := by
  have hcompute : c.compute .subtract a = _ :=
    compute_of_apply h (ArithmeticOp.exactly_of_inRange hr)
  rw [effect_subtract, hcompute]
  rfl

theorem effect_writeAddress_of_data (h : c.memory.read c.acc = some (.data x)) (operand : Int) :
    c.effect ⟨.writeAddress, operand⟩ = .ok (c.setAccumulator x, 1) := by
  rw [effect]
  simp only
  rw [compute_of_apply h rfl]
  rfl

theorem effect_output_of_char {ch : Char} (h : c.acc = ch.toNat) :
    c.effect ⟨.output, characterMode⟩
      = .ok ({ c with printed := String.singleton ch :: c.printed }, 1) := by
  rw [effect]
  simp only
  rw [print, if_pos rfl, h, charOfCode?_toNat]
  rfl

end Core

/-- The characters that the loop prints, from a value of its counter on, for a string at an address
    with a length, if the counter is moved on by a step. -/
inductive Spells (memory : Memory) (string length step : Int) : Int → List Char → Prop
  | stop {counter : Int} (hle : length ≤ counter) (hdiff : Word.InRange (counter - length)) :
      Spells memory string length step counter []
  | char {counter : Int} {ch : Char} {text : List Char} (hlt : counter < length)
      (hdiff : Word.InRange (counter - length)) (hnext : Word.InRange (counter + step))
      (haddress : Word.InRange (string - (counter + step)))
      (hfree : string - (counter + step) ≠ counterCell)
      (hcell : memory.read (string - (counter + step)) = some (.data ch.toNat))
      (hrest : Spells memory string length step (counter + step) text) :
      Spells memory string length step counter (ch :: text)

/-- A store after characters were printed, which differs from the one before in what is printed and
    in the cell that counts. -/
structure Prints (s : Store) (text : List Char) (s' : Store) : Prop where
  printed : s'.printed = (text.map String.singleton).reverse ++ s.printed
  input : s'.input = s.input
  exhausted : s'.exhausted = s.exhausted
  memory : ∀ a, a ≠ counterCell → s'.memory.read a = s.memory.read a

namespace Prints

theorem refl (s : Store) : Prints s [] s := ⟨rfl, rfl, rfl, fun _ _ => rfl⟩

theorem trans {s mid s' : Store} {first second : List Char} (h : Prints s first mid)
    (h' : Prints mid second s') : Prints s (first ++ second) s' where
  printed := by
    rw [h'.printed, h.printed]
    simp
  input := h'.input.trans h.input
  exhausted := h'.exhausted.trans h.exhausted
  memory := fun a ha => (h'.memory a ha).trans (h.memory a ha)

end Prints

namespace Fragment

section Loop

variable {zero one string cursor length step counter : Int} {c : Core}
  (hcounter : c.memory.read counterCell = some (.data counter))
  (hlength : c.memory.read string = some (.data length))
  (hdiff : Word.InRange (counter - length))

include hcounter hlength hdiff

/-- The comparison at the head of the loop. -/
theorem printLoop_compares :
    Takes (Lowering.outputStrCode zero one string cursor) 3 6 (2, c)
      (if counter < length then 6 else 5, c.setAccumulator (counter - length)) := by
  have hread : Step (Lowering.outputStrCode zero one string cursor) (2, c)
      (3, c.setAccumulator counter) := Step.mk rfl (Core.effect_read_of_data hcounter) rfl
  have hsubtract : Step (Lowering.outputStrCode zero one string cursor)
      (3, c.setAccumulator counter) (4, c.setAccumulator (counter - length)) :=
    Step.mk rfl (Core.effect_subtract_of_data (c := c.setAccumulator counter) hlength hdiff) rfl
  have hskip : Step (Lowering.outputStrCode zero one string cursor)
      (4, c.setAccumulator (counter - length))
      (if counter < length then 6 else 5, c.setAccumulator (counter - length)) := by
    refine Step.mk rfl (Core.effect_skip_difference c .less counter length cursor) ?_
    by_cases hlt : counter < length
    · simp [Comparison.holds, hlt]
    · simp [Comparison.holds, hlt]
  exact ((Takes.single hread).tail hsubtract).tail hskip

/-- The way out of the loop, which changes nothing but the accumulator. -/
theorem printLoop_leaves (hle : length ≤ counter) :
    ∃ c', Takes (Lowering.outputStrCode zero one string cursor) 4 8 (2, c) (14, c') ∧
      c'.toStore = c.toStore := by
  have hcompares : Takes (Lowering.outputStrCode zero one string cursor) 3 6 (2, c) _ :=
    printLoop_compares hcounter hlength hdiff
  rw [if_neg (by omega)] at hcompares
  exact ⟨_, hcompares.tail (Step.mk rfl rfl rfl), rfl⟩

/-- Once around the loop: the counter is moved on and a character is printed. -/
theorem printLoop_round {ch : Char} (hstep : c.memory.read one = some (.data step))
    (hlt : counter < length) (hnext : Word.InRange (counter + step))
    (haddress : Word.InRange (string - (counter + step)))
    (hfree : string - (counter + step) ≠ counterCell)
    (hcell : c.memory.read (string - (counter + step)) = some (.data ch.toNat)) :
    ∃ c', Takes (Lowering.outputStrCode zero one string cursor) 11 24 (2, c) (2, c') ∧
      Prints c.toStore [ch] c'.toStore ∧
      c'.memory.read counterCell = some (.data (counter + step)) := by
  have hcompares : Takes (Lowering.outputStrCode zero one string cursor) 3 6 (2, c) _ :=
    printLoop_compares hcounter hlength hdiff
  rw [if_pos hlt] at hcompares
  -- The counter is moved on in its cell.
  have hread : Step (Lowering.outputStrCode zero one string cursor)
      (6, c.setAccumulator (counter - length)) (7, c.setAccumulator counter) :=
    Step.mk rfl (Core.effect_read_of_data (c := c.setAccumulator (counter - length)) hcounter) rfl
  have hadd : Step (Lowering.outputStrCode zero one string cursor)
      (7, c.setAccumulator counter) (8, c.setAccumulator (counter + step)) :=
    Step.mk rfl (Core.effect_add_of_data (c := c.setAccumulator counter) hstep hnext) rfl
  let moved := (c.setAccumulator (counter + step)).store counterCell
  have hmoved : ∀ a, moved.memory.read a
      = if a = counterCell then some (.data (counter + step)) else c.memory.read a :=
    fun a => Memory.read_write c.memory counterCell a _
  have hwrite : Step (Lowering.outputStrCode zero one string cursor)
      (8, c.setAccumulator (counter + step)) (9, moved) := Step.mk rfl rfl rfl
  -- The address of the character is computed from it, and the character is fetched and printed.
  have hpointer : Step (Lowering.outputStrCode zero one string cursor) (9, moved)
      (10, moved.setAccumulator string) := Step.mk rfl rfl rfl
  have hsubtract : Step (Lowering.outputStrCode zero one string cursor)
      (10, moved.setAccumulator string)
      (11, moved.setAccumulator (string - (counter + step))) :=
    Step.mk rfl (Core.effect_subtract_of_data (c := moved.setAccumulator string)
      ((hmoved counterCell).trans (if_pos rfl)) haddress) rfl
  have hfetch : Step (Lowering.outputStrCode zero one string cursor)
      (11, moved.setAccumulator (string - (counter + step)))
      (12, moved.setAccumulator ch.toNat) :=
    Step.mk rfl (Core.effect_writeAddress_of_data
      (c := moved.setAccumulator (string - (counter + step)))
      (((hmoved _).trans (if_neg hfree)).trans hcell) 0) rfl
  let printed := { moved.setAccumulator ch.toNat with
    printed := String.singleton ch :: c.printed }
  have houtput : Step (Lowering.outputStrCode zero one string cursor)
      (12, moved.setAccumulator ch.toNat) (13, printed) :=
    Step.mk rfl (Core.effect_output_of_char (c := moved.setAccumulator ch.toNat) rfl) rfl
  have hback : Step (Lowering.outputStrCode zero one string cursor) (13, printed) (2, printed) :=
    Step.mk rfl rfl rfl
  refine ⟨printed, (((((((hcompares.tail hread).tail hadd).tail hwrite).tail hpointer).tail
    hsubtract).tail hfetch).tail houtput).tail hback, ⟨rfl, rfl, rfl, fun a ha => ?_⟩, ?_⟩
  · exact (hmoved a).trans (if_neg ha)
  · exact (hmoved counterCell).trans (if_pos rfl)

end Loop

section Runs

variable {zero one string cursor length step start : Int} {text : List Char} {c : Core}
  (hlength : c.memory.read string = some (.data length))
  (hstep : c.memory.read one = some (.data step))
  (hstring : string ≠ counterCell) (hone : one ≠ counterCell)

include hlength hstep hstring hone

/-- From the head of the loop on, what is left to spell is printed. Every character is counted. -/
theorem printLoop_prints {memory : Memory} {counter : Int}
    (hspells : Spells memory string length step counter text)
    (hmemory : ∀ a, a ≠ counterCell → c.memory.read a = memory.read a)
    (hcounter : c.memory.read counterCell = some (.data counter)) :
    ∃ c', Takes (Lowering.outputStrCode zero one string cursor) (11 * text.length + 4)
        (24 * text.length + 8) (2, c) (14, c') ∧
      Prints c.toStore text c'.toStore ∧
      c'.memory.read counterCell = some (.data (counter + text.length * step)) := by
  induction hspells generalizing c with
  | @stop counter hle hdiff =>
    rcases printLoop_leaves hcounter hlength hdiff hle with ⟨c', htakes, hstore⟩
    refine ⟨c', htakes, hstore ▸ Prints.refl c.toStore, ?_⟩
    have hmemory' : c'.memory = c.memory := congrArg Store.memory hstore
    rw [hmemory', hcounter]
    simp
  | @char counter ch text hlt hdiff hnext haddress hfree hcell hrest ih =>
    rcases printLoop_round hcounter hlength hdiff hstep hlt hnext haddress hfree
      ((hmemory _ hfree).trans hcell) with ⟨mid, hround, hprints, hmid⟩
    -- All cells but that of the counter are as they were.
    have hkept : ∀ a, a ≠ counterCell → mid.memory.read a = c.memory.read a := hprints.memory
    rcases ih ((hkept string hstring).trans hlength) ((hkept one hone).trans hstep)
      (fun a ha => (hkept a ha).trans (hmemory a ha)) hmid with ⟨c', htakes, hprints', hfinal⟩
    refine ⟨c', (hround.trans htakes).of_eq ?_ ?_, hprints.trans hprints', ?_⟩
    · rw [List.length_cons]
      omega
    · rw [List.length_cons]
      omega
    · have hcount : counter + step + text.length * step
          = counter + ((ch :: text).length : Nat) * step := by
        rw [List.length_cons, Int.natCast_succ, Int.add_mul, Int.one_mul]
        omega
      rw [hfinal, hcount]

/-- The code that prints a string comes to its end and has printed what is spelled. -/
theorem outputStr_takes (hzero : c.memory.read zero = some (.data start))
    (hspells : Spells c.memory string length step start text) :
    ∃ c', Takes (Lowering.outputStrCode zero one string cursor) (11 * text.length + 6)
        (24 * text.length + 12) (0, c) (14, c') ∧
      Prints c.toStore text c'.toStore ∧
      c'.memory.read counterCell = some (.data (start + text.length * step)) := by
  let counting := (c.setAccumulator start).store counterCell
  have hread : ∀ a, counting.memory.read a
      = if a = counterCell then some (.data start) else c.memory.read a :=
    fun a => Memory.read_write c.memory counterCell a _
  have hkept : ∀ a, a ≠ counterCell → counting.memory.read a = c.memory.read a :=
    fun a ha => (hread a).trans (if_neg ha)
  -- The counter is set, and the loop does the rest.
  have hload : Step (Lowering.outputStrCode zero one string cursor) (0, c)
      (1, c.setAccumulator start) := Step.mk rfl (Core.effect_read_of_data hzero) rfl
  have hset : Step (Lowering.outputStrCode zero one string cursor) (1, c.setAccumulator start)
      (2, counting) := Step.mk rfl rfl rfl
  have hstarts : Takes (Lowering.outputStrCode zero one string cursor) 2 4 (0, c) (2, counting) :=
    (Takes.single hload).tail hset
  have hprints : Prints c.toStore [] counting.toStore := ⟨rfl, rfl, rfl, hkept⟩
  rcases printLoop_prints ((hkept string hstring).trans hlength)
    ((hkept one hone).trans hstep) hstring hone hspells hkept
    ((hread counterCell).trans (if_pos rfl)) with ⟨c', htakes, hprints', hfinal⟩
  exact ⟨c', (hstarts.trans htakes).of_eq (by omega) (by omega), hprints.trans hprints', hfinal⟩

theorem outputStr_finishes (hzero : c.memory.read zero = some (.data start))
    (hspells : Spells c.memory string length step start text) :
    ∃ c', Steps (Lowering.outputStrCode zero one string cursor) (0, c) (14, c') ∧
      Prints c.toStore text c'.toStore := by
  rcases outputStr_takes hlength hstep hstring hone hzero hspells with ⟨c', htakes, hprints, -⟩
  exact ⟨c', htakes.steps, hprints⟩

end Runs

end Fragment

/-- A string that lies below its length, one character after another, is spelled as it is from where
    its first characters have been counted. -/
theorem Spells.declared {memory : Memory} {string length : Int} {text : List Char}
    (counter : Nat) (hlength : length = counter + text.length) (hmax : length ≤ Word.maximum)
    (hwords : ∀ k : Nat, counter < k → k ≤ length →
      Word.InRange (string - k) ∧ string - k ≠ counterCell)
    (hcells : ∀ (k : Nat) (ch : Char), text[k]? = some ch →
      memory.read (string - (counter + k + 1 : Nat)) = some (.data ch.toNat)) :
    Spells memory string length 1 counter text := by
  have hmin : Word.minimum = -9223372036854775808 := rfl
  have hgreatest : Word.maximum = 9223372036854775807 := rfl
  -- The counter goes up as characters are taken from the text, so it is generalized.
  induction text generalizing counter with
  | nil =>
    simp only [List.length_nil] at hlength
    exact .stop (by omega) ⟨by omega, by omega⟩
  | cons ch text ih =>
    simp only [List.length_cons] at hlength
    have hnext : ((counter + 1 : Nat) : Int) = counter + 1 := by omega
    rcases hwords (counter + 1) (by omega) (by omega) with ⟨haddress, hfree⟩
    rw [hnext] at haddress hfree
    refine .char (by omega) ⟨by omega, by omega⟩ ⟨by omega, by omega⟩ haddress hfree ?_ ?_
    · exact hcells 0 ch rfl
    · rw [← hnext]
      refine ih (counter + 1) (by omega) (fun k hk hle => hwords k (by omega) hle) fun k d hd => ?_
      rw [Nat.add_right_comm counter 1 k, Nat.add_assoc counter k 1]
      exact hcells (k + 1) d hd

end AccumulatorMachine
