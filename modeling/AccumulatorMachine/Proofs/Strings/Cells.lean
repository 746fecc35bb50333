import AccumulatorMachine.Proofs.Machine.Timing
import AccumulatorMachine.Proofs.Strings.Output

/-!
# Output of Cells

What the block that prints a string does to any memory.

The block does not ask where its cells come from. Whatever a program did before, if the cell of the
name holds a length and the cells below it hold as many characters, then they are printed, with the
first character next to the length. The name need not be that of a string, and the block need not be
where the compiler has put it. A run of it takes the same number of ticks for each character, and it
leaves nothing behind but the length in its scratch cell.

## Main definitions

* `Memory.HoldsString`: A memory that holds a string below an address.
* `Machine.HasPrinted`: A machine that has printed a string.

## Theorems

* `Program.outputStr_prints`: The block that prints a string prints what its cells hold.
-/

namespace AccumulatorMachine

/-- The memory holds a string: its length in a cell, and below that its characters, the first one
    next to it. All of the addresses are words, and none is that of the counter. -/
structure Memory.HoldsString (memory : Memory) (string : Int) (text : String) : Prop where
  length : memory.read string = some (.data text.length)
  chars : ∀ (k : Nat) (ch : Char), text.toList[k]? = some ch →
    memory.read (string - (k + 1)) = some (.data ch.toNat)
  words : ∀ k : Nat, k ≤ text.length → Word.InRange (string - k)
  short : (text.length : Int) ≤ Word.maximum
  apart : ∀ k : Nat, k < text.length → string - (k + 1) ≠ counterCell

/-- A string that the memory holds is spelled, character by character. -/
theorem Memory.HoldsString.spells {memory : Memory} {string : Int} {text : String}
    (h : memory.HoldsString string text) :
    Spells memory string text.length 1 0 text.toList := by
  have hlength : (text.length : Int) = (0 : Nat) + text.toList.length := by
    rw [String.length_toList]
    omega
  refine Spells.declared 0 hlength h.short (fun k hpos hle => ?_) fun k ch hch => ?_
  · obtain ⟨j, rfl⟩ : ∃ j, k = j + 1 := ⟨k - 1, by omega⟩
    exact ⟨h.words (j + 1) (by omega), h.apart j (by omega)⟩
  · rw [Nat.zero_add]
    exact h.chars k ch hch

/-- A machine that has printed a text, and has changed nothing that a program can see but its
    counter, which has counted the characters. -/
structure Machine.HasPrinted (m : Machine) (text : String) (m' : Machine) : Prop where
  tick : m'.tick = m.tick + (24 * text.length + 12)
  output : m'.output = m.output ++ text
  counter : m'.core.memory.read counterCell = some (.data text.length)
  cells : ∀ a, a ≠ counterCell → m'.core.memory.read a = m.core.memory.read a
  input : m'.core.input = m.core.input
  exhausted : m'.core.exhausted = m.core.exhausted

/-- The code that prints a string stores to its counter only. -/
theorem Lowering.outputStrCode_stores {zero one string cursor : Int} :
    ∀ i ∈ outputStrCode zero one string cursor, i.opcode = .write → i.operand = counterCell := by
  simp [outputStrCode]

namespace Program

/-- The block that prints a string prints what its cells hold. Wherever it stands in memory, as long
    as its counter is not in it, a machine in front of it comes to its end, has printed the
    characters below the cell of the name, and has changed the cell of the counter only. -/
theorem outputStr_prints {program : Program} {dataBase : Int} {compiled : Compiled}
    (h : program.compile dataBase = .ok compiled) {k : Nat} {name : String}
    (hk : program.formAt? k = some (.outputStr name)) {block : Block}
    (hblock : compiled.blocks[k]? = some block) {zero one string : Int}
    (hzero : program.addressAt? dataBase k (.ofInt 0) = some zero)
    (hone : program.addressAt? dataBase k (.ofInt 1) = some one)
    (hstring : program.addressAt? dataBase k (.name name) = some string)
    {start : Int} {m : Machine} {c : Core} (hat : m.At start c)
    (hheld : c.memory.HoldsAt block.code start) (hlow : Word.minimum ≤ start)
    (hhigh : start + 14 ≤ Word.maximum)
    (hbeside : counterCell < start ∨ start + 14 ≤ counterCell)
    (hstart : c.memory.read zero = some (.data 0)) (hstep : c.memory.read one = some (.data 1))
    {text : String} (htext : c.memory.HoldsString string text) :
    ∃ m', Machine.Passes start (start + 14) (11 * text.length + 6) m m' ∧
      m'.At (start + 14) m'.core ∧ m.HasPrinted text m' := by
  rcases compile_outputStr h hk with
    ⟨block', zero', one', string', cursor, hblock', hcode, hzero', hone', hstring', hfree, hfree'⟩
  cases hblock.symm.trans hblock'
  cases hzero.symm.trans hzero'
  cases hone.symm.trans hone'
  cases hstring.symm.trans hstring'
  have hlength : block.code.length = 14 := by
    rw [hcode]
    rfl
  -- The one cell that the block stores to is not in it.
  have hstores : StoresBeside block.code start 14 := by
    intro i hi hop n hn
    rw [hcode] at hi
    have hcell := Lowering.outputStrCode_stores i hi hop
    omega
  have hself : Fragment.SelfContained block.code := by
    rw [hcode]
    exact Fragment.selfContained_outputStr zero one string cursor
  have htakes : ∃ c', Fragment.Takes block.code (11 * text.length + 6) (24 * text.length + 12)
      (0, c) (14, c') ∧ Prints c.toStore text.toList c'.toStore ∧
        c'.memory.read counterCell = some (.data text.length) := by
    have hcount : (text.length : Int) = 0 + text.toList.length * 1 := by
      rw [String.length_toList]
      omega
    rw [hcode, hcount, ← String.length_toList]
    exact Fragment.outputStr_takes htext.length hstep hfree' hfree hstart htext.spells
  rcases htakes with ⟨c', htakes, hprints, hcounter⟩
  rcases hself.passes_to_end hlength hstores hlow hhigh hat hheld htakes with
    ⟨m', hpass, hend, htick, hcore'⟩
  have hcore := hat.core_eq
  subst hcore hcore'
  exact ⟨m', hpass, hend, htick, Machine.output_of_printed hprints.printed, hcounter,
    hprints.memory, hprints.input, hprints.exhausted⟩

/-- A program that prints a string. -/
def printsHi : Program := ⟨[⟨.string "s" "hi", ⟨0, 11⟩⟩, ⟨.outputStr "s", ⟨13, 26⟩⟩]⟩

/-- The same program, compiled. -/
def printsHiCompiled : Compiled where
  blocks := [⟨⟨0, 11⟩, [], false, none⟩,
    ⟨⟨13, 26⟩, Lowering.outputStrCode 997 996 1000 995, false, none⟩]
  symbols := ⟨[("s", ⟨1000, .str 2⟩), ("0", ⟨997, .literal⟩), ("1", ⟨996, .literal⟩)],
    [⟨.data 2, 1000⟩, ⟨.data 104, 999⟩, ⟨.data 105, 998⟩, ⟨.data 0, 997⟩, ⟨.data 1, 996⟩], 995⟩

/-- The program prints its two characters from the start. -/
theorem printsHi_prints : printsHi.compile 1000 = .ok printsHiCompiled ∧
    ∃ m', Machine.Passes 0 14 28 (.load printsHiCompiled.image [] none) m' ∧
      m'.At 14 m'.core ∧ (Machine.load printsHiCompiled.image [] none).HasPrinted "hi" m' := by
  have hcompile : printsHi.compile 1000 = .ok printsHiCompiled := rfl
  have hheld : printsHiCompiled.memory.HoldsAt (Lowering.outputStrCode 997 996 1000 995) 0 := by
    intro n i hi
    rw [Int.zero_add]
    exact compile_holds hcompile n i hi
  have hread : ∀ cell ∈ printsHiCompiled.symbols.cells,
      printsHiCompiled.memory.read cell.address = some cell.value :=
    fun cell hcell => compile_read_cell hcompile hcell
  have htext : printsHiCompiled.memory.HoldsString 1000 "hi" := by
    refine ⟨hread ⟨.data 2, 1000⟩ (by decide), fun k ch hch => ?_, fun k hk => ?_, by decide,
      fun k hk => ?_⟩
    · match k, hch with
      | 0, hch =>
        cases hch
        exact hread ⟨.data 104, 999⟩ (by decide)
      | 1, hch =>
        cases hch
        exact hread ⟨.data 105, 998⟩ (by decide)
    · have hlength : "hi".length = 2 := rfl
      have hmin : Word.minimum = -9223372036854775808 := rfl
      have hmax : Word.maximum = 9223372036854775807 := rfl
      exact ⟨by omega, by omega⟩
    · have hcounter : counterCell = 1001 := rfl
      omega
  exact ⟨hcompile, outputStr_prints (k := 1) hcompile rfl rfl rfl rfl rfl
    (printsHiCompiled.load_at []) hheld (by decide) (by decide) (Or.inr (by decide))
    (hread ⟨.data 0, 997⟩ (by decide)) (hread ⟨.data 1, 996⟩ (by decide)) htext⟩

end Program

end AccumulatorMachine
