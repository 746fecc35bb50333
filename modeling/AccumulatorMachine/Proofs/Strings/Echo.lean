import AccumulatorMachine.Proofs.CodeSegment
import AccumulatorMachine.Proofs.Machine.History
import AccumulatorMachine.Proofs.Strings.Cells

/-!
# Echo of the Input

What the block that reads a string does.

The block prints every character as soon as it has read it. Its counter is compared with the cell it
was set from, so the comparison always comes out the same and never ends the loop. The end is left
to the read itself: where it finds no character, the program counter moves by its operand and by one
more, and that is just behind the block.

A character is read only if none was missed before. No machine that runs from the start has missed
one and has input left, so the block takes all that is left, even if another such block came before
it.

## Main definitions

* `Echoes`: A core after characters were echoed.
* `Machine.HasEchoed`: A machine that has echoed its input.

## Theorems

* `Machine.input_eq_nil_of_exhausted`: Where a character was missed there is no input.
* `Fragment.echoLoop_round`, `Fragment.echoLoop_leaves`: Once around the loop, and out of it.
* `Fragment.inputStr_takes`: The loop echoes what is left of the input.
* `Program.echoes_input`: The block that reads a string, at any address.
* `Program.copies_input`: A program with nothing else copies its input.
* `Program.cells_beside_inputStr`: Such a program does not run into its data.
* `Program.inputStr_echoes`: The block echoes, and the program copies.
-/

namespace AccumulatorMachine

namespace Core

variable {c : Core}

theorem effect_input_of_cons {ch : Char} {rest : List Char} (h : c.input = ch :: rest)
    (hx : c.exhausted = false) {mode : Int} (hmode : mode ≠ integerMode) :
    c.effect ⟨.input, mode⟩ = .ok ({ c with input := rest }.setAccumulator ch.toNat, 1) := by
  have hread : c.readInput mode = .ok ({ c with input := rest }.setAccumulator ch.toNat) := by
    rw [readInput, if_neg hmode, h]
  rw [effect]
  simp only [hread, bind, Except.bind]
  rw [setAccumulator, hx]
  rfl

theorem effect_input_of_nil (h : c.input = []) {mode : Int} (hmode : mode ≠ integerMode) :
    c.effect ⟨.input, mode⟩
      = .ok ({ c with exhausted := true }.setAccumulator c.acc, mode + 1) := by
  have hread : c.readInput mode = .ok ({ c with exhausted := true }.setAccumulator c.acc) := by
    rw [readInput, if_neg hmode, h]
  rw [effect]
  simp only [hread]
  rfl

end Core

/-- Where a character was missed there is no input. -/
theorem Machine.input_eq_nil_of_exhausted {image : Image} {input : List Char} {limit : Option Nat}
    {m : Machine} (h : Reachable image input limit m) :
    m.path.exhausted = true → m.path.input = [] := by
  induction h with
  | load => exact fun hx => nomatch hx
  | @step m _ ih =>
    by_cases hhalted : m.halted = true
    · rw [step_of_halted hhalted]
      exact ih
    · rw [step, if_neg hhalted]
      exact ((leads_cycle m).exhausted_kept ih).2

/-- A core after characters were echoed, which are gone from the input and have been printed. Of
    the cells only those of the loop are touched, and one of them has the last character. -/
structure Echoes (c : Core) (text : List Char) (c' : Core) : Prop where
  printed : c'.printed = (text.map String.singleton).reverse ++ c.printed
  input : c.input = text ++ c'.input
  buffer : ∀ ch, text.getLast? = some ch → c'.memory.read bufferCell = some (.data ch.toNat)
  unbuffered : text = [] → c'.memory.read bufferCell = c.memory.read bufferCell
  memory : ∀ a, a ≠ counterCell → a ≠ bufferCell → c'.memory.read a = c.memory.read a

theorem Echoes.trans {c mid c' : Core} {first second : List Char} (h : Echoes c first mid)
    (h' : Echoes mid second c') : Echoes c (first ++ second) c' where
  printed := by
    rw [h'.printed, h.printed]
    simp
  input := by rw [h.input, h'.input, List.append_assoc]
  buffer := by
    intro ch hch
    rw [List.getLast?_append] at hch
    -- What is in the buffer is the last character of both parts together.
    cases hlast : second.getLast? with
    | none =>
      rw [hlast] at hch
      rw [h'.unbuffered (List.getLast?_eq_none_iff.mp hlast)]
      exact h.buffer ch hch
    | some other =>
      rw [hlast] at hch
      rw [h'.buffer other hlast]
      cases hch
      rfl
  unbuffered := by
    intro hnil
    rcases List.append_eq_nil_iff.mp hnil with ⟨hfirst, hsecond⟩
    rw [h'.unbuffered hsecond, h.unbuffered hfirst]
  memory := fun a ha ha' => (h'.memory a ha ha').trans (h.memory a ha ha')

namespace Fragment

section Loop

variable {zero cursor value : Int} {c : Core} (hzero : c.memory.read zero = some (.data value))
  (hcounter : c.memory.read counterCell = some (.data value))

include hzero hcounter

/-- The comparison at the head of the loop, which always leads into it. -/
theorem echoLoop_enters : Takes (Lowering.inputStrCode zero cursor) 3 6 (2, c)
    (6, c.setAccumulator 0) := by
  have hread : Step (Lowering.inputStrCode zero cursor) (2, c) (3, c.setAccumulator value) :=
    Step.mk rfl (Core.effect_read_of_data hcounter) rfl
  have hsame : value - value = 0 := Int.sub_self value
  have hsubtract : Step (Lowering.inputStrCode zero cursor) (3, c.setAccumulator value)
      (4, c.setAccumulator (value - value)) :=
    Step.mk rfl (Core.effect_subtract_of_data (c := c.setAccumulator value) hzero
      (hsame ▸ by decide : Word.InRange (value - value))) rfl
  rw [hsame] at hsubtract
  have hskip : Step (Lowering.inputStrCode zero cursor) (4, c.setAccumulator 0)
      (6, c.setAccumulator 0) := Step.mk rfl rfl rfl
  exact ((Takes.single hread).tail hsubtract).tail hskip

/-- The way out of the loop, where there is no character. -/
theorem echoLoop_leaves (hinput : c.input = []) :
    ∃ c', Takes (Lowering.inputStrCode zero cursor) 4 8 (2, c) (10, c') ∧ Echoes c [] c' ∧
      c'.memory = c.memory ∧ c'.exhausted = true ∧ c'.acc = 0 := by
  have henters : Takes (Lowering.inputStrCode zero cursor) 3 6 (2, c) _ :=
    echoLoop_enters hzero hcounter
  have hmissed : Step (Lowering.inputStrCode zero cursor) (6, c.setAccumulator 0)
      (10, { c.setAccumulator 0 with exhausted := true }.setAccumulator 0) :=
    Step.mk rfl (Core.effect_input_of_nil (c := c.setAccumulator 0) hinput (by decide)) rfl
  refine ⟨_, henters.tail hmissed, ⟨rfl, rfl, ?_, fun _ => rfl, fun _ _ _ => rfl⟩, rfl, rfl, rfl⟩
  intro ch hch
  cases hch

/-- Once around the loop: a character is read, kept and printed. -/
theorem echoLoop_round {ch : Char} {rest : List Char} (hinput : c.input = ch :: rest)
    (hx : c.exhausted = false) :
    ∃ c', Takes (Lowering.inputStrCode zero cursor) 7 14 (2, c) (2, c') ∧ Echoes c [ch] c' ∧
      c'.memory.read counterCell = some (.data value) ∧ c'.exhausted = false := by
  have henters : Takes (Lowering.inputStrCode zero cursor) 3 6 (2, c) _ :=
    echoLoop_enters hzero hcounter
  -- The states of the machine are named for what was done last.
  let taken := { c.setAccumulator 0 with input := rest }.setAccumulator ch.toNat
  have hread : Step (Lowering.inputStrCode zero cursor) (6, c.setAccumulator 0) (7, taken) :=
    Step.mk rfl (Core.effect_input_of_cons (c := c.setAccumulator 0) hinput hx (by decide)) rfl
  let kept := taken.store bufferCell
  have hwrite : Step (Lowering.inputStrCode zero cursor) (7, taken) (8, kept) :=
    Step.mk rfl rfl rfl
  let printed := { kept with printed := String.singleton ch :: c.printed }
  have houtput : Step (Lowering.inputStrCode zero cursor) (8, kept) (9, printed) :=
    Step.mk rfl (Core.effect_output_of_char (c := kept) rfl) rfl
  have hback : Step (Lowering.inputStrCode zero cursor) (9, printed) (2, printed) :=
    Step.mk rfl rfl rfl
  have hcell : ∀ a, printed.memory.read a
      = if a = bufferCell then some (.data ch.toNat) else c.memory.read a :=
    fun a => Memory.read_write c.memory bufferCell a _
  refine ⟨printed, (((henters.tail hread).tail hwrite).tail houtput).tail hback,
    ⟨rfl, hinput, ?_, ?_, ?_⟩, ?_, hx⟩
  · intro last hlast
    cases hlast
    exact (hcell bufferCell).trans (if_pos rfl)
  · intro hnil
    cases hnil
  · intro a _ ha
    exact (hcell a).trans (if_neg ha)
  · exact ((hcell counterCell).trans (if_neg (by decide))).trans hcounter

/-- From the head of the loop on, what is left of the input is echoed. Every character is
    counted. -/
theorem echoLoop_echoes {text : List Char} (hinput : c.input = text)
    (hx : c.exhausted = true → c.input = []) (hfree : zero ≠ counterCell)
    (hfree' : zero ≠ bufferCell) :
    ∃ c', Takes (Lowering.inputStrCode zero cursor) (7 * text.length + 4) (14 * text.length + 8)
        (2, c) (10, c') ∧ Echoes c text c' ∧
      c'.memory.read counterCell = some (.data value) ∧ c'.exhausted = true ∧ c'.acc = 0 := by
  induction text generalizing c with
  | nil =>
    rcases echoLoop_leaves hzero hcounter hinput with ⟨c', htakes, hechoes, hmemory, hlast⟩
    exact ⟨c', htakes, hechoes, by rw [hmemory, hcounter], hlast⟩
  | cons ch rest ih =>
    -- There is a character, so none was missed.
    have hgoing : c.exhausted = false := by
      by_contra hmissed
      rw [hx (Bool.not_eq_false _ ▸ hmissed)] at hinput
      cases hinput
    rcases echoLoop_round hzero hcounter hinput hgoing with ⟨mid, hround, hechoes, hmid, hgoing'⟩
    have hrest : mid.input = rest := by
      have hsplit := hechoes.input
      rw [hinput] at hsplit
      exact (List.cons.inj hsplit).2.symm
    rcases ih ((hechoes.memory zero hfree hfree').trans hzero) hmid hrest
      (fun hmissed => by rw [hgoing'] at hmissed; cases hmissed) with
      ⟨c', htakes, hechoes', hlast⟩
    refine ⟨c', (hround.trans htakes).of_eq ?_ ?_, hechoes.trans hechoes', hlast⟩
    · rw [List.length_cons]
      omega
    · rw [List.length_cons]
      omega

end Loop

/-- The code that reads a string comes to its end and has echoed what was left of the input. -/
theorem inputStr_takes {zero cursor value : Int} {c : Core}
    (hzero : c.memory.read zero = some (.data value))
    (hx : c.exhausted = true → c.input = []) (hfree : zero ≠ counterCell)
    (hfree' : zero ≠ bufferCell) :
    ∃ c', Takes (Lowering.inputStrCode zero cursor) (7 * c.input.length + 6)
        (14 * c.input.length + 12) (0, c) (10, c') ∧ Echoes c c.input c' ∧
      c'.memory.read counterCell = some (.data value) ∧ c'.exhausted = true ∧ c'.acc = 0 := by
  -- Two instructions set the counter, and all others are those of the loop.
  let counting := (c.setAccumulator value).store counterCell
  have hread : ∀ a, counting.memory.read a
      = if a = counterCell then some (.data value) else c.memory.read a :=
    fun a => Memory.read_write c.memory counterCell a _
  have hload : Step (Lowering.inputStrCode zero cursor) (0, c) (1, c.setAccumulator value) :=
    Step.mk rfl (Core.effect_read_of_data hzero) rfl
  have hset : Step (Lowering.inputStrCode zero cursor) (1, c.setAccumulator value)
      (2, counting) := Step.mk rfl rfl rfl
  have hstarts : Takes (Lowering.inputStrCode zero cursor) 2 4 (0, c) (2, counting) :=
    (Takes.single hload).tail hset
  have hechoes : Echoes c [] counting :=
    ⟨rfl, rfl, fun _ hch => (nomatch hch), fun _ => (hread bufferCell).trans (if_neg (by decide)),
      fun a ha _ => (hread a).trans (if_neg ha)⟩
  have hinput : counting.input = c.input := rfl
  rcases echoLoop_echoes (c := counting) (((hread zero).trans (if_neg hfree)).trans hzero)
    ((hread counterCell).trans (if_pos rfl)) hinput hx hfree hfree' with
    ⟨c', htakes, hechoes', hlast⟩
  exact ⟨c', (hstarts.trans htakes).of_eq (by omega) (by omega), hechoes.trans hechoes', hlast⟩

end Fragment

/-- A machine that has echoed its input, and has changed nothing else that a program can see but its
    accumulator and the two cells of the loop. One of them has the value that the loop was started
    with, and the other one the last character, if there was one. -/
structure Machine.HasEchoed (m : Machine) (value : Int) (m' : Machine) : Prop where
  tick : m'.tick = m.tick + (14 * m.core.input.length + 12)
  output : m'.output = m.output ++ String.ofList m.core.input
  input : m'.core.input = []
  exhausted : m'.core.exhausted = true
  acc : m'.core.acc = 0
  counter : m'.core.memory.read counterCell = some (.data value)
  buffer : ∀ ch, m.core.input.getLast? = some ch →
    m'.core.memory.read bufferCell = some (.data ch.toNat)
  unbuffered : m.core.input = [] → m'.core.memory.read bufferCell = m.core.memory.read bufferCell
  cells : ∀ a, a ≠ counterCell → a ≠ bufferCell →
    m'.core.memory.read a = m.core.memory.read a

/-- The code that reads a string stores to its two cells only. -/
theorem Lowering.inputStrCode_stores {zero cursor : Int} :
    ∀ i ∈ inputStrCode zero cursor, i.opcode = .write →
      i.operand = counterCell ∨ i.operand = bufferCell := by
  simp [inputStrCode]

namespace Program

variable {program : Program} {dataBase : Int} {compiled : Compiled}
  (h : program.compile dataBase = .ok compiled)

include h

/-- The block that reads a string works on the cell of the literal `0`, which is no scratch cell. -/
theorem compile_inputStr {k : Nat} (hk : program.formAt? k = some .inputStr) :
    ∃ block zero cursor, compiled.blocks[k]? = some block ∧
      block.code = Lowering.inputStrCode zero cursor ∧
      program.addressAt? dataBase k (.ofInt 0) = some zero ∧
      zero ≠ counterCell ∧ zero ≠ bufferCell := by
  rcases Option.map_eq_some_iff.mp hk with ⟨s, hs, hf⟩
  rcases compile_tables h hs (by rw [hf]; trivial) with
    ⟨block, before, after, hblock, hbefore, hafter, hform⟩
  rw [hf] at hform
  rcases Lowering.form_inputStr_ok hform with ⟨zero, one, mid, hzero, hone, hcode⟩
  have hzero' := Lowering.literal_keeps hone (Lowering.literal_binds hzero)
  refine ⟨block, zero, after.cursor, hblock, hcode, (addressAt?_eq hafter _).trans hzero', ?_, ?_⟩
  · rintro rfl
    cases unreserved_of_bound h hafter hzero'
  · rintro rfl
    cases unreserved_of_bound h hafter hzero'

/-- The block that reads a string echoes what is left of the input. Wherever it stands in memory, as
    long as none of its two cells is in it, a machine that has come in front of it from the start of
    a run comes to its end. -/
theorem echoes_input {k : Nat} (hk : program.formAt? k = some .inputStr) {block : Block}
    (hblock : compiled.blocks[k]? = some block) {zero : Int}
    (hzero : program.addressAt? dataBase k (.ofInt 0) = some zero)
    {image : Image} {input : List Char} {m : Machine} (hm : m.Reachable image input none)
    {start : Int} {c : Core} (hat : m.At start c) (hheld : c.memory.HoldsAt block.code start)
    (hlow : Word.minimum ≤ start) (hhigh : start + 10 ≤ Word.maximum)
    (hbeside : ∀ a ∈ [counterCell, bufferCell], a < start ∨ start + 10 ≤ a) {value : Int}
    (hvalue : c.memory.read zero = some (.data value)) :
    ∃ m', Machine.Passes start (start + 10) (7 * m.core.input.length + 6) m m' ∧
      m'.At (start + 10) m'.core ∧ m.HasEchoed value m' := by
  rcases compile_inputStr h hk with ⟨block', zero', cursor, hblock', hcode, hzero', hfree, hfree'⟩
  cases hblock.symm.trans hblock'
  cases hzero.symm.trans hzero'
  have hcore := hat.core_eq
  subst hcore
  have hlength : block.code.length = 10 := by
    rw [hcode]
    rfl
  -- The two cells that the block stores to are not in it.
  have hstores : StoresBeside block.code start 10 := by
    intro i hi hop n hn
    rw [hcode] at hi
    have hcounter := hbeside counterCell (by simp)
    have hbuffer := hbeside bufferCell (by simp)
    rcases Lowering.inputStrCode_stores i hi hop with hcell | hcell
    · omega
    · omega
  have hself : Fragment.SelfContained block.code := by
    rw [hcode]
    exact Fragment.selfContained_inputStr zero cursor
  have hmissed : m.core.exhausted = true → m.core.input = [] := m.input_eq_nil_of_exhausted hm
  rcases Fragment.inputStr_takes hvalue hmissed hfree hfree' with
    ⟨c', htakes, hechoes, hcounter, hexhausted, hacc⟩
  rw [← hcode] at htakes
  rcases hself.passes_to_end hlength hstores hlow hhigh hat hheld htakes with
    ⟨m', hpass, hend, htick, hcore'⟩
  subst hcore'
  have hinput : m'.core.input = [] := by
    have hsplit := hechoes.input
    rwa [List.self_eq_append_right] at hsplit
  exact ⟨m', hpass, hend, htick,
    Machine.output_of_printed (by rw [hechoes.printed, String.toList_ofList]), hinput, hexhausted,
    hacc, hcounter, hechoes.buffer, hechoes.unbuffered, hechoes.memory⟩

/-- The code of a single statement is that of its block. -/
theorem code_of_single {s : Statement} (hsingle : program.statements = [s]) {block : Block}
    (hblock : compiled.blocks[0]? = some block) : compiled.code = block.code := by
  have hlength := compile_length h
  rw [hsingle, List.length_singleton] at hlength
  rcases List.length_eq_one_iff.mp hlength with ⟨other, hblocks⟩
  rw [hblocks] at hblock
  cases hblock
  rw [Compiled.code, hblocks, List.flatMap_singleton]

/-- Where nothing but a string is read, the cell of the literal `0` has its value from the start. -/
theorem zero_of_inputStr {span : Span} (hsingle : program.statements = [⟨.inputStr, span⟩])
    {zero : Int} (hzero : program.addressAt? dataBase 0 (.ofInt 0) = some zero) :
    compiled.memory.read zero = some (.data 0) := by
  have hloopFree : program.LoopFree := by
    intro s hs
    rw [hsingle] at hs
    rw [List.mem_singleton.mp hs]
    trivial
  have hfaithful : ∀ s ∈ program.statements, s.form.Faithful := by
    intro s hs
    rw [hsingle] at hs
    rw [List.mem_singleton.mp hs]
    trivial
  rcases compile_tableAt h 1 with ⟨table, htable, -⟩
  have hbound : table.addressOf? (Operand.ofInt 0).render = some zero :=
    (addressAt?_eq htable _).symm.trans hzero
  have hcell := (compile_tableAt_grows h htable).mem_cells
    (literal_cell h hloopFree hfaithful (by decide : Decimal.word? _ = some 0) htable hbound)
  exact compile_read_cell h hcell

/-- A program that does nothing but read a string copies its input to the output and halts, whatever
    the input is. The only condition is that there is no data cell where its code ends. -/
theorem copies_input {span : Span} (hsingle : program.statements = [⟨.inputStr, span⟩])
    (hends : ∀ cell ∈ compiled.symbols.cells, cell.address ≠ compiled.code.length)
    (input : List Char) :
    ∃ m, compiled.image.HaltsIn input m ∧ m.output = String.ofList input := by
  have hform : program.formAt? 0 = some .inputStr := by
    rw [formAt?, hsingle]
    rfl
  rcases compile_inputStr h hform with ⟨block, zero, cursor, hblock, hcode, hzero, -⟩
  have hall := code_of_single h hsingle hblock
  have hten : compiled.code.length = 10 := by
    rw [hall, hcode]
    rfl
  have hheld : compiled.memory.HoldsAt block.code 0 := by
    intro n i hi
    rw [Int.zero_add]
    exact compile_holds h n i (hall ▸ hi)
  rcases echoes_input h hform hblock hzero .load (compiled.load_at input) hheld (by decide)
    (by decide) (by decide) (zero_of_inputStr h hsingle hzero) with ⟨m, hpass, hat, hechoed⟩
  -- Behind the code there is nothing, and nothing was stored there.
  have hnone : m.core.memory.read 10 = none := by
    rw [hechoed.cells 10 (by decide) (by decide)]
    refine compiled.memory_none (by omega) fun cell hcell => ?_
    have hne := hends cell hcell
    rwa [hten] at hne
  rcases Image.halts_of_passes hpass hat hnone with ⟨m', hhalts, houtput⟩
  refine ⟨m', hhalts, ?_⟩
  rw [houtput, hechoed.output]
  rfl

omit h in
/-- With the usual address for its data, a program that only reads a string has no data cell where
    its code ends. -/
theorem cells_beside_inputStr {span : Span} (hsingle : program.statements = [⟨.inputStr, span⟩])
    (h : program.compile dataSegmentBase = .ok compiled) :
    ∀ cell ∈ compiled.symbols.cells, cell.address ≠ compiled.code.length := by
  obtain ⟨statements⟩ := program
  cases hsingle
  have hcompile : (Program.mk [⟨.inputStr, span⟩]).compile dataSegmentBase = .ok
      { blocks := [⟨span, Lowering.inputStrCode 1000 998, false, none⟩]
        symbols := ⟨[("0", ⟨1000, .literal⟩), ("1", ⟨999, .literal⟩)],
          [⟨.data 0, 1000⟩, ⟨.data 1, 999⟩], 998⟩ } := rfl
  rw [hcompile] at h
  cases h
  have hlength : (Lowering.inputStrCode 1000 998).length = 10 := rfl
  simp [Compiled.code, hlength]

/-- The block that reads a string echoes the whole input. Wherever it stands in memory, as long as
    none of its two cells is in it, and whatever the cell of the literal `0` holds by then, a
    machine that has come in front of it from the start of a run echoes what is left of the input.
    So a program with nothing but such a block copies every input to the output and halts. That is
    so with the usual address for its data, and with any other as long as there is no data cell
    right behind the code. -/
theorem inputStr_echoes :
    (∀ k block zero, program.formAt? k = some .inputStr → compiled.blocks[k]? = some block →
      program.addressAt? dataBase k (.ofInt 0) = some zero →
      ∀ image input m start c value, Machine.Reachable image input none m → m.At start c →
        c.memory.HoldsAt block.code start → Word.minimum ≤ start → start + 10 ≤ Word.maximum →
        (∀ a ∈ [counterCell, bufferCell], a < start ∨ start + 10 ≤ a) →
        c.memory.read zero = some (.data value) →
        ∃ m', Machine.Passes start (start + 10) (7 * m.core.input.length + 6) m m' ∧
          m'.At (start + 10) m'.core ∧ m.HasEchoed value m') ∧
    (∀ span, program.statements = [⟨.inputStr, span⟩] → (dataBase = dataSegmentBase ∨
        ∀ cell ∈ compiled.symbols.cells, cell.address ≠ compiled.code.length) →
      ∀ input, ∃ m, compiled.image.HaltsIn input m ∧ m.output = String.ofList input) := by
  refine ⟨fun _ _ _ hk hblock hzero _ _ _ _ _ _ hm hat hheld hlow hhigh hbeside hvalue =>
    echoes_input h hk hblock hzero hm hat hheld hlow hhigh hbeside hvalue, ?_⟩
  intro span hsingle hbase
  rcases hbase with rfl | hends
  · exact copies_input h hsingle (cells_beside_inputStr hsingle h)
  · exact copies_input h hsingle hends

omit h

/-- A program that copies its input. -/
def echo : Program := ⟨[⟨.inputStr, ⟨0, 9⟩⟩]⟩

/-- The same program, compiled. -/
def echoCompiled : Compiled where
  blocks := [⟨⟨0, 9⟩, Lowering.inputStrCode 1000 998, false, none⟩]
  symbols := ⟨[("0", ⟨1000, .literal⟩), ("1", ⟨999, .literal⟩)],
    [⟨.data 0, 1000⟩, ⟨.data 1, 999⟩], 998⟩

/-- The program takes twenty steps through its block for two characters, and it copies any input. -/
theorem echo_copies : Program.parse? "input_str".toList = .ok echo ∧
    echo.compile dataSegmentBase = .ok echoCompiled ∧
    (∃ m', Machine.Passes 0 10 20 (.load echoCompiled.image ['h', 'i'] none) m' ∧
      m'.At 10 m'.core ∧ (Machine.load echoCompiled.image ['h', 'i'] none).HasEchoed 0 m') ∧
    ∀ input, ∃ m, echoCompiled.image.HaltsIn input m ∧ m.output = String.ofList input := by
  have hsource : Program.parse? "input_str".toList = .ok echo := by decide +kernel
  have hcompile : echo.compile dataSegmentBase = .ok echoCompiled := rfl
  have hheld : echoCompiled.memory.HoldsAt (Lowering.inputStrCode 1000 998) 0 := by
    intro n i hi
    rw [Int.zero_add]
    exact compile_holds hcompile n i hi
  rcases inputStr_echoes hcompile with ⟨hblock, hwhole⟩
  refine ⟨hsource, hcompile, ?_, hwhole _ rfl (Or.inl rfl)⟩
  exact hblock 0 _ _ rfl rfl rfl _ _ _ 0 _ 0 .load (echoCompiled.load_at ['h', 'i']) hheld
    (by decide) (by decide) (by decide)
    (compile_read_cell hcompile (show ⟨.data 0, 1000⟩ ∈ echoCompiled.symbols.cells by decide))

end Program

end AccumulatorMachine
