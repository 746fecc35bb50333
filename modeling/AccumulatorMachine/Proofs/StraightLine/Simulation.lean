import AccumulatorMachine.Proofs.CodeSegment
import AccumulatorMachine.Proofs.Lowering.Formula
import AccumulatorMachine.Proofs.StraightLine.Matching

/-!
# Straight-Line Programs in a Machine

A compiled program without loops and string I/O means what the interpreter says.

The proof follows the syntax. The code of a formula agrees with its evaluation, because the code of
an operator comes behind the code of its sides, just as the interpreter evaluates the sides first.
The code of a statement agrees with the statement, and the blocks of a program are run one after
another. All of this is about cores, with no machine in sight.

The machine comes in at the end. The code is straight, it stays in memory since no cell that was
handed out is near it, and so the machine does what the core does.

## Main definitions

* `Compiled.RunsAs`: A run that agrees with the interpreter.

## Theorems

* `StraightLine.formula_agrees`: The code of a formula.
* `StraightLine.form_agrees`: The code of a statement.
* `StraightLine.statements_agree`: The blocks of a program.
* `Program.run_of_runAll`, `Program.run_of_fault`: What the machine makes of them.
* `Program.compile_meaning`: A compiled program means what the interpreter says.
-/

namespace AccumulatorMachine

namespace StraightLine

variable {memory : Memory} {base : Int} {input : List Char} {table table' : SymbolTable} {s : State}
  {c : Core} {code : List Instruction} {f : Statement.Form} {t : Sentence} {span : Span}
  {redeclared : Option (String × Int)}

/-- The code of a formula agrees with its evaluation. -/
theorem formula_agrees {formula : Formula} {a : Int} (h : formula.Lowers table a code table')
    (hloads : memory.Loads table'.cells) (hm : Matches memory base input table s c) :
    Agrees (fun r c => r.1 = a ∧ Matches memory base input table' r.2 c) (formula.eval s)
      (Core.runAll code c) := by
  induction h generalizing s c with
  | @operand o place table table' a ha =>
    rcases hm.locate ha hloads with ⟨s', hs', hm'⟩
    rw [Formula.eval, hs']
    exact Agrees.ok ⟨rfl, hm'⟩
  | @binary operator left right table mid table' a b first second hleft hright ihl ihr =>
    have hwithin := hleft.within hm.within
    have hwithin' := hright.within hwithin.1
    -- The left side is evaluated first, then the right one, and the operator comes last.
    rw [Formula.eval, List.append_assoc, Core.runAll_append]
    refine (ihl (hloads.of_grows hright.grows) hm).bind ?_
    rintro ⟨_, s1⟩ c1 ⟨rfl, hm1⟩
    rw [Core.runAll_append]
    refine (ihr hloads hm1).bind ?_
    rintro ⟨_, s2⟩ c2 ⟨rfl, hm2⟩
    refine (hm2.operate (hwithin.2.mono hright.grows) hwithin'.2 operator).map ?_
    intro s3 c3 hm3
    exact ⟨rfl, hm3⟩
  | paren h ih => exact ih hloads hm

/-- The code of a statement agrees with the statement. -/
theorem form_agrees (hreads : Sentence.Reads f t)
    (h : (Lowering.form span f).run table = .ok ((code, redeclared), table'))
    (hloads : memory.Loads table'.cells) (hm : Matches memory base input table s c) :
    Agrees (Matches memory base input table') (t.exec input s) (Core.runAll code c) := by
  cases hreads with
  | int name value =>
    rcases Lowering.form_int_ok h with ⟨rfl, ⟨info, hinfo, rfl⟩ | ⟨hnone, -, rfl⟩⟩
    · simp only [Sentence.exec, hm.bound hinfo]
      exact Agrees.ok hm
    · simp only [Sentence.exec, hm.unbound hnone]
      exact Agrees.ok (hm.declare hloads)
  | string name text =>
    rcases Lowering.form_string_ok h with ⟨rfl, ⟨info, hinfo, rfl⟩ | ⟨hnone, -, rfl⟩⟩
    · simp only [Sentence.exec, hm.bound hinfo]
      exact Agrees.ok hm
    · simp only [Sentence.exec, hm.unbound hnone]
      -- The cell of the length is one of those that the text leads to.
      have hfirst : memory.Loads (table.fresh name text.toList.length
          (.str text.toList.length)).cells :=
        fun cell hcell => hloads cell (SymbolTable.mem_chars text.toList hcell)
      exact Agrees.ok ((hm.declare hfirst).chars hloads)
  | @new e formula name hreads =>
    rcases Lowering.form_new_ok h with ⟨a, mid, he, rfl⟩
    have hlowers := Lowering.expression_formula hreads he
    refine (formula_agrees hlowers hloads hm).map ?_
    rintro ⟨_, s'⟩ c' ⟨rfl, hm'⟩
    exact hm'.bind (hlowers.within hm.within).2 name .aliased
  | inputInt name =>
    rcases Lowering.form_inputInt_ok h with ⟨-, rfl, rfl⟩
    -- The input is read as a whole, and is the same on both sides.
    cases hvalue : inputInteger? input with
    | none =>
      have hinput : c.effect ⟨.input, integerMode⟩ = .error (.invalidIntegerInput input) := by
        simp only [Core.effect, Core.readInput, if_pos, hm.input, hvalue]
        rfl
      rw [Core.runAll, hinput, Sentence.exec, hvalue]
      exact Agrees.fault (.invalidIntegerInput input)
    | some value =>
      have hinput : c.effect ⟨.input, integerMode⟩
          = .ok (c.setAccumulator value, if c.exhausted then integerMode + 1 else 1) := by
        simp only [Core.effect, Core.readInput, if_pos, hm.input, hvalue]
        rfl
      rw [Core.runAll, hinput, Sentence.exec, hvalue]
      exact Agrees.ok ((hm.setAccumulator value).slot name)
  | outputInt name =>
    rcases Lowering.form_outputInt_ok h with ⟨a, ha, rfl, rfl⟩
    have hname : s.names name = some a := by rw [hm.names, ha]
    rcases hm.cells a (hm.within.bound name a ha) with ⟨value, hread, hcell⟩
    have hstate : (Sentence.outputInt name).exec input s
        = .ok { s with output := s.output ++ Decimal.ofInt value } := by
      rw [Sentence.exec, State.address_of_name hname]
      simp only [bind, Except.bind, State.value_of_cell hcell]
      rfl
    have hcode : Core.runAll [⟨.read, a⟩, ⟨.output, integerMode⟩] c = .ok
        { c.setAccumulator value with printed := Decimal.ofInt value :: c.printed } := by
      rw [Core.runAll, Core.effect_read_of_data hread]
      rfl
    rw [hstate, hcode]
    exact Agrees.ok ((hm.setAccumulator value).print (Decimal.ofInt value))

theorem Sentence.Reads.plain (hreads : Sentence.Reads f t) : f.Plain := by
  cases hreads <;> trivial

/-- The code of a statement always moves on by one. -/
theorem form_straight (hreads : Sentence.Reads f t)
    (h : (Lowering.form span f).run table = .ok ((code, redeclared), table'))
    (hw : table.Within base) : Straight code := by
  cases hreads with
  | int name value =>
    rcases Lowering.form_int_ok h with ⟨rfl, -⟩
    exact Straight.nil
  | string name text =>
    rcases Lowering.form_string_ok h with ⟨rfl, -⟩
    exact Straight.nil
  | new name hreads =>
    rcases Lowering.form_new_ok h with ⟨a, mid, he, rfl⟩
    rcases Lowering.expression_ok he hw with ⟨-, -, -, -, hsteps⟩
    exact hsteps.straight
  | inputInt name =>
    rcases Lowering.form_inputInt_ok h with ⟨-, rfl, rfl⟩
    exact Lowering.straight_inputInt table.cursor
  | outputInt name =>
    rcases Lowering.form_outputInt_ok h with ⟨a, -, rfl, rfl⟩
    exact Lowering.straight_outputInt a

/-- The blocks of a program agree with its statements. They either go on to the end, or one of them
    has the fault that stops the interpreter in its statement. -/
theorem statements_agree {pairs : LoopPairs} {index k : Nat} {opened : List Nat}
    {statements : List Statement} {sentences : List Sentence} {blocks : List Block}
    (hreads : List.Forall₂ (fun s t => Sentence.Reads s.form t) statements sentences)
    (h : (Lowering.statements pairs index opened statements).run table = .ok (blocks, table'))
    (hloads : memory.Loads table'.cells) (hm : Matches memory base input table s c) :
    (∃ s' c', run input k sentences s = .ok s' ∧
      Core.runAll (blocks.flatMap Block.code) c = .ok c' ∧
      Matches memory base input table' s' c') ∨
    ∃ n block c' fault, run input k sentences s = .error (k + n, .fault fault) ∧
      blocks[n]? = some block ∧
      Core.runAll ((blocks.take n).flatMap Block.code) c = .ok c' ∧
      Core.runAll block.code c' = .error fault := by
  induction hreads generalizing index k opened blocks table s c with
  | nil =>
    cases h
    exact Or.inl ⟨s, c, rfl, rfl, hm⟩
  | @cons first t rest ts hfirst hrest ih =>
    rcases Lowering.statements_cons_ok h with ⟨block, opened', mid, blocks', rfl, hblock, hblocks⟩
    have hlowers := Lowering.statement_ok hblock
    have hmid := (hlowers.leaves hm.within).within
    have hgrows := (Lowering.statements_leaves hblocks hmid).grows
    rcases hlowers.form_of_plain hfirst.plain with ⟨redeclared, hform⟩
    have hagrees := form_agrees hfirst hform (hloads.of_grows hgrows) hm
    rw [run, List.flatMap_cons]
    -- Either the first block goes on, or it is the one that fails.
    generalize t.exec input s = result at hagrees
    generalize hcode : Core.runAll block.code c = outcome at hagrees
    cases hagrees with
    | @ok s1 c1 hm1 =>
      rw [Core.runAll_append_of_ok hcode]
      rcases ih (k := k + 1) hblocks hm1 with hends | ⟨n, other, c2, fault, hrun, hn, hpre, hfault⟩
      · exact Or.inl hends
      · refine Or.inr ⟨n + 1, other, c2, fault, ?_, hn, ?_, hfault⟩
        · refine hrun.trans ?_
          rw [Nat.add_right_comm, Nat.add_assoc]
        · rw [List.take_succ_cons, List.flatMap_cons, Core.runAll_append_of_ok hcode]
          exact hpre
    | fault fault => exact Or.inr ⟨0, block, c, fault, rfl, rfl, rfl, hcode⟩

end StraightLine

open StraightLine

/-- A run of a compiled program agrees with a run of the interpreter. If the interpreter comes to
    the end, the machine halts with the same output and the same numbers in the same cells. If it
    stops with a fault in a statement, the machine fails with that fault in the block of the
    statement. It never stops for another reason. -/
def Compiled.RunsAs (compiled : Compiled) (input : List Char) :
    Except (Nat × Stop) State → Prop
  | .ok s => (Machine.load compiled.image input none).run.1.halted = true ∧
      ∃ e, execute compiled.image input none = .ok e ∧ e.output = s.output ∧
        ∀ a, e.memory.data? a = s.cells a
  | .error (k, .fault fault) => ∃ failure, execute compiled.image input none = .error failure ∧
      failure.fault = fault ∧ compiled.InBlock k failure.pc
  | .error _ => False

namespace Program

variable {program : Program} {dataBase : Int} {compiled : Compiled}

theorem StraightLine.straight (hstraight : program.StraightLine)
    (h : program.compile dataBase = .ok compiled) : Straight compiled.code := by
  intro i hi
  rcases List.mem_flatMap.mp hi with ⟨block, hblock, hcode⟩
  rcases compile_block h hblock with
    ⟨_, k, s, openedBefore, before, openedAfter, after, hs, hlowers, hwithin, -⟩
  -- The instruction is in the block of a statement, whose code is straight.
  rcases (hstraight s (List.mem_of_getElem? hs)).reads with ⟨t, hreads⟩
  rcases hlowers.form_of_plain hreads.plain with ⟨redeclared, hform⟩
  exact form_straight hreads hform hwithin i hcode

/-- Only string I/O stores to the reserved addresses. -/
theorem StraightLine.keepsApart (hstraight : program.StraightLine)
    (h : program.compile dataBase = .ok compiled)
    (hcells : ∀ a, compiled.symbols.HandedOut dataBase a → a < 0 ∨ compiled.code.length < a) :
    compiled.KeepsApart dataBase where
  cells := hcells
  scratch := by
    intro a ha hmem
    rcases compile_scratch h ha hmem with ⟨s, hs, hscratch⟩
    have hform := hstraight s hs
    -- A statement that stores to a scratch cell is none of these.
    cases hf : s.form with
    | inputStr | outputStr =>
      rw [hf] at hform
      exact absurd hform id
    | int | string | new | inputInt | outputInt | loop | endLoop =>
      rw [hf] at hscratch
      exact absurd hscratch id

/-- When all statements have run, the cells of the interpreter are all the numbers in memory. -/
theorem data_of_matches (h : program.compile dataBase = .ok compiled) {input : List Char}
    {s : State} {c : Core}
    (hm : Matches compiled.memory dataBase input compiled.symbols s c) (a : Int) :
    c.memory.data? a = s.cells a := by
  -- A cell that was handed out is the same on both sides.
  by_cases ha : compiled.symbols.HandedOut dataBase a
  · rcases hm.cells a ha with ⟨value, hread, hcell⟩
    rw [Memory.data?, hread, hcell]
  · rcases hm.rest a ha with ⟨hread, hcell⟩
    rw [Memory.data?, hread, hcell]
    cases hmemory : compiled.memory.read a with
    | none => rfl
    | some cell =>
      cases cell with
      | code i => rfl
      | data value =>
        exact absurd (compile_read_data h hmemory) ha

section Machine

variable (h : program.compile dataBase = .ok compiled) (hstraight : program.StraightLine)
  (hcells : ∀ a, compiled.symbols.HandedOut dataBase a → a < 0 ∨ compiled.code.length < a)
  (hmax : (compiled.code.length : Int) ≤ Word.maximum) {input : List Char} {c : Core}

include h hstraight hcells hmax

/-- A machine halts if the code of its program has no fault. -/
theorem run_of_runAll
    (hc : Core.runAll compiled.code (Store.core ⟨compiled.memory, input, false, []⟩) = .ok c) :
    ∃ m, (Machine.load compiled.image input none).run = (m, none) ∧ m.halted = true ∧
      m.core = c := by
  have hapart := hstraight.keepsApart h hcells
  rcases (hstraight.straight h).halts hmax (compile_storesApart h hapart) (compile_ready h hapart)
    (compiled.load_at input) hc with ⟨m, hhalted, hcore, hends⟩
  -- The fuel of a run is more than there are words, so it is not used up.
  have hfuel : Nat.pow 2 64 = 18446744073709551616 := rfl
  obtain ⟨spare, hspare⟩ : ∃ spare, Nat.pow 2 64 = compiled.code.length + (spare + 1) :=
    ⟨Nat.pow 2 64 - compiled.code.length - 1, by simp only [Word.maximum] at hmax; omega⟩
  have hrun : (Machine.load compiled.image input none).run
      = Machine.runFor (Nat.pow 2 64) (Machine.load compiled.image input none) := rfl
  rw [hspare, hends spare] at hrun
  exact ⟨m, hrun, hhalted, hcore⟩

/-- A machine fails in the block that has a fault. -/
theorem run_of_fault {n : Nat} {block : Block} {fault : Fault}
    (hn : compiled.blocks[n]? = some block)
    (hpre : Core.runAll ((compiled.blocks.take n).flatMap Block.code)
      (Store.core ⟨compiled.memory, input, false, []⟩) = .ok c)
    (hfault : Core.runAll block.code c = .error fault) :
    ∃ m failure, (Machine.load compiled.image input none).run = (m, some failure) ∧
      failure.fault = fault ∧ compiled.InBlock n failure.pc := by
  have hapart := hstraight.keepsApart h hcells
  have hcode := hstraight.straight h
  have hstores := compile_storesApart h hapart
  -- The machine passes through the blocks before the one that has the fault.
  rcases hcode.passes hmax hstores (compiled.sits_take n).1 (compiled.load_at input)
    (compile_ready h hapart) hpre with ⟨m1, hpass, hat1, hready1⟩
  rw [Nat.zero_add] at hat1
  rcases hcode.fails hmax hstores (compiled.sits hn) hat1 hready1 hfault with
    ⟨p, m2, tick, hp, hfails⟩
  have hle := (compiled.sits hn).le
  have hfuel : Nat.pow 2 64 = 18446744073709551616 := rfl
  obtain ⟨spare, hspare⟩ : ∃ spare, Nat.pow 2 64 = compiled.start n + (p + (spare + 1)) :=
    ⟨Nat.pow 2 64 - compiled.start n - p - 1, by simp only [Word.maximum] at hmax; omega⟩
  have hrun : (Machine.load compiled.image input none).run
      = Machine.runFor (Nat.pow 2 64) (Machine.load compiled.image input none) := rfl
  rw [hspare, Compiled.start, hpass.runFor_add, hfails spare] at hrun
  exact ⟨m2, _, hrun, rfl, block, hn, by simp only; omega, by simp only; omega⟩

end Machine

/-- A straight-line program means what the interpreter says, if none of its cells is among the
    addresses of its code or where the code ends. The length of the code has to be a word, as it is
    an address. -/
theorem compile_meaning (h : program.compile dataBase = .ok compiled)
    (hstraight : program.StraightLine)
    (hcells : ∀ a, compiled.symbols.HandedOut dataBase a → a < 0 ∨ compiled.code.length < a)
    (hmax : (compiled.code.length : Int) ≤ Word.maximum) (input : List Char) :
    (∃ sentences, program.Denotes sentences) ∧ ∀ sentences, program.Denotes sentences →
      compiled.RunsAs input (run input 0 sentences (.start dataBase)) := by
  refine ⟨hstraight.denotes, fun sentences hdenotes => ?_⟩
  rcases compile_ok h with ⟨pairs, -, hlowering, -⟩
  have hloads : compiled.memory.Loads compiled.symbols.cells := fun _ => compile_read_cell h
  have hstart := Matches.start compiled.memory dataBase input
  -- Sentences and instructions agree up to the end, or up to the first one that fails.
  rcases statements_agree (k := 0) hdenotes hlowering hloads hstart with
    ⟨s, c, hs, hc, hm⟩ | ⟨n, block, c, fault, hs, hn, hpre, hfault⟩
  · rcases run_of_runAll h hstraight hcells hmax hc with ⟨m, hrun, hhalted, rfl⟩
    rw [hs]
    refine ⟨by rw [hrun]; exact hhalted, ⟨m.output, m.journal, m.path.memory⟩, ?_, ?_, ?_⟩
    · rw [execute, hrun]
    · rw [hm.output]
      rfl
    · exact data_of_matches h hm
  · rcases run_of_fault h hstraight hcells hmax hn hpre hfault with
      ⟨m, failure, hrun, hkind, hplace⟩
    rw [hs, Nat.zero_add]
    exact ⟨failure, by rw [execute, hrun], hkind, hplace⟩

/-- The expression `2 + n * 3`. -/
def twoPlusProduct : Expression where
  tokens := [(.operand (.literal "2" 2), ⟨20, 21⟩), (.operator .add, ⟨22, 23⟩),
    (.operand (.name "n"), ⟨24, 25⟩), (.operator .multiply, ⟨26, 27⟩),
    (.operand (.literal "3" 3), ⟨28, 29⟩)]
  span := ⟨20, 29⟩

/-- Its tree. -/
def twoPlusProductTree : Formula :=
  .binary .add (.operand (.literal "2" 2))
    (.binary .multiply (.operand (.name "n")) (.operand (.literal "3" 3)))

/-- A program that computes it, and so changes what the literal 2 says. -/
def changesLiteral : Program where
  statements := [⟨.inputInt "n", ⟨0, 12⟩⟩, ⟨.new "x" twoPlusProduct, ⟨14, 29⟩⟩,
    ⟨.new "y" ⟨[(.operand (.literal "2" 2), ⟨37, 38⟩)], ⟨37, 38⟩⟩, ⟨31, 38⟩⟩,
    ⟨.outputInt "y", ⟨40, 53⟩⟩]

/-- The same program, read. -/
def changesLiteralRead : List Sentence :=
  [.inputInt "n", .new "x" twoPlusProductTree, .new "y" (.operand (.literal "2" 2)),
    .outputInt "y"]

/-- The same program, compiled. -/
def changesLiteralCompiled : Compiled where
  blocks := [⟨⟨0, 12⟩, [⟨.input, integerMode⟩, ⟨.write, 1000⟩], false, none⟩,
    ⟨⟨14, 29⟩, [⟨.read, 1000⟩, ⟨.multiply, 998⟩, ⟨.write, 1000⟩, ⟨.read, 999⟩, ⟨.add, 1000⟩,
      ⟨.write, 999⟩], false, none⟩,
    ⟨⟨31, 38⟩, [], false, none⟩,
    ⟨⟨40, 53⟩, [⟨.read, 999⟩, ⟨.output, integerMode⟩], false, none⟩]
  symbols := ⟨[("n", ⟨1000, .slot⟩), ("2", ⟨999, .literal⟩), ("3", ⟨998, .literal⟩),
    ("x", ⟨999, .aliased⟩), ("y", ⟨999, .aliased⟩)], [⟨.data 2, 999⟩, ⟨.data 3, 998⟩], 997⟩

/-- On the input 21 the name that was given the literal 2 is printed as 65. -/
theorem changesLiteral_meaning : changesLiteral.compile 1000 = .ok changesLiteralCompiled ∧
    changesLiteral.Denotes changesLiteralRead ∧
    changesLiteralCompiled.RunsAs ['2', '1'] (run ['2', '1'] 0 changesLiteralRead (.start 1000)) ∧
    (execute changesLiteralCompiled.image ['2', '1'] none).toOption.map Execution.output
      = some "65" := by
  have hcompile : changesLiteral.compile 1000 = .ok changesLiteralCompiled := rfl
  have hlength : changesLiteralCompiled.code.length = 10 := rfl
  have hcells : ∀ a, changesLiteralCompiled.symbols.HandedOut 1000 a →
      a < 0 ∨ changesLiteralCompiled.code.length < a := by
    intro a ha
    have hlow : (997 : Int) < a := ha.1
    exact Or.inr (by omega)
  have hsum : twoPlusProduct.Reads twoPlusProductTree :=
    ⟨rfl, .add (.ofProduct (.ofFactor (.operand _)))
      (.multiply (.ofFactor (.operand _)) (.operand _))⟩
  have hdenotes : changesLiteral.Denotes changesLiteralRead :=
    .cons (.inputInt "n") (.cons (.new "x" hsum)
      (.cons (.new "y" ⟨rfl, .ofProduct (.ofFactor (.operand _))⟩)
        (.cons (.outputInt "y") .nil)))
  have hstraight : changesLiteral.StraightLine := by
    simp only [StraightLine, changesLiteral, List.forall_mem_cons]
    exact ⟨trivial, ⟨twoPlusProductTree, hsum.1⟩, ⟨.operand (.literal "2" 2), rfl⟩, trivial,
      by simp⟩
  have hruns := (compile_meaning hcompile hstraight hcells (by rw [hlength]; decide)
    ['2', '1']).2 changesLiteralRead hdenotes
  refine ⟨hcompile, hdenotes, hruns, ?_⟩
  rcases hruns with ⟨-, e, he, houtput, -⟩
  rw [he]
  exact congrArg some (houtput.trans rfl)

end Program

end AccumulatorMachine
