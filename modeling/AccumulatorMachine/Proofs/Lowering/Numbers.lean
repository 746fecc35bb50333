import AccumulatorMachine.Proofs.Compilation
import AccumulatorMachine.Proofs.Image.RoundTrip
import AccumulatorMachine.Proofs.Lowering.Loops
import AccumulatorMachine.Proofs.Lowering.Tables

/-!
# Numbers of Compiled Programs

That the numbers in the image of a program are words.

A compiler writes down numbers that are nowhere in the source: addresses, the lengths of texts, the
codes of characters, and the distances of jumps. They are computed as plain integers here, so it
has to be shown that each of them fits into a cell. Those in the initial cells come from the
statements. Those in the code are addresses between the cursor and the base, fixed distances, and
the sizes of loops, which are bounded by the number of statements.

So a program has an image of words if its own numbers and its addresses are words and if the
compiler can count its instructions and its statements.

## Main definitions

* `Statement.Form.OfWords`: A statement with words for numbers.
* `SymbolTable.HoldsWords`: A table with words in its initial cells.
* `Program.Fits`: A program that is compiled within the range of words.

## Theorems

* `Lowering.TableStep.holdsWords`: What a statement adds to the table are words.
* `Lowering.form_operands`: The operands in the code of a plain statement.
* `Lowering.Lowers.ofWords`, `Lowering.statements_ofWords`: The numbers of statements.
* `Program.compile_ofWords`: The image of a program is made of words.
-/

namespace AccumulatorMachine

/-- An operand whose number, if it is one, is a word. -/
def Operand.OfWords : Operand → Prop
  | name _ => True
  | literal _ value => Word.InRange value

/-- A part of an expression whose number, if it has one, is a word. -/
def ExpressionToken.OfWords : ExpressionToken → Prop
  | .operand side => side.OfWords
  | _ => True

namespace Statement.Form

/-- A statement whose numbers are words. The length of a text is one of them. -/
def OfWords : Statement.Form → Prop
  | int _ value => Word.InRange value
  | string _ text => text.toList.length ≤ Word.maximum
  | new _ e => ∀ token ∈ e.tokens, token.1.OfWords
  | loop left _ right => left.OfWords ∧ right.OfWords
  | _ => True

/-- The values that a statement gives to new cells are words. -/
theorem OfWords.introduces {f : Statement.Form} (h : f.OfWords) {name : String} {value : Int}
    (hintro : f.Introduces name value) : Word.InRange value := by
  have hmin : Word.minimum ≤ 0 := by decide
  cases hintro with
  | int => exact h
  | string name text => exact ⟨by omega, h⟩
  | literal hmem => exact h _ hmem
  | inputZero | inputOne | outputZero | outputOne => decide

end Statement.Form

namespace SymbolTable

/-- A table with words in its initial cells. -/
def HoldsWords (table : SymbolTable) : Prop := ∀ cell ∈ table.cells, cell.value.OfWords

variable {table : SymbolTable}

theorem HoldsWords.addCell (h : table.HoldsWords) (a : Int) {value : Int}
    (hvalue : Word.InRange value) : (table.addCell a value).HoldsWords := by
  intro cell hcell
  rcases List.mem_append.mp hcell with hcell | hcell
  · exact h cell hcell
  · rw [List.mem_singleton.mp hcell]
    exact hvalue

/-- Handing out an address changes no cell. -/
theorem HoldsWords.taken (h : table.HoldsWords) : table.taken.HoldsWords := h

theorem inRange_char (c : Char) : Word.InRange c.toNat := by
  have hlt : c.toNat < 2 ^ 32 := c.val.toNat_lt
  have hmin : Word.minimum ≤ 0 := by decide
  have hmax : 2 ^ 32 ≤ Word.maximum := by decide
  exact ⟨by omega, by omega⟩

theorem HoldsWords.chars (h : table.HoldsWords) (text : List Char) :
    (SymbolTable.chars text table).HoldsWords := by
  induction text generalizing table with
  | nil => exact h
  | cons c text ih => exact ih (h.taken.addCell _ (inRange_char c))

end SymbolTable

namespace Lowering

section Tables

variable {f : Statement.Form} {table table' : SymbolTable} {span : Span}

/-- What a statement adds to the table are words. -/
theorem TableStep.holdsWords (hstep : TableStep f table table') (hf : f.OfWords)
    (h : table.HoldsWords) : table'.HoldsWords := by
  cases hstep with
  | fresh kind hintro =>
    exact h.taken.addCell _ (hf.introduces hintro)
  | chars text => exact h.chars text
  | slot | bind => exact h

theorem operandAddress_holdsWords {operand : Operand} {a : Int}
    (haddress : (operandAddress operand span).run table = .ok (a, table'))
    (hoperand : operand.OfWords) (h : table.HoldsWords) : table'.HoldsWords := by
  rcases operandAddress_ok haddress with ⟨-, rfl⟩ | ⟨value, hliteral, -, -, -, rfl⟩
  · exact h
  · rw [hliteral] at hoperand
    exact h.taken.addCell _ hoperand

/-- An operand in the code of a plain statement is an address, the next free one if it has no
    effect, or a short distance. -/
theorem form_operands {code : List Instruction} {redeclared : Option (String × Int)} {base : Int}
    (h : (form span f).run table = .ok ((code, redeclared), table')) (hw : table.Within base) :
    ∀ i ∈ code, i.opcode.namesCell = true ∨ i.operand = table'.cursor ∨
      (-11 ≤ i.operand ∧ i.operand ≤ 9) := by
  -- What names no cell is a mode, a distance inside the code for a string, or an idle operand.
  cases f with
  | int name value =>
    rcases form_int_ok h with ⟨rfl, -⟩
    simp
  | string name text =>
    rcases form_string_ok h with ⟨rfl, -⟩
    simp
  | new name e =>
    rcases form_new_ok h with ⟨a, mid, he, -⟩
    rcases expression_ok he hw with ⟨-, -, -, -, hsteps⟩
    intro i hi
    refine Or.inl ?_
    rcases (hsteps.mem hi).1 with hop | hop | ⟨operator, hop⟩
    · rw [hop]
      rfl
    · rw [hop]
      rfl
    · rw [hop]
      cases operator <;> rfl
  | inputInt name =>
    rcases form_inputInt_ok h with ⟨-, rfl, -⟩
    simp [OpCode.namesCell, integerMode]
  | outputInt name =>
    rcases form_outputInt_ok h with ⟨a, -, rfl, -⟩
    simp [OpCode.namesCell, integerMode]
  | inputStr =>
    rcases form_inputStr_ok h with ⟨zero, one, mid, -, -, rfl⟩
    simp [inputStrCode, OpCode.namesCell, characterMode]
  | outputStr name =>
    rcases form_outputStr_ok h with ⟨zero, one, string, mid, -, -, -, rfl⟩
    simp [outputStrCode, OpCode.namesCell, characterMode]
  | loop left comparison right =>
    cases h
    simp
  | endLoop =>
    cases h
    simp

end Tables

/-- The sizes of loops are small enough for the distances of their jumps. -/
def SizesFit (sizes : List Nat) : Prop := ∀ count ∈ sizes, (count : Int) + 6 ≤ Word.maximum

section Statements

variable {pairs : LoopPairs} {index : Nat} {opened opened' : List Nat} {s : Statement}
  {block : Block} {table table' : SymbolTable} {base : Int}

/-- A statement adds words to the table and has words for operands. -/
theorem Lowers.ofWords (h : Lowers pairs index opened table s block opened' table')
    (hs : s.form.OfWords) (hw : table.Within base) (hbase : base ≤ Word.maximum)
    (hcursor : Word.minimum ≤ table'.cursor)
    (hpairs : ∀ start stop, pairs.endOf? start = some stop → SizesFit [stop - start + 1])
    (hopened : SizesFit opened) (htable : table.HoldsWords) :
    table'.HoldsWords ∧ (∀ i ∈ block.code, Word.InRange i.operand) ∧ SizesFit opened' := by
  have hleaves := h.leaves hw
  have hle := hleaves.within.cursor_le
  have hmin : Word.minimum ≤ -11 := by decide
  have hmax : 9 ≤ Word.maximum := by decide
  -- Whatever names a cell is an address that was handed out, or a reserved one.
  have hcell : ∀ i ∈ block.code, i.opcode.namesCell = true → Word.InRange i.operand := by
    intro i hi hop
    rcases hleaves.names i hi hop with hcell | hreserved
    · exact ⟨by have := hcell.1; omega, by have := hcell.2; omega⟩
    · rcases SymbolTable.isReserved_iff.mp hreserved with heq | heq <;> rw [heq] <;> decide
  cases h with
  | @loop left right comparison stop a b mid _ hform hstop hleft hright =>
    have hsize := hpairs index stop hstop
    have hcount := hsize _ List.mem_cons_self
    rw [hform] at hs
    refine ⟨operandAddress_holdsWords hright hs.2 (operandAddress_holdsWords hleft hs.1 htable),
      fun i hi => ?_, ?_⟩
    · by_cases hop : i.opcode.namesCell = true
      · exact hcell i hi hop
      · simp only [loopHead, List.mem_cons, List.not_mem_nil, or_false] at hi
        rcases hi with rfl | rfl | rfl | rfl
        · exact absurd rfl hop
        · exact absurd rfl hop
        · exact ⟨hcursor, by simp only; omega⟩
        · exact ⟨by simp only; omega, by simp only; omega⟩
    · intro count hmem
      rcases List.mem_cons.mp hmem with rfl | hmem
      · exact hcount
      · exact hopened count hmem
  | @endLoop count outer hform hsizes =>
    subst hsizes
    have hcount := hopened count List.mem_cons_self
    refine ⟨htable, fun i hi => ?_, fun other hmem => hopened other (List.mem_cons_of_mem _ hmem)⟩
    rw [List.mem_singleton.mp hi]
    have hlow : Word.minimum = -Word.maximum - 1 := by decide
    exact ⟨by simp only; omega, by simp only; omega⟩
  | plain hplain hform =>
    refine ⟨(form_tables hform).induction (fun _ _ hstep => hstep.holdsWords hs) htable,
      fun i hi => ?_, hopened⟩
    rcases form_operands hform hw i hi with hop | heq | hshort
    · exact hcell i hi hop
    · rw [heq]
      exact ⟨hcursor, by omega⟩
    · exact ⟨by omega, by omega⟩

/-- Statements add words to the table and have words for operands. -/
theorem statements_ofWords {ss : List Statement} {blocks : List Block}
    (h : (statements pairs index opened ss).run table = .ok (blocks, table'))
    (hs : ∀ s ∈ ss, s.form.OfWords) (hw : table.Within base) (hbase : base ≤ Word.maximum)
    (hcursor : Word.minimum ≤ table'.cursor)
    (hpairs : ∀ start stop, pairs.endOf? start = some stop → SizesFit [stop - start + 1])
    (hopened : SizesFit opened) (htable : table.HoldsWords) :
    table'.HoldsWords ∧ ∀ i ∈ blocks.flatMap Block.code, Word.InRange i.operand := by
  induction ss generalizing index opened table blocks with
  | nil =>
    cases h
    exact ⟨htable, by simp⟩
  | cons s rest ih =>
    rcases statements_cons_ok h with ⟨block, opened', mid, blocks', rfl, hfirst, hrest⟩
    have hlowers := statement_ok hfirst
    have hwithin := (hlowers.leaves hw).within
    -- The cursor only goes down, so it is a word here if it is one at the end.
    have hgrows := (statements_leaves hrest hwithin).grows.cursor_le
    rcases hlowers.ofWords (hs s List.mem_cons_self) hw hbase (by omega) hpairs hopened htable with
      ⟨hmid, hblock, hopened'⟩
    rcases ih hrest (fun other hother => hs other (List.mem_cons_of_mem s hother)) hwithin hopened'
      hmid with ⟨hlast, hblocks⟩
    refine ⟨hlast, fun i hi => ?_⟩
    rcases List.mem_append.mp (List.flatMap_cons ▸ hi) with hi | hi
    · exact hblock i hi
    · exact hblocks i hi

end Statements

end Lowering

namespace Program

variable {program : Program} {dataBase : Int} {compiled : Compiled}

/-- A program that is compiled within the range of words: its own numbers and its data base are
    words, and the compiler can count its instructions and its statements. -/
structure Fits {c : Countdown} (program : Program) (dataBase : Int) (compiled : Compiled c) :
    Prop where
  numbers : ∀ s ∈ program.statements, s.form.OfWords
  base : Word.InRange dataBase
  code : compiled.code.length ≤ Word.maximum
  statements : program.statements.length + 6 ≤ Word.maximum

/-- The image of a program that fits is made of words if its addresses are words. -/
theorem compile_ofWords (h : program.compile dataBase = .ok compiled)
    (hfits : program.Fits dataBase compiled) (hcursor : Word.minimum ≤ compiled.symbols.cursor) :
    compiled.image.OfWords := by
  rcases compile_ok h with ⟨pairs, hpairs, hlowering, -⟩
  -- A jump of a loop is as long as the loop, which has no more statements than the program.
  have hsizes : ∀ start stop, pairs.endOf? start = some stop →
      Lowering.SizesFit [stop - start + 1] := by
    intro start stop hstop count hcount
    rcases LoopPairs.endOf?_ok hpairs hstop with ⟨hlt, -, s, hs, -⟩
    have hlast := (List.getElem?_eq_some_iff.mp hs).1
    have hall := hfits.statements
    rw [List.mem_singleton.mp hcount]
    omega
  rcases Lowering.statements_ofWords hlowering hfits.numbers (.empty dataBase) hfits.base.2
    hcursor hsizes (fun _ hmem => nomatch hmem) (fun _ hmem => nomatch hmem) with
    ⟨hcells, hoperands⟩
  intro cell hcell
  have hmin : Word.minimum ≤ 0 := by decide
  rcases List.mem_append.mp hcell with hcell | hcell
  · rcases Image.mem_codeCells.mp hcell with ⟨n, i, hi, rfl⟩
    have hlt : n < compiled.code.length := (List.getElem?_eq_some_iff.mp hi).1
    have hcode := hfits.code
    exact ⟨hoperands i (List.mem_of_getElem? hi), by simp only; omega, by simp only; omega⟩
  · have hout := ((compile_cells h).1 cell hcell).2.1
    have hbase := hfits.base.2
    exact ⟨hcells cell hcell, by have := hout.1; omega, by have := hout.2; omega⟩

end Program

end AccumulatorMachine
