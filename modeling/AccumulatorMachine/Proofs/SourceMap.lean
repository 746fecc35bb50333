import AccumulatorMachine.Proofs.Lowering.Nesting
import AccumulatorMachine.Proofs.Lowering.Sizes
import AccumulatorMachine.Proofs.Source.Positions
import AccumulatorMachine.Proofs.Spans
import AccumulatorMachine.Proofs.Structured.Interpreter

/-!
# Source Maps

Which statement each instruction of a program is from.

A source map is made of the blocks of a program, and so is its code. Both have as many entries for
a block as the block has instructions. So an address is in the block of one statement only, and the
source map has the span of that statement there. How many instructions a statement has is known
from what it says, so the whole source map can be read off the program.

The blocks come in the order of the statements, and in a source text the statements stand one behind
the other. So spans do not go back when addresses go up, and neither do their lines and columns.

## Main definitions

* `Compiled.lineMap`: The source map with lines and columns.
* `Program.Attributed`: What the source map of a program says.

## Theorems

* `Lowering.Lowers.run_eq`: A statement that was lowered in some way is lowered in that way.
* `Compiled.sourceMap_in_block`, `Compiled.exists_block_of_lt`: The source map at the addresses of a
  block, and the block of an address.
* `Program.sourceMap_eq`: The source map, read off the program.
* `Statement.start_lt_expression`: A statement starts in front of its expression.
* `Program.compile_attributed`: Every instruction is attributed to its statement.
-/

namespace AccumulatorMachine

/-! ## Blocks -/

namespace Lowering

variable {pairs : LoopPairs} {index : Nat} {opened opened' : List Nat} {s : Statement}
  {block : Block} {table table' : SymbolTable}

/-- A statement that was lowered in some way is lowered in that way. -/
theorem Lowers.run_eq (h : Lowers pairs index opened table s block opened' table') :
    (statement pairs index opened s).run table = .ok ((block, opened'), table') := by
  cases h with
  | @loop left right comparison stop a b mid _ hform hstop hleft hright =>
    simp only [statement, hform, hstop]
    rw [Outcome.run_bind_of_ok _ hleft, Outcome.run_bind_of_ok _ hright]
    rfl
  | endLoop hform hopened =>
    subst hopened
    simp only [statement, hform]
    rfl
  | plain hplain hform =>
    rw [statement_of_plain hplain, Outcome.run_bind_of_ok _ hform]
    rfl

end Lowering

namespace Compiled

/-- The source map with lines and columns in place of byte offsets. -/
def lineMap (compiled : Compiled) (source : List Char) : List LineSpan :=
  compiled.sourceMap.map fun span => span.lineSpan source

/-- The instructions in the order of their addresses, each with the span it was emitted for. -/
def listing (compiled : Compiled) : List (Instruction × Span) :=
  compiled.blocks.flatMap fun block => block.code.map fun i => (i, block.span)

variable (compiled : Compiled)

theorem map_fst_listing : compiled.listing.map Prod.fst = compiled.code := by
  simp [listing, code, List.map_flatMap, Function.comp_def]

theorem map_snd_listing : compiled.listing.map Prod.snd = compiled.sourceMap := by
  simp [listing, sourceMap, List.map_flatMap, Function.comp_def]

theorem length_sourceMap : compiled.sourceMap.length = compiled.code.length := by
  rw [← map_fst_listing, ← map_snd_listing, List.length_map, List.length_map]

variable {compiled} {k : Nat} {block : Block}

/-- A block is listed where all blocks before it end. -/
theorem listing_in_block (h : compiled.blocks[k]? = some block) {n : Nat} {i : Instruction}
    (hi : block.code[n]? = some i) :
    compiled.listing[compiled.start k + n]? = some (i, block.span) := by
  have hlength : ((compiled.blocks.take k).flatMap fun block =>
      block.code.map fun i => (i, block.span)).length = compiled.start k := by
    simp only [start, List.length_flatMap, List.length_map]
  have hn : n < (block.code.map fun i => (i, block.span)).length := by
    rw [List.length_map]
    exact (List.getElem?_eq_some_iff.mp hi).1
  rw [listing, LoopPairs.eq_take_append_cons h, List.flatMap_append, List.flatMap_cons,
    List.getElem?_append_right (by rw [hlength]; exact Nat.le_add_right _ _), hlength,
    Nat.add_sub_cancel_left, List.getElem?_append_left hn, List.getElem?_map, hi]
  rfl

/-- The source map has the span of a block at all addresses of the block. -/
theorem sourceMap_in_block (h : compiled.blocks[k]? = some block) {n : Nat}
    (hn : n < block.code.length) :
    compiled.sourceMap[compiled.start k + n]? = some block.span := by
  rw [← map_snd_listing, List.getElem?_map,
    listing_in_block h (List.getElem?_eq_getElem hn)]
  rfl

/-- An address of the code is one in the block of a statement, and has its span. -/
theorem exists_block_of_sourceMap {n : Nat} {span : Span} (h : compiled.sourceMap[n]? = some span) :
    ∃ k block, compiled.blocks[k]? = some block ∧ block.span = span ∧ compiled.start k ≤ n ∧
      n < compiled.start (k + 1) := by
  have hlt : n < compiled.code.length := by
    rw [← length_sourceMap]
    exact (List.getElem?_eq_some_iff.mp h).1
  rcases inBlock_of_lt hlt with ⟨k, block, hblock, hlow, hhigh⟩
  have hplace : compiled.start k + (n - compiled.start k) = n := by omega
  have hspan := sourceMap_in_block hblock (n := n - compiled.start k) (by omega)
  rw [hplace, h] at hspan
  cases hspan
  exact ⟨k, block, hblock, rfl, by omega, by rw [start_succ hblock]; omega⟩

end Compiled

/-! ## Statements -/

namespace Statement

/-- A statement starts in front of its expression, with its keyword. -/
theorem start_lt_expression {segment : Nat × List Char} {s : Statement}
    (h : parse? segment.2 segment.1 = .ok s) {name : String} {e : Expression}
    (hform : s.form = .new name e) : s.span.start < e.span.start := by
  have horder := Token.inOrder_scan segment.1 segment.2
  have hdenotes := parse?_eq_ok_iff.mp h
  generalize hscan : Token.scan segment.1 segment.2 = scanned at horder hdenotes
  obtain @⟨word, place, tokens, form, hfollows⟩ := hdenotes
  obtain rfl : form = .new name e := hform
  rcases hfollows.expression with ⟨front, last, rfl, he⟩
  have hkeyword : place.start < place.stop :=
    Token.start_lt_stop (hscan ▸ List.mem_cons_self :
      ((.keyword word, place) : Token × Span) ∈ Token.scan segment.1 segment.2)
  have horder' : Span.InOrder (((Token.keyword word, place) :: front) ++ last) := horder
  rcases (he.joins horder'.right).1 with ⟨first, hfirst, _, -, -, hspan, -⟩
  have hbehind := horder'.between List.mem_cons_self hfirst
  rw [hspan]
  exact Nat.lt_of_lt_of_le hkeyword hbehind

end Statement

namespace Program

variable {program : Program} {dataBase : Int} {compiled : Compiled} {source : List Char}

/-- The source map of a program has the span of each statement once for each of its instructions. -/
theorem sourceMap_eq (h : program.compile dataBase = .ok compiled) : compiled.sourceMap
    = program.statements.flatMap fun s => List.replicate s.form.size s.span := by
  have hlists : compiled.blocks.map (fun block => List.replicate block.code.length block.span)
      = program.statements.map fun s => List.replicate s.form.size s.span := by
    refine List.ext_getElem? fun k => ?_
    rw [List.getElem?_map, List.getElem?_map]
    cases hs : program.statements[k]? with
    | none =>
      have hlength := List.getElem?_eq_none_iff.mp hs
      rw [← compile_length h] at hlength
      rw [List.getElem?_eq_none_iff.mpr hlength]
      rfl
    | some s =>
      rcases compile_lowers h hs with ⟨_, block, _, _, _, _, hblock, hlowers, -⟩
      rw [hblock, Option.map_some, Option.map_some, hlowers.span_eq, hlowers.length_eq_size]
  rw [Compiled.sourceMap, List.flatMap_def, List.flatMap_def, hlists]

/-- What the source map of a program that was parsed from a text says. -/
structure Attributed (program : Program) (dataBase : Int) (compiled : Compiled)
    (source : List Char) : Prop where
  /-- It says something about the addresses of the code and about no others. -/
  defined : ∀ a : Nat, (∃ span, compiled.sourceMap[a]? = some span) ↔ a < compiled.code.length
  /-- It has the span of each statement for as many instructions as the statement has. -/
  listed : compiled.sourceMap
    = program.statements.flatMap fun s => List.replicate s.form.size s.span
  /-- The first statement starts at zero, and the code ends with the last one. -/
  starts : compiled.start 0 = 0 ∧
    compiled.start program.statements.length = compiled.code.length
  /-- The code from the start of a statement to that of the next one is what lowering the statement
      has emitted, and all of it has the span of the statement. -/
  emitted : ∀ k s, program.statements[k]? = some s →
    ∃ pairs opened before block opened' after,
      LoopPairs.ofStatements? program.statements = .ok pairs ∧
      (Lowering.statements pairs 0 [] (program.statements.take k)).run (.empty dataBase)
        = .ok (compiled.blocks.take k, before) ∧
      (Lowering.statement pairs k opened s).run before = .ok ((block, opened'), after) ∧
      compiled.start (k + 1) = compiled.start k + block.code.length ∧
      ∀ n < block.code.length, compiled.code[compiled.start k + n]? = block.code[n]? ∧
        compiled.sourceMap[compiled.start k + n]? = some s.span
  /-- No instruction is from two statements. -/
  unique : ∀ a < compiled.code.length, ∃! k, compiled.start k ≤ a ∧ a < compiled.start (k + 1)
  /-- Where a statement has an expression, its span is not that of the expression or of a part. -/
  whole : ∀ s ∈ program.statements, ∀ name e, s.form = .new name e →
    s.span.start < e.span.start ∧ ∀ part ∈ e.tokens, s.span.start < part.2.start
  /-- Spans do not go back, and those of different statements do not meet. -/
  ordered : ∀ (a b : Nat) (p q : Span), a ≤ b → compiled.sourceMap[a]? = some p →
    compiled.sourceMap[b]? = some q →
    p.start ≤ q.start ∧ p.stop ≤ q.stop ∧ (p ≠ q → p.stop < q.start)
  /-- Lines and columns are known for the same addresses, and do not go back either. -/
  lines : (compiled.lineMap source).length = compiled.code.length ∧
    ∀ (a b : Nat) (p q : LineSpan), a ≤ b → (compiled.lineMap source)[a]? = some p →
      (compiled.lineMap source)[b]? = some q → p.start ≤ q.start ∧ p.stop ≤ q.stop

/-- The code and the source map between the start of a statement and that of the next one. -/
theorem compile_emitted (h : program.compile dataBase = .ok compiled) {k : Nat} {s : Statement}
    (hs : program.statements[k]? = some s) :
    ∃ pairs opened before block opened' after,
      LoopPairs.ofStatements? program.statements = .ok pairs ∧
      (Lowering.statements pairs 0 [] (program.statements.take k)).run (.empty dataBase)
        = .ok (compiled.blocks.take k, before) ∧
      (Lowering.statement pairs k opened s).run before = .ok ((block, opened'), after) ∧
      compiled.start (k + 1) = compiled.start k + block.code.length ∧
      ∀ n < block.code.length, compiled.code[compiled.start k + n]? = block.code[n]? ∧
        compiled.sourceMap[compiled.start k + n]? = some s.span := by
  rcases compile_ok h with ⟨pairs, hpairs, hlowering, -⟩
  rcases Lowering.statements_get hlowering hs with
    ⟨block, opened, before, opened', after, hblock, hlowers, hbefore, -, -⟩
  rw [Nat.zero_add] at hlowers
  refine ⟨pairs, opened, before, block, opened', after, hpairs, hbefore, hlowers.run_eq,
    Compiled.start_succ hblock, fun n hn => ⟨?_, ?_⟩⟩
  · have hi := List.getElem?_eq_getElem hn
    rw [hi, (Compiled.sits hblock).get n _ hi]
  · rw [Compiled.sourceMap_in_block hblock hn, hlowers.span_eq]

/-- Statements that are further on have addresses that are further on. -/
theorem sourceMap_ordered (hsource : parse? source = .ok program)
    (h : program.compile dataBase = .ok compiled) {a b : Nat} {p q : Span} (hab : a ≤ b)
    (ha : compiled.sourceMap[a]? = some p) (hb : compiled.sourceMap[b]? = some q) :
    p = q ∨ p.stop < q.start := by
  rcases Compiled.exists_block_of_sourceMap ha with ⟨i, _, hi, rfl, hlow, -⟩
  rcases Compiled.exists_block_of_sourceMap hb with ⟨j, _, hj, rfl, -, hhigh⟩
  have hspans : compiled.blocks.map Block.span = program.statements.map Statement.span := by
    rcases compile_ok h with ⟨_, -, hlowering, -⟩
    exact Lowering.statements_spans hlowering
  have horder : (compiled.blocks.map Block.span).Pairwise fun first second =>
      first.stop < second.start := by
    rw [hspans, List.pairwise_map]
    exact ((spans_placed source dataBase).statements program hsource).2
  rcases Nat.lt_trichotomy i j with hlt | rfl | hgt
  · rcases List.getElem?_eq_some_iff.mp hi with ⟨hilt, rfl⟩
    rcases List.getElem?_eq_some_iff.mp hj with ⟨hjlt, rfl⟩
    rw [List.pairwise_map] at horder
    exact Or.inr (List.pairwise_iff_getElem.mp horder i j hilt hjlt hlt)
  · rw [hi] at hj
    cases hj
    exact Or.inl rfl
  · -- The block of the later address would end where that of the earlier one starts, or before.
    have hmono : compiled.start (j + 1) ≤ compiled.start i := Compiled.start_mono hgt
    omega

/-- Every instruction of a program is attributed to the statement that it is from. -/
theorem compile_attributed (hsource : parse? source = .ok program)
    (h : program.compile dataBase = .ok compiled) :
    program.Attributed dataBase compiled source := by
  -- Two entries are of one statement, or the earlier one ends before the later one starts.
  have hordered : ∀ (a b : Nat) (p q : Span), a ≤ b → compiled.sourceMap[a]? = some p →
      compiled.sourceMap[b]? = some q →
      p.start ≤ q.start ∧ p.stop ≤ q.stop ∧ (p ≠ q → p.stop < q.start) := by
    intro a b p q hab ha hb
    have hplaced := (spans_placed source dataBase).sourceMap program compiled hsource h
    have hp := (hplaced p (List.mem_of_getElem? ha)).1.ordered
    have hq := (hplaced q (List.mem_of_getElem? hb)).1.ordered
    rcases sourceMap_ordered hsource h hab ha hb with rfl | hlt
    · exact ⟨Nat.le_refl _, Nat.le_refl _, fun hne => absurd rfl hne⟩
    · exact ⟨by omega, by omega, fun _ => hlt⟩
  exact {
    defined := by
      intro a
      rw [← Compiled.length_sourceMap, ← Option.isSome_iff_exists, isSome_getElem?]
    listed := sourceMap_eq h
    starts := ⟨rfl, by rw [← compile_length h, Compiled.start_length]⟩
    emitted := fun k s hs => compile_emitted h hs
    unique := by
      intro a ha
      rcases Compiled.inBlock_of_lt ha with ⟨k, block, hblock, hlow, hhigh⟩
      have hnext := Compiled.start_succ hblock
      have hin : (compiled.start k : Int) ≤ a ∧ (a : Int) < compiled.start (k + 1) := by omega
      refine ⟨k, by simpa using hin, fun j hj => ?_⟩
      have hother : (compiled.start j : Int) ≤ a ∧ (a : Int) < compiled.start (j + 1) := by omega
      exact Compiled.start_unique hother hin
    whole := by
      intro s hs name e hform
      rcases Outcome.exists_of_mem (parse?_liesIn hsource) hs with ⟨segment, -, hparse, hlies⟩
      have hstart := Statement.start_lt_expression hparse hform
      exact ⟨hstart, fun part hpart =>
        Nat.lt_of_lt_of_le hstart ((hlies.expression name e hform).2.2 part hpart).2.1⟩
    ordered := hordered
    lines := by
      refine ⟨by rw [Compiled.lineMap, List.length_map, Compiled.length_sourceMap], ?_⟩
      intro a b p q hab ha hb
      rw [Compiled.lineMap, List.getElem?_map] at ha hb
      rcases Option.map_eq_some_iff.mp ha with ⟨first, hfirst, rfl⟩
      rcases Option.map_eq_some_iff.mp hb with ⟨second, hsecond, rfl⟩
      have hspans := hordered a b first second hab hfirst hsecond
      exact ⟨Position.ofOffset_mono source hspans.1, Position.ofOffset_mono source hspans.2.1⟩ }

/-- A program on three lines, with an expression on the second one. -/
def addsOnLines : Program where
  statements := [⟨.int "a" 1, ⟨0, 7⟩⟩,
    ⟨.new "b" ⟨[(.operand (.name "a"), ⟨15, 16⟩), (.operator .add, ⟨17, 18⟩),
      (.operand (.literal "2" 2), ⟨19, 20⟩)], ⟨15, 20⟩⟩, ⟨9, 20⟩⟩,
    ⟨.outputInt "b", ⟨22, 35⟩⟩]

/-- All instructions of the expression are attributed to the statement around it. -/
theorem addsOnLines_attributed :
    parse? "int a 1;\nnew b a + 2;\noutput_int(b)".toList = .ok addsOnLines ∧
      ∃ compiled, addsOnLines.compile 1000 = .ok compiled ∧
        addsOnLines.Attributed 1000 compiled "int a 1;\nnew b a + 2;\noutput_int(b)".toList ∧
        compiled.sourceMap = [⟨9, 20⟩, ⟨9, 20⟩, ⟨9, 20⟩, ⟨22, 35⟩, ⟨22, 35⟩] ∧
        compiled.lineMap "int a 1;\nnew b a + 2;\noutput_int(b)".toList
          = [⟨⟨2, 1⟩, ⟨2, 12⟩⟩, ⟨⟨2, 1⟩, ⟨2, 12⟩⟩, ⟨⟨2, 1⟩, ⟨2, 12⟩⟩, ⟨⟨3, 1⟩, ⟨3, 14⟩⟩,
            ⟨⟨3, 1⟩, ⟨3, 14⟩⟩] := by
  have hsource : parse? "int a 1;\nnew b a + 2;\noutput_int(b)".toList = .ok addsOnLines := by
    decide +kernel
  obtain ⟨compiled, hcompiled⟩ : ∃ compiled, addsOnLines.compile 1000 = .ok compiled := ⟨_, rfl⟩
  have hattributed := compile_attributed hsource hcompiled
  have hmap : compiled.sourceMap = [⟨9, 20⟩, ⟨9, 20⟩, ⟨9, 20⟩, ⟨22, 35⟩, ⟨22, 35⟩] :=
    hattributed.listed.trans (by decide)
  refine ⟨hsource, compiled, hcompiled, hattributed, hmap, ?_⟩
  rw [Compiled.lineMap, hmap]
  decide +kernel

end Program

end AccumulatorMachine
