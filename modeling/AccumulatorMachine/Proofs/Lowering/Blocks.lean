import AccumulatorMachine.Proofs.Lowering.Inversion
import AccumulatorMachine.Proofs.Machine.Fragment

/-!
# Blocks

What is known about the block of a statement, whatever the statement.

The code of a statement names cells only by addresses that the allocator has handed out, or by
the two reserved ones that it never hands out. That is `Lowering.Leaves`, and it goes on to hold
when the blocks of a program are put side by side.

Jumps are another matter. The statements of a loop jump far out of their blocks, and where they
arrive depends on the blocks in between. All others are `Plain`, and their code is left only over
its end.

## Main definitions

* `OpCode.namesCell`: Whether the operand of an opcode is the address of a cell.
* `Lowering.Leaves`: What lowering leaves behind.
* `Statement.Form.Plain`: A statement that starts or ends no loop.
* `Lowering.Lowers`: The ways to lower a statement.

## Theorems

* `Statement.loopInduction`: Induction on statements, with those of loops as cases of their own.
* `Lowering.form_leaves`, `Lowering.Lowers.leaves`, `Lowering.statements_leaves`: The tables
  and the cells of statements and programs.
* `Lowering.form_accounts`, `Lowering.statements_accounts`: Which addresses are given a cell.
* `Lowering.form_selfContained`: The code of a plain statement is left only over its end.
* `Lowering.statement_ok`: A statement was lowered in one of three ways.
* `Lowering.statements_get`: Each statement of a program was lowered after those before it.
-/

namespace AccumulatorMachine

/-- Whether the operand of an opcode is the address of a cell. -/
def OpCode.namesCell : OpCode → Bool
  | .read | .write | .add | .subtract | .multiply | .divide | .readAddress => true
  | _ => false

theorem Comparison.namesCell_skipOpCode (comparison : Comparison) :
    comparison.skipOpCode.namesCell = false := by
  cases comparison <;> rfl

theorem Comparison.distances_skipOpCode (comparison : Comparison) (cursor : Int) :
    (⟨comparison.skipOpCode, cursor⟩ : Instruction).distances = [1, 2] := by
  cases comparison <;> rfl

theorem Comparison.skipOpCode_ne (comparison : Comparison) :
    comparison.skipOpCode ≠ .halt ∧ comparison.skipOpCode ≠ .input := by
  cases comparison <;> decide

namespace Fragment

/-- The places of code can be checked one after another. -/
theorem forall_of_zipIdx {code : List Instruction} {P : Nat → Instruction → Prop}
    (h : ∀ x ∈ code.zipIdx, P x.2 x.1) (p : Nat) (i : Instruction) (hi : code[p]? = some i) :
    P p i :=
  h (i, p) (List.mem_zipIdx_iff_getElem?.mpr hi)

theorem selfContained_inputStr (zero cursor : Int) :
    SelfContained (Lowering.inputStrCode zero cursor) where
  runs := by simp [Lowering.inputStrCode]
  reads := by simp [Lowering.inputStrCode]
  stays := by
    refine forall_of_zipIdx ?_
    simp [Lowering.inputStrCode, Instruction.distances]
  starts := by simp [Lowering.inputStrCode]

theorem selfContained_outputStr (zero one string cursor : Int) :
    SelfContained (Lowering.outputStrCode zero one string cursor) where
  runs := by simp [Lowering.outputStrCode]
  reads := by simp [Lowering.outputStrCode]
  stays := by
    refine forall_of_zipIdx ?_
    simp [Lowering.outputStrCode, Instruction.distances]
  starts := by simp [Lowering.outputStrCode]

end Fragment

section OperatorSteps

variable {cell : Int → Prop} {code : List Instruction} {i : Instruction}

/-- An instruction that applies an operator to cells is a load, an operation or a store. -/
theorem OperatorSteps.mem (h : OperatorSteps cell code) (hi : i ∈ code) :
    (i.opcode = .read ∨ i.opcode = .write ∨ ∃ operator : BinaryOperator,
      i.opcode = operator.opcode) ∧ cell i.operand := by
  rcases h with ⟨steps, rfl, hcells⟩
  rcases List.mem_flatMap.mp hi with ⟨step, hstep, hi⟩
  have hcell := hcells step hstep
  simp only [Reduction.operatorCode, List.mem_cons, List.not_mem_nil, or_false] at hi
  rcases hi with rfl | rfl | rfl
  · exact ⟨Or.inl rfl, hcell.1⟩
  · exact ⟨Or.inr (Or.inr ⟨step.1, rfl⟩), hcell.2⟩
  · exact ⟨Or.inr (Or.inl rfl), hcell.1⟩

theorem OperatorSteps.straight (h : OperatorSteps cell code) : Straight code := by
  intro i hi d hd
  have hone : i.distances = [1] := by
    rcases (h.mem hi).1 with hop | hop | ⟨operator, hop⟩
    · rw [Instruction.distances, hop]
    · rw [Instruction.distances, hop]
    · cases operator <;> rw [Instruction.distances, hop] <;> rfl
  rw [hone] at hd
  exact List.mem_singleton.mp hd

theorem OperatorSteps.selfContained (h : OperatorSteps cell code) :
    Fragment.SelfContained code := by
  refine Fragment.SelfContained.of_straight h.straight fun i hi => ?_
  rcases h with ⟨_ | ⟨step, steps⟩, rfl, -⟩
  · cases hi
  · cases hi
    exact Or.inl rfl

end OperatorSteps

/-- A statement that neither starts nor ends a loop. -/
def Statement.Form.Plain : Statement.Form → Prop
  | .loop .. => False
  | .endLoop => False
  | _ => True

theorem Statement.Form.loop_or_endLoop_or_plain (f : Statement.Form) :
    (∃ left comparison right, f = .loop left comparison right) ∨ f = .endLoop ∨ f.Plain := by
  cases f with
  | loop left comparison right => exact Or.inl ⟨left, comparison, right, rfl⟩
  | endLoop => exact Or.inr (Or.inl rfl)
  | int | string | new | inputInt | outputInt | inputStr | outputStr =>
    exact Or.inr (Or.inr trivial)

/-- Statements one after another, with those that start or end a loop as cases of their own. -/
@[elab_as_elim]
theorem Statement.loopInduction {motive : List Statement → Prop} (nil : motive [])
    (loop : ∀ s rest left comparison right, s.form = .loop left comparison right → motive rest →
      motive (s :: rest))
    (endLoop : ∀ s rest, s.form = .endLoop → motive rest → motive (s :: rest))
    (plain : ∀ s rest, s.form.Plain → motive rest → motive (s :: rest)) (ss : List Statement) :
    motive ss := by
  induction ss with
  | nil => exact nil
  | cons s rest ih =>
    rcases s.form.loop_or_endLoop_or_plain with ⟨left, comparison, right, hform⟩ | hform | hplain
    · exact loop s rest left comparison right hform ih
    · exact endLoop s rest hform ih
    · exact plain s rest hplain ih

namespace Lowering

/-- What lowering leaves behind: a table that has grown, and code that only names cells the table
    has handed out or reserves. -/
structure Leaves (base : Int) (table : SymbolTable) (code : List Instruction)
    (table' : SymbolTable) : Prop where
  grows : table.Grows table'
  within : table'.Within base
  names : ∀ i ∈ code, i.opcode.namesCell = true →
    table'.HandedOut base i.operand ∨ SymbolTable.isReserved i.operand = true

namespace Leaves

variable {base : Int} {table mid table' : SymbolTable} {code code' : List Instruction}

theorem append (h : Leaves base table code mid) (h' : Leaves base mid code' table') :
    Leaves base table (code ++ code') table' where
  grows := h.grows.trans h'.grows
  within := h'.within
  names := by
    intro i hi hop
    rcases List.mem_append.mp hi with hi | hi
    · rcases h.names i hi hop with hcell | hreserved
      · exact Or.inl (hcell.mono h'.grows)
      · exact Or.inr hreserved
    · exact h'.names i hi hop

/-- Lowering that only allocates. -/
theorem of_grows (hg : table.Grows table') (hw : table'.Within base) :
    Leaves base table [] table' :=
  ⟨hg, hw, by simp⟩

end Leaves

section Forms

variable {table table' : SymbolTable} {span : Span} {base : Int} {f : Statement.Form}
  {code : List Instruction} {redeclared : Option (String × Int)}

/-- The tables that a plain statement goes through and the cells it names. -/
theorem form_leaves (h : (form span f).run table = .ok ((code, redeclared), table'))
    (hw : table.Within base) : Leaves base table code table' := by
  cases f with
  | int name value =>
    rcases form_int_ok h with ⟨rfl, ⟨info, -, rfl⟩ | ⟨-, hr, rfl⟩⟩
    · exact Leaves.of_grows (SymbolTable.Grows.refl table') hw
    · exact Leaves.of_grows (SymbolTable.Grows.fresh hr name value .int)
        (hw.fresh hr name value .int)
  | string name text =>
    rcases form_string_ok h with ⟨rfl, ⟨info, -, rfl⟩ | ⟨-, hr, rfl⟩⟩
    · exact Leaves.of_grows (SymbolTable.Grows.refl table') hw
    · -- The length comes first, and the characters are handed out below it.
      have hfirst := hr table.cursor (by omega) (Int.le_refl _)
      refine Leaves.of_grows ((SymbolTable.Grows.fresh hfirst name _ _).trans
        (SymbolTable.Grows.chars fun a hl hu => ?_)) (hw.fresh hfirst name _ _).chars
      simp only [SymbolTable.fresh, SymbolTable.insert, SymbolTable.addCell,
        SymbolTable.taken] at hl hu
      exact hr a (by omega) (by omega)
  | new name e =>
    rcases form_new_ok h with ⟨a, mid, he, rfl⟩
    rcases expression_ok he hw with ⟨hg, -, hmid, ha, hsteps⟩
    refine ⟨hg.trans (SymbolTable.Grows.bind mid name a), hmid.bind name ha, fun i hi _ => ?_⟩
    exact Or.inl ((hsteps.mem hi).2.mono (SymbolTable.Grows.bind mid name a))
  | inputInt name =>
    rcases form_inputInt_ok h with ⟨hr, rfl, rfl⟩
    have hslot := hw.slot hr name
    refine ⟨SymbolTable.Grows.slot hr name, hslot, fun i hi hop => ?_⟩
    simp only [List.mem_cons, List.not_mem_nil, or_false] at hi
    rcases hi with rfl | rfl
    · cases hop
    · -- The address that is stored to is the one that the name is bound to.
      refine Or.inl (hslot.bound name _ ?_)
      rw [SymbolTable.slot, SymbolTable.addressOf?_insert, if_pos rfl]
  | outputInt name =>
    rcases form_outputInt_ok h with ⟨a, ha, rfl, rfl⟩
    refine ⟨SymbolTable.Grows.refl table', hw, fun i hi hop => ?_⟩
    simp only [List.mem_cons, List.not_mem_nil, or_false] at hi
    rcases hi with rfl | rfl
    · exact Or.inl (hw.bound name a ha)
    · cases hop
  | inputStr =>
    rcases form_inputStr_ok h with ⟨zero, one, mid, hzero, hone, rfl⟩
    rcases literal_within hzero hw with ⟨hmid, hzero'⟩
    rcases literal_within hone hmid with ⟨htable, -⟩
    have hg := literal_grows hzero
    have hg' := literal_grows hone
    -- The cell of the zero is still handed out after the one is.
    have hz := hzero'.mono hg'
    refine ⟨hg.trans hg', htable, ?_⟩
    simp [inputStrCode, OpCode.namesCell, SymbolTable.isReserved, hz]
  | outputStr name =>
    rcases form_outputStr_ok h with ⟨zero, one, string, mid, hzero, hone, hstring, rfl⟩
    rcases literal_within hzero hw with ⟨hmid, hzero'⟩
    rcases literal_within hone hmid with ⟨htable, hone'⟩
    have hg := literal_grows hzero
    have hg' := literal_grows hone
    have hz := hzero'.mono hg'
    have hs := htable.bound name string hstring
    refine ⟨hg.trans hg', htable, ?_⟩
    simp [outputStrCode, OpCode.namesCell, SymbolTable.isReserved, hz, hone', hs]
  | loop left comparison right =>
    cases h
    exact Leaves.of_grows (SymbolTable.Grows.refl table) hw
  | endLoop =>
    cases h
    exact Leaves.of_grows (SymbolTable.Grows.refl table) hw

/-- A statement gives a cell to every address, except that one that reads an integer stores to the
    address instead. -/
theorem form_accounts (h : (form span f).run table = .ok ((code, redeclared), table'))
    (hw : table.Within base) :
    SymbolTable.Accounts (fun a => (∃ name, f = .inputInt name) ∧ ⟨.write, a⟩ ∈ code)
      table table' := by
  cases f with
  | int name value =>
    rcases form_int_ok h with ⟨rfl, ⟨info, -, rfl⟩ | ⟨-, -, rfl⟩⟩
    · exact SymbolTable.Accounts.refl _ table'
    · exact SymbolTable.Accounts.fresh _ table name value .int
  | string name text =>
    rcases form_string_ok h with ⟨rfl, ⟨info, -, rfl⟩ | ⟨-, hr, rfl⟩⟩
    · exact SymbolTable.Accounts.refl _ table'
    · have hrest : ∀ a, (table.fresh name text.toList.length (.str text.toList.length)).cursor
          - text.toList.length < a → a ≤ (table.fresh name text.toList.length
            (.str text.toList.length)).cursor → SymbolTable.isReserved a = false := by
        intro a hl hu
        simp only [SymbolTable.fresh, SymbolTable.insert, SymbolTable.addCell,
          SymbolTable.taken] at hl hu
        exact hr a (by omega) (by omega)
      exact (SymbolTable.Accounts.fresh _ table name _ _).trans (SymbolTable.Accounts.chars hrest)
        (SymbolTable.Grows.chars hrest)
  | new name e =>
    rcases form_new_ok h with ⟨a, mid, he, rfl⟩
    rcases expression_ok he hw with ⟨-, hcells, -, -, -⟩
    exact (hcells.mono fun _ => False.elim).insert name ⟨a, .aliased⟩
  | inputInt name =>
    rcases form_inputInt_ok h with ⟨-, rfl, rfl⟩
    intro a hl hu
    simp only [SymbolTable.slot, SymbolTable.insert, SymbolTable.taken] at hl
    -- Only one address is handed out, and the code stores to it.
    have ha : a = table.cursor := by omega
    rw [ha]
    exact Or.inr ⟨⟨name, rfl⟩, by simp⟩
  | outputInt name =>
    rcases form_outputInt_ok h with ⟨a, -, -, rfl⟩
    exact SymbolTable.Accounts.refl _ table'
  | inputStr =>
    rcases form_inputStr_ok h with ⟨zero, one, mid, hzero, hone, -⟩
    exact (literal_accounts hzero _).trans (literal_accounts hone _) (literal_grows hone)
  | outputStr name =>
    rcases form_outputStr_ok h with ⟨zero, one, string, mid, hzero, hone, -, -⟩
    exact (literal_accounts hzero _).trans (literal_accounts hone _) (literal_grows hone)
  | loop left comparison right =>
    cases h
    exact SymbolTable.Accounts.refl _ table
  | endLoop =>
    cases h
    exact SymbolTable.Accounts.refl _ table

theorem straight_inputInt (a : Int) : Straight [⟨.input, integerMode⟩, ⟨.write, a⟩] := by
  simp [Straight, Instruction.distances, integerMode]

theorem straight_outputInt (a : Int) : Straight [⟨.read, a⟩, ⟨.output, integerMode⟩] := by
  simp [Straight, Instruction.distances]

/-- The code of a plain statement is left only over its end. -/
theorem form_selfContained (h : (form span f).run table = .ok ((code, redeclared), table'))
    (hw : table.Within base) : Fragment.SelfContained code := by
  -- Only the codes for strings have jumps, and these stay inside.
  cases f with
  | int name value =>
    rcases form_int_ok h with ⟨rfl, -⟩
    exact Fragment.SelfContained.of_straight Straight.nil (by simp)
  | string name text =>
    rcases form_string_ok h with ⟨rfl, -⟩
    exact Fragment.SelfContained.of_straight Straight.nil (by simp)
  | new name e =>
    rcases form_new_ok h with ⟨a, mid, he, rfl⟩
    rcases expression_ok he hw with ⟨-, -, -, -, hsteps⟩
    exact hsteps.selfContained
  | inputInt name =>
    rcases form_inputInt_ok h with ⟨-, rfl, rfl⟩
    exact Fragment.SelfContained.of_straight (straight_inputInt table.cursor) (by simp)
  | outputInt name =>
    rcases form_outputInt_ok h with ⟨a, -, rfl, rfl⟩
    exact Fragment.SelfContained.of_straight (straight_outputInt a) (by simp)
  | inputStr =>
    rcases form_inputStr_ok h with ⟨zero, one, mid, -, -, rfl⟩
    exact Fragment.selfContained_inputStr zero table'.cursor
  | outputStr name =>
    rcases form_outputStr_ok h with ⟨zero, one, string, mid, -, -, -, rfl⟩
    exact Fragment.selfContained_outputStr zero one string table'.cursor
  | loop left comparison right =>
    cases h
    exact Fragment.SelfContained.of_straight Straight.nil (by simp)
  | endLoop =>
    cases h
    exact Fragment.SelfContained.of_straight Straight.nil (by simp)

end Forms

/-- How a statement was lowered: from a table, inside loops of given sizes, to a block, another
    table and other sizes. -/
inductive Lowers (pairs : LoopPairs) (index : Nat) (opened : List Nat) (table : SymbolTable)
    (s : Statement) : Block → List Nat → SymbolTable → Prop
  | loop {left right : Operand} {comparison : Comparison} {stop : Nat} {a b : Int}
      {mid table' : SymbolTable} (hform : s.form = .loop left comparison right)
      (hstop : pairs.endOf? index = some stop)
      (hleft : (operandAddress left s.span).run table = .ok (a, mid))
      (hright : (operandAddress right s.span).run mid = .ok (b, table')) :
      Lowers pairs index opened table s
        ⟨s.span, loopHead comparison a b table'.cursor (stop - index + 1), !opened.isEmpty, none⟩
        ((stop - index + 1) :: opened) table'
  | endLoop {count : Nat} {outer : List Nat} (hform : s.form = .endLoop)
      (hopened : opened = count :: outer) :
      Lowers pairs index opened table s ⟨s.span, loopEnd count, true, none⟩ outer table
  | plain {code : List Instruction} {redeclared : Option (String × Int)} {table' : SymbolTable}
      (hplain : s.form.Plain)
      (hform : (form s.span s.form).run table = .ok ((code, redeclared), table')) :
      Lowers pairs index opened table s ⟨s.span, code, !opened.isEmpty, redeclared⟩ opened table'

section Statements

variable {pairs : LoopPairs} {index : Nat} {opened opened' : List Nat} {s : Statement}
  {block : Block} {table table' : SymbolTable} {base : Int}

/-- The lowering of a plain statement is that of its form. -/
theorem statement_of_plain {c : Countdown} (h : s.form.Plain) :
    (statement pairs index opened s : LoweringBy c (Block × List Nat)) = (do
      let (code, redeclared) ← form s.span s.form
      return (⟨s.span, code, !opened.isEmpty, redeclared⟩, opened)) := by
  obtain ⟨f, span⟩ := s
  cases f with
  | loop left comparison right => exact absurd h id
  | endLoop => exact absurd h id
  | int | string | new | inputInt | outputInt | inputStr | outputStr => rfl

theorem statement_ok
    (h : (statement pairs index opened s).run table = .ok ((block, opened'), table')) :
    Lowers pairs index opened table s block opened' table' := by
  -- The statements of loops are lowered by themselves, and all others by their form.
  rcases s.form.loop_or_endLoop_or_plain with ⟨left, comparison, right, hform⟩ | hform | hplain
  · cases hstop : pairs.endOf? index with
    | none =>
      simp only [statement, hform, hstop] at h
      cases h
    | some stop =>
      simp only [statement, hform, hstop] at h
      rcases Outcome.run_bind_ok h with ⟨a, mid, hleft, hrest⟩
      rcases Outcome.run_bind_ok hrest with ⟨b, mid', hright, hcode⟩
      rcases Outcome.run_bind_ok hcode with ⟨_, _, hget, hpure⟩
      cases hget
      cases hpure
      exact Lowers.loop hform hstop hleft hright
  · cases opened with
    | nil =>
      simp only [statement, hform] at h
      cases h
    | cons count outer =>
      simp only [statement, hform] at h
      cases h
      exact Lowers.endLoop hform rfl
  · rw [statement_of_plain hplain] at h
    rcases Outcome.run_bind_ok h with ⟨⟨code, redeclared⟩, mid, hform, hpure⟩
    cases hpure
    exact Lowers.plain hplain hform

theorem Lowers.span_eq (h : Lowers pairs index opened table s block opened' table') :
    block.span = s.span := by
  cases h <;> rfl

/-- A plain statement was lowered as its form. -/
theorem Lowers.form_of_plain (h : Lowers pairs index opened table s block opened' table')
    (hplain : s.form.Plain) :
    ∃ redeclared, (form s.span s.form).run table = .ok ((block.code, redeclared), table') := by
  cases h with
  | loop hform =>
    rw [hform] at hplain
    exact absurd hplain id
  | endLoop hform =>
    rw [hform] at hplain
    exact absurd hplain id
  | plain _ hform => exact ⟨_, hform⟩

theorem Lowers.leaves (h : Lowers pairs index opened table s block opened' table')
    (hw : table.Within base) : Leaves base table block.code table' := by
  cases h with
  | loop hform hstop hleft hright =>
    rcases operandAddress_within hleft hw with ⟨hmid, ha⟩
    rcases operandAddress_within hright hmid with ⟨htable, hb⟩
    have hg := operandAddress_grows hleft
    have hg' := operandAddress_grows hright
    have ha' := ha.mono hg'
    refine ⟨hg.trans hg', htable, fun i hi hop => ?_⟩
    simp only [loopHead, List.mem_cons, List.not_mem_nil, or_false] at hi
    -- The comparison names the cells of its sides. The skip and the jump name no cell.
    rcases hi with rfl | rfl | rfl | rfl
    · exact Or.inl ha'
    · exact Or.inl hb
    · rw [Comparison.namesCell_skipOpCode] at hop
      cases hop
    · cases hop
  | endLoop hform hopened =>
    refine ⟨SymbolTable.Grows.refl table, hw, fun i hi hop => ?_⟩
    rw [List.mem_singleton.mp hi] at hop
    cases hop
  | plain hplain hform => exact form_leaves hform hw

theorem Lowers.accounts (h : Lowers pairs index opened table s block opened' table')
    (hw : table.Within base) :
    SymbolTable.Accounts (fun a => (∃ name, s.form = .inputInt name) ∧ ⟨.write, a⟩ ∈ block.code)
      table table' := by
  cases h with
  | loop hform hstop hleft hright =>
    exact (operandAddress_accounts hleft _).trans (operandAddress_accounts hright _)
      (operandAddress_grows hright)
  | endLoop hform hopened => exact SymbolTable.Accounts.refl _ table
  | plain hplain hform => exact form_accounts hform hw

theorem statements_cons_ok {rest : List Statement} {blocks : List Block}
    (h : (statements pairs index opened (s :: rest)).run table = .ok (blocks, table')) :
    ∃ block opened' mid blocks', blocks = block :: blocks' ∧
      (statement pairs index opened s).run table = .ok ((block, opened'), mid) ∧
      (statements pairs (index + 1) opened' rest).run mid = .ok (blocks', table') := by
  rcases Outcome.run_bind_ok h with ⟨⟨block, opened'⟩, mid, hstatement, hrest⟩
  rcases Outcome.run_bind_ok hrest with ⟨blocks', _, hblocks, hpure⟩
  cases hpure
  exact ⟨block, opened', mid, blocks', rfl, hstatement, hblocks⟩

theorem statements_cons {rest : List Statement} {blocks : List Block} {mid : SymbolTable}
    (h : (statement pairs index opened s).run table = .ok ((block, opened'), mid))
    (hrest : (statements pairs (index + 1) opened' rest).run mid = .ok (blocks, table')) :
    (statements pairs index opened (s :: rest)).run table = .ok (block :: blocks, table') := by
  rw [statements, Outcome.run_bind_of_ok _ h]
  exact Outcome.run_bind_of_ok _ hrest

theorem statements_length {ss : List Statement} {blocks : List Block}
    (h : (statements pairs index opened ss).run table = .ok (blocks, table')) :
    blocks.length = ss.length := by
  induction ss generalizing index opened table blocks with
  | nil =>
    cases h
    rfl
  | cons s rest ih =>
    rcases statements_cons_ok h with ⟨block, opened', mid, blocks', rfl, -, hrest⟩
    rw [List.length_cons, List.length_cons, ih hrest]

/-- Each statement of a program was lowered after those before it and before those after it. -/
theorem statements_get {ss : List Statement} {blocks : List Block} {k : Nat}
    (h : (statements pairs index opened ss).run table = .ok (blocks, table'))
    (hk : ss[k]? = some s) :
    ∃ block openedBefore before openedAfter after, blocks[k]? = some block ∧
      Lowers pairs (index + k) openedBefore before s block openedAfter after ∧
      (statements pairs index opened (ss.take k)).run table = .ok (blocks.take k, before) ∧
      (statements pairs index opened (ss.take (k + 1))).run table
        = .ok (blocks.take (k + 1), after) ∧
      (statements pairs (index + k + 1) openedAfter (ss.drop (k + 1))).run after
        = .ok (blocks.drop (k + 1), table') := by
  induction ss generalizing index opened table blocks k with
  | nil => cases hk
  | cons first rest ih =>
    rcases statements_cons_ok h with ⟨block, opened', mid, blocks', rfl, hfirst, hrest⟩
    cases k with
    | zero =>
      cases hk
      exact ⟨block, opened, table, opened', mid, rfl, statement_ok hfirst, rfl,
        statements_cons hfirst rfl, hrest⟩
    | succ k =>
      rcases ih hrest hk with
        ⟨other, openedBefore, before, openedAfter, after, hget, hlowers, hbefore, hafter, hlast⟩
      -- The statements of the rest are counted from one place further on.
      rw [Nat.add_right_comm index 1 k] at hlowers hlast
      exact ⟨other, openedBefore, before, openedAfter, after, hget, hlowers,
        statements_cons hfirst hbefore, statements_cons hfirst hafter, hlast⟩

/-- The tables that a program goes through and the cells it names. -/
theorem statements_leaves {ss : List Statement} {blocks : List Block}
    (h : (statements pairs index opened ss).run table = .ok (blocks, table'))
    (hw : table.Within base) : Leaves base table (blocks.flatMap Block.code) table' := by
  induction ss generalizing index opened table blocks with
  | nil =>
    cases h
    exact Leaves.of_grows (SymbolTable.Grows.refl table') hw
  | cons s rest ih =>
    rcases statements_cons_ok h with ⟨block, opened', mid, blocks', rfl, hfirst, hrest⟩
    have hleaves := (statement_ok hfirst).leaves hw
    rw [List.flatMap_cons]
    exact hleaves.append (ih hrest hleaves.within)

/-- Every address that a program is given has a cell, unless it is stored to and an integer is
    read. -/
theorem statements_accounts {ss : List Statement} {blocks : List Block}
    (h : (statements pairs index opened ss).run table = .ok (blocks, table'))
    (hw : table.Within base) :
    SymbolTable.Accounts (fun a => (∃ s ∈ ss, ∃ name, s.form = .inputInt name) ∧
      ⟨.write, a⟩ ∈ blocks.flatMap Block.code) table table' := by
  induction ss generalizing index opened table blocks with
  | nil =>
    cases h
    exact SymbolTable.Accounts.refl _ table'
  | cons s rest ih =>
    rcases statements_cons_ok h with ⟨block, opened', mid, blocks', rfl, hfirst, hrest⟩
    have hleaves := (statement_ok hfirst).leaves hw
    have hfirst' := (statement_ok hfirst).accounts hw
    have hrest' := ih hrest hleaves.within
    rw [List.flatMap_cons]
    refine (hfirst'.mono ?_).trans (hrest'.mono ?_) (statements_leaves hrest hleaves.within).grows
    · rintro a ⟨⟨name, hname⟩, ha⟩
      exact ⟨⟨s, List.mem_cons_self, name, hname⟩, List.mem_append_left _ ha⟩
    · rintro a ⟨⟨other, hother, hname⟩, ha⟩
      exact ⟨⟨other, List.mem_cons_of_mem s hother, hname⟩, List.mem_append_right _ ha⟩

end Statements

end Lowering

end AccumulatorMachine
