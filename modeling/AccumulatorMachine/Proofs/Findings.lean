import AccumulatorMachine.Proofs.Lowering.Pairing
import AccumulatorMachine.Proofs.Lowering.Sizes
import AccumulatorMachine.Proofs.Names
import AccumulatorMachine.Proofs.Structured.Diagnostics

/-!
# Findings

All diagnostics of a program, read off the program.

The compiler collects them on its way, from a symbol table and a stack of open loops. Both change on
the very statements that are judged. Here they do not occur. Whether a name is bound already is a
question about the scope in front of the statement. Whether a statement stands in a loop is one
about the starts and ends that belong together. And how many instructions it has is known from what
it says.

The stack is as high as there are loops open in front of a statement. If there is one, then the last
start that the statements in front leave open has its end behind them, and the statement stands
between the two. An end is no exception to this, but it has one instruction, so that it is never
reported.

## Main definitions

* `Program.InBody`: A statement between the start and the end of a loop.
* `Program.findingsAt`, `Program.findings`: The diagnostics of a statement and of a program.

## Theorems

* `Lowering.statements_inLoop_iff`: A statement is lowered in a loop if one is open in front of it.
* `Program.inBody_iff`: A loop is open in front of the statements of its body.
* `Program.compile_diagnostics`: The compiler reports the findings, and nothing else.
-/

namespace AccumulatorMachine

/-! ## Bodies -/

/-- Whether a statement starts a loop. -/
def Statement.Form.isLoop : Statement.Form → Bool
  | .loop .. => true
  | _ => false

theorem Statement.Form.isLoop_iff {f : Statement.Form} :
    f.isLoop = true ↔ ∃ left comparison right, f = .loop left comparison right := by
  constructor
  · intro h
    cases f with
    | loop left comparison right => exact ⟨left, comparison, right, rfl⟩
    | int | string | new | endLoop | inputInt | outputInt | inputStr | outputStr => cases h
  · rintro ⟨left, comparison, right, rfl⟩
    rfl

namespace Program

/-- A statement that stands between the start and the end of a loop. -/
def InBody (program : Program) (k : Nat) : Prop :=
  ∃ start stop, program.Matched start stop ∧ start < k ∧ k < stop

theorem matched_iff {program : Program} {start stop : Nat} : program.Matched start stop ↔
    start < stop ∧ program.statements[start]?.any (·.form.isLoop) = true ∧
      program.statements[stop]?.any (·.form = .endLoop) = true ∧
      Statement.loopDepth 0 ((program.statements.take stop).drop (start + 1)) = some 0 := by
  simp only [Option.any_eq_true, Statement.Form.isLoop_iff, decide_eq_true_eq]
  exact ⟨fun ⟨hlt, hfirst, hlast, hbody⟩ => ⟨hlt, hfirst, hlast, hbody⟩,
    fun ⟨hlt, hfirst, hlast, hbody⟩ => ⟨hlt, hfirst, hlast, hbody⟩⟩

instance (program : Program) (start stop : Nat) : Decidable (program.Matched start stop) :=
  decidable_of_iff _ matched_iff.symm

theorem inBody_iff_bounded {program : Program} {k : Nat} : program.InBody k ↔
    ∃ start, start < k ∧ ∃ stop, stop < program.statements.length ∧
      k < stop ∧ program.Matched start stop := by
  constructor
  · rintro ⟨start, stop, hmatched, hstart, hstop⟩
    rcases hmatched.last with ⟨last, hlast, -⟩
    exact ⟨start, hstart, stop, (List.getElem?_eq_some_iff.mp hlast).1, hstop, hmatched⟩
  · rintro ⟨start, hstart, stop, -, hstop, hmatched⟩
    exact ⟨start, stop, hmatched, hstart, hstop⟩

instance (program : Program) (k : Nat) : Decidable (program.InBody k) :=
  decidable_of_iff _ inBody_iff_bounded.symm

/-! ## Findings -/

/-- The findings about a statement of a program: a name that it declares and that is bound already,
    and another number of instructions than one in the body of a loop. -/
def findingsAt (program : Program) (dataBase : Int) (k : Nat) (s : Statement) : List Diagnostic :=
  let redeclaration := s.form.declared?.bind fun name =>
    ((program.scopeAt dataBase k).latest? name).map fun a => ⟨.redeclaration name a, s.span⟩
  let expansion := if program.InBody k ∧ s.form.size ≠ 1 then
    [⟨.loopBodyExpansion s.form.size, s.span⟩] else []
  redeclaration.toList ++ expansion

/-- The findings about all statements in source order. -/
def findings (program : Program) (dataBase : Int) : List Diagnostic :=
  program.statements.zipIdx.flatMap fun (s, k) => program.findingsAt dataBase k s

end Program

/-! ## Open loops -/

namespace Lowering

variable {pairs : LoopPairs} {index : Nat} {opened opened' : List Nat} {s : Statement}
  {block : Block} {table table' : SymbolTable}

/-- A statement opens and closes as many loops as are counted. -/
theorem Lowers.loopDepth_eq (h : Lowers pairs index opened table s block opened' table')
    (rest : List Statement) :
    Statement.loopDepth opened.length (s :: rest) = Statement.loopDepth opened'.length rest := by
  cases h with
  | loop hform => exact Statement.loopDepth_loop hform _
  | endLoop hform hopened =>
    rw [hopened]
    exact Statement.loopDepth_endLoop hform _
  | plain hplain => exact Statement.loopDepth_plain hplain _

/-- A statement is lowered in a loop if one is open in front of it. -/
theorem statements_inLoop_iff {ss : List Statement} {blocks : List Block} {k : Nat}
    (h : (statements pairs index opened ss).run table = .ok (blocks, table'))
    (hblock : blocks[k]? = some block) : ∃ depth,
      Statement.loopDepth opened.length (ss.take k) = some depth ∧
        (block.inLoop = true ↔ depth ≠ 0) := by
  induction ss generalizing index opened table blocks k with
  | nil =>
    cases h
    cases hblock
  | cons first rest ih =>
    rcases statements_cons_ok h with ⟨other, opened', mid, blocks', rfl, hfirst, hrest⟩
    have hlowers := statement_ok hfirst
    cases k with
    | zero =>
      cases hblock
      refine ⟨opened.length, rfl, ?_⟩
      rw [hlowers.inLoop_eq]
      simp
    | succ k =>
      rcases ih hrest hblock with ⟨depth, hdepth, hin⟩
      exact ⟨depth, (hlowers.loopDepth_eq _).trans hdepth, hin⟩

end Lowering

namespace Program

variable {program : Program}

/-- What belongs together in front of some place belongs together in the program that ends there. -/
theorem Matched.take {start stop k : Nat} (h : program.Matched start stop) (hk : stop < k) :
    (⟨program.statements.take k⟩ : Program).Matched start stop where
  lt := h.lt
  first := by
    rw [List.getElem?_take_of_lt (Nat.lt_trans h.lt hk)]
    exact h.first
  last := by
    rw [List.getElem?_take_of_lt hk]
    exact h.last
  body := by
    rw [List.take_take, Nat.min_eq_left (Nat.le_of_lt hk)]
    exact h.body

/-- A loop is open in front of each statement of its body. -/
theorem InBody.loopDepth_ne_zero {k depth : Nat} (h : program.InBody k)
    (hdepth : Statement.loopDepth 0 (program.statements.take k) = some depth) : depth ≠ 0 := by
  rcases h with ⟨start, stop, hmatched, hstart, hstop⟩
  rcases hmatched.split with ⟨before, first, body, last, rest, hcut, rfl, rfl,
    ⟨left, comparison, right, hloop⟩, hbody, -⟩
  -- In front of the statement are the start of the loop and the first statements of its body.
  obtain ⟨j, rfl⟩ : ∃ j, k = before.length + (j + 1) := ⟨k - before.length - 1, by omega⟩
  have htake : program.statements.take (before.length + (j + 1))
      = before ++ first :: body.take j := by
    rw [hcut, List.take_length_add_append, List.take_succ_cons,
      List.take_append_of_le_length (by omega)]
  rw [htake, Statement.loopDepth_append] at hdepth
  rcases Option.bind_eq_some_iff.mp hdepth with ⟨outside, -, hinside⟩
  rw [← List.take_append_drop j body, Statement.loopDepth_append] at hbody
  rcases Option.bind_eq_some_iff.mp hbody with ⟨inner, hinner, -⟩
  have hadd := Statement.loopDepth_add hinner (outside + 1)
  rw [Nat.zero_add, ← Statement.loopDepth_loop hloop, hinside] at hadd
  cases hadd
  exact Nat.succ_ne_zero _

/-- If a loop is open in front of a statement, the statement is in its body or ends it. -/
theorem inBody_of_loopDepth (hbalanced : program.Balanced) {k above : Nat} {s : Statement}
    (hs : program.statements[k]? = some s) (hend : s.form ≠ .endLoop)
    (hdepth : Statement.loopDepth 0 (program.statements.take k) = some (above + 1)) :
    program.InBody k := by
  have hfront : Statement.loopDepth 0 (⟨program.statements.take k⟩ : Program).statements
      = some (above + 1) := hdepth
  -- The last start that is left open in front of the statement has its end in the whole program.
  rcases last_leftOpen hfront with ⟨start, -, -, ⟨⟨first, hfirst, hloop⟩, hnone⟩, -⟩
  rw [List.getElem?_take, Option.ite_none_right_eq_some] at hfirst
  rcases hfirst with ⟨hstart, hfirst⟩
  rcases balanced_iff.mp hbalanced with ⟨pairs, hpairs⟩
  rcases exists_stop hpairs hfirst hloop with ⟨stop, hmatched⟩
  refine ⟨start, stop, hmatched, hstart, Nat.lt_of_not_le fun hle => ?_⟩
  rcases Nat.lt_or_eq_of_le hle with hlt | rfl
  · exact hnone stop (hmatched.take hlt)
  · rcases hmatched.last with ⟨last, hlast, hform⟩
    rw [hs] at hlast
    cases hlast
    exact hend hform

theorem inBody_iff (hbalanced : program.Balanced) {k depth : Nat} {s : Statement}
    (hs : program.statements[k]? = some s) (hend : s.form ≠ .endLoop)
    (hdepth : Statement.loopDepth 0 (program.statements.take k) = some depth) :
    program.InBody k ↔ depth ≠ 0 := by
  refine ⟨fun h => h.loopDepth_ne_zero hdepth, fun hne => ?_⟩
  cases depth with
  | zero => exact absurd rfl hne
  | succ above => exact inBody_of_loopDepth hbalanced hs hend hdepth

/-! ## Diagnostics -/

section Compiled

variable {dataBase : Int} {compiled : Compiled} (h : program.compile dataBase = .ok compiled)

include h

/-- The block of a statement is reported for the findings about the statement. -/
theorem block_diagnostics {k : Nat} {s : Statement} (hs : program.statements[k]? = some s) :
    ∃ block, compiled.blocks[k]? = some block ∧
      block.diagnostics = program.findingsAt dataBase k s := by
  rcases compile_ok h with ⟨pairs, hpairs, hlowering, -⟩
  rcases Lowering.statements_get hlowering hs with
    ⟨block, _, before, _, _, hblock, hlowers, hbefore, -, -⟩
  refine ⟨block, hblock, ?_⟩
  have hagrees : (program.scopeAt dataBase k).Agrees before :=
    Lowering.statements_agrees hbefore (.empty dataBase)
  have hredeclared : block.redeclared = s.form.declared?.bind fun name =>
      ((program.scopeAt dataBase k).latest? name).map fun a => (name, a) := by
    simp only [hlowers.redeclared_eq, hagrees.names]
  have hexpansion : (block.inLoop = true ∧ s.form.size ≠ 1) ↔
      (program.InBody k ∧ s.form.size ≠ 1) := by
    refine and_congr_left fun hsize => ?_
    -- The end of a loop has the size one, so it is excluded here.
    have hend : s.form ≠ .endLoop := by
      intro hform
      rw [hform] at hsize
      exact hsize rfl
    rcases Lowering.statements_inLoop_iff hlowering hblock with ⟨depth, hdepth, hin⟩
    rw [hin, inBody_iff (balanced_iff.mpr ⟨pairs, hpairs⟩) hs hend hdepth]
  simp only [Block.diagnostics, findingsAt, hredeclared, hlowers.span_eq, hlowers.length_eq_size,
    hexpansion]
  congr 1
  cases s.form.declared? with
  | none => rfl
  | some name => cases hlatest : (program.scopeAt dataBase k).latest? name <;> simp [hlatest]

/-- The compiler reports the findings about all statements in source order, and nothing else. -/
theorem compile_diagnostics : compiled.diagnostics = program.findings dataBase := by
  have hlists : compiled.blocks.map Block.diagnostics
      = program.statements.zipIdx.map fun (s, k) => program.findingsAt dataBase k s := by
    refine List.ext_getElem? fun k => ?_
    rw [List.getElem?_map, List.getElem?_map, List.getElem?_zipIdx, Nat.zero_add]
    cases hs : program.statements[k]? with
    | none =>
      have hlength := List.getElem?_eq_none_iff.mp hs
      rw [← compile_length h] at hlength
      rw [List.getElem?_eq_none_iff.mpr hlength]
      rfl
    | some s =>
      rcases block_diagnostics h hs with ⟨block, hblock, hdiagnostics⟩
      rw [hblock, Option.map_some, hdiagnostics]
      rfl
  rw [Compiled.diagnostics, findings, List.flatMap_def, List.flatMap_def, hlists]

end Compiled

/-- A program that declares names again, inside and outside of nested loops. -/
def declaresAgain : Program where
  statements := [⟨.int "a" 5, ⟨0, 7⟩⟩, ⟨.loop (.name "a") .less (.literal "9" 9), ⟨9, 20⟩⟩,
    ⟨.int "a" 7, ⟨22, 29⟩⟩,
    ⟨.new "b" ⟨[(.operand (.name "a"), ⟨37, 38⟩), (.operator .add, ⟨39, 40⟩),
      (.operand (.literal "1" 1), ⟨41, 42⟩), (.operator .multiply, ⟨43, 44⟩),
      (.operand (.name "a"), ⟨45, 46⟩)], ⟨37, 46⟩⟩, ⟨31, 46⟩⟩,
    ⟨.loop (.name "b") .less (.literal "9" 9), ⟨48, 59⟩⟩, ⟨.string "a" "x", ⟨61, 71⟩⟩,
    ⟨.endLoop, ⟨73, 81⟩⟩, ⟨.inputStr, ⟨83, 92⟩⟩, ⟨.endLoop, ⟨94, 102⟩⟩, ⟨.int "b" 3, ⟨104, 111⟩⟩]

/-- The start of the inner loop is reported and its end is not. The name that shares a cell keeps
    the address of that cell. -/
theorem declaresAgain_diagnostics : ∃ compiled, declaresAgain.compile 1000 = .ok compiled ∧
    compiled.diagnostics = [⟨.redeclaration "a" 1000, ⟨22, 29⟩⟩, ⟨.loopBodyExpansion 0, ⟨22, 29⟩⟩,
      ⟨.loopBodyExpansion 6, ⟨31, 46⟩⟩, ⟨.loopBodyExpansion 4, ⟨48, 59⟩⟩,
      ⟨.redeclaration "a" 1000, ⟨61, 71⟩⟩, ⟨.loopBodyExpansion 0, ⟨61, 71⟩⟩,
      ⟨.loopBodyExpansion 10, ⟨83, 92⟩⟩, ⟨.redeclaration "b" 1000, ⟨104, 111⟩⟩] := by
  obtain ⟨compiled, hcompiled⟩ : ∃ compiled, declaresAgain.compile 1000 = .ok compiled := ⟨_, rfl⟩
  exact ⟨compiled, hcompiled, (compile_diagnostics hcompiled).trans (by decide +kernel)⟩

end Program

end AccumulatorMachine
