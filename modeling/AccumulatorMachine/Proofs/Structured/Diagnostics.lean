import AccumulatorMachine.Proofs.Lowering.Nesting
import AccumulatorMachine.Proofs.Lowering.Sizes
import AccumulatorMachine.Proofs.Structured.Simulation

/-!
# Reported Loops

Which loops have jumps that miss, and which of them the compiler reports.

The jumps of a loop are computed from the number of its statements. They close the loop exactly if
its body keeps the rule that they were computed for. The compiler does not look at the rule. It
looks at the statements of a body one by one, and reports each that has another number of
instructions than one.

So a report does not mean that a loop is broken. But a broken loop is reported, for whatever mix of
statements, if it has a body at all. The only statement with one instruction is an end, and the
first statement of a body cannot be one, since it would end the loop before the body began. A loop
without a body has nothing to report, and its jumps always miss.

## Main definitions

* `Compiled.jumpTarget?`: Where a jump leads.
* `Compiled.Closes`: A loop whose jumps lead to where they should.
* `Program.Reports`: A statement that is reported for its number of instructions.

## Theorems

* `LoopPairs.mem_of_adjacent`: An end right behind the start of a loop belongs to it.
* `Program.closes_iff`: The jumps of a loop are right exactly if its body keeps the rule.
* `Program.reports_first`: The first statement of a body is reported.
* `Program.broken_loop_reported`: A broken loop that has a body is reported.
* `Program.comparesOnly_unreported`: A broken loop without a body.
* `Program.keepsContract_iff`: The rule for the bodies of all loops is that all jumps are right.
-/

namespace AccumulatorMachine

namespace LoopPairs

/-- An end right behind the start of a loop belongs to it. -/
theorem mem_of_adjacent {index k : Nat} {opened : List (Nat × Span)} {ss : List Statement}
    {pairs : LoopPairs} {first second : Statement} {left right : Operand} {comparison : Comparison}
    (h : pairFrom index opened ss = .ok pairs) (hfirst : ss[k]? = some first)
    (hloop : first.form = .loop left comparison right) (hsecond : ss[k + 1]? = some second)
    (hend : second.form = .endLoop) : (index + k, index + k + 1) ∈ pairs := by
  -- There is nothing between the two, which is balanced.
  have hrest : (ss.drop (k + 1))[0]? = some second := by rwa [List.getElem?_drop]
  have hss := eq_take_append_cons hfirst
  rw [eq_take_append_cons hrest, List.take_zero] at hss
  rw [hss] at h
  have hmem := mem_of_balanced hloop rfl hend h
  have hlength : (ss.take k).length = k :=
    List.length_take_of_le (Nat.le_of_lt (List.getElem?_eq_some_iff.mp hfirst).1)
  rwa [hlength] at hmem

end LoopPairs

namespace Lowering

variable {pairs : LoopPairs} {index : Nat} {opened opened' : List Nat} {s : Statement}
  {block : Block} {table table' : SymbolTable}

theorem Lowers.inLoop_eq (h : Lowers pairs index opened table s block opened' table') :
    block.inLoop = !opened.isEmpty := by
  cases h with
  | loop | plain => rfl
  | endLoop hform hopened =>
    subst hopened
    rfl

/-- What comes right behind the start of a loop stands in that loop. -/
theorem statements_inLoop {ss : List Statement} {blocks : List Block} {k : Nat}
    {left right : Operand} {comparison : Comparison}
    (h : (statements pairs index opened ss).run table = .ok (blocks, table'))
    (hs : ss[k]? = some s) (hform : s.form = .loop left comparison right)
    (hblock : blocks[k + 1]? = some block) : block.inLoop = true := by
  rcases statements_get h hs with ⟨_, _, before, openedAfter, after, -, hlowers, -, -, hrest⟩
  cases hlowers with
  | loop =>
    have hnext : (blocks.drop (k + 1))[0]? = some block := by rwa [List.getElem?_drop]
    -- The block behind is that of the next statement, which is lowered with the loop open.
    rcases hdrop : ss.drop (k + 1) with _ | ⟨next, rest⟩
    · have hnil : blocks.drop (k + 1) = [] := List.eq_nil_of_length_eq_zero
        ((statements_length hrest).trans (congrArg List.length hdrop))
      rw [hnil] at hnext
      cases hnext
    · rw [hdrop] at hrest
      rcases statements_cons_ok hrest with ⟨other, _, _, blocks', heq, hstatement, -⟩
      rw [heq] at hnext
      cases hnext
      exact (statement_ok hstatement).inLoop_eq
  | endLoop hform' =>
    rw [hform] at hform'
    cases hform'
  | plain hplain =>
    rw [hform] at hplain
    exact hplain.elim

end Lowering

namespace Block

/-- A statement in a loop is reported if it has another number of instructions than one. -/
theorem mem_diagnostics {block : Block} (hin : block.inLoop = true)
    (hlength : block.code.length ≠ 1) :
    ⟨.loopBodyExpansion block.code.length, block.span⟩ ∈ block.diagnostics := by
  rw [diagnostics, if_pos ⟨hin, hlength⟩]
  exact List.mem_append_right _ List.mem_cons_self

end Block

namespace Compiled

/-- The address that the jump at an address leads to, if there is one. -/
def jumpTarget? (compiled : Compiled) (address : Nat) : Option Int :=
  match compiled.code[address]? with
  | some ⟨.jump, distance⟩ => some (address + distance)
  | _ => none

/-- A loop whose jumps lead to where they should: the exit, which is the fourth instruction of its
    start, behind the end of the loop, and the end to the start. -/
structure Closes (compiled : Compiled) (start stop : Nat) : Prop where
  exit : compiled.jumpTarget? (compiled.start start + 3) = some ↑(compiled.start (stop + 1))
  back : compiled.jumpTarget? (compiled.start stop) = some ↑(compiled.start start)

end Compiled

namespace Program

/-- A statement that is reported for its number of instructions. -/
def Reports (program : Program) (compiled : Compiled) (k : Nat) : Prop :=
  ∃ s block, program.statements[k]? = some s ∧ compiled.blocks[k]? = some block ∧
    ⟨.loopBodyExpansion block.code.length, s.span⟩ ∈ block.diagnostics ∧
    ⟨.loopBodyExpansion block.code.length, s.span⟩ ∈ compiled.diagnostics

section Compiled

variable {program : Program} {dataBase : Int} {compiled : Compiled}
  (h : program.compile dataBase = .ok compiled) {start stop : Nat}
  (hstop : program.endOf? start = some stop)

include h hstop

theorem exit_target : compiled.jumpTarget? (compiled.start start + 3)
    = some ((compiled.start start + (stop - start) + 8 : Nat) : Int) := by
  rcases endOf?_ok h hstop with ⟨-, ⟨first, hfirst, left, comparison, right, hloop⟩, -⟩
  rcases compile_loop h hfirst hloop with ⟨block, a, b, stop', cursor, hblock, hstop', -, -, hcode⟩
  rw [hstop] at hstop'
  cases hstop'
  have hjump : block.code[3]? = some ⟨.jump, ((stop - start + 1 : Nat) : Int) + 4⟩ := by
    rw [hcode]
    rfl
  rw [Compiled.jumpTarget?, (Compiled.sits hblock).get 3 _ hjump]
  simp only [Option.some.injEq]
  omega

theorem back_target : compiled.jumpTarget? (compiled.start stop)
    = some ((compiled.start stop : Int) - (stop - start : Nat) - 7) := by
  rcases endOf?_ok h hstop with ⟨-, -, last, hlast, hend⟩
  rcases compile_endLoop h hlast hend with ⟨block, start', hblock, hstart', hcode⟩
  rw [endOf?_unique h hstart' hstop] at hcode
  have hjump : block.code[0]? = some ⟨.jump, -(((stop - start + 1 : Nat) : Int) + 6)⟩ := by
    rw [hcode]
    rfl
  rw [Compiled.jumpTarget?, ← Nat.add_zero (compiled.start stop),
    (Compiled.sits hblock).get 0 _ hjump]
  simp only [Option.some.injEq]
  omega

/-- The jumps of a loop are right exactly if its body has four instructions more than it has
    statements. -/
theorem closes_iff : compiled.Closes start stop ↔
    compiled.start stop = compiled.start (start + 1) + ((stop - start - 1) + 4) := by
  have hexit := exit_target h hstop
  have hback := back_target h hstop
  rcases start_body h hstop with ⟨hhead, hlast⟩
  rcases endOf?_ok h hstop with ⟨hlt, -⟩
  constructor
  · intro hcloses
    have htarget := hexit.symm.trans hcloses.exit
    simp only [Option.some.injEq] at htarget
    omega
  · intro hbody
    refine ⟨hexit.trans ?_, hback.trans ?_⟩
    · simp only [Option.some.injEq]
      omega
    · simp only [Option.some.injEq]
      omega

/-- The first statement of a body is reported, whatever it is. -/
theorem reports_first (hbody : start + 1 < stop) : program.Reports compiled (start + 1) := by
  rcases compile_ok h with ⟨pairs, hpairs, hlowering, -⟩
  rcases endOf?_ok h hstop with
    ⟨-, ⟨first, hfirst, left, comparison, right, hloop⟩, last, hlast, -⟩
  have hlt : start + 1 < program.statements.length :=
    Nat.lt_trans hbody (List.getElem?_eq_some_iff.mp hlast).1
  have hs := List.getElem?_eq_getElem hlt
  rcases compile_lowers h hs with ⟨_, block, _, _, _, _, hblock, hlowers, -⟩
  have hend : program.statements[start + 1].form ≠ .endLoop := by
    intro hend
    -- It would end the loop, which has only one end.
    have hmem := LoopPairs.mem_of_adjacent hpairs hfirst hloop hs hend
    rw [Nat.zero_add, ← LoopPairs.endOf?_eq_some_iff hpairs] at hmem
    have hother : program.endOf? start = some (start + 1) := by
      simp only [endOf?, hpairs]
      exact hmem
    rw [hstop] at hother
    cases hother
    exact Nat.lt_irrefl _ hbody
  have hin := Lowering.statements_inLoop hlowering hfirst hloop hblock
  have hreport := Block.mem_diagnostics hin (hlowers.length_ne_one hend)
  rw [hlowers.span_eq] at hreport
  exact ⟨_, block, hs, hblock, hreport,
    List.mem_flatMap.mpr ⟨block, List.mem_of_getElem? hblock, hreport⟩⟩

/-- A loop whose jumps miss is reported for a statement of its body, unless it has none. A loop
    without a body is broken, and its jumps are right only by the rule about its body. -/
theorem broken_loop_reported :
    (¬ compiled.Closes start stop → start + 1 < stop →
      ∃ k, start < k ∧ k < stop ∧ program.Reports compiled k) ∧
    (start + 1 = stop → ¬ compiled.Closes start stop) ∧
    (compiled.Closes start stop ↔
      compiled.start stop = compiled.start (start + 1) + ((stop - start - 1) + 4)) := by
  refine ⟨fun _ hbody => ⟨start + 1, Nat.lt_succ_self start, hbody, reports_first h hstop hbody⟩,
    fun hempty hcloses => ?_, closes_iff h hstop⟩
  have hbody := (closes_iff h hstop).mp hcloses
  rw [← hempty] at hbody
  omega

end Compiled

/-- A loop that prints, where a statement of two instructions stands for the five that the jumps
    expect. -/
def printsInLoop : Program where
  statements := [⟨.int "a" 0, ⟨0, 7⟩⟩, ⟨.int "b" 1, ⟨9, 16⟩⟩,
    ⟨.loop (.name "a") .less (.name "b"), ⟨18, 29⟩⟩, ⟨.outputInt "a", ⟨31, 44⟩⟩,
    ⟨.endLoop, ⟨46, 54⟩⟩]

/-- The same program, compiled. -/
def printsInLoopCompiled : Compiled where
  blocks := [⟨⟨0, 7⟩, [], false, none⟩, ⟨⟨9, 16⟩, [], false, none⟩,
    ⟨⟨18, 29⟩, Lowering.loopHead .less 1000 999 998 3, false, none⟩,
    ⟨⟨31, 44⟩, [⟨.read, 1000⟩, ⟨.output, integerMode⟩], true, none⟩,
    ⟨⟨46, 54⟩, Lowering.loopEnd 3, true, none⟩]
  symbols := ⟨[("a", ⟨1000, .int⟩), ("b", ⟨999, .int⟩)], [⟨.data 0, 1000⟩, ⟨.data 1, 999⟩], 998⟩

theorem printsInLoop_reported : printsInLoop.compile 1000 = .ok printsInLoopCompiled ∧
    ¬ printsInLoopCompiled.Closes 2 4 ∧
    ∃ k, 2 < k ∧ k < 4 ∧ printsInLoop.Reports printsInLoopCompiled k := by
  have hcompile : printsInLoop.compile 1000 = .ok printsInLoopCompiled := rfl
  have hstop : printsInLoop.endOf? 2 = some 4 := rfl
  have hbroken : ¬ printsInLoopCompiled.Closes 2 4 := fun hcloses =>
    absurd hcloses.exit (by decide)
  exact ⟨hcompile, hbroken, (broken_loop_reported hcompile hstop).1 hbroken (by decide)⟩

/-- A loop that does nothing but compare. -/
def comparesOnly : Program where
  statements := [⟨.int "a" 0, ⟨0, 7⟩⟩, ⟨.int "b" 1, ⟨9, 16⟩⟩,
    ⟨.loop (.name "a") .less (.name "b"), ⟨18, 29⟩⟩, ⟨.endLoop, ⟨31, 39⟩⟩]

/-- The same program, compiled. -/
def comparesOnlyCompiled : Compiled where
  blocks := [⟨⟨0, 7⟩, [], false, none⟩, ⟨⟨9, 16⟩, [], false, none⟩,
    ⟨⟨18, 29⟩, Lowering.loopHead .less 1000 999 998 2, false, none⟩,
    ⟨⟨31, 39⟩, Lowering.loopEnd 2, true, none⟩]
  symbols := ⟨[("a", ⟨1000, .int⟩), ("b", ⟨999, .int⟩)], [⟨.data 0, 1000⟩, ⟨.data 1, 999⟩], 998⟩

/-- Its exit leads beyond its end and its end to before its start, and there is no diagnostic at
    all. -/
theorem comparesOnly_unreported : comparesOnly.compile 1000 = .ok comparesOnlyCompiled ∧
    comparesOnly.endOf? 2 = some 3 ∧ ¬ comparesOnlyCompiled.Closes 2 3 ∧
    comparesOnlyCompiled.diagnostics = [] ∧
    ¬ ∃ k, 2 < k ∧ k < 3 ∧ comparesOnly.Reports comparesOnlyCompiled k := by
  refine ⟨rfl, rfl, fun hcloses => absurd hcloses.exit (by decide), rfl, ?_⟩
  rintro ⟨k, hlt, hgt, -⟩
  omega

/-- The rule for the bodies of loops says that the jumps of all loops are right. -/
theorem keepsContract_iff {program : Program} {dataBase : Int} {compiled : Compiled}
    (h : program.compile dataBase = .ok compiled) : program.KeepsContract compiled ↔
      ∀ start stop, program.endOf? start = some stop → compiled.Closes start stop :=
  forall_congr' fun _ => forall_congr' fun _ => forall_congr' fun hstop => (closes_iff h hstop).symm

end Program

end AccumulatorMachine
