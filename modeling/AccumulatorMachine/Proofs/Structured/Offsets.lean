import AccumulatorMachine.Proofs.Structured.Diagnostics

/-!
# Offsets of Loops

How far the jumps of a loop miss.

A loop has two jumps. The exit is the last instruction of its head and should lead behind the loop,
and the end should lead back to the head. Both distances are computed from the number of statements
in the body, as if the body had four instructions more than it has statements. For any other body
they are wrong, and they are wrong together. The difference between the instructions that the body
has and those that it should have is the `excess` of the loop. The exit misses by the excess in one
direction, and the end misses by it in the other.

Nothing else matters. The loops around a loop and those in its body have an excess of their own, and
the count for one of them is never used for another.

## Main definitions

* `Compiled.bodyCode`: The instructions of the statements between a start and an end.
* `Compiled.excess`: How many instructions a body has too many.

## Theorems

* `Compiled.start_add_bodyCode`: A body stands between the start and the end of its loop.
* `Program.loop_offsets`: Where the jumps of a loop lead.
-/

namespace AccumulatorMachine

namespace Compiled

/-- The instructions of the statements between two others. -/
def bodyCode (compiled : Compiled) (start stop : Nat) : List Instruction :=
  ((compiled.blocks.take stop).drop (start + 1)).flatMap Block.code

/-- How many instructions the body of a loop has more than the jumps of the loop allow for. They
    allow for four more than there are statements. -/
def excess (compiled : Compiled) (start stop : Nat) : Int :=
  (compiled.bodyCode start stop).length - (stop - start - 1 : Nat) - 4

/-- A body stands between the start and the end of its loop. -/
theorem start_add_bodyCode (compiled : Compiled) {start stop : Nat} (hlt : start < stop) :
    compiled.start stop
      = compiled.start (start + 1) + (compiled.bodyCode start stop).length := by
  have htake : compiled.blocks.take (start + 1) = (compiled.blocks.take stop).take (start + 1) := by
    rw [List.take_take, Nat.min_eq_left hlt]
  rw [Compiled.start, Compiled.start, bodyCode, htake, ← List.length_append, ← List.flatMap_append,
    List.take_append_drop]

end Compiled

namespace Program

variable {program : Program} {dataBase : Int} {compiled : Compiled} {start stop : Nat}

theorem endOf?_of_matched (h : program.compile dataBase = .ok compiled)
    (hmatched : program.Matched start stop) : program.endOf? start = some stop := by
  rcases compile_ok h with ⟨pairs, hpairs, -⟩
  simp only [endOf?, hpairs]
  exact LoopPairs.endOf?_of_matched hpairs hmatched

/-- The head of a loop starts with a load. -/
theorem head_loads (h : program.compile dataBase = .ok compiled)
    (hstop : program.endOf? start = some stop) :
    ∃ a, compiled.code[compiled.start start]? = some ⟨.read, a⟩ := by
  rcases endOf?_ok h hstop with ⟨-, ⟨first, hfirst, left, comparison, right, hloop⟩, -⟩
  rcases compile_loop h hfirst hloop with ⟨block, a, b, _, _, hblock, -, -, -, hcode⟩
  have hload : block.code[0]? = some ⟨.read, a⟩ := by
    rw [hcode]
    rfl
  exact ⟨a, (Compiled.sits hblock).get 0 _ hload⟩

/-- Where the jumps of a loop lead, from the address of its head and the number of instructions of
    its body. The exit leads behind the end and the end leads to the head exactly if the body has
    four instructions more than it has statements. Otherwise both miss, by the excess of the
    loop. -/
theorem loop_offsets (h : program.compile dataBase = .ok compiled)
    (hmatched : program.Matched start stop) {head body : Nat}
    (hhead : compiled.start start = head) (hbody : (compiled.bodyCode start stop).length = body) :
    (∃ a, compiled.code[head]? = some ⟨.read, a⟩) ∧
    compiled.start stop = head + 4 + body ∧ compiled.start (stop + 1) = head + 4 + body + 1 ∧
    compiled.jumpTarget? (head + 3)
      = some (↑(head + 4 + body + 1) - compiled.excess start stop) ∧
    compiled.jumpTarget? (head + 4 + body) = some (head + compiled.excess start stop) ∧
    (compiled.jumpTarget? (head + 3) = some ↑(head + 4 + body + 1) ↔
      body = (stop - start - 1) + 4) ∧
    (compiled.jumpTarget? (head + 4 + body) = some ↑head ↔ body = (stop - start - 1) + 4) := by
  have hlt := hmatched.lt
  have hstop := endOf?_of_matched h hmatched
  rcases start_body h hstop with ⟨hfour, hone⟩
  have hlength := compiled.start_add_bodyCode hlt
  have hexit := exit_target h hstop
  have hback := back_target h hstop
  have hend : compiled.start stop = head + 4 + body := by omega
  -- The jumps count on one instruction for each statement of the body and on four more.
  have hexcess : compiled.excess start stop = body - (stop - start - 1 : Nat) - 4 := by
    rw [Compiled.excess, hbody]
  rw [hhead] at hexit
  rw [hend] at hback
  refine ⟨hhead ▸ head_loads h hstop, hend, by omega, hexit.trans ?_, hback.trans ?_, ?_, ?_⟩
  · rw [Option.some.injEq]
    omega
  · rw [Option.some.injEq]
    omega
  · rw [hexit, Option.some.injEq]
    omega
  · rw [hback, Option.some.injEq]
    omega

/-- A loop in a loop. The body of the inner one has three statements with seven instructions. That
    of the outer one has five statements with twelve. -/
def loopInLoop : Program where
  statements := [⟨.int "a" 0, ⟨0, 7⟩⟩, ⟨.int "b" 1, ⟨8, 15⟩⟩,
    ⟨.loop (.name "a") .less (.name "b"), ⟨16, 27⟩⟩,
    ⟨.loop (.name "a") .less (.name "b"), ⟨28, 39⟩⟩,
    ⟨.new "a" ⟨[(.operand (.name "a"), ⟨46, 47⟩), (.operator .add, ⟨48, 49⟩),
      (.operand (.name "b"), ⟨50, 51⟩)], ⟨46, 51⟩⟩, ⟨40, 51⟩⟩,
    ⟨.outputInt "a", ⟨52, 65⟩⟩, ⟨.outputInt "b", ⟨66, 79⟩⟩, ⟨.endLoop, ⟨80, 88⟩⟩,
    ⟨.endLoop, ⟨89, 97⟩⟩]

/-- The same program, compiled. -/
def loopInLoopCompiled : Compiled where
  blocks := [⟨⟨0, 7⟩, [], false, none⟩, ⟨⟨8, 15⟩, [], false, none⟩,
    ⟨⟨16, 27⟩, Lowering.loopHead .less 1000 999 998 7, false, none⟩,
    ⟨⟨28, 39⟩, Lowering.loopHead .less 1000 999 998 5, true, none⟩,
    ⟨⟨40, 51⟩, [⟨.read, 1000⟩, ⟨.add, 999⟩, ⟨.write, 1000⟩], true, none⟩,
    ⟨⟨52, 65⟩, [⟨.read, 1000⟩, ⟨.output, integerMode⟩], true, none⟩,
    ⟨⟨66, 79⟩, [⟨.read, 999⟩, ⟨.output, integerMode⟩], true, none⟩,
    ⟨⟨80, 88⟩, Lowering.loopEnd 5, true, none⟩, ⟨⟨89, 97⟩, Lowering.loopEnd 7, true, none⟩]
  symbols := ⟨[("a", ⟨1000, .aliased⟩), ("b", ⟨999, .int⟩)],
    [⟨.data 0, 1000⟩, ⟨.data 1, 999⟩], 998⟩

theorem loopInLoop_offsets : loopInLoop.compile 1000 = .ok loopInLoopCompiled ∧
    loopInLoop.Matched 2 8 ∧ loopInLoop.Matched 3 7 ∧
    loopInLoopCompiled.jumpTarget? 7 = some 16 ∧ loopInLoopCompiled.jumpTarget? 15 = some 4 ∧
    loopInLoopCompiled.jumpTarget? 3 = some 14 ∧ loopInLoopCompiled.jumpTarget? 16 = some 3 := by
  have hcompile : loopInLoop.compile 1000 = .ok loopInLoopCompiled := rfl
  have hinner : loopInLoop.Matched 3 7 :=
    ⟨by decide, ⟨_, rfl, _, _, _, rfl⟩, ⟨_, rfl, rfl⟩, rfl⟩
  have houter : loopInLoop.Matched 2 8 :=
    ⟨by decide, ⟨_, rfl, _, _, _, rfl⟩, ⟨_, rfl, rfl⟩, rfl⟩
  rcases loop_offsets hcompile hinner rfl rfl with ⟨-, -, -, hexit, hback, -⟩
  rcases loop_offsets hcompile houter rfl rfl with ⟨-, -, -, hexit', hback', -⟩
  exact ⟨hcompile, houter, hinner, hexit, hback, hexit', hback'⟩

end Program

end AccumulatorMachine
