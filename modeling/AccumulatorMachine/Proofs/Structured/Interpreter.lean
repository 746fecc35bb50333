import AccumulatorMachine.Proofs.Compilation
import AccumulatorMachine.Proofs.Lowering.Loops
import AccumulatorMachine.Proofs.Structured.Condition

/-!
# Structured Interpretation

What a program with loops does, statement by statement.

The interpreter goes from statement to statement and keeps a store. It knows nothing of jumps. A
loop goes into its body or to the statement behind its own end, an end goes back to its own loop,
and any other statement does what its code does when it runs from start to end.

Names mean what they mean in the text. A loop that is entered again compares the same cells,
however its names are bound further down, so the address of an operand is read off the table that
the statements up to the loop lead to.

## Main definitions

* `Program.endOf?`: The end of a loop.
* `Program.addressAt?`: The address of an operand of a statement.
* `Structured.Outcome`, `Structured.Does`: What a statement does to a store.
* `Structured.CodeDoes`: What code does on its own.
* `Structured.Reaches`: The statements on the way from one to another.

## Theorems

* `Program.compile_loop`, `Program.compile_endLoop`, `Program.compile_plain`: The code of loops, of
  their ends and of other statements.
* `Structured.Does.total`: Every statement does something.
* `Structured.Does.unique`: No statement does two things.
-/

namespace AccumulatorMachine

namespace Program

/-- The index of the end of the loop that starts at an index. -/
def endOf? (program : Program) (start : Nat) : Option Nat :=
  match LoopPairs.ofStatements? program.statements with
  | .ok pairs => pairs.endOf? start
  | .error _ => none

/-- The address of an operand of the statement at an index, as the statements up to this one bind
    it. -/
def addressAt? (program : Program) (dataBase : Int) (index : Nat) (operand : Operand) :
    Option Int :=
  match LoopPairs.ofStatements? program.statements with
  | .ok pairs =>
    match (Lowering.statements pairs 0 [] (program.statements.take (index + 1))).run
        (.empty dataBase) with
    | .ok (_, table) => table.addressOf? operand.render
    | .error _ => none
  | .error _ => none

/-- What the statement at an index says. -/
def formAt? (program : Program) (index : Nat) : Option Statement.Form :=
  program.statements[index]?.map Statement.form

section Compiled

variable {program : Program} {dataBase : Int} {compiled : Compiled}
  (h : program.compile dataBase = .ok compiled)

include h

/-- A pair is a statement that starts a loop and a later one that ends a loop. -/
theorem endOf?_ok {start stop : Nat} (hstop : program.endOf? start = some stop) :
    start < stop ∧
      (∃ s, program.statements[start]? = some s ∧
        ∃ left comparison right, s.form = .loop left comparison right) ∧
      ∃ s, program.statements[stop]? = some s ∧ s.form = .endLoop := by
  rcases compile_ok h with ⟨pairs, hpairs, -, -⟩
  rw [endOf?, hpairs] at hstop
  exact LoopPairs.endOf?_ok hpairs hstop

/-- An end has only one loop. -/
theorem endOf?_unique {start other stop : Nat} (hstart : program.endOf? start = some stop)
    (hother : program.endOf? other = some stop) : start = other := by
  rcases compile_ok h with ⟨pairs, hpairs, -, -⟩
  rw [endOf?, hpairs] at hstart hother
  exact LoopPairs.start_unique hpairs hstart hother

theorem compile_length : compiled.blocks.length = program.statements.length := by
  rcases compile_ok h with ⟨pairs, -, hlowering, -⟩
  exact Lowering.statements_length hlowering

/-- Each statement was lowered to its block, and what it says is read off the table after it. -/
theorem compile_lowers {k : Nat} {s : Statement} (hs : program.statements[k]? = some s) :
    ∃ pairs block openedBefore before openedAfter after, compiled.blocks[k]? = some block ∧
      Lowering.Lowers pairs k openedBefore before s block openedAfter after ∧
      before.Within dataBase ∧ (∀ start, program.endOf? start = pairs.endOf? start) ∧
      ∀ operand, program.addressAt? dataBase k operand = after.addressOf? operand.render := by
  rcases compile_ok h with ⟨pairs, hpairs, hlowering, -⟩
  rcases Lowering.statements_get hlowering hs with
    ⟨block, openedBefore, before, openedAfter, after, hblock, hlowers, hbefore, hafter, -⟩
  rw [Nat.zero_add] at hlowers
  have hwithin := (Lowering.statements_leaves hbefore (.empty dataBase)).within
  refine ⟨pairs, block, openedBefore, before, openedAfter, after, hblock, hlowers, hwithin,
    fun start => ?_, fun operand => ?_⟩
  · simp only [endOf?, hpairs]
  · simp only [addressAt?, hpairs, hafter]

/-- A loop starts with the code that tests its condition. -/
theorem compile_loop {k : Nat} {s : Statement} {left right : Operand} {comparison : Comparison}
    (hs : program.statements[k]? = some s) (hform : s.form = .loop left comparison right) :
    ∃ block a b stop cursor, compiled.blocks[k]? = some block ∧ program.endOf? k = some stop ∧
      program.addressAt? dataBase k left = some a ∧
      program.addressAt? dataBase k right = some b ∧
      block.code = Lowering.loopHead comparison a b cursor (stop - k + 1) := by
  rcases compile_lowers h hs with
    ⟨pairs, block, _, before, _, after, hblock, hlowers, -, hends, haddress⟩
  cases hlowers with
  | loop hform' hstop hleft hright =>
    rw [hform] at hform'
    cases hform'
    -- The right operand may allocate, but the left one keeps its address.
    have hkept := Lowering.operandAddress_keeps hright (Lowering.operandAddress_binds hleft)
    exact ⟨_, _, _, _, _, hblock, (hends k).trans hstop, (haddress left).trans hkept,
      (haddress right).trans (Lowering.operandAddress_binds hright), rfl⟩
  | endLoop hform' =>
    rw [hform] at hform'
    cases hform'
  | plain hplain =>
    rw [hform] at hplain
    exact absurd hplain id

/-- The end of a loop is a jump. -/
theorem compile_endLoop {k : Nat} {s : Statement} (hs : program.statements[k]? = some s)
    (hform : s.form = .endLoop) :
    ∃ block start, compiled.blocks[k]? = some block ∧ program.endOf? start = some k ∧
      block.code = Lowering.loopEnd (k - start + 1) := by
  rcases compile_ok h with ⟨pairs, hpairs, hlowering, -⟩
  have hstep : Lowering.InStep pairs 0 (program.statements ++ []) [] := by
    rw [List.append_nil]
    exact .start hpairs
  rcases Lowering.statements_endLoop hstep hlowering hs hform with
    ⟨start, block, hstart, hblock, hcode⟩
  rw [Nat.zero_add] at hstart hcode
  refine ⟨block, start, hblock, ?_, hcode⟩
  simp only [endOf?, hpairs]
  exact hstart

/-- The body of a loop comes after the four instructions of its start, and one more follows it. -/
theorem start_body {start stop : Nat} (hstop : program.endOf? start = some stop) :
    compiled.start (start + 1) = compiled.start start + 4 ∧
      compiled.start (stop + 1) = compiled.start stop + 1 := by
  rcases endOf?_ok h hstop with
    ⟨-, ⟨first, hfirst, left, comparison, right, hloop⟩, last, hlast, hend⟩
  constructor
  · rcases compile_loop h hfirst hloop with ⟨block, _, _, _, _, hblock, -, -, -, hcode⟩
    rw [Compiled.start_succ hblock, hcode]
    rfl
  · rcases compile_endLoop h hlast hend with ⟨block, _, hblock, -, hcode⟩
    rw [Compiled.start_succ hblock, hcode]
    rfl

/-- The code of any other statement is left only over its end. -/
theorem compile_plain {k : Nat} {s : Statement} (hs : program.statements[k]? = some s)
    (hplain : s.form.Plain) :
    ∃ block, compiled.blocks[k]? = some block ∧ Fragment.SelfContained block.code := by
  rcases compile_lowers h hs with ⟨_, block, _, _, _, _, hblock, hlowers, hwithin, -⟩
  rcases hlowers.form_of_plain hplain with ⟨redeclared, hform⟩
  exact ⟨block, hblock, Lowering.form_selfContained hform hwithin⟩

end Compiled

end Program

namespace Structured

/-- What comes of a statement. -/
inductive Outcome where
  /-- The statement at an index is next. -/
  | goes (next : Nat) (s : Store)
  | fails (fault : Fault)
  /-- The statement never comes to an end. -/
  | hangs

/-- What comes of a loop: it goes on with its body if its condition holds, and behind its end if
    not. -/
def Outcome.branch (body exit : Nat) (s : Store) : Except Fault Bool → Outcome
  | .ok true => goes body s
  | .ok false => goes exit s
  | .error fault => fails fault

/-- What code does on its own to a store, when the statement at `next` comes after it. -/
inductive CodeDoes (code : List Instruction) (next : Nat) (s : Store) : Outcome → Prop
  | finishes {s' : Store} (h : Fragment.Finishes code s s') : CodeDoes code next s (.goes next s')
  | faults {fault : Fault} (h : Fragment.Faults code s fault) : CodeDoes code next s (.fails fault)
  | hangs (h : Fragment.Hangs code s) : CodeDoes code next s .hangs

/-- What the statement at an index does to a store. -/
inductive Does (program : Program) (dataBase : Int) (compiled : Compiled) :
    Nat → Store → Outcome → Prop
  | loop {i stop : Nat} {s : Store} {left right : Operand} {comparison : Comparison} {a b : Int}
      (hform : program.formAt? i = some (.loop left comparison right))
      (hleft : program.addressAt? dataBase i left = some a)
      (hright : program.addressAt? dataBase i right = some b)
      (hstop : program.endOf? i = some stop) :
      Does program dataBase compiled i s
        (.branch (i + 1) (stop + 1) s (s.condition a b comparison))
  | endLoop {i start : Nat} {s : Store} (hform : program.formAt? i = some .endLoop)
      (hstart : program.endOf? start = some i) :
      Does program dataBase compiled i s (.goes start s)
  | plain {i : Nat} {s : Store} {f : Statement.Form} {block : Block} {outcome : Outcome}
      (hform : program.formAt? i = some f) (hplain : f.Plain)
      (hblock : compiled.blocks[i]? = some block)
      (hcode : CodeDoes block.code (i + 1) s outcome) :
      Does program dataBase compiled i s outcome

/-- The statements on the way from one statement to another, each with the store it starts from. -/
inductive Reaches (program : Program) (dataBase : Int) (compiled : Compiled) :
    Nat × Store → List (Nat × Store) → Nat × Store → Prop
  | refl (x : Nat × Store) : Reaches program dataBase compiled x [] x
  | head {i j : Nat} {s t : Store} {trace : List (Nat × Store)} {y : Nat × Store}
      (hdoes : Does program dataBase compiled i s (.goes j t))
      (hrest : Reaches program dataBase compiled (j, t) trace y) :
      Reaches program dataBase compiled (i, s) ((i, s) :: trace) y

theorem CodeDoes.total {code : List Instruction} (hcode : Fragment.SelfContained code) (next : Nat)
    (s : Store) : ∃ outcome, CodeDoes code next s outcome := by
  rcases hcode.outcome s with ⟨s', h⟩ | ⟨fault, h⟩ | h
  · exact ⟨_, CodeDoes.finishes h⟩
  · exact ⟨_, CodeDoes.faults h⟩
  · exact ⟨_, CodeDoes.hangs h⟩

theorem CodeDoes.unique {code : List Instruction} {next : Nat} {s : Store}
    {outcome other : Outcome} (h1 : CodeDoes code next s outcome)
    (h2 : CodeDoes code next s other) : outcome = other := by
  -- Code has one of its three outcomes only.
  cases h1 with
  | finishes h1 =>
    cases h2 with
    | finishes h2 => rw [h1.unique h2]
    | faults h2 => exact absurd h2 (h1.not_faults _)
    | hangs h2 => exact absurd h2 h1.not_hangs
  | faults h1 =>
    cases h2 with
    | finishes h2 => exact absurd h1 (h2.not_faults _)
    | faults h2 => rw [h1.unique h2]
    | hangs h2 => exact absurd h2 h1.not_hangs
  | hangs h1 =>
    cases h2 with
    | finishes h2 => exact absurd h1 h2.not_hangs
    | faults h2 => exact absurd h1 h2.not_hangs
    | hangs h2 => rfl

section Compiled

variable {program : Program} {dataBase : Int} {compiled : Compiled}
  (h : program.compile dataBase = .ok compiled)

include h

/-- Every statement does something. -/
theorem Does.total {i : Nat} (hi : i < program.statements.length) (s : Store) :
    ∃ outcome, Does program dataBase compiled i s outcome := by
  have hs : program.statements[i]? = some program.statements[i] := List.getElem?_eq_getElem hi
  have hform : program.formAt? i = some program.statements[i].form := by
    rw [Program.formAt?, hs]
    rfl
  -- A loop has an end and an end has a loop, since the program was compiled.
  rcases program.statements[i].form.loop_or_endLoop_or_plain with
    ⟨left, comparison, right, hf⟩ | hf | hplain
  · rcases Program.compile_loop h hs hf with ⟨_, a, b, stop, _, _, hstop, hleft, hright, -⟩
    exact ⟨_, Does.loop (hf ▸ hform) hleft hright hstop⟩
  · rcases Program.compile_endLoop h hs hf with ⟨_, start, _, hstart, -⟩
    exact ⟨_, Does.endLoop (hf ▸ hform) hstart⟩
  · rcases Program.compile_plain h hs hplain with ⟨block, hblock, hcode⟩
    rcases CodeDoes.total hcode (i + 1) s with ⟨outcome, hdoes⟩
    exact ⟨outcome, Does.plain hform hplain hblock hdoes⟩

/-- No statement does two things. -/
theorem Does.unique {i : Nat} {s : Store} {outcome other : Outcome}
    (h1 : Does program dataBase compiled i s outcome)
    (h2 : Does program dataBase compiled i s other) : outcome = other := by
  cases h1 with
  | loop hform hleft hright hstop =>
    cases h2 with
    | loop hform' hleft' hright' hstop' =>
      rw [hform] at hform'
      cases hform'
      -- The condition is a function of the addresses and the store.
      rw [hleft] at hleft'
      cases hleft'
      rw [hright] at hright'
      cases hright'
      rw [hstop] at hstop'
      cases hstop'
      rfl
    | endLoop hform' => rw [hform] at hform'; cases hform'
    | plain hform' hplain =>
      rw [hform] at hform'
      cases hform'
      exact absurd hplain id
  | endLoop hform hstart =>
    cases h2 with
    | loop hform' => rw [hform] at hform'; cases hform'
    | endLoop hform' hstart' => rw [Program.endOf?_unique h hstart hstart']
    | plain hform' hplain =>
      rw [hform] at hform'
      cases hform'
      exact absurd hplain id
  | plain hform hplain hblock hcode =>
    cases h2 with
    | loop hform' =>
      rw [hform] at hform'
      cases hform'
      exact absurd hplain id
    | endLoop hform' =>
      rw [hform] at hform'
      cases hform'
      exact absurd hplain id
    | plain hform' hplain' hblock' hcode' =>
      rw [hblock] at hblock'
      cases hblock'
      exact hcode.unique hcode'

end Compiled

end Structured

end AccumulatorMachine
