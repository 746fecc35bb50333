import AccumulatorMachine.Proofs.Structured.Interpreter

/-!
# Loops in a Machine

A compiled program with loops does what the structured interpreter does.

The jumps of a loop are computed from the number of its statements. `Program.KeepsContract` is the
rule under which they are right: the body of every loop comes to four instructions more than it has
statements. Then the exit of a loop is the block behind its end, the end jumps to the first
instruction of its loop, and a machine goes from the start of a block to the start of the block
that the interpreter goes to.

From there on it is a matter of counting. A machine that is in front of a block either is about to
halt behind the last one, or it passes through the block, fails in it, or stays in it forever, just
as the interpreter says. Every run of a machine is cut into such pieces by `locate`, which inducts
on the number of steps. The blocks that take no step at all are statements without code, after
which the interpreter has moved on in the text.

## Main definitions

* `Program.KeepsContract`: The rule for the bodies of loops.
* `Structured.Boundary`: A machine in front of a block.
* `Structured.PassesThrough`: A run through the blocks of several statements.
* `Structured.Located`, `Structured.Ran`: Where a machine is after a number of steps, and what the
  steps have come to.
* `Structured.Follows`: A machine that does what the interpreter does.

## Theorems

* `Structured.simulates`: A machine in front of a block does what the statement does.
* `Structured.locate`: Where a machine is after a number of steps.
* `Program.compile_follows`: A compiled program does what the interpreter does.
-/

namespace AccumulatorMachine

/-- The rule for the bodies of loops: the statements between the start and the end of a loop come
    to four instructions more than there are of them. -/
def Program.KeepsContract (program : Program) (compiled : Compiled) : Prop :=
  ∀ start stop, program.endOf? start = some stop →
    compiled.start stop = compiled.start (start + 1) + ((stop - start - 1) + 4)

namespace Structured

/-- A machine in front of the block of a statement, with a given store. -/
def Boundary (compiled : Compiled) (m : Machine) (i : Nat) (s : Store) : Prop :=
  ∃ c, m.At (compiled.start i) c ∧ c.toStore = s

/-- A machine does in the block of a statement what comes of the statement. -/
def Simulates (compiled : Compiled) (i : Nat) (m : Machine) : Outcome → Prop
  | .goes j t => ∃ k m', Machine.Passes (compiled.start i) (compiled.start (i + 1)) k m m' ∧
      Boundary compiled m' j t ∧ t.memory.Ready compiled.code ∧ (i < j ∨ 0 < k)
  | .fails fault => ∃ k m' m'' pc tick,
      Machine.Passes (compiled.start i) (compiled.start (i + 1)) k m m' ∧ m'.halted = false ∧
      m'.step = (m'', some ⟨fault, pc, tick⟩) ∧ compiled.InBlock i pc
  | .hangs => ∀ k, ∃ m', Machine.Passes (compiled.start i) (compiled.start (i + 1)) k m m' ∧
      m'.halted = false

section Blocks

variable {program : Program} {dataBase : Int} {compiled : Compiled}
  (h : program.compile dataBase = .ok compiled) (hcontract : program.KeepsContract compiled)

include h hcontract

/-- A loop and its end are as far apart as their jumps say. -/
theorem start_stop {i stop : Nat} (hstop : program.endOf? i = some stop) :
    compiled.start (i + 1) = compiled.start i + 4 ∧
      compiled.start stop = compiled.start i + (stop - i + 7) ∧
      compiled.start (stop + 1) = compiled.start i + (stop - i + 8) := by
  rcases Program.endOf?_ok h hstop with ⟨hlt, -⟩
  rcases Program.start_body h hstop with ⟨hhead, hone⟩
  -- The body is as long as the rule says, and the jumps were computed for that.
  have hbody := hcontract i stop hstop
  exact ⟨hhead, by omega, by omega⟩

/-- The code of a loop fits where it stands: its jump leads behind its end. -/
theorem fits_head {i stop : Nat} {block : Block} {left right cursor : Int}
    {comparison : Comparison} (hblock : compiled.blocks[i]? = some block)
    (hcode : block.code = Lowering.loopHead comparison left right cursor (stop - i + 1))
    (hstop : program.endOf? i = some stop) :
    Fragment.Fits block.code compiled.code (compiled.start i) := by
  rcases start_stop h hcontract hstop with ⟨hhead, -, hexit⟩
  have hbound := compiled.start_le (stop + 1)
  have hskip := comparison.skipOpCode_ne
  refine ⟨compiled.sits hblock, ?_, ?_, ?_⟩
  · rw [hcode]
    simp [Lowering.loopHead, hskip.1]
  · rw [hcode]
    simp [Lowering.loopHead, hskip.2]
  · rw [hcode]
    refine Fragment.forall_of_zipIdx ?_
    simp only [Lowering.loopHead, List.zipIdx_cons, List.zipIdx_nil, List.forall_mem_cons]
    rw [Comparison.distances_skipOpCode]
    simp [Instruction.distances]
    omega

end Blocks

section Pieces

variable {program : Program} {dataBase : Int} {compiled : Compiled}
  (h : program.compile dataBase = .ok compiled) (hapart : compiled.KeepsApart dataBase)
  (hmax : (compiled.code.length : Int) ≤ Word.maximum) {i : Nat} {block : Block}
  (hblock : compiled.blocks[i]? = some block)
  (hfits : Fragment.Fits block.code compiled.code (compiled.start i)) {m : Machine} {c : Core}
  (hat : m.At (compiled.start i) c) (hready : c.memory.Ready compiled.code)

include h hapart hmax hblock hfits hat hready

/-- A machine in front of a block passes through it as far as its code goes. -/
theorem passes_of_steps {q : Nat} {c' : Core} (hsteps : Fragment.Steps block.code (0, c) (q, c')) :
    ∃ k m', Machine.Passes (compiled.start i) (compiled.start (i + 1)) k m m' ∧
      m'.At ↑(compiled.start i + q) c' ∧ c'.memory.Ready compiled.code := by
  have hat' : m.At ↑(compiled.start i + 0) c := hat
  rw [Compiled.start_succ hblock]
  exact Fragment.machine_steps hmax (Program.compile_storesApart h hapart) hfits hsteps hat' hready

/-- A machine in front of a block fails where its code has a fault. -/
theorem fails_of_fault {p : Nat} {c' : Core} {instruction : Instruction} {fault : Fault}
    (hsteps : Fragment.Steps block.code (0, c) (p, c')) (hi : block.code[p]? = some instruction)
    (he : c'.effect instruction = .error fault) : Simulates compiled i m (.fails fault) := by
  rcases passes_of_steps h hapart hmax hblock hfits hat hready hsteps with
    ⟨k, m', hpass, hm', hready'⟩
  rcases Fragment.machine_fault hfits hi he hm' hready' with ⟨m'', tick, hstep⟩
  have hp : p < block.code.length := (List.getElem?_eq_some_iff.mp hi).1
  exact ⟨k, m', m'', _, tick, hpass, hm'.running, hstep, block, hblock, by omega, by omega⟩

end Pieces

section Statements

variable {program : Program} {dataBase : Int} {compiled : Compiled}
  (h : program.compile dataBase = .ok compiled) (hcontract : program.KeepsContract compiled)
  (hapart : compiled.KeepsApart dataBase)
  (hmax : (compiled.code.length : Int) ≤ Word.maximum) {i stop : Nat} {s : Store} {m : Machine}
  {block : Block} (hblock : compiled.blocks[i]? = some block) (hm : Boundary compiled m i s)
  (hready : s.memory.Ready compiled.code)

include h hapart hmax hblock hm hready

include hcontract in
/-- A machine in front of a loop goes where the condition says. -/
theorem simulates_loop {left right cursor : Int} {comparison : Comparison}
    (hcode : block.code = Lowering.loopHead comparison left right cursor (stop - i + 1))
    (hstop : program.endOf? i = some stop) :
    Simulates compiled i m (.branch (i + 1) (stop + 1) s (s.condition left right comparison)) := by
  have hfits := fits_head h hcontract hblock hcode hstop
  rcases start_stop h hcontract hstop with ⟨hhead, -, hexit⟩
  have hlt := (Program.endOf?_ok h hstop).1
  rcases hm with ⟨c, hat, rfl⟩
  -- The condition faults, or it leads into the body or to the exit.
  cases hcondition : c.toStore.condition left right comparison with
  | error fault =>
    have hfaults : ∃ p c' j, Fragment.Steps block.code (0, c) (p, c') ∧ block.code[p]? = some j ∧
        c'.effect j = .error fault := by
      rw [hcode]
      exact Fragment.head_faults hcondition
    rcases hfaults with ⟨p, c', j, hsteps, hj, he⟩
    exact fails_of_fault h hapart hmax hblock hfits hat hready hsteps hj he
  | ok holds =>
    cases holds with
    | true =>
      have henters : ∃ c', c'.toStore = c.toStore ∧
          Fragment.Steps block.code (0, c) (4, c') := by
        rw [hcode]
        exact Fragment.head_enters hcondition
      rcases henters with ⟨c', hstore, hsteps⟩
      rcases passes_of_steps h hapart hmax hblock hfits hat hready hsteps with
        ⟨k, m', hpass, hm', hready'⟩
      rw [← hhead] at hm'
      exact ⟨k, m', hpass, ⟨c', hm', hstore⟩, hready, Or.inl (Nat.lt_succ_self i)⟩
    | false =>
      have hleaves : ∃ c', c'.toStore = c.toStore ∧
          Fragment.Steps block.code (0, c) (stop - i + 1 + 7, c') := by
        rw [hcode]
        exact Fragment.head_leaves hcondition
      rcases hleaves with ⟨c', hstore, hsteps⟩
      rcases passes_of_steps h hapart hmax hblock hfits hat hready hsteps with
        ⟨k, m', hpass, hm', hready'⟩
      have hplace : compiled.start i + (stop - i + 1 + 7) = compiled.start (stop + 1) := by omega
      rw [hplace] at hm'
      exact ⟨k, m', hpass, ⟨c', hm', hstore⟩, hready, Or.inl (by omega)⟩

omit hapart in
include hcontract in
/-- A machine in front of the end of a loop goes back to its start. -/
theorem simulates_endLoop {start : Nat} (hcode : block.code = Lowering.loopEnd (i - start + 1))
    (hstart : program.endOf? start = some i) : Simulates compiled i m (.goes start s) := by
  rcases hm with ⟨c, hat, rfl⟩
  have hlt := (Program.endOf?_ok h hstart).1
  have hdistance := (start_stop h hcontract hstart).2.1
  have hi : compiled.code[compiled.start i]? = some ⟨.jump, -((i - start + 1 : Nat) + 6)⟩ := by
    have hget := (compiled.sits hblock).get 0
    rw [hcode] at hget
    exact hget _ rfl
  have hbound := compiled.start_le i
  have hone : compiled.start (i + 1) = compiled.start i + 1 := by
    rw [Compiled.start_succ hblock, hcode]
    rfl
  have hstay : ∀ d ∈ (⟨.jump, -((i - start + 1 : Nat) + 6)⟩ : Instruction).distances,
      0 ≤ (compiled.start i : Int) + d ∧ (compiled.start i : Int) + d ≤ compiled.code.length := by
    intro d hd
    rw [List.mem_singleton.mp hd]
    simp only
    omega
  rcases Machine.step_of_holds hmax hat hready.holds hi (by simp) (fun hop => by cases hop) hstay
    rfl with ⟨m', hstep, hm'⟩
  have hpc := hat.pc_eq
  -- The distance of the jump is that from the end back to the loop.
  have hplace : (compiled.start i : Int) + -((i - start + 1 : Nat) + 6)
      = (compiled.start start : Int) := by omega
  rw [hplace] at hm'
  exact ⟨1, m', Machine.Passes.step hat.running (by omega) (by omega) hstep (.stay m'),
    ⟨c, hm', rfl⟩, hready, Or.inr Nat.one_pos⟩

/-- A machine in front of any other statement does what its code does. -/
theorem simulates_plain (hcode : Fragment.SelfContained block.code) {outcome : Outcome}
    (hdoes : CodeDoes block.code (i + 1) s outcome) : Simulates compiled i m outcome := by
  have hfits := hcode.fits (compiled.sits hblock)
  rcases hm with ⟨c, hat, rfl⟩
  -- The code is understood on its own, for a core of its own with the same store.
  cases hdoes with
  | finishes hfinishes =>
    rcases hcode.finishes_congr hfinishes rfl with ⟨c', hsteps, hstore⟩
    rcases passes_of_steps h hapart hmax hblock hfits hat hready hsteps with
      ⟨k, m', hpass, hm', hready'⟩
    rw [← Compiled.start_succ hblock] at hm'
    exact ⟨k, m', hpass, ⟨c', hm', hstore⟩, hstore ▸ hready', Or.inl (Nat.lt_succ_self i)⟩
  | faults hfaults =>
    rcases hcode.faults_congr hfaults rfl with ⟨p, c', j, hsteps, hj, he⟩
    exact fails_of_fault h hapart hmax hblock hfits hat hready hsteps hj he
  | hangs hhangs =>
    intro k
    have hat' : m.At ↑(compiled.start i + 0) c := hat
    rw [Compiled.start_succ hblock]
    exact Fragment.machine_hangs hmax (Program.compile_storesApart h hapart) hfits
      (fun x hx => hcode.hangs_congr hhangs rfl hx) hat' hready k

end Statements

/-- A run through the blocks of several statements, one after another, in front of each of which
    the machine has the given store. -/
inductive PassesThrough (compiled : Compiled) : List (Nat × Store) → Nat → Machine → Machine → Prop
  | nil (m : Machine) : PassesThrough compiled [] 0 m m
  | cons {i k k' : Nat} {s : Store} {trace : List (Nat × Store)} {m mid m' : Machine}
      (hm : Boundary compiled m i s)
      (hpass : Machine.Passes (compiled.start i) (compiled.start (i + 1)) k m mid)
      (hrest : PassesThrough compiled trace k' mid m') :
      PassesThrough compiled ((i, s) :: trace) (k + k') m m'

theorem PassesThrough.runFor_add {compiled : Compiled} {trace : List (Nat × Store)} {k : Nat}
    {m m' : Machine} (h : PassesThrough compiled trace k m m') (n : Nat) :
    Machine.runFor (k + n) m = Machine.runFor n m' := by
  induction h with
  | nil m => rw [Nat.zero_add]
  | cons hm hpass hrest ih => rw [Nat.add_assoc, hpass.runFor_add, ih]

/-- Where a machine is after a number of steps, if it has started in front of a block: still on its
    way inside a block, or behind the last one, or stopped by a fault. -/
inductive Located (program : Program) (dataBase : Int) (compiled : Compiled) (x : Nat × Store)
    (m : Machine) (k : Nat) : Prop
  | inside {trace : List (Nat × Store)} {y : Nat × Store} {k1 k2 : Nat} {m1 m2 : Machine}
      (hreach : Reaches program dataBase compiled x trace y)
      (hthrough : PassesThrough compiled trace k1 m m1) (hm : Boundary compiled m1 y.1 y.2)
      (hpass : Machine.Passes (compiled.start y.1) (compiled.start (y.1 + 1)) k2 m1 m2)
      (hrun : m2.halted = false) (hk : k1 + k2 = k) : Located program dataBase compiled x m k
  | ended {trace : List (Nat × Store)} {s : Store} {k1 : Nat} {m1 : Machine}
      (hreach : Reaches program dataBase compiled x trace (program.statements.length, s))
      (hthrough : PassesThrough compiled trace k1 m m1)
      (hm : Boundary compiled m1 program.statements.length s)
      (hready : s.memory.Ready compiled.code) (hk : k1 < k) :
      Located program dataBase compiled x m k
  | failed {trace : List (Nat × Store)} {y : Nat × Store} {fault : Fault} {k1 k2 tick : Nat}
      {m1 m2 m3 : Machine} {pc : Int} (hreach : Reaches program dataBase compiled x trace y)
      (hdoes : Does program dataBase compiled y.1 y.2 (.fails fault))
      (hthrough : PassesThrough compiled trace k1 m m1)
      (hpass : Machine.Passes (compiled.start y.1) (compiled.start (y.1 + 1)) k2 m1 m2)
      (hrun : m2.halted = false) (hstep : m2.step = (m3, some ⟨fault, pc, tick⟩))
      (hin : compiled.InBlock y.1 pc) (hk : k1 + k2 < k) : Located program dataBase compiled x m k

/-- A machine that passes through a block is located by where it is afterwards. -/
theorem Located.head {program : Program} {dataBase : Int} {compiled : Compiled} {i j k k' : Nat}
    {s t : Store} {m mid : Machine} (hdoes : Does program dataBase compiled i s (.goes j t))
    (hm : Boundary compiled m i s)
    (hpass : Machine.Passes (compiled.start i) (compiled.start (i + 1)) k m mid)
    (hrest : Located program dataBase compiled (j, t) mid k') :
    Located program dataBase compiled (i, s) m (k + k') := by
  cases hrest with
  | inside hreach hthrough hm1 hpass1 hrun hk =>
    exact .inside (.head hdoes hreach) (.cons hm hpass hthrough) hm1 hpass1 hrun (by omega)
  | ended hreach hthrough hm1 hready hk =>
    exact .ended (.head hdoes hreach) (.cons hm hpass hthrough) hm1 hready (by omega)
  | failed hreach hfails hthrough hpass1 hrun hstep hin hk =>
    exact .failed (.head hdoes hreach) hfails (.cons hm hpass hthrough) hpass1 hrun hstep hin
      (by omega)

section Runs

variable {program : Program} {dataBase : Int} {compiled : Compiled}
  (h : program.compile dataBase = .ok compiled)

include h

/-- The interpreter stays inside the program or gets to its end. -/
theorem Does.le_length {i : Nat} {s : Store} {outcome : Outcome}
    (hdoes : Does program dataBase compiled i s outcome) :
    i < program.statements.length ∧ ∀ j t, outcome = .goes j t → j ≤ program.statements.length := by
  have hlt : ∀ {j f}, program.formAt? j = some f → j < program.statements.length := by
    intro j f hform
    rcases Option.map_eq_some_iff.mp hform with ⟨s, hs, -⟩
    exact (List.getElem?_eq_some_iff.mp hs).1
  -- A loop is left behind its end, and the end is a statement of the program.
  cases hdoes with
  | loop hform hleft hright hstop =>
    rename_i left right comparison a b
    rcases Program.endOf?_ok h hstop with ⟨-, -, last, hlast, -⟩
    have hstopLt := (List.getElem?_eq_some_iff.mp hlast).1
    refine ⟨hlt hform, fun j t heq => ?_⟩
    have hi := hlt hform
    rcases hcondition : s.condition a b comparison with fault | holds
    · rw [hcondition] at heq
      cases heq
    · rw [hcondition] at heq
      cases holds with
      | true =>
        cases heq
        omega
      | false =>
        cases heq
        omega
  | endLoop hform hstart =>
    refine ⟨hlt hform, fun j t heq => ?_⟩
    cases heq
    have := (Program.endOf?_ok h hstart).1
    have := hlt hform
    omega
  | plain hform hplain hblock hcode =>
    refine ⟨hlt hform, fun j t heq => ?_⟩
    subst heq
    cases hcode with
    | finishes => exact hlt hform

variable (hcontract : program.KeepsContract compiled) (hapart : compiled.KeepsApart dataBase)
  (hmax : (compiled.code.length : Int) ≤ Word.maximum)

include hcontract hapart hmax

/-- A machine in front of a block does what the statement does. -/
theorem simulates {i : Nat} {s : Store} {m : Machine} {outcome : Outcome}
    (hdoes : Does program dataBase compiled i s outcome) (hm : Boundary compiled m i s)
    (hready : s.memory.Ready compiled.code) : Simulates compiled i m outcome := by
  -- In each case the block that the interpreter means is the compiled one.
  cases hdoes with
  | loop hform hleft hright hstop =>
    rcases Option.map_eq_some_iff.mp hform with ⟨statement, hs, hloop⟩
    rcases Program.compile_loop h hs hloop with
      ⟨block, _, _, _, _, hblock, hstop', hleft', hright', hcode⟩
    rw [hstop] at hstop'
    cases hstop'
    rw [hleft] at hleft'
    cases hleft'
    rw [hright] at hright'
    cases hright'
    exact simulates_loop h hcontract hapart hmax hblock hm hready hcode hstop
  | endLoop hform hstart =>
    rcases Option.map_eq_some_iff.mp hform with ⟨statement, hs, hend⟩
    rcases Program.compile_endLoop h hs hend with ⟨block, start, hblock, hstart', hcode⟩
    rw [Program.endOf?_unique h hstart hstart']
    exact simulates_endLoop h hcontract hmax hblock hm hready hcode hstart'
  | plain hform hplain hblock hcode =>
    rcases Option.map_eq_some_iff.mp hform with ⟨statement, hs, rfl⟩
    rcases Program.compile_plain h hs hplain with ⟨block, hblock', hself⟩
    rw [hblock] at hblock'
    cases hblock'
    exact simulates_plain h hapart hmax hblock hm hready hself hcode

/-- A machine passes through the statements that the interpreter goes through. -/
theorem passesThrough_of_reaches {x y : Nat × Store} {trace : List (Nat × Store)}
    (hreach : Reaches program dataBase compiled x trace y) {m : Machine}
    (hm : Boundary compiled m x.1 x.2) (hready : x.2.memory.Ready compiled.code) :
    ∃ k m', PassesThrough compiled trace k m m' ∧ Boundary compiled m' y.1 y.2 ∧
      y.2.memory.Ready compiled.code := by
  induction hreach generalizing m with
  | refl x => exact ⟨0, m, .nil m, hm, hready⟩
  | head hdoes hrest ih =>
    rcases simulates h hcontract hapart hmax hdoes hm hready with
      ⟨k, mid, hpass, hmid, hready', -⟩
    rcases ih hmid hready' with ⟨k', m', hthrough, hm', hready''⟩
    exact ⟨k + k', m', .cons hm hpass hthrough, hm', hready''⟩

/-- Where a machine in front of a block is after a number of steps. The induction is on that number
    and, for statements without code, on how much of the program is left. -/
theorem locate {k i : Nat} {s : Store} {m : Machine} (hi : i ≤ program.statements.length)
    (hm : Boundary compiled m i s) (hready : s.memory.Ready compiled.code) :
    Located program dataBase compiled (i, s) m k := by
  -- A block may take no step at all. Then less is left of the text, which is the inner induction.
  induction k using Nat.strongRecOn generalizing i s m with
  | ind k ihk =>
    induction hgap : program.statements.length - i using Nat.strongRecOn generalizing i s m with
    | ind gap ihgap =>
      rcases Nat.eq_zero_or_pos k with rfl | hk
      · rcases hm with ⟨c, hat, hstore⟩
        exact .inside (.refl _) (.nil m) ⟨c, hat, hstore⟩ (.stay m) hat.running rfl
      · by_cases hend : i = program.statements.length
        · subst hend
          exact .ended (.refl _) (.nil m) hm hready hk
        · -- If the block takes fewer steps than that, the others start from the next block.
          rcases Does.total h (by omega : i < program.statements.length) s with ⟨outcome, hdoes⟩
          have hsim := simulates h hcontract hapart hmax hdoes hm hready
          cases outcome with
          | goes j t =>
            rcases hsim with ⟨k', mid, hpass, hmid, hready', hprogress⟩
            have hj := (hdoes.le_length h).2 j t rfl
            by_cases hlt : k < k'
            · have hsplit : k' = k + (k' - k) := by omega
              rw [hsplit] at hpass
              rcases hpass.split (by omega) with ⟨m', hpass', hrun⟩
              exact .inside (.refl _) (.nil m) hm hpass' hrun (Nat.zero_add k)
            · have hsum : k = k' + (k - k') := by omega
              rw [hsum]
              refine Located.head hdoes hm hpass ?_
              rcases Nat.eq_zero_or_pos k' with rfl | hpos
              · -- No step was made, so the interpreter has moved on in the text.
                rcases hprogress with hforward | hpos
                · exact ihgap (program.statements.length - j) (by omega) hj hmid hready' rfl
                · exact absurd hpos (Nat.lt_irrefl 0)
              · exact ihk (k - k') (by omega) hj hmid hready'
          | fails fault =>
            rcases hsim with ⟨k', m', m'', pc, tick, hpass, hrun, hstep, hin⟩
            by_cases hlt : k < k'
            · have hsplit : k' = k + (k' - k) := by omega
              rw [hsplit] at hpass
              rcases hpass.split (by omega) with ⟨mid, hpass', hrun'⟩
              exact .inside (.refl _) (.nil m) hm hpass' hrun' (Nat.zero_add k)
            · by_cases heq : k = k'
              · subst heq
                exact .inside (.refl _) (.nil m) hm hpass hrun (Nat.zero_add k)
              · exact .failed (.refl _) hdoes (.nil m) hpass hrun hstep hin (by omega)
          | hangs =>
            rcases hsim k with ⟨m', hpass, hrun⟩
            exact .inside (.refl _) (.nil m) hm hpass hrun (Nat.zero_add k)

end Runs

/-- The first statement, with the store that a program starts with. -/
def initial (compiled : Compiled) (input : List Char) : Nat × Store :=
  (0, ⟨compiled.memory, input, false, []⟩)

/-- A machine that starts with a program does what the interpreter does. -/
structure Follows (program : Program) (dataBase : Int) (compiled : Compiled)
    (input : List Char) : Prop where
  /-- It passes through the blocks of the statements that the interpreter goes through, in their
      order and with the same store in front of each. -/
  passes : ∀ trace y, Reaches program dataBase compiled (initial compiled input) trace y →
    ∃ k m, PassesThrough compiled trace k (.load compiled.image input none) m ∧
      Boundary compiled m y.1 y.2
  /-- It is always inside the block of a statement that the interpreter has got to. -/
  places : ∀ k m, Machine.runFor k (.load compiled.image input none) = (m, none) →
    m.halted = false → ∃ trace y k1 k2 m1,
      Reaches program dataBase compiled (initial compiled input) trace y ∧
      PassesThrough compiled trace k1 (.load compiled.image input none) m1 ∧
      Boundary compiled m1 y.1 y.2 ∧
      Machine.Passes (compiled.start y.1) (compiled.start (y.1 + 1)) k2 m1 m ∧ k1 + k2 = k
  /-- It halts if the interpreter gets to the end, where the code ends and with the same store. -/
  halts : ∀ s, (∃ k m, Machine.runFor k (.load compiled.image input none) = (m, none) ∧
      m.halted = true ∧ m.pc = compiled.code.length ∧ m.core.toStore = s) ↔
    ∃ trace, Reaches program dataBase compiled (initial compiled input) trace
      (program.statements.length, s)
  /-- It fails if the interpreter does, in the block of the same statement. -/
  fails : ∀ i fault, (∃ k m failure,
      Machine.runFor k (.load compiled.image input none) = (m, some failure) ∧
      failure.fault = fault ∧ compiled.InBlock i failure.pc) ↔
    ∃ trace s, Reaches program dataBase compiled (initial compiled input) trace (i, s) ∧
      Does program dataBase compiled i s (.fails fault)
  /-- It runs forever if the interpreter neither gets to the end nor fails. -/
  diverges : (∀ k, ∃ m, Machine.runFor k (.load compiled.image input none) = (m, none) ∧
      m.halted = false) ↔
    ∀ trace y, Reaches program dataBase compiled (initial compiled input) trace y →
      y.1 ≠ program.statements.length ∧
      ∀ fault, ¬ Does program dataBase compiled y.1 y.2 (.fails fault)

section Start

variable {program : Program} {dataBase : Int} {compiled : Compiled}

/-- A machine that has passed through the whole program halts with its next step. -/
theorem PassesThrough.halts (h : program.compile dataBase = .ok compiled)
    {trace : List (Nat × Store)} {s : Store} {k : Nat} {m m1 : Machine}
    (hthrough : PassesThrough compiled trace k m m1)
    (hm : Boundary compiled m1 program.statements.length s)
    (hready : s.memory.Ready compiled.code) :
    ∃ m', (∀ n, Machine.runFor (k + (n + 1)) m = (m', none)) ∧ m'.halted = true ∧
      m'.pc = compiled.code.length ∧ m'.core.toStore = s := by
  rcases hm with ⟨c, hat, rfl⟩
  rw [← Program.compile_length h, Compiled.start_length] at hat
  rcases Machine.step_of_absent hat hready.ends with ⟨m', hstep, hhalted, hpc, hcore⟩
  refine ⟨m', fun n => ?_, hhalted, hpc, by rw [hcore]⟩
  rw [hthrough.runFor_add, Machine.runFor, if_neg (by rw [hat.running]; decide), hstep]
  exact Machine.runFor_of_halted hhalted n

/-- A machine whose next step in a block fails stops there. -/
theorem PassesThrough.fails {trace : List (Nat × Store)} {k k' : Nat} {m m1 m2 m3 : Machine}
    {low high : Int} {failure : Failure} (hthrough : PassesThrough compiled trace k m m1)
    (hpass : Machine.Passes low high k' m1 m2) (hrun : m2.halted = false)
    (hstep : m2.step = (m3, some failure)) (n : Nat) :
    Machine.runFor (k + (k' + (n + 1))) m = (m3, some failure) := by
  rw [hthrough.runFor_add, hpass.runFor_add, Machine.runFor, if_neg (by rw [hrun]; decide), hstep]

/-- What a number of steps from in front of a block have come to: the machine is still inside a
    block, or it has halted behind the last one, or a statement has stopped it. -/
inductive Ran (program : Program) (dataBase : Int) (compiled : Compiled) (x : Nat × Store)
    (m : Machine) (k : Nat) : Machine × Option Failure → Prop
  | inside {trace : List (Nat × Store)} {y : Nat × Store} {k1 k2 : Nat} {m1 m2 : Machine}
      (hreach : Reaches program dataBase compiled x trace y)
      (hthrough : PassesThrough compiled trace k1 m m1) (hm : Boundary compiled m1 y.1 y.2)
      (hpass : Machine.Passes (compiled.start y.1) (compiled.start (y.1 + 1)) k2 m1 m2)
      (hrun : m2.halted = false) (hk : k1 + k2 = k) :
      Ran program dataBase compiled x m k (m2, none)
  | halted {trace : List (Nat × Store)} {s : Store} {m' : Machine}
      (hreach : Reaches program dataBase compiled x trace (program.statements.length, s))
      (hhalted : m'.halted = true) (hstore : m'.core.toStore = s) :
      Ran program dataBase compiled x m k (m', none)
  | failed {trace : List (Nat × Store)} {y : Nat × Store} {fault : Fault} {m' : Machine} {pc : Int}
      {tick : Nat} (hreach : Reaches program dataBase compiled x trace y)
      (hdoes : Does program dataBase compiled y.1 y.2 (.fails fault))
      (hin : compiled.InBlock y.1 pc) :
      Ran program dataBase compiled x m k (m', some ⟨fault, pc, tick⟩)

/-- The steps of a machine come to what its place says. -/
theorem Located.ran (h : program.compile dataBase = .ok compiled) {x : Nat × Store} {m : Machine}
    {k : Nat} (hlocated : Located program dataBase compiled x m k) :
    Ran program dataBase compiled x m k (Machine.runFor k m) := by
  cases hlocated with
  | @inside trace y k1 k2 m1 m2 hreach hthrough hm hpass hrun hk =>
    have hsteps : Machine.runFor k m = (m2, none) := by
      rw [← hk, hthrough.runFor_add, hpass.runFor_eq]
    rw [hsteps]
    exact .inside hreach hthrough hm hpass hrun hk
  | @ended trace s k1 m1 hreach hthrough hm hready hk =>
    rcases hthrough.halts h hm hready with ⟨m', hsteps, hhalted, -, hstore⟩
    -- All steps that are left over add nothing.
    obtain ⟨n, rfl⟩ : ∃ n, k = k1 + (n + 1) := ⟨k - k1 - 1, by omega⟩
    rw [hsteps n]
    exact .halted hreach hhalted hstore
  | @failed trace y fault k1 k2 tick m1 m2 m3 pc hreach hdoes hthrough hpass hrun hstep hin hk =>
    obtain ⟨n, rfl⟩ : ∃ n, k = k1 + (k2 + (n + 1)) := ⟨k - k1 - k2 - 1, by omega⟩
    rw [hthrough.fails hpass hrun hstep n]
    exact .failed hreach hdoes hin

variable (h : program.compile dataBase = .ok compiled)
  (hcontract : program.KeepsContract compiled) (hapart : compiled.KeepsApart dataBase)
  (hmax : (compiled.code.length : Int) ≤ Word.maximum) (input : List Char)

include h hcontract hapart hmax

/-- What a number of steps from the start of a program have come to. -/
theorem ran_start (k : Nat) : Ran program dataBase compiled (initial compiled input)
    (.load compiled.image input none) k (Machine.runFor k (.load compiled.image input none)) :=
  (locate h hcontract hapart hmax (Nat.zero_le _) ⟨_, compiled.load_at input, rfl⟩
    (Program.compile_ready h hapart)).ran h

/-- What the interpreter goes through, the machine passes through. -/
theorem passes_start {trace : List (Nat × Store)} {y : Nat × Store}
    (hreach : Reaches program dataBase compiled (initial compiled input) trace y) :
    ∃ k m, PassesThrough compiled trace k (.load compiled.image input none) m ∧
      Boundary compiled m y.1 y.2 ∧ y.2.memory.Ready compiled.code :=
  passesThrough_of_reaches h hcontract hapart hmax hreach ⟨_, compiled.load_at input, rfl⟩
    (Program.compile_ready h hapart)

/-- A machine that is still running is inside a block that the interpreter has got to. -/
theorem places_start {k : Nat} {m : Machine}
    (hrun : Machine.runFor k (.load compiled.image input none) = (m, none))
    (hm : m.halted = false) : ∃ trace y k1 k2 m1,
      Reaches program dataBase compiled (initial compiled input) trace y ∧
      PassesThrough compiled trace k1 (.load compiled.image input none) m1 ∧
      Boundary compiled m1 y.1 y.2 ∧
      Machine.Passes (compiled.start y.1) (compiled.start (y.1 + 1)) k2 m1 m ∧ k1 + k2 = k := by
  have hran := ran_start h hcontract hapart hmax input k
  rw [hrun] at hran
  cases hran with
  | inside hreach hthrough hboundary hpass _ hk =>
    exact ⟨_, _, _, _, _, hreach, hthrough, hboundary, hpass, hk⟩
  | halted hreach hhalted =>
    rw [hhalted] at hm
    cases hm

/-- The machine halts exactly if the interpreter gets to the end. -/
theorem halts_start (s : Store) :
    (∃ k m, Machine.runFor k (.load compiled.image input none) = (m, none) ∧
      m.halted = true ∧ m.pc = compiled.code.length ∧ m.core.toStore = s) ↔
    ∃ trace, Reaches program dataBase compiled (initial compiled input) trace
      (program.statements.length, s) := by
  constructor
  · rintro ⟨k, m, hrun, hhalted, -, rfl⟩
    have hran := ran_start h hcontract hapart hmax input k
    rw [hrun] at hran
    cases hran with
    | inside _ _ _ _ hrunning =>
      rw [hrunning] at hhalted
      cases hhalted
    | @halted trace s m' hreach _ hstore => exact ⟨trace, hstore ▸ hreach⟩
  · rintro ⟨trace, hreach⟩
    rcases passes_start h hcontract hapart hmax input hreach with
      ⟨k, m, hthrough, hboundary, hready⟩
    rcases hthrough.halts h hboundary hready with ⟨m', hrun', hhalted, hpc, hstore⟩
    exact ⟨k + (0 + 1), m', hrun' 0, hhalted, hpc, hstore⟩

/-- The machine fails exactly if the interpreter does, and in the same statement. -/
theorem fails_start (i : Nat) (fault : Fault) :
    (∃ k m failure, Machine.runFor k (.load compiled.image input none) = (m, some failure) ∧
      failure.fault = fault ∧ compiled.InBlock i failure.pc) ↔
    ∃ trace s, Reaches program dataBase compiled (initial compiled input) trace (i, s) ∧
      Does program dataBase compiled i s (.fails fault) := by
  constructor
  · rintro ⟨k, m, failure, hrun, rfl, hplace⟩
    have hran := ran_start h hcontract hapart hmax input k
    rw [hrun] at hran
    cases hran with
    | @failed trace y fault m' pc tick hreach hdoes hin =>
      rw [hplace.unique hin]
      exact ⟨trace, y.2, hreach, hdoes⟩
  · rintro ⟨trace, s, hreach, hdoes⟩
    rcases passes_start h hcontract hapart hmax input hreach with
      ⟨k, m, hthrough, hboundary, hready⟩
    rcases simulates h hcontract hapart hmax hdoes hboundary hready with
      ⟨k', m', m'', pc, tick, hpass, hrunning, hstep, hin⟩
    exact ⟨k + (k' + (0 + 1)), m'', _, hthrough.fails hpass hrunning hstep 0, rfl, hin⟩

/-- The machine runs forever exactly if the interpreter neither gets to the end nor fails. -/
theorem diverges_start :
    (∀ k, ∃ m, Machine.runFor k (.load compiled.image input none) = (m, none) ∧
      m.halted = false) ↔
    ∀ trace y, Reaches program dataBase compiled (initial compiled input) trace y →
      y.1 ≠ program.statements.length ∧
      ∀ fault, ¬ Does program dataBase compiled y.1 y.2 (.fails fault) := by
  constructor
  · rintro hforever trace ⟨i, s⟩ hreach
    refine ⟨fun hend => ?_, fun fault hdoes => ?_⟩
    · -- A machine that gets to the end halts, and does not run forever.
      subst hend
      rcases (halts_start h hcontract hapart hmax input s).mpr ⟨trace, hreach⟩ with
        ⟨k, m, hrun, hhalted, -, -⟩
      rcases hforever k with ⟨m', hrun', hrunning⟩
      rw [hrun] at hrun'
      cases hrun'
      rw [hhalted] at hrunning
      cases hrunning
    · rcases (fails_start h hcontract hapart hmax input i fault).mpr ⟨trace, s, hreach, hdoes⟩ with
        ⟨k, m, failure, hrun, -, -⟩
      rcases hforever k with ⟨m', hrun', -⟩
      rw [hrun] at hrun'
      cases hrun'
  · intro hnever k
    have hran := ran_start h hcontract hapart hmax input k
    generalize hrun : Machine.runFor k (.load compiled.image input none) = outcome at hran
    cases hran with
    | inside _ _ _ _ hrunning => exact ⟨_, rfl, hrunning⟩
    | halted hreach => exact absurd rfl (hnever _ _ hreach).1
    | failed hreach hdoes => exact absurd hdoes ((hnever _ _ hreach).2 _)

end Start

end Structured

namespace Program

open Structured

variable {program : Program} {dataBase : Int} {compiled : Compiled}

/-- A program that keeps to the rule for the bodies of loops, and that keeps its cells apart from
    its code, does what the structured interpreter does. The length of the code has to be a word, as
    it is an address. -/
theorem compile_follows (h : program.compile dataBase = .ok compiled)
    (hcontract : program.KeepsContract compiled) (hapart : compiled.KeepsApart dataBase)
    (hmax : (compiled.code.length : Int) ≤ Word.maximum) (input : List Char) :
    Follows program dataBase compiled input where
  passes := by
    intro trace y hreach
    rcases passes_start h hcontract hapart hmax input hreach with ⟨k, m, hthrough, hboundary, -⟩
    exact ⟨k, m, hthrough, hboundary⟩
  places := fun _ _ => places_start h hcontract hapart hmax input
  halts := halts_start h hcontract hapart hmax input
  fails := fails_start h hcontract hapart hmax input
  diverges := diverges_start h hcontract hapart hmax input

/-- The sum of two variables. -/
def sumOf (x y : String) : Expression where
  tokens := [(.operand (.name x), ⟨37, 38⟩), (.operator .add, ⟨39, 40⟩),
    (.operand (.name y), ⟨41, 42⟩)]
  span := ⟨37, 42⟩

/-- A loop with two statements of three instructions each. -/
def countsUp : Program where
  statements := [⟨.int "i" 0, ⟨0, 7⟩⟩, ⟨.int "n" 1, ⟨9, 16⟩⟩,
    ⟨.loop (.name "i") .less (.name "n"), ⟨18, 29⟩⟩, ⟨.new "s" (sumOf "i" "n"), ⟨31, 42⟩⟩,
    ⟨.new "i" (sumOf "i" "n"), ⟨44, 55⟩⟩, ⟨.endLoop, ⟨57, 65⟩⟩]

/-- The same program, compiled. -/
def countsUpCompiled : Compiled where
  blocks := [⟨⟨0, 7⟩, [], false, none⟩, ⟨⟨9, 16⟩, [], false, none⟩,
    ⟨⟨18, 29⟩, Lowering.loopHead .less 1000 999 998 4, false, none⟩,
    ⟨⟨31, 42⟩, Reduction.operatorCode .add 1000 999, true, none⟩,
    ⟨⟨44, 55⟩, Reduction.operatorCode .add 1000 999, true, none⟩,
    ⟨⟨57, 65⟩, Lowering.loopEnd 4, true, none⟩]
  symbols := ⟨[("i", ⟨1000, .aliased⟩), ("n", ⟨999, .int⟩), ("s", ⟨1000, .aliased⟩)],
    [⟨.data 0, 1000⟩, ⟨.data 1, 999⟩], 998⟩

theorem countsUp_follows : countsUp.compile 1000 = .ok countsUpCompiled ∧
    Follows countsUp 1000 countsUpCompiled [] := by
  have hcompile : countsUp.compile 1000 = .ok countsUpCompiled := rfl
  have hlength : countsUpCompiled.code.length = 11 := rfl
  have hcontract : countsUp.KeepsContract countsUpCompiled := by
    intro start stop hstop
    have hpairs : LoopPairs.ofStatements? countsUp.statements = .ok [(2, 5)] := rfl
    rw [endOf?, hpairs] at hstop
    cases List.mem_singleton.mp (LoopPairs.mem_of_endOf? hstop)
    rfl
  have hapart : countsUpCompiled.KeepsApart 1000 := by
    refine ⟨fun a ha => Or.inr ?_, fun a ha _ => ?_⟩
    · have hlow : (998 : Int) < a := ha.1
      omega
    · rcases SymbolTable.isReserved_iff.mp ha with rfl | rfl
      · decide
      · decide
  exact ⟨hcompile, compile_follows hcompile hcontract hapart (by rw [hlength]; decide) []⟩

end Program

end AccumulatorMachine
