import AccumulatorMachine.Proofs.Lowering.Loops

/-!
# Nested Loops

Which `while` and which `endWhile` belong together, read off the program alone.

Loops are brackets. How many of them are open at some place can be counted, and statements are
balanced if the count starts and ends at zero and does not get below it. A start and an end belong
together if what is between them is balanced. Nothing here says which loop is open. The pairing does
keep a stack of open loops, and it leaves balanced statements with the stack that it entered them
with. So the end that comes behind a balanced body closes the loop in front of it.

## Main definitions

* `Statement.loopDepth`: How many loops are open behind statements.
* `Program.Balanced`: Every loop is ended, and nothing else is.
* `Program.Matched`: A start and an end of a loop that belong together.

## Theorems

* `LoopPairs.pairFrom_ok_iff`: Pairing fails if loops are not balanced, and only then.
* `LoopPairs.pairFrom_append`: Pairing goes on behind any part of a program.
* `LoopPairs.pairFrom_balanced`: Statements that end the loops they start leave the others open.
* `Program.Matched.split`, `Program.Matched.of_split`: What belongs together, as parts of a program.
* `LoopPairs.mem_of_balanced`: An end behind a balanced body belongs to the start in front of it.
* `LoopPairs.endOf?_of_matched`: Pairing finds what belongs together.
* `Program.balanced_iff`: Loops can be paired if they are balanced.
-/

namespace AccumulatorMachine

namespace Statement

/-- How many loops are open behind statements, if `depth` are open in front of them. There is no
    number if one of them ends a loop that was not started. -/
def loopDepth : (depth : Nat) → List Statement → Option Nat
  | depth, [] => some depth
  | depth, s :: rest =>
    match s.form, depth with
    | .loop .., depth => loopDepth (depth + 1) rest
    | .endLoop, 0 => none
    | .endLoop, depth + 1 => loopDepth depth rest
    | _, depth => loopDepth depth rest

variable {s : Statement} {rest : List Statement} {left right : Operand} {comparison : Comparison}

theorem loopDepth_loop (h : s.form = .loop left comparison right) (depth : Nat) :
    loopDepth depth (s :: rest) = loopDepth (depth + 1) rest := by
  simp only [loopDepth, h]

theorem loopDepth_plain (h : s.form.Plain) (depth : Nat) :
    loopDepth depth (s :: rest) = loopDepth depth rest := by
  cases hform : s.form with
  | loop | endLoop =>
    rw [hform] at h
    exact h.elim
  | int | string | new | inputInt | outputInt | inputStr | outputStr =>
    simp only [loopDepth, hform]

theorem loopDepth_endLoop (h : s.form = .endLoop) (depth : Nat) :
    loopDepth (depth + 1) (s :: rest) = loopDepth depth rest := by
  simp only [loopDepth, h]

theorem loopDepth_endLoop_zero (h : s.form = .endLoop) : loopDepth 0 (s :: rest) = none := by
  simp only [loopDepth, h]

end Statement

/-- Every loop is ended, and no other end stands anywhere. -/
def Program.Balanced (program : Program) : Prop :=
  Statement.loopDepth 0 program.statements = some 0

/-- The start of a loop at one place and the end at another belong together: what is between them is
    balanced. -/
structure Program.Matched (program : Program) (start stop : Nat) : Prop where
  lt : start < stop
  first : ∃ s, program.statements[start]? = some s ∧
    ∃ left comparison right, s.form = .loop left comparison right
  last : ∃ s, program.statements[stop]? = some s ∧ s.form = .endLoop
  body : Statement.loopDepth 0 ((program.statements.take stop).drop (start + 1)) = some 0

namespace LoopPairs

variable {index : Nat} {opened : List (Nat × Span)} {pairs : LoopPairs}
  {first last : Statement} {before body rest : List Statement} {left right : Operand}
  {comparison : Comparison}

/-- Pairing fails if loops are not balanced, and only then. -/
theorem pairFrom_ok_iff {ss : List Statement} :
    (∃ pairs, pairFrom index opened ss = .ok pairs) ↔
      Statement.loopDepth opened.length ss = some 0 := by
  induction ss using Statement.loopInduction generalizing index opened with
  | nil =>
    cases opened with
    | nil => simp [pairFrom, Statement.loopDepth]
    | cons first outer => simp [pairFrom, Statement.loopDepth]
  | loop s rest left comparison right hform ih =>
    rw [pairFrom_of_loop hform, Statement.loopDepth_loop hform]
    exact ih
  | endLoop s rest hform ih =>
    cases opened with
    | nil => simp [pairFrom_of_endLoop_nil hform, Statement.loopDepth_endLoop_zero hform]
    | cons first outer =>
      rw [pairFrom_of_endLoop hform, List.length_cons, Statement.loopDepth_endLoop hform, ← ih]
      constructor
      · rintro ⟨pairs, h⟩
        rcases Outcome.map_ok h with ⟨tail, htail, -⟩
        exact ⟨tail, htail⟩
      · rintro ⟨tail, htail⟩
        exact ⟨(first.1, index) :: tail, by rw [htail]; rfl⟩
  | plain s rest hplain ih =>
    rw [pairFrom_of_plain hplain, Statement.loopDepth_plain hplain]
    exact ih

/-- Pairing goes on behind any part of a program. -/
theorem pairFrom_append (h : pairFrom index opened (before ++ rest) = .ok pairs) :
    ∃ inner outer tail, pairs = inner ++ tail ∧
      pairFrom (index + before.length) outer rest = .ok tail := by
  induction before generalizing index opened pairs with
  | nil => exact ⟨[], opened, pairs, rfl, h⟩
  | cons s before ih =>
    rw [List.length_cons, Nat.add_comm before.length 1, ← Nat.add_assoc]
    rcases pairFrom_cons_ok h with
      ⟨-, hrest⟩ | ⟨-, start, span, outer, tail, -, rfl, hrest⟩ | ⟨-, hrest⟩
    · exact ih hrest
    · rcases ih hrest with ⟨inner, outer, tail, rfl, htail⟩
      exact ⟨(start, index) :: inner, outer, tail, rfl, htail⟩
    · exact ih hrest

/-- Statements that end the loops they start, and some that are open already, leave the others
    open. -/
theorem pairFrom_balanced {inner : List (Nat × Span)}
    (hbody : Statement.loopDepth inner.length body = some 0)
    (h : pairFrom index (inner ++ opened) (body ++ rest) = .ok pairs) :
    ∃ found tail, pairs = found ++ tail ∧
      pairFrom (index + body.length) opened rest = .ok tail := by
  induction body generalizing index inner pairs with
  | nil =>
    cases List.eq_nil_of_length_eq_zero (Option.some.inj hbody)
    exact ⟨[], pairs, rfl, h⟩
  | cons s body ih =>
    rw [List.length_cons, Nat.add_comm body.length 1, ← Nat.add_assoc]
    rcases pairFrom_cons_ok h with
      ⟨⟨_, _, _, hform⟩, hrest⟩ | ⟨hform, start, span, outer, tail, hopened, rfl, hrest⟩ |
      ⟨hform, hrest⟩
    · rw [Statement.loopDepth_loop hform] at hbody
      have hopen : Statement.loopDepth ((index, s.span) :: inner).length body = some 0 := hbody
      exact ih hopen hrest
    · -- An end ends one of the loops that are counted.
      cases inner with
      | nil =>
        rw [List.length_nil, Statement.loopDepth_endLoop_zero hform] at hbody
        cases hbody
      | cons top inner =>
        cases hopened
        rw [List.length_cons, Statement.loopDepth_endLoop hform] at hbody
        rcases ih hbody hrest with ⟨found, tail, rfl, htail⟩
        exact ⟨(start, index) :: found, tail, rfl, htail⟩
    · rw [Statement.loopDepth_plain hform] at hbody
      exact ih hbody hrest

/-- An end behind a balanced body belongs to the start in front of it. -/
theorem mem_of_balanced (hfirst : first.form = .loop left comparison right)
    (hbody : Statement.loopDepth 0 body = some 0) (hlast : last.form = .endLoop)
    (h : pairFrom index opened (before ++ first :: (body ++ last :: rest)) = .ok pairs) :
    (index + before.length, index + before.length + 1 + body.length) ∈ pairs := by
  rcases pairFrom_append h with ⟨inner, outer, mid, rfl, hmid⟩
  have hopen : Statement.loopDepth ([] : List (Nat × Span)).length body = some 0 := hbody
  rw [pairFrom_of_loop hfirst] at hmid
  rcases pairFrom_balanced hopen hmid with ⟨inner', mid, rfl, hend⟩
  rw [pairFrom_of_endLoop hlast] at hend
  rcases Outcome.map_ok hend with ⟨tail, -, rfl⟩
  exact List.mem_append_right _ (List.mem_append_right _ List.mem_cons_self)

end LoopPairs

/-- A list is what is in front of one of its elements, the element, and what is behind it. -/
theorem LoopPairs.eq_take_append_cons {α : Type} {list : List α} {k : Nat} {x : α}
    (h : list[k]? = some x) : list = list.take k ++ x :: list.drop (k + 1) := by
  rcases List.getElem?_eq_some_iff.mp h with ⟨hlt, rfl⟩
  rw [← List.drop_eq_getElem_cons hlt, List.take_append_drop]

theorem LoopPairs.exists_split {α : Type} {list : List α} {k : Nat} {x : α}
    (h : list[k]? = some x) : ∃ before after, list = before ++ x :: after ∧ before.length = k :=
  ⟨list.take k, list.drop (k + 1), eq_take_append_cons h,
    List.length_take_of_le (Nat.le_of_lt (List.getElem?_eq_some_iff.mp h).1)⟩

theorem LoopPairs.getElem?_split {α : Type} (before after : List α) (x : α) :
    (before ++ x :: after)[before.length]? = some x := by
  rw [List.getElem?_append_right (Nat.le_refl _), Nat.sub_self]
  rfl

/-- Where a start and an end belong together, the program is what is in front of the start, the
    balanced body between them, and what is behind the end. -/
theorem Program.Matched.split {program : Program} {start stop : Nat}
    (h : program.Matched start stop) :
    ∃ before first body last rest,
      program.statements = before ++ first :: (body ++ last :: rest) ∧ before.length = start ∧
      start + 1 + body.length = stop ∧
      (∃ left comparison right, first.form = .loop left comparison right) ∧
      Statement.loopDepth 0 body = some 0 ∧ last.form = .endLoop := by
  rcases h.first with ⟨first, hfirst, hloop⟩
  rcases h.last with ⟨last, hlast, hend⟩
  have hlt := h.lt
  have hstop : stop < program.statements.length := (List.getElem?_eq_some_iff.mp hlast).1
  -- The program is cut at the end, and what is in front of that at the start.
  have hfront : (program.statements.take stop)[start]? = some first := by
    rw [List.getElem?_take_of_lt hlt, hfirst]
  have hcut := LoopPairs.eq_take_append_cons hlast
  rw [LoopPairs.eq_take_append_cons hfront, List.append_assoc, List.cons_append] at hcut
  refine ⟨_, first, _, last, _, hcut, ?_, ?_, hloop, h.body, hend⟩
  · rw [List.length_take, List.length_take]
    omega
  · rw [List.length_drop, List.length_take]
    omega

/-- A start and an end with a balanced body between them belong together. -/
theorem Program.Matched.of_split {program : Program} {before body rest : List Statement}
    {first last : Statement} {left right : Operand} {comparison : Comparison}
    (h : program.statements = before ++ first :: (body ++ last :: rest))
    (hfirst : first.form = .loop left comparison right)
    (hbody : Statement.loopDepth 0 body = some 0) (hlast : last.form = .endLoop) :
    program.Matched before.length (before.length + 1 + body.length) where
  lt := by omega
  first := ⟨first, h ▸ LoopPairs.getElem?_split _ _ _, left, comparison, right, hfirst⟩
  last := by
    refine ⟨last, ?_, hlast⟩
    -- The end stands behind the start and the whole body.
    have hcut : program.statements = (before ++ first :: body) ++ last :: rest := by
      rw [h, List.append_assoc, List.cons_append]
    have hlength : before.length + 1 + body.length = (before ++ first :: body).length := by
      rw [List.length_append, List.length_cons]
      omega
    rw [hcut, hlength]
    exact LoopPairs.getElem?_split _ _ _
  body := by
    have hcut : program.statements = ((before ++ [first]) ++ body) ++ last :: rest := by
      rw [h]
      simp
    have hlength : before.length + 1 = (before ++ [first]).length := by
      rw [List.length_append, List.length_singleton]
    rw [hcut, hlength, ← List.length_append, List.take_left, List.drop_left]
    exact hbody

/-- Pairing finds what belongs together. -/
theorem LoopPairs.endOf?_of_matched {pairs : LoopPairs} {program : Program} {start stop : Nat}
    (hpairs : ofStatements? program.statements = .ok pairs) (h : program.Matched start stop) :
    pairs.endOf? start = some stop := by
  rcases h.split with
    ⟨before, first, body, last, rest, hcut, hstart, hstop, ⟨left, comparison, right, hloop⟩, hbody,
      hend⟩
  have hwhole := hpairs
  rw [ofStatements?, hcut] at hwhole
  have hmem := mem_of_balanced hloop hbody hend hwhole
  rw [Nat.zero_add, hstart, hstop] at hmem
  exact (endOf?_eq_some_iff hpairs).mpr hmem

/-- Loops can be paired if they are balanced, and only then. -/
theorem Program.balanced_iff {program : Program} : program.Balanced ↔
    ∃ pairs, LoopPairs.ofStatements? program.statements = .ok pairs :=
  (@LoopPairs.pairFrom_ok_iff 0 [] program.statements).symm

end AccumulatorMachine
