import AccumulatorMachine.Proofs.Lowering.Nesting
import AccumulatorMachine.Proofs.Lowering.Refusal

/-!
# Pairing as Matching of Brackets

What the pairing of loops finds, and what it says if there is nothing to find.

A start and an end that belong together have been defined by what is between them. The pairing finds
exactly these, so it can be read as a function of the program that says for every start which end it
has. Whether it fails can be read off the program, too. An end may be stray, which means that
no start belongs to it, and a start may be left open. The first stray end is reported, and only
where there is none the last start that is left open.

Both come from the heights of prefixes. Where the count of open loops would get below zero there is
the first stray end, since everything in front of it is balanced but for itself. Where it ends above
zero, the last start from which it never comes down again is the one on top of the stack.

After a pairing the lowering has no reason to complain about loops. It checks the same things again,
with a stack of its own, and the two stacks run in step however far it gets.

## Main definitions

* `Program.Stray`, `Program.LeftOpen`: Ends and starts to which nothing belongs.
* `CompileError.AboutLoops`: The errors about loops.
* `Program.PairedBy`: What pairs say about a program.

## Theorems

* `Statement.loopDepth_append`, `Statement.loopDepth_add`: Depths are counted part by part.
* `LoopPairs.pairFrom_stray`, `LoopPairs.pairFrom_leftOpen`: The two ways in which pairing fails.
* `Statement.exists_closing`, `Statement.exists_opening`: Where an end and a start belong to.
* `Program.exists_stop_within`, `Program.exists_start_within`: The same, as places in a program.
* `Program.ofStatements?_of_stray`, `Program.ofStatements?_of_leftOpen`: What is reported.
* `Lowering.InStep.statements_fails`: A lowering in step with the pairing does not complain about
  loops.
* `Program.endOf?_iff_matched`, `Program.apart_or_within`, `Program.endLoop_counts`: What pairing
  finds.
* `Program.pairing_matches`: Pairing is matching of brackets.
-/

namespace AccumulatorMachine

namespace Statement

variable {ss front back : List Statement} {first last : Statement} {depth : Nat}

/-- The loops that are open behind one part are open in front of the next. -/
theorem loopDepth_append : loopDepth depth (front ++ back)
    = (loopDepth depth front).bind fun depth => loopDepth depth back := by
  induction front using loopInduction generalizing depth with
  | nil => rfl
  | loop s front left comparison right hform ih =>
    rw [List.cons_append, loopDepth_loop hform, loopDepth_loop hform, ih]
  | endLoop s front hform ih =>
    rw [List.cons_append]
    cases depth with
    | zero =>
      rw [loopDepth_endLoop_zero hform, loopDepth_endLoop_zero hform]
      rfl
    | succ depth => rw [loopDepth_endLoop hform, loopDepth_endLoop hform, ih]
  | plain s front hplain ih =>
    rw [List.cons_append, loopDepth_plain hplain, loopDepth_plain hplain, ih]

theorem loopDepth_append_of_some {middle : Nat} (h : loopDepth depth front = some middle) :
    loopDepth depth (front ++ back) = loopDepth middle back := by
  rw [loopDepth_append, h]
  rfl

/-- Loops that are open in front and stay open make no difference. -/
theorem loopDepth_add {final : Nat} (h : loopDepth depth ss = some final) (more : Nat) :
    loopDepth (depth + more) ss = some (final + more) := by
  induction ss using loopInduction generalizing depth with
  | nil =>
    cases h
    rfl
  | loop s rest left comparison right hform ih =>
    rw [loopDepth_loop hform] at h ⊢
    rw [Nat.add_right_comm]
    exact ih h
  | endLoop s rest hform ih =>
    cases depth with
    | zero =>
      rw [loopDepth_endLoop_zero hform] at h
      cases h
    | succ depth =>
      rw [loopDepth_endLoop hform] at h
      rw [Nat.add_right_comm, loopDepth_endLoop hform]
      exact ih h
  | plain s rest hplain ih =>
    rw [loopDepth_plain hplain] at h ⊢
    exact ih h

/-- Where a start is followed by a balanced body, its loop is open behind the body. -/
theorem loopDepth_body {left right : Operand} {comparison : Comparison}
    (hfirst : first.form = .loop left comparison right) {body : List Statement}
    (hbody : loopDepth 0 body = some 0) :
    loopDepth depth (first :: body) = some (depth + 1) := by
  have hadd := loopDepth_add hbody (depth + 1)
  rw [Nat.zero_add] at hadd
  rw [loopDepth_loop hfirst, hadd]

/-- Where a loop that is open does not stay open, there is an end behind a balanced part that closes
    it, or that closes the last of the loops that were opened in it. -/
theorem exists_end_of_not_open (h : ∀ above, loopDepth (depth + 1) ss ≠ some (above + 1)) :
    ∃ body last rest, ss = body ++ last :: rest ∧ loopDepth depth body = some 0 ∧
      last.form = .endLoop := by
  induction ss using loopInduction generalizing depth with
  | nil => exact absurd rfl (h depth)
  | loop s rest left comparison right hform ih =>
    rw [loopDepth_loop hform] at h
    rcases ih h with ⟨body, last, rest', rfl, hbody, hlast⟩
    exact ⟨s :: body, last, rest', rfl, (loopDepth_loop hform depth).trans hbody, hlast⟩
  | endLoop s rest hform ih =>
    cases depth with
    | zero => exact ⟨[], s, rest, rfl, rfl, hform⟩
    | succ depth =>
      rw [loopDepth_endLoop hform] at h
      rcases ih h with ⟨body, last, rest', rfl, hbody, hlast⟩
      exact ⟨s :: body, last, rest', rfl, (loopDepth_endLoop hform depth).trans hbody, hlast⟩
  | plain s rest hplain ih =>
    rw [loopDepth_plain hplain] at h
    rcases ih h with ⟨body, last, rest', rfl, hbody, hlast⟩
    exact ⟨s :: body, last, rest', rfl, (loopDepth_plain hplain depth).trans hbody, hlast⟩

/-- A start in balanced statements has an end among them. -/
theorem exists_closing {left right : Operand} {comparison : Comparison}
    (hfirst : first.form = .loop left comparison right)
    (h : loopDepth 0 (front ++ first :: back) = some 0) :
    ∃ body last rest, back = body ++ last :: rest ∧ loopDepth 0 body = some 0 ∧
      last.form = .endLoop := by
  refine exists_end_of_not_open fun above hopen => ?_
  cases hfront : loopDepth 0 front with
  | none =>
    rw [loopDepth_append, hfront] at h
    cases h
  | some depth =>
    -- A loop that stays open does so above those in front of it.
    have hstays : loopDepth (1 + depth) back = some (above + 1 + depth) := loopDepth_add hopen depth
    rw [loopDepth_append_of_some hfront, loopDepth_loop hfirst, Nat.add_comm, hstays] at h
    have hzero := Option.some.inj h
    omega

end Statement

namespace LoopPairs

variable {ss : List Statement}

/-- Pairing fails at the first end that closes nothing. In front of it all loops are closed. -/
theorem pairFrom_stray (index : Nat) (opened : List (Nat × Span))
    (h : Statement.loopDepth opened.length ss = none) :
    ∃ before last rest, ss = before ++ last :: rest ∧ last.form = .endLoop ∧
      Statement.loopDepth opened.length before = some 0 ∧
      pairFrom index opened ss = .error (.atSpan .unmatchedEndLoop last.span) := by
  -- The depth counts the loops that are open, so it gets stuck where pairing does.
  induction ss using Statement.loopInduction generalizing index opened with
  | nil => cases h
  | loop s rest left comparison right hform ih =>
    rw [Statement.loopDepth_loop hform] at h
    rcases ih (index + 1) ((index, s.span) :: opened) h with
      ⟨before, last, rest', rfl, hlast, hbefore, herror⟩
    refine ⟨s :: before, last, rest', rfl, hlast,
      (Statement.loopDepth_loop hform _).trans hbefore, ?_⟩
    rw [pairFrom_of_loop hform, herror]
  | endLoop s rest hform ih =>
    cases opened with
    | nil => exact ⟨[], s, rest, rfl, hform, rfl, pairFrom_of_endLoop_nil hform⟩
    | cons entry outer =>
      rw [List.length_cons, Statement.loopDepth_endLoop hform] at h
      rcases ih (index + 1) outer h with ⟨before, last, rest', rfl, hlast, hbefore, herror⟩
      refine ⟨s :: before, last, rest', rfl, hlast,
        (Statement.loopDepth_endLoop hform _).trans hbefore, ?_⟩
      rw [pairFrom_of_endLoop hform, herror]
      rfl
  | plain s rest hplain ih =>
    rw [Statement.loopDepth_plain hplain] at h
    rcases ih (index + 1) opened h with ⟨before, last, rest', rfl, hlast, hbefore, herror⟩
    refine ⟨s :: before, last, rest', rfl, hlast,
      (Statement.loopDepth_plain hplain _).trans hbefore, ?_⟩
    rw [pairFrom_of_plain hplain, herror]

/-- Pairing fails with the last start that is left open. It is that of a loop which was open before,
    if the loops inside it are all closed, or one of the statements with all loops closed behind
    it. -/
theorem pairFrom_leftOpen (index : Nat) (opened : List (Nat × Span)) {above : Nat}
    (h : Statement.loopDepth opened.length ss = some (above + 1)) :
    (∃ before first rest, ss = before ++ first :: rest ∧
      (∃ left comparison right, first.form = .loop left comparison right) ∧
      Statement.loopDepth 0 rest = some 0 ∧
      pairFrom index opened ss = .error (.atSpan .unclosedLoop first.span)) ∨
    ∃ inner entry outer, opened = inner ++ entry :: outer ∧
      Statement.loopDepth inner.length ss = some 0 ∧
      pairFrom index opened ss = .error (.atSpan .unclosedLoop entry.2) := by
  induction ss using Statement.loopInduction generalizing index opened with
  | nil =>
    cases opened with
    | nil => cases h
    | cons entry outer => exact Or.inr ⟨[], entry, outer, rfl, rfl, rfl⟩
  | loop s rest left comparison right hform ih =>
    rw [Statement.loopDepth_loop hform] at h
    rw [pairFrom_of_loop hform]
    rcases ih (index + 1) ((index, s.span) :: opened) h with
      ⟨before, first, rest', rfl, hfirst, hrest, herror⟩ |
      ⟨inner, entry, outer, hopened, hinner, herror⟩
    · exact Or.inl ⟨s :: before, first, rest', rfl, hfirst, hrest, herror⟩
    · -- The loop that starts here is the one that is left open, or it is closed later.
      cases inner with
      | nil =>
        cases hopened
        exact Or.inl ⟨[], s, rest, rfl, ⟨left, comparison, right, hform⟩, hinner, herror⟩
      | cons top inner =>
        cases hopened
        exact Or.inr ⟨inner, entry, outer, rfl, (Statement.loopDepth_loop hform _).trans hinner,
          herror⟩
  | endLoop s rest hform ih =>
    cases opened with
    | nil =>
      rw [List.length_nil, Statement.loopDepth_endLoop_zero hform] at h
      cases h
    | cons top opened =>
      rw [List.length_cons, Statement.loopDepth_endLoop hform] at h
      rw [pairFrom_of_endLoop hform]
      rcases ih (index + 1) opened h with
        ⟨before, first, rest', rfl, hfirst, hrest, herror⟩ |
        ⟨inner, entry, outer, rfl, hinner, herror⟩
      · refine Or.inl ⟨s :: before, first, rest', rfl, hfirst, hrest, ?_⟩
        rw [herror]
        rfl
      · refine Or.inr ⟨top :: inner, entry, outer, rfl,
          (Statement.loopDepth_endLoop hform _).trans hinner, ?_⟩
        rw [herror]
        rfl
  | plain s rest hplain ih =>
    rw [Statement.loopDepth_plain hplain] at h
    rw [pairFrom_of_plain hplain]
    rcases ih (index + 1) opened h with
      ⟨before, first, rest', rfl, hfirst, hrest, herror⟩ |
      ⟨inner, entry, outer, rfl, hinner, herror⟩
    · exact Or.inl ⟨s :: before, first, rest', rfl, hfirst, hrest, herror⟩
    · exact Or.inr ⟨inner, entry, outer, rfl,
        (Statement.loopDepth_plain hplain _).trans hinner, herror⟩

end LoopPairs

/-- An end that is not left out has a start in front of it, with a balanced part in between. -/
theorem Statement.exists_opening {front back : List Statement} {last : Statement} {final : Nat}
    (hlast : last.form = .endLoop) (h : loopDepth 0 (front ++ last :: back) = some final) :
    ∃ before first body, front = before ++ first :: body ∧
      (∃ left comparison right, first.form = .loop left comparison right) ∧
      loopDepth 0 body = some 0 := by
  cases hfront : loopDepth 0 front with
  | none =>
    rw [loopDepth_append, hfront] at h
    cases h
  | some depth =>
    rw [loopDepth_append_of_some hfront] at h
    cases depth with
    | zero =>
      rw [loopDepth_endLoop_zero hlast] at h
      cases h
    | succ above =>
      -- A loop is open in front of the end, and the last of them is the one that it closes.
      rcases LoopPairs.pairFrom_leftOpen 0 [] hfront with
        ⟨before, first, body, hcut, hfirst, hbody, -⟩ | ⟨inner, entry, outer, hnil, -⟩
      · exact ⟨before, first, body, hcut, hfirst, hbody⟩
      · cases inner <;> cases hnil

namespace Program

/-- An end to which no start belongs. -/
def Stray (program : Program) (k : Nat) : Prop :=
  (∃ s, program.statements[k]? = some s ∧ s.form = .endLoop) ∧ ∀ start, ¬ program.Matched start k

/-- A start to which no end belongs. -/
def LeftOpen (program : Program) (k : Nat) : Prop :=
  (∃ s, program.statements[k]? = some s ∧
    ∃ left comparison right, s.form = .loop left comparison right) ∧
  ∀ stop, ¬ program.Matched k stop

section Matching

variable {program : Program} {front part back : List Statement} {k : Nat} {s : Statement}

/-- A start in a balanced part of a program belongs to an end in that part. -/
theorem exists_stop_within (h : program.statements = front ++ (part ++ back))
    (hbalanced : Statement.loopDepth 0 part = some 0) (hs : part[k]? = some s)
    (hform : ∃ left comparison right, s.form = .loop left comparison right) :
    ∃ stop, program.Matched (front.length + k) stop ∧ stop < front.length + part.length := by
  rcases hform with ⟨left, comparison, right, hform⟩
  rcases LoopPairs.exists_split hs with ⟨before, after, rfl, rfl⟩
  rcases Statement.exists_closing hform hbalanced with ⟨body, last, rest, rfl, hbody, hlast⟩
  have hcut : program.statements = (front ++ before) ++ s :: (body ++ last :: (rest ++ back)) := by
    rw [h]
    simp
  have hmatched := Matched.of_split hcut hform hbody hlast
  rw [List.length_append] at hmatched
  refine ⟨_, hmatched, ?_⟩
  simp only [List.length_append, List.length_cons]
  omega

/-- An end in a part from the start of a program belongs to a start, unless the part has an end too
    many. -/
theorem exists_start_within {final : Nat} (h : program.statements = part ++ back)
    (hpart : Statement.loopDepth 0 part = some final) (hs : part[k]? = some s)
    (hform : s.form = .endLoop) : ∃ start, program.Matched start k := by
  rcases LoopPairs.exists_split hs with ⟨before, after, rfl, rfl⟩
  rcases Statement.exists_opening hform hpart with
    ⟨before, first, body, rfl, ⟨left, comparison, right, hfirst⟩, hbody⟩
  have hcut : program.statements = before ++ first :: (body ++ s :: (after ++ back)) := by
    rw [h]
    simp
  have hmatched := Matched.of_split hcut hfirst hbody hform
  refine ⟨before.length, ?_⟩
  rw [List.length_append, List.length_cons, Nat.add_comm body.length 1, ← Nat.add_assoc]
  exact hmatched

/-- An end in front of which all loops are closed is stray. -/
theorem stray_of_closed {before rest : List Statement} {last : Statement}
    (h : program.statements = before ++ last :: rest) (hlast : last.form = .endLoop)
    (hbefore : Statement.loopDepth 0 before = some 0) : program.Stray before.length := by
  refine ⟨⟨last, h ▸ LoopPairs.getElem?_split _ _ _, hlast⟩, fun start hmatched => ?_⟩
  rcases hmatched.split with
    ⟨outer, first, body, other, rest', hcut, hstart, hstop, ⟨left, comparison, right, hfirst⟩,
      hbody, -⟩
  -- The loop of the start would be open in front of the end.
  have hsame : outer ++ first :: body = before := by
    rw [h, ← List.cons_append, ← List.append_assoc] at hcut
    refine (List.append_inj hcut ?_).1.symm
    rw [List.length_append, List.length_cons]
    omega
  rw [← hsame, Statement.loopDepth_append] at hbefore
  cases houter : Statement.loopDepth 0 outer with
  | none =>
    rw [houter] at hbefore
    cases hbefore
  | some depth =>
    rw [houter] at hbefore
    have hopen : Statement.loopDepth depth (first :: body) = some 0 := hbefore
    rw [Statement.loopDepth_body hfirst hbody] at hopen
    cases hopen

/-- A start behind which all loops are closed is left open. -/
theorem leftOpen_of_closed {before rest : List Statement} {first : Statement}
    (h : program.statements = before ++ first :: rest)
    (hfirst : ∃ left comparison right, first.form = .loop left comparison right)
    (hrest : Statement.loopDepth 0 rest = some 0) : program.LeftOpen before.length := by
  refine ⟨⟨first, h ▸ LoopPairs.getElem?_split _ _ _, hfirst⟩, fun stop hmatched => ?_⟩
  rcases hmatched.split with ⟨outer, other, body, last, rest', hcut, hstart, -, -, hbody, hlast⟩
  -- The end would be one too many among the statements behind.
  rw [h] at hcut
  have hsame : rest = body ++ last :: rest' :=
    (List.cons.inj (List.append_inj hcut hstart.symm).2).2
  rw [hsame, Statement.loopDepth_append_of_some hbody, Statement.loopDepth_endLoop_zero hlast]
    at hrest
  cases hrest

end Matching

section Failures

variable {program : Program}

/-- Without an end too many there is no stray end. -/
theorem not_stray {final : Nat} (h : Statement.loopDepth 0 program.statements = some final)
    (k : Nat) : ¬ program.Stray k := by
  rintro ⟨⟨s, hs, hform⟩, hnone⟩
  rcases exists_start_within (List.append_nil _).symm h hs hform with ⟨start, hmatched⟩
  exact hnone start hmatched

/-- In a balanced program no start is left open. -/
theorem Balanced.not_leftOpen (h : program.Balanced) (k : Nat) : ¬ program.LeftOpen k := by
  rintro ⟨⟨s, hs, hform⟩, hnone⟩
  have hwhole : program.statements = [] ++ (program.statements ++ []) := (List.append_nil _).symm
  rcases exists_stop_within hwhole h hs hform with ⟨stop, hmatched, -⟩
  rw [List.length_nil, Nat.zero_add] at hmatched
  exact hnone stop hmatched

/-- With an end too many there is a first stray end, which is reported. -/
theorem first_stray (h : Statement.loopDepth 0 program.statements = none) :
    ∃ k s, program.statements[k]? = some s ∧ program.Stray k ∧ (∀ j < k, ¬ program.Stray j) ∧
      LoopPairs.ofStatements? program.statements
        = .error (.atSpan .unmatchedEndLoop s.span) := by
  rcases LoopPairs.pairFrom_stray 0 [] h with
    ⟨before, last, rest, hcut, hlast, hbefore, herror⟩
  refine ⟨before.length, last, hcut ▸ LoopPairs.getElem?_split _ _ _,
    stray_of_closed hcut hlast hbefore, fun j hj hstray => ?_, herror⟩
  rcases hstray with ⟨⟨s, hs, hform⟩, hnone⟩
  rw [hcut, List.getElem?_append_left hj] at hs
  rcases exists_start_within hcut hbefore hs hform with ⟨start, hmatched⟩
  exact hnone start hmatched

/-- With a loop that stays open there is a last start that is left open, which is reported. -/
theorem last_leftOpen {above : Nat}
    (h : Statement.loopDepth 0 program.statements = some (above + 1)) :
    ∃ k s, program.statements[k]? = some s ∧ program.LeftOpen k ∧
      (∀ j, k < j → ¬ program.LeftOpen j) ∧
      LoopPairs.ofStatements? program.statements = .error (.atSpan .unclosedLoop s.span) := by
  rcases LoopPairs.pairFrom_leftOpen 0 [] h with
    ⟨before, first, rest, hcut, hfirst, hrest, herror⟩ | ⟨inner, entry, outer, hnil, -⟩
  · refine ⟨before.length, first, hcut ▸ LoopPairs.getElem?_split _ _ _,
      leftOpen_of_closed hcut hfirst hrest, fun j hj hopen => ?_, herror⟩
    · rcases hopen with ⟨⟨s, hs, hform⟩, hnone⟩
      -- What comes later stands in the balanced part behind the start.
      obtain ⟨i, rfl⟩ : ∃ i, j = before.length + 1 + i := ⟨j - (before.length + 1), by omega⟩
      have hwhole : program.statements = (before ++ [first]) ++ (rest ++ []) := by
        rw [hcut]
        simp
      have hi : rest[i]? = some s := by
        have hplace : before.length + 1 + i - before.length = i + 1 := by omega
        rw [hcut, List.getElem?_append_right (by omega), hplace, List.getElem?_cons_succ] at hs
        exact hs
      rcases exists_stop_within hwhole hrest hi hform with ⟨stop, hmatched, -⟩
      rw [List.length_append, List.length_singleton] at hmatched
      exact hnone stop hmatched
  · cases inner <;> cases hnil

variable {k : Nat} {s : Statement}

/-- The first stray end is reported. -/
theorem ofStatements?_of_stray (hs : program.statements[k]? = some s) (hstray : program.Stray k)
    (hfirst : ∀ j < k, ¬ program.Stray j) :
    LoopPairs.ofStatements? program.statements = .error (.atSpan .unmatchedEndLoop s.span) := by
  cases hdepth : Statement.loopDepth 0 program.statements with
  | some final => exact absurd hstray (not_stray hdepth k)
  | none =>
    rcases first_stray hdepth with ⟨k', s', hs', hstray', hfirst', herror⟩
    rcases Nat.lt_trichotomy k k' with hlt | rfl | hgt
    · exact absurd hstray (hfirst' k hlt)
    · rw [hs] at hs'
      cases hs'
      exact herror
    · exact absurd hstray' (hfirst k' hgt)

/-- Where no end is stray, the last start that is left open is reported. -/
theorem ofStatements?_of_leftOpen (hs : program.statements[k]? = some s)
    (hstray : ∀ j, ¬ program.Stray j) (hopen : program.LeftOpen k)
    (hlast : ∀ j, k < j → ¬ program.LeftOpen j) :
    LoopPairs.ofStatements? program.statements = .error (.atSpan .unclosedLoop s.span) := by
  cases hdepth : Statement.loopDepth 0 program.statements with
  | none =>
    rcases first_stray hdepth with ⟨k', -, -, hstray', -⟩
    exact absurd hstray' (hstray k')
  | some final =>
    cases final with
    | zero => exact absurd hopen (Balanced.not_leftOpen hdepth k)
    | succ above =>
      rcases last_leftOpen hdepth with ⟨k', s', hs', hopen', hlast', herror⟩
      rcases Nat.lt_trichotomy k k' with hlt | rfl | hgt
      · exact absurd hopen' (hlast k' hlt)
      · rw [hs] at hs'
        cases hs'
        exact herror
      · exact absurd hopen (hlast' k hgt)

/-- A program is balanced if it has neither stray ends nor starts that are left open. -/
theorem balanced_iff_forall_not : program.Balanced ↔
    (∀ k, ¬ program.Stray k) ∧ ∀ k, ¬ program.LeftOpen k := by
  refine ⟨fun h => ⟨not_stray h, h.not_leftOpen⟩, fun ⟨hstray, hopen⟩ => ?_⟩
  cases hdepth : Statement.loopDepth 0 program.statements with
  | none =>
    rcases first_stray hdepth with ⟨k, -, -, hk, -⟩
    exact absurd hk (hstray k)
  | some final =>
    cases final with
    | zero => exact hdepth
    | succ above =>
      rcases last_leftOpen hdepth with ⟨k, -, -, hk, -⟩
      exact absurd hk (hopen k)

end Failures

end Program

/-! ## Lowering after a pairing -/

/-- An error that is about loops. -/
def CompileError.AboutLoops (e : CompileError) : Prop :=
  e.cause = .unclosedLoop ∨ e.cause = .unmatchedEndLoop

namespace Lowering

/-- What is wrong with a statement whatever loops there are is not about loops. -/
theorem Obstructed.not_aboutLoops {s : Statement} {table : SymbolTable} {e : CompileError}
    (h : Obstructed s table e) : ¬ e.AboutLoops := by
  rcases h with ⟨name, place, table', -, -, rfl⟩ | ⟨place, -, ⟨a, rfl⟩ | ⟨reason, rfl⟩⟩
  all_goals
    rintro (hcause | hcause)
    · cases hcause
    · cases hcause

section InStep

variable {pairs : LoopPairs} {index : Nat} {sizes : List Nat} {ss later : List Statement}
  {s : Statement}

/-- A statement does not complain about loops if the two stacks are in step in front of it. A start
    has a pair, and an end has a size on the stack. -/
theorem InStep.fails (h : InStep pairs index (s :: later) sizes) (table : SymbolTable) :
    FailsOnly (¬ ·.AboutLoops) ((statement pairs index sizes s).run table) := by
  intro err herr
  rcases h with ⟨opened, tail, hpairs, htail, hopened⟩
  rcases statement_obstructed pairs index sizes s table err herr with
    hother | ⟨hloop, hnone, -⟩ | ⟨hend, hempty, -⟩
  · exact hother.not_aboutLoops
  · rcases (LoopPairs.pairFrom_closes hpairs).2 0 s rfl hloop with ⟨stop, hmem⟩
    have hstop : pairs.endOf? index = some stop := htail _ hmem
    rw [hnone] at hstop
    cases hstop
  · rcases LoopPairs.pairFrom_cons_ok hpairs with
      ⟨⟨left, comparison, right, hloop⟩, -⟩ | ⟨-, start, span, outer, tail', rfl, -, -⟩ |
      ⟨hplain, -⟩
    · rw [hend] at hloop
      cases hloop
    · -- The loop on top of one stack has its size on top of the other.
      cases hempty
      cases hopened
    · rw [hend] at hplain
      exact hplain.elim

/-- However far a lowering gets in step with the pairing, it does not complain about loops. -/
theorem InStep.statements_fails (h : InStep pairs index (ss ++ later) sizes)
    (table : SymbolTable) :
    FailsOnly (¬ ·.AboutLoops) ((statements pairs index sizes ss).run table) := by
  induction ss generalizing index sizes table with
  | nil => exact .ok _
  | cons s rest ih =>
    refine FailsOnly.run_bind (h.fails table) fun result mid hresult => ?_
    obtain ⟨block, sizes'⟩ := result
    have hrest := ih (h.step (statement_ok hresult)).1 mid
    exact FailsOnly.run_bind hrest fun _ _ _ => .ok _

end InStep

end Lowering

namespace Program

/-- What pairs say about a program. They map each start to the end that belongs to it, the loops are
    apart or one in the other, and a lowering with these pairs, however far it gets and from
    whatever table, has no error about loops and makes each end jump back by the number of
    statements of its own loop and six more. -/
structure PairedBy (program : Program) (pairs : LoopPairs) : Prop where
  matched : ∀ start stop, pairs.endOf? start = some stop ↔ program.Matched start stop
  ends : ∀ start s left comparison right, program.statements[start]? = some s →
    s.form = .loop left comparison right → ∃! stop, program.Matched start stop
  apart : ∀ start stop start' stop', program.Matched start stop → program.Matched start' stop' →
    start < start' → stop < start' ∨ stop' < stop
  lowered : ∀ n (table : SymbolTable) err,
    (Lowering.statements pairs 0 [] (program.statements.take n)).run table = .error err →
      ¬ err.AboutLoops
  counts : ∀ n (table table' : SymbolTable) blocks, (Lowering.statements pairs 0 []
      (program.statements.take n)).run table = .ok (blocks, table') →
    ∀ k s block, program.statements[k]? = some s → s.form = .endLoop → blocks[k]? = some block →
      ∃ start, program.Matched start k ∧
        block.code = [⟨.jump, -((k - start + 1 : Nat) + 6 : Int)⟩]

section Paired

variable {program : Program} {pairs : LoopPairs} {start stop start' stop' : Nat}
  (h : LoopPairs.ofStatements? program.statements = .ok pairs)

include h

theorem stop_unique (hmatched : program.Matched start stop)
    (hmatched' : program.Matched start stop') : stop = stop' :=
  Option.some.inj ((LoopPairs.endOf?_of_matched h hmatched).symm.trans
    (LoopPairs.endOf?_of_matched h hmatched'))

theorem exists_stop {s : Statement} (hs : program.statements[start]? = some s)
    (hform : ∃ left comparison right, s.form = .loop left comparison right) :
    ∃ stop, program.Matched start stop := by
  by_contra hnone
  exact (balanced_iff.mpr ⟨pairs, h⟩).not_leftOpen start
    ⟨⟨s, hs, hform⟩, fun stop hmatched => hnone ⟨stop, hmatched⟩⟩

/-- The pairs map a start to the end that belongs to it, and nothing else to anything. -/
theorem endOf?_iff_matched : pairs.endOf? start = some stop ↔ program.Matched start stop := by
  refine ⟨fun hstop => ?_, LoopPairs.endOf?_of_matched h⟩
  rcases (LoopPairs.endOf?_ok h hstop).2.1 with ⟨s, hs, hform⟩
  rcases exists_stop h hs hform with ⟨other, hother⟩
  rw [LoopPairs.endOf?_of_matched h hother] at hstop
  cases hstop
  exact hother

/-- A loop that starts later than another one starts behind it, or it ends in it. -/
theorem apart_or_within (hfirst : program.Matched start stop)
    (hsecond : program.Matched start' stop') (hlt : start < start') :
    stop < start' ∨ stop' < stop := by
  by_cases hbehind : stop < start'
  · exact Or.inl hbehind
  · refine Or.inr ?_
    rcases hfirst.split with ⟨before, first, body, last, rest, hcut, rfl, rfl, -, hbody, hlast⟩
    rcases hsecond.first with ⟨s, hs, hform⟩
    have hfront : (before ++ [first]).length = before.length + 1 := by
      rw [List.length_append, List.length_singleton]
    obtain ⟨i, rfl⟩ : ∃ i, start' = (before ++ [first]).length + i :=
      ⟨start' - (before ++ [first]).length, by omega⟩
    have hwhole : program.statements = (before ++ [first]) ++ (body ++ last :: rest) := by
      rw [hcut, List.append_assoc, List.singleton_append]
    rw [hwhole, List.getElem?_append_right (Nat.le_add_right _ _), Nat.add_sub_cancel_left] at hs
    -- The second start does not stand at the first end, so it stands in the body of the first.
    have hinside : i < body.length := by
      by_contra hend
      obtain rfl : i = body.length := by omega
      rw [LoopPairs.getElem?_split] at hs
      cases hs
      rcases hform with ⟨left, comparison, right, hform⟩
      rw [hlast] at hform
      cases hform
    rw [List.getElem?_append_left hinside] at hs
    rcases exists_stop_within hwhole hbody hs hform with ⟨other, hother, hwithin⟩
    rw [stop_unique h hsecond hother, ← hfront]
    exact hwithin

/-- A lowering of the first statements is in step with the pairing of them all. -/
theorem inStep_take (n : Nat) : Lowering.InStep pairs 0
    (program.statements.take n ++ program.statements.drop n) [] := by
  rw [List.take_append_drop]
  exact .start h

/-- An end jumps by the number of statements of its own loop. -/
theorem endLoop_counts {n k : Nat} {table table' : SymbolTable} {blocks : List Block}
    {s : Statement} {block : Block}
    (hlowering : (Lowering.statements pairs 0 [] (program.statements.take n)).run table
      = .ok (blocks, table'))
    (hs : program.statements[k]? = some s) (hform : s.form = .endLoop)
    (hblock : blocks[k]? = some block) :
    ∃ start, program.Matched start k ∧
      block.code = [⟨.jump, -((k - start + 1 : Nat) + 6 : Int)⟩] := by
  have hk : k < n := by
    have hlt := (List.getElem?_eq_some_iff.mp hblock).1
    rw [Lowering.statements_length hlowering, List.length_take] at hlt
    omega
  have htaken : (program.statements.take n)[k]? = some s := by
    rw [List.getElem?_take_of_lt hk, hs]
  rcases Lowering.statements_endLoop (inStep_take h n) hlowering htaken hform with
    ⟨start, other, hstart, hother, hcode⟩
  rw [Nat.zero_add] at hstart hcode
  rw [hblock] at hother
  cases hother
  exact ⟨start, (endOf?_iff_matched h).mp hstart, hcode⟩

/-- What pairing finds. -/
theorem pairedBy_of_ok : program.PairedBy pairs where
  matched _ _ := endOf?_iff_matched h
  ends := by
    intro start s left comparison right hs hform
    rcases exists_stop h hs ⟨left, comparison, right, hform⟩ with ⟨stop, hstop⟩
    exact ⟨stop, hstop, fun other hother => stop_unique h hother hstop⟩
  apart _ _ _ _ := apart_or_within h
  lowered n table := (inStep_take h n).statements_fails table
  counts _ _ _ _ hlowering _ _ _ := endLoop_counts h hlowering

end Paired

/-- Pairing is matching of brackets. It finds pairs for a balanced program and for no other, and
    these say of every start which end belongs to it. Otherwise it reports the first stray end, and
    the last start that is left open if no end is stray. -/
theorem pairing_matches (program : Program) :
    ((∃ pairs, LoopPairs.ofStatements? program.statements = .ok pairs) ↔ program.Balanced) ∧
      (∀ pairs, LoopPairs.ofStatements? program.statements = .ok pairs → program.PairedBy pairs) ∧
      (∀ k s, program.statements[k]? = some s → program.Stray k → (∀ j < k, ¬ program.Stray j) →
        LoopPairs.ofStatements? program.statements = .error (.atSpan .unmatchedEndLoop s.span)) ∧
      (∀ k s, program.statements[k]? = some s → (∀ j, ¬ program.Stray j) → program.LeftOpen k →
        (∀ j, k < j → ¬ program.LeftOpen j) →
        LoopPairs.ofStatements? program.statements = .error (.atSpan .unclosedLoop s.span)) ∧
      (program.Balanced ↔ (∀ k, ¬ program.Stray k) ∧ ∀ k, ¬ program.LeftOpen k) :=
  ⟨balanced_iff.symm, fun _ => pairedBy_of_ok, fun _ _ => ofStatements?_of_stray,
    fun _ _ => ofStatements?_of_leftOpen, balanced_iff_forall_not⟩

/-- A program with a loop in a loop. -/
def nestsLoops : Program where
  statements := [⟨.loop (.name "a") .less (.name "b"), ⟨0, 11⟩⟩,
    ⟨.loop (.name "a") .less (.name "c"), ⟨13, 24⟩⟩, ⟨.endLoop, ⟨26, 34⟩⟩, ⟨.endLoop, ⟨36, 44⟩⟩]

/-- A table with the names that it compares. -/
def comparedNames : SymbolTable :=
  ⟨[("a", ⟨1000, .int⟩), ("b", ⟨999, .int⟩), ("c", ⟨998, .int⟩)], [], 997⟩

/-- The first end closes the loop that has started last. The one has two statements and the other
    four, which is how far the ends jump beyond the six instructions of every loop. -/
theorem nestsLoops_matches :
    LoopPairs.ofStatements? nestsLoops.statements = .ok [(1, 2), (0, 3)] ∧
      nestsLoops.PairedBy [(1, 2), (0, 3)] ∧
      ∃ blocks, (Lowering.statements [(1, 2), (0, 3)] 0 [] nestsLoops.statements).run comparedNames
          = .ok (blocks, comparedNames) ∧
        blocks.map Block.code = [
          [⟨.read, 1000⟩, ⟨.subtract, 999⟩, ⟨.skip .signed false, 997⟩, ⟨.jump, 8⟩],
          [⟨.read, 1000⟩, ⟨.subtract, 998⟩, ⟨.skip .signed false, 997⟩, ⟨.jump, 6⟩],
          [⟨.jump, -8⟩], [⟨.jump, -10⟩]] := by
  have hpairs : LoopPairs.ofStatements? nestsLoops.statements = .ok [(1, 2), (0, 3)] := rfl
  exact ⟨hpairs, (pairing_matches nestsLoops).2.1 _ hpairs, _, rfl, rfl⟩

end Program

end AccumulatorMachine
