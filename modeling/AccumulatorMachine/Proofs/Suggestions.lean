import AccumulatorMachine.Proofs.Lowering.Calls
import AccumulatorMachine.Proofs.Text.Distance

/-!
# Suggestions

The name that is suggested for one that is not bound.

A suggestion is the nearest variable, by the number of edits, if it is near enough. A variable is a
name that is bound, but not as a literal. Among variables at the same distance it is the one that
was bound first. This is meant of the name and not of what it is bound to now: a name keeps its
place in the table when it is bound again, also if it was that of a literal in the meantime or at
first. So the order is that of the history of the table, and it is the order in which candidates are
looked at.

The table at a name without an address is one after a sequence of calls, so suggestions in the
errors of the compiler are such names. Since they are variables there, statements before have bound
them, and the name itself is not among them.

## Main definitions

* `SymbolTable.BindsVariable`: A name that is bound, but not as a literal.
* `SymbolTable.IsNearest`: A variable near a name, and no other is nearer.
* `Program.ReportsUnbound`: What is known of a name that is reported as not bound.

## Theorems

* `SymbolTable.nearest_eq_some`, `SymbolTable.nearest_first`: The first candidate of least distance.
* `SymbolTable.candidates_in_order`: Candidates come in the order in which they were bound.
* `SymbolTable.suggest_eq_none_iff`, `SymbolTable.suggest_eq_some_iff`: What is suggested.
* `Program.reportsUnbound_of_error`: What is known of a name in the error of the compiler.
* `Program.suggests_nearest`: Suggestions are the nearest names.
* `Program.printsMisspelt_suggests`: A name with a letter too few.
-/

namespace AccumulatorMachine

namespace SymbolTable

/-- A name is bound, and not as a literal. -/
def BindsVariable (table : SymbolTable) (name : String) : Prop :=
  ∃ info, table.get? name = some info ∧ info.kind ≠ .literal

/-- Two edits at most lead from a name to a variable, no fewer lead to another variable, and if as
    many do, that one was bound later. -/
structure IsNearest (base : Int) (calls : List Call) (name other : String) (n : Nat) : Prop where
  isVariable : (after base calls).BindsVariable other
  edits : Text.EditsTo n name.toList other.toList
  close : n ≤ 2
  least : ∀ m, Text.EditsTo m name.toList other.toList → n ≤ m
  first : ∀ third, (after base calls).BindsVariable third → third ≠ other →
    ∀ m, Text.EditsTo m name.toList third.toList →
      n < m ∨ n = m ∧ BoundBefore base calls other third

/-! ## The nearest candidate -/

theorem nearest_eq_none_iff {candidates : List (Nat × String)} :
    nearest candidates = none ↔ candidates = [] := by
  cases candidates with
  | nil => simp [nearest]
  | cons candidate rest =>
    rw [nearest]
    cases nearest rest with
    | none => simp
    | some other =>
      simp only
      split <;> simp

/-- The candidate that is found has less distance than all in front of it, and no more than any
    behind it. -/
theorem nearest_eq_some {candidates : List (Nat × String)} {candidate : Nat × String}
    (h : nearest candidates = some candidate) : ∃ front back,
      candidates = front ++ candidate :: back ∧ (∀ other ∈ front, candidate.1 < other.1) ∧
        ∀ other ∈ back, candidate.1 ≤ other.1 := by
  induction candidates generalizing candidate with
  | nil => cases h
  | cons first rest ih =>
    rw [nearest] at h
    cases hrest : nearest rest with
    | none =>
      rw [hrest] at h
      cases h
      rw [nearest_eq_none_iff.mp hrest]
      exact ⟨[], [], rfl, by simp, by simp⟩
    | some other =>
      simp only [hrest] at h
      rcases ih hrest with ⟨front, back, rfl, hfront, hback⟩
      by_cases hless : other.1 < first.1
      · rw [if_pos hless] at h
        cases h
        exact ⟨first :: front, back, rfl, List.forall_mem_cons.mpr ⟨hless, hfront⟩, hback⟩
      · rw [if_neg hless] at h
        cases h
        refine ⟨[], front ++ other :: back, rfl, by simp, ?_⟩
        -- The first candidate is as near as the one found behind it, so it is as near as any.
        rintro third hthird
        rcases List.mem_append.mp hthird with hmem | hmem
        · have hlt := hfront third hmem
          omega
        · rcases List.mem_cons.mp hmem with rfl | hmem
          · omega
          · have hle := hback third hmem
            omega

/-- Of candidates in some order, any other one is farther away, or as far and behind. -/
theorem nearest_first {candidates : List (Nat × String)} {candidate other : Nat × String}
    {R : Nat × String → Nat × String → Prop} (h : nearest candidates = some candidate)
    (horder : candidates.Pairwise R) (hother : other ∈ candidates) (hne : other ≠ candidate) :
    candidate.1 < other.1 ∨ candidate.1 ≤ other.1 ∧ R candidate other := by
  rcases nearest_eq_some h with ⟨front, back, rfl, hfront, hback⟩
  rcases List.mem_append.mp hother with hmem | hmem
  · exact Or.inl (hfront other hmem)
  · have hbehind : other ∈ back := (List.mem_cons.mp hmem).resolve_left hne
    have hcandidate := (List.pairwise_append.mp horder).2.1
    exact Or.inr ⟨hback other hbehind, (List.pairwise_cons.mp hcandidate).1 other hbehind⟩

/-! ## The candidates of a table -/

section Candidates

variable {base : Int} {calls : List Call} {name other : String}

theorem mem_candidates (calls : List Call) {d : Nat} :
    (d, other) ∈ (after base calls).candidates name ↔
      d = Text.editDistance name.toList other.toList ∧ d ≤ 2 ∧
        (after base calls).BindsVariable other := by
  have hlookup : ∀ info, (other, info) ∈ (after base calls).bindings ↔
      (after base calls).bindings.lookup other = some info :=
    fun info => mem_iff_lookup (nodup_names base calls)
  simp only [candidates, suggestionDistance, List.mem_filter, List.mem_map, Prod.mk.injEq,
    decide_eq_true_eq, Prod.exists, BindsVariable, get?, ← hlookup]
  constructor
  · rintro ⟨⟨key, info, ⟨hmem, hkind⟩, rfl, rfl⟩, hclose⟩
    exact ⟨rfl, of_decide_eq_true hclose, info, hmem, hkind⟩
  · rintro ⟨rfl, hclose, info, hmem, hkind⟩
    exact ⟨⟨other, info, ⟨hmem, hkind⟩, rfl, rfl⟩, decide_eq_true hclose⟩

/-- Candidates come in the order in which they were first bound. -/
theorem candidates_in_order (base : Int) (calls : List Call) (name : String) :
    ((after base calls).candidates name).Pairwise
      fun first second => BoundBefore base calls first.2 second.2 := by
  have hbindings : (after base calls).bindings.Pairwise
      fun first second => BoundBefore base calls first.1 second.1 :=
    List.pairwise_map.mp (names_in_order base calls)
  rw [candidates]
  refine List.Pairwise.filter _ (List.pairwise_map.mpr ?_)
  exact hbindings.filter _

/-- Names stay bound, so one name is bound before the other. -/
theorem BoundBefore.asymm (h : BoundBefore base calls name other) :
    ¬ BoundBefore base calls other name := by
  rintro ⟨later, hlater, hother, hname⟩
  rcases h with ⟨earlier, hearlier, hfirst, hsecond⟩
  rcases List.prefix_or_prefix_of_prefix hearlier hlater with hprefix | hprefix
  · exact hname ((names_isPrefix base hprefix).subset hfirst)
  · exact hsecond ((names_isPrefix base hprefix).subset hother)

theorem IsNearest.unique {third : String} {n m : Nat} (h : IsNearest base calls name other n)
    (h' : IsNearest base calls name third m) : other = third := by
  by_contra hne
  have hbefore := h.first third h'.isVariable (fun heq => hne heq.symm) m h'.edits
  have hafter := h'.first other h.isVariable hne n h.edits
  rcases hbefore with hlt | ⟨rfl, hbefore⟩
  · rcases hafter with hgt | ⟨heq, -⟩ <;> omega
  · rcases hafter with hgt | ⟨-, hafter⟩
    · omega
    · exact hbefore.asymm hafter

/-- What is suggested is the nearest variable. -/
theorem isNearest_of_suggest (h : (after base calls).suggest name = some other) :
    ∃ n, IsNearest base calls name other n := by
  rcases Option.map_eq_some_iff.mp h with ⟨⟨d, key⟩, hnearest, rfl⟩
  have hmem : (d, key) ∈ (after base calls).candidates name := by
    rcases nearest_eq_some hnearest with ⟨front, back, hcandidates, -⟩
    rw [hcandidates]
    exact List.mem_append_right front List.mem_cons_self
  rcases (mem_candidates calls).mp hmem with ⟨rfl, hclose, hvariable⟩
  have hdistance := Text.isDistance_editDistance name.toList key.toList
  refine ⟨_, hvariable, hdistance.1, hclose, hdistance.2, fun third hthird hne m hm => ?_⟩
  have hleast := (Text.isDistance_editDistance name.toList third.toList).2 m hm
  by_cases hfar : 2 < Text.editDistance name.toList third.toList
  · exact Or.inl (by omega)
  · -- The other name is a candidate as well, so it is farther away or was bound later.
    have hother : (Text.editDistance name.toList third.toList, third)
        ∈ (after base calls).candidates name := (mem_candidates calls).mpr ⟨rfl, by omega, hthird⟩
    have horder := candidates_in_order base calls name
    rcases nearest_first hnearest horder hother fun heq => hne (congrArg Prod.snd heq) with
      hlt | ⟨hle, hbefore⟩
    · exact Or.inl (by omega)
    · by_cases heq : Text.editDistance name.toList key.toList = m
      · exact Or.inr ⟨heq, hbefore⟩
      · exact Or.inl (by omega)

theorem suggest_eq_none_iff : (after base calls).suggest name = none ↔
    ∀ other, (after base calls).BindsVariable other →
      ∀ n, Text.EditsTo n name.toList other.toList → 2 < n := by
  rw [suggest, Option.map_eq_none_iff, nearest_eq_none_iff, List.eq_nil_iff_forall_not_mem]
  constructor
  · intro hnone other hother n hn
    have hleast := (Text.isDistance_editDistance name.toList other.toList).2 n hn
    have hcandidate := hnone (Text.editDistance name.toList other.toList, other)
    rw [mem_candidates] at hcandidate
    by_contra hclose
    exact hcandidate ⟨rfl, by omega, hother⟩
  · rintro hfar ⟨d, other⟩ hmem
    rcases (mem_candidates calls).mp hmem with ⟨rfl, hclose, hvariable⟩
    have hedits := (Text.isDistance_editDistance name.toList other.toList).1
    have hlt := hfar other hvariable _ hedits
    omega

theorem suggest_eq_some_iff : (after base calls).suggest name = some other ↔
    ∃ n, IsNearest base calls name other n := by
  constructor
  · exact isNearest_of_suggest
  · rintro ⟨n, hnearest⟩
    cases hsuggest : (after base calls).suggest name with
    | none =>
      have hfar := suggest_eq_none_iff.mp hsuggest other hnearest.isVariable n hnearest.edits
      have hclose := hnearest.close
      omega
    | some third =>
      rcases isNearest_of_suggest hsuggest with ⟨m, hthird⟩
      rw [hthird.unique hnearest]

/-- What is suggested for a name that is not bound is another one, and the name of a call which
    declares no literal. -/
theorem exists_call_of_suggest (hname : name ∉ (after base calls).names)
    (h : (after base calls).suggest name = some other) : other ≠ name ∧
      (after base calls).BindsVariable other ∧
      ∃ call ∈ calls, call.name = other ∧ ¬ call.DeclaresLiteral := by
  rcases isNearest_of_suggest h with ⟨n, hnearest⟩
  rcases hnearest.isVariable with ⟨info, hget, hkind⟩
  refine ⟨?_, hnearest.isVariable, exists_call_of_variable hget hkind⟩
  rintro rfl
  rw [get?_eq_none_iff.mpr hname] at hget
  cases hget

end Candidates

end SymbolTable

namespace Program

open SymbolTable (Call)

/-- A name is reported as not bound at a place of a statement, after calls of the operations that
    bind names. -/
structure ReportsUnbound (program : Program) (dataBase : Int) (name : String)
    (suggestion : Option String) (k : Nat) (s : Statement) (place : Span) (calls : List Call) :
    Prop where
  statement : program.statements[k]? = some s
  /-- The calls lead to the table in which the statement looks the name up. -/
  uses : ∃ pairs blocks table, LoopPairs.ofStatements? program.statements = .ok pairs ∧
    (Lowering.statements pairs 0 [] (program.statements.take k)).run (.empty dataBase)
      = .ok (blocks, table) ∧
    Lowering.Uses s table name place (SymbolTable.after dataBase calls)
  notBound : name ∉ (SymbolTable.after dataBase calls).names
  suggested : suggestion = (SymbolTable.after dataBase calls).suggest name
  /-- A suggestion is another name. It is bound at this place, it is not a literal, and it is the
      name of a statement before. -/
  other : ∀ other, suggestion = some other → other ≠ name ∧
    (SymbolTable.after dataBase calls).BindsVariable other ∧
    ∃ earlier ∈ program.statements.take k, earlier.form.Binds other

variable {program : Program} {dataBase : Int} {name : String} {suggestion : Option String}
  {span : Option Span}

/-- A name is reported as not bound where a statement uses it, and what is suggested is bound
    there. -/
theorem reportsUnbound_of_error
    (h : program.compile dataBase = .error ⟨.unboundIdentifier name suggestion, span⟩) :
    ∃ k s place calls, span = some place ∧
      program.ReportsUnbound dataBase name suggestion k s place calls := by
  rcases compile_error h with
    hpairs | ⟨pairs, k, s, blocks, table, opened, hpairs, hs, hrun, hfails⟩ | ⟨_, _, herr⟩
  · -- Loops that are not paired are reported as such.
    rcases LoopPairs.ofStatements?_error hpairs with ⟨_, _, cause, -, herr, hcause⟩
    cases herr
    exact absurd rfl (hcause name suggestion)
  · rcases Lowering.statement_fails pairs k opened s table _ hfails with hname | hother
    · rcases hname with ⟨used, place, table', huses, hnone, herr⟩
      cases herr
      rcases huses.exists_calls hrun with ⟨calls, hcalls, rfl⟩
      have hbound : name ∉ (SymbolTable.after dataBase calls).names :=
        SymbolTable.get?_eq_none_iff.mp (Option.map_eq_none_iff.mp hnone)
      refine ⟨k, s, place, calls, rfl, hs, ⟨pairs, blocks, table, hpairs, hrun, huses⟩, hbound, rfl,
        fun other hother => ?_⟩
      rcases SymbolTable.exists_call_of_suggest hbound hother with
        ⟨hne, hvariable, call, hcall, rfl, hliteral⟩
      exact ⟨hne, hvariable, (hcalls call hcall).resolve_left hliteral⟩
    · rcases hother with ⟨cause, place, herr, -, hcause⟩
      cases herr
      exact absurd rfl (hcause name suggestion)
  · cases herr

/-- Suggestions are the nearest names. After any calls of the operations that bind names, what is
    suggested is the variable that the fewest edits lead to, of several the one bound first, and
    nothing if more than two edits lead to any of them. So the compiler suggests only names that are
    bound where it reports one that is not. -/
theorem suggests_nearest :
    (∀ (base : Int) (calls : List Call) (name : String),
      ((SymbolTable.after base calls).suggest name = none ↔
        ∀ other, (SymbolTable.after base calls).BindsVariable other →
          ∀ n, Text.EditsTo n name.toList other.toList → 2 < n) ∧
      ∀ other, (SymbolTable.after base calls).suggest name = some other ↔
        ∃ n, SymbolTable.IsNearest base calls name other n) ∧
    ∀ (program : Program) (dataBase : Int) (name : String) (suggestion : Option String)
      (span : Option Span),
      program.compile dataBase = .error ⟨.unboundIdentifier name suggestion, span⟩ →
        ∃ k s place calls, span = some place ∧
          program.ReportsUnbound dataBase name suggestion k s place calls :=
  ⟨fun _ _ _ => ⟨SymbolTable.suggest_eq_none_iff, fun _ => SymbolTable.suggest_eq_some_iff⟩,
    fun _ _ _ _ _ => reportsUnbound_of_error⟩

/-- A program with a misspelt name, and two that it may have been meant to be. -/
def printsMisspelt : Program where
  statements := [⟨.int "count" 0, ⟨0, 11⟩⟩, ⟨.int "cant" 1, ⟨13, 23⟩⟩,
    ⟨.outputInt "cont", ⟨25, 41⟩⟩]

/-- Of two names that one edit leads to, the first one is suggested. -/
theorem printsMisspelt_suggests :
    printsMisspelt.compile 100
        = .error ⟨.unboundIdentifier "cont" (some "count"), some ⟨25, 41⟩⟩ ∧
      ∃ k s place calls, some ⟨25, 41⟩ = some place ∧
        printsMisspelt.ReportsUnbound 100 "cont" (some "count") k s place calls := by
  have hcompile : printsMisspelt.compile 100
      = .error ⟨.unboundIdentifier "cont" (some "count"), some ⟨25, 41⟩⟩ := by rfl
  exact ⟨hcompile, suggests_nearest.2 _ _ _ _ _ hcompile⟩

end Program

end AccumulatorMachine
