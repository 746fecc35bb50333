import AccumulatorMachine.Proofs.Compilation
import AccumulatorMachine.Proofs.Countdown

/-!
# Lowering with Words

A program that is compiled with addresses that are words.

Lowering passes addresses on and never looks at them, so it does the same for words and for integers
until the allocator runs out of words. A compilation can tell when that has happened: its cursor
ends above the data base. If it does not, the result is the one that counting with integers gives,
and the other way round a result whose addresses are words is the one that the program gives. All
that is proved of compiled programs is then true of what the program writes.

A computation that fails leaves no cursor to look at, so nothing is said about errors.

## Main definitions

* `Lowering.Tracks`: Computations that do the same until the words run out.
* `Compiled.recount`: A compiled program whose table is counted on in another way.

## Theorems

* `Lowering.Tracks.bind`: Computations one after another.
* `Lowering.tracks_expression`, `Lowering.tracks_form`, `Lowering.tracks_statement`,
  `Lowering.tracks_statements`: All of lowering does the same in the two ways.
* `Program.compile_wrapping_iff`: When compiling with words and with integers is the same.
-/

namespace AccumulatorMachine

namespace Lowering

/-- Two computations that do the same until the words run out, as long as they succeed. -/
structure Tracks {α : Type} (x : Lowering α) (y : LoweringBy .wrapping α) : Prop where
  moves : ∀ {table table' a}, y.run table = .ok (a, table') → Moves table.cursor table'.cursor
  descends : ∀ {table table' a}, x.run table = .ok (a, table') → table'.cursor ≤ table.cursor
  of_le : ∀ {table : SymbolTable} {table' a},
    y.run (table.recount .wrapping) = .ok (a, table') → table'.cursor ≤ table.cursor →
      x.run table = .ok (a, table'.recount .unbounded)
  of_word : ∀ {table table' a}, x.run table = .ok (a, table') → Word.minimum ≤ table'.cursor →
    y.run (table.recount .wrapping) = .ok (a, table'.recount .wrapping)

namespace Tracks

variable {α β : Type} {x : Lowering α} {y : LoweringBy .wrapping α}

theorem pure (a : α) : Tracks (Pure.pure a) (Pure.pure a) where
  moves h := by
    cases h
    exact .refl _
  descends h := by
    cases h
    exact Int.le_refl _
  of_le h _ := by
    cases h
    rfl
  of_word h _ := by
    cases h
    rfl

theorem throw (e : CompileError) : Tracks (MonadExcept.throw e : Lowering α)
    (MonadExcept.throw e : LoweringBy .wrapping α) where
  moves h := by cases h
  descends h := by cases h
  of_le h := by cases h
  of_word h := by cases h

theorem lift (r : Except CompileError α) :
    Tracks (liftM r : Lowering α) (liftM r : LoweringBy .wrapping α) := by
  cases r with
  | error e => exact .throw e
  | ok a => exact .pure a

theorem bind {k : α → Lowering β} {k' : α → LoweringBy .wrapping β} (h : Tracks x y)
    (hk : ∀ a, Tracks (k a) (k' a)) : Tracks (x >>= k) (y >>= k') where
  moves hrun := by
    rcases Outcome.run_bind_ok hrun with ⟨a, mid, hfirst, hrest⟩
    exact (h.moves hfirst).trans ((hk a).moves hrest)
  descends hrun := by
    rcases Outcome.run_bind_ok hrun with ⟨a, mid, hfirst, hrest⟩
    exact Int.le_trans ((hk a).descends hrest) (h.descends hfirst)
  of_le hrun hle := by
    rcases Outcome.run_bind_ok hrun with ⟨a, mid, hfirst, hrest⟩
    have hsplit := (h.moves hfirst).split ((hk a).moves hrest) hle
    rw [Outcome.run_bind_of_ok k (h.of_le hfirst hsplit.1.le)]
    exact (hk a).of_le hrest hsplit.2.le
  of_word hrun hword := by
    rcases Outcome.run_bind_ok hrun with ⟨a, mid, hfirst, hrest⟩
    have hmid := Int.le_trans hword ((hk a).descends hrest)
    rw [Outcome.run_bind_of_ok k' (h.of_word hfirst hmid)]
    exact (hk a).of_word hrest hword

/-- Looking at the table does not tell how it is counted. -/
theorem get_bind {k : SymbolTable → Lowering β}
    {k' : SymbolTable .wrapping → LoweringBy .wrapping β}
    (h : ∀ table : SymbolTable, Tracks (k table) (k' (table.recount .wrapping))) :
    Tracks (get >>= k) (get >>= k') where
  moves {table} := (h (table.recount .unbounded)).moves
  descends {table} := (h table).descends
  of_le {table} := (h table).of_le
  of_word {table} := (h table).of_word

theorem bind_name (name : String) (a : Int) :
    Tracks (modifyGet fun table => ((), table.bind name a))
      (modifyGet fun table => ((), table.bind name a)) where
  moves h := by
    cases h
    exact .refl _
  descends h := by
    cases h
    exact Int.le_refl _
  of_le h _ := by
    cases h
    rfl
  of_word h _ := by
    cases h
    rfl

/-- An allocation on behalf of a statement. -/
theorem allocating {x : SymbolTable.Allocating α} {y : SymbolTable.AllocatingBy .wrapping α}
    (h : SymbolTable.Tracks x y) (span : Span) :
    Tracks (Lowering.allocating span x) (Lowering.allocating span y) where
  moves {table table' a} hrun := by
    have hmoves := h.moves table
    rw [allocating_ok hrun] at hmoves
    exact hmoves
  descends {table table' a} hrun := by
    have hle := h.descends table
    rw [allocating_ok hrun] at hle
    exact hle
  of_le {table table' a} hrun hle := by
    have hy := allocating_ok hrun
    have hsame := h.of_le table (by rw [hy]; exact hle)
    rw [SymbolTable.Same, hy] at hsame
    have hx : x.runOn table = (.ok a, table'.recount .unbounded) :=
      Prod.ext (congrArg Prod.fst hsame).symm
        (congrArg (fun result => result.2.recount .unbounded) hsame).symm
    exact run_allocating hx
  of_word {table table' a} hrun hword := by
    have hx := allocating_ok hrun
    have hsame := h.of_word table (by rw [hx]; exact hword)
    rw [SymbolTable.Same, hx] at hsame
    exact run_allocating hsame

end Tracks

variable (span : Span)

theorem tracks_resolve (name : String) : Tracks (resolve name span) (resolve name span) := by
  refine Tracks.get_bind fun table => ?_
  rw [SymbolTable.addressOf?_recount]
  cases table.addressOf? name with
  | some a => exact .pure a
  | none => exact .throw _

theorem tracks_literal (spelling : String) (value : Int) :
    Tracks (literal spelling value span) (literal spelling value span) :=
  .allocating (SymbolTable.tracks_declareLiteral spelling value) span

theorem tracks_operandAddress (operand : Operand) :
    Tracks (operandAddress operand span) (operandAddress operand span) := by
  cases operand with
  | name name => exact tracks_resolve span name
  | literal spelling value => exact tracks_literal span spelling value

theorem tracks_expressionTokens (whole : Span) (tokens : List (ExpressionToken × Span))
    (pending : List Pending) (r : Reduction) :
    Tracks (expressionTokens whole span tokens pending r)
      (expressionTokens whole span tokens pending r) := by
  induction tokens generalizing pending r with
  | nil => exact .lift _
  | cons token tokens ih =>
    obtain ⟨token, place⟩ := token
    cases token with
    | operand operand =>
      exact (tracks_operandAddress place operand).bind fun a => ih pending (r.push a)
    | operator operator =>
      exact (Tracks.lift _).bind fun pair => ih (.operator operator :: pair.1) pair.2
    | openParen => exact ih (.openParen :: pending) r
    | closeParen => exact (Tracks.lift _).bind fun pair => ih pair.1 pair.2

theorem tracks_expression (e : Expression) : Tracks (expression e span) (expression e span) :=
  (tracks_expressionTokens span e.span e.tokens [] .empty).bind fun _ =>
    (Tracks.lift _).bind fun _ => .pure _

theorem tracks_form (f : Statement.Form) : Tracks (form span f) (form span f) := by
  cases f with
  | int name value =>
    exact (Tracks.allocating (SymbolTable.tracks_declare name value .int) span).bind
      fun _ => .pure _
  | string name text =>
    exact (Tracks.allocating (SymbolTable.tracks_declareString name text) span).bind
      fun _ => .pure _
  | new name e =>
    exact (tracks_expression span e).bind fun value =>
      (Tracks.bind_name name value.1).bind fun _ => .pure _
  | inputInt name =>
    exact (Tracks.allocating (SymbolTable.tracks_allocateSlot name) span).bind fun _ => .pure _
  | outputInt name => exact (tracks_resolve span name).bind fun _ => .pure _
  | inputStr =>
    exact (tracks_literal span "0" 0).bind fun zero => (tracks_literal span "1" 1).bind fun _ =>
      Tracks.get_bind fun _ => .pure _
  | outputStr name =>
    exact (tracks_literal span "0" 0).bind fun zero => (tracks_literal span "1" 1).bind fun one =>
      (tracks_resolve span name).bind fun string => Tracks.get_bind fun _ => .pure _
  | loop | endLoop => exact .pure _

theorem tracks_statement (pairs : LoopPairs) (index : Nat) (opened : List Nat) (s : Statement) :
    Tracks (statement pairs index opened s) (statement pairs index opened s) := by
  rcases s.form.loop_or_endLoop_or_plain with ⟨left, comparison, right, hform⟩ | hform | hplain
  · simp only [statement, hform]
    cases pairs.endOf? index with
    | none => exact .throw _
    | some stop =>
      exact (tracks_operandAddress s.span left).bind fun a =>
        (tracks_operandAddress s.span right).bind fun b => Tracks.get_bind fun _ => .pure _
  · cases opened with
    | nil =>
      simp only [statement, hform]
      exact .throw _
    | cons count outer =>
      simp only [statement, hform]
      exact .pure _
  · rw [statement_of_plain hplain, statement_of_plain hplain]
    exact (tracks_form s.span s.form).bind fun _ => .pure _

theorem tracks_statements (pairs : LoopPairs) (index : Nat) (opened : List Nat)
    (ss : List Statement) :
    Tracks (statements pairs index opened ss) (statements pairs index opened ss) := by
  induction ss generalizing index opened with
  | nil => exact .pure []
  | cons s rest ih =>
    exact (tracks_statement pairs index opened s).bind fun result =>
      (ih (index + 1) result.2).bind fun _ => .pure _

end Lowering

/-- The same program, with a table that is counted on in another way. -/
def Compiled.recount {c : Countdown} (d : Countdown) (compiled : Compiled c) : Compiled d :=
  ⟨compiled.blocks, compiled.symbols.recount d⟩

namespace Program

variable {program : Program} {dataBase : Int}

/-- A program is compiled with words that do not run out as with integers. -/
theorem compile_of_wrapping {compiled : Compiled .wrapping}
    (h : program.compile dataBase .wrapping = .ok compiled)
    (hle : compiled.symbols.cursor ≤ dataBase) :
    program.compile dataBase = .ok (compiled.recount .unbounded) ∧
      Onward dataBase compiled.symbols.cursor := by
  rcases compile_ok h with ⟨pairs, hpairs, hrun, hoverlap⟩
  have htracks := Lowering.tracks_statements pairs 0 [] program.statements
  exact ⟨compile_of_run hpairs (htracks.of_le hrun hle) hoverlap, (htracks.moves hrun).onward hle⟩

/-- A program whose addresses are words is compiled with words as with integers. -/
theorem compile_wrapping_of_word {compiled : Compiled}
    (h : program.compile dataBase = .ok compiled)
    (hword : Word.minimum ≤ compiled.symbols.cursor) :
    program.compile dataBase .wrapping = .ok (compiled.recount .wrapping) := by
  rcases compile_ok h with ⟨pairs, hpairs, hrun, hoverlap⟩
  have htracks := Lowering.tracks_statements pairs 0 [] program.statements
  exact compile_of_run hpairs (htracks.of_word hrun hword) hoverlap

/-- What the program makes of a source, with words that do not run out, is what counting with
    integers makes of it if no address falls below the least word. -/
theorem compile_wrapping_iff (hbase : Word.InRange dataBase) {compiled : Compiled} :
    program.compile dataBase .wrapping = .ok (compiled.recount .wrapping) ∧
        compiled.symbols.cursor ≤ dataBase ↔
      program.compile dataBase = .ok compiled ∧ Word.minimum ≤ compiled.symbols.cursor := by
  constructor
  · rintro ⟨h, hle⟩
    rcases compile_of_wrapping h hle with ⟨hcompile, honward⟩
    exact ⟨hcompile, honward.word hbase.1⟩
  · rintro ⟨h, hword⟩
    exact ⟨compile_wrapping_of_word h hword, (compile_leaves h).grows.cursor_le⟩

end Program

end AccumulatorMachine
