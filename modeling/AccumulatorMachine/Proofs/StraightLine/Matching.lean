import AccumulatorMachine.Proofs.Compilation
import AccumulatorMachine.Proofs.StraightLine.Interpreter
import AccumulatorMachine.Proofs.StraightLine.Run

/-!
# Matching States

When a state of the interpreter and a core of the machine are the same state.

The compiler has done before the run what the interpreter does on its way: names are resolved in
the symbol table, and the cells of declarations and literals are in memory from the start. So a
core is compared with a state in the light of a table, the one that the statements so far have led
to. The names and the next address of the state are those of the table. A cell that the table has
handed out exists on both sides and holds the same number. All other cells do not exist yet for
the interpreter, and for the machine they are still as they were loaded.

The last point is what lets a state grow. A declaration creates a cell, its address is the next one
of the table, and what the machine has there is the initial value that the image was built with.

## Main definitions

* `StraightLine.Agrees`: The outcome of code agrees with that of the interpreter.
* `Memory.Loads`: A memory that has the initial cells of a table.
* `StraightLine.Matches`: A state and a core that are the same.

## Theorems

* `StraightLine.Agrees.bind`: Outcomes agree step by step.
* `StraightLine.Matches.declare`, `StraightLine.Matches.slot`, `StraightLine.Matches.chars`: New
  cells.
* `StraightLine.Matches.locate`: An operand.
* `StraightLine.Matches.operate`: An operator and its code.
-/

namespace AccumulatorMachine

namespace Core

variable {c : Core} {a : Int}

theorem effect_read_of_data {x : Int} (h : c.memory.read a = some (.data x)) :
    c.effect ⟨.read, a⟩ = .ok (c.setAccumulator x, 1) := by
  rw [effect_read, compute_of_data h]
  rfl

/-- An operator on a number in a cell. -/
theorem effect_operator {y : Int} (h : c.memory.read a = some (.data y))
    (operator : BinaryOperator) : c.effect ⟨operator.opcode, a⟩
      = (operator.compute c.acc y).map fun result => (c.setAccumulator result, 1) := by
  -- All operators are computed by the same micro-operations, and differ in the result alone.
  have hcompute : ∀ op : ArithmeticOp, op.apply c.acc y = operator.compute c.acc y →
      (do return (← c.compute op a, (1 : Int)))
        = (operator.compute c.acc y).map fun result => (c.setAccumulator result, 1) := by
    intro op hop
    rw [compute_of_data h, hop]
    cases operator.compute c.acc y <;> rfl
  have hexactly : ∀ n : Int, ArithmeticOp.exactly n
      = if Word.InRange n then .ok n else .error .arithmeticOverflow := by
    intro n
    by_cases hn : Word.InRange n
    · rw [ArithmeticOp.exactly_of_inRange hn, if_pos hn]
    · rw [ArithmeticOp.exactly_of_not_inRange hn, if_neg hn]
  cases operator with
  | add => exact hcompute .add (hexactly _)
  | subtract => exact hcompute .subtract (hexactly _)
  | multiply => exact hcompute .multiply (hexactly _)
  | divide =>
    refine hcompute .divide ?_
    rw [ArithmeticOp.apply_divide, BinaryOperator.compute]
    by_cases hzero : y = 0
    · rw [if_pos hzero, if_pos ⟨rfl, hzero⟩]
    · rw [if_neg hzero, if_neg fun h => hzero h.2]
      exact hexactly _

/-- The code that applies an operator to two cells with numbers. -/
theorem runAll_operatorCode {b x y : Int} (hx : c.memory.read a = some (.data x))
    (hy : c.memory.read b = some (.data y)) (operator : BinaryOperator) :
    runAll (Reduction.operatorCode operator a b) c
      = (operator.compute x y).map fun result => (c.setAccumulator result).store a := by
  have hop : (c.setAccumulator x).effect ⟨operator.opcode, b⟩
      = (operator.compute x y).map fun result => (c.setAccumulator result, 1) :=
    effect_operator (show (c.setAccumulator x).memory.read b = _ from hy) operator
  have hload : runAll (Reduction.operatorCode operator a b) c
      = runAll [⟨operator.opcode, b⟩, ⟨.write, a⟩] (c.setAccumulator x) := by
    rw [Reduction.operatorCode, runAll, effect_read_of_data hx]
    rfl
  rw [hload, runAll, hop]
  cases operator.compute x y <;> rfl

end Core

/-- A memory that has some cells. -/
def Memory.Loads (memory : Memory) (cells : List Cell) : Prop :=
  ∀ cell ∈ cells, memory.read cell.address = some cell.value

theorem Memory.Loads.of_grows {memory : Memory} {table table' : SymbolTable}
    (h : memory.Loads table'.cells) (hg : table.Grows table') : memory.Loads table.cells := by
  intro cell hcell
  rcases hg.cells with ⟨new, hnew, -⟩
  exact h cell (by rw [hnew]; exact List.mem_append_left new hcell)

namespace StraightLine

/-- The outcome of code agrees with that of the interpreter: both go on, or both stop with the same
    fault. -/
inductive Agrees {α : Type} (P : α → Core → Prop) : Except Stop α → Except Fault Core → Prop
  | ok {x : α} {c : Core} (h : P x c) : Agrees P (.ok x) (.ok c)
  | fault (fault : Fault) : Agrees P (.error (.fault fault)) (.error fault)

/-- Outcomes agree step by step. -/
theorem Agrees.bind {α β : Type} {P : α → Core → Prop} {Q : β → Core → Prop}
    {x : Except Stop α} {y : Except Fault Core} {f : α → Except Stop β}
    {g : Core → Except Fault Core} (h : Agrees P x y)
    (hfg : ∀ x c, P x c → Agrees Q (f x) (g c)) : Agrees Q (x >>= f) (y >>= g) := by
  cases h with
  | ok h => exact hfg _ _ h
  | fault fault => exact Agrees.fault fault

/-- A step of the interpreter that needs no code. -/
theorem Agrees.map {α β : Type} {P : α → Core → Prop} {Q : β → Core → Prop}
    {x : Except Stop α} {y : Except Fault Core} {f : α → β} (h : Agrees P x y)
    (hf : ∀ x c, P x c → Q (f x) c) : Agrees Q (do return f (← x)) y := by
  cases h with
  | ok h => exact Agrees.ok (hf _ _ h)
  | fault fault => exact Agrees.fault fault

namespace State

variable {s : State}

theorem value_of_cell {a v : Int} (h : s.cells a = some v) : s.value a = .ok v := by
  rw [value, h]

theorem address_of_name {name : String} {a : Int} (h : s.names name = some a) :
    s.address name = .ok a := by
  rw [address, h]

theorem operate_of_cells {a b x y : Int} (hx : s.cells a = some x) (hy : s.cells b = some y)
    (operator : BinaryOperator) : s.operate operator a b
      = ((operator.compute x y).mapError .fault).map fun result => s.set a result := by
  have hvalues : s.operate operator a b
      = (do return s.set a (← (operator.compute x y).mapError .fault)) := by
    rw [operate, value_of_cell hx, value_of_cell hy]
    rfl
  rw [hvalues]
  cases operator.compute x y <;> rfl

end State

/-- A state and a core that are the same, as far as a table has got. `memory` is what the machine
    has started with, and `input` what it has not consumed. -/
structure Matches (memory : Memory) (base : Int) (input : List Char) (table : SymbolTable)
    (s : State) (c : Core) : Prop where
  within : table.Within base
  names : ∀ name, s.names name = table.addressOf? name
  next : s.next = table.cursor
  cells : ∀ a, table.HandedOut base a →
    ∃ value, c.memory.read a = some (.data value) ∧ s.cells a = some value
  rest : ∀ a, ¬ table.HandedOut base a → c.memory.read a = memory.read a ∧ s.cells a = none
  output : s.output = String.join c.printed.reverse
  input : c.input = input

namespace Matches

variable {memory : Memory} {base : Int} {input : List Char} {table : SymbolTable} {s : State}
  {c : Core} {a value : Int} {name : String}

/-- A program starts in the state of the interpreter. -/
theorem start (memory : Memory) (base : Int) (input : List Char) :
    Matches memory base input (.empty base) (.start base) (Store.core ⟨memory, input, false, []⟩)
    where
  within := .empty base
  names := fun _ => rfl
  next := rfl
  cells := by
    intro a ha
    have hlow : base < a := ha.1
    have hhigh : a ≤ base := ha.2
    omega
  rest := fun _ _ => ⟨rfl, rfl⟩
  output := rfl
  input := rfl

theorem unbound (hm : Matches memory base input table s c) (h : table.get? name = none) :
    s.names name = none := by
  rw [hm.names, SymbolTable.addressOf?, h]
  rfl

theorem bound (hm : Matches memory base input table s c) {info : SymbolInfo}
    (h : table.get? name = some info) : s.names name = some info.address := by
  rw [hm.names, SymbolTable.addressOf?, h]
  rfl

theorem setAccumulator (hm : Matches memory base input table s c) (value : Int) :
    Matches memory base input table s (c.setAccumulator value) :=
  ⟨hm.within, hm.names, hm.next, hm.cells, hm.rest, hm.output, hm.input⟩

theorem print (hm : Matches memory base input table s c) (token : String) :
    Matches memory base input table { s with output := s.output ++ token }
      { c with printed := token :: c.printed } := by
  refine ⟨hm.within, hm.names, hm.next, hm.cells, hm.rest, ?_, hm.input⟩
  rw [List.reverse_cons, String.join_append, hm.output, String.join_cons, String.join_nil,
    String.append_empty]

/-- A name is bound to a cell that exists. -/
theorem bind (hm : Matches memory base input table s c) (ha : table.HandedOut base a)
    (name : String) (kind : SymbolKind) :
    Matches memory base input (table.insert name ⟨a, kind⟩) (s.bind name a) c where
  within := hm.within.insert (SymbolTable.Grows.refl table) rfl ha
  names := by
    intro other
    rw [SymbolTable.addressOf?_insert, State.bind]
    -- Both sides look the name up first, and go on with what was bound before.
    by_cases hname : other = name
    · rw [if_pos hname]
      simp only [if_pos hname]
    · rw [if_neg hname]
      simp only [if_neg hname]
      exact hm.names other
  next := hm.next
  cells := hm.cells
  rest := hm.rest
  output := hm.output
  input := hm.input

/-- The accumulator is stored in a cell that exists. -/
theorem store (hm : Matches memory base input table s c) (ha : table.HandedOut base a) :
    Matches memory base input table (s.set a c.acc) (c.store a) where
  within := hm.within
  names := hm.names
  next := hm.next
  cells := by
    intro b hb
    rw [Core.store, Memory.read_write, State.set]
    by_cases hab : b = a
    · exact ⟨c.acc, by rw [if_pos hab], if_pos hab⟩
    · simp only [if_neg hab]
      exact hm.cells b hb
  rest := by
    intro b hb
    -- A cell that does not exist yet is not the one that is stored to.
    have hab : b ≠ a := by
      rintro rfl
      exact hb ha
    rw [Core.store, Memory.read_write, State.set]
    simp only [if_neg hab]
    exact hm.rest b hb
  output := hm.output
  input := hm.input

/-- The next address is handed out, and the machine has a number there. -/
theorem create {c' : Core} (hm : Matches memory base input table s c)
    (hcell : c'.memory.read table.cursor = some (.data value))
    (hothers : ∀ a, a ≠ table.cursor → c'.memory.read a = c.memory.read a)
    (hprinted : c'.printed = c.printed) (hinput : c'.input = c.input) :
    Matches memory base input table.taken (s.create value) c' where
  within := hm.within.taken
  names := hm.names
  next := by rw [State.create, SymbolTable.taken, hm.next]
  cells := by
    intro b hb
    simp only [State.create, State.set, hm.next]
    -- The new cell is at the next address, and all others are older.
    by_cases hbase : b = table.cursor
    · exact ⟨value, by rw [hbase, hcell], if_pos hbase⟩
    · rw [if_neg hbase, hothers b hbase]
      refine hm.cells b ⟨?_, hb.2⟩
      have := hb.1
      simp only [SymbolTable.taken] at this
      omega
  rest := by
    intro b hb
    -- The next address does exist from now on.
    have hbase : b ≠ table.cursor := by
      rintro rfl
      refine hb ⟨?_, hm.within.cursor_le⟩
      simp only [SymbolTable.taken]
      omega
    simp only [State.create, State.set, hm.next]
    rw [if_neg hbase, hothers b hbase]
    refine hm.rest b fun hout => hb ⟨?_, hout.2⟩
    have := hout.1
    simp only [SymbolTable.taken]
    omega
  output := by rw [hprinted]; exact hm.output
  input := by rw [hinput]; exact hm.input

/-- The cell that is created was in memory all along. -/
theorem addCell (hm : Matches memory base input table s c)
    (hcell : memory.read table.cursor = some (.data value)) :
    Matches memory base input (table.taken.addCell table.cursor value) (s.create value) c := by
  -- The next address was not handed out before, so its cell is as it was loaded.
  have hnew : ¬ table.HandedOut base table.cursor := fun h => Int.lt_irrefl _ h.1
  have htaken := hm.create (by rw [(hm.rest _ hnew).1, hcell]) (fun _ _ => rfl) rfl rfl
  exact ⟨htaken.within.addCell table.cursor value, htaken.names, htaken.next, htaken.cells,
    htaken.rest, htaken.output, htaken.input⟩

theorem handedOut_cursor (hm : Matches memory base input table s c) :
    table.taken.HandedOut base table.cursor := by
  refine ⟨?_, hm.within.cursor_le⟩
  simp only [SymbolTable.taken]
  omega

/-- A declaration, whose cell was in memory all along. -/
theorem declare (hm : Matches memory base input table s c) {kind : SymbolKind}
    (hloads : memory.Loads (table.fresh name value kind).cells) :
    Matches memory base input (table.fresh name value kind) (s.declare name value) c := by
  have hcell : memory.read table.cursor = some (.data value) :=
    hloads ⟨.data value, table.cursor⟩ (List.mem_append_right _ (List.mem_singleton_self _))
  rw [State.declare, hm.next]
  exact (hm.addCell hcell).bind hm.handedOut_cursor name kind

/-- The accumulator is stored in a new cell. -/
theorem slot (hm : Matches memory base input table s c) (name : String) :
    Matches memory base input (table.slot name) (s.declare name c.acc) (c.store table.cursor) := by
  have hcell : (c.store table.cursor).memory.read table.cursor = some (.data c.acc) := by
    rw [Core.store, Memory.read_write, if_pos rfl]
  have hothers : ∀ a, a ≠ table.cursor →
      (c.store table.cursor).memory.read a = c.memory.read a := by
    intro a ha
    rw [Core.store, Memory.read_write, if_neg ha]
  rw [State.declare, hm.next]
  exact (hm.create hcell hothers rfl rfl).bind hm.handedOut_cursor name .slot

/-- The cells of a text, which were in memory all along. -/
theorem chars {text : List Char} (hm : Matches memory base input table s c)
    (hloads : memory.Loads (SymbolTable.chars text table).cells) :
    Matches memory base input (SymbolTable.chars text table)
      (text.foldl (fun s ch => s.create ch.toNat) s) c := by
  induction text generalizing table s with
  | nil => exact hm
  | cons ch text ih =>
    have hcell : memory.read table.cursor = some (.data ch.toNat) :=
      hloads ⟨.data ch.toNat, table.cursor⟩
        (SymbolTable.mem_chars text (List.mem_append_right _ (List.mem_singleton_self _)))
    exact ih (hm.addCell hcell) hloads

/-- An operand is located where it was allocated. -/
theorem locate {table' : SymbolTable} {o : Operand} {place : Span}
    (hm : Matches memory base input table s c)
    (h : (Lowering.operandAddress o place).run table = .ok (a, table'))
    (hloads : memory.Loads table'.cells) :
    ∃ s', s.locate o = .ok (a, s') ∧ Matches memory base input table' s' c := by
  cases o with
  | name text =>
    rcases Lowering.resolve_ok h with ⟨ha, rfl⟩
    have hname : s.names text = some a := by rw [hm.names, ha]
    refine ⟨s, ?_, hm⟩
    rw [State.locate, State.address_of_name hname]
    rfl
  | literal spelling value =>
    -- The literal has a cell already, or it gets the next one on both sides.
    rcases Lowering.literal_ok h with ⟨ha, rfl⟩ | ⟨hnone, -, rfl, rfl⟩
    · have hname : s.names spelling = some a := by rw [hm.names, ha]
      refine ⟨s, ?_, hm⟩
      rw [State.locate, hname]
    · refine ⟨s.declare spelling value, ?_, hm.declare hloads⟩
      rw [State.locate, hm.unbound hnone, hm.next]

/-- An operator and its code. -/
theorem operate {b : Int} (hm : Matches memory base input table s c)
    (ha : table.HandedOut base a) (hb : table.HandedOut base b) (operator : BinaryOperator) :
    Agrees (Matches memory base input table) (s.operate operator a b)
      (Core.runAll (Reduction.operatorCode operator a b) c) := by
  rcases hm.cells a ha with ⟨x, hx, hsx⟩
  rcases hm.cells b hb with ⟨y, hy, hsy⟩
  rw [Core.runAll_operatorCode hx hy, State.operate_of_cells hsx hsy]
  cases operator.compute x y with
  | error fault => exact Agrees.fault fault
  | ok result => exact Agrees.ok ((hm.setAccumulator result).store ha)

end Matches

end StraightLine

end AccumulatorMachine
