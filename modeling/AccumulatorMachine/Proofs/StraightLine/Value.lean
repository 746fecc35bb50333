import AccumulatorMachine.Proofs.Lowering.Postorder
import AccumulatorMachine.Proofs.StraightLine.Matching
import AccumulatorMachine.Proofs.StraightLine.Placed

/-!
# Values of Expressions

The code of an expression computes its value, if no two operands share a cell.

An operator leaves its result in the cell of its left side, so every expression with an operator
destroys a variable. What saves the rest of the expression is that the parts of a formula have
operands of their own. If the operands are in different cells, nothing that one side stores is read
by the other, and the value of the left side is still there when the right side has been computed.

A formula without a value stops at an operator, the first in post-order that divides by zero or
whose result is no word. Each operator is three instructions, of which the second computes. So the
place of the fault follows from the number of operators that come before.

## Main definitions

* `Formula.value`: The value of a formula, from the numbers of its operands.
* `Formula.applications`: The operators of a formula with their sides, in post-order.
* `Formula.Stops`: The operator at which a formula has no value.
* `Formula.Computed`: What the code of a formula leaves behind.
* `Formula.Faults`: Where the code of a formula has its fault.
* `Formula.Runs`: The outcomes of the code of a formula.

## Theorems

* `Formula.Stops.length_eq`: A formula stops at one operator only.
* `Formula.Computed.of_sides`: The code of the sides and that of the operator, one after the other.
* `Formula.runs`: The code of a formula computes its value or stops where the formula does.
* `Lowering.expression_computes`: A machine computes the value of an expression, wherever the code
  of the expression is.
-/

namespace AccumulatorMachine

theorem BinaryOperator.compute_error {operator : BinaryOperator} {x y : Int} {fault : Fault}
    (h : operator.compute x y = .error fault) :
    (operator = .divide ∧ y = 0 ∧ fault = .divisionByZero) ∨
      (¬ Word.InRange (operator.value x y) ∧ fault = .arithmeticOverflow) := by
  rw [compute] at h
  by_cases hzero : operator = divide ∧ y = 0
  · rw [if_pos hzero] at h
    cases h
    exact Or.inl ⟨hzero.1, hzero.2, rfl⟩
  · rw [if_neg hzero] at h
    by_cases hrange : Word.InRange (operator.value x y)
    · rw [if_pos hrange] at h
      cases h
    · rw [if_neg hrange] at h
      cases h
      exact Or.inr ⟨hrange, rfl⟩

namespace Formula

/-- The operators of a formula with their sides, in post-order. -/
def applications : Formula → List Formula
  | operand _ => []
  | binary operator left right =>
    left.applications ++ right.applications ++ [binary operator left right]
  | paren body => body.applications

/-- The code of a formula is three instructions for each operator. -/
theorem length_code (address : Operand → Int) (f : Formula) :
    (f.code address).length = 3 * f.applications.length := by
  induction f with
  | operand o => rfl
  | binary operator left right ihl ihr =>
    simp only [code, applications, List.length_append, ihl, ihr, List.length_cons, List.length_nil]
    omega
  | paren body ih => exact ih

/-- The leftmost operand of the left side of an operator is an operand of the formula. -/
theorem first_mem_of_applications {f : Formula} {operator : BinaryOperator} {left right : Formula}
    (h : binary operator left right ∈ f.applications) : left.first ∈ f.operands := by
  induction f with
  | operand o => cases h
  | binary other l r ihl ihr =>
    rcases List.mem_append.mp h with h | h
    · rcases List.mem_append.mp h with h | h
      · exact List.mem_append_left _ (ihl h)
      · exact List.mem_append_right _ (ihr h)
    · cases List.mem_singleton.mp h
      exact List.mem_append_left _ left.first_mem_operands
  | paren body ih => exact ih h

section Value

variable (x : Operand → Int)

/-- The value of a formula, from the numbers of its operands. There is none if an operator divides
    by zero or has a result that is no word. -/
def value : Formula → Except Fault Int
  | operand o => .ok (x o)
  | binary operator left right => do
    let a ← left.value
    let b ← right.value
    operator.compute a b
  | paren body => body.value

/-- A formula stops at the first of its operators that has no value: those before it have one, and
    so have its two sides. -/
structure Stops (f : Formula) (before : List Formula) (fault : Fault) : Prop where
  earlier : ∀ g ∈ before, ∃ v, g.value x = .ok v
  here : ∃ operator left right after a b,
    f.applications = before ++ binary operator left right :: after ∧
      left.value x = .ok a ∧ right.value x = .ok b ∧ operator.compute a b = .error fault

variable {x : Operand → Int} {operator : BinaryOperator} {left right : Formula}
  {before : List Formula} {fault : Fault}

theorem value_binary {a b : Int} (hleft : left.value x = .ok a) (hright : right.value x = .ok b) :
    (binary operator left right).value x = operator.compute a b := by
  rw [value, hleft, hright]
  rfl

/-- If a formula has a value, so has each of its operators. -/
theorem value_of_mem_applications {f : Formula} {v : Int} (h : f.value x = .ok v) :
    ∀ g ∈ f.applications, ∃ w, g.value x = .ok w := by
  induction f generalizing v with
  | operand o =>
    intro g hg
    cases hg
  | binary other l r ihl ihr =>
    rcases Outcome.bind_ok h with ⟨a, ha, hrest⟩
    rcases Outcome.bind_ok hrest with ⟨b, hb, -⟩
    intro g hg
    rcases List.mem_append.mp hg with hg | hg
    · rcases List.mem_append.mp hg with hg | hg
      · exact ihl ha g hg
      · exact ihr hb g hg
    · rw [List.mem_singleton.mp hg]
      exact ⟨v, h⟩
  | paren body ih => exact ih h

/-- A formula stops where its left side does. -/
theorem Stops.of_left (h : left.Stops x before fault) :
    (binary operator left right).Stops x before fault := by
  rcases h.here with ⟨op, l, r, after, a, b, happ, hvalues⟩
  refine ⟨h.earlier, op, l, r, after ++ right.applications ++ [binary operator left right], a, b,
    ?_, hvalues⟩
  rw [applications, happ]
  simp only [List.append_assoc, List.cons_append]

/-- A formula whose left side has a value stops where its right side does. -/
theorem Stops.of_right {a : Int} (hleft : left.value x = .ok a) (h : right.Stops x before fault) :
    (binary operator left right).Stops x (left.applications ++ before) fault := by
  rcases h.here with ⟨op, l, r, after, a, b, happ, hvalues⟩
  refine ⟨fun g hg => ?_, op, l, r, after ++ [binary operator left right], a, b, ?_, hvalues⟩
  · rcases List.mem_append.mp hg with hg | hg
    · exact value_of_mem_applications hleft g hg
    · exact h.earlier g hg
  · rw [applications, happ]
    simp only [List.append_assoc, List.cons_append]

/-- A formula whose sides have values stops at its operator. -/
theorem Stops.of_operator {a b : Int} (hleft : left.value x = .ok a)
    (hright : right.value x = .ok b)
    (h : operator.compute a b = .error fault) :
    (binary operator left right).Stops x (left.applications ++ right.applications) fault := by
  refine ⟨fun g hg => ?_, operator, left, right, [], a, b, rfl, hleft, hright, h⟩
  rcases List.mem_append.mp hg with hg | hg
  · exact value_of_mem_applications hleft g hg
  · exact value_of_mem_applications hright g hg

theorem Stops.length_le {f : Formula} {before' : List Formula} {fault' : Fault}
    (h : f.Stops x before fault) (h' : f.Stops x before' fault') :
    before'.length ≤ before.length := by
  rcases h.here with ⟨op, l, r, after, a, b, happ, hl, hr, hop⟩
  rcases h'.here with ⟨op', l', r', after', a', b', happ', -⟩
  by_contra hlt
  rw [Nat.not_le] at hlt
  -- Otherwise the one without a value would be among those before the other.
  have hget : f.applications[before.length]? = some (binary op l r) := by
    rw [happ, List.getElem?_append_right (Nat.le_refl _), Nat.sub_self]
    rfl
  rw [happ', List.getElem?_append_left hlt] at hget
  rcases h'.earlier _ (List.mem_of_getElem? hget) with ⟨v, hv⟩
  rw [value_binary hl hr, hop] at hv
  cases hv

/-- A formula stops at one operator only. -/
theorem Stops.length_eq {f : Formula} {before' : List Formula} {fault' : Fault}
    (h : f.Stops x before fault) (h' : f.Stops x before' fault') :
    before.length = before'.length :=
  Nat.le_antisymm (h'.length_le h) (h.length_le h')

end Value

/-! ## Running the code -/

/-- What the code of a formula leaves behind. The value is in the cell of the formula. All cells
    are as they were, but for those of operands that are leftmost in the left side of an operator.
    Nothing is read from the input, and nothing is printed. -/
structure Computed (address : Operand → Int) (f : Formula) (v : Int) (c c' : Core) : Prop where
  value : c'.memory.read (f.result address) = some (.data v)
  others : ∀ a, (∀ operator left right, binary operator left right ∈ f.applications →
    a ≠ address left.first) → c'.memory.read a = c.memory.read a
  input : c'.input = c.input
  exhausted : c'.exhausted = c.exhausted
  printed : c'.printed = c.printed

/-- The code of a formula runs into a fault. It is the second instruction of the operator at which
    the formula stops, and `before` are the operators that come before that one. -/
structure Faults (address x : Operand → Int) (f : Formula) (c : Core) (before : List Formula)
    (fault : Fault) : Prop where
  value : f.value x = .error fault
  stops : f.Stops x before fault
  code : ∃ first i rest c', f.code address = first ++ i :: rest ∧
    first.length = 3 * before.length + 1 ∧ Core.runAll first c = .ok c' ∧
      c'.effect i = .error fault

/-- The outcomes of the code of a formula. -/
inductive Runs (address x : Operand → Int) (f : Formula) (c : Core) : Prop
  | ok {v : Int} {c' : Core} (hvalue : f.value x = .ok v)
      (hrun : Core.runAll (f.code address) c = .ok c') (hcomputed : f.Computed address v c c')
  | error {before : List Formula} {fault : Fault} (h : f.Faults address x c before fault)

section Code

variable {address x : Operand → Int} {operator : BinaryOperator} {left right f : Formula}
  {c c' c'' : Core}

/-- The code of a formula stores to cells of its operands, and uses no others. -/
theorem operatorSteps_code (address : Operand → Int) (f : Formula) :
    OperatorSteps (· ∈ f.operands.map address) (f.code address) := by
  induction f with
  | operand o => exact ⟨[], rfl, by simp⟩
  | binary operator left right ihl ihr =>
    rcases ihl with ⟨steps, hleft, hsteps⟩
    rcases ihr with ⟨steps', hright, hsteps'⟩
    refine ⟨steps ++ steps' ++ [(operator, left.result address, right.result address)], ?_, ?_⟩
    · simp only [code_binary, hleft, hright, List.flatMap_append, List.flatMap_singleton]
    · rw [operands, List.map_append]
      intro step hstep
      rcases List.mem_append.mp hstep with hstep | hstep
      · rcases List.mem_append.mp hstep with hstep | hstep
        · have hcells := hsteps step hstep
          exact ⟨List.mem_append_left _ hcells.1, List.mem_append_left _ hcells.2⟩
        · have hcells := hsteps' step hstep
          exact ⟨List.mem_append_right _ hcells.1, List.mem_append_right _ hcells.2⟩
      · cases List.mem_singleton.mp hstep
        simp only [result_eq]
        exact ⟨List.mem_append_left _ (List.mem_map_of_mem left.first_mem_operands),
          List.mem_append_right _ (List.mem_map_of_mem right.first_mem_operands)⟩
  | paren body ih => exact ih

/-- The code of a formula leaves the operands of another one alone, if all their cells are
    different. -/
theorem Computed.read_of_disjoint {v : Int} (h : left.Computed address v c c')
    (hdisjoint : ∀ a ∈ left.operands.map address, ∀ b ∈ right.operands.map address, a ≠ b)
    {o : Operand} (ho : o ∈ right.operands) :
    c'.memory.read (address o) = c.memory.read (address o) := by
  refine h.others _ fun op l r happ => ?_
  have hfirst := List.mem_map_of_mem (f := address) (first_mem_of_applications happ)
  exact (hdisjoint _ hfirst _ (List.mem_map_of_mem ho)).symm

/-- The code of the sides and that of the operator, one after the other. -/
theorem Computed.of_sides {a b v : Int} (hleft : left.Computed address a c c')
    (hright : right.Computed address b c' c'') :
    (binary operator left right).Computed address v c
      ((c''.setAccumulator v).store (left.result address)) where
  value := by
    rw [result, Core.store, Memory.read_write, if_pos rfl]
    rfl
  others := by
    intro other hother
    -- The cell of the operator is one of those that a formula may change.
    have hne : other ≠ left.result address := by
      rw [result_eq]
      exact hother operator left right (List.mem_append_right _ (List.mem_singleton_self _))
    rw [Core.store, Memory.read_write, if_neg hne]
    refine (hright.others other fun op l r happ => ?_).trans
      (hleft.others other fun op l r happ => ?_)
    · exact hother op l r (List.mem_append_left _ (List.mem_append_right _ happ))
    · exact hother op l r (List.mem_append_left _ (List.mem_append_left _ happ))
  input := hright.input.trans hleft.input
  exhausted := hright.exhausted.trans hleft.exhausted
  printed := hright.printed.trans hleft.printed

/-- The code runs into the fault of the left side. -/
theorem Faults.of_left {before : List Formula} {fault : Fault}
    (h : left.Faults address x c before fault) :
    (binary operator left right).Faults address x c before fault where
  value := by
    rw [Formula.value, h.value]
    rfl
  stops := h.stops.of_left
  code := by
    rcases h.code with ⟨first, i, rest, mid, hcode, hruns⟩
    refine ⟨first, i, rest ++ right.code address
      ++ Reduction.operatorCode operator (left.result address) (right.result address), mid, ?_,
      hruns⟩
    rw [code_binary, hcode]
    simp only [List.append_assoc, List.cons_append]

/-- If the left side has a value, the code runs into the fault of the right side. -/
theorem Faults.of_right {a : Int} {before : List Formula} {fault : Fault}
    (hvalue : left.value x = .ok a) (hrun : Core.runAll (left.code address) c = .ok c')
    (h : right.Faults address x c' before fault) :
    (binary operator left right).Faults address x c (left.applications ++ before) fault where
  value := by
    rw [Formula.value, hvalue, h.value]
    rfl
  stops := h.stops.of_right hvalue
  code := by
    rcases h.code with ⟨first, i, rest, mid, hcode, hlength, hfirst, hfault⟩
    refine ⟨left.code address ++ first, i, rest
      ++ Reduction.operatorCode operator (left.result address) (right.result address), mid, ?_, ?_,
      ?_, hfault⟩
    · rw [code_binary, hcode]
      simp only [List.append_assoc, List.cons_append]
    · rw [List.length_append, List.length_append, length_code, hlength]
      omega
    · rw [Core.runAll_append_of_ok hrun, hfirst]

section Operator

variable {a b : Int} (hleft : left.value x = .ok a) (hright : right.value x = .ok b)
  (hsides : Core.runAll (left.code address ++ right.code address) c = .ok c')
  (ha : c'.memory.read (left.result address) = some (.data a))
  (hb : c'.memory.read (right.result address) = some (.data b))

include hleft hright hsides ha hb

/-- If both sides have values, the code may run into a fault of the operator. -/
theorem Faults.of_operator {fault : Fault} (h : operator.compute a b = .error fault) :
    (binary operator left right).Faults address x c (left.applications ++ right.applications)
      fault where
  value := (value_binary hleft hright).trans h
  stops := Stops.of_operator hleft hright h
  code := by
    refine ⟨left.code address ++ right.code address ++ [⟨.read, left.result address⟩],
      ⟨operator.opcode, right.result address⟩, [⟨.write, left.result address⟩],
      c'.setAccumulator a, ?_, ?_, ?_, ?_⟩
    · rw [code_binary, List.append_assoc _ [_] _]
      rfl
    · rw [List.length_append, List.length_append, length_code, length_code, List.length_append,
        List.length_singleton]
      omega
    · rw [Core.runAll_append_of_ok hsides, Core.runAll, Core.effect_read_of_data ha]
      rfl
    · have heffect := Core.effect_operator (c := c'.setAccumulator a) hb operator
      rw [heffect, Core.setAccumulator, h]
      rfl

/-- If both sides have values, the code applies the operator to them. -/
theorem runs_operator (hcomputed : ∀ v, (binary operator left right).Computed address v c
    ((c'.setAccumulator v).store (left.result address))) :
    (binary operator left right).Runs address x c := by
  cases hresult : operator.compute a b with
  | error fault => exact Runs.error (Faults.of_operator hleft hright hsides ha hb hresult)
  | ok v =>
    refine Runs.ok ((value_binary hleft hright).trans hresult) ?_ (hcomputed v)
    rw [code_binary, Core.runAll_append_of_ok hsides, Core.runAll_operatorCode ha hb, hresult]
    rfl

end Operator

/-- The code of a formula computes its value or stops where the formula does. -/
theorem runs (hdistinct : (f.operands.map address).Nodup)
    (hdata : ∀ o ∈ f.operands, c.memory.read (address o) = some (.data (x o))) :
    f.Runs address x c := by
  -- The induction is on the formula. The right side starts where the left side has ended.
  induction f generalizing c with
  | operand o =>
    exact Runs.ok rfl rfl ⟨hdata o List.mem_cons_self, fun _ _ => rfl, rfl, rfl, rfl⟩
  | paren body ih =>
    cases ih hdistinct hdata with
    | ok hvalue hrun hcomputed =>
      exact Runs.ok hvalue hrun ⟨hcomputed.value, hcomputed.others, hcomputed.input,
        hcomputed.exhausted, hcomputed.printed⟩
    | error h => exact Runs.error ⟨h.value, ⟨h.stops.earlier, h.stops.here⟩, h.code⟩
  | binary operator left right ihl ihr =>
    rw [operands, List.map_append, List.nodup_append] at hdistinct
    rcases hdistinct with ⟨hl, hr, hdisjoint⟩
    cases ihl hl fun o ho => hdata o (List.mem_append_left _ ho) with
    | error h => exact Runs.error h.of_left
    | @ok a mid hvalue hrun hcomputed =>
      have hright : ∀ o ∈ right.operands, mid.memory.read (address o) = some (.data (x o)) := by
        intro o ho
        rw [hcomputed.read_of_disjoint hdisjoint ho]
        exact hdata o (List.mem_append_right _ ho)
      cases ihr hr hright with
      | error h => exact Runs.error (h.of_right hvalue hrun)
      | @ok b last hvalue' hrun' hcomputed' =>
        -- The right side has not touched the value of the left side.
        have ha : last.memory.read (left.result address) = some (.data a) := by
          have hleft := hcomputed.value
          rw [result_eq] at hleft ⊢
          rw [hcomputed'.read_of_disjoint (fun p hp q hq => (hdisjoint q hq p hp).symm)
            left.first_mem_operands, hleft]
        have hsides : Core.runAll (left.code address ++ right.code address) c = .ok last := by
          rw [Core.runAll_append_of_ok hrun, hrun']
        exact runs_operator hvalue hvalue' hsides ha hcomputed'.value fun v =>
          hcomputed.of_sides hcomputed'

/-- Code that a memory holds stores beside itself, since it stores to cells of operands. -/
theorem storesBeside {memory : Memory} {start : Int} {piece : List Instruction}
    (hdata : ∀ o ∈ f.operands, memory.read (address o) = some (.data (x o)))
    (hheld : memory.HoldsAt (f.code address) start) (hpiece : piece ⊆ f.code address) :
    StoresBeside piece start (f.code address).length := by
  intro i hi _ n hn heq
  have hcell := ((operatorSteps_code address f).mem (hpiece hi)).2
  rcases List.mem_map.mp hcell with ⟨o, ho, hoperand⟩
  have hread := hdata o ho
  -- One cell cannot hold an instruction and a number.
  rw [hoperand, heq, hheld n _ (List.getElem?_eq_getElem hn)] at hread
  cases hread

theorem not_input_of_mem_code {i : Instruction} (hi : i ∈ f.code address) : i.opcode ≠ .input := by
  rcases ((operatorSteps_code address f).mem hi).1 with hop | hop | ⟨operator, hop⟩
  · rw [hop]
    decide
  · rw [hop]
    decide
  · rw [hop]
    cases operator <;> decide

end Code

end Formula

namespace Lowering

/-- The code of an expression whose operands are numbers in different cells, wherever it is in the
    memory of a machine. If the expression has a value, the machine passes through the code and
    leaves the value in the cell of the expression. Otherwise the machine fails at the first
    operator in post-order that has no value, since it divides by zero or its result is no word. The
    program counter is a word, so the place behind the code has to be one too. -/
theorem expression_computes {e : Expression} {f : Formula} {span : Span}
    {table table' : SymbolTable} {a start : Int} {code : List Instruction}
    {address x : Operand → Int} {m : Machine} {c : Core} (hreads : e.Reads f)
    (hlowered : (expression e span).run table = .ok ((a, code), table'))
    (haddress : ∀ o ∈ f.operands, table'.addressOf? o.render = some (address o))
    (hdistinct : (f.operands.map address).Nodup) (hat : m.At start c)
    (hdata : ∀ o ∈ f.operands, c.memory.read (address o) = some (.data (x o)))
    (hheld : c.memory.HoldsAt code start) (hmin : Word.minimum ≤ start)
    (hmax : start + code.length ≤ Word.maximum) :
    match f.value x with
    | .ok v => ∃ m' c', Machine.Passes start (start + code.length) code.length m m' ∧
        m'.At (start + code.length) c' ∧ c'.memory.read a = some (.data v) ∧
        f.Computed address v c c'
    | .error fault => (fault = .divisionByZero ∨ fault = .arithmeticOverflow) ∧
        ∃ before m' tick, f.Stops x before fault ∧
          ∀ n, Machine.runFor (3 * before.length + 1 + (n + 1)) m
            = (m', some ⟨fault, start + (3 * before.length + 1 : Nat), tick⟩) := by
  rcases (expression_formula hreads hlowered).code_eq haddress with ⟨rfl, rfl⟩
  have hsteps := Formula.operatorSteps_code address f
  -- The instructions run alone, and then in place, up to the end or to the first fault.
  cases Formula.runs (x := x) (c := c) hdistinct hdata with
  | @ok v c' hvalue hrun hcomputed =>
    rw [hvalue]
    have hbeside := Formula.storesBeside hdata hheld (List.Subset.refl _)
    rcases hsteps.straight.passesAt (fun i => Formula.not_input_of_mem_code) hat hheld hbeside
      (Int.le_refl _) (Int.le_refl _) hmin hmax hrun with ⟨m', hpass, hat'⟩
    exact ⟨m', c', hpass, hat', hcomputed.value, hcomputed⟩
  | @error before fault h =>
    rw [h.value]
    rcases h.stops.here with ⟨operator, left, right, after, l, r, -, -, -, hfault⟩
    rcases h.code with ⟨first, i, rest, c', hcode, hlength, hrun, heffect⟩
    have hbeside := Formula.storesBeside hdata hheld (hcode ▸ List.subset_append_left first _)
    have hinput : ∀ j ∈ first, j.opcode ≠ .input := fun j hj =>
      Formula.not_input_of_mem_code (hcode ▸ List.mem_append_left _ hj)
    rw [hcode] at hheld hmax hbeside
    rw [List.length_append] at hmax
    rcases Straight.failsAt (hcode ▸ hsteps.straight) hinput hat hheld hbeside hmin (by omega) hrun
      heffect with ⟨m', tick, hfails⟩
    rw [hlength] at hfails
    refine ⟨?_, before, m', tick, h.stops, hfails⟩
    rcases BinaryOperator.compute_error hfault with ⟨-, -, hzero⟩ | ⟨-, hover⟩
    · exact Or.inl hzero
    · exact Or.inr hover

/-- The expression `a * 2 + 8 / b`. -/
def productAndQuotient : Expression where
  tokens := [(.operand (.name "a"), ⟨0, 1⟩), (.operator .multiply, ⟨2, 3⟩),
    (.operand (.literal "2" 2), ⟨4, 5⟩), (.operator .add, ⟨6, 7⟩),
    (.operand (.literal "8" 8), ⟨8, 9⟩), (.operator .divide, ⟨10, 11⟩),
    (.operand (.name "b"), ⟨12, 13⟩)]
  span := ⟨0, 13⟩

/-- Its tree. -/
def productAndQuotientTree : Formula :=
  .binary .add (.binary .multiply (.operand (.name "a")) (.operand (.literal "2" 2)))
    (.binary .divide (.operand (.literal "8" 8)) (.operand (.name "b")))

/-- Its code. -/
def productAndQuotientCode : List Instruction :=
  [⟨.read, 1000⟩, ⟨.multiply, 998⟩, ⟨.write, 1000⟩, ⟨.read, 997⟩, ⟨.divide, 999⟩, ⟨.write, 997⟩,
    ⟨.read, 1000⟩, ⟨.add, 997⟩, ⟨.write, 1000⟩]

/-- The table behind it. -/
def productAndQuotientTable : SymbolTable :=
  (twoVariables.fresh "2" 2 .literal).fresh "8" 8 .literal

/-- The cells of its operands. -/
def productAndQuotientCell (o : Operand) : Int :=
  if o = .name "a" then 1000 else if o = .name "b" then 999
  else if o = .literal "2" 2 then 998 else 997

/-- The numbers in them, for a number that `b` has. -/
def productAndQuotientNumber (b : Int) (o : Operand) : Int :=
  if o = .name "a" then -7 else if o = .name "b" then b else if o = .literal "2" 2 then 2 else 8

/-- A program that computes it. -/
def productAndQuotientImage (b : Int) : Image :=
  .ofParts productAndQuotientCode
    [⟨.data (-7), 1000⟩, ⟨.data b, 999⟩, ⟨.data 2, 998⟩, ⟨.data 8, 997⟩]

/-- With -3 for `b` the quotient is rounded down to -3. With 0 the product has a value, and the
    program stops at the second operator. -/
theorem productAndQuotient_computes :
    (expression productAndQuotient ⟨0, 13⟩).run twoVariables
      = .ok ((1000, productAndQuotientCode), productAndQuotientTable) ∧
    (∃ m', Machine.runFor 9 (.load (productAndQuotientImage (-3)) [] none) = (m', none) ∧
      m'.pc = 9 ∧ m'.path.memory.read 1000 = some (.data (-17))) ∧
    ∃ m' tick, Machine.runFor 5 (.load (productAndQuotientImage 0) [] none)
      = (m', some ⟨.divisionByZero, 4, tick⟩) := by
  have hlowered : (expression productAndQuotient ⟨0, 13⟩).run twoVariables
      = .ok ((1000, productAndQuotientCode), productAndQuotientTable) := rfl
  have hreads : productAndQuotient.Reads productAndQuotientTree :=
    ⟨rfl, .add (.ofProduct (.multiply (.ofFactor (.operand _)) (.operand _)))
      (.divide (.ofFactor (.operand _)) (.operand _))⟩
  have hat : ∀ b, (Machine.load (productAndQuotientImage b) [] none).At 0
      (Machine.load (productAndQuotientImage b) [] none).core := fun b => ⟨rfl, rfl, rfl, rfl⟩
  have hdata : ∀ b, ∀ o ∈ productAndQuotientTree.operands,
      (Machine.load (productAndQuotientImage b) [] none).core.memory.read
        (productAndQuotientCell o) = some (.data (productAndQuotientNumber b o)) := by
    intro b
    simp [productAndQuotientTree, Formula.operands, productAndQuotientCell,
      productAndQuotientNumber, Machine.load, Machine.core, DataPath.core, DataPath.start,
      productAndQuotientImage, Image.ofParts, Image.codeCells, productAndQuotientCode,
      Memory.ofCells]
  have hheld : ∀ b, (Machine.load (productAndQuotientImage b) [] none).core.memory.HoldsAt
      productAndQuotientCode 0 := by
    intro b
    refine Fragment.forall_of_zipIdx ?_
    simp [Machine.load, Machine.core, DataPath.core, DataPath.start, productAndQuotientImage,
      Image.ofParts, Image.codeCells, productAndQuotientCode, Memory.ofCells]
  have hruns : ∀ b, _ := fun b => expression_computes hreads hlowered (by decide) (by decide)
    (hat b) (hdata b) (hheld b) (by decide) (by decide)
  refine ⟨hlowered, ?_, ?_⟩
  · have hvalue : productAndQuotientTree.value (productAndQuotientNumber (-3)) = .ok (-17) := by
      decide
    have hok := hruns (-3)
    rw [hvalue] at hok
    rcases hok with ⟨m', c', hpass, hat', hread, -⟩
    rw [← hat'.core_eq] at hread
    exact ⟨m', hpass.runFor_eq, hat'.pc_eq, hread⟩
  · have hvalue : productAndQuotientTree.value (productAndQuotientNumber 0)
        = .error .divisionByZero := by decide
    have herror := hruns 0
    rw [hvalue] at herror
    rcases herror with ⟨-, before, m', tick, hstops, hfails⟩
    have hproduct : productAndQuotientTree.Stops (productAndQuotientNumber 0)
        [.binary .multiply (.operand (.name "a")) (.operand (.literal "2" 2))]
        .divisionByZero := by
      refine ⟨fun g hg => ⟨-14, ?_⟩, .divide, _, _, [productAndQuotientTree], 8, 0, rfl, by decide,
        by decide, by decide⟩
      rw [List.mem_singleton.mp hg]
      decide
    have hlast := hfails 0
    rw [hstops.length_eq hproduct] at hlast
    exact ⟨m', tick, hlast⟩

end Lowering

end AccumulatorMachine
