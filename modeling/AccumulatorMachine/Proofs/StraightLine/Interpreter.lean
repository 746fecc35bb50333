import Mathlib.Data.List.Forall2
import AccumulatorMachine.Machine.Control
import AccumulatorMachine.Proofs.Formula
import AccumulatorMachine.Source.Program

/-!
# Straight-Line Interpretation

What a program without loops and without string I/O means, with no machine and no code.

The interpreter keeps the addresses of names and the numbers in cells. The two are separate because
names share cells: `new` binds its name to the cell of the first operand of its expression, and
every operator on the way overwrites the cell of its left side. So computing with a name changes
what other names say. A literal is no exception. It gets a cell when it is first used, all its uses
share it, and an operator may overwrite it.

Cells are created downwards from a base. A declaration creates cells only if its name is not bound
yet, while reading an integer always creates one.

## Main definitions

* `BinaryOperator.compute`: What an operator makes of two numbers.
* `StraightLine.State`: Names, cells and output.
* `StraightLine.Stop`: Why the interpreter stops early.
* `Formula.eval`: The meaning of a formula.
* `StraightLine.Sentence`: A statement whose expression has been read as a formula.
* `StraightLine.Sentence.exec`, `StraightLine.run`: The meaning of statements.
* `Program.StraightLine`: The programs that have a meaning here.
* `Program.Denotes`: The statements of a program, with their expressions read by precedence.

## Theorems

* `Program.StraightLine.denotes`: Every straight-line program can be read.
-/

namespace AccumulatorMachine

namespace BinaryOperator

/-- The exact result of an operator. A quotient is rounded down. -/
def value (operator : BinaryOperator) (x y : Int) : Int :=
  match operator with
  | add => x + y
  | subtract => x - y
  | multiply => x * y
  | divide => x.fdiv y

/-- The result of an operator. There is none for a division by zero, and none that is not a
    word. -/
def compute (operator : BinaryOperator) (x y : Int) : Except Fault Int :=
  if operator = divide ∧ y = 0 then .error .divisionByZero
  else if Word.InRange (operator.value x y) then .ok (operator.value x y)
  else .error .arithmeticOverflow

end BinaryOperator

namespace StraightLine

/-- Why the interpreter stops before the end. -/
inductive Stop where
  | fault (fault : Fault)
  /-- A name is used that is not bound. -/
  | unbound (name : String)
  /-- A cell is used that does not exist. -/
  | vacant (address : Int)
  deriving DecidableEq, Repr

/-- Names, cells and output. -/
structure State where
  /-- The addresses of names. Literals are names too, under their spellings. -/
  names : String → Option Int
  cells : Int → Option Int
  /-- The address of the next cell that is created. -/
  next : Int
  output : String

namespace State

/-- Nothing is bound, and the first cell will be at a base. -/
def start (base : Int) : State := ⟨fun _ => none, fun _ => none, base, ""⟩

/-- The state with a name bound to an address. -/
def bind (s : State) (name : String) (address : Int) : State :=
  { s with names := fun other => if other = name then some address else s.names other }

/-- The state with a number in a cell. -/
def set (s : State) (address value : Int) : State :=
  { s with cells := fun other => if other = address then some value else s.cells other }

/-- The state with one more cell. -/
def create (s : State) (value : Int) : State := { s.set s.next value with next := s.next - 1 }

/-- The state with a name bound to one more cell. -/
def declare (s : State) (name : String) (value : Int) : State := (s.create value).bind name s.next

/-- The address of a name. -/
def address (s : State) (name : String) : Except Stop Int :=
  match s.names name with
  | some address => .ok address
  | none => .error (.unbound name)

/-- The number in a cell. -/
def value (s : State) (address : Int) : Except Stop Int :=
  match s.cells address with
  | some value => .ok value
  | none => .error (.vacant address)

/-- The address of an operand. A literal gets a cell when it is first used. -/
def locate (s : State) (operand : Operand) : Except Stop (Int × State) :=
  match operand with
  | .name name => do return (← s.address name, s)
  | .literal spelling value =>
    match s.names spelling with
    | some address => .ok (address, s)
    | none => .ok (s.next, s.declare spelling value)

/-- Applies an operator to two cells. The result overwrites the left one. -/
def operate (s : State) (operator : BinaryOperator) (left right : Int) : Except Stop State := do
  let x ← s.value left
  let y ← s.value right
  let result ← (operator.compute x y).mapError .fault
  return s.set left result

end State

end StraightLine

open StraightLine

/-- The cell of a formula and what evaluating it does to the state. The cell of an operator is that
    of its left side. -/
def Formula.eval : Formula → State → Except Stop (Int × State)
  | operand o, s => s.locate o
  | binary operator left right, s => do
    let (a, s) ← left.eval s
    let (b, s) ← right.eval s
    let s ← s.operate operator a b
    return (a, s)
  | paren body, s => body.eval s

namespace StraightLine

/-- A statement whose expression has been read as a formula. -/
inductive Sentence where
  | int (name : String) (value : Int)
  | string (name text : String)
  | new (name : String) (formula : Formula)
  | inputInt (name : String)
  | outputInt (name : String)
  deriving DecidableEq, Repr

namespace Sentence

/-- What a statement does, given the input that has not been consumed. Integers are read from all
    of it and consume nothing. -/
def exec (input : List Char) : Sentence → State → Except Stop State
  | int name value, s =>
    match s.names name with
    | some _ => .ok s
    | none => .ok (s.declare name value)
  | string name text, s =>
    match s.names name with
    | some _ => .ok s
    | none =>
      -- The length comes first, and the characters lie below it.
      .ok (text.toList.foldl (fun s c => s.create c.toNat) (s.declare name text.toList.length))
  | new name formula, s => do
    let (address, s) ← formula.eval s
    return s.bind name address
  | inputInt name, s =>
    match inputInteger? input with
    | some value => .ok (s.declare name value)
    | none => .error (.fault (.invalidIntegerInput input))
  | outputInt name, s => do
    let value ← s.value (← s.address name)
    return { s with output := s.output ++ Decimal.ofInt value }

/-- The readings of a statement. -/
inductive Reads : Statement.Form → Sentence → Prop
  | int (name : String) (value : Int) : Reads (.int name value) (int name value)
  | string (name text : String) : Reads (.string name text) (string name text)
  | new {e : Expression} {f : Formula} (name : String) (h : e.Reads f) :
      Reads (.new name e) (new name f)
  | inputInt (name : String) : Reads (.inputInt name) (inputInt name)
  | outputInt (name : String) : Reads (.outputInt name) (outputInt name)

end Sentence

/-- Runs statements that are counted from `index` upwards. If one of them stops the run, its index
    is returned as well. -/
def run (input : List Char) (index : Nat) : List Sentence → State → Except (Nat × Stop) State
  | [], s => .ok s
  | t :: rest, s =>
    match t.exec input s with
    | .ok s => run input (index + 1) rest s
    | .error stop => .error (index, stop)

end StraightLine

/-- A statement without loops and string I/O, whose expression is an infix expression. -/
def Statement.Form.StraightLine : Statement.Form → Prop
  | .int .. | .string .. | .inputInt _ | .outputInt _ => True
  | .new _ e => e.Infix
  | .loop .. | .endLoop | .inputStr | .outputStr _ => False

theorem Statement.Form.StraightLine.reads {f : Statement.Form} (h : f.StraightLine) :
    ∃ t, Sentence.Reads f t := by
  cases f with
  | int name value => exact ⟨_, .int name value⟩
  | string name text => exact ⟨_, .string name text⟩
  | new name e =>
    rcases Expression.Infix.reads h with ⟨formula, hreads⟩
    exact ⟨_, .new name hreads⟩
  | inputInt name => exact ⟨_, .inputInt name⟩
  | outputInt name => exact ⟨_, .outputInt name⟩
  | loop | endLoop | inputStr | outputStr => exact absurd h id

namespace Program

/-- A program of such statements. -/
def StraightLine (program : Program) : Prop := ∀ s ∈ program.statements, s.form.StraightLine

/-- The statements of a program, with their expressions read by precedence. -/
def Denotes (program : Program) (sentences : List Sentence) : Prop :=
  List.Forall₂ (fun s t => Sentence.Reads s.form t) program.statements sentences

/-- Every straight-line program can be read. -/
theorem StraightLine.denotes {program : Program} (h : program.StraightLine) :
    ∃ sentences, program.Denotes sentences := by
  obtain ⟨statements⟩ := program
  induction statements with
  | nil => exact ⟨[], .nil⟩
  | cons s rest ih =>
    rcases (h s List.mem_cons_self).reads with ⟨t, ht⟩
    rcases ih fun other hother => h other (List.mem_cons_of_mem s hother) with ⟨ts, hts⟩
    exact ⟨t :: ts, .cons ht hts⟩

end Program

end AccumulatorMachine
