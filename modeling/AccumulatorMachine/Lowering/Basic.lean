import AccumulatorMachine.Lowering.Error
import AccumulatorMachine.Source.Statement
import AccumulatorMachine.SymbolTable

/-!
# Lowering

The setting in which statements become instructions.

All jumps of the generated code are relative and all cells are named by absolute addresses, so
the code of a statement does not depend on where it will stand. What it depends on is the
symbol table alone. Lowering is therefore a computation on a symbol table that returns code,
and the code of a program is the code of its statements side by side.

## Main definitions

* `Lowering`: A computation on a symbol table that may fail.
* `Lowering.allocating`: An allocation on behalf of a statement.
* `Lowering.resolve`: The address of a bound name.
* `Lowering.operandAddress`: The address of a name or a literal.
-/

namespace AccumulatorMachine

/-- A computation on a symbol table that may fail. -/
abbrev LoweringBy (c : Countdown) : Type → Type := StateT (SymbolTable c) (Except CompileError)

/-- Such a computation if the addresses never run out. -/
abbrev Lowering : Type → Type := LoweringBy .unbounded

namespace Lowering

variable {c : Countdown}

/-- Allocates on behalf of the text at a span, which takes the blame for a reserved address. -/
def allocating {α : Type} (span : Span) (computation : SymbolTable.AllocatingBy c α) :
    LoweringBy c α :=
  fun table => match computation.runOn table with
  | (.ok a, table) => .ok (a, table)
  | (.error e, _) => .error (.atSpan (.reservedAddress e.address) span)

/-- The address of a name. A name that is not bound fails with the closest one that is. -/
def resolve (name : String) (span : Span) : LoweringBy c Int := do
  let table ← get
  match table.addressOf? name with
  | some address => return address
  | none => throw (.atSpan (.unboundIdentifier name (table.suggest name)) span)

/-- The address of a literal, which gets a cell when it is first used. -/
def literal (spelling : String) (value : Int) (span : Span) : LoweringBy c Int :=
  allocating span (SymbolTable.declareLiteral spelling value)

/-- The address of an operand. -/
def operandAddress (operand : Operand) (span : Span) : LoweringBy c Int :=
  match operand with
  | .name name => resolve name span
  | .literal spelling value => literal spelling value span

end Lowering

end AccumulatorMachine
