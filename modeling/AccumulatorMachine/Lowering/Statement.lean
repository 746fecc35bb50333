import AccumulatorMachine.Lowering.Expression
import AccumulatorMachine.Lowering.Loops

/-!
# Lowering Statements

The code of every statement, as a list of blocks.

The jumps of a loop are computed from the number of its statements and not from the length of
its code. They are right exactly if the body has four instructions more than it has statements,
so a statement in a loop that comes to another number of instructions than one is worth a
diagnostic. So is the declaration of a name that is bound already, which has no effect.

The loops that read and print strings are code of a fixed shape. They count in a scratch cell
of their own and take their zero and one from the cells of these literals.

## Main definitions

* `Diagnostic`: A finding that does not stop the compilation.
* `Block`: The code of a statement.
* `Lowering.statement`: The block of a statement.
* `Lowering.statements`: The blocks of a program.
-/

namespace AccumulatorMachine

/-- What a diagnostic is about. -/
inductive Diagnostic.Kind where
  /-- A statement in a loop has another number of instructions than one. -/
  | loopBodyExpansion (instructions : Nat)
  /-- A declared name is bound already, and keeps its address. -/
  | redeclaration (name : String) (address : Int)
  deriving DecidableEq, Repr

/-- A finding that does not stop the compilation. -/
structure Diagnostic where
  kind : Diagnostic.Kind
  span : Span
  deriving DecidableEq, Repr

namespace Diagnostic

/-- The wording of a finding. -/
def message (d : Diagnostic) : String :=
  match d.kind with
  | .loopBodyExpansion instructions =>
    "loop body statement compiles to " ++ Decimal.ofNat instructions
      ++ " instructions, loop jump offsets assume one"
  | .redeclaration name address =>
    "'" ++ name ++ "' is already bound to address " ++ Decimal.ofInt address
      ++ ", declaration ignored"

/-- The wording of a finding after its line and column in a source text. -/
def verbose (d : Diagnostic) (source : List Char) : String :=
  (Position.ofOffset source d.span.start).render ++ ": " ++ d.message

end Diagnostic

/-- The code of a statement. -/
structure Block where
  /-- The span of the statement. -/
  span : Span
  code : List Instruction
  /-- Whether the statement stands in a loop. -/
  inLoop : Bool
  /-- The name and address of a declaration that was ignored. -/
  redeclared : Option (String × Int)
  deriving DecidableEq, Repr

namespace Block

/-- The findings about a statement. -/
def diagnostics (block : Block) : List Diagnostic :=
  let redeclaration := block.redeclared.toList.map fun (name, address) =>
    ⟨.redeclaration name address, block.span⟩
  let expansion := if block.inLoop ∧ block.code.length ≠ 1 then
    [⟨.loopBodyExpansion block.code.length, block.span⟩] else []
  redeclaration ++ expansion

end Block

namespace Lowering

variable {c : Countdown}

/-- What a loop of `count` statements starts with: the comparison, and the jump to its exit. The
    operand of a skip has no effect, and is the next free address. -/
def loopHead (comparison : Comparison) (left right cursor : Int) (count : Nat) :
    List Instruction :=
  [⟨.read, left⟩, ⟨.subtract, right⟩, ⟨comparison.skipOpCode, cursor⟩,
    -- The exit passes the body and the jump at its end, `count + 3` instructions by the rule.
    ⟨.jump, count + 4⟩]

/-- What a loop of `count` statements ends with: the jump to its start. -/
def loopEnd (count : Nat) : List Instruction :=
  [⟨.jump, -(count + 6)⟩]

/-- The loop that reads and echoes characters. The read itself jumps out of the loop when the
    input is exhausted. -/
def inputStrCode (zero cursor : Int) : List Instruction :=
  [⟨.read, zero⟩, ⟨.write, counterCell⟩,
    -- The counter keeps the value it starts with, so the first jump is never taken.
    ⟨.read, counterCell⟩, ⟨.subtract, zero⟩, ⟨.skip .zero false, cursor⟩, ⟨.jump, 5⟩,
    -- Without input the read moves on by its operand and one more, which is behind the loop.
    ⟨.input, 3⟩, ⟨.write, bufferCell⟩, ⟨.output, characterMode⟩, ⟨.jump, -7⟩]

/-- The loop that prints the characters below the cell of a string, as many as that cell
    says. -/
def outputStrCode (zero one string cursor : Int) : List Instruction :=
  [⟨.read, zero⟩, ⟨.write, counterCell⟩,
    -- While the counter is less than the length there is a character to print.
    ⟨.read, counterCell⟩, ⟨.subtract, string⟩, ⟨.skip .signed false, cursor⟩, ⟨.jump, 9⟩,
    ⟨.read, counterCell⟩, ⟨.add, one⟩, ⟨.write, counterCell⟩,
    -- The characters lie below the length, the first one next to it.
    ⟨.readAddress, string⟩, ⟨.subtract, counterCell⟩, ⟨.writeAddress, 0⟩,
    ⟨.output, characterMode⟩, ⟨.jump, -11⟩]

/-- The declaration that had no effect, if there is one. -/
def ignored (name : String) : Allocation → Option (String × Int)
  | .fresh _ => none
  | .existing address => some (name, address)

/-- The code of a statement that starts or ends no loop, and its declaration if that had no
    effect. -/
def form (span : Span) :
    Statement.Form → LoweringBy c (List Instruction × Option (String × Int))
  | .int name value => do
    return ([], ignored name (← allocating span (SymbolTable.declareInt name value)))
  | .string name text => do
    return ([], ignored name (← allocating span (SymbolTable.declareString name text)))
  | .new name e => do
    let (address, code) ← expression e span
    modify fun table => table.bind name address
    return (code, none)
  | .inputInt name => do
    let address ← allocating span (SymbolTable.allocateSlot name)
    return ([⟨.input, integerMode⟩, ⟨.write, address⟩], none)
  | .outputInt name => do
    let address ← resolve name span
    return ([⟨.read, address⟩, ⟨.output, integerMode⟩], none)
  | .inputStr => do
    let zero ← literal "0" 0 span
    let _ ← literal "1" 1 span
    return (inputStrCode zero (← get).cursor, none)
  | .outputStr name => do
    let zero ← literal "0" 0 span
    let one ← literal "1" 1 span
    let string ← resolve name span
    return (outputStrCode zero one string (← get).cursor, none)
  | .loop .. => return ([], none)
  | .endLoop => return ([], none)

/-- The block of a statement, and the sizes of the loops that are open after it. `index` is the
    place of the statement in its program and `opened` has the sizes of the loops it stands in, the
    innermost one first. -/
def statement (pairs : LoopPairs) (index : Nat) (opened : List Nat) (s : Statement) :
    LoweringBy c (Block × List Nat) := do
  let inLoop := !opened.isEmpty
  match s.form with
  | .loop left comparison right =>
    match pairs.endOf? index with
    | none => throw (.atSpan .unclosedLoop s.span)
    | some stop =>
      -- Both the start and the end of the loop count among its statements.
      let count := stop - index + 1
      let left ← operandAddress left s.span
      let right ← operandAddress right s.span
      let code := loopHead comparison left right (← get).cursor count
      return (⟨s.span, code, inLoop, none⟩, count :: opened)
  | .endLoop =>
    match opened with
    | [] => throw (.atSpan .unmatchedEndLoop s.span)
    | count :: opened => return (⟨s.span, loopEnd count, inLoop, none⟩, opened)
  | f =>
    let (code, redeclared) ← form s.span f
    return (⟨s.span, code, inLoop, redeclared⟩, opened)

/-- The blocks of statements that are counted from `index` upwards. -/
def statements (pairs : LoopPairs) (index : Nat) (opened : List Nat) :
    List Statement → LoweringBy c (List Block)
  | [] => return []
  | s :: rest => do
    let (block, opened) ← statement pairs index opened s
    return block :: (← statements pairs (index + 1) opened rest)

end Lowering

end AccumulatorMachine
