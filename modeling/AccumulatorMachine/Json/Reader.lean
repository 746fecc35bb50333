import AccumulatorMachine.Json.Lexeme

/-!
# Reading JSON Values

A value from a list of lexemes, by a machine that takes one lexeme at a time.

The state of the machine is what it expects next and the stack of containers that are open.
A step looks at one lexeme and at the top of the stack only, so the whole reading is a plain
recursion along the list and needs no bound on the depth of a value. There is a bound all the
same, because the format has one: a value that is read may not nest deeper than
`Reader.depthLimit`. A value that is skipped may.

## Main definitions

* `Json.Purpose`: Whether a value is read or skipped.
* `Json.Reader`: The state between two lexemes.
* `Json.Reader.step`: What a lexeme does to the state.
* `Json.value`: The value at the front of a list of lexemes.

## Theorems

* `Json.length_value_lt`: What follows a value is shorter than the list.
-/

namespace AccumulatorMachine

namespace Json

/-- What a value is wanted for. -/
inductive Purpose where
  /-- The value itself is wanted. -/
  | read
  /-- The value is only passed over. -/
  | skip
  deriving DecidableEq, Repr

/-- A container that is open. The parts that are complete are kept newest first. -/
inductive Frame where
  | array (items : List Value)
  /-- The complete fields, and the key of the field that comes next. -/
  | object (fields : List (String × Value)) (key : String)

/-- What may come next. -/
inductive Expectation where
  | value
  /-- The first item of an array, or its end. -/
  | itemOrEnd
  /-- The first key of an object, or its end. -/
  | keyOrEnd
  | key
  | colon
  /-- The separator before another part of a container, or the end of the container. -/
  | commaOrEnd
  deriving DecidableEq, Repr

/-- The state of reading between two lexemes, with the innermost open container first. -/
structure Reader where
  purpose : Purpose
  expectation : Expectation
  stack : List Frame

/-- What a lexeme leads to. -/
inductive Progress where
  | more (reader : Reader)
  | done (value : Value)

namespace Reader

/-- The greatest number of containers inside each other in a value that is read. -/
def depthLimit : Nat := 126

/-- Hands a complete value to the innermost container. -/
def deliver (purpose : Purpose) (value : Value) : List Frame → Progress
  | [] => .done value
  | .array items :: stack => .more ⟨purpose, .commaOrEnd, .array (value :: items) :: stack⟩
  | .object fields key :: stack =>
    .more ⟨purpose, .commaOrEnd, .object ((key, value) :: fields) key :: stack⟩

/-- Opens a container. -/
def enter (purpose : Purpose) (frame : Frame) (expectation : Expectation) (stack : List Frame) :
    Except Problem Progress :=
  if purpose = .read ∧ depthLimit ≤ stack.length then .error .malformed
  else .ok (.more ⟨purpose, expectation, frame :: stack⟩)

/-- Starts a value with a lexeme. -/
def start (purpose : Purpose) (stack : List Frame) : Lexeme → Except Problem Progress
  | .scalar value skipped => match purpose with
    | .read => value.map fun value => deliver .read value stack
    | .skip => skipped.map fun _ => deliver .skip .null stack
  | .string text skipped => match purpose with
    | .read => text.map fun text => deliver .read (.string text) stack
    | .skip => skipped.map fun _ => deliver .skip .null stack
  | .openArray => enter purpose (.array []) .itemOrEnd stack
  | .openObject => enter purpose (.object [] "") .keyOrEnd stack
  | _ => .error .malformed

/-- Takes the key of a field. -/
def takeKey (purpose : Purpose) (fields : List (String × Value)) (stack : List Frame) :
    Lexeme → Except Problem Progress
  | .string text skipped => match purpose with
    | .read => text.map fun key => .more ⟨.read, .colon, .object fields key :: stack⟩
    | .skip => skipped.map fun _ => .more ⟨.skip, .colon, .object fields "" :: stack⟩
  | _ => .error .malformed

/-- What a lexeme does to the state. -/
def step (reader : Reader) (lexeme : Lexeme) : Except Problem Progress :=
  let ⟨purpose, expectation, stack⟩ := reader
  match expectation, stack, lexeme with
  | .value, stack, lexeme => start purpose stack lexeme
  | .itemOrEnd, .array items :: stack, .closeArray =>
    .ok (deliver purpose (.array items.reverse) stack)
  | .itemOrEnd, stack, lexeme => start purpose stack lexeme
  | .keyOrEnd, .object fields _ :: stack, .closeObject =>
    .ok (deliver purpose (.object fields.reverse) stack)
  | .keyOrEnd, .object fields _ :: stack, lexeme => takeKey purpose fields stack lexeme
  | .key, .object fields _ :: stack, lexeme => takeKey purpose fields stack lexeme
  | .colon, stack, .colon => .ok (.more ⟨purpose, .value, stack⟩)
  | .commaOrEnd, .array items :: stack, .comma =>
    .ok (.more ⟨purpose, .value, .array items :: stack⟩)
  | .commaOrEnd, .array items :: stack, .closeArray =>
    .ok (deliver purpose (.array items.reverse) stack)
  | .commaOrEnd, .object fields key :: stack, .comma =>
    .ok (.more ⟨purpose, .key, .object fields key :: stack⟩)
  | .commaOrEnd, .object fields _ :: stack, .closeObject =>
    .ok (deliver purpose (.object fields.reverse) stack)
  | _, _, _ => .error .malformed

/-- Takes lexemes until a value is complete, and returns what follows it. -/
def run : Reader → List Lexeme → Except Problem (Value × List Lexeme)
  | _, [] => .error .cutOff
  | reader, lexeme :: rest =>
    match reader.step lexeme with
    | .error problem => .error problem
    | .ok (.done value) => .ok (value, rest)
    | .ok (.more reader) => run reader rest

theorem length_run_lt {reader : Reader} {text rest : List Lexeme} {value : Value}
    (h : run reader text = .ok (value, rest)) : rest.length < text.length := by
  fun_induction run reader text <;> grind

end Reader

/-- The value at the front of a list of lexemes, and what follows it. -/
def value (purpose : Purpose) (text : List Lexeme) : Except Problem (Value × List Lexeme) :=
  Reader.run ⟨purpose, .value, []⟩ text

theorem length_value_lt {purpose : Purpose} {text rest : List Lexeme} {result : Value}
    (h : value purpose text = .ok (result, rest)) : rest.length < text.length :=
  Reader.length_run_lt h

end Json

end AccumulatorMachine
