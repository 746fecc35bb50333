import AccumulatorMachine.Json.Problem
import AccumulatorMachine.Text.Span

/-!
# JSON String Literals

What stands between the quotes of a JSON string.

A literal is scanned into pieces first: characters, and the code units that `\u` escapes
give. Joining the pieces into a text is a step of its own, because a reader that only skips a
string never takes it. Code units above the basic plane come in pairs there, and a half of a
pair alone is an error that the skipping reader does not see.

## Main definitions

* `Json.Piece`: A character or a code unit.
* `Json.scanString`: The pieces up to the closing quote, and what follows it.
* `Json.joinPieces`: The text that the pieces spell.

## Theorems

* `Json.length_scanString_lt`: What follows a literal is shorter than the text.
-/

namespace AccumulatorMachine

namespace Json

/-- A part of a string literal. -/
inductive Piece where
  | char (c : Char)
  /-- A 16-bit code unit. -/
  | unit (code : Nat)
  deriving DecidableEq, Repr

/-- The value of a hexadecimal digit in either case. -/
def hexDigit? (c : Char) : Option Nat :=
  if '0' ≤ c ∧ c ≤ '9' then some (c.toNat - '0'.toNat)
  else if 'a' ≤ c ∧ c ≤ 'f' then some (c.toNat - 'a'.toNat + 10)
  else if 'A' ≤ c ∧ c ≤ 'F' then some (c.toNat - 'A'.toNat + 10)
  else none

/-- The code unit that four hexadecimal digits give. -/
def codeUnit? (a b c d : Char) : Option Nat := do
  return (((← hexDigit? a) * 16 + (← hexDigit? b)) * 16 + (← hexDigit? c)) * 16 + (← hexDigit? d)

/-- The character that a letter after a backslash stands for. -/
def escaped? : Char → Option Char
  | '"' => some '"'
  | '\\' => some '\\'
  | '/' => some '/'
  | 'b' => some '\x08'
  | 'f' => some '\x0c'
  | 'n' => some '\n'
  | 'r' => some '\r'
  | 't' => some '\t'
  | _ => none

/-- What is wrong with a code unit whose digits are not all there: the text ends too early if it
    has fewer than four bytes left, whatever they are. -/
def codeUnitProblem (text : List Char) : Problem :=
  if Text.byteLength text < 4 then .cutOff else .malformed

/-- The pieces of a string literal after its opening quote, up to the closing quote or to the
    first problem, and the text after the closing quote. -/
def scanString : List Char → List Piece × Except Problem (List Char)
  | [] => ([], .error .cutOff)
  | '"' :: text => ([], .ok text)
  | '\\' :: text =>
    match text with
    | [] => ([], .error .cutOff)
    | 'u' :: a :: b :: c :: d :: text =>
      match codeUnit? a b c d with
      | some code => let (pieces, stop) := scanString text; (.unit code :: pieces, stop)
      | none => ([], .error .malformed)
    | c :: text =>
      -- An escape that gets here with a `u` has fewer than four characters after it.
      if c = 'u' then ([], .error (codeUnitProblem text))
      else match escaped? c with
        | some c => let (pieces, stop) := scanString text; (.char c :: pieces, stop)
        | none => ([], .error .malformed)
  | c :: text =>
    if c.toNat < 0x20 then ([], .error .malformed)
    else let (pieces, stop) := scanString text; (.char c :: pieces, stop)

/-- Whether a code unit is the first half of a pair. -/
def isHighHalf (code : Nat) : Bool := 0xD800 ≤ code && code < 0xDC00

/-- Whether a code unit is the second half of a pair. -/
def isLowHalf (code : Nat) : Bool := 0xDC00 ≤ code && code < 0xE000

/-- The character that a pair of code units stands for. -/
def pairedChar (high low : Nat) : Char :=
  Char.ofNat (0x10000 + (high - 0xD800) * 0x400 + (low - 0xDC00))

/-- The text that pieces spell. `stop` says how the literal ends. A first half at the end of the
    pieces is cut off if the literal is, and is an error by itself if the literal is closed. -/
def joinPieces (stop : Except Problem (List Char)) : List Piece → Except Problem (List Char)
  | [] => stop.map fun _ => []
  | .char c :: pieces => (joinPieces stop pieces).map (c :: ·)
  | .unit code :: pieces =>
    if isLowHalf code then .error .malformed
    else if isHighHalf code then
      -- The second half has to follow at once, as an escape of its own.
      match pieces with
      | .unit low :: pieces =>
        if isLowHalf low then (joinPieces stop pieces).map (pairedChar code low :: ·)
        else .error .malformed
      | .char _ :: _ => .error .malformed
      | [] => match stop with
        | .ok _ => .error .malformed
        | .error problem => .error problem
    else (joinPieces stop pieces).map (Char.ofNat code :: ·)

theorem length_scanString_lt {text rest : List Char} (h : (scanString text).2 = .ok rest) :
    rest.length < text.length := by
  fun_induction scanString text <;> simp_all <;> omega

end Json

end AccumulatorMachine
