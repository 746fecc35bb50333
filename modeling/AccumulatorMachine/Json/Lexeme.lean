import AccumulatorMachine.Json.Numeral
import AccumulatorMachine.Json.StringLiteral
import AccumulatorMachine.Json.Value

/-!
# JSON Lexemes

A JSON text as a list of lexemes: brackets, separators and scalar values.

White space is gone at this level, so whatever is said about a text through its lexemes holds
for every layout of it. A lexeme that is a scalar carries two results, because a text may be
read or skipped. To read it is to ask for its value, and to skip it is only to pass over it,
which is more lenient: a lone half of a pair of code units and a number beyond the range of
doubles have no value but can be passed over. A numeral that the end of the text cuts off is
malformed for a reader that skips, and cut off for one that reads.

The list ends at the first lexeme that cannot even be passed over. Its problem counts only if
a reader gets there and can use a scalar, since anywhere else it is out of place whatever it
is.

## Main definitions

* `Json.Lexeme`: A bracket, a separator or a scalar.
* `Json.lexemes`: The lexemes of a text.
-/

namespace AccumulatorMachine

namespace Json

/-- A lexical unit of a JSON text. -/
inductive Lexeme where
  | openObject
  | closeObject
  | openArray
  | closeArray
  | colon
  | comma
  /-- A string, with the results of reading it and of skipping it. -/
  | string (text : Except Problem String) (skipped : Except Problem Unit)
  /-- A number or a word, with the results of reading it and of skipping it. -/
  | scalar (value : Except Problem Value) (skipped : Except Problem Unit)

namespace Lexeme

/-- A scalar that can neither be read nor skipped. -/
def broken (problem : Problem) : Lexeme := scalar (.error problem) (.error problem)

/-- The string at the front of a text after its opening quote, and what follows it unless the
    string never ends. -/
def ofString (text : List Char) : Lexeme × Option (List Char) :=
  let (pieces, stop) := scanString text
  (string ((joinPieces stop pieces).map String.ofList) (stop.map fun _ => ()), stop.toOption)

/-- The value of a numeral within the range of doubles. -/
def numeralValue (numeral : Numeral) : Except Problem Value :=
  if numeral.inDoubleRange then
    .ok (match numeral.integer? with
      | some n => .integer n
      | none => .real)
  else .error .malformed

/-- The number at the front of a text, and what follows it. -/
def ofNumeral (text : List Char) : Lexeme × Option (List Char) :=
  match Numeral.scan text with
  | .ok (numeral, rest) => (scalar (numeralValue numeral) (.ok ()), some rest)
  | .error .cutOff => (scalar (.error .cutOff) (.error .malformed), none)
  | .error .malformed => (broken .malformed, none)

/-- What follows a word at the front of a text. -/
def afterWord : List Char → List Char → Except Problem (List Char)
  | [], text => .ok text
  | _ :: _, [] => .error .cutOff
  | c :: word, d :: text => if c = d then afterWord word text else .error .malformed

/-- The scalar that a word stands for, and what follows it. -/
def ofWord (word : List Char) (value : Value) (text : List Char) : Lexeme × Option (List Char) :=
  match afterWord word text with
  | .ok rest => (scalar (.ok value) (.ok ()), some rest)
  | .error problem => (broken problem, none)

/-- The lexeme that starts with `c`, and what follows it unless it ends the list. -/
def first (c : Char) (text : List Char) : Lexeme × Option (List Char) :=
  match c with
  | '\x7b' => (openObject, some text)
  | '\x7d' => (closeObject, some text)
  | '[' => (openArray, some text)
  | ']' => (closeArray, some text)
  | ':' => (colon, some text)
  | ',' => (comma, some text)
  | '"' => ofString text
  | 'n' => ofWord "ull".toList .null text
  | 't' => ofWord "rue".toList (.bool true) text
  | 'f' => ofWord "alse".toList (.bool false) text
  | c => if c = '-' ∨ c.isDigit then ofNumeral (c :: text) else (broken .malformed, none)

theorem length_afterWord_le {word text rest : List Char} (h : afterWord word text = .ok rest) :
    rest.length ≤ text.length := by
  fun_induction afterWord word text <;> grind

theorem length_first_le {c : Char} {text rest : List Char} (h : (first c text).2 = some rest) :
    rest.length ≤ text.length := by
  have word {w : List Char} {v : Value} (h : (ofWord w v text).2 = some rest) :
      rest.length ≤ text.length := by
    unfold ofWord at h
    split at h
    · simp only [Option.some.injEq] at h
      subst h
      exact length_afterWord_le (by assumption)
    · simp at h
  unfold first at h
  split at h <;> try (simp only [Option.some.injEq] at h; simp [h])
  · -- A string ends after its closing quote.
    cases stop : (scanString text).2 with
    | error problem => simp [ofString, stop, Except.toOption] at h
    | ok rest' =>
      have same : rest' = rest := by simpa [ofString, stop, Except.toOption] using h
      have shorter := length_scanString_lt stop
      rw [same] at shorter
      omega
  · exact word h
  · exact word h
  · exact word h
  · split at h
    · unfold ofNumeral at h
      split at h
      · simp only [Option.some.injEq] at h
        subst h
        have shorter := Numeral.length_scan_lt (by assumption)
        simpa using Nat.le_of_lt_succ shorter
      · simp at h
      · simp at h
    · simp at h

end Lexeme

/-- The white space of JSON. -/
def isSpace (c : Char) : Bool := c = ' ' || c = '\n' || c = '\t' || c = '\r'

/-- The lexemes of a text, up to the first that cannot be passed over. -/
def lexemes : List Char → List Lexeme
  | [] => []
  | c :: text =>
    if isSpace c then lexemes text
    else match h : Lexeme.first c text with
      | (lexeme, some rest) =>
        have : rest.length ≤ text.length := Lexeme.length_first_le (by rw [h])
        lexeme :: lexemes rest
      | (lexeme, none) => [lexeme]
termination_by text => text.length

end Json

end AccumulatorMachine
