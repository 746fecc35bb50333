import AccumulatorMachine.Image
import AccumulatorMachine.Json.Reader

/-!
# Cell Records

The form in which a cell is stored: a JSON object with the fields `value` and `address`. The
value is an integer or an instruction, and an instruction is again an object, with the fields
`opcode` and `address`.

Writing fixes the order of the fields and puts one space after every separator. Reading is
more generous. The fields may come in any order, a record may have further fields, which are
skipped, and in place of an object there may be an array of the two values without their
keys. A record is judged from left to right: a value is read to its end before its shape is
looked at, while an address is refused as soon as it cannot be an integer.

## Main definitions

* `Cell.toRecord`: A cell as a record.
* `Cell.ofRecord?`: The cell that a record holds.
-/

namespace AccumulatorMachine

open Json (Lexeme Problem Value)

namespace Instruction

/-- An instruction as the value of a record. -/
def toRecord (instruction : Instruction) : String :=
  "\x7b\"opcode\": \"" ++ instruction.opcode.mnemonic ++ "\", \"address\": "
    ++ Decimal.ofInt instruction.operand ++ "\x7d"

/-- The opcode that a value spells. -/
def opcode? : Value → Option OpCode
  | .string text => OpCode.ofMnemonic? text
  | _ => none

/-- The word that a value is. -/
def word? : Value → Option Int
  | .integer n => Word.checked n
  | _ => none

/-- The instruction that a value holds: an object that has both fields once, or an array of an
    opcode and an operand. -/
def ofValue? : Value → Option Instruction
  | .object fields => do
    let opcode ← opcode? (← Value.once? fields "opcode")
    let operand ← word? (← Value.once? fields "address")
    return ⟨opcode, operand⟩
  | .array [opcode, operand] => do return ⟨← opcode? opcode, ← word? operand⟩
  | _ => none

end Instruction

namespace CellValue

/-- The contents of a cell as the value of a record. -/
def toRecord : CellValue → String
  | data value => Decimal.ofInt value
  | code instruction => instruction.toRecord

/-- The contents of a cell that a value holds: a word or an instruction. -/
def ofValue? : Value → Option CellValue
  | .integer n => (Word.checked n).map data
  | value => (Instruction.ofValue? value).map code

end CellValue

namespace Cell

/-- A cell as a record. -/
def toRecord (cell : Cell) : String :=
  "\x7b\"value\": " ++ cell.value.toRecord ++ ", \"address\": "
    ++ Decimal.ofInt cell.address ++ "\x7d"

/-- The fields of a record that have been read. -/
structure Draft where
  value : Option CellValue
  address : Option Int

namespace Draft

/-- A record without fields. -/
def empty : Draft := ⟨none, none⟩

/-- The cell of a record that is complete. -/
def finish (draft : Draft) : Except Problem Cell :=
  match draft.value, draft.address with
  | some value, some address => .ok ⟨value, address⟩
  | _, _ => .error .mismatch

end Draft

/-- What follows a colon. -/
def afterColon : List Lexeme → Except Problem (List Lexeme)
  | [] => .error .cutOff
  | .colon :: text => .ok text
  | _ :: _ => .error .malformed

/-- The contents of a cell at the front of a list of lexemes. -/
def readValue (text : List Lexeme) : Except Problem (CellValue × List Lexeme) := do
  let (value, rest) ← Json.value .read text
  match CellValue.ofValue? value with
  | some value => .ok (value, rest)
  | none => .error .mismatch

/-- The address at the front of a list of lexemes. A container is refused at its bracket. -/
def readAddress : List Lexeme → Except Problem (Int × List Lexeme)
  | [] => .error .cutOff
  | .scalar value _ :: rest => do
    -- A scalar is read before its shape is looked at, so its own problem comes first.
    match Instruction.word? (← value) with
    | some address => .ok (address, rest)
    | none => .error .mismatch
  | .string text _ :: _ => do
    let _ ← text
    .error .mismatch
  | .openObject :: _ => .error .mismatch
  | .openArray :: _ => .error .mismatch
  | _ :: _ => .error .malformed

/-- Reads the rest of a field after its key. A key that repeats is refused before its colon, and
    the value of an unknown key is skipped. -/
def readField (draft : Draft) (key : String) (text : List Lexeme) :
    Except Problem (Draft × List Lexeme) :=
  if key = "value" then
    if draft.value.isSome then .error .mismatch
    else do
      let (value, rest) ← readValue (← afterColon text)
      return (⟨some value, draft.address⟩, rest)
  else if key = "address" then
    if draft.address.isSome then .error .mismatch
    else do
      let (address, rest) ← readAddress (← afterColon text)
      return (⟨draft.value, some address⟩, rest)
  else do
    let (_, rest) ← Json.value .skip (← afterColon text)
    return (draft, rest)

theorem length_afterColon_lt {text rest : List Lexeme} (h : afterColon text = .ok rest) :
    rest.length < text.length := by
  unfold afterColon at h
  split at h <;> simp_all

theorem length_readValue_lt {text rest : List Lexeme} {value : CellValue}
    (h : readValue text = .ok (value, rest)) : rest.length < text.length := by
  unfold readValue at h
  cases found : Json.value .read text with
  | error problem => simp [found, bind, Except.bind] at h
  | ok pair =>
    obtain ⟨result, after⟩ := pair
    simp only [found, bind, Except.bind] at h
    have shorter := Json.length_value_lt found
    split at h <;> simp_all

theorem length_readAddress_lt {text rest : List Lexeme} {address : Int}
    (h : readAddress text = .ok (address, rest)) : rest.length < text.length := by
  unfold readAddress at h
  split at h <;> simp only [bind, Except.bind, reduceCtorEq] at h
  · split at h
    · simp at h
    · split at h <;> simp_all
  · split at h <;> simp at h

theorem length_readField_lt {draft draft' : Draft} {key : String} {text rest : List Lexeme}
    (h : readField draft key text = .ok (draft', rest)) : rest.length < text.length := by
  unfold readField at h
  cases colon : afterColon text with
  | error problem =>
    simp only [colon, bind, Except.bind] at h
    grind
  | ok after =>
    have one := length_afterColon_lt colon
    simp only [colon, bind, Except.bind, pure, Except.pure] at h
    -- The key says whether a value, an address or any other member is read. Each takes something.
    split at h
    · split at h
      · simp at h
      · split at h
        · simp at h
        · next pair found =>
          obtain ⟨result, after⟩ := pair
          have two := length_readValue_lt found
          simp only [Except.ok.injEq, Prod.mk.injEq] at h
          rw [← h.2]
          omega
    · split at h
      · split at h
        · simp at h
        · split at h
          · simp at h
          · next pair found =>
            obtain ⟨result, after⟩ := pair
            have two := length_readAddress_lt found
            simp only [Except.ok.injEq, Prod.mk.injEq] at h
            rw [← h.2]
            omega
      · split at h
        · simp at h
        · next pair found =>
          obtain ⟨result, after⟩ := pair
          have two := Json.length_value_lt found
          simp only [Except.ok.injEq, Prod.mk.injEq] at h
          rw [← h.2]
          omega

/-- Reads the fields of a record up to its closing brace, starting with a key. -/
def readFields (draft : Draft) : List Lexeme → Except Problem (Cell × List Lexeme)
  | .string (.ok key) _ :: text =>
    match h : readField draft key text with
    | .error problem => .error problem
    | .ok (draft, .comma :: rest) =>
      have : rest.length + 1 < text.length := length_readField_lt h
      readFields draft rest
    | .ok (draft, .closeObject :: rest) => draft.finish.map fun cell => (cell, rest)
    | .ok (_, []) => .error .cutOff
    | .ok (_, _ :: _) => .error .malformed
  | .string (.error problem) _ :: _ => .error problem
  | [] => .error .cutOff
  | _ :: _ => .error .malformed
termination_by text => text.length
decreasing_by simp only [List.length_cons]; omega

/-- Reads a record without keys after its opening bracket. A closing bracket in place of one of
    its two parts is a wrong shape, and anything else in place of its closing bracket is
    malformed. -/
def readPair (text : List Lexeme) : Except Problem (Cell × List Lexeme) :=
  match text with
  | .closeArray :: _ => .error .mismatch
  | text => do
    match ← readValue text with
    | (value, .comma :: rest) =>
      match ← readAddress rest with
      | (address, .closeArray :: rest) => .ok (⟨value, address⟩, rest)
      | (_, []) => .error .cutOff
      | (_, _ :: _) => .error .malformed
    | (_, .closeArray :: _) => .error .mismatch
    | (_, []) => .error .cutOff
    | (_, _ :: _) => .error .malformed

/-- Reads a record at the front of a list of lexemes. -/
def readRecord : List Lexeme → Except Problem (Cell × List Lexeme)
  | [] => .error .cutOff
  | .openObject :: .closeObject :: _ => .error .mismatch
  | .openObject :: text => readFields .empty text
  | .openArray :: text => readPair text
  | .scalar value _ :: _ => do
    let _ ← value
    .error .mismatch
  | .string text _ :: _ => do
    let _ ← text
    .error .mismatch
  | _ :: _ => .error .malformed

/-- The cell that a record holds. Nothing may follow the record. -/
def ofRecord? (text : List Char) : Except Problem Cell := do
  match ← readRecord (Json.lexemes text) with
  | (cell, []) => .ok cell
  | (_, _ :: _) => .error .malformed

end Cell

end AccumulatorMachine
