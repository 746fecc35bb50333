import AccumulatorMachine.Image.Record
import AccumulatorMachine.Proofs.Json.Cut

/-!
# Cell Records in Free Layout

A cell from any layout of its record, and from what is left of one.

A record is an object with two fields, and so is the instruction in it, if there is one. Either
object may have its fields in either order, so a cell has two or four records, and each of them
has every layout that JSON allows on a line. All of them are read as the cell.

What is left of a record without its last bracket is never read as anything. A number that has
lost some of its digits is read as another number, but then the text is at its end, and the
record is not.

A cell has to be made of words for all that, as the cells of the machine are.

## Main definitions

* `Cell.OfWords`, `Image.OfWords`: A cell and an image in which all numbers are words.
* `Json.object`: An object with two fields.
* `Cell.Spells`: The atoms of a record.
* `Cell.WrittenAs`: A line that is a record of a cell in some layout.
* `Json.Reads`: A reader takes given lexemes, and of those that are left of them all or none.

## Theorems

* `Cell.ofRecord?_of_writtenAs`: A record is read as its cell in every layout.
* `Cell.ofRecord?_toRecord`: A written cell reads back.
* `Cell.ofRecord?_of_isPrefix`: What is left of a written cell is cut off.
-/

namespace AccumulatorMachine

open Json (Atom Cut Lexeme Problem Value LaidOut Legible)

/-! ## Numbers that are words -/

/-- The number in a cell is a word. -/
def CellValue.OfWords : CellValue → Prop
  | data value => Word.InRange value
  | code instruction => Word.InRange instruction.operand

/-- The numbers of a cell are words. -/
def Cell.OfWords (cell : Cell) : Prop := cell.value.OfWords ∧ Word.InRange cell.address

/-- All numbers of an image are words. -/
def Image.OfWords (image : Image) : Prop := ∀ cell ∈ image.cells, cell.OfWords

instance (value : CellValue) : Decidable value.OfWords :=
  match value with
  | .data value => inferInstanceAs (Decidable (Word.InRange value))
  | .code instruction => inferInstanceAs (Decidable (Word.InRange instruction.operand))

instance (cell : Cell) : Decidable cell.OfWords :=
  inferInstanceAs (Decidable (cell.value.OfWords ∧ Word.InRange cell.address))

instance (image : Image) : Decidable image.OfWords :=
  inferInstanceAs (Decidable (∀ cell ∈ image.cells, cell.OfWords))

/-! ## The atoms of a record -/

namespace Json

/-- A key and its value. -/
def field (key : String) (value : List Atom) : List Atom := .string key :: .colon :: value

/-- An object with two fields that is not closed. -/
def unclosed (first second : List Atom) : List Atom := .openObject :: (first ++ .comma :: second)

/-- An object with two fields. -/
def object (first second : List Atom) : List Atom := unclosed first second ++ [.closeObject]

end Json

/-- The atoms of the contents of a cell, with the fields of an instruction in either order. -/
inductive CellValue.Spells : CellValue → List Atom → Prop
  | data (n : Int) : Spells (.data n) [.number n]
  | code (opcode : OpCode) (operand : Int) : Spells (.code ⟨opcode, operand⟩)
    (Json.object (Json.field "opcode" [.string opcode.mnemonic])
      (Json.field "address" [.number operand]))
  | exchanged (opcode : OpCode) (operand : Int) : Spells (.code ⟨opcode, operand⟩)
    (Json.object (Json.field "address" [.number operand])
      (Json.field "opcode" [.string opcode.mnemonic]))

/-- The atoms of a record, with its fields in either order. -/
inductive Cell.Spells : Cell → List Atom → Prop
  | ordered {value : CellValue} {atoms : List Atom} (address : Int) (hvalue : value.Spells atoms) :
    Spells ⟨value, address⟩
      (Json.object (Json.field "value" atoms) (Json.field "address" [.number address]))
  | exchanged {value : CellValue} {atoms : List Atom} (address : Int)
      (hvalue : value.Spells atoms) :
    Spells ⟨value, address⟩
      (Json.object (Json.field "address" [.number address]) (Json.field "value" atoms))

/-- A line that is a record of a cell in some layout. -/
def Cell.WrittenAs (cell : Cell) (line : List Char) : Prop :=
  ∃ atoms, cell.Spells atoms ∧ LaidOut atoms line

theorem OpCode.plain_mnemonic (opcode : OpCode) : Json.Plain opcode.mnemonic.toList := by
  cases opcode with
  | skip condition negated => cases condition <;> cases negated <;> decide
  | _ => decide

namespace Json

theorem Legible.field {key : String} {value : List Atom} (hkey : Plain key.toList)
    (hvalue : Legible value) : Legible (field key value) :=
  .cons (.string key) hkey rfl (.cons .colon trivial rfl hvalue)

theorem Legible.object {first second : List Atom} (hfirst : Legible first)
    (hsecond : Legible second) : Legible (object first second) := by
  have hbody := hfirst.append (.cons .comma trivial rfl hsecond)
    fun next hnext => by cases hnext; rfl
  exact (Legible.cons .openObject trivial rfl hbody).append
    (.single .closeObject trivial) fun next hnext => by cases hnext; rfl

end Json

theorem CellValue.Spells.legible {value : CellValue} {atoms : List Atom}
    (h : value.Spells atoms) (hwords : value.OfWords) : Legible atoms := by
  have hopcode : Json.Plain "opcode".toList := by decide
  have haddress : Json.Plain "address".toList := by decide
  cases h with
  | data n => exact .single _ hwords
  | code opcode operand =>
    exact .object (.field hopcode (.single _ opcode.plain_mnemonic))
      (.field haddress (.single _ hwords))
  | exchanged opcode operand =>
    exact .object (.field haddress (.single _ hwords))
      (.field hopcode (.single _ opcode.plain_mnemonic))

theorem Cell.Spells.legible {cell : Cell} {atoms : List Atom} (h : cell.Spells atoms)
    (hwords : cell.OfWords) : Legible atoms := by
  have hkey : Json.Plain "value".toList := by decide
  have haddress : Json.Plain "address".toList := by decide
  obtain ⟨hwords, hrange⟩ := hwords
  cases h with
  | ordered address hvalue =>
    exact .object (.field hkey (hvalue.legible hwords)) (.field haddress (.single _ hrange))
  | exchanged address hvalue =>
    exact .object (.field haddress (.single _ hrange)) (.field hkey (hvalue.legible hwords))

/-! ## Readers and what is left for them -/

/-- A reader takes given lexemes and nothing behind them. If only a part of them is left, it gets
    to the end of the text, with or without a result. -/
structure Json.Reads {α : Type} (reader : List Lexeme → Except Problem (α × List Lexeme))
    (full : List Lexeme) (result : α) : Prop where
  whole : ∀ rest, reader (full ++ rest) = .ok (result, rest)
  cut : ∀ part, Cut full part →
    reader part = .error .cutOff ∨ ∃ other, reader part = .ok (other, [])

theorem Instruction.word?_integer {n : Int} (h : Word.InRange n) :
    word? (.integer n) = some n :=
  Word.checked_eq_some_iff.mpr ⟨rfl, h⟩

theorem CellValue.ofValue?_integer {n : Int} (h : Word.InRange n) :
    ofValue? (.integer n) = some (.data n) := by
  rw [ofValue?, Word.checked_eq_some_iff.mpr ⟨rfl, h⟩]
  rfl

namespace Cell

open Json (Reads)

theorem reads_value {full : List Lexeme} {value : CellValue}
    (h : readValue full = .ok (value, [])) : Reads readValue full value := by
  obtain ⟨⟨result, after⟩, hread, hvalue⟩ := Outcome.bind_ok h
  cases hshape : CellValue.ofValue? result with
  | none =>
    simp only [hshape] at hvalue
    cases hvalue
  | some contents =>
    simp only [hshape] at hvalue
    cases hvalue
    refine ⟨fun rest => ?_, fun part hpart => ?_⟩
    · simp only [readValue, Json.value, Json.Reader.run_append hread rest, bind, Except.bind,
        hshape, List.nil_append]
    · rcases Json.Reader.run_cut rfl hread hpart with hnone | hsame | ⟨n, m, hm, rfl, hshort⟩
      · exact .inl (by simp only [readValue, Json.value, hnone, bind, Except.bind])
      · exact .inr ⟨value, by simp only [readValue, Json.value, hsame, bind, Except.bind, hshape]⟩
      · -- A number that has lost some of its digits is a word still.
        exact .inr ⟨.data m, by simp only [readValue, Json.value, hshort, bind, Except.bind,
          CellValue.ofValue?_integer hm]⟩

theorem readAddress_integer {a : Int} (h : Word.InRange a) (skipped : Except Problem Unit)
    (rest : List Lexeme) :
    readAddress (.scalar (.ok (.integer a)) skipped :: rest) = .ok (a, rest) := by
  simp only [readAddress, bind, Except.bind, Instruction.word?_integer h]

theorem reads_address {a : Int} (h : Word.InRange a) :
    Reads readAddress ([Atom.number a].map Atom.lexeme) a := by
  refine ⟨readAddress_integer h _, fun part (hpart : Cut [(Atom.number a).lexeme] part) => ?_⟩
  cases hpart with
  | ended => exact .inl rfl
  | inside hpart =>
    cases hpart with
    | sign => exact .inl rfl
    | number hm => exact .inr ⟨_, readAddress_integer hm _ _⟩
  | behind hpart =>
    cases hpart
    exact .inr ⟨a, readAddress_integer h _ _⟩

/-- A reader behind a colon. -/
theorem reads_afterColon {α β : Type} {reader : List Lexeme → Except Problem (α × List Lexeme)}
    {full : List Lexeme} {result : α} (h : Reads reader full result) (f : α → β) :
    Reads (fun text => do
      let (result, rest) ← reader (← afterColon text)
      return (f result, rest)) (.colon :: full) (f result) := by
  refine ⟨fun rest => ?_, fun part hpart => ?_⟩
  · simp only [List.cons_append, afterColon, bind, Except.bind, h.whole rest, pure, Except.pure]
  · cases hpart with
    | ended => exact .inl rfl
    | inside hpart => cases hpart
    | @behind _ _ part hpart =>
      rcases h.cut part hpart with hnone | ⟨other, hsome⟩
      · exact .inl (by simp only [afterColon, bind, Except.bind, hnone])
      · exact .inr ⟨f other, by
          simp only [afterColon, bind, Except.bind, hsome, pure, Except.pure]⟩

theorem reads_field_value (address : Option Int) {full : List Lexeme} {value : CellValue}
    (h : Reads readValue full value) :
    Reads (readField ⟨none, address⟩ "value") (.colon :: full) ⟨some value, address⟩ := by
  have hread := reads_afterColon h fun value => (⟨some value, address⟩ : Draft)
  have hfield : readField ⟨none, address⟩ "value" = _ := funext fun text => by
    rw [readField, if_pos rfl, if_neg (by simp)]
  rw [hfield]
  exact hread

theorem reads_field_address (value : Option CellValue) {full : List Lexeme} {address : Int}
    (h : Reads readAddress full address) :
    Reads (readField ⟨value, none⟩ "address") (.colon :: full) ⟨value, some address⟩ := by
  have hread := reads_afterColon h fun address => (⟨value, some address⟩ : Draft)
  have hfield : readField ⟨value, none⟩ "address" = _ := funext fun text => by
    rw [readField, if_neg (by decide), if_pos rfl, if_neg (by simp)]
  rw [hfield]
  exact hread

theorem readFields_comma {draft draft' : Draft} {key : String} {skipped : Except Problem Unit}
    {text rest : List Lexeme} (h : readField draft key text = .ok (draft', .comma :: rest)) :
    readFields draft (.string (.ok key) skipped :: text) = readFields draft' rest := by
  rw [readFields]
  split <;> simp_all

theorem readFields_closeObject {draft draft' : Draft} {key : String}
    {skipped : Except Problem Unit} {text rest : List Lexeme}
    (h : readField draft key text = .ok (draft', .closeObject :: rest)) :
    readFields draft (.string (.ok key) skipped :: text)
      = draft'.finish.map fun cell => (cell, rest) := by
  rw [readFields]
  split <;> simp_all

theorem readFields_ended {draft : Draft} {key : String} {skipped : Except Problem Unit}
    {text : List Lexeme}
    (h : readField draft key text = .error .cutOff
      ∨ ∃ other, readField draft key text = .ok (other, [])) :
    readFields draft (.string (.ok key) skipped :: text) = .error .cutOff := by
  rw [readFields]
  rcases h with hnone | ⟨other, hsome⟩ <;> split <;> simp_all

section Fields

variable {key next : String} {first second : List Lexeme} {draft draft' : Draft}

/-- Two fields and a bracket are read as the cell that the fields make. -/
theorem readFields_two {cell : Cell} (hfirst : Reads (readField .empty key) first draft)
    (hsecond : Reads (readField draft next) second draft') (hcell : draft'.finish = .ok cell)
    (rest : List Lexeme) :
    readFields .empty ((Atom.string key).lexeme :: (first ++ .comma :: (Atom.string next).lexeme ::
      (second ++ .closeObject :: rest))) = .ok (cell, rest) := by
  rw [Atom.lexeme, Atom.lexeme, readFields_comma (hfirst.whole _),
    readFields_closeObject (hsecond.whole _), hcell]
  rfl

/-- What is left of two fields without the bracket is cut off. -/
theorem readFields_cut (hfirst : Reads (readField .empty key) first draft)
    (hsecond : Reads (readField draft next) second draft') {part : List Lexeme}
    (hpart : Cut ((Atom.string key).lexeme :: (first ++ .comma ::
      (Atom.string next).lexeme :: second)) part) :
    readFields .empty part = .error .cutOff := by
  have hempty : ∀ draft, readFields draft [] = .error .cutOff := fun draft => by rw [readFields]
  have hkey : ∀ draft, readFields draft [.string (.error .cutOff) (.error .cutOff)]
      = .error .cutOff := fun draft => by rw [readFields]
  -- The cut may be in front of, inside or behind each of the parts.
  cases hpart with
  | ended => exact hempty _
  | inside hpart =>
    cases hpart
    exact hkey _
  | behind hpart =>
    rcases hpart.append_cases with hinside | ⟨left, rfl, hleft⟩
    · exact readFields_ended (hfirst.cut _ hinside)
    cases hleft with
    | ended => exact readFields_ended (.inr ⟨draft, hfirst.whole []⟩)
    | inside hcomma => cases hcomma
    | behind hleft =>
      rw [Atom.lexeme, readFields_comma (hfirst.whole _)]
      cases hleft with
      | ended => exact hempty _
      | inside hname =>
        cases hname
        exact hkey _
      | behind hleft => exact readFields_ended (hsecond.cut _ hleft)

end Fields

section Records

variable {key next : String} {first second : List Atom} {draft draft' : Draft}

theorem readRecord_object {cell : Cell}
    (hfirst : Reads (readField .empty key) (.colon :: first.map Atom.lexeme) draft)
    (hsecond : Reads (readField draft next) (.colon :: second.map Atom.lexeme) draft')
    (hcell : draft'.finish = .ok cell) :
    readRecord ((Json.object (Json.field key first) (Json.field next second)).map Atom.lexeme)
      = .ok (cell, []) := by
  have hread := readFields_two hfirst hsecond hcell []
  have hlexemes : (Json.object (Json.field key first) (Json.field next second)).map Atom.lexeme
      = .openObject :: ((Atom.string key).lexeme :: (.colon :: first.map Atom.lexeme ++ .comma ::
          (Atom.string next).lexeme :: (.colon :: second.map Atom.lexeme ++ [.closeObject]))) := by
    simp [Json.object, Json.unclosed, Json.field, Atom.lexeme]
  rw [hlexemes]
  exact hread

theorem readRecord_unclosed
    (hfirst : Reads (readField .empty key) (.colon :: first.map Atom.lexeme) draft)
    (hsecond : Reads (readField draft next) (.colon :: second.map Atom.lexeme) draft')
    {part : List Lexeme}
    (hpart : Cut ((Json.unclosed (Json.field key first) (Json.field next second)).map Atom.lexeme)
      part) :
    readRecord part = .error .cutOff := by
  have hlexemes : (Json.unclosed (Json.field key first) (Json.field next second)).map Atom.lexeme
      = .openObject :: ((Atom.string key).lexeme :: (.colon :: first.map Atom.lexeme ++ .comma ::
          (Atom.string next).lexeme :: .colon :: second.map Atom.lexeme)) := by
    simp [Json.unclosed, Json.field, Atom.lexeme]
  rw [hlexemes] at hpart
  cases hpart with
  | ended => rfl
  | inside hpart => cases hpart
  | @behind _ _ part hpart =>
    have hread := readFields_cut hfirst hsecond hpart
    -- The first key, whole or cut, is not a bracket.
    cases hpart with
    | ended => exact hread
    | inside hpart =>
      cases hpart
      exact hread
    | behind _ => exact hread

end Records

end Cell

/-! ## Whole records and cut ones -/

theorem Instruction.ofValue?_object {fields : List (String × Value)} {opcode : OpCode}
    {operand : Int}
    (hopcode : Value.once? fields "opcode" = some (.string opcode.mnemonic))
    (haddress : Value.once? fields "address" = some (.integer operand))
    (hrange : Word.InRange operand) :
    CellValue.ofValue? (.object fields) = some (.code ⟨opcode, operand⟩) := by
  simp [CellValue.ofValue?, ofValue?, hopcode, haddress, word?_integer hrange, opcode?,
    OpCode.ofMnemonic?_mnemonic]

theorem CellValue.Spells.reads {value : CellValue} {atoms : List Atom} (h : value.Spells atoms)
    (hwords : value.OfWords) : Json.Reads Cell.readValue (atoms.map Atom.lexeme) value := by
  have hreads : ∀ result, Json.value .read (atoms.map Atom.lexeme) = .ok (result, []) →
      ofValue? result = some value → Cell.readValue (atoms.map Atom.lexeme) = .ok (value, []) := by
    intro result hresult hvalue
    simp only [Cell.readValue, hresult, bind, Except.bind, hvalue]
  refine Cell.reads_value ?_
  cases h with
  | data n => exact hreads _ rfl (ofValue?_integer hwords)
  | code opcode operand => exact hreads _ rfl (Instruction.ofValue?_object rfl rfl hwords)
  | exchanged opcode operand => exact hreads _ rfl (Instruction.ofValue?_object rfl rfl hwords)

namespace Cell

variable {cell : Cell} {atoms : List Atom} {line : List Char}

/-- A record is an object that is read as its cell, and not at all before it is closed. -/
theorem Spells.reads (h : cell.Spells atoms) (hwords : cell.OfWords) :
    ∃ fields, atoms = fields ++ [.closeObject]
      ∧ readRecord (atoms.map Atom.lexeme) = .ok (cell, [])
      ∧ ∀ part, Cut (fields.map Atom.lexeme) part → readRecord part = .error .cutOff := by
  obtain ⟨hvalue, haddress⟩ := hwords
  cases h with
  | @ordered value atoms address hspells =>
    have hfirst := reads_field_value none (hspells.reads hvalue)
    have hsecond := reads_field_address (some value) (reads_address haddress)
    exact ⟨_, rfl, readRecord_object hfirst hsecond rfl,
      fun _ => readRecord_unclosed hfirst hsecond⟩
  | exchanged address hspells =>
    have hfirst := reads_field_address none (reads_address haddress)
    have hsecond := reads_field_value (some address) (hspells.reads hvalue)
    exact ⟨_, rfl, readRecord_object hfirst hsecond rfl,
      fun _ => readRecord_unclosed hfirst hsecond⟩

/-- A record is read as its cell in every layout. -/
theorem ofRecord?_of_writtenAs (hwords : cell.OfWords) (h : cell.WrittenAs line) :
    ofRecord? line = .ok cell := by
  obtain ⟨atoms, hspells, hline⟩ := h
  obtain ⟨-, -, hread, -⟩ := hspells.reads hwords
  rw [ofRecord?, hline.lexemes (hspells.legible hwords), hread]
  rfl

end Cell

/-! ## Written records -/

theorem Json.print_object (key next : String) (first second : List Atom) :
    print (object (field key first) (field next second))
      = '\x7b' :: '"' :: (key.toList ++ '"' :: ':' :: ' ' :: (print first ++ ',' :: ' ' :: '"' ::
          (next.toList ++ '"' :: ':' :: ' ' :: (print second ++ ['\x7d'])))) := by
  simp only [print, object, unclosed, field, Atom.printed, Atom.spelling, List.flatMap_cons,
    List.flatMap_nil, List.flatMap_append, List.cons_append, List.nil_append, List.append_assoc]

theorem Json.print_string (text : String) :
    print [.string text] = '"' :: (text.toList ++ ['"']) := List.append_nil _

theorem Json.print_number (n : Int) : print [.number n] = (Decimal.ofInt n).toList :=
  List.append_nil _

theorem CellValue.exists_print (value : CellValue) :
    ∃ atoms, value.Spells atoms ∧ value.toRecord.toList = Json.print atoms := by
  cases value with
  | data n => exact ⟨_, .data n, (Json.print_number n).symm⟩
  | code instruction =>
    refine ⟨_, .code instruction.opcode instruction.operand, ?_⟩
    rw [Json.print_object, Json.print_string, Json.print_number]
    -- The equations of definitions with long literals are slow to make.
    delta toRecord Instruction.toRecord
    simp only [String.toList_append]
    simp only [List.cons_append, List.nil_append, List.append_assoc]
    rfl

namespace Cell

variable {cell : Cell}

theorem exists_print (cell : Cell) :
    ∃ atoms, cell.Spells atoms ∧ cell.toRecord.toList = Json.print atoms := by
  obtain ⟨value, address⟩ := cell
  obtain ⟨atoms, hspells, hprint⟩ := value.exists_print
  refine ⟨_, .ordered address hspells, ?_⟩
  rw [Json.print_object, Json.print_number]
  delta toRecord
  simp only [String.toList_append, hprint]
  simp only [List.append_assoc]
  rfl

theorem writtenAs_toRecord (cell : Cell) : cell.WrittenAs cell.toRecord.toList := by
  obtain ⟨atoms, hspells, hprint⟩ := cell.exists_print
  exact ⟨atoms, hspells, hprint ▸ Json.laidOut_print atoms⟩

/-- A written cell reads back. -/
theorem ofRecord?_toRecord (h : cell.OfWords) : ofRecord? cell.toRecord.toList = .ok cell :=
  ofRecord?_of_writtenAs h cell.writtenAs_toRecord

/-- What is left of a written cell is cut off. -/
theorem ofRecord?_of_isPrefix (hwords : cell.OfWords) {part : List Char}
    (hpart : part <+: cell.toRecord.toList) (hless : part ≠ cell.toRecord.toList) :
    ofRecord? part = .error .cutOff := by
  obtain ⟨atoms, hspells, hprint⟩ := cell.exists_print
  obtain ⟨fields, rfl, -, hcut⟩ := hspells.reads hwords
  have hclosed : Json.print (fields ++ [.closeObject]) = Json.print fields ++ ['\x7d'] := by
    simp [Json.print, Atom.printed, Atom.spelling]
  rw [hprint, hclosed] at hpart hless
  have hinside : part <+: Json.print fields :=
    (List.prefix_concat_iff.mp hpart).resolve_left hless
  have hlexemes := (Json.laidOut_print fields).cut (hspells.legible hwords).of_append hinside
  rw [ofRecord?, hcut _ hlexemes]
  rfl

end Cell

end AccumulatorMachine
