import AccumulatorMachine.Proofs.Json.Written
import AccumulatorMachine.Text.Position
import Mathlib.Data.List.Basic

/-!
# JSON in Free Layout

Texts that have the same lexemes because they differ in white space only.

What is written is a list of atoms: brackets, separators, plain strings and words, each with the
one spelling that a writer gives it. A layout of the atoms puts any gap in front of each of them
and behind the last one. A gap is white space within a line. A line feed is white space for JSON
as well, but the records of a file are lines, so none of them has one.

The lexemes of a layout are those of the atoms, one for each. Only numbers could spoil this, since
two of them without a gap between them are one number. In a legible list no number follows
another, as in any list that a JSON value is written as.

## Main definitions

* `Json.Atom`: A lexical unit with one spelling.
* `Json.Legible`: Atoms that can be told apart in every layout.
* `Json.Gap`: White space within a line.
* `Json.LaidOut`: A text that spells atoms with gaps around them.

## Theorems

* `Json.Atom.lexemes_spelling`: A spelling is read as the lexeme of its atom.
* `Json.LaidOut.lexemes`: The lexemes of a layout are those of its atoms.
* `Json.LaidOut.newline_not_mem`: A layout stays on one line.
-/

namespace AccumulatorMachine

namespace Json

/-- A lexical unit with the spelling in which it is written. -/
inductive Atom where
  | openObject
  | closeObject
  | colon
  | comma
  | string (text : String)
  | number (n : Int)
  deriving DecidableEq, Repr

namespace Atom

/-- The spelling of an atom. -/
def spelling : Atom → List Char
  | openObject => ['\x7b']
  | closeObject => ['\x7d']
  | colon => [':']
  | comma => [',']
  | string text => '"' :: (text.toList ++ ['"'])
  | number n => (Decimal.ofInt n).toList

/-- The lexeme of an atom. -/
def lexeme : Atom → Lexeme
  | openObject => .openObject
  | closeObject => .closeObject
  | colon => .colon
  | comma => .comma
  | string text => .string (.ok text) (.ok ())
  | number n => .scalar (.ok (.integer n)) (.ok ())

/-- Whether an atom is a number. -/
def isNumber : Atom → Bool
  | number _ => true
  | _ => false

/-- A text between quotes is plain, and a number is a word. -/
def Valid : Atom → Prop
  | string text => Plain text.toList
  | number n => Word.InRange n
  | _ => True

end Atom

/-- Atoms that can be told apart in every layout: each is valid, and no number follows another. -/
def Legible : List Atom → Prop
  | [] => True
  | atom :: atoms =>
    atom.Valid ∧ (atom.isNumber → ∀ next ∈ atoms.head?, next.isNumber = false) ∧ Legible atoms

/-- White space within a line. -/
def Gap (text : List Char) : Prop := ∀ c ∈ text, c = ' ' ∨ c = '\t' ∨ c = '\r'

instance (text : List Char) : Decidable (Gap text) :=
  List.decidableBAll (fun c => c = ' ' ∨ c = '\t' ∨ c = '\r') text

/-- A text that spells atoms with gaps around them. -/
inductive LaidOut : List Atom → List Char → Prop
  | nil {gap : List Char} (hgap : Gap gap) : LaidOut [] gap
  | cons {gap text : List Char} {atom : Atom} {atoms : List Atom} (hgap : Gap gap)
      (htext : LaidOut atoms text) : LaidOut (atom :: atoms) (gap ++ (atom.spelling ++ text))

/-- An atom as a writer puts it, with a space after a separator. -/
def Atom.printed : Atom → List Char
  | colon => [':', ' ']
  | comma => [',', ' ']
  | atom => atom.spelling

/-- The layout of a writer. -/
def print (atoms : List Atom) : List Char := atoms.flatMap Atom.printed

theorem Legible.single (atom : Atom) (h : atom.Valid) : Legible [atom] :=
  ⟨h, fun _ _ hnext => (nomatch hnext), trivial⟩

theorem Legible.cons (atom : Atom) {atoms : List Atom} (hvalid : atom.Valid)
    (hother : atom.isNumber = false) (h : Legible atoms) : Legible (atom :: atoms) :=
  ⟨hvalid, fun hnumber => absurd (hother.symm.trans hnumber) (by decide), h⟩

theorem Legible.append {first second : List Atom} (hfirst : Legible first)
    (hsecond : Legible second) (hapart : ∀ next ∈ second.head?, next.isNumber = false) :
    Legible (first ++ second) := by
  induction first with
  | nil => exact hsecond
  | cons atom first ih =>
    obtain ⟨hvalid, hnext, hrest⟩ := hfirst
    refine ⟨hvalid, fun hnumber next hmem => ?_, ih hrest⟩
    cases first with
    | nil => exact hapart next hmem
    | cons other first => exact hnext hnumber next hmem

theorem Legible.of_append {first second : List Atom} (h : Legible (first ++ second)) :
    Legible first := by
  induction first with
  | nil => trivial
  | cons atom first ih =>
    obtain ⟨hvalid, hnext, hrest⟩ := h
    refine ⟨hvalid, fun hnumber next hmem => hnext hnumber next ?_, ih hrest⟩
    cases first with
    | nil => cases hmem
    | cons other first => exact hmem

theorem Gap.nil : Gap [] := fun _ hc => (nomatch hc)

theorem Gap.space : Gap [' '] := fun _ hc => .inl (List.mem_singleton.mp hc)

theorem Gap.of_isPrefix {gap text : List Char} (h : Gap gap) (htext : text <+: gap) : Gap text :=
  fun c hc => h c (htext.subset hc)

theorem Gap.append {gap more : List Char} (h : Gap gap) (hmore : Gap more) : Gap (gap ++ more) :=
  fun c hc => (List.mem_append.mp hc).elim (h c) (hmore c)

theorem LaidOut.gap_append {atoms : List Atom} {gap text : List Char} (hgap : Gap gap)
    (h : LaidOut atoms text) : LaidOut atoms (gap ++ text) := by
  cases h with
  | nil hmore => exact .nil (hgap.append hmore)
  | cons hmore htext =>
    rw [← List.append_assoc]
    exact .cons (hgap.append hmore) htext

theorem Atom.printed_eq (atom : Atom) :
    ∃ gap, Gap gap ∧ atom.printed = atom.spelling ++ gap := by
  cases atom with
  | colon => exact ⟨_, .space, rfl⟩
  | comma => exact ⟨_, .space, rfl⟩
  | _ => exact ⟨_, .nil, (List.append_nil _).symm⟩

/-- What a writer prints is a layout. -/
theorem laidOut_print (atoms : List Atom) : LaidOut atoms (print atoms) := by
  induction atoms with
  | nil => exact .nil .nil
  | cons atom atoms ih =>
    obtain ⟨gap, hgap, hprinted⟩ := atom.printed_eq
    rw [print, List.flatMap_cons, hprinted, List.append_assoc]
    exact .cons .nil (ih.gap_append hgap)

/-! ## The lexemes of a layout -/

theorem Gap.lexemes_append {gap : List Char} (h : Gap gap) (text : List Char) :
    lexemes (gap ++ text) = lexemes text := by
  induction gap with
  | nil => rfl
  | cons c gap ih =>
    have hspace : isSpace c = true := by
      rcases h c (.head _) with rfl | rfl | rfl <;> rfl
    rw [List.cons_append, lexemes, if_pos hspace]
    exact ih fun d hd => h d (.tail c hd)

theorem Gap.lexemes {gap : List Char} (h : Gap gap) : lexemes gap = [] := by
  have hend := h.lexemes_append []
  rwa [List.append_nil, lexemes_nil] at hend

/-- A spelling is read as the lexeme of its atom. -/
theorem Atom.lexemes_spelling {atom : Atom} (hvalid : atom.Valid) {text : List Char}
    (htext : atom.isNumber → EndsNumeral text) :
    lexemes (atom.spelling ++ text) = atom.lexeme :: lexemes text := by
  cases atom with
  | openObject => exact lexemes_openObject text
  | closeObject => exact lexemes_closeObject text
  | colon => exact lexemes_colon text
  | comma => exact lexemes_comma text
  | string word =>
    have hquoted := lexemes_quoted hvalid text
    rw [String.ofList_toList] at hquoted
    rw [spelling, List.cons_append, List.append_assoc]
    exact hquoted
  | number n => exact lexemes_ofInt hvalid (htext rfl)

theorem EndsNumeral.nil : EndsNumeral [] := fun _ hc => (nomatch hc)

theorem EndsNumeral.gap_append {gap text : List Char} (hgap : Gap gap) (h : EndsNumeral text) :
    EndsNumeral (gap ++ text) := by
  cases gap with
  | nil => exact h
  | cons c gap =>
    intro d hd
    obtain rfl : c = d := by simpa using hd
    rcases hgap c (.head _) with rfl | rfl | rfl <;> decide

theorem EndsNumeral.of_isPrefix {part text : List Char} (h : EndsNumeral text)
    (hpart : part <+: text) : EndsNumeral part := by
  obtain ⟨rest, rfl⟩ := hpart
  cases part with
  | nil => exact fun _ hc => (nomatch hc)
  | cons c part => exact fun d hd => h d hd

theorem Atom.endsNumeral_spelling {atom : Atom} (h : atom.isNumber = false) (text : List Char) :
    EndsNumeral (atom.spelling ++ text) := by
  cases atom with
  | number n => cases h
  | _ => simp [EndsNumeral, spelling]

namespace LaidOut

variable {atoms : List Atom} {text : List Char}

/-- What follows a number in a layout does not prolong it. -/
theorem endsNumeral (h : LaidOut atoms text)
    (hnext : ∀ next ∈ atoms.head?, next.isNumber = false) : EndsNumeral text := by
  cases h with
  | nil hgap =>
    have hend := EndsNumeral.nil.gap_append hgap
    rwa [List.append_nil] at hend
  | cons hgap _ =>
    exact EndsNumeral.gap_append hgap (Atom.endsNumeral_spelling (hnext _ rfl) _)

/-- The lexemes of a layout are those of its atoms. -/
protected theorem lexemes (h : LaidOut atoms text) (hlegible : Legible atoms) :
    Json.lexemes text = atoms.map Atom.lexeme := by
  induction h with
  | nil hgap => exact hgap.lexemes
  | cons hgap htext ih =>
    obtain ⟨hvalid, hapart, hrest⟩ := hlegible
    rw [hgap.lexemes_append, Atom.lexemes_spelling hvalid fun hnumber =>
      htext.endsNumeral (hapart hnumber), ih hrest, List.map_cons]

end LaidOut

end Json

/-! ## The line of a layout -/

theorem Text.stripReturn_prefix (line : List Char) : stripReturn line <+: line := by
  unfold stripReturn
  split
  · exact List.dropLast_prefix line
  · exact List.prefix_rfl

theorem Text.stripReturn_append (front : List Char) {line : List Char} (h : line ≠ []) :
    stripReturn (front ++ line) = front ++ stripReturn line := by
  unfold stripReturn
  rw [List.getLast?_append_of_ne_nil front h, List.dropLast_append_of_ne_nil h]
  split <;> rfl

namespace Json

theorem Gap.newline_not_mem {gap : List Char} (h : Gap gap) : '\n' ∉ gap := by
  intro hmem
  rcases h _ hmem with heq | heq | heq <;> cases heq

theorem Atom.printable_spelling {atom : Atom} (h : atom.Valid) :
    ∀ c ∈ atom.spelling, 0x20 ≤ c.toNat := by
  cases atom with
  | string text =>
    intro c hc
    rw [spelling, List.mem_cons, List.mem_append, List.mem_singleton] at hc
    rcases hc with rfl | hc | rfl
    · decide
    · exact (h c hc).2.2
    · decide
  | number n => exact Decimal.printable_ofInt n
  | _ => simp [spelling]

theorem Atom.spelling_ne_nil (atom : Atom) : atom.spelling ≠ [] := by
  cases atom with
  | number n =>
    intro hempty
    have hdigits := Decimal.toList_ofInt n
    rw [show (Decimal.ofInt n).toList = [] from hempty] at hdigits
    exact Nat.toDigits_ne_nil (List.append_eq_nil_iff.mp hdigits.symm).2
  | _ => exact List.cons_ne_nil _ _

namespace LaidOut

variable {atoms : List Atom} {text : List Char}

/-- A layout stays on one line. -/
theorem newline_not_mem (h : LaidOut atoms text) (hlegible : Legible atoms) : '\n' ∉ text := by
  induction h with
  | nil hgap => exact hgap.newline_not_mem
  | cons hgap htext ih =>
    obtain ⟨hvalid, -, hrest⟩ := hlegible
    simp only [List.mem_append, not_or]
    refine ⟨hgap.newline_not_mem, fun hmem => ?_, ih hrest⟩
    exact absurd (Atom.printable_spelling hvalid _ hmem) (by decide)

/-- A carriage return at the end of a layout is part of its last gap. -/
theorem stripReturn (h : LaidOut atoms text) (hlegible : Legible atoms) :
    LaidOut atoms (Text.stripReturn text) := by
  induction h with
  | nil hgap => exact .nil (hgap.of_isPrefix (Text.stripReturn_prefix _))
  | @cons gap text atom atoms hgap htext ih =>
    obtain ⟨hvalid, -, hrest⟩ := hlegible
    by_cases hempty : text = []
    · -- The last character is the last one of a spelling.
      have hlast : (gap ++ (atom.spelling ++ text)).getLast? ≠ some '\r' := by
        intro hlast
        rw [hempty, List.append_nil, List.getLast?_append_of_ne_nil _ atom.spelling_ne_nil] at hlast
        exact absurd (Atom.printable_spelling hvalid _ (List.mem_of_getLast? hlast)) (by decide)
      rw [Text.stripReturn, if_neg hlast]
      exact .cons hgap htext
    · rw [← List.append_assoc, Text.stripReturn_append _ hempty, List.append_assoc]
      exact .cons hgap (ih hrest)

end LaidOut

end Json

end AccumulatorMachine
