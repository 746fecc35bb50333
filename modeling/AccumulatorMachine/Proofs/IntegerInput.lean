import Mathlib.Data.List.DropRight
import Mathlib.Data.Nat.Digits.Defs
import AccumulatorMachine.Compiled
import AccumulatorMachine.Machine.DataPath
import AccumulatorMachine.Proofs.SymbolTable
import AccumulatorMachine.Proofs.Source.Composition
import AccumulatorMachine.Proofs.Source.Printed

/-!
# Integers from the Input

Which texts the machine reads as integers, and that it agrees with the printer and with the source
language about them.

A text is an integer if it has digits with at most one sign in front, and white space around both.
The number of the digits is not limited, only their value is. This is a relation between texts and
numbers, and it says nothing of how a text is read: trimming and the order of reading are not in
it. The reader agrees with it because no sign and no digit is white space, so what is left of a text
after trimming is determined.

Integers are written in two other places, each with rules of its own. The printer writes no plus
sign and no leading zeros. In a declaration the sign is a token of its own, so it may not be a plus
sign, and white space is that of the source language. Where the rules meet, all three mean the same
number.

## Main definitions

* `Decimal.positional`: The number that digits denote by their places.
* `Decimal.Signed`: The integer that digits after a sign denote.
* `IsIntegerInput`: The integer that a whole input denotes.
* `Program.Stores`: The word that a declaration stores.

## Theorems

* `Decimal.integer?_eq_some_iff`: Numerals with a sign.
* `inputInteger?_eq_some_iff`: The integers in the input.
* `Program.stores_iff`, `Program.refused_iff`: The words that declarations store.
* `inputInteger?_exact`: Integers are read exactly, as they are printed and as they are declared.
* `inputInteger?_minimum`: The least word, and a number with a leading zero.
-/

namespace AccumulatorMachine

/-! ## Numerals -/

namespace Decimal

/-- The number that digits denote by their places, the last of which is that of the ones. -/
def positional (digits : List Char) : Nat :=
  Nat.ofDigits 10 (digits.reverse.map fun c => c.toNat - '0'.toNat)

/-- One digit or more, and nothing else. -/
def IsRun (digits : List Char) : Prop := digits ≠ [] ∧ ∀ c ∈ digits, Token.IsDigit c

/-- The integer that digits after a sign denote. -/
inductive Signed (digits : List Char) : List Char → Int → Prop where
  | bare : Signed digits [] (positional digits)
  | plus : Signed digits ['+'] (positional digits)
  | minus : Signed digits ['-'] (-(positional digits))

variable {text sign digits : List Char} {n : Nat} {v : Int}

/-- Reading from left to right gives each digit the weight of its place. -/
theorem ofDigitChars_eq_positional (digits : List Char) :
    Nat.ofDigitChars 10 digits 0 = positional digits := by
  induction digits using List.reverseRecOn with
  | nil => rfl
  | append_singleton digits c ih =>
    have hlast : positional (digits ++ [c]) = c.toNat - '0'.toNat + 10 * positional digits := by
      rw [positional, List.reverse_concat, List.map_cons, Nat.ofDigits_cons]
      rfl
    rw [Nat.ofDigitChars_append, ih, hlast, Nat.ofDigitChars_cons, Nat.ofDigitChars_nil,
      Nat.add_comm]

theorem natural?_iff_positional :
    natural? digits = some n ↔ IsRun digits ∧ n = positional digits := by
  rw [natural?_eq_some_iff, ofDigitChars_eq_positional, IsRun, and_assoc]
  simp only [Token.isDigit_iff]

/-- A text is a run of digits, or it denotes no number without a sign. -/
theorem run_or_none (digits : List Char) :
    IsRun digits ∧ natural? digits = some (positional digits) ∨ natural? digits = none := by
  cases hnatural : natural? digits with
  | none => exact Or.inr rfl
  | some n =>
    rcases natural?_iff_positional.mp hnatural with ⟨hrun, rfl⟩
    exact Or.inl ⟨hrun, rfl⟩

/-- Digits after a sign are read as the integer that they denote. -/
theorem integer?_of_signed (hrun : IsRun digits) (h : Signed digits sign v) :
    integer? (sign ++ digits) = some v := by
  have hnatural := natural?_iff_positional.mpr ⟨hrun, rfl⟩
  cases h with
  | bare => exact (integer?_digits hnatural).1
  | plus =>
    rw [List.singleton_append, integer?, hnatural]
    rfl
  | minus => exact (integer?_digits hnatural).2

/-- No two integers are denoted by the same digits after the same sign. -/
theorem Signed.unique {w : Int} (h : Signed digits sign v) (h' : Signed digits sign w) : v = w := by
  cases h with
  | bare =>
    cases h' with
    | bare => rfl
  | plus =>
    cases h' with
    | plus => rfl
  | minus =>
    cases h' with
    | minus => rfl

/-- A numeral is a run of digits with at most one sign in front. -/
theorem integer?_eq_some_iff : integer? text = some v ↔
    ∃ sign digits, text = sign ++ digits ∧ IsRun digits ∧ Signed digits sign v := by
  constructor
  · intro h
    unfold integer? at h
    -- Whatever the sign is, what is behind it has to be a run of digits.
    split at h
    · next digits =>
      rcases run_or_none digits with ⟨hrun, hsome⟩ | hnone
      · rw [hsome] at h
        cases h
        exact ⟨['-'], digits, rfl, hrun, .minus⟩
      · rw [hnone] at h
        cases h
    · next digits =>
      rcases run_or_none digits with ⟨hrun, hsome⟩ | hnone
      · rw [hsome] at h
        cases h
        exact ⟨['+'], digits, rfl, hrun, .plus⟩
      · rw [hnone] at h
        cases h
    · rcases run_or_none text with ⟨hrun, hsome⟩ | hnone
      · rw [hsome] at h
        cases h
        exact ⟨[], text, rfl, hrun, .bare⟩
      · rw [hnone] at h
        cases h
  · rintro ⟨sign, digits, rfl, hrun, hsigned⟩
    exact integer?_of_signed hrun hsigned

/-- A numeral denotes a word if its value is one. -/
theorem word?_eq_some_iff : word? text = some v ↔ (∃ sign digits, text = sign ++ digits ∧
    IsRun digits ∧ Signed digits sign v) ∧ Word.InRange v := by
  rw [word?, Option.bind_eq_some_iff, ← integer?_eq_some_iff]
  constructor
  · rintro ⟨n, hn, hv⟩
    rcases Word.checked_eq_some_iff.mp hv with ⟨rfl, hrange⟩
    exact ⟨hn, hrange⟩
  · rintro ⟨hv, hrange⟩
    exact ⟨v, hv, Word.checked_eq_some_iff.mpr ⟨rfl, hrange⟩⟩

/-- What is written denotes what it was written for. -/
theorem word?_ofInt (h : Word.InRange v) : word? (ofInt v).toList = some v := by
  rw [word?_eq_some_iff]
  refine ⟨?_, h⟩
  obtain ⟨hrun, hvalue⟩ := natural?_iff_positional.mp (natural?_toDigits v.natAbs)
  rw [ofInt, ofNat]
  by_cases hneg : v < 0
  · have hminus : v = -(positional (Nat.toDigits 10 v.natAbs)) := by omega
    refine ⟨['-'], Nat.toDigits 10 v.natAbs, ?_, hrun, ?_⟩
    · rw [if_pos hneg, String.toList_append, show "-".toList = ['-'] from rfl,
        String.toList_ofList]
    · have hsigned : Signed (Nat.toDigits 10 v.natAbs) ['-']
          (-(positional (Nat.toDigits 10 v.natAbs))) := .minus
      rwa [← hminus] at hsigned
  · have hbare : v = positional (Nat.toDigits 10 v.natAbs) := by omega
    refine ⟨[], Nat.toDigits 10 v.natAbs, ?_, hrun, ?_⟩
    · rw [if_neg hneg, String.toList_ofList, List.nil_append]
    · have hsigned : Signed (Nat.toDigits 10 v.natAbs) []
          (positional (Nat.toDigits 10 v.natAbs)) := .bare
      rwa [← hbare] at hsigned

end Decimal

/-! ## The input -/

/-- The integer that a whole input denotes: digits that make a word, with at most one sign in front
    and white space around both. -/
def IsIntegerInput (text : List Char) (v : Int) : Prop :=
  ∃ front sign digits back, text = front ++ sign ++ digits ++ back ∧
    (∀ c ∈ front ++ back, c = ' ' ∨ c = '\t' ∨ c = '\r' ∨ c = '\n') ∧
    Decimal.IsRun digits ∧ Decimal.Signed digits sign v ∧ Word.InRange v

section Input

variable {text front body back : List Char} {v : Int}

theorem isInputSpace_iff {c : Char} :
    isInputSpace c = true ↔ c = ' ' ∨ c = '\t' ∨ c = '\r' ∨ c = '\n' := by
  simp [isInputSpace, or_assoc]

theorem not_isInputSpace_of_isDigit {c : Char} (h : Token.IsDigit c) :
    ¬ isInputSpace c = true := by
  intro hspace
  -- No character of the white space is at or behind the zero.
  rcases isInputSpace_iff.mp hspace with rfl | rfl | rfl | rfl
  · exact absurd h.1 (by decide)
  · exact absurd h.1 (by decide)
  · exact absurd h.1 (by decide)
  · exact absurd h.1 (by decide)

/-- The input without the white space around it. -/
def trimmed (text : List Char) : List Char :=
  (text.dropWhile isInputSpace).rdropWhile isInputSpace

theorem inputInteger?_eq (text : List Char) :
    inputInteger? text = Decimal.word? (trimmed text) := rfl

/-- Around what is left there is only white space. -/
theorem exists_trimmed (text : List Char) : ∃ front back, text = front ++ trimmed text ++ back ∧
    ∀ c ∈ front ++ back, isInputSpace c = true := by
  refine ⟨text.takeWhile isInputSpace,
    (text.dropWhile isInputSpace).rtakeWhile isInputSpace, ?_, ?_⟩
  · rw [trimmed, List.append_assoc, List.rdropWhile_append_rtakeWhile,
      List.takeWhile_append_dropWhile]
  · intro c hc
    rcases List.mem_append.mp hc with hfront | hback
    · exact List.mem_takeWhile_imp hfront
    · exact List.mem_rtakeWhile_imp hback

/-- What begins and ends with other characters is left of a text with white space around it. -/
theorem trimmed_append (hspaces : ∀ c ∈ front ++ back, isInputSpace c = true) (hne : body ≠ [])
    (hhead : ¬ isInputSpace (body.head hne) = true)
    (hlast : ¬ isInputSpace (body.getLast hne) = true) :
    trimmed (front ++ body ++ back) = body := by
  rcases List.forall_mem_append.mp hspaces with ⟨hfront, hback⟩
  have hstart : (front ++ body ++ back).dropWhile isInputSpace = body ++ back := by
    rw [List.append_assoc, List.dropWhile_append_of_pos hfront]
    rcases List.exists_cons_of_ne_nil hne with ⟨c, rest, rfl⟩
    have hfirst : ¬ isInputSpace c = true := hhead
    rw [List.cons_append, List.dropWhile_cons_of_neg hfirst]
  have hbackwards : ∀ c ∈ back.reverse, isInputSpace c = true :=
    fun c hc => hback c (List.mem_reverse.mp hc)
  have hself : body.rdropWhile isInputSpace = body :=
    List.rdropWhile_eq_self_iff.mpr fun _ => hlast
  rw [trimmed, hstart, List.rdropWhile, List.reverse_append,
    List.dropWhile_append_of_pos hbackwards, ← List.rdropWhile, hself]

/-- A numeral has no white space at its ends. -/
theorem trimmed_numeral {sign digits : List Char} (hrun : Decimal.IsRun digits)
    (hsigned : Decimal.Signed digits sign v)
    (hspaces : ∀ c ∈ front ++ back, isInputSpace c = true) :
    trimmed (front ++ (sign ++ digits) ++ back) = sign ++ digits := by
  have hne : sign ++ digits ≠ [] := List.append_ne_nil_of_right_ne_nil sign hrun.1
  refine trimmed_append hspaces hne ?_ ?_
  · cases hsigned with
    | bare => exact not_isInputSpace_of_isDigit (hrun.2 _ (List.head_mem hrun.1))
    | plus => exact (by decide : ¬ isInputSpace '+' = true)
    | minus => exact (by decide : ¬ isInputSpace '-' = true)
  · rw [List.getLast_append_of_right_ne_nil _ _ hrun.1]
    exact not_isInputSpace_of_isDigit (hrun.2 _ (List.getLast_mem hrun.1))

/-- The input is an integer if there is a numeral of a word in it, and white space otherwise. -/
theorem inputInteger?_eq_some_iff : inputInteger? text = some v ↔ IsIntegerInput text v := by
  rw [inputInteger?_eq, Decimal.word?_eq_some_iff]
  constructor
  · rintro ⟨⟨sign, digits, htrimmed, hrun, hsigned⟩, hrange⟩
    rcases exists_trimmed text with ⟨front, back, htext, hspaces⟩
    rw [htrimmed, ← List.append_assoc] at htext
    exact ⟨front, sign, digits, back, htext, fun c hc => isInputSpace_iff.mp (hspaces c hc), hrun,
      hsigned, hrange⟩
  · rintro ⟨front, sign, digits, back, rfl, hspaces, hrun, hsigned, hrange⟩
    refine ⟨⟨sign, digits, ?_, hrun, hsigned⟩, hrange⟩
    rw [List.append_assoc front]
    exact trimmed_numeral hrun hsigned fun c hc => isInputSpace_iff.mpr (hspaces c hc)

/-- The numeral of a word is read as this word. -/
theorem inputInteger?_ofInt (h : Word.InRange v) :
    inputInteger? (Decimal.ofInt v).toList = some v := by
  rcases Decimal.word?_eq_some_iff.mp (Decimal.word?_ofInt h) with
    ⟨⟨sign, digits, htext, hrun, hsigned⟩, -⟩
  refine inputInteger?_eq_some_iff.mpr ⟨[], sign, digits, [], ?_, by simp, hrun, hsigned, h⟩
  rw [htext, List.nil_append, List.append_nil]

end Input

namespace DataPath

/-- What is printed in integer mode is read in integer mode as the word that was printed. -/
theorem emit_reads_back {d : DataPath} (hmode : d.operand = integerMode)
    (hword : Word.InRange d.acc) :
    ∃ token, d.apply .emit = .ok { d with printed := token :: d.printed } ∧
      ∀ e : DataPath, e.operand = integerMode → e.input = token.toList →
        e.apply (.latchAccumulator .input) = .ok (e.setAccumulator d.acc) := by
  refine ⟨Decimal.ofInt d.acc, ?_, fun e hreads hinput => ?_⟩
  · have hother : ¬ d.operand = characterMode := by
      rw [hmode]
      decide
    rw [apply, emitted, if_neg hother]
    rfl
  · rw [apply, loadAccumulator, if_pos hreads, readInteger, hinput, inputInteger?_ofInt hword]

end DataPath

/-! ## Declarations -/

namespace Source

open Decimal (IsRun Signed)

variable {sign digits : List Char} {v : Int}

/-- Digits with or without a minus sign are the literal of the word that they denote, if they denote
    one. -/
theorem isLiteral_scan_iff (offset : Nat) (hsign : sign = [] ∨ sign = ['-']) (hrun : IsRun digits) :
    (∃ spelling span, IsLiteral (Token.scan offset (sign ++ digits)) spelling v span) ↔
      Signed digits sign v ∧ Word.InRange v := by
  have hprintable : (Token.number (String.ofList digits)).Printable := by
    rwa [Token.Printable, String.toList_ofList]
  have hnumber : number (String.ofList digits) = Decimal.positional digits := by
    rw [number, String.toList_ofList, Decimal.ofDigitChars_eq_positional]
  have hscan := fun place => Token.scan_digits place hprintable
  rw [String.toList_ofList] at hscan
  -- Digits are a single token, and a sign in front of them is another one.
  rcases hsign with rfl | rfl
  · rw [List.nil_append, hscan]
    constructor
    · rintro ⟨spelling, span, h⟩
      cases h with
      | plain hrange =>
        rw [hnumber] at hrange ⊢
        exact ⟨.bare, hrange⟩
    · rintro ⟨hsigned, hrange⟩
      cases hsigned with
      | bare => exact ⟨_, _, isLiteral_plain _ hnumber hrange⟩
  · rw [Token.scan_of_isMunch offset (Token.isMunch_minus digits), hscan]
    constructor
    · rintro ⟨spelling, span, h⟩
      cases h with
      | signed hrange =>
        rw [hnumber] at hrange ⊢
        exact ⟨.minus, hrange⟩
    · rintro ⟨hsigned, hrange⟩
      cases hsigned with
      | minus => exact ⟨_, _, isLiteral_signed _ _ (by rw [hnumber]) hrange⟩

end Source

namespace Program

open Decimal (IsRun Signed)

/-- A declaration of an integer, with the text of its value. -/
def declaration (name : String) (value : List Char) : List Char :=
  ("int " ++ name ++ " ").toList ++ value

/-- The program that consists of a declaration stores a word: it binds the name to the first
    address, and the image has the word there and nothing else. -/
def Stores (name : String) (dataBase : Int) (value : List Char) (v : Int) : Prop :=
  ∃ compiled, Compiled.ofSource? (declaration name value) dataBase = .ok compiled ∧
    compiled.symbols.get? name = some ⟨dataBase, .int⟩ ∧
    compiled.image.cells = [⟨.data v, dataBase⟩]

variable {name : String} {dataBase v : Int} {sign digits : List Char}

/-- A declaration is read where its value is a literal. -/
theorem declaration_ok_iff (hname : (Token.identifier name).Printable) {value : List Char}
    {offset : Nat} {s : Statement} : Statement.parse? (declaration name value) offset = .ok s ↔
      ∃ v, (∃ spelling span, Source.IsLiteral
        (Token.scan (offset + 3 + 1 + Text.byteLength name.toList + 1) value) spelling v span) ∧
        s = ⟨.int name v,
          ⟨offset, offset + Text.byteLength (Text.trimEnd (declaration name value))⟩⟩ := by
  have htext : (Keyword.int.spelling ++ " " ++ name ++ " ").toList ++ value
      = declaration name value := rfl
  have hint : Text.byteLength Keyword.int.spelling.toList = 3 := rfl
  have hscan := Statement.scan_declaration offset .int hname value
  rw [htext, hint] at hscan
  rw [Statement.parse?_eq_ok_iff, hscan]
  constructor
  · intro h
    cases h with
    | statement hfollows =>
      cases hfollows with
      | int hliteral => exact ⟨_, ⟨_, _, hliteral⟩, rfl⟩
  · rintro ⟨v, ⟨spelling, span, hliteral⟩, rfl⟩
    exact .statement (.int hliteral)

/-- Neither a name nor a numeral has a semicolon in it. -/
theorem semicolon_not_mem_declaration (hname : (Token.identifier name).Printable)
    (hsign : sign = [] ∨ sign = ['-']) (hrun : IsRun digits) :
    ';' ∉ declaration name (sign ++ digits) := by
  have hother : ¬ (Token.IsLetter ';' ∨ Token.IsDigit ';') := by
    rw [← Token.isWordChar_iff]
    decide
  rcases hname.1 with ⟨c, rest, htext, hc, hrest⟩
  have hinName : ';' ∉ name.toList := by
    rw [htext, List.mem_cons]
    rintro (rfl | hmem)
    · exact hother (Or.inl hc)
    · exact hother (hrest _ hmem)
  have hinSign : ';' ∉ sign := by
    rcases hsign with rfl | rfl
    · exact List.not_mem_nil
    · decide
  have hinDigits : ';' ∉ digits := fun hmem => hother (Or.inr (hrun.2 _ hmem))
  simpa [declaration, hinName, hinSign] using hinDigits

/-- What a declaration compiles to where its address is not a reserved one. -/
theorem compile_int (name : String) (v : Int) (span : Span)
    (hbase : SymbolTable.isReserved dataBase = false) :
    compile ⟨[⟨.int name v, span⟩]⟩ dataBase = .ok ⟨[⟨span, [], false, none⟩],
      ⟨[(name, ⟨dataBase, .int⟩)], [⟨.data v, dataBase⟩], dataBase - 1⟩⟩ := by
  have hdeclare : (SymbolTable.declareInt name v).runOn (.empty dataBase)
      = (.ok (.fresh dataBase), (SymbolTable.empty dataBase).fresh name v .int) := by
    rw [SymbolTable.declareInt, SymbolTable.runOn_declare]
    simp [SymbolTable.empty, SymbolTable.get?, hbase]
  have hallocate : (Lowering.allocating span (SymbolTable.declareInt name v)).run (.empty dataBase)
      = .ok (.fresh dataBase, (SymbolTable.empty dataBase).fresh name v .int) := by
    rw [StateT.run, Lowering.allocating, hdeclare]
  have hlower : (Lowering.statements [] 0 [] [⟨.int name v, span⟩]).run (.empty dataBase)
      = .ok ([⟨span, [], false, none⟩], (SymbolTable.empty dataBase).fresh name v .int) := by
    simp [Lowering.statements, Lowering.statement, Lowering.form, hallocate, Lowering.ignored]
  -- There is no code that the cell could lie in.
  have hoverlap : (⟨[⟨span, [], false, none⟩],
      (SymbolTable.empty dataBase).fresh name v .int⟩ : Compiled).overlap? = none := by
    simp [Compiled.overlap?, Compiled.code]
  have hpairs : LoopPairs.ofStatements? [⟨.int name v, span⟩] = .ok [] := rfl
  rw [compile, hpairs]
  simp only [bind, Except.bind, hlower, hoverlap]
  rfl

/-- A declaration of digits, with or without a minus sign, has a value if they denote a word. -/
theorem declaration_denotes (offset : Nat) (hname : (Token.identifier name).Printable)
    (hsign : sign = [] ∨ sign = ['-']) (hrun : IsRun digits) {s : Statement} :
    Statement.parse? (declaration name (sign ++ digits)) offset = .ok s ↔
      ∃ v, (Signed digits sign v ∧ Word.InRange v) ∧ s = ⟨.int name v,
        ⟨offset, offset + Text.byteLength (Text.trimEnd (declaration name (sign ++ digits)))⟩⟩ := by
  rw [declaration_ok_iff hname]
  simp only [Source.isLiteral_scan_iff _ hsign hrun]

/-- The compilation of a declaration of digits: the cell with the word that they denote, or an error
    if they denote none. -/
theorem ofSource?_declaration (hname : (Token.identifier name).Printable)
    (hbase : SymbolTable.isReserved dataBase = false) (hsign : sign = [] ∨ sign = ['-'])
    (hrun : IsRun digits) :
    (∃ v, (Signed digits sign v ∧ Word.InRange v) ∧ ∃ span,
      Compiled.ofSource? (declaration name (sign ++ digits)) dataBase
        = .ok ⟨[⟨span, [], false, none⟩],
          ⟨[(name, ⟨dataBase, .int⟩)], [⟨.data v, dataBase⟩], dataBase - 1⟩⟩) ∨
    (∀ v, ¬ (Signed digits sign v ∧ Word.InRange v)) ∧
      ∃ e, Compiled.ofSource? (declaration name (sign ++ digits)) dataBase = .error (.parse e) := by
  have hvisible : Text.allBlank (declaration name (sign ++ digits)) = false := by
    rw [declaration, String.toList_append, String.toList_append, List.append_assoc]
    rfl
  have hparse := parse?_of_visible (semicolon_not_mem_declaration hname hsign hrun) hvisible
  rw [Compiled.ofSource?, hparse]
  cases hs : Statement.parse? (declaration name (sign ++ digits)) 0 with
  | ok s =>
    rcases (declaration_denotes 0 hname hsign hrun).mp hs with ⟨v, hv, rfl⟩
    refine Or.inl ⟨v, hv,
      ⟨0, 0 + Text.byteLength (Text.trimEnd (declaration name (sign ++ digits)))⟩, ?_⟩
    have hcompile := compile_int name v
      ⟨0, 0 + Text.byteLength (Text.trimEnd (declaration name (sign ++ digits)))⟩ hbase
    exact congrArg (Except.mapError SourceError.compile) hcompile
  | error e =>
    refine Or.inr ⟨fun v hv => ?_, e, rfl⟩
    have hok := (declaration_denotes 0 hname hsign hrun).mpr ⟨v, hv, rfl⟩
    rw [hs] at hok
    cases hok

/-- A declaration stores the word that its digits denote. -/
theorem stores_iff (hname : (Token.identifier name).Printable)
    (hbase : SymbolTable.isReserved dataBase = false) (hsign : sign = [] ∨ sign = ['-'])
    (hrun : IsRun digits) :
    Stores name dataBase (sign ++ digits) v ↔ Signed digits sign v ∧ Word.InRange v := by
  rcases ofSource?_declaration hname hbase hsign hrun with ⟨w, hw, span, hsource⟩ | ⟨hnone, e, he⟩
  · constructor
    · rintro ⟨compiled, hcompiled, -, hcells⟩
      rw [hsource] at hcompiled
      cases hcompiled
      cases hcells
      exact hw
    · intro hv
      rw [hv.1.unique hw.1]
      exact ⟨_, hsource, List.lookup_cons_self, rfl⟩
  · constructor
    · rintro ⟨compiled, hcompiled, -⟩
      rw [he] at hcompiled
      cases hcompiled
    · exact fun hv => absurd hv (hnone v)

/-- A declaration is refused if its digits denote no word. -/
theorem refused_iff (hname : (Token.identifier name).Printable)
    (hbase : SymbolTable.isReserved dataBase = false) (hsign : sign = [] ∨ sign = ['-'])
    (hrun : IsRun digits) :
    (∃ e, Compiled.ofSource? (declaration name (sign ++ digits)) dataBase = .error e) ↔
      ∀ v, ¬ Stores name dataBase (sign ++ digits) v := by
  simp only [stores_iff hname hbase hsign hrun]
  rcases ofSource?_declaration hname hbase hsign hrun with ⟨w, hw, span, hsource⟩ | ⟨hnone, e, he⟩
  · constructor
    · rintro ⟨e, he⟩
      rw [hsource] at he
      cases he
    · exact fun hnone => absurd hw (hnone w)
  · exact ⟨fun _ => hnone, fun _ => ⟨_, he⟩⟩

end Program

section Agreement

variable {sign digits : List Char} {v : Int}

/-- Digits after a sign are read as the word that they denote, if they denote one. -/
theorem inputInteger?_signed (hrun : Decimal.IsRun digits) (h : Decimal.Signed digits sign v) :
    inputInteger? (sign ++ digits) = Word.checked v := by
  have hspaces : ∀ c ∈ ([] ++ [] : List Char), isInputSpace c = true := by simp
  have htrimmed := trimmed_numeral hrun h hspaces
  rw [List.nil_append, List.append_nil] at htrimmed
  rw [inputInteger?_eq, htrimmed, Decimal.word?, Decimal.integer?_of_signed hrun h]
  rfl

/-- What is read from the input is what a declaration of the same text stores. -/
theorem inputInteger?_iff_stores {name : String} {dataBase : Int}
    (hname : (Token.identifier name).Printable)
    (hbase : SymbolTable.isReserved dataBase = false) (hsign : sign = [] ∨ sign = ['-'])
    (hrun : Decimal.IsRun digits) :
    inputInteger? (sign ++ digits) = some v ↔ Program.Stores name dataBase (sign ++ digits) v := by
  obtain ⟨w, hw⟩ : ∃ w, Decimal.Signed digits sign w := by
    rcases hsign with rfl | rfl
    · exact ⟨_, .bare⟩
    · exact ⟨_, .minus⟩
  rw [Program.stores_iff hname hbase hsign hrun, inputInteger?_signed hrun hw,
    Word.checked_eq_some_iff]
  constructor
  · rintro ⟨rfl, hrange⟩
    exact ⟨hw, hrange⟩
  · rintro ⟨hv, hrange⟩
    rw [hw.unique hv]
    exact ⟨rfl, hrange⟩

end Agreement

/-- Integers are read exactly. A text is an integer if it has digits with a sign in front and white
    space around, and if they denote a word. What is printed is one, and reads back. So is the value
    of a declaration, and a text that no declaration may have as its value is none. -/
theorem inputInteger?_exact :
    (∀ text v, inputInteger? text = some v ↔ IsIntegerInput text v) ∧
    (∀ v, Word.InRange v → inputInteger? (Decimal.ofInt v).toList = some v) ∧
    (∀ d : DataPath, d.operand = integerMode → Word.InRange d.acc →
      ∃ token, d.apply .emit = .ok { d with printed := token :: d.printed } ∧
        ∀ e : DataPath, e.operand = integerMode → e.input = token.toList →
          e.apply (.latchAccumulator .input) = .ok (e.setAccumulator d.acc)) ∧
    ∀ name dataBase sign digits, (Token.identifier name).Printable →
      SymbolTable.isReserved dataBase = false → sign = [] ∨ sign = ['-'] → Decimal.IsRun digits →
        (∀ v, inputInteger? (sign ++ digits) = some v ↔
          Program.Stores name dataBase (sign ++ digits) v) ∧
        (inputInteger? (sign ++ digits) = none ↔ ∃ e,
          Compiled.ofSource? (Program.declaration name (sign ++ digits)) dataBase = .error e) := by
  refine ⟨fun text v => inputInteger?_eq_some_iff, fun v => inputInteger?_ofInt,
    fun d => DataPath.emit_reads_back, fun name dataBase sign digits hname hbase hsign hrun => ?_⟩
  refine ⟨fun v => inputInteger?_iff_stores hname hbase hsign hrun, ?_⟩
  rw [Program.refused_iff hname hbase hsign hrun, Option.eq_none_iff_forall_ne_some]
  exact forall_congr' fun v => not_congr (inputInteger?_iff_stores hname hbase hsign hrun)

/-- The least word with a leading zero, printed, and declared, and a text that is one too large. -/
theorem inputInteger?_minimum :
    IsIntegerInput " \t-09223372036854775808\r\n".toList Word.minimum ∧
    inputInteger? (Decimal.ofInt Word.minimum).toList = some Word.minimum ∧
    (∃ token, DataPath.apply { DataPath.start .empty [] with acc := Word.minimum } .emit
        = .ok { DataPath.start .empty [] with acc := Word.minimum, printed := [token] } ∧
      (DataPath.start .empty token.toList).apply (.latchAccumulator .input)
        = .ok ((DataPath.start .empty token.toList).setAccumulator Word.minimum)) ∧
    Program.Stores "x" 100 "-09223372036854775808".toList Word.minimum ∧
    ∃ e, Compiled.ofSource? (Program.declaration "x" "9223372036854775808".toList) 100
      = .error e := by
  have hword : Word.InRange Word.minimum := by decide
  have hrun : Decimal.IsRun "09223372036854775808".toList := by
    simp only [Decimal.IsRun, ← Token.isDigit_iff]
    exact ⟨by decide, List.all_eq_true.mp (by decide)⟩
  have hlarge : Decimal.IsRun "9223372036854775808".toList := by
    simp only [Decimal.IsRun, ← Token.isDigit_iff]
    exact ⟨by decide, List.all_eq_true.mp (by decide)⟩
  rcases inputInteger?_exact with ⟨hreads, hnumeral, hprints, hdeclares⟩
  have hstores := hdeclares "x" 100 ['-'] "09223372036854775808".toList Statement.printable_x
    (by decide) (Or.inr rfl) hrun
  have hrefused := hdeclares "x" 100 [] "9223372036854775808".toList Statement.printable_x
    (by decide) (Or.inl rfl) hlarge
  rcases hprints { DataPath.start .empty [] with acc := Word.minimum } rfl hword with
    ⟨token, hemit, hreadsBack⟩
  exact ⟨(hreads _ _).mp (by decide), hnumeral _ hword,
    ⟨token, hemit, hreadsBack (.start .empty token.toList) rfl rfl⟩,
    (hstores.1 _).mp (by decide), hrefused.2.mp (by decide)⟩

end AccumulatorMachine
