import AccumulatorMachine.Proofs.Source.Acceptance
import AccumulatorMachine.Proofs.Source.Lexemes

/-!
# Printed Tokens

What is printed reads back.

The texts of tokens are lexemes, and no lexeme has a separator in it. So a lexeme with a separator
behind it is the longest one at its place, whatever stands further on, and tokens that are printed
with spaces between them are scanned one by one.

A negative number has no space behind its sign. There the sign is the longest lexeme because it is
the only one that begins with this character. In a statement the two tokens are one operand again,
down to the least word, whose digits alone denote no word.

## Main definitions

* `Token.Printable`: The tokens that a text can have.
* `Token.printed`: Tokens with a space after each but the last.

## Theorems

* `Token.scan_of_isMunch`: A text that begins with its longest lexeme.
* `Token.scan_printed`: Printed tokens are scanned as they were.
* `Source.isLiteral_scan`: So is the numeral of a word, as a literal.
* `Statement.printed_reads_back`: Printed tokens and words read back.
-/

namespace AccumulatorMachine

namespace Text

/-- A text that ends with a visible character has nothing to be trimmed. -/
theorem trimEnd_concat (text : List Char) {c : Char} (hc : isBlank c = false) :
    trimEnd (text ++ [c]) = text ++ [c] := by
  refine List.IsPrefix.eq_of_length_le ?_ (prefix_trimEnd text [] hc).length_le
  exact trimEnd_prefix _

end Text

namespace Token

/-- A token that a text can have: no error, an identifier that matches its pattern and is not
    reserved, or a number with digits only. -/
def Printable : Token → Prop
  | error => False
  | keyword _ => True
  | identifier name => (∃ c rest, name.toList = c :: rest ∧ IsLetter c ∧
      ∀ d ∈ rest, IsLetter d ∨ IsDigit d) ∧ ∀ word : Keyword, name ≠ word.spelling
  | number digits => digits.toList ≠ [] ∧ ∀ d ∈ digits.toList, IsDigit d
  | punctuation _ => True

/-- The texts of tokens with a space after each but the last. -/
def printed (tokens : List Token) : List Char :=
  [' '].intercalate (tokens.map fun token => token.render.toList)

/-! ## Lexemes in a text -/

theorem IsLexeme.visible {token : Token} {word : List Char} (h : IsLexeme token word) :
    ∀ c ∈ word, Text.isBlank c = false := by
  cases word with
  | nil => exact absurd rfl h.ne_nil
  | cons c rest =>
    rcases h.kind with ⟨hc, hrest, -⟩ | ⟨hc, hrest, -⟩ | ⟨-, -, mark, spelled, -, hmem, hspelled⟩
    · exact List.forall_mem_cons.mpr ⟨isBlank_of_isWordChar (isWordChar_of_isWordStart hc),
        fun d hd => isBlank_of_isWordChar (hrest d hd)⟩
    · exact List.forall_mem_cons.mpr ⟨isBlank_of_isWordChar (isWordChar_of_isDigit hc),
        fun d hd => isBlank_of_isWordChar (isWordChar_of_isDigit (hrest d hd))⟩
    · exact hspelled ▸ isBlank_of_mem_spelling hmem

/-- The text of a reserved word is the lexeme of no other token but an identifier. -/
theorem IsLexeme.of_reserved {token : Token} {reserved : Keyword}
    (h : IsLexeme token reserved.spelling.toList) :
    token = .keyword reserved ∨ token = .identifier reserved.spelling := by
  rcases hspelling : reserved.spelling.toList with _ | ⟨c, rest⟩
  · exact absurd hspelling h.ne_nil
  · rw [hspelling] at h
    rcases (h.of_wordStart (isWord_spelling hspelling).1).2 with rfl | ⟨word, rfl, hword⟩
    · rw [← hspelling, String.ofList_toList]
      exact Or.inr rfl
    · have heq := congrArg Keyword.ofSpelling? (String.toList_injective (hspelling.trans hword))
      rw [Keyword.ofSpelling?_spelling, Keyword.ofSpelling?_spelling, Option.some.injEq] at heq
      exact Or.inl (congrArg Token.keyword heq.symm)

/-- The token of the longest lexeme can be printed. -/
theorem IsMunch.printable {text word : List Char} {token : Token} (h : IsMunch text word token) :
    token.Printable := by
  rcases h with ⟨-, hlexeme, -, hreserved⟩
  cases hlexeme with
  | keyword | mark | arrow => trivial
  | number hne hdigits => exact ⟨by simpa using hne, by simpa using hdigits⟩
  | @identifier c rest hfirst hrest =>
    refine ⟨⟨c, rest, String.toList_ofList, hfirst, hrest⟩, fun reserved hword => ?_⟩
    have hlexeme : IsLexeme (.keyword reserved) (c :: rest) :=
      isLexeme_keyword_iff.mpr (by rw [← hword, String.toList_ofList])
    cases hreserved reserved hlexeme

/-- Only an error is found in a text and cannot be printed. -/
theorem printable_of_mem_scan {offset : Nat} {text : List Char} {token : Token × Span}
    (h : token ∈ scan offset text) (herror : token.1 ≠ .error) : token.1.Printable := by
  rcases mem_scan h with ⟨front, c, rest, -, -, rfl⟩
  exact (first_isMunch herror).printable

theorem isBlank_of_mem_separators {c : Char} (h : c ∈ separators) : Text.isBlank c = true :=
  List.all_eq_true.mp (by decide : separators.all Text.isBlank = true) c h

/-- A text that begins with its longest lexeme is scanned as the token of the lexeme and what
    follows it. -/
theorem scan_of_isMunch (offset : Nat) {word rest : List Char} {token : Token}
    (h : IsMunch (word ++ rest) word token) : scan offset (word ++ rest)
      = (token, ⟨offset, offset + Text.byteLength word⟩)
        :: scan (offset + Text.byteLength word) rest := by
  cases word with
  | nil => exact absurd rfl h.lexeme.ne_nil
  | cons c word =>
    have hskipped : ¬ isSkipped c = true := fun hskipped => by
      have hblank := isBlank_of_mem_separators (isSkipped_iff.mp hskipped)
      rw [h.lexeme.visible c List.mem_cons_self] at hblank
      cases hblank
    have herror : (first c (word ++ rest)).1 ≠ .error := fun herror =>
      (first_of_error herror).2 _ _ h.begins h.lexeme
    rcases (first_isMunch herror).unique h with ⟨hword, htoken⟩
    rw [List.cons_eq_cons] at hword
    have hrest : (first c (word ++ rest)).2.2 = rest := by
      have happend := first_append c (word ++ rest)
      rw [hword.2] at happend
      exact List.append_cancel_left happend
    rw [List.cons_append, scan, if_neg hskipped, htoken, hword.2, hrest]

theorem scan_separator {offset : Nat} {c : Char} (h : c ∈ separators) (text : List Char) :
    scan offset (c :: text) = scan (offset + 1) text := by
  rw [scan, if_pos (isSkipped_iff.mpr h), utf8Size_of_mem_separators h]

/-- A lexeme is the longest one if nothing or a separator follows. -/
theorem length_le_of_separated {word rest other : List Char} {token : Token}
    (hrest : ∀ c ∈ rest.head?, c ∈ separators) (hother : other <+: word ++ rest)
    (h : IsLexeme token other) : other.length ≤ word.length := by
  refine Nat.le_of_not_lt fun hlt => ?_
  rcases List.prefix_of_prefix_length_le (List.prefix_append word rest) hother
    (Nat.le_of_lt hlt) with ⟨more, rfl⟩
  have hmore := List.prefix_append_right_inj word |>.mp hother
  cases more with
  | nil => simp at hlt
  | cons c more =>
    rcases hmore with ⟨back, rfl⟩
    have hblank := isBlank_of_mem_separators (hrest c rfl)
    rw [h.visible c (by simp)] at hblank
    cases hblank

/-! ## Printed tokens -/

namespace Printable

variable {token : Token}

theorem lexeme (h : token.Printable) : IsLexeme token token.render.toList := by
  cases token with
  | error => exact absurd h id
  | keyword word => exact .keyword word
  | identifier name =>
    rcases h.1 with ⟨c, rest, hname, hc, hrest⟩
    have hlexeme := IsLexeme.identifier hc hrest
    rwa [← hname, String.ofList_toList] at hlexeme
  | number digits =>
    have hlexeme := IsLexeme.number h.1 h.2
    rwa [String.ofList_toList] at hlexeme
  | punctuation mark => exact .mark mark

/-- Only a reserved word is printed as one. -/
theorem reserved (h : token.Printable) {word : Keyword}
    (hword : IsLexeme (.keyword word) token.render.toList) : token = .keyword word := by
  have htext := isLexeme_keyword_iff.mp hword
  rcases IsLexeme.of_reserved (htext ▸ h.lexeme) with htoken | rfl
  · exact htoken
  · exact absurd rfl (h.2 word)

theorem isMunch (h : token.Printable) {rest : List Char}
    (hrest : ∀ c ∈ rest.head?, c ∈ separators) :
    IsMunch (token.render.toList ++ rest) token.render.toList token where
  begins := List.prefix_append _ _
  lexeme := h.lexeme
  longest := fun _ _ hother => length_le_of_separated hrest hother
  reserved := fun _ => h.reserved

end Printable

/-- A printed token is scanned as it was, and so is what stands behind a space. -/
theorem scan_printable (offset : Nat) {token : Token} (h : token.Printable) (rest : List Char) :
    scan offset (token.render.toList ++ ' ' :: rest)
      = (token, ⟨offset, offset + Text.byteLength token.render.toList⟩)
        :: scan (offset + Text.byteLength token.render.toList + 1) rest := by
  have hspace : ' ' ∈ separators := by decide
  have hseparated : ∀ c ∈ (' ' :: rest).head?, c ∈ separators := by
    rintro c ⟨⟩
    exact hspace
  rw [scan_of_isMunch _ (h.isMunch hseparated), scan_separator hspace]

/-- Printed tokens are scanned as they were, each with the span of its text. -/
theorem scan_printed (offset : Nat) {tokens : List Token} (h : ∀ token ∈ tokens, token.Printable) :
    scan offset (printed tokens) = tokens.zip ((Program.placed offset
      (tokens.map fun token => token.render.toList)).map Program.segmentSpan) := by
  induction tokens generalizing offset with
  | nil => exact scan.eq_1 offset
  | cons token tokens ih =>
    rcases List.forall_mem_cons.mp h with ⟨htoken, htokens⟩
    cases tokens with
    | nil =>
      have hend : ∀ c ∈ ([] : List Char).head?, c ∈ separators := by simp
      have hscan := scan_of_isMunch offset (htoken.isMunch hend)
      rw [List.append_nil, scan] at hscan
      rw [printed, List.map_singleton, List.intercalate_singleton, hscan]
      rfl
    | cons next tokens =>
      have hprinted : printed (token :: next :: tokens)
          = token.render.toList ++ ' ' :: printed (next :: tokens) := by
        simp only [printed, List.map_cons, List.intercalate_cons_cons, List.append_assoc,
          List.singleton_append]
      rw [hprinted, scan_printable offset htoken, ih _ htokens]
      rfl

/-- What is printed has the tokens that were printed. -/
theorem map_fst_scan_printed (offset : Nat) {tokens : List Token}
    (h : ∀ token ∈ tokens, token.Printable) :
    (scan offset (printed tokens)).map Prod.fst = tokens := by
  rw [scan_printed offset h, List.map_fst_zip]
  simp [Program.length_placed]

/-- A run of digits is scanned as one number. -/
theorem scan_digits (offset : Nat) {digits : String} (h : (number digits).Printable) :
    scan offset digits.toList
      = [(.number digits, ⟨offset, offset + Text.byteLength digits.toList⟩)] := by
  have hprintable : ∀ token ∈ [number digits], token.Printable := by simpa using h
  have hscan := scan_printed offset hprintable
  rwa [printed, List.map_singleton, List.intercalate_singleton] at hscan

/-- No other lexeme begins with a minus sign. -/
theorem isMunch_minus (rest : List Char) :
    IsMunch (['-'] ++ rest) ['-'] (.punctuation .minus) where
  begins := List.prefix_append ['-'] rest
  lexeme := .mark .minus
  longest := by
    intro other token hother hlexeme
    have htable : ∀ spelled ∈ Punctuation.spellings,
        spelled.1.toList.head? = some '-' → spelled.1.toList.length = 1 := by decide
    rcases hlexeme.of_other hother (by decide) (by decide) with ⟨mark, spelled, -, hmem, rfl⟩
    refine Nat.le_of_eq (htable _ hmem ?_)
    rcases hspelled : spelled.toList with _ | ⟨c, rest⟩
    · exact absurd hspelled hlexeme.ne_nil
    · rw [hspelled] at hother
      rw [(List.cons_prefix_cons.mp hother).1, List.head?_cons]
  reserved := by
    intro word hword
    cases word <;> cases isLexeme_keyword_iff.mp hword

end Token

namespace Source

/-! ## Words -/

theorem number_ofNat (n : Nat) : number (Decimal.ofNat n) = n := by
  rw [number, Decimal.ofNat, String.toList_ofList, Nat.ofDigitChars_ten_toDigits]

theorem printable_ofNat (n : Nat) : (Token.number (Decimal.ofNat n)).Printable := by
  rw [Token.Printable, Decimal.ofNat, String.toList_ofList]
  exact ⟨Nat.toDigits_ne_nil, fun d hd => Token.isDigit_iff.mp
    (Nat.isDigit_of_mem_toDigits (by decide) (by decide) hd)⟩

theorem scan_ofNat (offset n : Nat) : Token.scan offset (Decimal.ofNat n).toList
    = [(.number (Decimal.ofNat n),
        ⟨offset, offset + Text.byteLength (Decimal.ofNat n).toList⟩)] :=
  Token.scan_digits offset (printable_ofNat n)

theorem isLiteral_plain {digits : String} {v : Int} (span : Span) (hv : number digits = v)
    (h : Word.InRange v) : IsLiteral [(.number digits, span)] digits v span := by
  subst hv
  exact .plain h

theorem isLiteral_signed {digits : String} {v : Int} (sign span : Span) (hv : -number digits = v)
    (h : Word.InRange v) : IsLiteral [(.punctuation .minus, sign), (.number digits, span)]
      ("-" ++ digits) v ⟨sign.start, span.stop⟩ := by
  subst hv
  exact .signed h

/-- The numeral of a word is scanned as the literal with its value. -/
theorem isLiteral_scan (offset : Nat) {v : Int} (h : Word.InRange v) :
    IsLiteral (Token.scan offset (Decimal.ofInt v).toList) (Decimal.ofInt v) v
      ⟨offset, offset + Text.byteLength (Decimal.ofInt v).toList⟩ := by
  have hnumber := number_ofNat v.natAbs
  rw [Decimal.ofInt]
  split
  · next hneg =>
    -- The two tokens of a negative number stand side by side.
    rw [String.toList_append, show "-".toList = ['-'] from rfl,
      Token.scan_of_isMunch offset (Token.isMunch_minus _), scan_ofNat, Text.byteLength_append,
      ← Nat.add_assoc]
    exact isLiteral_signed _ _ (by omega) h
  · next hneg =>
    rw [scan_ofNat]
    exact isLiteral_plain _ (by omega) h

theorem isOperand_scan (offset : Nat) {v : Int} (h : Word.InRange v) :
    IsOperand (Token.scan offset (Decimal.ofInt v).toList) (Operand.ofInt v)
      ⟨offset, offset + Text.byteLength (Decimal.ofInt v).toList⟩ :=
  .literal (isLiteral_scan offset h)

/-- An operand by itself is an expression. -/
theorem IsOperand.isExpression {tokens : List (Token × Span)} {operand : Operand} {span : Span}
    (h : IsOperand tokens operand span) :
    IsExpression tokens ⟨[(.operand operand, span)], span⟩ where
  scans := .operand (List.append_nil tokens).symm h (.done false)
  span := ⟨_, _, rfl, rfl, rfl⟩

end Source

namespace Statement

open Source

section Words

variable (offset : Nat)

theorem printable_x : (Token.identifier "x").Printable := by
  refine ⟨⟨'x', [], rfl, Or.inr (Or.inl (by decide)), nofun⟩, fun word => ?_⟩
  cases word <;> decide

/-- A keyword and a name in front of something else, with a space behind each of them. -/
theorem scan_declaration (word : Keyword) {name : String}
    (hname : (Token.identifier name).Printable) (text : List Char) :
    Token.scan offset ((word.spelling ++ " " ++ name ++ " ").toList ++ text)
      = (.keyword word, ⟨offset, offset + Text.byteLength word.spelling.toList⟩)
        :: (.identifier name, ⟨offset + Text.byteLength word.spelling.toList + 1,
            offset + Text.byteLength word.spelling.toList + 1 + Text.byteLength name.toList⟩)
        :: Token.scan
          (offset + Text.byteLength word.spelling.toList + 1 + Text.byteLength name.toList + 1)
          text := by
  have hkeyword : (Token.keyword word).Printable := trivial
  have hscan := Token.scan_printable offset hkeyword (name.toList ++ ' ' :: text)
  have hspaced := Token.scan_printable
    (offset + Text.byteLength word.spelling.toList + 1) hname text
  simp only [Token.render] at hscan hspaced
  rw [hspaced] at hscan
  simpa using hscan

/-- A numeral ends with a digit. -/
theorem trimEnd_ofInt (text : List Char) (v : Int) :
    Text.trimEnd (text ++ (Decimal.ofInt v).toList) = text ++ (Decimal.ofInt v).toList := by
  obtain ⟨sign, hsign⟩ : ∃ sign, (Decimal.ofInt v).toList = sign ++ Nat.toDigits 10 v.natAbs := by
    rw [Decimal.ofInt, Decimal.ofNat]
    split
    · exact ⟨"-".toList, by simp⟩
    · exact ⟨[], by simp⟩
  rcases List.eq_nil_or_concat (Nat.toDigits 10 v.natAbs) with hnil | ⟨digits, c, hdigits⟩
  · exact absurd hnil Nat.toDigits_ne_nil
  · have hmem : c ∈ Nat.toDigits 10 v.natAbs := hdigits ▸ by simp
    have hc : c.isDigit = true := Nat.isDigit_of_mem_toDigits (by decide) (by decide) hmem
    rw [hsign, hdigits, List.concat_eq_append, ← List.append_assoc, ← List.append_assoc]
    exact Text.trimEnd_concat _ (Token.isBlank_of_isWordChar (Token.isWordChar_of_isDigit hc))

/-- A declaration with a numeral at its end says what its keyword makes of the numeral. -/
theorem parse?_declaration (word : Keyword) (hword : Text.byteLength word.spelling.toList = 3)
    {v : Int} {form : Form} (h : ∀ text, Follows text offset word
      ((.identifier "x", ⟨offset + 4, offset + 5⟩)
        :: Token.scan (offset + 6) (Decimal.ofInt v).toList) form) :
    parse? (word.spelling ++ " x " ++ Decimal.ofInt v).toList offset
      = .ok ⟨form, ⟨offset, offset + 6 + Text.byteLength (Decimal.ofInt v).toList⟩⟩ := by
  rw [parse?_eq_ok_iff, String.toList_append]
  have hstop : offset + 6 + Text.byteLength (Decimal.ofInt v).toList = offset + Text.byteLength
      (Text.trimEnd ((word.spelling ++ " x ").toList ++ (Decimal.ofInt v).toList)) := by
    rw [trimEnd_ofInt, String.toList_append, Text.byteLength_append, Text.byteLength_append, hword,
      Nat.add_assoc]
    rfl
  have hspaces : word.spelling ++ " x " = word.spelling ++ " " ++ "x" ++ " " := by
    simp only [String.append_assoc]
    rfl
  have hx : Text.byteLength "x".toList = 1 := rfl
  rw [hstop, hspaces, scan_declaration offset word printable_x, hword, hx]
  exact .statement (h _)

/-- What is printed reads back: tokens with spaces between them are scanned as they were, each with
    the span of its text, and the numeral of a word is read as an operand and as a value. -/
theorem printed_reads_back (offset : Nat) :
    (∀ tokens : List Token, (∀ token ∈ tokens, token.Printable) →
      Token.scan offset (Token.printed tokens) = tokens.zip ((Program.placed offset
        (tokens.map fun token => token.render.toList)).map Program.segmentSpan)) ∧
    ∀ v : Int, Word.InRange v → ∃ stop,
      stop = offset + 6 + Text.byteLength (Decimal.ofInt v).toList ∧
      parse? ("new x " ++ (Operand.ofInt v).render).toList offset
        = .ok ⟨.new "x" ⟨[(.operand (Operand.ofInt v), ⟨offset + 6, stop⟩)], ⟨offset + 6, stop⟩⟩,
            ⟨offset, stop⟩⟩ ∧
      parse? ("int x " ++ Decimal.ofInt v).toList offset = .ok ⟨.int "x" v, ⟨offset, stop⟩⟩ := by
  refine ⟨fun tokens => Token.scan_printed offset, fun v h => ⟨_, rfl, ?_, ?_⟩⟩
  · exact parse?_declaration offset .new rfl fun text =>
      .new (isOperand_scan (offset + 6) h).isExpression
  · exact parse?_declaration offset .int rfl fun text => .int (isLiteral_scan (offset + 6) h)

/-- A condition with a name that begins like a reserved word and a number with leading zeros, and
    the least word. -/
theorem condition_and_minimum_read_back :
    Token.scan 3 "while while1 <= 007".toList = [(.keyword .loop, ⟨3, 8⟩),
      (.identifier "while1", ⟨9, 15⟩), (.punctuation .lessEqual, ⟨16, 18⟩),
      (.number "007", ⟨19, 22⟩)] ∧
    ∃ stop, stop = 3 + 6 + Text.byteLength (Decimal.ofInt Word.minimum).toList ∧
      parse? ("new x " ++ (Operand.ofInt Word.minimum).render).toList 3
        = .ok ⟨.new "x" ⟨[(.operand (Operand.ofInt Word.minimum), ⟨3 + 6, stop⟩)],
            ⟨3 + 6, stop⟩⟩, ⟨3, stop⟩⟩ ∧
      parse? ("int x " ++ Decimal.ofInt Word.minimum).toList 3
        = .ok ⟨.int "x" Word.minimum, ⟨3, stop⟩⟩ := by
  have hname : (Token.identifier "while1").Printable := by
    refine ⟨⟨'w', "hile1".toList, rfl, Or.inr (Or.inl (by decide)), ?_⟩, fun word => ?_⟩
    · simp only [← Token.isWordChar_iff]
      exact List.all_eq_true.mp (by decide)
    · cases word <;> decide
  have hnumber : (Token.number "007").Printable := by
    refine ⟨by decide, ?_⟩
    simp only [← Token.isDigit_iff]
    exact List.all_eq_true.mp (by decide)
  refine ⟨(printed_reads_back 3).1 [.keyword .loop, .identifier "while1", .punctuation .lessEqual,
    .number "007"] ?_, (printed_reads_back 3).2 Word.minimum (by decide)⟩
  simpa using ⟨trivial, hname, trivial, hnumber⟩

end Words

end Statement

end AccumulatorMachine
