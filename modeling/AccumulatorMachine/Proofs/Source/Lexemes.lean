import AccumulatorMachine.Proofs.Source.Spelling

/-!
# Maximal Munch

How a text is cut into tokens, without the scanner.

A token has a pattern, and its lexemes are the texts that match it. Where a token starts, several
prefixes of the rest of the text may be lexemes, and one prefix may be a lexeme of two tokens. The
rule is that the longest prefix is taken, and that a reserved word is not an identifier. `IsMunch`
is this rule. It leaves no choice, so to know what the scanner makes of a text it is enough to know
what the rule does.

Nothing of a text is lost between tokens but separators. A character that is no separator and that
starts no lexeme is the token of an error, by itself.

## Main definitions

* `Token.IsLexeme`: The texts that match the pattern of a token.
* `Token.IsMunch`: The longest lexeme that a text begins with.
* `Token.separators`: The characters between tokens.

## Theorems

* `Token.IsMunch.unique`: The rule leaves no choice.
* `Token.first_isMunch`, `Token.first_of_error`: The scanner follows the rule.
* `Token.scan_covers`: Every byte stands in a token or is a separator.
* `Token.scan_munches`: Scanning is lossless maximal munch.
-/

namespace AccumulatorMachine

namespace Token

/-- A letter of a word. -/
def IsLetter (c : Char) : Prop := ('A' ≤ c ∧ c ≤ 'Z') ∨ ('a' ≤ c ∧ c ≤ 'z') ∨ c = '_'

/-- A digit of a word or a number. -/
def IsDigit (c : Char) : Prop := '0' ≤ c ∧ c ≤ '9'

/-- The texts that match the pattern of a token. An identifier and a number are what they match. The
    assignment mark has a second pattern. No text is an error by its pattern. -/
inductive IsLexeme : Token → List Char → Prop where
  | keyword (word : Keyword) : IsLexeme (.keyword word) word.spelling.toList
  | identifier {c : Char} {rest : List Char} (hfirst : IsLetter c)
      (hrest : ∀ d ∈ rest, IsLetter d ∨ IsDigit d) :
      IsLexeme (.identifier (String.ofList (c :: rest))) (c :: rest)
  | number {digits : List Char} (hne : digits ≠ []) (hdigits : ∀ d ∈ digits, IsDigit d) :
      IsLexeme (.number (String.ofList digits)) digits
  | mark (mark : Punctuation) : IsLexeme (.punctuation mark) mark.spelling.toList
  | arrow : IsLexeme (.punctuation .assign) "<-".toList

/-- The longest prefix of a text that is a lexeme of any token, and its token. A reserved word is
    not an identifier. -/
structure IsMunch (text word : List Char) (token : Token) : Prop where
  begins : word <+: text
  lexeme : IsLexeme token word
  longest : ∀ other token', other <+: text → IsLexeme token' other → other.length ≤ word.length
  reserved : ∀ reserved, IsLexeme (.keyword reserved) word → token = .keyword reserved

/-- The characters between tokens: space, line feed, tab, carriage return and form feed. -/
def separators : List Char := [' ', '\n', '\t', '\r', '\x0c']

/-! ## Characters -/

theorem isSkipped_iff {c : Char} : isSkipped c = true ↔ c ∈ separators := by
  simp [isSkipped, separators, or_assoc]

theorem utf8Size_of_mem_separators {c : Char} (h : c ∈ separators) : c.utf8Size = 1 := by
  simpa using List.all_eq_true.mp (by decide : separators.all (·.utf8Size == 1) = true) c h

theorem isWordStart_iff {c : Char} : isWordStart c = true ↔ IsLetter c := by
  have hclass : isWordStart c = true ↔ (decide ('A'.val ≤ c.val ∧ c.val ≤ 'Z'.val)
      || (decide ('a'.val ≤ c.val) && decide (c.val ≤ 'z'.val)) || decide (c = '_')) = true :=
    Iff.rfl
  simp only [hclass, IsLetter, Bool.or_eq_true, Bool.and_eq_true, decide_eq_true_eq, or_assoc,
    Char.le_def]

theorem isDigit_iff {c : Char} : c.isDigit = true ↔ IsDigit c := by
  simp only [Char.isDigit, IsDigit, Bool.and_eq_true, decide_eq_true_eq, ge_iff_le, Char.le_def]

theorem isWordChar_iff {c : Char} : isWordChar c = true ↔ IsLetter c ∨ IsDigit c := by
  rw [← isWordStart_iff, ← isDigit_iff]
  simp only [isWordChar, isWordStart, Char.isAlphanum, Bool.or_eq_true]
  exact or_right_comm

/-- Reserved words are words. -/
theorem isWord_spelling {word : Keyword} {c : Char} {rest : List Char}
    (h : word.spelling.toList = c :: rest) :
    isWordStart c = true ∧ ∀ d ∈ rest, isWordChar d = true := by
  have hword : (word.spelling.toList.head?.all isWordStart
      && word.spelling.toList.tail.all isWordChar) = true := by
    cases word <;> decide
  rw [h, Bool.and_eq_true, List.all_eq_true] at hword
  exact ⟨by simpa using hword.1, hword.2⟩

/-- No mark begins like a word or a number. -/
theorem begins_of_mem_spellings {spelled : String × Punctuation} {c : Char} {rest : List Char}
    (hmem : spelled ∈ Punctuation.spellings) (h : spelled.1.toList = c :: rest) :
    isWordStart c = false ∧ c.isDigit = false := by
  have htable : Punctuation.spellings.all (fun spelled =>
      spelled.1.toList.head?.all fun c => !isWordStart c && !c.isDigit) = true := by decide
  have hhead := List.all_eq_true.mp htable spelled hmem
  rw [h] at hhead
  simpa using hhead

/-! ## Lexemes -/

theorem isLexeme_keyword_iff {word : Keyword} {text : List Char} :
    IsLexeme (.keyword word) text ↔ text = word.spelling.toList := by
  constructor
  · rintro ⟨⟩
    rfl
  · rintro rfl
    exact .keyword word

/-- The lexemes of the marks are the spellings in their table. -/
theorem isLexeme_mark_iff {mark : Punctuation} {text : List Char} :
    IsLexeme (.punctuation mark) text ↔
      ∃ spelled, (spelled, mark) ∈ Punctuation.spellings ∧ spelled.toList = text := by
  constructor
  · intro h
    cases h with
    | mark => exact ⟨_, mark.spelling_mem_spellings, rfl⟩
    | arrow => exact ⟨"<-", by decide, rfl⟩
  · rintro ⟨spelled, hmem, rfl⟩
    have htable : ∀ entry ∈ Punctuation.spellings,
        entry.1 = entry.2.spelling ∨ entry = ("<-", .assign) := by decide
    rcases htable _ hmem with hspelling | harrow
    · rw [show spelled = mark.spelling from hspelling]
      exact .mark mark
    · cases harrow
      exact .arrow

theorem IsLexeme.ne_nil {token : Token} {word : List Char} (h : IsLexeme token word) :
    word ≠ [] := by
  cases h with
  | keyword word => cases word <;> decide
  | identifier => exact List.cons_ne_nil _ _
  | number hne => exact hne
  | mark mark => exact ne_nil_of_mem_spellings mark.spelling_mem_spellings
  | arrow => decide

/-- The first character of a lexeme tells of what kind it is: a word, a number or a mark. -/
theorem IsLexeme.kind {token : Token} {c : Char} {rest : List Char}
    (h : IsLexeme token (c :: rest)) :
    (isWordStart c = true ∧ (∀ d ∈ rest, isWordChar d = true) ∧
      (token = .identifier (String.ofList (c :: rest)) ∨
        ∃ word, token = .keyword word ∧ c :: rest = word.spelling.toList)) ∨
    (c.isDigit = true ∧ (∀ d ∈ rest, d.isDigit = true) ∧
      token = .number (String.ofList (c :: rest))) ∨
    (isWordStart c = false ∧ c.isDigit = false ∧ ∃ mark spelled, token = .punctuation mark ∧
      (spelled, mark) ∈ Punctuation.spellings ∧ spelled.toList = c :: rest) := by
  -- Words, numbers and marks have first characters of their own.
  cases token with
  | error => cases h
  | keyword word =>
    have hword := isLexeme_keyword_iff.mp h
    rcases isWord_spelling hword.symm with ⟨hc, hrest⟩
    exact Or.inl ⟨hc, hrest, Or.inr ⟨word, rfl, hword⟩⟩
  | identifier name =>
    cases h with
    | identifier hfirst hrest =>
      exact Or.inl ⟨isWordStart_iff.mpr hfirst, fun d hd => isWordChar_iff.mpr (hrest d hd),
        Or.inl rfl⟩
  | number digits =>
    cases h with
    | number hne hdigits =>
      rcases List.forall_mem_cons.mp hdigits with ⟨hc, hrest⟩
      exact Or.inr (Or.inl ⟨isDigit_iff.mpr hc, fun d hd => isDigit_iff.mpr (hrest d hd), rfl⟩)
  | punctuation mark =>
    rcases isLexeme_mark_iff.mp h with ⟨spelled, hmem, hspelled⟩
    rcases begins_of_mem_spellings hmem hspelled with ⟨hword, hdigit⟩
    exact Or.inr (Or.inr ⟨hword, hdigit, mark, spelled, rfl, hmem, hspelled⟩)

section Kind

variable {token token' : Token} {c : Char} {word rest text : List Char}

theorem IsLexeme.of_wordStart (h : IsLexeme token (c :: rest)) (hc : isWordStart c = true) :
    (∀ d ∈ rest, isWordChar d = true) ∧ (token = .identifier (String.ofList (c :: rest)) ∨
      ∃ word, token = .keyword word ∧ c :: rest = word.spelling.toList) := by
  rcases h.kind with ⟨-, hrest, htoken⟩ | ⟨hdigit, -⟩ | ⟨hword, -⟩
  · exact ⟨hrest, htoken⟩
  · exact absurd hdigit (Bool.eq_false_iff.mp (Decimal.not_isDigit_of_isWordStart hc))
  · exact absurd hc (Bool.eq_false_iff.mp hword)

theorem IsLexeme.of_digit (h : IsLexeme token (c :: rest)) (hc : c.isDigit = true) :
    (∀ d ∈ rest, d.isDigit = true) ∧ token = .number (String.ofList (c :: rest)) := by
  rcases h.kind with ⟨hword, -⟩ | ⟨-, hrest, htoken⟩ | ⟨-, hdigit, -⟩
  · exact absurd hc (Bool.eq_false_iff.mp (Decimal.not_isDigit_of_isWordStart hword))
  · exact ⟨hrest, htoken⟩
  · exact absurd hc (Bool.eq_false_iff.mp hdigit)

theorem IsLexeme.of_other (h : IsLexeme token word) (hbegins : word <+: c :: text)
    (hword : ¬ isWordStart c = true) (hdigit : ¬ c.isDigit = true) :
    ∃ mark spelled, token = .punctuation mark ∧ (spelled, mark) ∈ Punctuation.spellings ∧
      spelled.toList = word := by
  cases word with
  | nil => exact absurd rfl h.ne_nil
  | cons d rest =>
    obtain rfl := (List.cons_prefix_cons.mp hbegins).1
    rcases h.kind with ⟨hd, -⟩ | ⟨hd, -⟩ | ⟨-, -, hmark⟩
    · exact absurd hd hword
    · exact absurd hd hdigit
    · exact hmark

/-- Only a reserved word is a lexeme of two tokens. -/
theorem IsLexeme.eq_or_reserved (h : IsLexeme token word) (h' : IsLexeme token' word) :
    token = token' ∨ ∃ reserved, IsLexeme (.keyword reserved) word := by
  cases word with
  | nil => exact absurd rfl h.ne_nil
  | cons c rest =>
    by_cases hword : isWordStart c = true
    · rcases (h.of_wordStart hword).2 with rfl | ⟨reserved, -, hreserved⟩
      · rcases (h'.of_wordStart hword).2 with rfl | ⟨reserved, -, hreserved⟩
        · exact Or.inl rfl
        · exact Or.inr ⟨reserved, isLexeme_keyword_iff.mpr hreserved⟩
      · exact Or.inr ⟨reserved, isLexeme_keyword_iff.mpr hreserved⟩
    · by_cases hdigit : c.isDigit = true
      · exact Or.inl ((h.of_digit hdigit).2.trans (h'.of_digit hdigit).2.symm)
      · have hdistinct : ∀ first ∈ Punctuation.spellings, ∀ second ∈ Punctuation.spellings,
            first.1 = second.1 → first.2 = second.2 := by decide
        rcases h.of_other List.prefix_rfl hword hdigit with ⟨mark, spelled, rfl, hmem, hspelled⟩
        rcases h'.of_other List.prefix_rfl hword hdigit with
          ⟨mark', spelled', rfl, hmem', hspelled'⟩
        have heq := String.toList_injective (hspelled.trans hspelled'.symm)
        exact Or.inl (congrArg Token.punctuation (hdistinct _ hmem _ hmem' heq))

end Kind

/-! ## The longest lexeme -/

namespace IsMunch

variable {text word word' : List Char} {token token' : Token}

/-- The rule leaves no choice. -/
theorem unique (h : IsMunch text word token) (h' : IsMunch text word' token') :
    word = word' ∧ token = token' := by
  have hlength := Nat.le_antisymm (h'.longest _ _ h.begins h.lexeme)
    (h.longest _ _ h'.begins h'.lexeme)
  have hword : word = word' := (List.prefix_of_prefix_length_le h.begins h'.begins
    (Nat.le_of_eq hlength)).eq_of_length hlength
  subst hword
  refine ⟨rfl, ?_⟩
  rcases h.lexeme.eq_or_reserved h'.lexeme with htoken | ⟨reserved, hreserved⟩
  · exact htoken
  · rw [h.reserved reserved hreserved, h'.reserved reserved hreserved]

end IsMunch

/-! ## The scanner -/

/-- A prefix of characters of one kind goes no further than the run of them. -/
theorem length_le_takeWhile {p : Char → Bool} {word text : List Char} (h : word <+: text)
    (hp : ∀ c ∈ word, p c = true) : word.length ≤ (text.takeWhile p).length := by
  rcases h with ⟨back, rfl⟩
  rw [List.takeWhile_append_of_pos hp, List.length_append]
  exact Nat.le_add_right _ _

/-- The mark that the scanner finds is the longest one, since no spelling in the table begins a
    later one. -/
theorem markAt?_longest {text : List Char} {mark : Punctuation} {length : Nat}
    (h : markAt? text = some (mark, length)) :
    ∃ spelled, (spelled, mark) ∈ Punctuation.spellings ∧ spelled.toList <+: text ∧
      length = spelled.toList.length ∧ ∀ other ∈ Punctuation.spellings,
        other.1.toList <+: text → other.1.toList.length ≤ length := by
  have htable : Punctuation.spellings.Pairwise fun first second =>
      ¬ first.1.toList <+: second.1.toList := by decide
  rcases Option.map_eq_some_iff.mp h with ⟨⟨spelled, _⟩, hfind, hspelled⟩
  cases hspelled
  rcases List.find?_eq_some_iff_append.mp hfind with ⟨hbegin, front, back, hsplit, hfront⟩
  have hbeginning : spelled.toList <+: text := List.isPrefixOf_iff_prefix.mp hbegin
  refine ⟨spelled, List.mem_of_find?_eq_some hfind, hbeginning, rfl, fun other hother hbegins => ?_⟩
  rw [hsplit] at hother htable
  rcases List.mem_append.mp hother with hother | hother
  · -- The table was searched from the front.
    have hnot := hfront other hother
    rw [List.isPrefixOf_iff_prefix.mpr hbegins] at hnot
    cases hnot
  · rcases List.mem_cons.mp hother with rfl | hother
    · exact Nat.le_refl _
    · refine Nat.le_of_not_le fun hle => ?_
      have hnot := (List.pairwise_cons.mp (List.pairwise_append.mp htable).2.1).1 other hother
      exact hnot (List.prefix_of_prefix_length_le hbeginning hbegins hle)

theorem markAt?_eq_none_iff {text : List Char} : markAt? text = none ↔
    ∀ spelled ∈ Punctuation.spellings, ¬ spelled.1.toList <+: text := by
  simp [markAt?, List.isPrefixOf_iff_prefix]

theorem ofWord_spelling (word : Keyword) : ofWord word.spelling = .keyword word := by
  rw [ofWord, Keyword.ofSpelling?_spelling]

theorem ofWord_ne_error (word : String) : ofWord word ≠ .error := by
  rw [ofWord]
  split <;> simp

section First

variable {c : Char} {text : List Char}

theorem isLexeme_ofWord (hc : isWordStart c = true) (htext : ∀ d ∈ text, isWordChar d = true) :
    IsLexeme (ofWord (String.ofList (c :: text))) (c :: text) := by
  rw [ofWord]
  split
  · next word hfind =>
    have hspelling : word.spelling = String.ofList (c :: text) := by
      simpa using List.find?_some hfind
    rw [isLexeme_keyword_iff, hspelling, String.toList_ofList]
  · exact .identifier (isWordStart_iff.mp hc) fun d hd => isWordChar_iff.mp (htext d hd)

/-- All lexemes that a text begins with have its first character. -/
theorem longest_of_rest {word : List Char} (h : ∀ token rest, rest <+: text →
    IsLexeme token (c :: rest) → rest.length ≤ word.length) (other : List Char) (token : Token)
    (hbegins : other <+: c :: text) (hlexeme : IsLexeme token other) :
    other.length ≤ (c :: word).length := by
  cases other with
  | nil => exact Nat.zero_le _
  | cons d rest =>
    rcases List.cons_prefix_cons.mp hbegins with ⟨rfl, hrest⟩
    exact Nat.succ_le_succ (h token rest hrest hlexeme)

theorem isMunch_word (hc : isWordStart c = true) :
    IsMunch (c :: text) (c :: text.takeWhile isWordChar)
      (ofWord (String.ofList (c :: text.takeWhile isWordChar))) where
  begins := List.cons_prefix_cons.mpr ⟨rfl, List.takeWhile_prefix _⟩
  lexeme := isLexeme_ofWord hc (List.all_eq_true.mp List.all_takeWhile)
  longest := longest_of_rest fun _ _ hrest hlexeme =>
    length_le_takeWhile hrest (hlexeme.of_wordStart hc).1
  reserved := by
    intro reserved hreserved
    rw [isLexeme_keyword_iff.mp hreserved, String.ofList_toList, ofWord_spelling]

theorem isMunch_digits (hc : c.isDigit = true) :
    IsMunch (c :: text) (c :: text.takeWhile Char.isDigit)
      (.number (String.ofList (c :: text.takeWhile Char.isDigit))) where
  begins := List.cons_prefix_cons.mpr ⟨rfl, List.takeWhile_prefix _⟩
  lexeme := .number (List.cons_ne_nil c _) (List.forall_mem_cons.mpr
    ⟨isDigit_iff.mp hc, fun d hd => isDigit_iff.mp (List.all_eq_true.mp List.all_takeWhile d hd)⟩)
  longest := longest_of_rest fun _ _ hrest hlexeme =>
    length_le_takeWhile hrest (hlexeme.of_digit hc).1
  reserved := by
    intro reserved hreserved
    cases (hreserved.of_digit hc).2

theorem isMunch_mark (hword : ¬ isWordStart c = true) (hdigit : ¬ c.isDigit = true)
    {mark : Punctuation} {length : Nat} (hmark : markAt? (c :: text) = some (mark, length)) :
    IsMunch (c :: text) (c :: text.take (length - 1)) (.punctuation mark) := by
  rcases markAt?_longest hmark with ⟨spelled, hmem, hbeginning, rfl, hmax⟩
  have htake : c :: text.take (spelled.toList.length - 1) = spelled.toList := by
    rcases hspelled : spelled.toList with _ | ⟨d, rest⟩
    · exact absurd hspelled (ne_nil_of_mem_spellings hmem)
    · rw [hspelled] at hbeginning
      rcases List.cons_prefix_cons.mp hbeginning with ⟨rfl, hrest⟩
      rw [List.length_cons, Nat.add_sub_cancel, ← List.prefix_iff_eq_take.mp hrest]
  rw [htake]
  refine ⟨hbeginning, isLexeme_mark_iff.mpr ⟨spelled, hmem, rfl⟩, ?_, ?_⟩
  · intro other token hbegins hlexeme
    rcases hlexeme.of_other hbegins hword hdigit with ⟨_, spelled', -, hmem', rfl⟩
    exact hmax _ hmem' hbegins
  · intro reserved hreserved
    rcases hreserved.of_other hbeginning hword hdigit with ⟨_, _, hmark, -⟩
    cases hmark

/-- The first token of a text, unless it is an error, is the one of the rule. -/
theorem first_isMunch (h : (first c text).1 ≠ .error) :
    IsMunch (c :: text) (c :: (first c text).2.1) (first c text).1 := by
  revert h
  unfold first
  split
  · next hword => exact fun _ => isMunch_word hword
  · next hword =>
    split
    · next hdigit => exact fun _ => isMunch_digits hdigit
    · next hdigit =>
      split
      · next mark length hmark =>
        rw [List.splitAt_eq]
        exact fun _ => isMunch_mark hword hdigit hmark
      · exact fun h => absurd rfl h

/-- A text begins with an error only if no prefix of it is a lexeme. -/
theorem first_of_error (h : (first c text).1 = .error) :
    (first c text).2.1 = [] ∧ ∀ word token, word <+: c :: text → ¬ IsLexeme token word := by
  revert h
  unfold first
  split
  · exact fun h => absurd h (ofWord_ne_error _)
  · next hword =>
    split
    · exact nofun
    · next hdigit =>
      split
      · exact nofun
      · next hmark =>
        refine fun _ => ⟨rfl, fun word token hbegins hlexeme => ?_⟩
        rcases hlexeme.of_other hbegins hword hdigit with ⟨_, spelled, -, hmem, rfl⟩
        exact markAt?_eq_none_iff.mp hmark _ hmem hbegins

end First

/-! ## A whole text -/

/-- Every byte of a text stands in a token or is a separator. -/
theorem scan_covers {offset place : Nat} {text : List Char} (hstart : offset ≤ place)
    (hstop : place < offset + Text.byteLength text)
    (h : ∀ token ∈ scan offset text, ¬ (token.2.start ≤ place ∧ place < token.2.stop)) :
    ∃ front c back, text = front ++ c :: back ∧ c ∈ separators ∧
      place = offset + Text.byteLength front := by
  -- The byte is the one that is skipped, or it lies behind what was scanned.
  induction offset, text using scan.induct with
  | case1 offset =>
    rw [Text.byteLength_nil] at hstop
    omega
  | case2 offset c text hskipped ih =>
    rw [scan, if_pos hskipped] at h
    have hseparator := isSkipped_iff.mp hskipped
    by_cases hplace : place = offset
    · exact ⟨[], c, text, rfl, hseparator, hplace⟩
    · rw [Text.byteLength_cons, utf8Size_of_mem_separators hseparator] at hstop
      rw [utf8Size_of_mem_separators hseparator] at h ih
      rcases ih (by omega) (by omega) h with ⟨front, d, back, rfl, hd, rfl⟩
      refine ⟨c :: front, d, back, rfl, hd, ?_⟩
      rw [Text.byteLength_cons, utf8Size_of_mem_separators hseparator, Nat.add_assoc]
  | case3 offset c text hskipped stop ih =>
    rw [scan, if_neg hskipped] at h
    rcases List.forall_mem_cons.mp h with ⟨hfirst, hrest⟩
    have hbehind : stop ≤ place :=
      Nat.le_of_not_lt fun hlt => hfirst ⟨hstart, hlt⟩
    have hwhole : Text.byteLength (c :: text)
        = Text.byteLength (c :: (first c text).2.1) + Text.byteLength (first c text).2.2 := by
      rw [← Text.byteLength_append, List.cons_append, first_append]
    rw [hwhole, ← Nat.add_assoc] at hstop
    rcases ih hbehind hstop hrest with ⟨front, d, back, hback, hd, rfl⟩
    refine ⟨c :: (first c text).2.1 ++ front, d, back, ?_, hd, ?_⟩
    · rw [List.append_assoc, ← hback, List.cons_append, first_append]
    · simp only [Text.byteLength_append, ← Nat.add_assoc, stop]

/-- Scanning is lossless maximal munch. The tokens stand in the text, one behind the other, and
    what stands in none of them is a separator. Each token is the longest lexeme that the rest of
    the text begins with, or the one character of an error, with which no lexeme begins there. -/
theorem scan_munches (offset : Nat) (text : List Char) :
    (∀ token ∈ scan offset text, token.2.start < token.2.stop ∧ offset ≤ token.2.start ∧
      token.2.stop ≤ offset + Text.byteLength text) ∧
    ((scan offset text).Pairwise fun first second => first.2.stop ≤ second.2.start) ∧
    (∀ place, offset ≤ place → place < offset + Text.byteLength text →
      (∀ token ∈ scan offset text, ¬ (token.2.start ≤ place ∧ place < token.2.stop)) →
      ∃ front c back, text = front ++ c :: back ∧ c ∈ separators ∧
        place = offset + Text.byteLength front) ∧
    ∀ token ∈ scan offset text, ∃ front word back, text = front ++ (word ++ back) ∧
      token.2 = ⟨offset + Text.byteLength front,
        offset + Text.byteLength front + Text.byteLength word⟩ ∧
      (token.1 ≠ .error → IsMunch (word ++ back) word token.1) ∧
      (token.1 = .error → ∃ c, word = [c] ∧ c ∉ separators ∧
        ∀ other token', other <+: word ++ back → ¬ IsLexeme token' other) := by
  refine ⟨fun token htoken => ?_, scan_in_order offset text, fun place => scan_covers,
    fun token htoken => ?_⟩
  · rcases covers_of_mem_scan htoken with ⟨word, hcovers, hne, -⟩
    have hpos := Text.byteLength_pos hne
    have hlength := hcovers.length
    exact ⟨by omega, hcovers.start_le, hcovers.stop_le⟩
  · rcases mem_scan htoken with ⟨front, c, rest, rfl, hskipped, rfl⟩
    -- Scanning has come to a place that is not skipped, and the token begins there.
    have hrest : c :: (first c rest).2.1 ++ (first c rest).2.2 = c :: rest := by
      rw [List.cons_append, first_append]
    refine ⟨front, c :: (first c rest).2.1, (first c rest).2.2, by rw [hrest], rfl, ?_, ?_⟩
    · rw [hrest]
      exact first_isMunch
    · intro herror
      rcases first_of_error herror with ⟨hnil, hnone⟩
      rw [hrest, hnil]
      refine ⟨c, rfl, fun hmem => ?_, hnone⟩
      rw [isSkipped_iff.mpr hmem] at hskipped
      cases hskipped

end Token

end AccumulatorMachine
