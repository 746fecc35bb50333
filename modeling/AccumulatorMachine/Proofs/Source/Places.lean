import AccumulatorMachine.Source.Program

/-!
# Places in a Source Text

Where the tokens and the statements of a source text stand.

All offsets come about in one way. A text is cut into what is in front of something, the thing
itself and what is behind it, and its span is the bytes of the first part and of the first two.
`Span.Covers` is this property of a span. It is kept by scanning, and by the cutting of a source
text into segments. What it says about the span itself is that both of its ends are between
characters, and not behind the end of the text.

The scanner and the trimming of a statement know different sets of white space. They agree on what
matters: no token but the one of an error has a character that is trimmed.

## Main definitions

* `Text.IsBoundary`: A byte offset that splits no character.
* `Span.Covers`: The span of a part of a text.

## Theorems

* `Text.prefix_trimEnd`: Trimming a text leaves everything up to a visible character.
* `Token.mem_scan`: A token is the one at the front of a part of the text.
* `Token.covers_of_mem_scan`: A token stands where its characters are.
* `Token.scan_in_order`: Tokens stand one behind the other.
* `Program.covers_of_mem_segments`: A segment stands where its characters are.
* `Program.segments_in_order`: Segments stand one behind the other.
-/

namespace AccumulatorMachine

namespace Text

/-- A byte offset before the first character of a text, between two or behind the last one. -/
def IsBoundary (text : List Char) (offset : Nat) : Prop :=
  ∃ first second, text = first ++ second ∧ offset = byteLength first

theorem IsBoundary.le_byteLength {text : List Char} {offset : Nat} (h : IsBoundary text offset) :
    offset ≤ byteLength text := by
  rcases h with ⟨first, second, rfl, rfl⟩
  rw [byteLength_append]
  omega

theorem byteLength_pos {text : List Char} (h : text ≠ []) : 0 < byteLength text := by
  cases text with
  | nil => exact absurd rfl h
  | cons c text =>
    rw [byteLength_cons]
    exact Nat.add_pos_left c.utf8Size_pos _

/-- A character that is shown by itself in ASCII is not white space. -/
theorem isBlank_of_visible {c : Char} (hl : 0x20 < c.toNat) (hu : c.toNat < 0x85) :
    isBlank c = false := by
  simp only [isBlank, blankRanges, List.any_cons, List.any_nil, Bool.or_false, Bool.or_eq_false_iff,
    Bool.and_eq_false_iff, decide_eq_false_iff_not]
  omega

theorem trimEnd_prefix (text : List Char) : trimEnd text <+: text := by
  have hsuffix := List.dropWhile_suffix isBlank (l := text.reverse)
  rw [← List.reverse_prefix, List.reverse_reverse] at hsuffix
  exact hsuffix

/-- Trimming a text leaves everything up to a visible character. -/
theorem prefix_trimEnd (front back : List Char) {c : Char} (hc : isBlank c = false) :
    front ++ [c] <+: trimEnd (front ++ c :: back) := by
  have hstop : (c :: front.reverse).dropWhile isBlank = c :: front.reverse :=
    List.dropWhile_cons_of_neg (by simp [hc])
  rw [trimEnd, List.reverse_append, List.reverse_cons, List.append_assoc, List.singleton_append,
    List.dropWhile_append, hstop]
  by_cases hback : (back.reverse.dropWhile isBlank).isEmpty = true
  · simp only [if_pos hback, List.reverse_cons, List.reverse_reverse, List.prefix_refl]
  · simp only [if_neg hback, List.reverse_append, List.reverse_cons, List.reverse_reverse,
      List.prefix_append]

end Text

/-- The span of a word in a text that starts at a byte offset of the source. -/
def Span.Covers (span : Span) (offset : Nat) (text word : List Char) : Prop :=
  ∃ front back, text = front ++ word ++ back ∧ span.start = offset + Text.byteLength front ∧
    span.stop = offset + Text.byteLength front + Text.byteLength word

namespace Span.Covers

variable {span : Span} {offset : Nat} {text word : List Char}

theorem start_le (h : span.Covers offset text word) : offset ≤ span.start := by
  rcases h with ⟨front, back, -, hstart, -⟩
  omega

theorem length (h : span.Covers offset text word) :
    span.stop = span.start + Text.byteLength word := by
  rcases h with ⟨front, back, -, hstart, hstop⟩
  omega

theorem stop_le (h : span.Covers offset text word) :
    span.stop ≤ offset + Text.byteLength text := by
  rcases h with ⟨front, back, rfl, -, hstop⟩
  rw [Text.byteLength_append, Text.byteLength_append]
  omega

/-- What stands in a text stands in a longer one. -/
theorem append (front back : List Char)
    (h : span.Covers (offset + Text.byteLength front) text word) :
    span.Covers offset (front ++ text ++ back) word := by
  rcases h with ⟨first, last, rfl, hstart, hstop⟩
  refine ⟨front ++ first, last ++ back, by simp only [List.append_assoc], ?_, ?_⟩
  · rw [Text.byteLength_append]
    omega
  · rw [Text.byteLength_append]
    omega

theorem behind (front : List Char)
    (h : span.Covers (offset + Text.byteLength front) text word) :
    span.Covers offset (front ++ text) word := by
  have happend := h.append front []
  rwa [List.append_nil] at happend

/-- What stands in a part of a text stands in the text. -/
theorem within {outer : Span} {part : List Char} (h : span.Covers outer.start part word)
    (houter : outer.Covers offset text part) : span.Covers offset text word := by
  rcases houter with ⟨front, back, rfl, hstart, -⟩
  rw [hstart] at h
  exact h.append front back

end Span.Covers

namespace Token

theorem isBlank_of_isWordChar {c : Char} (h : isWordChar c = true) : Text.isBlank c = false := by
  by_cases hunderscore : c = '_'
  · rw [hunderscore]
    decide
  · have hranges : 48 ≤ c.toNat ∧ c.toNat ≤ 122 := by
      delta isWordChar Char.isAlphanum Char.isAlpha Char.isUpper Char.isLower Char.isDigit at h
      simp only [hunderscore, Bool.or_eq_true, Bool.and_eq_true, decide_eq_true_eq,
        ge_iff_le, UInt32.le_iff_toNat_le, or_false] at h
      have hzero : '0'.val.toNat = 48 := rfl
      have hnine : '9'.val.toNat = 57 := rfl
      have hupper : 'A'.val.toNat = 65 := rfl
      have hupper' : 'Z'.val.toNat = 90 := rfl
      have hlower : 'a'.val.toNat = 97 := rfl
      have hlower' : 'z'.val.toNat = 122 := rfl
      rw [Char.toNat]
      omega
    exact Text.isBlank_of_visible (by omega) (by omega)

theorem isWordChar_of_isWordStart {c : Char} (h : isWordStart c = true) : isWordChar c = true := by
  simp only [isWordStart, isWordChar, Char.isAlphanum, Bool.or_eq_true] at h ⊢
  exact h.imp_left Or.inl

theorem isWordChar_of_isDigit {c : Char} (h : c.isDigit = true) : isWordChar c = true := by
  simp [isWordChar, Char.isAlphanum, h]

/-- The characters of a mark are what the text begins with. -/
theorem markAt?_spelled {text : List Char} {mark : Punctuation} {length : Nat}
    (h : markAt? text = some (mark, length)) :
    ∃ spelled ∈ Punctuation.spellings, text.take length = spelled.1.toList := by
  rcases Option.map_eq_some_iff.mp h with ⟨spelled, hfind, hspelled⟩
  cases hspelled
  have hbegin : spelled.1.toList <+: text := by
    simpa only [List.isPrefixOf_iff_prefix] using List.find?_some hfind
  exact ⟨spelled, List.mem_of_find?_eq_some hfind, (List.prefix_iff_eq_take.mp hbegin).symm⟩

theorem ne_nil_of_mem_spellings {spelled : String × Punctuation}
    (h : spelled ∈ Punctuation.spellings) : spelled.1.toList ≠ [] := by
  revert spelled
  decide

theorem isBlank_of_mem_spelling {spelled : String × Punctuation}
    (h : spelled ∈ Punctuation.spellings) : ∀ c ∈ spelled.1.toList, Text.isBlank c = false := by
  have hvisible : Punctuation.spellings.all
      (fun spelled => spelled.1.toList.all fun c => !Text.isBlank c) = true := by decide
  intro c hc
  simpa using List.all_eq_true.mp (List.all_eq_true.mp hvisible spelled h) c hc

/-- The characters of a token are visible, unless it is the token of an error. -/
theorem first_visible {c : Char} {text : List Char} (h : (first c text).1 ≠ .error) :
    ∀ d ∈ c :: (first c text).2.1, Text.isBlank d = false := by
  unfold first at h ⊢
  -- A word, a number or a mark, in the order in which the scanner tries them.
  split
  · next hword =>
    refine List.forall_mem_cons.mpr ⟨isBlank_of_isWordChar (isWordChar_of_isWordStart hword), ?_⟩
    exact fun d hd => isBlank_of_isWordChar (List.all_eq_true.mp List.all_takeWhile d hd)
  · split
    · next hdigit =>
      refine List.forall_mem_cons.mpr ⟨isBlank_of_isWordChar (isWordChar_of_isDigit hdigit), ?_⟩
      exact fun d hd => isBlank_of_isWordChar
        (isWordChar_of_isDigit (List.all_eq_true.mp List.all_takeWhile d hd))
    · next hword hdigit =>
      rw [if_neg hword, if_neg hdigit] at h
      split
      · next mark length hmark =>
        rcases markAt?_spelled hmark with ⟨spelled, hmem, htake⟩
        have hvisible := isBlank_of_mem_spelling hmem
        rw [← htake] at hvisible
        simp only [List.splitAt_eq]
        cases length with
        | zero => exact absurd htake.symm (ne_nil_of_mem_spellings hmem)
        | succ n => exact hvisible
      · next hmark =>
        rw [hmark] at h
        exact absurd rfl h

/-- A token is the one at the front of a part of the text, and stands where its characters are. -/
theorem mem_scan {offset : Nat} {text : List Char} {token : Token × Span}
    (h : token ∈ scan offset text) : ∃ front c rest, text = front ++ c :: rest ∧
      isSkipped c = false ∧ token = ((first c rest).1, ⟨offset + Text.byteLength front,
        offset + Text.byteLength front + Text.byteLength (c :: (first c rest).2.1)⟩) := by
  induction offset, text using scan.induct with
  | case1 offset =>
    rw [scan] at h
    cases h
  | case2 offset c text hskipped ih =>
    rw [scan, if_pos hskipped] at h
    rcases ih h with ⟨front, d, rest, rfl, hd, rfl⟩
    exact ⟨c :: front, d, rest, rfl, hd, by simp only [Text.byteLength_cons, Nat.add_assoc]⟩
  | case3 offset c text hskipped stop ih =>
    rw [scan, if_neg hskipped] at h
    rcases List.mem_cons.mp h with rfl | h
    · exact ⟨[], c, text, rfl, Bool.eq_false_iff.mpr hskipped, rfl⟩
    · rcases ih h with ⟨front, d, rest, hrest, hd, rfl⟩
      refine ⟨c :: (first c text).2.1 ++ front, d, rest, ?_, hd, ?_⟩
      · rw [List.append_assoc, ← hrest, List.cons_append, first_append]
      · simp only [Text.byteLength_append, ← Nat.add_assoc, stop]

/-- A token stands where its characters are. They are visible, unless it is the token of an
    error. -/
theorem covers_of_mem_scan {offset : Nat} {text : List Char} {token : Token × Span}
    (h : token ∈ scan offset text) : ∃ word, token.2.Covers offset text word ∧ word ≠ [] ∧
      (token.1 ≠ .error → ∀ c ∈ word, Text.isBlank c = false) := by
  rcases mem_scan h with ⟨front, c, rest, rfl, -, rfl⟩
  refine ⟨c :: (first c rest).2.1, ⟨front, (first c rest).2.2, ?_, rfl, rfl⟩, List.cons_ne_nil c _,
    first_visible⟩
  rw [List.append_assoc, List.cons_append, first_append]

/-- Tokens stand one behind the other. -/
theorem scan_in_order (offset : Nat) (text : List Char) :
    (scan offset text).Pairwise fun first second => first.2.stop ≤ second.2.start := by
  induction offset, text using scan.induct with
  | case1 offset =>
    rw [scan]
    exact List.Pairwise.nil
  | case2 offset c text hskipped ih =>
    rw [scan, if_pos hskipped]
    exact ih
  | case3 offset c text hskipped stop ih =>
    rw [scan, if_neg hskipped]
    refine List.pairwise_cons.mpr ⟨fun token htoken => ?_, ih⟩
    rcases covers_of_mem_scan htoken with ⟨word, hcovers, -⟩
    exact hcovers.start_le

end Token

namespace Program

/-- The bytes of a segment. -/
def segmentSpan (segment : Nat × List Char) : Span :=
  ⟨segment.1, segment.1 + Text.byteLength segment.2⟩

/-- A piece stands in the text that is put together from all pieces. -/
theorem length_placed (offset : Nat) (pieces : List (List Char)) :
    (placed offset pieces).length = pieces.length := by
  induction pieces generalizing offset with
  | nil => rfl
  | cons piece pieces ih => exact congrArg (· + 1) (ih _)

theorem covers_of_mem_placed {offset : Nat} {pieces : List (List Char)}
    {segment : Nat × List Char} (h : segment ∈ placed offset pieces) :
    (segmentSpan segment).Covers offset ([';'].intercalate pieces) segment.2 := by
  induction pieces generalizing offset with
  | nil => cases h
  | cons piece pieces ih =>
    rcases List.mem_cons.mp h with rfl | h
    · -- The first piece is the whole text or stands in front of a semicolon.
      cases pieces with
      | nil =>
        rw [List.intercalate_singleton]
        exact ⟨[], [], (List.append_nil _).symm, rfl, rfl⟩
      | cons next pieces =>
        rw [List.intercalate_cons_cons, List.append_assoc]
        exact ⟨[], _, rfl, rfl, rfl⟩
    · cases pieces with
      | nil => cases h
      | cons next pieces =>
        rw [List.intercalate_cons_cons]
        refine (ih ?_).behind (piece ++ [';'])
        rw [Text.byteLength_append, ← Nat.add_assoc]
        exact h

theorem placed_in_order (offset : Nat) (pieces : List (List Char)) :
    (placed offset pieces).Pairwise fun first second =>
      (segmentSpan first).stop < (segmentSpan second).start := by
  induction pieces generalizing offset with
  | nil => exact List.Pairwise.nil
  | cons piece pieces ih =>
    refine List.pairwise_cons.mpr ⟨fun segment hsegment => ?_, ih _⟩
    have hle := (covers_of_mem_placed hsegment).start_le
    simp only [segmentSpan] at hle ⊢
    omega

/-- A segment stands where its characters are. -/
theorem covers_of_mem_segments {source : List Char} {segment : Nat × List Char}
    (h : segment ∈ segments source) : (segmentSpan segment).Covers 0 source segment.2 := by
  have hcovers := covers_of_mem_placed (List.mem_filter.mp h).1
  rwa [List.intercalate_splitOn] at hcovers

/-- Segments stand one behind the other. -/
theorem segments_in_order (source : List Char) :
    (segments source).Pairwise fun first second =>
      (segmentSpan first).stop < (segmentSpan second).start :=
  (placed_in_order 0 _).filter _

end Program

end AccumulatorMachine
