import Mathlib.Data.List.DropRight
import AccumulatorMachine.Proofs.Source.Positions
import AccumulatorMachine.Proofs.Spans

/-!
# Lines and Columns

What a line and a column say about the text in front of them.

A position is found by walking over the text, and a line feed takes the walk to the first column of
another line. What the walk has come to is told here from the text that is behind it, without the
walk: its line feeds, and what follows the last one of them. Every character takes the walk to a
later position, so two boundaries of a text that have the same position are the same boundary.

Offsets count bytes and columns count characters, so none of this holds of an offset that splits a
character, and for those the original text cannot be cut at all. An offset behind the end of a text
stands for its end.

## Theorems

* `Position.foldl_advance`: The line and the column after a text.
* `Position.ofOffset_eq`: The line and the column of a boundary.
* `Position.ofOffset_lt`: A later boundary has a later position.
* `Span.lineSpan?_of_boundaries`: The lines and columns of a span that may end behind the text.
* `Position.determines_offset`: A line and a column determine the boundary they belong to.
-/

namespace AccumulatorMachine

namespace Text

theorem IsBoundary.byteLength_takeBytes {text : List Char} {offset : Nat}
    (h : IsBoundary text offset) : byteLength (takeBytes offset text) = offset := by
  rcases h with ⟨first, second, rfl, rfl⟩
  rw [takeBytes_append]

theorem takeBytes_of_byteLength_le {text : List Char} {offset : Nat}
    (h : byteLength text ≤ offset) : takeBytes offset text = text := by
  induction text generalizing offset with
  | nil => rfl
  | cons c text ih =>
    rw [byteLength_cons] at h
    rw [takeBytes, if_pos (by omega), ih (by omega)]

/-- An offset behind the end stands for the end. -/
theorem takeBytes_min (text : List Char) (offset : Nat) :
    takeBytes (min offset (byteLength text)) text = takeBytes offset text := by
  rcases Nat.le_total offset (byteLength text) with h | h
  · rw [Nat.min_eq_left h]
  · rw [Nat.min_eq_right h, takeBytes_of_byteLength_le h,
      takeBytes_of_byteLength_le (Nat.le_refl _)]

end Text

namespace Position

/-- A walk over a text ends on the line after all line feeds that it has met, and in the column
    after all characters that it has met since the last one of them. -/
theorem foldl_advance (text : List Char) : text.foldl advance start
    = ⟨1 + text.count '\n', 1 + (text.rtakeWhile (· ≠ '\n')).length⟩ := by
  -- The walk goes from left to right, so its last step is the last character of the text.
  induction text using List.reverseRecOn with
  | nil => rfl
  | append_singleton text c ih =>
    rw [List.foldl_concat, ih, advance, List.count_append]
    by_cases hc : c = '\n'
    · rw [if_pos hc, hc, List.rtakeWhile_concat_neg _ _ _ (by simp)]
      rfl
    · rw [if_neg hc, List.rtakeWhile_concat_pos _ _ _ (by simpa using hc), List.length_append,
        List.count_singleton, beq_eq_false_iff_ne.mpr hc]
      rfl

theorem ofOffset_eq (front back : List Char) :
    ofOffset (front ++ back) (Text.byteLength front)
      = ⟨1 + front.count '\n', 1 + (front.rtakeWhile (· ≠ '\n')).length⟩ := by
  rw [ofOffset, Text.takeBytes_append, foldl_advance]

theorem ofOffset_min (source : List Char) (offset : Nat) :
    ofOffset source (min offset (Text.byteLength source)) = ofOffset source offset := by
  rw [ofOffset, Text.takeBytes_min, ofOffset]

section Boundaries

variable {source : List Char} {offset later : Nat}

/-- A later boundary has a later position. -/
theorem ofOffset_lt (hoffset : Text.IsBoundary source offset)
    (hlater : Text.IsBoundary source later) (h : offset < later) :
    ofOffset source offset < ofOffset source later := by
  obtain ⟨between, hbetween⟩ := Text.takeBytes_prefix source (Nat.le_of_lt h)
  -- The two boundaries have different numbers of bytes in front of them, so something is between.
  have hne : between ≠ [] := by
    intro hnil
    rw [hnil, List.append_nil] at hbetween
    have hbytes := congrArg Text.byteLength hbetween
    rw [hoffset.byteLength_takeBytes, hlater.byteLength_takeBytes] at hbytes
    omega
  rw [ofOffset, ofOffset, ← hbetween, List.foldl_append]
  exact lt_foldl_advance _ hne

theorem eq_of_ofOffset_eq (hoffset : Text.IsBoundary source offset)
    (hlater : Text.IsBoundary source later) (h : ofOffset source offset = ofOffset source later) :
    offset = later := by
  rcases Nat.lt_trichotomy offset later with hlt | heq | hgt
  · exact absurd (h ▸ ofOffset_lt hoffset hlater hlt) (lt_irrefl _)
  · exact heq
  · exact absurd (h ▸ ofOffset_lt hlater hoffset hgt) (lt_irrefl _)

end Boundaries

end Position

/-- The lines and columns of a span whose ends are boundaries, or behind the text. -/
theorem Span.lineSpan?_of_boundaries {span : Span} {source : List Char}
    (hstart : Text.IsBoundary source (min span.start (Text.byteLength source)))
    (hstop : Text.IsBoundary source (min span.stop (Text.byteLength source))) :
    span.lineSpan? source = some (span.lineSpan source) := by
  rw [lineSpan?, Position.ofOffset?_of_isBoundary hstart, Position.ofOffset?_of_isBoundary hstop,
    Position.ofOffset_min, Position.ofOffset_min]
  rfl

namespace Position

/-- A line and a column determine the boundary they belong to. The line counts the line feeds in
    front of it and the column the characters since the last one of them, or since the start. A
    later boundary has a later position, so no two of them share one. A span whose ends are in order
    has positions in order, and if an end is behind the text, it has the position of the end of the
    text. -/
theorem determines_offset (source : List Char) :
    (∀ front back, source = front ++ back →
      ofOffset? source (Text.byteLength front) = some (ofOffset source (Text.byteLength front)) ∧
      ofOffset source (Text.byteLength front)
        = ⟨1 + front.count '\n', 1 + (front.rtakeWhile (· ≠ '\n')).length⟩) ∧
    (∀ offset later, Text.IsBoundary source offset → Text.IsBoundary source later →
      offset < later → ofOffset source offset < ofOffset source later) ∧
    (∀ offset later, Text.IsBoundary source offset → Text.IsBoundary source later →
      ofOffset source offset = ofOffset source later → offset = later) ∧
    ∀ span : Span, span.start ≤ span.stop →
      (span.lineSpan source).start ≤ (span.lineSpan source).stop ∧
      (Text.IsBoundary source (min span.start (Text.byteLength source)) →
        Text.IsBoundary source (min span.stop (Text.byteLength source)) →
        span.lineSpan? source = some (span.lineSpan source)) := by
  refine ⟨fun front back hsource => ?_, fun offset later => ofOffset_lt,
    fun offset later => eq_of_ofOffset_eq, fun span hspan => ⟨ofOffset_mono source hspan, ?_⟩⟩
  · have hboundary : Text.IsBoundary source (Text.byteLength front) := ⟨front, back, hsource, rfl⟩
    refine ⟨ofOffset?_of_isBoundary hboundary, ?_⟩
    rw [hsource, ofOffset_eq]
  · exact Span.lineSpan?_of_boundaries

/-- Two lines, of which the first one has a character of two bytes, and a span that ends behind
    them. -/
theorem twoLines_determined :
    Text.IsBoundary ['ä', '\n', 'b'] 2 ∧ Text.IsBoundary ['ä', '\n', 'b'] 3 ∧
      ofOffset ['ä', '\n', 'b'] 3 = ⟨2, 1⟩ ∧
      ofOffset ['ä', '\n', 'b'] 2 < ofOffset ['ä', '\n', 'b'] 3 ∧
      Span.lineSpan? ⟨2, 9⟩ ['ä', '\n', 'b'] = some ⟨⟨1, 2⟩, ⟨2, 2⟩⟩ := by
  have h := determines_offset ['ä', '\n', 'b']
  have hline : Text.IsBoundary ['ä', '\n', 'b'] 2 := ⟨['ä'], ['\n', 'b'], rfl, rfl⟩
  have hnext : Text.IsBoundary ['ä', '\n', 'b'] 3 := ⟨['ä', '\n'], ['b'], rfl, rfl⟩
  have hend : Text.IsBoundary ['ä', '\n', 'b'] 4 := ⟨['ä', '\n', 'b'], [], rfl, rfl⟩
  exact ⟨hline, hnext, (h.1 ['ä', '\n'] ['b'] rfl).2, h.2.1 2 3 hline hnext (by decide),
    (h.2.2.2 ⟨2, 9⟩ (by decide)).2 hline hend⟩

end Position

end AccumulatorMachine
