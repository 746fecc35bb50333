import AccumulatorMachine.Proofs.Source.Acceptance
import AccumulatorMachine.Proofs.Source.Tracking

/-!
# Extents of Statements

Where a statement, its expression and the parts of its expression stand.

All their spans are made of those of tokens: from the start of one to the end of another one behind
it, or to the last visible character of the statement. Tokens stand one behind the other, and so do
the parts of an expression, which are made of tokens that stand side by side. What encloses
what is read off this order.

The end of a part is that of a token which is not the token of an error. Such a token has only
visible characters, so it stands in front of what is trimmed from the statement, and its end is not
behind the end of the statement.

## Main definitions

* `Span.PointsInto`: A span of a text.
* `Span.Inside`: A span that does not leave another one.
* `Span.InOrder`: Items whose spans stand one behind the other.
* `Span.Joins`: A span from one token to another.
* `Statement.LiesIn`: A statement whose spans point into a text and lie inside each other.

## Theorems

* `Token.stop_le_trimmed`: A token ends in front of what is trimmed.
* `Source.Scans.joins`: The parts of an expression are made of tokens and stand in order.
* `Statement.parse?_liesIn`: Where the statement of a segment stands.
* `Statement.parse?_error_inside`: Where the error of a segment stands.
-/

namespace AccumulatorMachine

namespace Span

/-- A span of a text. Its ends are in order and split no character. -/
structure PointsInto (span : Span) (source : List Char) : Prop where
  ordered : span.start ≤ span.stop
  bounded : span.stop ≤ Text.byteLength source
  start : Text.IsBoundary source span.start
  stop : Text.IsBoundary source span.stop

/-- A span that does not leave another one. -/
def Inside (inner outer : Span) : Prop := outer.start ≤ inner.start ∧ inner.stop ≤ outer.stop

theorem Inside.trans {inner middle outer : Span} (h : inner.Inside middle)
    (houter : middle.Inside outer) : inner.Inside outer :=
  ⟨Nat.le_trans houter.1 h.1, Nat.le_trans h.2 houter.2⟩

theorem PointsInto.of_boundaries {source : List Char} {start stop : Nat} (ordered : start ≤ stop)
    (hstart : Text.IsBoundary source start) (hstop : Text.IsBoundary source stop) :
    PointsInto ⟨start, stop⟩ source :=
  ⟨ordered, hstop.le_byteLength, hstart, hstop⟩

section Covers

variable {span : Span} {source word : List Char}

/-- What stands in a text points into it. -/
theorem Covers.pointsInto (h : span.Covers 0 source word) : span.PointsInto source := by
  rcases h with ⟨front, back, rfl, hstart, hstop⟩
  obtain ⟨start, stop⟩ := span
  simp only [Nat.zero_add] at hstart hstop
  subst hstart hstop
  refine .of_boundaries (Nat.le_add_right _ _) ⟨front, word ++ back, by simp, rfl⟩
    ⟨front ++ word, back, rfl, by rw [Text.byteLength_append]⟩

theorem Covers.inside {segment : Nat × List Char} (h : span.Covers segment.1 segment.2 word) :
    span.Inside (Program.segmentSpan segment) :=
  ⟨h.start_le, h.stop_le⟩

end Covers

/-! ## One behind the other -/

/-- Items whose spans stand one behind the other. -/
structure InOrder {α : Type} (items : List (α × Span)) : Prop where
  each : ∀ item ∈ items, item.2.start ≤ item.2.stop
  apart : items.Pairwise fun first second => first.2.stop ≤ second.2.start

namespace InOrder

variable {α : Type} {front back items : List (α × Span)} {first last : α × Span}

theorem nil : InOrder (α := α) [] := ⟨by simp, .nil⟩

theorem left (h : InOrder (front ++ back)) : InOrder front :=
  ⟨fun item hitem => h.each item (List.mem_append_left _ hitem),
    (List.pairwise_append.mp h.apart).1⟩

theorem right (h : InOrder (front ++ back)) : InOrder back :=
  ⟨fun item hitem => h.each item (List.mem_append_right _ hitem),
    (List.pairwise_append.mp h.apart).2.1⟩

theorem between (h : InOrder (front ++ back)) {a b : α × Span} (ha : a ∈ front) (hb : b ∈ back) :
    a.2.stop ≤ b.2.start :=
  (List.pairwise_append.mp h.apart).2.2 a ha b hb

/-- No item starts in front of the first one. -/
theorem head_le (h : InOrder items) (hfirst : items.head? = some first) {item : α × Span}
    (hitem : item ∈ items) : first.2.start ≤ item.2.start := by
  obtain ⟨rest, rfl⟩ : ∃ rest, items = [first] ++ rest := List.head?_eq_some_iff.mp hfirst
  rcases List.mem_cons.mp hitem with rfl | hrest
  · exact Nat.le_refl _
  · exact Nat.le_trans (h.each first List.mem_cons_self)
      (h.between List.mem_cons_self hrest)

/-- No item ends behind the last one. -/
theorem le_last (h : InOrder items) (hlast : items.getLast? = some last) {item : α × Span}
    (hitem : item ∈ items) : item.2.stop ≤ last.2.stop := by
  obtain ⟨front, rfl⟩ : ∃ front, items = front ++ [last] := List.getLast?_eq_some_iff.mp hlast
  rcases List.mem_append.mp hitem with hfront | hend
  · exact Nat.le_trans (h.between hfront List.mem_cons_self)
      (h.each last (List.mem_append_right _ List.mem_cons_self))
  · cases List.mem_singleton.mp hend
    exact Nat.le_refl _

end InOrder

/-- A span from the start of one token to the end of another one that is not the token of an
    error. -/
def Joins (span : Span) (tokens : List (Token × Span)) : Prop :=
  ∃ first ∈ tokens, ∃ last ∈ tokens, last.1 ≠ .error ∧ span = ⟨first.2.start, last.2.stop⟩ ∧
    span.start ≤ span.stop

theorem Joins.mono {span : Span} {tokens tokens' : List (Token × Span)} (h : span.Joins tokens)
    (hsub : ∀ token ∈ tokens, token ∈ tokens') : span.Joins tokens' := by
  rcases h with ⟨first, hfirst, last, hlast, hrest⟩
  exact ⟨first, hsub _ hfirst, last, hsub _ hlast, hrest⟩

/-- A part that is made of the first tokens stands in front of those that are made of the others. -/
theorem joins_cons {α : Type} {read rest : List (Token × Span)} {part : α × Span}
    {parts : List (α × Span)} (horder : InOrder (read ++ rest)) (hpart : part.2.Joins read)
    (hparts : (∀ other ∈ parts, other.2.Joins rest) ∧ InOrder parts) :
    (∀ other ∈ part :: parts, other.2.Joins (read ++ rest)) ∧ InOrder (part :: parts) := by
  rcases hparts with ⟨hjoins, hparts⟩
  refine ⟨List.forall_mem_cons.mpr ⟨hpart.mono fun _ => List.mem_append_left _,
    fun other hother => (hjoins other hother).mono fun _ => List.mem_append_right _⟩,
    List.forall_mem_cons.mpr ⟨?_, hparts.each⟩, hparts.apart.cons fun other hother => ?_⟩
  · rcases hpart with ⟨_, _, _, _, _, _, hle⟩
    exact hle
  · rcases hpart with ⟨_, -, last, hlast, -, heq, -⟩
    rcases hjoins other hother with ⟨first, hfirst, _, -, -, heq', -⟩
    rw [heq, heq']
    exact horder.between hlast hfirst

end Span

open AccumulatorMachine.Span (InOrder)

namespace Source

theorem IsOperand.joins {read : List (Token × Span)} {operand : Operand} {span : Span}
    (h : IsOperand read operand span) (horder : InOrder read) : span.Joins read := by
  cases h with
  | name =>
    exact ⟨_, List.mem_cons_self, _, List.mem_cons_self, nofun, rfl,
      horder.each _ List.mem_cons_self⟩
  | literal h =>
    cases h with
    | plain h =>
      exact ⟨_, List.mem_cons_self, _, List.mem_cons_self, nofun, rfl,
        horder.each _ List.mem_cons_self⟩
    | @signed digits sign span h =>
      have hsign := horder.each (.punctuation .minus, sign) List.mem_cons_self
      have hnumber := horder.each (.number digits, span) (by simp)
      have hbetween := (List.pairwise_cons.mp horder.apart).1 _ List.mem_cons_self
      refine ⟨_, List.mem_cons_self, _, List.mem_cons_of_mem _ List.mem_cons_self, nofun, rfl, ?_⟩
      simp only at hsign hnumber hbetween ⊢
      omega

theorem IsMark.ne_error {token : Token} {mark : ExpressionToken} (h : IsMark token mark) :
    token ≠ .error := by
  cases h <;> nofun

/-- The parts of an expression are made of tokens and stand in order. -/
theorem Scans.joins {expecting : Bool} {tokens : List (Token × Span)}
    {parts : List (ExpressionToken × Span)} (h : Scans expecting tokens parts)
    (horder : InOrder tokens) : (∀ part ∈ parts, part.2.Joins tokens) ∧ InOrder parts := by
  induction h with
  | done => exact ⟨by simp, .nil⟩
  | operand htokens hop hrest ih =>
    subst htokens
    exact Span.joins_cons horder (hop.joins horder.left) (ih horder.right)
  | @mark expecting token span rest mark parts hmark hminus hrest ih =>
    have horder' : InOrder ([(token, span)] ++ rest) := horder
    refine Span.joins_cons horder' ?_ (ih horder'.right)
    exact ⟨_, List.mem_cons_self, _, List.mem_cons_self, hmark.ne_error, rfl,
      horder.each _ List.mem_cons_self⟩

/-- An expression goes from its first part to its last. -/
theorem IsExpression.joins {tokens : List (Token × Span)} {e : Expression}
    (h : IsExpression tokens e) (horder : InOrder tokens) :
    e.span.Joins tokens ∧ ∀ part ∈ e.tokens, part.2.Joins tokens ∧ part.2.Inside e.span := by
  rcases h.scans.joins horder with ⟨hjoins, hparts⟩
  rcases h.span with ⟨first, last, hfirst, hlast, hspan⟩
  have hinside : ∀ part ∈ e.tokens, part.2.Inside e.span := by
    intro part hpart
    rw [hspan]
    exact ⟨hparts.head_le hfirst hpart, hparts.le_last hlast hpart⟩
  refine ⟨?_, fun part hpart => ⟨hjoins part hpart, hinside part hpart⟩⟩
  have hmem := List.mem_of_getLast? hlast
  rcases hjoins first (List.mem_of_mem_head? hfirst) with ⟨start, hstart, _, -, -, hfrom, -⟩
  rcases hjoins last hmem with ⟨_, -, stop, hstop, herror, hto, -⟩
  refine ⟨start, hstart, stop, hstop, herror, ?_, ?_⟩
  · rw [hspan, hfrom, hto]
  · have hle := (hinside last hmem).1
    have heach := hparts.each last hmem
    rw [hspan] at hle ⊢
    exact Nat.le_trans hle heach

/-- A `new` statement ends with its expression. -/
theorem Follows.expression {text : List Char} {offset : Nat} {word : Keyword}
    {tokens : List (Token × Span)} {name : String} {e : Expression}
    (h : Follows text offset word tokens (.new name e)) :
    ∃ front last, tokens = front ++ last ∧ IsExpression last e := by
  cases h with
  | new h => exact ⟨[_], _, rfl, h⟩
  | newAssign h => exact ⟨[_, _], _, rfl, h⟩

end Source

namespace Token

/-- A token ends in front of what is trimmed from the text, unless it is the token of an error. -/
theorem stop_le_trimmed {offset : Nat} {text : List Char} {token : Token × Span}
    (h : token ∈ scan offset text) (herror : token.1 ≠ .error) :
    token.2.stop ≤ offset + Text.byteLength (Text.trimEnd text) := by
  rcases covers_of_mem_scan h with ⟨word, ⟨front, back, rfl, -, hstop⟩, hne, hvisible⟩
  rcases List.eq_nil_or_concat word with rfl | ⟨init, c, rfl⟩
  · exact absurd rfl hne
  · have hc := hvisible herror c (by simp)
    rcases Text.prefix_trimEnd (front ++ init) back hc with ⟨rest, hrest⟩
    have hlength := congrArg Text.byteLength hrest
    simp only [List.concat_eq_append, List.append_assoc, List.cons_append, List.nil_append,
      Text.byteLength_append, Text.byteLength_cons, Text.byteLength_nil] at hlength hstop ⊢
    omega

theorem start_lt_stop {offset : Nat} {text : List Char} {token : Token × Span}
    (h : token ∈ scan offset text) : token.2.start < token.2.stop := by
  rcases covers_of_mem_scan h with ⟨word, hcovers, hne, -⟩
  rw [hcovers.length]
  exact Nat.lt_add_of_pos_right (Text.byteLength_pos hne)

theorem inOrder_scan (offset : Nat) (text : List Char) : InOrder (scan offset text) where
  each := fun _ htoken => Nat.le_of_lt (start_lt_stop htoken)
  apart := scan_in_order offset text

end Token

namespace Statement

/-- A statement in a part of a text. The span of the statement is not empty and lies in that part.
    The span of its expression lies in it, and those of the parts of the expression lie in the
    latter. -/
structure LiesIn (s : Statement) (source : List Char) (outer : Span) : Prop where
  pointsInto : s.span.PointsInto source
  nonempty : s.span.start < s.span.stop
  inside : s.span.Inside outer
  expression : ∀ name e, s.form = .new name e → e.span.PointsInto source ∧ e.span.Inside s.span ∧
    ∀ part ∈ e.tokens, part.2.PointsInto source ∧ part.2.Inside e.span

section Segment

variable {source : List Char} {segment : Nat × List Char}
  (hsegment : segment ∈ Program.segments source)

include hsegment

theorem covers_source {span : Span} {word : List Char}
    (h : span.Covers segment.1 segment.2 word) : span.PointsInto source :=
  have houter := Program.covers_of_mem_segments hsegment
  (h.within houter).pointsInto

/-- The error of a segment stands in it. -/
theorem parse?_error_inside {e : ParseError} (h : parse? segment.2 segment.1 = .error e) :
    e.span.PointsInto source ∧ e.span.Inside (Program.segmentSpan segment) := by
  rcases parse?_error_covers h with ⟨word, hcovers⟩
  exact ⟨covers_source hsegment hcovers, hcovers.inside⟩

omit hsegment in
/-- What is made of the tokens of a statement stands between its first and its last visible
    character. -/
theorem joins_inside {span place : Span} {token : Token} {rest : List (Token × Span)}
    (hscan : Token.scan segment.1 segment.2 = (token, place) :: rest)
    (h : span.Joins (Token.scan segment.1 segment.2)) :
    span.Inside ⟨place.start, segment.1 + Text.byteLength (Text.trimEnd segment.2)⟩ := by
  rcases h with ⟨first, hfirst, last, hlast, herror, rfl, -⟩
  refine ⟨?_, Token.stop_le_trimmed hlast herror⟩
  exact (Token.inOrder_scan segment.1 segment.2).head_le (congrArg List.head? hscan) hfirst

theorem joins_pointsInto {span : Span} (h : span.Joins (Token.scan segment.1 segment.2)) :
    span.PointsInto source := by
  rcases h with ⟨first, hfirst, last, hlast, -, rfl, hle⟩
  rcases Token.covers_of_mem_scan hfirst with ⟨_, hfirst, -⟩
  rcases Token.covers_of_mem_scan hlast with ⟨_, hlast, -⟩
  exact .of_boundaries hle (covers_source hsegment hfirst).start (covers_source hsegment hlast).stop

/-- The statement of a segment stands in it. -/
theorem parse?_liesIn {s : Statement} (h : parse? segment.2 segment.1 = .ok s) :
    s.LiesIn source (Program.segmentSpan segment) := by
  have horder := Token.inOrder_scan segment.1 segment.2
  have hdenotes := parse?_eq_ok_iff.mp h
  generalize hscan : Token.scan segment.1 segment.2 = scanned at horder hdenotes
  obtain @⟨word, place, tokens, form, hfollows⟩ := hdenotes
  have hkeyword : (.keyword word, place) ∈ Token.scan segment.1 segment.2 :=
    hscan ▸ List.mem_cons_self
  rcases Token.covers_of_mem_scan hkeyword with ⟨spelled, hcovers, -, -⟩
  -- What is left of the segment when it is trimmed stands at its start.
  rcases Text.trimEnd_prefix segment.2 with ⟨blank, hblank⟩
  have htrimmed : Span.Covers ⟨segment.1, segment.1 + Text.byteLength (Text.trimEnd segment.2)⟩
      segment.1 segment.2 (Text.trimEnd segment.2) := ⟨[], blank, hblank.symm, rfl, rfl⟩
  have hlt : place.start < segment.1 + Text.byteLength (Text.trimEnd segment.2) :=
    Nat.lt_of_lt_of_le (Token.start_lt_stop hkeyword) (Token.stop_le_trimmed hkeyword nofun)
  refine ⟨.of_boundaries (Nat.le_of_lt hlt) (covers_source hsegment hcovers).start
    (covers_source hsegment htrimmed).stop, hlt, ⟨hcovers.start_le, htrimmed.stop_le⟩, ?_⟩
  intro name e hform
  obtain rfl : form = .new name e := hform
  rcases hfollows.expression with ⟨front, last, rfl, he⟩
  have horder' : InOrder (((Token.keyword word, place) :: front) ++ last) := horder
  have hsub : ∀ token ∈ last, token ∈ Token.scan segment.1 segment.2 := by
    intro token htoken
    rw [hscan]
    exact List.mem_cons_of_mem _ (List.mem_append_right _ htoken)
  rcases he.joins horder'.right with ⟨hspan, hparts⟩
  refine ⟨joins_pointsInto hsegment (hspan.mono hsub), joins_inside hscan (hspan.mono hsub),
    fun part hpart => ⟨joins_pointsInto hsegment ((hparts part hpart).1.mono hsub),
      (hparts part hpart).2⟩⟩

end Segment

end Statement

end AccumulatorMachine
