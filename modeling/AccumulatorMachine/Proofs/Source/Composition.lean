import AccumulatorMachine.Proofs.Outcome
import AccumulatorMachine.Proofs.Source.Places
import AccumulatorMachine.Proofs.Source.Shift

/-!
# Programs in Parts

What a program is whose source text is put together from two.

A semicolon ends a statement wherever it stands, so the pieces of a text with a semicolon in the
middle are the pieces of the text before it and those of the text after it. Only their places
differ: the second part stands further on, by the bytes of the first one and of the semicolon. A
statement does not depend on its place, apart from its spans. So to read the whole is to read one
part and then the other, and the first error of the two is the error of the whole.

A piece without anything in it is not read at all, and holds no statement.

## Main definitions

* `Program.shift`: A program with all spans further on.
* `Program.extent`: The bytes of pieces with a separator behind each.
* `Program.parseSegments`: The statements of pieces.

## Theorems

* `Program.placed_append`: The places of pieces in two groups.
* `Program.segments_append`: The pieces of a text that is put together from two.
* `Program.parseSegments_shift`: Pieces further on hold the same statements further on.
* `Program.parse?_append`: The program of a text that is put together from two.
* `Program.parse?_of_allBlank`: A blank text is a program without statements.
* `Program.parse?_of_visible`: A text without a semicolon is a program of one statement.
* `Program.parse?_composes`: Reading is compositional.
-/

namespace AccumulatorMachine

namespace Program

/-- The program `d` bytes further on. -/
def shift (d : Nat) (program : Program) : Program := ⟨program.statements.map (Statement.shift d)⟩

/-- The number of bytes of pieces, with a separator of one byte behind each. -/
def extent (pieces : List (List Char)) : Nat :=
  pieces.foldr (fun piece extent => Text.byteLength piece + 1 + extent) 0

/-- The segment `d` bytes further on. -/
def shiftSegment (d : Nat) (segment : Nat × List Char) : Nat × List Char :=
  (segment.1 + d, segment.2)

/-- The statements that segments hold, or the error of the first one that has one. -/
def parseSegments (segments : List (Nat × List Char)) : Except ParseError (List Statement) :=
  segments.mapM fun (offset, text) => Statement.parse? text offset

section Segments

theorem extent_cons (piece : List Char) (pieces : List (List Char)) :
    extent (piece :: pieces) = Text.byteLength piece + 1 + extent pieces := rfl

/-- The pieces of a text take its bytes and one more. -/
theorem extent_splitOn (source : List Char) :
    extent (source.splitOn ';') = Text.byteLength source + 1 := by
  induction source with
  | nil =>
    rw [List.splitOn_nil]
    rfl
  | cons c rest ih =>
    rw [List.splitOn_cons_eq_if_modifyHead, Text.byteLength_cons]
    by_cases hc : (c == ';') = true
    · -- A separator starts a new piece.
      have hsize : c.utf8Size = 1 := by
        rw [beq_iff_eq.mp hc]
        rfl
      rw [if_pos hc, hsize, extent_cons, ih, Text.byteLength_nil]
      omega
    · rw [if_neg hc]
      rcases hpieces : rest.splitOn ';' with _ | ⟨piece, pieces⟩
      · exact absurd hpieces (List.splitOn_ne_nil ';' rest)
      · rw [hpieces, extent_cons] at ih
        rw [List.modifyHead_cons, extent_cons, Text.byteLength_cons]
        omega

/-- A second group of pieces starts where the first one ends. -/
theorem placed_append (offset : Nat) (first second : List (List Char)) :
    placed offset (first ++ second)
      = placed offset first ++ placed (offset + extent first) second := by
  induction first generalizing offset with
  | nil => rfl
  | cons piece pieces ih =>
    have hextent : offset + extent (piece :: pieces)
        = offset + Text.byteLength piece + 1 + extent pieces := by
      rw [extent_cons]
      omega
    rw [List.cons_append, placed, placed, ih, hextent, List.cons_append]

theorem placed_shift (d offset : Nat) (pieces : List (List Char)) :
    placed (offset + d) pieces = (placed offset pieces).map (shiftSegment d) := by
  induction pieces generalizing offset with
  | nil => rfl
  | cons piece pieces ih =>
    have hnext : offset + d + Text.byteLength piece + 1
        = offset + Text.byteLength piece + 1 + d := by omega
    rw [placed, placed, hnext, ih, List.map_cons, shiftSegment]

/-- The segments of a text that is put together from two are those of the first, and those of the
    second further on. -/
theorem segments_append (first second : List Char) : segments (first ++ ';' :: second)
    = segments first ++ (segments second).map (shiftSegment (Text.byteLength first + 1)) := by
  rw [segments, List.splitOn_append_cons_self, placed_append, extent_splitOn, placed_shift,
    List.filter_append, List.filter_map]
  rfl

theorem segments_of_allBlank {blank : List Char} (h : Text.allBlank blank = true) :
    segments blank = [] := by
  have hnone : ';' ∉ blank := by
    intro hmem
    exact absurd (List.all_eq_true.mp h ';' hmem) (by decide)
  rw [segments, List.splitOn_eq_singleton hnone, placed, placed, List.filter_cons, h]
  rfl

/-- A text without a semicolon is one segment if there is something in it. -/
theorem segments_of_visible {source : List Char} (hnone : ';' ∉ source)
    (h : Text.allBlank source = false) : segments source = [(0, source)] := by
  rw [segments, List.splitOn_eq_singleton hnone, placed, placed, List.filter_cons, h]
  rfl

end Segments

theorem parse?_eq (source : List Char) :
    parse? source = (parseSegments (segments source)).map Program.mk := by
  rw [parse?, ← parseSegments]
  cases parseSegments (segments source) <;> rfl

theorem parseSegments_cons (segment : Nat × List Char) (segments : List (Nat × List Char)) :
    parseSegments (segment :: segments) = do
      let s ← Statement.parse? segment.2 segment.1
      let rest ← parseSegments segments
      return s :: rest :=
  List.mapM_cons

/-- A text without a semicolon is a program of one statement. -/
theorem parse?_of_visible {source : List Char} (hnone : ';' ∉ source)
    (h : Text.allBlank source = false) :
    parse? source = (Statement.parse? source 0).map fun s => ⟨[s]⟩ := by
  rw [parse?_eq, segments_of_visible hnone h, parseSegments_cons]
  cases Statement.parse? source 0 <;> rfl

/-- Segments further on hold the same statements further on. -/
theorem parseSegments_shift (d : Nat) (segments : List (Nat × List Char)) :
    parseSegments (segments.map (shiftSegment d))
      = ParseError.shiftResult d (List.map (Statement.shift d)) (parseSegments segments) := by
  induction segments with
  | nil => rfl
  | cons segment segments ih =>
    rw [List.map_cons, parseSegments_cons, parseSegments_cons, ih, shiftSegment,
      Statement.parse?_shift]
    -- The first error of the segments is the error of all of them, in both places.
    cases Statement.parse? segment.2 segment.1 with
    | error e => rfl
    | ok s => cases parseSegments segments <;> rfl

/-- The program of a text that is put together from two. An error of the first part is the error of
    the whole, and so is an error of the second part, further on, if the first part has none. -/
theorem parse?_append (first second : List Char) : parse? (first ++ ';' :: second)
    = match parse? first, parse? second with
      | .error e, _ => .error e
      | .ok _, .error e => .error (e.shift (Text.byteLength first + 1))
      | .ok p, .ok q => .ok ⟨p.statements ++ (q.shift (Text.byteLength first + 1)).statements⟩ := by
  have happend : parseSegments (segments (first ++ ';' :: second)) = do
      let statements ← parseSegments (segments first)
      let more ← ParseError.shiftResult (Text.byteLength first + 1)
        (List.map (Statement.shift (Text.byteLength first + 1))) (parseSegments (segments second))
      return statements ++ more := by
    rw [segments_append, parseSegments, List.mapM_append, ← parseSegments, ← parseSegments,
      parseSegments_shift]
  rw [parse?_eq, parse?_eq, parse?_eq, happend]
  cases parseSegments (segments first) with
  | error e => rfl
  | ok statements => cases parseSegments (segments second) <;> rfl

/-- A blank text is a program without statements. -/
theorem parse?_of_allBlank {blank : List Char} (h : Text.allBlank blank = true) :
    parse? blank = .ok ⟨[]⟩ := by
  rw [parse?_eq, segments_of_allBlank h]
  rfl

/-- Reading is compositional. A text that is put together from two is read part by part, and what
    the second part gives is further on by the bytes before it. A statement by itself does not
    depend on the place of its text either, and blank parts give nothing. -/
theorem parse?_composes (first second : List Char) :
    (parse? (first ++ ';' :: second)
      = match parse? first, parse? second with
        | .error e, _ => .error e
        | .ok _, .error e => .error (e.shift (Text.byteLength first + 1))
        | .ok p, .ok q => .ok ⟨p.statements ++ (q.shift (Text.byteLength first + 1)).statements⟩) ∧
    (∀ text offset, Statement.parse? text offset
      = ParseError.shiftResult offset (Statement.shift offset) (Statement.parse? text 0)) ∧
    ∀ blank, Text.allBlank blank = true →
      parse? (first ++ ';' :: blank) = parse? first ∧
      parse? (blank ++ ';' :: second) = ParseError.shiftResult (Text.byteLength blank + 1)
        (shift (Text.byteLength blank + 1)) (parse? second) := by
  refine ⟨parse?_append first second, fun text offset => ?_, fun blank hblank => ⟨?_, ?_⟩⟩
  · rw [← Statement.parse?_shift, Nat.zero_add]
  · rw [parse?_append, parse?_of_allBlank hblank]
    cases parse? first with
    | error e => rfl
    | ok p => exact congrArg (Except.ok ∘ Program.mk) (List.append_nil p.statements)
  · rw [parse?_append, parse?_of_allBlank hblank]
    cases parse? second <;> rfl

end Program

end AccumulatorMachine
