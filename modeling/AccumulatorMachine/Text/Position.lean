import AccumulatorMachine.Decimal
import AccumulatorMachine.Text.Span

/-!
# Lines and Columns

Places in a source text as a reader counts them: lines and columns from one, a column
being one character wide whatever its number of bytes.

Only a line feed starts a new line here. `Text.lines` cuts a text into lines and there
a carriage return before the line feed belongs to the line's end as well, so that a
text with either kind of line end has the same lines.

## Main definitions

* `Position`: A line and a column.
* `Position.ofOffset`: The position of a byte offset.
* `LineSpan`: A range of positions.
* `Text.lines`: The lines of a text.
-/

namespace AccumulatorMachine

/-- A line and a column, both counted from one. -/
structure Position where
  line : Nat
  column : Nat
  deriving DecidableEq, Repr

namespace Position

/-- The position of the first character of a text. -/
def start : Position := ⟨1, 1⟩

/-- The position after a character: the first column of the next line after a line feed, and
    the next column otherwise. -/
def advance (p : Position) (c : Char) : Position :=
  if c = '\n' then ⟨p.line + 1, 1⟩ else ⟨p.line, p.column + 1⟩

/-- The position of a byte offset in a source text. An offset past the end stands for the
    end. -/
def ofOffset (source : List Char) (offset : Nat) : Position :=
  (Text.takeBytes offset source).foldl advance start

/-- The position in the words of a message. -/
def render (p : Position) : String :=
  "line " ++ Decimal.ofNat p.line ++ " col " ++ Decimal.ofNat p.column

end Position

/-- The range between two positions. -/
structure LineSpan where
  start : Position
  stop : Position
  deriving DecidableEq, Repr

namespace Span

/-- The span as a range of positions in its source text. -/
def lineSpan (span : Span) (source : List Char) : LineSpan :=
  ⟨Position.ofOffset source span.start, Position.ofOffset source span.stop⟩

end Span

namespace Text

/-- A line without the carriage return at its end. -/
def stripReturn (line : List Char) : List Char :=
  if line.getLast? = some '\r' then line.dropLast else line

/-- The lines of a text without their ends. What follows the last line feed is a line only if
    it is not empty, and keeps a carriage return, since no line feed follows it. -/
def lines (text : List Char) : List (List Char) :=
  -- There is one piece more than there are line feeds, so the last one lacks its line feed.
  let pieces := text.splitOn '\n'
  pieces.dropLast.map stripReturn ++ (pieces.getLast?.filter (· ≠ [])).toList

/-- The first line of a text, which is empty if the text has no lines. -/
def firstLine (text : List Char) : List Char :=
  (lines text).headD []

end Text

end AccumulatorMachine
