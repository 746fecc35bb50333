import AccumulatorMachine.Image.Record
import AccumulatorMachine.Text.Blank
import AccumulatorMachine.Text.Position

/-!
# Image Files

The stored form of an image: one record on every line, in image order.

A file may have blank lines anywhere, which hold no cell but count in the numbers of the
lines. Each address may be defined once. Both kinds of error name the line they are on.

## Main definitions

* `ImageError`: What is wrong with a file, and on which line.
* `Image.toLines`: An image as the text of a file.
* `Image.ofLines?`: The image that the text of a file holds.
-/

namespace AccumulatorMachine

/-- What is wrong with a line of an image file. -/
inductive ImageError.Cause where
  | malformedRecord (problem : Json.Problem)
  | duplicateAddress (address : Int)
  deriving DecidableEq, Repr

/-- An error in an image file. -/
structure ImageError where
  /-- The number of the line, counted from one. -/
  line : Nat
  cause : ImageError.Cause
  deriving DecidableEq, Repr

namespace ImageError

/-- The wording of a cause. -/
def Cause.message : Cause → String
  | malformedRecord _ => "malformed record"
  | duplicateAddress address => "address " ++ Decimal.ofInt address ++ " is defined twice"

/-- The message of an error. -/
def message (e : ImageError) : String :=
  "line " ++ Decimal.ofNat e.line ++ ": " ++ e.cause.message

end ImageError

namespace Image

/-- An image as a record on every line. -/
def toLines (image : Image) : String :=
  String.join (image.cells.map fun cell => cell.toRecord ++ "\n")

/-- The cells on lines that are numbered from `line` upwards, after lines that define the
    addresses `seen`. -/
def readLines (line : Nat) (seen : List Int) : List (List Char) → Except ImageError (List Cell)
  | [] => .ok []
  | text :: rest =>
    -- A blank line holds no record but has a number.
    if Text.allBlank text then readLines (line + 1) seen rest
    else match Cell.ofRecord? text with
      | .error problem => .error ⟨line, .malformedRecord problem⟩
      | .ok cell =>
        if cell.address ∈ seen then .error ⟨line, .duplicateAddress cell.address⟩
        else (readLines (line + 1) (cell.address :: seen) rest).map (cell :: ·)

/-- The image that the text of a file holds. -/
def ofLines? (text : String) : Except ImageError Image :=
  (readLines 1 [] (Text.lines text.toList)).map Image.mk

end Image

end AccumulatorMachine
