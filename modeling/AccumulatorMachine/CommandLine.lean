import AccumulatorMachine.Compiled
import AccumulatorMachine.Image.Lines
import AccumulatorMachine.Machine.Control

/-!
# The Command Line

What the two commands do with the contents of their files and with their options.

One command compiles a source file into an image file, and the other one runs an image file
on an input file. An option is looked at before any file, so a bad number is reported first. Data
addresses are words here, as they are in the machine. A run that fails still has an output and a
journal, up to the failure.

## Main definitions

* `CommandLine.compile`: The image file of a source file.
* `CommandLine.run`: The output and the journal of an image file.
-/

namespace AccumulatorMachine

namespace CommandLine

/-- The address that the text of an option gives. -/
def dataBase? : Option String → Except String Int
  | none => .ok dataSegmentBase
  | some text =>
    match Decimal.word? text.toList with
    | some base => .ok base
    | none => .error ("invalid data base address '" ++ text ++ "'")

/-- The number of ticks that the text of an option gives: digits after an optional plus sign,
    with a value of 64 bits. -/
def ticks? (text : List Char) : Option Nat :=
  let digits := match text with
    | '+' :: digits => digits
    | digits => digits
  (Decimal.natural? digits).filter (· < Nat.pow 2 64)

/-- The tick limit that the text of an option gives. -/
def tickLimit? : Option String → Except String (Option Nat)
  | none => .ok none
  | some text =>
    match ticks? text.toList with
    | some limit => .ok (some limit)
    | none => .error ("invalid tick limit '" ++ text ++ "'")

/-- The message of a source text that has no image. -/
def sourceMessage (source : List Char) (e : SourceError) : String :=
  (match e with
    | .parse _ => "Parse error "
    | .compile _ => "Compile error ") ++ e.verbose source

/-- An image file, and the warnings about its source. -/
structure ImageFile where
  text : String
  warnings : List String

/-- Compiles a source file, or says why that is not possible. -/
def compile (source : String) (dataBase : Option String) : Except String ImageFile := do
  -- A bad option is reported before any error in the source.
  let base ← dataBase? dataBase
  let text := source.toList
  match Compiled.ofSource? text base .wrapping with
  | .ok compiled =>
    return ⟨compiled.image.toLines,
      compiled.diagnostics.map fun d => "warning at " ++ d.verbose text⟩
  | .error e => throw (sourceMessage text e)

/-- What stands in front of every line of a journal file. -/
def journalMark : String := "INFO:root: "

/-- What a run leaves behind, and its message if it has failed. -/
structure Report where
  output : String
  journal : String
  failure : Option String

/-- The journal file of a machine. -/
def journalText (m : Machine) : String :=
  String.join (m.journal.map fun record => journalMark ++ record.render ++ "\n")

/-- Runs an image file on an input, or says why that is not possible. -/
def run (image input : String) (tickLimit : Option String) : Except String Report := do
  let limit ← tickLimit? tickLimit
  match Image.ofLines? image with
  | .ok image =>
    let (m, failure) := (Machine.load image input.toList limit).run
    return ⟨m.output, journalText m, failure.map fun f => "Execution error: " ++ f.message⟩
  | .error e => throw ("Image error: " ++ e.message)

end CommandLine

end AccumulatorMachine
