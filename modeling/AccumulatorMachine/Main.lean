import AccumulatorMachine.CommandLine

/-!
# The Program

Reads the files that the command line names, hands their contents to `CommandLine`, and writes
what comes back.

    compile SOURCE IMAGE [--data-base=ADDRESS]
    run IMAGE INPUT OUTPUT [--journal=FILE] [--tick-limit=TICKS]

## Main definitions

* `main`: The entry point.
-/

namespace AccumulatorMachine

namespace CommandLine

/-- The value of an option that is given as its name, an equals sign and the value. -/
def optionValue? (name : String) (args : List String) : Option String :=
  args.findSome? fun arg =>
    let mark := (name ++ "=").toList
    if mark.isPrefixOf arg.toList then some (String.ofList (arg.toList.drop mark.length)) else none

/-- The arguments that are no options. -/
def operands (args : List String) : List String :=
  args.filter fun arg => !"--".toList.isPrefixOf arg.toList

/-- Prints a message for a command that failed, and returns its exit code. -/
def fail (message : String) : IO UInt32 := do
  IO.eprintln message
  return 1

/-- Compiles a source file into an image file. -/
def compileFile (source image : String) (dataBase : Option String) : IO UInt32 := do
  match compile (← IO.FS.readFile source) dataBase with
  | .ok file =>
    file.warnings.forM fun warning => IO.eprintln warning
    IO.FS.writeFile image file.text
    return 0
  | .error message => fail message

/-- Runs an image file on an input file. -/
def runFile (image input output : String) (journal tickLimit : Option String) : IO UInt32 := do
  match run (← IO.FS.readFile image) (← IO.FS.readFile input) tickLimit with
  | .ok report =>
    IO.FS.writeFile output report.output
    if let some file := journal then
      IO.FS.writeFile file report.journal
    match report.failure with
    | some message => fail message
    | none => return 0
  | .error message => fail message

/-- Does what the arguments of the command line ask for, and returns the exit code. -/
def dispatch (args : List String) : IO UInt32 :=
  match operands args with
  | ["compile", source, image] => compileFile source image (optionValue? "--data-base" args)
  | ["run", image, input, output] =>
    runFile image input output (optionValue? "--journal" args) (optionValue? "--tick-limit" args)
  | _ => fail "expected: compile SOURCE IMAGE, or run IMAGE INPUT OUTPUT"

end CommandLine

end AccumulatorMachine

/-- The entry point. -/
def main (args : List String) : IO UInt32 :=
  AccumulatorMachine.CommandLine.dispatch args
