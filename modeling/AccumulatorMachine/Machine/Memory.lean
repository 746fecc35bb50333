import Std.Data.ExtTreeMap
import AccumulatorMachine.Image

/-!
# Memory

The memory of the machine, which has a cell at some addresses and none at all the others.

Two memories with the same cells are equal, whatever writes they come from, so a statement about
what a run leaves in memory can be an equation.

## Main definitions

* `Memory`: Cells by address.
* `Memory.read`, `Memory.write`: Access to a cell.
* `Memory.ofCells`: The memory that a list of cells is loaded into.

## Theorems

* `Memory.read_write`: What is read after a write.
* `Memory.ext_read`: Memories that read alike are equal.
-/

namespace AccumulatorMachine

/-- The contents of cells by their address, in ascending order. -/
structure Memory where
  entries : Std.ExtTreeMap Int CellValue

namespace Memory

/-- A memory without cells. -/
def empty : Memory := ⟨∅⟩

/-- The contents of a cell. -/
def read (memory : Memory) (address : Int) : Option CellValue := memory.entries[address]?

/-- The number in a cell, if there is one. -/
def data? (memory : Memory) (address : Int) : Option Int :=
  match memory.read address with
  | some (.data value) => some value
  | _ => none

/-- The memory with new contents in a cell, which is created if there is none. -/
def write (memory : Memory) (address : Int) (value : CellValue) : Memory :=
  ⟨memory.entries.insert address value⟩

/-- The memory that cells are loaded into. Of several cells at one address the last one stays. -/
def ofCells (cells : List Cell) : Memory :=
  cells.foldl (fun memory cell => memory.write cell.address cell.value) empty

/-- The cells in ascending order of their addresses. -/
def cells (memory : Memory) : List Cell :=
  memory.entries.toList.map fun entry => ⟨entry.2, entry.1⟩

@[simp] theorem read_empty (address : Int) : empty.read address = none := by
  simp [empty, read]

@[simp] theorem read_write (memory : Memory) (address other : Int) (value : CellValue) :
    (memory.write address value).read other
      = if other = address then some value else memory.read other := by
  simp only [write, read, Std.ExtTreeMap.getElem?_insert, Std.LawfulEqCmp.compare_eq_iff_eq]
  split <;> split <;> simp_all

theorem ext_read {first second : Memory} (h : ∀ address, first.read address = second.read address) :
    first = second := by
  obtain ⟨first⟩ := first
  obtain ⟨second⟩ := second
  exact congrArg Memory.mk (Std.ExtTreeMap.ext_getElem? h)

end Memory

end AccumulatorMachine
