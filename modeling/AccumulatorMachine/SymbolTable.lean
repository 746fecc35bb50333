import AccumulatorMachine.Image
import AccumulatorMachine.Text.Distance

/-!
# Symbol Tables

The names of a program, the cells they are bound to, and the allocation of those cells.

Cells are handed out downwards from a base address. A literal is a name too: it is bound under
its spelling when it is first used, so that all its uses share one cell. Names keep the place in
the table that they got when they were first bound, whatever they are bound to later.

Two addresses are scratch cells of the generated code. The allocator never hands them out. It
fails when it reaches one, and keeps what it has done until then: a string that runs into a
reserved address has its name and the cells before it.

An address is a word, and nothing asks whether there is another one below it. The program goes on
with the greatest word after the least, or stops there if it is built to check its arithmetic. A
table says in its type how it counts, so that the same operations can also be run with all the
integers there are. They count like that unless something else is said, because no table in use
comes to the least word, and until then it makes no difference.

## Main definitions

* `Countdown`: The two ways to count addresses down.
* `SymbolTable`: The bindings, the initial cells and the next free address.
* `SymbolTable.Allocating`: A computation on a table that may reach a reserved address.
* `SymbolTable.declareInt`, `SymbolTable.declareString`, `SymbolTable.declareLiteral`,
  `SymbolTable.allocateSlot`, `SymbolTable.bind`: The ways to bind a name.
* `SymbolTable.suggest`: The bound name that is closest to an unbound one.
-/

namespace AccumulatorMachine

/-- What a name is bound to. -/
inductive SymbolKind where
  /-- A declared integer. -/
  | int
  /-- A declared string. Its address is that of its length. -/
  | str (length : Nat)
  | literal
  /-- A cell without an initial value. -/
  | slot
  /-- The cell of another name. -/
  | aliased
  deriving DecidableEq, Repr

/-- The address of a name, and what is there. -/
structure SymbolInfo where
  address : Int
  kind : SymbolKind
  deriving DecidableEq, Repr

/-- The outcome of a declaration. -/
inductive Allocation where
  /-- The name got a new address. -/
  | fresh (address : Int)
  /-- The name was bound already and keeps its address. -/
  | existing (address : Int)
  deriving DecidableEq, Repr

/-- The address that a declared name is bound to. -/
def Allocation.address : Allocation → Int
  | fresh address => address
  | existing address => address

/-- The allocator has reached an address that it may not hand out. -/
structure ReservedAddress where
  address : Int
  deriving DecidableEq, Repr

/-- The message of the allocator. -/
def ReservedAddress.message (e : ReservedAddress) : String :=
  "address " ++ Decimal.ofInt e.address ++ " is reserved for string I/O"

/-- What the allocator does with the addresses that there are. -/
inductive Countdown where
  /-- There is always an address below the last one. -/
  | unbounded
  /-- Addresses are words, and below the least one comes the greatest. -/
  | wrapping
  deriving DecidableEq, Repr

/-- The address that is handed out after an address. -/
def Countdown.next : Countdown → Int → Int
  | unbounded, a => a - 1
  | wrapping, a => if a = Word.minimum then Word.maximum else a - 1

/-- Bindings and initial cells. -/
structure SymbolTable (c : Countdown := .unbounded) where
  /-- The bound names in the order in which they were first bound. -/
  bindings : List (String × SymbolInfo)
  /-- The initial data cells in the order of their allocation. -/
  cells : List Cell
  /-- The address that comes next. -/
  cursor : Int
  deriving DecidableEq, Repr

namespace SymbolTable

/-- A table without names whose first allocation gets the address `base`. -/
def empty (base : Int) (c : Countdown := .unbounded) : SymbolTable c := ⟨[], [], base⟩

variable {c : Countdown}

/-- What a name is bound to. -/
def get? (table : SymbolTable c) (name : String) : Option SymbolInfo :=
  table.bindings.lookup name

/-- The address that a name is bound to. -/
def addressOf? (table : SymbolTable c) (name : String) : Option Int :=
  (table.get? name).map SymbolInfo.address

/-- The bindings with a name bound to something new, at its old place if it has one. -/
def rebind (name : String) (info : SymbolInfo) :
    List (String × SymbolInfo) → List (String × SymbolInfo)
  | [] => [(name, info)]
  | (other, old) :: rest =>
    if other = name then (name, info) :: rest else (other, old) :: rebind name info rest

/-- The table with a name bound to an address. -/
def insert (table : SymbolTable c) (name : String) (info : SymbolInfo) : SymbolTable c :=
  { table with bindings := rebind name info table.bindings }

/-- The table with one more initial cell. -/
def addCell (table : SymbolTable c) (address value : Int) : SymbolTable c :=
  { table with cells := table.cells ++ [⟨.data value, address⟩] }

/-- The table with a name bound to the address of another cell. -/
def bind (table : SymbolTable c) (name : String) (address : Int) : SymbolTable c :=
  table.insert name ⟨address, .aliased⟩

/-- Whether the allocator has to keep off an address. -/
def isReserved (address : Int) : Bool := address = counterCell || address = bufferCell

/-- A computation on a table that stops at a reserved address. -/
abbrev AllocatingBy (c : Countdown) : Type → Type :=
  ExceptT ReservedAddress (StateM (SymbolTable c))

/-- Such a computation if the addresses never run out. -/
abbrev Allocating : Type → Type := AllocatingBy .unbounded

/-- The result of a computation on a table, and the table it leaves. -/
def AllocatingBy.runOn {α : Type} (computation : AllocatingBy c α) (table : SymbolTable c) :
    Except ReservedAddress α × SymbolTable c :=
  computation.run.run table

/-- Hands out the next address. -/
def allocate : AllocatingBy c Int := do
  let table ← get
  if isReserved table.cursor then throw ⟨table.cursor⟩
  else
    set ({ table with cursor := c.next table.cursor } : SymbolTable c)
    return table.cursor

/-- Binds an unbound name to a new cell with an initial value. -/
def declare (name : String) (value : Int) (kind : SymbolKind) : AllocatingBy c Allocation := do
  match (← get).get? name with
  | some info => return .existing info.address
  | none =>
    -- Nothing is bound if the allocator fails.
    let address ← allocate
    modify fun table => (table.addCell address value).insert name ⟨address, kind⟩
    return .fresh address

/-- Declares an integer. -/
def declareInt (name : String) (value : Int) : AllocatingBy c Allocation :=
  declare name value .int

/-- The address of a literal, which is bound under its spelling when it is first used. -/
def declareLiteral (spelling : String) (value : Int) : AllocatingBy c Int := do
  return (← declare spelling value .literal).address

/-- Allocates a cell for every character of a text. -/
def allocateChars : List Char → AllocatingBy c Unit
  | [] => return ()
  | char :: text => do
    let address ← allocate
    modify fun table => table.addCell address char.toNat
    allocateChars text

/-- Declares a string: a cell with its length, and below it a cell for every character. -/
def declareString (name : String) (text : String) : AllocatingBy c Allocation := do
  let length := text.toList.length
  match ← declare name length (.str length) with
  | .fresh address =>
    -- The name is bound by now, whether there is room for the characters or not.
    allocateChars text.toList
    return .fresh address
  | .existing address => return .existing address

/-- Binds a name to a new address that has no initial cell, whether the name is bound or not. -/
def allocateSlot (name : String) : AllocatingBy c Int := do
  let address ← allocate
  modify fun table => table.insert name ⟨address, .slot⟩
  return address

/-- The greatest distance at which a name is taken for a misspelling. -/
def suggestionDistance : Nat := 2

/-- The names that are not literals and close to `name`, with their distances. -/
def candidates (table : SymbolTable c) (name : String) : List (Nat × String) :=
  (table.bindings.filter fun binding => binding.2.kind ≠ .literal).map
    (fun binding => (Text.editDistance name.toList binding.1.toList, binding.1))
  |>.filter fun candidate => candidate.1 ≤ suggestionDistance

/-- The first candidate of least distance. -/
def nearest : List (Nat × String) → Option (Nat × String)
  | [] => none
  | candidate :: rest =>
    match nearest rest with
    | none => some candidate
    -- Only a lesser distance wins over an earlier name.
    | some other => if other.1 < candidate.1 then some other else some candidate

/-- The bound name that is closest to `name`, if one is close enough. Literals are not
    suggested, and of two names at the same distance the one bound first is. -/
def suggest (table : SymbolTable c) (name : String) : Option String :=
  (nearest (table.candidates name)).map Prod.snd

end SymbolTable

end AccumulatorMachine
