import AccumulatorMachine.SymbolTable

/-!
# Allocation

What the operations of the symbol table leave behind when they succeed.

The table is a state that computations thread, and each of them may stop at a reserved address.
Here every computation that succeeds is traced back to what it makes of the table, as a plain
function: `fresh` for a cell with a value, `slot` for one without, `chars` for the cells of a
text.

Two facts about the allocator are all that the theory of compiled programs needs. Addresses are
handed out from the base downwards without gaps, so the ones that are handed out form an interval
and `HandedOut` is two inequalities. And the cells of a table are never touched again: a later
table has the same cells and more of them further down, which is `Grows`.

## Main definitions

* `SymbolTable.fresh`, `SymbolTable.slot`, `SymbolTable.chars`, `SymbolTable.withString`: What
  allocations make of a table.
* `SymbolTable.Grows`: A table that later allocations lead to.
* `SymbolTable.HandedOut`: An address that the allocator has handed out.
* `SymbolTable.Within`: All names of a table are bound to addresses that were handed out.

## Theorems

* `SymbolTable.get?_insert`: Binding a name leaves all other names alone.
* `SymbolTable.length_mem_withString`, `SymbolTable.char_mem_withString`: Where the length and the
  characters of a string lie.
* `SymbolTable.declare_ok`, `SymbolTable.declareLiteral_ok`, `SymbolTable.declareString_ok`,
  `SymbolTable.allocateSlot_ok`: What a successful operation has done.
* `SymbolTable.Grows.trans`: Growing on and on is growing.
* `SymbolTable.Within.fresh`, `SymbolTable.Within.slot`, `SymbolTable.Within.bind`,
  `SymbolTable.Within.chars`: All operations keep names bound to addresses that were handed out.
-/

namespace AccumulatorMachine

namespace SymbolTable

theorem isReserved_iff {a : Int} : isReserved a = true ↔ a = counterCell ∨ a = bufferCell := by
  simp [isReserved]

theorem lookup_cons_eq_ite (name key : String) (info : SymbolInfo)
    (rest : List (String × SymbolInfo)) :
    ((key, info) :: rest).lookup name = if name = key then some info else rest.lookup name := by
  rw [List.lookup_cons]
  by_cases h : name = key
  · rw [if_pos h, h, beq_self_eq_true]
  · rw [if_neg h, beq_false_of_ne h]

theorem lookup_rebind (name other : String) (info : SymbolInfo)
    (bindings : List (String × SymbolInfo)) :
    (rebind name info bindings).lookup other
      = if other = name then some info else bindings.lookup other := by
  induction bindings with
  | nil => rw [rebind, lookup_cons_eq_ite]
  | cons binding rest ih =>
    obtain ⟨key, old⟩ := binding
    rw [rebind]
    -- Either the search ends at this binding, with the new meaning, or it goes on behind it.
    by_cases hkey : key = name
    · rw [if_pos hkey, lookup_cons_eq_ite, lookup_cons_eq_ite, hkey]
      by_cases h : other = name
      · rw [if_pos h, if_pos h]
      · rw [if_neg h, if_neg h, if_neg h]
    · rw [if_neg hkey, lookup_cons_eq_ite, lookup_cons_eq_ite, ih]
      by_cases h : other = key
      · rw [if_pos h, if_pos h, if_neg (fun hc => hkey (h.symm.trans hc))]
      · rw [if_neg h, if_neg h]

@[simp] theorem get?_insert {c : Countdown} (table : SymbolTable c) (name other : String)
    (info : SymbolInfo) :
    (table.insert name info).get? other = if other = name then some info else table.get? other :=
  lookup_rebind name other info table.bindings

@[simp] theorem addressOf?_insert (table : SymbolTable) (name other : String) (info : SymbolInfo) :
    (table.insert name info).addressOf? other
      = if other = name then some info.address else table.addressOf? other := by
  rw [addressOf?, get?_insert]
  by_cases h : other = name
  · rw [if_pos h, if_pos h]
    rfl
  · rw [if_neg h, if_neg h]
    rfl

/-- The table after the next address is handed out. -/
def taken (table : SymbolTable) : SymbolTable := { table with cursor := table.cursor - 1 }

/-- The table with a name bound to a new cell that has a value. -/
def fresh (table : SymbolTable) (name : String) (value : Int) (kind : SymbolKind) : SymbolTable :=
  (table.taken.addCell table.cursor value).insert name ⟨table.cursor, kind⟩

/-- The table with a name bound to a new cell that has no value. -/
def slot (table : SymbolTable) (name : String) : SymbolTable :=
  table.taken.insert name ⟨table.cursor, .slot⟩

/-- The table with new cells for the characters of a text. -/
def chars : List Char → SymbolTable → SymbolTable
  | [], table => table
  | c :: text, table => chars text (table.taken.addCell table.cursor c.toNat)

/-- The cells of a table are still there when the characters of a text have been added. -/
theorem mem_chars {cell : Cell} (text : List Char) {table : SymbolTable} (h : cell ∈ table.cells) :
    cell ∈ (chars text table).cells := by
  induction text generalizing table with
  | nil => exact h
  | cons c text ih => exact ih (List.mem_append_left _ h)

theorem get?_of_addressOf? {table : SymbolTable} {name : String} {a : Int}
    (h : table.addressOf? name = some a) : table.get? name ≠ none := by
  intro hnone
  rw [addressOf?, hnone] at h
  cases h

@[simp] theorem addressOf?_fresh (table : SymbolTable) (name other : String) (value : Int)
    (kind : SymbolKind) : (table.fresh name value kind).addressOf? other
      = if other = name then some table.cursor else table.addressOf? other :=
  addressOf?_insert _ name other ⟨table.cursor, kind⟩

@[simp] theorem addressOf?_slot (table : SymbolTable) (name other : String) :
    (table.slot name).addressOf? other
      = if other = name then some table.cursor else table.addressOf? other :=
  addressOf?_insert _ name other ⟨table.cursor, .slot⟩

@[simp] theorem addressOf?_bind (table : SymbolTable) (name other : String) (a : Int) :
    (table.bind name a).addressOf? other
      = if other = name then some a else table.addressOf? other :=
  addressOf?_insert _ name other ⟨a, .aliased⟩

@[simp] theorem bindings_chars (text : List Char) (table : SymbolTable) :
    (chars text table).bindings = table.bindings := by
  induction text generalizing table with
  | nil => rfl
  | cons c text ih => exact ih _

@[simp] theorem addressOf?_chars (text : List Char) (table : SymbolTable) (name : String) :
    (chars text table).addressOf? name = table.addressOf? name := by
  rw [addressOf?, addressOf?, get?, get?, bindings_chars]

@[simp] theorem cursor_chars (text : List Char) (table : SymbolTable) :
    (chars text table).cursor = table.cursor - text.length := by
  induction text generalizing table with
  | nil => simp [chars]
  | cons c text ih =>
    rw [chars, ih]
    simp only [addCell, taken, List.length_cons]
    omega

/-- The characters of a text lie one below the other. -/
theorem char_mem_chars {text : List Char} {k : Nat} {c : Char} (table : SymbolTable)
    (h : text[k]? = some c) :
    (⟨.data c.toNat, table.cursor - k⟩ : Cell) ∈ (chars text table).cells := by
  induction text generalizing table k with
  | nil => cases h
  | cons first text ih =>
    cases k with
    | zero =>
      cases h
      refine mem_chars text (List.mem_append_right table.cells ?_)
      simp
    | succ k =>
      have hcell := ih (table.taken.addCell table.cursor first.toNat) h
      have hplace : (table.taken.addCell table.cursor first.toNat).cursor - (k : Int)
          = table.cursor - (k + 1 : Nat) := by
        simp only [addCell, taken]
        omega
      rw [hplace] at hcell
      exact hcell

section Layout

variable (table : SymbolTable) (name : String)

@[simp] theorem cursor_fresh (value : Int) (kind : SymbolKind) :
    (table.fresh name value kind).cursor = table.cursor - 1 := rfl

@[simp] theorem cursor_slot : (table.slot name).cursor = table.cursor - 1 := rfl

/-- The table after the declaration of a string: a cell for the length of the text and, below it,
    one for every character. -/
def withString (table : SymbolTable) (name text : String) : SymbolTable :=
  chars text.toList (table.fresh name text.toList.length (.str text.toList.length))

variable (text : String)

theorem cursor_withString :
    (table.withString name text).cursor = table.cursor - 1 - text.toList.length := by
  rw [withString, cursor_chars]
  rfl

theorem addressOf?_withString (other : String) : (table.withString name text).addressOf? other
    = if other = name then some table.cursor else table.addressOf? other := by
  rw [withString, addressOf?_chars, addressOf?_fresh]

theorem length_mem_withString :
    (⟨.data text.toList.length, table.cursor⟩ : Cell) ∈ (table.withString name text).cells :=
  mem_chars _ (List.mem_append_right _ List.mem_cons_self)

theorem char_mem_withString {n : Nat} {c : Char} (h : text.toList[n]? = some c) :
    (⟨.data c.toNat, table.cursor - (n + 1 : Nat)⟩ : Cell)
      ∈ (table.withString name text).cells := by
  have hcell := char_mem_chars (table.fresh name text.toList.length (.str text.toList.length)) h
  have hplace : (table.fresh name text.toList.length (.str text.toList.length)).cursor - (n : Int)
      = table.cursor - (n + 1 : Nat) := by
    simp only [fresh, insert, addCell, taken]
    omega
  rwa [hplace] at hcell

end Layout

namespace Allocating

variable {c : Countdown} {α β : Type}

theorem runOn_bind (x : AllocatingBy c α) (f : α → AllocatingBy c β) (table : SymbolTable c) :
    (x >>= f).runOn table = match x.runOn table with
      | (.ok a, table) => (f a).runOn table
      | (.error e, table) => (.error e, table) := by
  rw [AllocatingBy.runOn, ExceptT.run_bind, StateT.run_bind]
  have hx : StateT.run (ExceptT.run x) table = x.runOn table := rfl
  rw [hx]
  rcases x.runOn table with ⟨_ | a, table'⟩ <;> rfl

@[simp] theorem runOn_pure (a : α) (table : SymbolTable c) :
    AllocatingBy.runOn (pure a) table = (.ok a, table) := rfl

@[simp] theorem runOn_get (table : SymbolTable c) :
    AllocatingBy.runOn get table = (.ok table, table) := rfl

@[simp] theorem runOn_set (table table' : SymbolTable c) :
    AllocatingBy.runOn (set table') table = (.ok ⟨⟩, table') := rfl

@[simp] theorem runOn_throw (e : ReservedAddress) (table : SymbolTable c) :
    AllocatingBy.runOn (throw e : AllocatingBy c α) table = (.error e, table) := rfl

theorem runOn_bind_ok {x : AllocatingBy c α} {f : α → AllocatingBy c β}
    {table table' : SymbolTable c} {b : β} (h : (x >>= f).runOn table = (.ok b, table')) :
    ∃ a mid, x.runOn table = (.ok a, mid) ∧ (f a).runOn mid = (.ok b, table') := by
  rw [runOn_bind] at h
  rcases hx : x.runOn table with ⟨_ | a, mid⟩
  · rw [hx] at h
    cases h
  · rw [hx] at h
    exact ⟨a, mid, rfl, h⟩

end Allocating

theorem runOn_allocate {c : Countdown} (table : SymbolTable c) :
    allocate.runOn table = if isReserved table.cursor then (.error ⟨table.cursor⟩, table)
      else (.ok table.cursor, { table with cursor := c.next table.cursor }) := by
  rw [allocate, Allocating.runOn_bind, Allocating.runOn_get]
  by_cases h : isReserved table.cursor = true
  · simp only [if_pos h, Allocating.runOn_throw]
  · simp only [if_neg h, Allocating.runOn_bind, Allocating.runOn_set, Allocating.runOn_pure]

theorem allocate_ok {table table' : SymbolTable} {a : Int}
    (h : allocate.runOn table = (.ok a, table')) :
    isReserved table.cursor = false ∧ a = table.cursor ∧ table' = table.taken := by
  rw [runOn_allocate] at h
  by_cases hr : isReserved table.cursor = true
  · rw [if_pos hr] at h
    cases h
  · rw [if_neg hr] at h
    cases h
    exact ⟨Bool.eq_false_iff.mpr hr, rfl, rfl⟩

theorem declare_ok {table table' : SymbolTable} {name : String} {value : Int} {kind : SymbolKind}
    {al : Allocation} (h : (declare name value kind).runOn table = (.ok al, table')) :
    (∃ info, table.get? name = some info ∧ al = .existing info.address ∧ table' = table) ∨
      (table.get? name = none ∧ isReserved table.cursor = false ∧ al = .fresh table.cursor ∧
        table' = table.fresh name value kind) := by
  rw [declare, Allocating.runOn_bind, Allocating.runOn_get] at h
  cases hget : table.get? name with
  | some info =>
    simp only [hget, Allocating.runOn_pure] at h
    cases h
    exact Or.inl ⟨info, rfl, rfl, rfl⟩
  | none =>
    simp only [hget] at h
    rcases Allocating.runOn_bind_ok h with ⟨a, mid, ha, h⟩
    rcases allocate_ok ha with ⟨hr, rfl, rfl⟩
    cases h
    exact Or.inr ⟨rfl, hr, rfl, rfl⟩

theorem declareLiteral_ok {table table' : SymbolTable} {spelling : String} {value a : Int}
    (h : (declareLiteral spelling value).runOn table = (.ok a, table')) :
    (table.addressOf? spelling = some a ∧ table' = table) ∨
      (table.get? spelling = none ∧ isReserved table.cursor = false ∧ a = table.cursor ∧
        table' = table.fresh spelling value .literal) := by
  rcases Allocating.runOn_bind_ok h with ⟨al, mid, hdeclare, h⟩
  cases h
  rcases declare_ok hdeclare with ⟨info, hget, rfl, rfl⟩ | ⟨hget, hr, rfl, rfl⟩
  · exact Or.inl ⟨by rw [addressOf?, hget]; rfl, rfl⟩
  · exact Or.inr ⟨hget, hr, rfl, rfl⟩

theorem allocateSlot_ok {table table' : SymbolTable} {name : String} {a : Int}
    (h : (allocateSlot name).runOn table = (.ok a, table')) :
    isReserved table.cursor = false ∧ a = table.cursor ∧ table' = table.slot name := by
  rcases Allocating.runOn_bind_ok h with ⟨a, mid, ha, h⟩
  rcases allocate_ok ha with ⟨hr, rfl, rfl⟩
  cases h
  exact ⟨hr, rfl, rfl⟩

theorem allocateChars_ok {text : List Char} {table table' : SymbolTable}
    (h : (allocateChars text).runOn table = (.ok ⟨⟩, table')) :
    (∀ a, table.cursor - text.length < a → a ≤ table.cursor → isReserved a = false) ∧
      table' = chars text table := by
  induction text generalizing table with
  | nil =>
    cases h
    exact ⟨fun a hl hu => by simp only [List.length_nil] at hl; omega, rfl⟩
  | cons c text ih =>
    rcases Allocating.runOn_bind_ok h with ⟨a, mid, ha, h⟩
    rcases allocate_ok ha with ⟨hr, rfl, rfl⟩
    rcases Allocating.runOn_bind_ok h with ⟨_, mid, hmid, h⟩
    cases hmid
    rcases ih h with ⟨hrest, rfl⟩
    refine ⟨fun a hl hu => ?_, rfl⟩
    -- The first character has the address of the cursor, and the others are below it.
    by_cases ha : a = table.cursor
    · rw [ha, hr]
    · refine hrest a ?_ ?_
      · simp only [List.length_cons] at hl
        simp only [addCell, taken]
        omega
      · simp only [addCell, taken]
        omega

theorem declareString_ok {table table' : SymbolTable} {name text : String} {al : Allocation}
    (h : (declareString name text).runOn table = (.ok al, table')) :
    (∃ info, table.get? name = some info ∧ al = .existing info.address ∧ table' = table) ∨
      (table.get? name = none ∧ al = .fresh table.cursor ∧
        (∀ a, table.cursor - text.toList.length ≤ a → a ≤ table.cursor → isReserved a = false) ∧
        table' = chars text.toList
          (table.fresh name text.toList.length (.str text.toList.length))) := by
  simp only [declareString] at h
  rcases Allocating.runOn_bind_ok h with ⟨declared, mid, hdeclare, hrest⟩
  rcases declare_ok hdeclare with ⟨info, hget, rfl, rfl⟩ | ⟨hget, hr, rfl, rfl⟩
  · cases hrest
    exact Or.inl ⟨info, hget, rfl, rfl⟩
  · rcases Allocating.runOn_bind_ok hrest with ⟨_, mid, hchars, hpure⟩
    cases hpure
    rcases allocateChars_ok hchars with ⟨hfree, rfl⟩
    refine Or.inr ⟨hget, rfl, fun a hl hu => ?_, rfl⟩
    -- The length has the address of the cursor, and the characters are below it.
    by_cases ha : a = table.cursor
    · rw [ha, hr]
    · refine hfree a ?_ ?_ <;> simp only [fresh, insert, addCell, taken] <;> omega


/-- A table that comes from another one by allocations. -/
structure Grows (table table' : SymbolTable) : Prop where
  cursor_le : table'.cursor ≤ table.cursor
  unreserved : ∀ a, table'.cursor < a → a ≤ table.cursor → isReserved a = false
  cells : ∃ new, table'.cells = table.cells ++ new ∧
    (∀ cell ∈ new, table'.cursor < cell.address ∧ cell.address ≤ table.cursor) ∧
    (∀ cell ∈ new, ∃ value, cell.value = .data value) ∧
    new.Pairwise fun upper lower => lower.address < upper.address

namespace Grows

theorem refl (table : SymbolTable) : table.Grows table where
  cursor_le := Int.le_refl _
  unreserved := fun a hl hu => by omega
  cells := ⟨[], (List.append_nil _).symm, by simp, by simp, List.Pairwise.nil⟩

theorem trans {first second third : SymbolTable} (h1 : first.Grows second)
    (h2 : second.Grows third) : first.Grows third := by
  have hle1 := h1.cursor_le
  have hle2 := h2.cursor_le
  refine ⟨by omega, fun a hl hu => ?_, ?_⟩
  · -- The cursor in the middle separates the addresses of the two growths.
    by_cases ha : a ≤ second.cursor
    · exact h2.unreserved a hl ha
    · exact h1.unreserved a (by omega) hu
  · rcases h1.cells with ⟨new1, heq1, hin1, hdata1, hdesc1⟩
    rcases h2.cells with ⟨new2, heq2, hin2, hdata2, hdesc2⟩
    refine ⟨new1 ++ new2, by rw [heq2, heq1, List.append_assoc], ?_, ?_, ?_⟩
    · intro cell hcell
      rcases List.mem_append.mp hcell with hc | hc
      · have := hin1 cell hc
        omega
      · have := hin2 cell hc
        omega
    · intro cell hcell
      rcases List.mem_append.mp hcell with hc | hc
      · exact hdata1 cell hc
      · exact hdata2 cell hc
    · -- The later cells lie below the cursor that the earlier ones stop at.
      refine List.pairwise_append.mpr ⟨hdesc1, hdesc2, fun upper hupper lower hlower => ?_⟩
      have := hin1 upper hupper
      have := hin2 lower hlower
      omega

/-- The cells of a table are still there when it has grown. -/
theorem mem_cells {table table' : SymbolTable} (h : table.Grows table') {cell : Cell}
    (hcell : cell ∈ table.cells) : cell ∈ table'.cells := by
  rcases h.cells with ⟨new, hnew, -⟩
  rw [hnew]
  exact List.mem_append_left new hcell

/-- Handing out an address and giving it a cell. -/
theorem addCell {table : SymbolTable} (hr : isReserved table.cursor = false) (value : Int) :
    table.Grows (table.taken.addCell table.cursor value) where
  cursor_le := by simp only [SymbolTable.addCell, taken]; omega
  unreserved := fun a hl hu => by
    simp only [SymbolTable.addCell, taken] at hl
    have ha : a = table.cursor := by omega
    rw [ha, hr]
  cells := by
    refine ⟨[⟨.data value, table.cursor⟩], rfl, ?_, ?_, List.pairwise_singleton _ _⟩
    · intro cell hcell
      rw [List.mem_singleton.mp hcell]
      simp only [SymbolTable.addCell, taken]
      omega
    · intro cell hcell
      exact ⟨value, by rw [List.mem_singleton.mp hcell]⟩

/-- Handing out an address. -/
theorem taken {table : SymbolTable} (hr : isReserved table.cursor = false) :
    table.Grows table.taken where
  cursor_le := by simp only [SymbolTable.taken]; omega
  unreserved := fun a hl hu => by
    simp only [SymbolTable.taken] at hl
    have ha : a = table.cursor := by omega
    rw [ha, hr]
  cells := ⟨[], (List.append_nil _).symm, by simp, by simp, List.Pairwise.nil⟩

/-- Binding a name allocates nothing. -/
theorem insert {table table' : SymbolTable} (h : table.Grows table') (name : String)
    (info : SymbolInfo) : table.Grows (table'.insert name info) :=
  ⟨h.cursor_le, h.unreserved, h.cells⟩

theorem fresh {table : SymbolTable} (hr : isReserved table.cursor = false) (name : String)
    (value : Int) (kind : SymbolKind) : table.Grows (table.fresh name value kind) :=
  (addCell hr value).insert name ⟨table.cursor, kind⟩

theorem slot {table : SymbolTable} (hr : isReserved table.cursor = false) (name : String) :
    table.Grows (table.slot name) :=
  (taken hr).insert name ⟨table.cursor, .slot⟩

theorem bind (table : SymbolTable) (name : String) (a : Int) : table.Grows (table.bind name a) :=
  (refl table).insert name ⟨a, .aliased⟩

theorem chars {text : List Char} {table : SymbolTable}
    (hr : ∀ a, table.cursor - text.length < a → a ≤ table.cursor → isReserved a = false) :
    table.Grows (chars text table) := by
  induction text generalizing table with
  | nil => exact refl table
  | cons c text ih =>
    simp only [List.length_cons] at hr
    refine (addCell (hr _ (by omega) (Int.le_refl _)) c.toNat).trans (ih fun a hl hu => ?_)
    simp only [SymbolTable.addCell, SymbolTable.taken] at hl hu
    exact hr a (by omega) (by omega)

end Grows

/-- Every address that is handed out between two tables has a cell in the later one, or is one of
    those that the code stores to. -/
def Accounts (stored : Int → Prop) (table table' : SymbolTable) : Prop :=
  ∀ a, table'.cursor < a → a ≤ table.cursor →
    (∃ cell ∈ table'.cells, cell.address = a) ∨ stored a

namespace Accounts

variable {stored stored' : Int → Prop} {first second third table table' : SymbolTable}

theorem refl (stored : Int → Prop) (table : SymbolTable) : Accounts stored table table := by
  intro a hl hu
  omega

theorem mono (h : Accounts stored table table') (hs : ∀ a, stored a → stored' a) :
    Accounts stored' table table' := by
  intro a hl hu
  exact (h a hl hu).imp_right (hs a)

theorem trans (h : Accounts stored first second) (h' : Accounts stored second third)
    (hg : second.Grows third) : Accounts stored first third := by
  intro a hl hu
  by_cases ha : a ≤ second.cursor
  · exact h' a hl ha
  · rcases h a (by omega) hu with ⟨cell, hcell, haddress⟩ | hstored
    · exact Or.inl ⟨cell, hg.mem_cells hcell, haddress⟩
    · exact Or.inr hstored

theorem addCell (stored : Int → Prop) (table : SymbolTable) (value : Int) :
    Accounts stored table (table.taken.addCell table.cursor value) := by
  intro a hl hu
  simp only [SymbolTable.addCell, SymbolTable.taken] at hl ⊢
  refine Or.inl ⟨⟨.data value, table.cursor⟩, by simp, ?_⟩
  simp only
  omega

theorem insert (h : Accounts stored table table') (name : String) (info : SymbolInfo) :
    Accounts stored table (table'.insert name info) := h

theorem fresh (stored : Int → Prop) (table : SymbolTable) (name : String) (value : Int)
    (kind : SymbolKind) : Accounts stored table (table.fresh name value kind) :=
  (addCell stored table value).insert name ⟨table.cursor, kind⟩

theorem chars {text : List Char}
    (hr : ∀ a, table.cursor - text.length < a → a ≤ table.cursor → isReserved a = false) :
    Accounts stored table (SymbolTable.chars text table) := by
  induction text generalizing table with
  | nil => exact refl stored table
  | cons c text ih =>
    have hrest : ∀ a, (table.taken.addCell table.cursor c.toNat).cursor - text.length < a →
        a ≤ (table.taken.addCell table.cursor c.toNat).cursor → isReserved a = false := by
      intro a hl hu
      simp only [SymbolTable.addCell, SymbolTable.taken] at hl hu
      exact hr a (by simp only [List.length_cons]; omega) (by omega)
    exact (addCell stored table c.toNat).trans (ih hrest) (Grows.chars hrest)

end Accounts

/-- An address that was handed out, by a table whose first address is `base`. -/
def HandedOut {c : Countdown} (table : SymbolTable c) (base a : Int) : Prop :=
  table.cursor < a ∧ a ≤ base

/-- A table whose names are all bound to addresses that it has handed out. -/
structure Within (table : SymbolTable) (base : Int) : Prop where
  cursor_le : table.cursor ≤ base
  bound : ∀ name a, table.addressOf? name = some a → table.HandedOut base a

theorem HandedOut.mono {table table' : SymbolTable} {base a : Int} (h : table.HandedOut base a)
    (hg : table.Grows table') : table'.HandedOut base a := by
  have hle := hg.cursor_le
  exact ⟨by have := h.1; omega, h.2⟩

namespace Within

theorem empty (base : Int) : (empty base).Within base :=
  ⟨Int.le_refl _, fun _ _ h => by cases h⟩

/-- A table stays within its base if it grows and the names it binds anew do. -/
theorem insert {table table' : SymbolTable} {base : Int} (h : table.Within base)
    (hg : table.Grows table') (hb : table'.bindings = table.bindings) {name : String}
    {info : SymbolInfo} (ha : table'.HandedOut base info.address) :
    (table'.insert name info).Within base := by
  have hle := hg.cursor_le
  have hbase := h.cursor_le
  refine ⟨by simp only [SymbolTable.insert]; omega, fun other a hother => ?_⟩
  rw [addressOf?_insert] at hother
  by_cases hname : other = name
  · rw [if_pos hname] at hother
    cases hother
    exact ha
  · rw [if_neg hname, addressOf?, get?, hb] at hother
    exact (h.bound other a hother).mono (hg.insert name info)

theorem fresh {table : SymbolTable} {base : Int} (h : table.Within base)
    (hr : isReserved table.cursor = false) (name : String) (value : Int) (kind : SymbolKind) :
    (table.fresh name value kind).Within base := by
  refine h.insert (Grows.addCell hr value) rfl ⟨?_, h.cursor_le⟩
  simp only [SymbolTable.addCell, SymbolTable.taken]
  omega

theorem taken {table : SymbolTable} {base : Int} (h : table.Within base) :
    table.taken.Within base := by
  refine ⟨?_, fun name a hname => ?_⟩
  · have := h.cursor_le
    simp only [SymbolTable.taken]
    omega
  · have := h.bound name a hname
    exact ⟨by have := this.1; simp only [SymbolTable.taken]; omega, this.2⟩

theorem addCell {table : SymbolTable} {base : Int} (h : table.Within base) (a value : Int) :
    (table.addCell a value).Within base := ⟨h.cursor_le, h.bound⟩

theorem slot {table : SymbolTable} {base : Int} (h : table.Within base)
    (hr : isReserved table.cursor = false) (name : String) : (table.slot name).Within base := by
  refine h.insert (Grows.taken hr) rfl ⟨?_, h.cursor_le⟩
  simp only [SymbolTable.taken]
  omega

theorem bind {table : SymbolTable} {base a : Int} (h : table.Within base) (name : String)
    (ha : table.HandedOut base a) : (table.bind name a).Within base :=
  h.insert (Grows.refl table) rfl ha

theorem chars {text : List Char} {table : SymbolTable} {base : Int} (h : table.Within base) :
    (chars text table).Within base := by
  induction text generalizing table with
  | nil => exact h
  | cons c text ih => exact ih (h.taken.addCell table.cursor c.toNat)

end Within

end SymbolTable

end AccumulatorMachine
