import Mathlib.Data.List.Induction
import AccumulatorMachine.Proofs.Allocation

/-!
# The History of a Symbol Table

What a symbol table looks like after any sequence of calls, whether they succeed or not.

A call does one of a few things to the table, and `Call.Outcome` lists them with what the call
answers. A call that is refused changes nothing, with one exception: a string that runs into a
reserved address keeps its name and the cells before that address.

This is why `Separate` comes in two strengths. Every sequence of calls gives names that are no
aliases different addresses. If none of the calls is refused, the cells below the address of a
string belong to the string as well, and strings do not overlap. Both are one invariant, which
takes the number of cells below an address as a parameter.

What a name was declared with is not in the table. `holdsString_after` finds it in the calls.

## Main definitions

* `SymbolTable.Call`, `SymbolTable.Call.perform`: The calls of the operations that bind names.
* `SymbolTable.Call.Outcome`: What a call does to a table.
* `SymbolTable.Call.HandsOut`: An address that a call takes from the allocator.
* `SymbolTable.Separate`: Names that are no aliases own different cells.
* `SymbolTable.after`: The table after a sequence of calls.

## Theorems

* `SymbolTable.Call.outcome`: A call does one of the things that are listed.
* `SymbolTable.Call.Outcome.cut_at_bufferCell`: The reserved address that a string runs into.
* `SymbolTable.Separate.step`, `SymbolTable.separate_after`: A call, and so a sequence of calls,
  keeps names apart.
* `SymbolTable.names_in_order`: Names come in the order in which they were first bound.
* `SymbolTable.handsOut_lt`: Addresses are handed out downwards.
* `SymbolTable.holdsString_after`: The name of a string leads to its declaration and to its cells.
-/

namespace AccumulatorMachine

/-- The number of cells below the address of a symbol that belong to it. -/
def SymbolKind.below : SymbolKind → Nat
  | .str length => length
  | _ => 0

/-- A cell belongs to a symbol: it is the one at its address, or one of the next few below. -/
def SymbolInfo.Owns (extent : SymbolKind → Nat) (info : SymbolInfo)
    (a : Int) : Prop := info.address - extent info.kind ≤ a ∧ a ≤ info.address

namespace SymbolTable

/-- A call of an operation that binds a name. -/
inductive Call where
  | declareInt (name : String) (value : Int)
  | declareLiteral (spelling : String) (value : Int)
  | declareString (name text : String)
  | allocateSlot (name : String)
  | bind (name : String) (address : Int)
  deriving DecidableEq, Repr

/-- What a call answers if it is not refused. -/
inductive Call.Answer where
  | allocation (al : Allocation)
  /-- An address without saying whether it is new. -/
  | address (a : Int)
  | done
  deriving DecidableEq, Repr

namespace Call

/-- The name that a call binds. -/
def name : Call → String
  | declareInt name _ => name
  | declareLiteral spelling _ => spelling
  | declareString name _ => name
  | allocateSlot name => name
  | bind name _ => name

/-- The name that a call declares, which keeps its address if it is bound. -/
def declares? : Call → Option String
  | declareInt name _ => some name
  | declareLiteral spelling _ => some spelling
  | declareString name _ => some name
  | allocateSlot _ => none
  | bind _ _ => none

/-- How a declaration answers. That of a literal tells its address only. -/
def answer : Call → Allocation → Answer
  | declareLiteral _ _, al => .address al.address
  | _, al => .allocation al

variable {c : Countdown}

/-- The operation that is called. -/
def run : Call → AllocatingBy c Answer
  | declareInt name value => do return .allocation (← SymbolTable.declareInt name value)
  | declareLiteral spelling value => do
    return .address (← SymbolTable.declareLiteral spelling value)
  | declareString name text => do return .allocation (← SymbolTable.declareString name text)
  | allocateSlot name => do return .address (← SymbolTable.allocateSlot name)
  | bind name a => do
    modify fun table => table.bind name a
    return .done

/-- The answer of a call on a table, and the table it leaves. -/
def perform (call : Call) (table : SymbolTable c) :
    Except ReservedAddress Answer × SymbolTable c :=
  call.run.runOn table

/-- What a call does to a table. -/
inductive Outcome (table : SymbolTable) :
    Call → Except ReservedAddress Answer → SymbolTable → Prop
  /-- A declaration of a bound name changes nothing. -/
  | existing {call : Call} {name : String} {info : SymbolInfo}
      (hcall : call.declares? = some name) (hget : table.get? name = some info) :
      Outcome table call (.ok (call.answer (.existing info.address))) table
  /-- The next address is reserved. -/
  | refused {call : Call} (hget : ∀ name, call.declares? = some name → table.get? name = none)
      (hr : isReserved table.cursor = true) :
      Outcome table call (.error ⟨table.cursor⟩) table
  | fresh {call : Call} {name : String} {value : Int} {kind : SymbolKind}
      (hcall : call = .declareInt name value ∧ kind = .int ∨
        call = .declareLiteral name value ∧ kind = .literal)
      (hget : table.get? name = none) (hr : isReserved table.cursor = false) :
      Outcome table call (.ok (call.answer (.fresh table.cursor))) (table.fresh name value kind)
  | string {name text : String} (hget : table.get? name = none)
      (hr : ∀ a, table.cursor - text.toList.length ≤ a → a ≤ table.cursor →
        isReserved a = false) :
      Outcome table (.declareString name text) (.ok (.allocation (.fresh table.cursor)))
        (table.withString name text)
  /-- A reserved address is below the length of a string and some of its characters. -/
  | cut {name text : String} {kept lost : List Char} {c : Char}
      (htext : text.toList = kept ++ c :: lost) (hget : table.get? name = none)
      (hr : ∀ a, table.cursor - kept.length ≤ a → a ≤ table.cursor → isReserved a = false)
      (hc : isReserved (table.cursor - 1 - kept.length) = true) :
      Outcome table (.declareString name text) (.error ⟨table.cursor - 1 - kept.length⟩)
        (chars kept (table.fresh name text.toList.length (.str text.toList.length)))
  | slot {name : String} (hr : isReserved table.cursor = false) :
      Outcome table (.allocateSlot name) (.ok (.address table.cursor)) (table.slot name)
  | bind (name : String) (a : Int) :
      Outcome table (.bind name a) (.ok .done) (table.bind name a)

end Call

/-! ## What the operations do -/

theorem runOn_declare (name : String) (value : Int) (kind : SymbolKind) (table : SymbolTable) :
    (declare name value kind).runOn table = match table.get? name with
      | some info => (.ok (.existing info.address), table)
      | none => if isReserved table.cursor then (.error ⟨table.cursor⟩, table)
        else (.ok (.fresh table.cursor), table.fresh name value kind) := by
  rw [declare, Allocating.runOn_bind, Allocating.runOn_get]
  cases hget : table.get? name with
  | some info => simp only [hget, Allocating.runOn_pure]
  | none =>
    simp only [hget, Allocating.runOn_bind, runOn_allocate]
    by_cases hr : isReserved table.cursor = true
    · simp only [if_pos hr]
    · simp only [if_neg hr]
      rfl

/-- The cells that the characters of a text are given, up to the first reserved address. -/
theorem runOn_allocateChars (text : List Char) (table : SymbolTable) :
    ∃ kept lost, text = kept ++ lost ∧
      (∀ a, table.cursor - kept.length < a → a ≤ table.cursor → isReserved a = false) ∧
      ((lost = [] ∧ (allocateChars text).runOn table = (.ok ⟨⟩, chars text table)) ∨
        ∃ c rest, lost = c :: rest ∧ isReserved (table.cursor - kept.length) = true ∧
          (allocateChars text).runOn table
            = (.error ⟨table.cursor - kept.length⟩, chars kept table)) := by
  induction text generalizing table with
  | nil =>
    refine ⟨[], [], rfl, fun a hl hu => ?_, Or.inl ⟨rfl, rfl⟩⟩
    simp only [List.length_nil] at hl
    omega
  | cons c text ih =>
    rw [allocateChars, Allocating.runOn_bind, runOn_allocate]
    by_cases hr : isReserved table.cursor = true
    · have hfirst : table.cursor - (([] : List Char).length : Int) = table.cursor :=
        Int.sub_zero table.cursor
      refine ⟨[], c :: text, rfl, fun a hl hu => ?_, Or.inr ⟨c, text, rfl, ?_, ?_⟩⟩
      · rw [hfirst] at hl
        omega
      · rwa [hfirst]
      · rw [hfirst]
        simp only [if_pos hr]
        rfl
    · rcases ih (table.taken.addCell table.cursor c.toNat) with ⟨kept, lost, htext, hfree, hrest⟩
      have hplace : (table.taken.addCell table.cursor c.toNat).cursor - (kept.length : Int)
          = table.cursor - ((c :: kept).length : Int) := by
        simp only [addCell, taken, List.length_cons]
        omega
      rw [hplace] at hfree hrest
      refine ⟨c :: kept, lost, by rw [htext, List.cons_append], fun a hl hu => ?_, ?_⟩
      · -- The first character has the address of the cursor, and the others are below it.
        by_cases ha : a = table.cursor
        · rw [ha]
          exact Bool.eq_false_iff.mpr hr
        · exact hfree a hl (by simp only [addCell, taken]; omega)
      · simp only [if_neg hr]
        rcases hrest with ⟨hlost, hrun⟩ | ⟨d, rest, hlost, hd, hrun⟩
        · exact Or.inl ⟨hlost, hrun⟩
        · exact Or.inr ⟨d, rest, hlost, hd, hrun⟩

namespace Call

/-- A declaration that runs into a reserved address at once. -/
theorem Outcome.refused_of_declares {call : Call} {table : SymbolTable} {name : String}
    (hcall : call.declares? = some name) (hget : table.get? name = none)
    (hr : isReserved table.cursor = true) : Outcome table call (.error ⟨table.cursor⟩) table := by
  refine .refused (fun other hother => ?_) hr
  rw [hcall] at hother
  cases hother
  exact hget

/-- A call does one of the things that are listed. -/
theorem outcome (call : Call) (table : SymbolTable) :
    Outcome table call (call.perform table).1 (call.perform table).2 := by
  cases call with
  | declareInt name value =>
    rw [perform, run, Allocating.runOn_bind, SymbolTable.declareInt, runOn_declare]
    cases hget : table.get? name with
    | some info => exact @Outcome.existing table (.declareInt name value) _ info rfl hget
    | none =>
      by_cases hr : isReserved table.cursor = true
      · simp only [if_pos hr]
        exact .refused_of_declares rfl hget hr
      · simp only [if_neg hr]
        exact .fresh (Or.inl ⟨rfl, rfl⟩) hget (Bool.eq_false_iff.mpr hr)
  | declareLiteral spelling value =>
    rw [perform, run, Allocating.runOn_bind, SymbolTable.declareLiteral, Allocating.runOn_bind,
      runOn_declare]
    cases hget : table.get? spelling with
    | some info => exact @Outcome.existing table (.declareLiteral spelling value) _ info rfl hget
    | none =>
      by_cases hr : isReserved table.cursor = true
      · simp only [if_pos hr]
        exact .refused_of_declares rfl hget hr
      · simp only [if_neg hr]
        exact .fresh (Or.inr ⟨rfl, rfl⟩) hget (Bool.eq_false_iff.mpr hr)
  | declareString name text =>
    simp only [perform, run, Allocating.runOn_bind, SymbolTable.declareString, runOn_declare]
    cases hget : table.get? name with
    | some info => exact @Outcome.existing table (.declareString name text) _ info rfl hget
    | none =>
      by_cases hr : isReserved table.cursor = true
      · simp only [if_pos hr]
        exact .refused_of_declares rfl hget hr
      · simp only [if_neg hr, Allocating.runOn_bind]
        rcases runOn_allocateChars text.toList
          (table.fresh name text.toList.length (.str text.toList.length)) with
          ⟨kept, lost, htext, hfree, hrest⟩
        -- The length has the address of the cursor, and the characters are below it.
        have hfree' : ∀ a, table.cursor - kept.length ≤ a → a ≤ table.cursor →
            isReserved a = false := by
          intro a hl hu
          by_cases ha : a = table.cursor
          · rw [ha]
            exact Bool.eq_false_iff.mpr hr
          · exact hfree a (by simp only [cursor_fresh]; omega) (by simp only [cursor_fresh]; omega)
        rcases hrest with ⟨rfl, hrun⟩ | ⟨c, rest, rfl, hc, hrun⟩
        · rw [hrun]
          rw [List.append_nil] at htext
          exact .string hget (htext ▸ hfree')
        · rw [hrun]
          exact .cut htext hget hfree' hc
  | allocateSlot name =>
    simp only [perform, run, Allocating.runOn_bind, SymbolTable.allocateSlot, runOn_allocate]
    by_cases hr : isReserved table.cursor = true
    · simp only [if_pos hr]
      exact .refused (fun _ h => by cases h) hr
    · simp only [if_neg hr]
      exact .slot (Bool.eq_false_iff.mpr hr)
  | bind name a => exact .bind name a

end Call

/-! ## What a call leaves behind -/

section Effect

variable {table table' : SymbolTable} {call : Call} {answer : Except ReservedAddress Call.Answer}

theorem grows_withChars {text : List Char}
    (hr : ∀ a, table.cursor - text.length ≤ a → a ≤ table.cursor → isReserved a = false)
    (name : String) (value : Int) (kind : SymbolKind) :
    table.Grows (chars text (table.fresh name value kind)) := by
  refine (Grows.fresh (hr _ (by omega) (Int.le_refl _)) name value kind).trans
    (Grows.chars fun a hl hu => ?_)
  simp only [cursor_fresh] at hl hu
  exact hr a (by omega) (by omega)

theorem Call.Outcome.grows (h : Call.Outcome table call answer table') : table.Grows table' := by
  cases h with
  | existing | refused => exact .refl table
  | fresh hcall hget hr => exact .fresh hr _ _ _
  | string hget hr => exact grows_withChars hr _ _ _
  | cut htext hget hr => exact grows_withChars hr _ _ _
  | slot hr => exact .slot hr _
  | bind name a => exact .bind table name a

/-- A call binds one name at most, to the next address that is free or, if it names the address
    itself, as an alias. -/
theorem Call.Outcome.bindings (h : Call.Outcome table call answer table') :
    table' = table ∨ ∃ name info, table'.bindings = rebind name info table.bindings ∧
      (info.kind = .aliased ∨ info.address = table.cursor ∧ table'.cursor < table.cursor ∧
        ∀ a, answer = .ok a → table'.cursor < table.cursor - info.kind.below) := by
  cases h with
  | existing | refused => exact Or.inl rfl
  | @fresh call name value kind hcall hget hr =>
    refine Or.inr ⟨name, ⟨table.cursor, kind⟩, rfl, Or.inr ⟨rfl, ?_, fun _ _ => ?_⟩⟩
    · rw [cursor_fresh]
      omega
    · have hbelow : kind.below = 0 := by rcases hcall with ⟨-, rfl⟩ | ⟨-, rfl⟩ <;> rfl
      simp only [cursor_fresh, hbelow]
      omega
  | @string name text hget hr =>
    refine Or.inr ⟨name, ⟨table.cursor, .str text.toList.length⟩, bindings_chars _ _,
      Or.inr ⟨rfl, ?_, fun _ _ => ?_⟩⟩
    · rw [cursor_withString]
      omega
    · rw [cursor_withString, SymbolKind.below]
      omega
  | @cut name text kept lost c htext hget hr =>
    -- A string that is cut off is bound all the same, though the call is refused.
    refine Or.inr ⟨name, ⟨table.cursor, .str text.toList.length⟩, bindings_chars _ _,
      Or.inr ⟨rfl, ?_, fun _ hok => by cases hok⟩⟩
    rw [cursor_chars, cursor_fresh]
    omega
  | @slot name hr =>
    refine Or.inr ⟨name, ⟨table.cursor, .slot⟩, rfl, Or.inr ⟨rfl, ?_, fun _ _ => ?_⟩⟩
    · rw [cursor_slot]
      omega
    · simp only [cursor_slot, SymbolKind.below]
      omega
  | bind name a => exact Or.inr ⟨name, ⟨a, .aliased⟩, rfl, Or.inl rfl⟩

/-- A declaration of a bound name tells its address and changes nothing. -/
theorem Call.Outcome.of_bound (h : Call.Outcome table call answer table') {name : String}
    {info : SymbolInfo} (hcall : call.declares? = some name) (hget : table.get? name = some info) :
    answer = .ok (call.answer (.existing info.address)) ∧ table' = table := by
  -- All other outcomes of a declaration need a name that is not bound yet.
  cases h with
  | existing hother hinfo =>
    rw [hcall] at hother
    cases hother
    rw [hget] at hinfo
    cases hinfo
    exact ⟨rfl, rfl⟩
  | refused hnew hr =>
    rw [hnew name hcall] at hget
    cases hget
  | fresh hform hnew hr =>
    rcases hform with ⟨rfl, -⟩ | ⟨rfl, -⟩ <;>
    · cases hcall
      rw [hnew] at hget
      cases hget
  | string hnew hr | cut htext hnew hr =>
    cases hcall
    rw [hnew] at hget
    cases hget
  | slot | bind => cases hcall

end Effect

/-! ## Names -/

/-- The bound names in the order of the table. -/
def names {c : Countdown} (table : SymbolTable c) : List String := table.bindings.map Prod.fst

theorem lookup_eq_none_iff {name : String} {bindings : List (String × SymbolInfo)} :
    bindings.lookup name = none ↔ name ∉ bindings.map Prod.fst := by
  induction bindings with
  | nil => simp
  | cons binding rest ih =>
    obtain ⟨key, info⟩ := binding
    rw [lookup_cons_eq_ite, List.map_cons, List.mem_cons]
    by_cases h : name = key
    · simp [h]
    · rw [if_neg h, ih]
      simp [h]

/-- In a list without repeated names, a name is looked up where it stands. -/
theorem mem_iff_lookup {name : String} {info : SymbolInfo} {bindings : List (String × SymbolInfo)}
    (h : (bindings.map Prod.fst).Nodup) :
    (name, info) ∈ bindings ↔ bindings.lookup name = some info := by
  induction bindings with
  | nil => simp
  | cons binding rest ih =>
    obtain ⟨key, other⟩ := binding
    rw [List.map_cons, List.nodup_cons] at h
    rw [lookup_cons_eq_ite, List.mem_cons]
    by_cases hkey : name = key
    · subst hkey
      -- The name stands here, and so it stands nowhere else.
      have hrest : (name, info) ∉ rest := fun hmem => h.1 (List.mem_map.mpr ⟨_, hmem, rfl⟩)
      rw [if_pos rfl]
      simp [hrest, eq_comm]
    · rw [if_neg hkey, ih h.2]
      simp [hkey]

theorem map_fst_rebind (name : String) (info : SymbolInfo) (bindings : List (String × SymbolInfo)) :
    (rebind name info bindings).map Prod.fst =
      if name ∈ bindings.map Prod.fst then bindings.map Prod.fst
      else bindings.map Prod.fst ++ [name] := by
  induction bindings with
  | nil => simp [rebind]
  | cons binding rest ih =>
    obtain ⟨key, old⟩ := binding
    rw [rebind]
    by_cases hkey : key = name
    · simp [hkey]
    · have hname : name ≠ key := fun h => hkey h.symm
      simp only [if_neg hkey, List.map_cons, ih, List.mem_cons, hname, false_or]
      by_cases h : name ∈ rest.map Prod.fst
      · rw [if_pos h, if_pos h]
      · rw [if_neg h, if_neg h, List.cons_append]

/-- Binding a name leaves the others bound to what they were bound to before. -/
theorem get?_of_rebind {table table' : SymbolTable} {key name : String} {new info : SymbolInfo}
    (hbindings : table'.bindings = rebind key new table.bindings)
    (hget : table'.get? name = some info) :
    table.get? name = some info ∨ key = name ∧ new = info := by
  rw [get?, hbindings, lookup_rebind] at hget
  by_cases hkey : name = key
  · rw [if_pos hkey] at hget
    exact Or.inr ⟨hkey.symm, Option.some.inj hget⟩
  · rw [if_neg hkey] at hget
    exact Or.inl hget

theorem get?_eq_none_iff {table : SymbolTable} {name : String} :
    table.get? name = none ↔ name ∉ table.names := lookup_eq_none_iff

/-- A call keeps the names in their order and adds one at the end, if any. -/
theorem Call.Outcome.names {table table' : SymbolTable} {call : Call}
    {answer : Except ReservedAddress Call.Answer} (h : Call.Outcome table call answer table') :
    table'.names = table.names ∨
      ∃ name, name ∉ table.names ∧ table'.names = table.names ++ [name] := by
  rcases h.bindings with rfl | ⟨name, info, hbindings, -⟩
  · exact Or.inl rfl
  · rw [SymbolTable.names, hbindings, map_fst_rebind]
    by_cases hname : name ∈ table.bindings.map Prod.fst
    · exact Or.inl (if_pos hname)
    · exact Or.inr ⟨name, hname, if_neg hname⟩

/-- A call that is not refused leaves its name bound. -/
theorem Call.Outcome.name_mem {table table' : SymbolTable} {call : Call} {answer : Call.Answer}
    (h : Call.Outcome table call (.ok answer) table') : call.name ∈ table'.names := by
  have hbound : ∀ {table' : SymbolTable} {name : String} {info : SymbolInfo},
      table'.bindings = rebind name info table.bindings → name ∈ table'.names := by
    intro table' name info hbindings
    rw [SymbolTable.names, hbindings, map_fst_rebind]
    -- A binding is replaced where it stands or added at the end.
    by_cases hname : name ∈ table.bindings.map Prod.fst
    · rw [if_pos hname]
      exact hname
    · rw [if_neg hname]
      exact List.mem_append_right _ List.mem_cons_self
  cases h with
  | @existing _ name info hcall hget =>
    have hname : call.name = name := by cases call <;> cases hcall <;> rfl
    rw [hname]
    by_cases hmem : name ∈ table.names
    · exact hmem
    · rw [get?_eq_none_iff.mpr hmem] at hget
      cases hget
  | fresh hcall hget hr =>
    rcases hcall with ⟨rfl, -⟩ | ⟨rfl, -⟩
    · exact hbound rfl
    · exact hbound rfl
  | string hget hr => exact hbound (bindings_chars _ _)
  | slot | bind => exact hbound rfl

/-! ## Invariants -/

/-- The names that are no aliases have their cells in the part of the memory that was handed out,
    and no two of them share a cell. -/
structure Separate (extent : SymbolKind → Nat) (base : Int) (table : SymbolTable) : Prop where
  handedOut : ∀ name info, table.get? name = some info → info.kind ≠ .aliased →
    ∀ a, info.Owns extent a → table.HandedOut base a
  apart : ∀ name other info info', table.get? name = some info → table.get? other = some info' →
    info.kind ≠ .aliased → info'.kind ≠ .aliased → name ≠ other →
    ∀ a, info.Owns extent a → ¬ info'.Owns extent a

namespace Separate

variable {extent : SymbolKind → Nat} {base : Int} {table table' : SymbolTable} {call : Call}
  {answer : Except ReservedAddress Call.Answer}

theorem empty (extent : SymbolKind → Nat) (base : Int) : Separate extent base (empty base) :=
  ⟨fun _ _ h => (by cases h), fun _ _ _ _ h => (by cases h)⟩

/-- A name gets a cell of its own below all those that were handed out before. -/
theorem rebind (h : Separate extent base table) (hbase : table.cursor ≤ base)
    (hle : table'.cursor ≤ table.cursor) {name : String} {info : SymbolInfo}
    (hbindings : table'.bindings = SymbolTable.rebind name info table.bindings)
    (hinfo : info.kind = .aliased ∨
      info.address = table.cursor ∧ table'.cursor < table.cursor - extent info.kind) :
    Separate extent base table' := by
  have hget : ∀ other, table'.get? other = if other = name then some info else table.get? other :=
    fun other => by rw [get?, hbindings, lookup_rebind]; rfl
  -- What belongs to the new symbol lies between the two cursors.
  have hnew : info.kind ≠ .aliased → ∀ a, info.Owns extent a →
      table'.cursor < a ∧ a ≤ table.cursor := by
    intro hkind a ha
    have hinfo := hinfo.resolve_left hkind
    rw [SymbolInfo.Owns] at ha
    omega
  refine ⟨fun other old hother hkind a ha => ?_,
    fun first second old old' hfirst hsecond hkind hkind' hne a ha ha' => ?_⟩
  · rw [hget] at hother
    by_cases heq : other = name
    · rw [if_pos heq] at hother
      cases hother
      have := hnew hkind a ha
      exact ⟨this.1, by omega⟩
    · rw [if_neg heq] at hother
      have := h.handedOut other old hother hkind a ha
      exact ⟨by have := this.1; omega, this.2⟩
  · rw [hget] at hfirst hsecond
    by_cases h1 : first = name
    · rw [if_pos h1] at hfirst
      rw [if_neg (fun h2 => hne (h1.trans h2.symm))] at hsecond
      cases hfirst
      have hin := hnew hkind a ha
      have hold := h.handedOut second old' hsecond hkind' a ha'
      exact absurd hold.1 (by omega)
    · rw [if_neg h1] at hfirst
      by_cases h2 : second = name
      · rw [if_pos h2] at hsecond
        cases hsecond
        have hin := hnew hkind' a ha'
        have hold := h.handedOut first old hfirst hkind a ha
        exact absurd hold.1 (by omega)
      · rw [if_neg h2] at hsecond
        exact h.apart first second old old' hfirst hsecond hkind hkind' hne a ha ha'

/-- A call keeps names apart. Their addresses stay apart in any case, and the cells of strings if
    the call is not refused. -/
theorem step (h : Separate extent base table) (hbase : table.cursor ≤ base)
    (hcall : Call.Outcome table call answer table')
    (hfits : extent = (fun _ => 0) ∨ extent = SymbolKind.below ∧ ∃ a, answer = .ok a) :
    Separate extent base table' := by
  rcases hcall.bindings with rfl | ⟨name, info, hbindings, hinfo⟩
  · exact h
  · refine h.rebind hbase hcall.grows.cursor_le hbindings (hinfo.imp_right fun hinfo => ?_)
    rcases hfits with rfl | ⟨rfl, a, hok⟩
    · exact ⟨hinfo.1, by have := hinfo.2.1; simp only; omega⟩
    · exact ⟨hinfo.1, hinfo.2.2 a hok⟩

end Separate

/-! ## Addresses and strings -/

/-- A call hands out an address: it answers with it, or it adds a cell there. -/
inductive Call.HandsOut {c : Countdown} (table : SymbolTable c) : Call → Int → Prop where
  | declared {call : Call} {a : Int} (h : (call.perform table).1 = .ok (.allocation (.fresh a))) :
      HandsOut table call a
  | literal {spelling : String} {value a : Int} (hget : table.get? spelling = none)
      (h : ((Call.declareLiteral spelling value).perform table).1 = .ok (.address a)) :
      HandsOut table (.declareLiteral spelling value) a
  | slot {name : String} {a : Int}
      (h : ((Call.allocateSlot name).perform table).1 = .ok (.address a)) :
      HandsOut table (.allocateSlot name) a
  | cell {call : Call} {new : List Cell} {cell : Cell}
      (h : (call.perform table).2.cells = table.cells ++ new) (hcell : cell ∈ new) :
      HandsOut table call cell.address

/-- A call that is not refused tells the address of a bound name, or it takes the next address. The
    calls of `bind` do neither. -/
theorem Call.Outcome.of_answer {table table' : SymbolTable} {call : Call} {answer : Call.Answer}
    (h : Call.Outcome table call (.ok answer) table') :
    (∃ name info, call.declares? = some name ∧ table.get? name = some info ∧
        answer = call.answer (.existing info.address)) ∨
      answer = .done ∨
      (answer = .allocation (.fresh table.cursor) ∨ answer = .address table.cursor) ∧
        table'.cursor < table.cursor := by
  cases h with
  | existing hcall hget => exact Or.inl ⟨_, _, hcall, hget, rfl⟩
  | fresh hcall hget hr =>
    refine Or.inr (Or.inr ⟨?_, by rw [cursor_fresh]; omega⟩)
    rcases hcall with ⟨rfl, -⟩ | ⟨rfl, -⟩
    · exact Or.inl rfl
    · exact Or.inr rfl
  | string hget hr => exact Or.inr (Or.inr ⟨Or.inl rfl, by rw [cursor_withString]; omega⟩)
  | slot hr => exact Or.inr (Or.inr ⟨Or.inr rfl, by rw [cursor_slot]; omega⟩)
  | bind name a => exact Or.inr (Or.inl rfl)

/-- What a call hands out lies between the cursors before and after it. -/
theorem Call.HandsOut.between {table : SymbolTable} {call : Call} {a : Int}
    (h : call.HandsOut table a) : (call.perform table).2.cursor < a ∧ a ≤ table.cursor := by
  have hout := call.outcome table
  -- A cell is handed out from the cursor downwards, and the cursor moves below it.
  cases h with
  | declared h =>
    rw [h] at hout
    rcases hout.of_answer with ⟨_, _, -, -, heq⟩ | heq | ⟨heq | heq, hlt⟩
    · cases call <;> cases heq
    · cases heq
    · cases heq
      exact ⟨hlt, Int.le_refl _⟩
    · cases heq
  | literal hget h =>
    rw [h] at hout
    rcases hout.of_answer with ⟨name, info, hname, hinfo, -⟩ | heq | ⟨heq | heq, hlt⟩
    · cases hname
      rw [hget] at hinfo
      cases hinfo
    · cases heq
    · cases heq
    · cases heq
      exact ⟨hlt, Int.le_refl _⟩
  | slot h =>
    rw [h] at hout
    rcases hout.of_answer with ⟨_, _, hname, -⟩ | heq | ⟨heq | heq, hlt⟩
    · cases hname
    · cases heq
    · cases heq
    · cases heq
      exact ⟨hlt, Int.le_refl _⟩
  | cell h hcell =>
    rcases hout.grows.cells with ⟨new, hnew, hin, -, -⟩
    rw [h, List.append_cancel_left_eq] at hnew
    exact hin _ (hnew ▸ hcell)

/-- A cut falls on the upper one of the scratch cells, since addresses are handed out downwards. -/
theorem Call.Outcome.cut_at_bufferCell {kept : List Char} {cursor : Int}
    (hr : ∀ a, cursor - kept.length ≤ a → a ≤ cursor → isReserved a = false)
    (hc : isReserved (cursor - 1 - kept.length) = true) :
    cursor - 1 - kept.length = bufferCell := by
  rcases isReserved_iff.mp hc with hlower | hupper
  · -- The upper one is next to the lower one, so it would have come first.
    have hfree := hr bufferCell (by simp only [bufferCell, counterCell] at hlower ⊢; omega)
      (by simp only [bufferCell, counterCell] at hlower ⊢; omega)
    exact absurd hfree (by decide)
  · exact hupper

/-- A string that is in the table after a call was there before, or the call has declared it, with
    all of its cells or with a scratch cell among them. -/
theorem Call.Outcome.string_of_get? {table table' : SymbolTable} {call : Call}
    {answer : Except ReservedAddress Call.Answer} (h : Call.Outcome table call answer table')
    {name : String} {a : Int} {n : Nat} (hget : table'.get? name = some ⟨a, .str n⟩) :
    table.get? name = some ⟨a, .str n⟩ ∨ ∃ text, call = .declareString name text ∧
      n = text.toList.length ∧ a = table.cursor ∧
      (answer = .ok (.allocation (.fresh a)) ∧ table' = table.withString name text ∧
          (∀ b, a - n ≤ b → b ≤ a → isReserved b = false) ∨
        (∃ e, answer = .error e) ∧ bufferCell < a ∧ a - n ≤ bufferCell) := by
  -- Only a declaration of a string makes a name that of one, even if it is cut off.
  cases h with
  | existing | refused => exact Or.inl hget
  | fresh hcall hnew hr =>
    rcases get?_of_rebind rfl hget with hold | ⟨-, hinfo⟩
    · exact Or.inl hold
    · rcases hcall with ⟨-, rfl⟩ | ⟨-, rfl⟩ <;> cases hinfo
  | string hnew hr =>
    rcases get?_of_rebind (bindings_chars _ _) hget with hold | ⟨rfl, hinfo⟩
    · exact Or.inl hold
    · cases hinfo
      exact Or.inr ⟨_, rfl, rfl, rfl, Or.inl ⟨rfl, rfl, hr⟩⟩
  | @cut _ text kept lost c htext hnew hr hc =>
    rcases get?_of_rebind (bindings_chars _ _) hget with hold | ⟨rfl, hinfo⟩
    · exact Or.inl hold
    · cases hinfo
      have hat := cut_at_bufferCell hr hc
      have hlength := congrArg List.length htext
      simp only [List.length_append, List.length_cons] at hlength
      exact Or.inr ⟨_, rfl, rfl, rfl, Or.inr ⟨⟨_, rfl⟩, by omega, by omega⟩⟩
  | slot | bind =>
    rcases get?_of_rebind rfl hget with hold | ⟨-, hinfo⟩
    · exact Or.inl hold
    · cases hinfo

/-! ## Sequences of calls -/

/-- The table after a sequence of calls, of which the first is on a table without names. -/
def after (base : Int) (calls : List Call) (c : Countdown := .unbounded) : SymbolTable c :=
  calls.foldl (fun table call => (call.perform table).2) (empty base c)

/-- A sequence of calls of which none is refused. -/
def Succeed (base : Int) (calls : List Call) (c : Countdown := .unbounded) : Prop :=
  ∀ earlier call, earlier ++ [call] <+: calls →
    ∃ answer, (call.perform (after base earlier c)).1 = .ok answer

section History

variable (base : Int)

theorem after_snoc {c : Countdown} (calls : List Call) (call : Call) :
    after base (calls ++ [call]) c = (call.perform (after base calls c)).2 := by
  rw [after, List.foldl_append]
  rfl

theorem outcome_snoc (calls : List Call) (call : Call) :
    Call.Outcome (after base calls) call (call.perform (after base calls)).1
      (after base (calls ++ [call])) := by
  rw [after_snoc]
  exact call.outcome (after base calls)

theorem grows_of_isPrefix {earlier calls : List Call} (h : earlier <+: calls) :
    (after base earlier).Grows (after base calls) := by
  induction calls using List.reverseRecOn with
  | nil =>
    cases List.prefix_nil.mp h
    exact .refl _
  | append_singleton calls call ih =>
    rcases List.prefix_concat_iff.mp h with rfl | h
    · exact .refl _
    · exact (ih h).trans (outcome_snoc base calls call).grows

theorem grows_after (calls : List Call) : (after base []).Grows (after base calls) :=
  grows_of_isPrefix base List.nil_prefix

theorem nodup_names (calls : List Call) : (after base calls).names.Nodup := by
  induction calls using List.reverseRecOn with
  | nil => exact List.Pairwise.nil
  | append_singleton calls call ih =>
    rcases (outcome_snoc base calls call).names with hnames | ⟨name, hname, hnames⟩
    · rw [hnames]
      exact ih
    · rw [hnames]
      refine List.nodup_append.mpr ⟨ih, List.pairwise_singleton _ name, ?_⟩
      intro other hother _ hmem heq
      rw [List.mem_singleton] at hmem
      exact hname (hmem ▸ heq ▸ hother)

/-- Names stay bound. -/
theorem names_isPrefix {earlier calls : List Call} (h : earlier <+: calls) :
    (after base earlier).names <+: (after base calls).names := by
  induction calls using List.reverseRecOn with
  | nil =>
    cases List.prefix_nil.mp h
    exact List.prefix_refl _
  | append_singleton calls call ih =>
    rcases List.prefix_concat_iff.mp h with rfl | h
    · exact List.prefix_refl _
    · refine (ih h).trans ?_
      rcases (outcome_snoc base calls call).names with hnames | ⟨name, -, hnames⟩
      · exact hnames ▸ List.prefix_refl _
      · exact hnames ▸ List.prefix_append _ [name]

/-- A name is bound at some time at which another one is not. -/
def BoundBefore (calls : List Call) (first second : String) (c : Countdown := .unbounded) : Prop :=
  ∃ earlier, earlier <+: calls ∧ first ∈ (after base earlier c).names ∧
    second ∉ (after base earlier c).names

/-- Names come in the order in which they were first bound. -/
theorem names_in_order (calls : List Call) :
    (after base calls).names.Pairwise fun first second => BoundBefore base calls first second := by
  induction calls using List.reverseRecOn with
  | nil => exact List.Pairwise.nil
  | append_singleton calls call ih =>
    have hsnoc := List.prefix_append calls [call]
    have hkept : (after base calls).names.Pairwise
        fun first second => BoundBefore base (calls ++ [call]) first second :=
      ih.imp fun ⟨earlier, hearlier, hbound⟩ => ⟨earlier, hearlier.trans hsnoc, hbound⟩
    rcases (outcome_snoc base calls call).names with hnames | ⟨name, hname, hnames⟩
    · rw [hnames]
      exact hkept
    · rw [hnames]
      refine List.pairwise_append.mpr ⟨hkept, List.pairwise_singleton _ _, ?_⟩
      intro first hfirst second hsecond
      rw [List.mem_singleton.mp hsecond]
      exact ⟨calls, hsnoc, hfirst, hname⟩

theorem Succeed.of_isPrefix {base : Int} {earlier calls : List Call} (h : Succeed base calls)
    (hbegin : earlier <+: calls) : Succeed base earlier :=
  fun first call hfirst => h first call (hfirst.trans hbegin)

theorem separate_after {extent : SymbolKind → Nat} (calls : List Call)
    (h : extent = (fun _ => 0) ∨ extent = SymbolKind.below ∧ Succeed base calls) :
    Separate extent base (after base calls) := by
  induction calls using List.reverseRecOn with
  | nil => exact .empty extent base
  | append_singleton calls call ih =>
    have hsnoc := List.prefix_append calls [call]
    exact (ih (h.imp_right (And.imp_right fun hs => hs.of_isPrefix hsnoc))).step
      (grows_after base calls).cursor_le (outcome_snoc base calls call)
      (h.imp_right (And.imp_right fun hs => hs calls call (List.prefix_refl _)))

/-- Addresses are handed out downwards. -/
theorem handsOut_lt {calls earlier : List Call} {call call' : Call} {a b : Int}
    (ha : call.HandsOut (after base calls) a) (hearlier : earlier ++ [call'] <+: calls)
    (hb : call'.HandsOut (after base earlier) b) : a < b := by
  have hlow := ha.between.2
  have hhigh := hb.between.1
  rw [← after_snoc] at hhigh
  have hle := (grows_of_isPrefix base hearlier).cursor_le
  omega

/-- One of the calls has declared a string, and its cells are still there: that of its length, and
    those of its characters below it. -/
structure HoldsString (calls : List Call) (name text : String) (a : Int)
    (c : Countdown := .unbounded) : Prop where
  declared : ∃ earlier, earlier ++ [.declareString name text] <+: calls ∧
    ((Call.declareString name text).perform (after base earlier c)).1 = .ok (.allocation (.fresh a))
  length : ⟨.data text.toList.length, a⟩ ∈ (after base calls c).cells
  chars : ∀ (i : Nat) (char : Char), text.toList[i]? = some char →
    ⟨.data char.toNat, a - 1 - i⟩ ∈ (after base calls c).cells

/-- The name of a string leads to its declaration and to its cells. -/
theorem holdsString_after {calls : List Call} (hs : Succeed base calls) {name : String} {a : Int}
    {n : Nat} (hget : (after base calls).get? name = some ⟨a, .str n⟩) :
    ∃ text, text.toList.length = n ∧ HoldsString base calls name text a := by
  -- Only the last call can have bound the name anew, and no call changes a cell.
  induction calls using List.reverseRecOn with
  | nil => cases hget
  | append_singleton calls call ih =>
    have hsnoc := List.prefix_append calls [call]
    have hout := outcome_snoc base calls call
    rcases hs calls call (List.prefix_refl _) with ⟨answer, hanswer⟩
    rw [hanswer] at hout
    rcases hout.string_of_get? hget with hold | ⟨text, rfl, rfl, rfl, ⟨hok, htable, -⟩ |
      ⟨⟨e, herror⟩, -⟩⟩
    · rcases ih (hs.of_isPrefix hsnoc) hold with
        ⟨text, hn, ⟨earlier, hearlier, hfresh⟩, hcell, hchars⟩
      exact ⟨text, hn, ⟨earlier, hearlier.trans hsnoc, hfresh⟩, hout.grows.mem_cells hcell,
        fun i c hc => hout.grows.mem_cells (hchars i c hc)⟩
    · rw [hok] at hanswer
      refine ⟨text, rfl, ⟨calls, List.prefix_refl _, hanswer⟩, ?_, fun i c hc => ?_⟩
      · rw [htable]
        exact length_mem_withString _ _ _
      · have hplace : (after base calls).cursor - 1 - (i : Int)
            = (after base calls).cursor - (i + 1 : Nat) := by omega
        rw [htable, hplace]
        exact char_mem_withString _ _ _ hc
    · cases herror

theorem not_reserved {table table' : SymbolTable} (h : table.Grows table') {a : Int}
    (ha : table'.HandedOut table.cursor a) : a ≠ counterCell ∧ a ≠ bufferCell := by
  have hr := h.unreserved a ha.1 ha.2
  rw [← Bool.not_eq_true, isReserved_iff] at hr
  exact not_or.mp hr

theorem cells_after (calls : List Call) :
    (after base calls).cells.Pairwise (fun upper lower => lower.address < upper.address) ∧
      ∀ cell ∈ (after base calls).cells, (after base calls).HandedOut base cell.address := by
  rcases (grows_after base calls).cells with ⟨new, hnew, hin, -, hdesc⟩
  have hcells : (after base calls).cells = new := hnew.trans (List.nil_append new)
  rw [hcells]
  exact ⟨hdesc, hin⟩

end History

end SymbolTable

end AccumulatorMachine
