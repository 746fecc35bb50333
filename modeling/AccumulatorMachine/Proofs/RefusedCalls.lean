import AccumulatorMachine.Proofs.SymbolTable

/-!
# Refused Calls

What a call that runs into a reserved address leaves of a symbol table.

Most calls take one address, and take it before anything else. If they do not get it, nothing has
happened yet. A string takes one address after another, and its name is bound with the first of
them, which is that of its length. So if its length gets an address and one of its characters does
not, the name stays behind, with the length and with the characters in front of that one.

There are two reserved addresses, side by side, and addresses are handed out downwards. So it is
the upper one that a string runs into, and whether it does is a matter of where it starts and of
how long it is. The same two numbers tell later on whether the cells of a string are complete.

## Main definitions

* `SymbolTable.Crosses`: Cells that reach from above the scratch cells down to them.
* `SymbolTable.Call.Cut`: A declaration of a string that stops in the middle.
* `SymbolTable.cutString`: What it leaves behind.
* `SymbolTable.HoldsCells`: The cells of a string are complete.

## Theorems

* `SymbolTable.perform_of_cut`: A string that is cut is refused, and leaves its first characters.
* `SymbolTable.Call.Outcome.error_leaves`: Any other call that is refused leaves the table alone.
* `SymbolTable.holdsCells_iff`: A string is complete unless it was cut.
* `SymbolTable.refusal_changes_iff`: Exactly the strings that are cut change a table by a call that
  is refused.
-/

namespace AccumulatorMachine

namespace SymbolTable

/-- The address `a` is above the scratch cells, and one of the `n` addresses below it is not. -/
def Crosses (a : Int) (n : Nat) : Prop := bufferCell < a ∧ a - n ≤ bufferCell

instance (a : Int) (n : Nat) : Decidable (Crosses a n) :=
  inferInstanceAs (Decidable (bufferCell < a ∧ a - n ≤ bufferCell))

/-- The declaration of a string whose length gets an address and whose characters do not all get
    one. -/
def Call.Cut (table : SymbolTable) (call : Call) : Prop :=
  ∃ name text, call = .declareString name text ∧ table.get? name = none ∧
    Crosses table.cursor text.toList.length

/-- The table with a name for a string, the length of the string, and those of its characters that
    are given addresses above the scratch cells. -/
def cutString (table : SymbolTable) (name text : String) : SymbolTable :=
  chars (text.toList.take (table.cursor - bufferCell - 1).toNat)
    (table.fresh name text.toList.length (.str text.toList.length))

/-- All cells of a string of `n` characters: that of its length at `a`, and the others below it. -/
def HoldsCells (table : SymbolTable) (a : Int) (n : Nat) : Prop :=
  ∀ i : Nat, i ≤ n → ∃ value, (⟨.data value, a - i⟩ : Cell) ∈ table.cells

section Refusal

variable {table table' : SymbolTable} {name text : String} {call : Call} {e : ReservedAddress}

/-- A string that is cut is refused at the upper scratch cell. -/
theorem perform_of_cut (hget : table.get? name = none)
    (hcross : Crosses table.cursor text.toList.length) :
    (Call.declareString name text).perform table
      = (.error ⟨bufferCell⟩, table.cutString name text) := by
  have hout := (Call.declareString name text).outcome table
  rw [← Prod.eta ((Call.declareString name text).perform table)]
  generalize ((Call.declareString name text).perform table).1 = answer at hout ⊢
  generalize ((Call.declareString name text).perform table).2 = after at hout ⊢
  obtain ⟨habove, hreach⟩ := hcross
  -- The string is new and its cells cross the scratch cells, so it can only be cut off.
  cases hout with
  | existing hcall hbound =>
    cases hcall
    rw [hget] at hbound
    cases hbound
  | refused _ hr =>
    rw [isReserved_iff] at hr
    simp only [bufferCell, counterCell] at habove hr
    omega
  | fresh hcall => rcases hcall with ⟨hcall, -⟩ | ⟨hcall, -⟩ <;> cases hcall
  | string _ hr => exact absurd (hr bufferCell (by omega) (by omega)) (by decide)
  | @cut _ _ kept lost c htext _ hr hc =>
    have hat := Call.Outcome.cut_at_bufferCell hr hc
    have hkept : (table.cursor - bufferCell - 1).toNat = kept.length := by omega
    rw [cutString, hkept, htext, List.take_left, hat]

/-- A call that is refused leaves the table alone, unless it is a string that is cut. -/
theorem Call.Outcome.error_leaves (h : Call.Outcome table call (.error e) table') :
    table' = table ∧ ¬ call.Cut table ∨ call.Cut table := by
  cases h with
  | refused _ hr =>
    refine Or.inl ⟨rfl, ?_⟩
    rintro ⟨_, _, -, -, habove, -⟩
    rw [isReserved_iff] at hr
    simp only [bufferCell, counterCell] at habove hr
    omega
  | @cut name text kept lost c htext hget hr hc =>
    have hat := Call.Outcome.cut_at_bufferCell hr hc
    have hlength := congrArg List.length htext
    rw [List.length_append, List.length_cons] at hlength
    exact Or.inr ⟨name, text, rfl, hget, by omega, by omega⟩

/-- What a string that is cut leaves behind has taken at least one address. -/
theorem cutString_ne (table : SymbolTable) (name text : String) :
    table.cutString name text ≠ table := by
  intro h
  have hcursor := congrArg cursor h
  rw [cutString, cursor_chars, cursor_fresh] at hcursor
  omega

/-- Exactly the strings that are cut change a table by a call that is refused. -/
theorem error_changes_iff (table : SymbolTable) (call : Call) :
    ((∃ e, (call.perform table).1 = .error e) ∧ (call.perform table).2 ≠ table) ↔
      call.Cut table := by
  constructor
  · rintro ⟨⟨e, herror⟩, hchanged⟩
    have hout := call.outcome table
    rw [herror] at hout
    exact hout.error_leaves.resolve_left fun hsame => hchanged hsame.1
  · rintro ⟨name, text, rfl, hget, hcross⟩
    rw [perform_of_cut hget hcross]
    exact ⟨⟨_, rfl⟩, cutString_ne table name text⟩

end Refusal

theorem HoldsCells.grows {table table' : SymbolTable} {a : Int} {n : Nat}
    (h : table.HoldsCells a n) (hgrows : table.Grows table') : table'.HoldsCells a n := by
  intro i hi
  rcases h i hi with ⟨value, hcell⟩
  exact ⟨value, hgrows.mem_cells hcell⟩

theorem holdsCells_withString (table : SymbolTable) (name text : String) :
    (table.withString name text).HoldsCells table.cursor text.toList.length := by
  intro i hi
  cases i with
  | zero =>
    rw [Int.natCast_zero, Int.sub_zero]
    exact ⟨_, length_mem_withString table name text⟩
  | succ k =>
    have hk : text.toList[k]? = some text.toList[k] := List.getElem?_eq_getElem (by omega)
    exact ⟨_, char_mem_withString table name text hk⟩

section History

variable (base : Int) (calls : List Call)

/-- A string is complete if its cells do not reach down to the scratch cells from above. -/
theorem holdsCells_of_not_crosses {name : String} {a : Int} {n : Nat}
    (hget : (after base calls).get? name = some ⟨a, .str n⟩) (hcross : ¬ Crosses a n) :
    (after base calls).HoldsCells a n := by
  induction calls using List.reverseRecOn with
  | nil => cases hget
  | append_singleton calls call ih =>
    have hout := outcome_snoc base calls call
    rcases hout.string_of_get? hget with hold | ⟨text, rfl, rfl, rfl, ⟨-, htable, -⟩ |
      ⟨-, hcut⟩⟩
    · exact (ih hold).grows hout.grows
    · rw [htable]
      exact holdsCells_withString _ name text
    · exact absurd hcut hcross

/-- A string is complete unless it was cut, which its address and its length tell. -/
theorem holdsCells_iff {name : String} {a : Int} {n : Nat}
    (hget : (after base calls).get? name = some ⟨a, .str n⟩) :
    (after base calls).HoldsCells a n ↔ ¬ Crosses a n := by
  refine ⟨fun hcells hcross => ?_, holdsCells_of_not_crosses base calls hget⟩
  -- One of the cells would be the upper scratch cell, which is never handed out.
  obtain ⟨habove, hreach⟩ := hcross
  rcases hcells (a - bufferCell).toNat (by omega) with ⟨value, hcell⟩
  have hplace : a - ((a - bufferCell).toNat : Int) = bufferCell := by omega
  rw [hplace] at hcell
  exact (not_reserved (grows_after base calls) ((cells_after base calls).2 _ hcell)).2 rfl

/-- After any sequence of calls, a call that is refused changes the table just if it is a string
    that is cut. The name of such a string is bound, and has the characters above the scratch cells.
    So a name is bound to a string without all of its cells just if these reach from above the
    scratch cells down to them. -/
theorem refusal_changes_iff :
    (∀ call : Call, ((∃ e, (call.perform (after base calls)).1 = .error e) ∧
        (call.perform (after base calls)).2 ≠ after base calls) ↔
      call.Cut (after base calls)) ∧
    (∀ name text, (Call.declareString name text).Cut (after base calls) →
      (Call.declareString name text).perform (after base calls)
        = (.error ⟨bufferCell⟩, (after base calls).cutString name text)) ∧
    ∀ name a n, (after base calls).get? name = some ⟨a, .str n⟩ →
      ((after base calls).HoldsCells a n ↔ ¬ Crosses a n) := by
  refine ⟨error_changes_iff (after base calls), fun name text hcut => ?_,
    fun name a n => holdsCells_iff base calls⟩
  rcases hcut with ⟨_, _, ⟨⟩, hget, hcross⟩
  exact perform_of_cut hget hcross

/-- One address above the scratch cells, a string of two characters is refused. Its name is bound
    all the same, and the characters have no cells. -/
theorem refusal_binds_string :
    ((Call.declareString "s" "hi").perform (after 1003 [])).1 = .error ⟨1002⟩ ∧
      (Call.declareString "s" "hi").perform (after 1003 [])
        = (.error ⟨bufferCell⟩, (after 1003 []).cutString "s" "hi") ∧
      ((Call.declareString "s" "hi").perform (after 1003 [])).2 ≠ after 1003 [] ∧
      after 1003 [.declareString "s" "hi"]
        = ⟨[("s", ⟨1003, .str 2⟩)], [⟨.data 2, 1003⟩], 1002⟩ ∧
      ¬ (after 1003 [.declareString "s" "hi"]).HoldsCells 1003 2 := by
  have hcut : (Call.declareString "s" "hi").Cut (after 1003 []) :=
    ⟨"s", "hi", rfl, rfl, by decide, by decide⟩
  have hrefused := (refusal_changes_iff 1003 []).2.1 "s" "hi" hcut
  have hbound : (after 1003 [.declareString "s" "hi"]).get? "s" = some ⟨1003, .str 2⟩ := by decide
  have hcells := (refusal_changes_iff 1003 [.declareString "s" "hi"]).2.2 "s" 1003 2 hbound
  exact ⟨by rw [hrefused]; rfl, hrefused, (((refusal_changes_iff 1003 []).1 _).mpr hcut).2,
    by decide, fun h => hcells.mp h ⟨by decide, by decide⟩⟩

end History

end SymbolTable

end AccumulatorMachine
