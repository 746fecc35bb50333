import AccumulatorMachine.Proofs.Allocation

/-!
# Counting Down

When it makes no difference that addresses are words.

The program counts addresses down in words, and below the least word it goes on with the greatest.
Nearly all of this library counts with the integers instead, where an address that was handed out
never comes again. As long as the cursor does not come past the least word, the two are the same.

Whether it has come past it can be seen from where it ends. The allocator stops at the scratch
cells, so a cursor that starts above them stays there, and one that starts below them can only get
above them the other way round. So it has come round exactly if it is greater than where it started,
and nothing has to be remembered on the way.

`Tracks` says so of the same computation in the two ways to count. It is proved for the operations
of a table here, and for lowering elsewhere.

## Main definitions

* `Onward`, `ComesRound`: What becomes of a cursor that is counted down in words.
* `SymbolTable.recount`: A table that is counted on in another way.
* `SymbolTable.Tracks`: Computations that do the same until the words run out.

## Theorems

* `Moves.trans`, `Moves.split`: Counting on from where another count has ended.
* `SymbolTable.Tracks.bind`: Computations one after another.
* `SymbolTable.tracks_allocate`, `SymbolTable.tracks_declare`, `SymbolTable.tracks_declareString`,
  `SymbolTable.tracks_allocateSlot`: All operations that allocate do the same in the two ways.
-/

namespace AccumulatorMachine

/-- A cursor has been counted down from `a` to `b`, past neither the scratch cells nor the least
    word. -/
structure Onward (a b : Int) : Prop where
  le : b ≤ a
  above : bufferCell ≤ a → bufferCell ≤ b
  below : b < counterCell → a < counterCell
  word : Word.minimum ≤ a → Word.minimum ≤ b

/-- A cursor has been counted down from `a` past the least word, and on from the greatest to `b`. -/
def ComesRound (a b : Int) : Prop := a < counterCell ∧ bufferCell ≤ b

/-- A cursor that was at `a` is at `b`. -/
def Moves (a b : Int) : Prop := Onward a b ∨ ComesRound a b

theorem Onward.refl (a : Int) : Onward a a := ⟨Int.le_refl a, id, id, id⟩

theorem Onward.trans {a b c : Int} (h : Onward a b) (h' : Onward b c) : Onward a c :=
  ⟨Int.le_trans h'.le h.le, h'.above ∘ h.above, h.below ∘ h'.below, h'.word ∘ h.word⟩

theorem ComesRound.lt {a b : Int} (h : ComesRound a b) : a < b := by
  have hcells : counterCell < bufferCell := by decide
  have := h.1
  have := h.2
  omega

namespace Moves

variable {a b c : Int}

theorem refl (a : Int) : Moves a a := Or.inl (.refl a)

/-- No one comes round twice, since that takes a start below the scratch cells. -/
theorem trans (h : Moves a b) (h' : Moves b c) : Moves a c := by
  have hcells : counterCell < bufferCell := by decide
  rcases h with h | h
  · rcases h' with h' | h'
    · exact Or.inl (h.trans h')
    · exact Or.inr ⟨h.below h'.1, h'.2⟩
  · rcases h' with h' | h'
    · exact Or.inr ⟨h.1, h'.above h.2⟩
    · have := h.2
      have := h'.1
      omega

theorem onward (h : Moves a b) (hle : b ≤ a) : Onward a b := by
  rcases h with h | h
  · exact h
  · have := h.lt
    omega

/-- A cursor that is not above its start has not come round on the way. -/
theorem split (h : Moves a b) (h' : Moves b c) (hle : c ≤ a) : Onward a b ∧ Onward b c := by
  have hcells : counterCell < bufferCell := by decide
  rcases h with h | h
  · refine ⟨h, h'.resolve_right fun hround => ?_⟩
    have := h.below hround.1
    have := hround.2
    omega
  · exfalso
    have hlow := h.1
    have hhigh := h.2
    rcases h' with h' | h'
    · have := h'.above hhigh
      omega
    · have := h'.1
      omega

/-- The next address is the one below, or the greatest word after the least. -/
theorem next (h : SymbolTable.isReserved a = false) : Moves a (Countdown.wrapping.next a) := by
  rw [← Bool.not_eq_true, SymbolTable.isReserved_iff, not_or] at h
  rw [Countdown.next]
  by_cases ha : a = Word.minimum
  · rw [if_pos ha, ha]
    exact Or.inr ⟨by decide, by decide⟩
  · rw [if_neg ha]
    simp only [counterCell, bufferCell] at h
    refine Or.inl ⟨by omega, ?_, ?_, by omega⟩ <;> simp only [counterCell, bufferCell] <;> omega

end Moves

namespace SymbolTable

variable {c : Countdown}

/-- The same table, counted on in another way. -/
def recount (d : Countdown) (table : SymbolTable c) : SymbolTable d :=
  ⟨table.bindings, table.cells, table.cursor⟩

section Recount

variable (d : Countdown) (table : SymbolTable c) (name : String)

@[simp] theorem cursor_recount : (table.recount d).cursor = table.cursor := rfl

@[simp] theorem get?_recount : (table.recount d).get? name = table.get? name := rfl

@[simp] theorem addressOf?_recount : (table.recount d).addressOf? name = table.addressOf? name :=
  rfl

end Recount

/-- Two computations have the same result from a table, and leave the same table. -/
def Same {α : Type} (x : Allocating α) (y : AllocatingBy .wrapping α) (table : SymbolTable) :
    Prop :=
  y.runOn (table.recount .wrapping) = ((x.runOn table).1, (x.runOn table).2.recount .wrapping)

/-- Two computations that do the same until the words run out. -/
structure Tracks {α : Type} (x : Allocating α) (y : AllocatingBy .wrapping α) : Prop where
  moves : ∀ table, Moves table.cursor (y.runOn table).2.cursor
  descends : ∀ table, (x.runOn table).2.cursor ≤ table.cursor
  /-- They have not run out if the cursor of the second one is not above where it started. -/
  of_le : ∀ table : SymbolTable,
    (y.runOn (table.recount .wrapping)).2.cursor ≤ table.cursor → Same x y table
  /-- Nor have they if the cursor of the first one is still a word. -/
  of_word : ∀ table : SymbolTable, Word.minimum ≤ (x.runOn table).2.cursor → Same x y table

theorem Same.bind {α β : Type} {x : Allocating α} {y : AllocatingBy .wrapping α}
    {k : α → Allocating β} {k' : α → AllocatingBy .wrapping β} {table : SymbolTable}
    (h : Same x y table) (hk : ∀ a mid, x.runOn table = (.ok a, mid) → Same (k a) (k' a) mid) :
    Same (x >>= k) (y >>= k') table := by
  rw [Same, Allocating.runOn_bind, Allocating.runOn_bind, h]
  rcases hx : x.runOn table with ⟨_ | a, mid⟩
  · rfl
  · exact hk a mid hx

namespace Tracks

variable {α β : Type} {x : Allocating α} {y : AllocatingBy .wrapping α}

theorem pure (a : α) : Tracks (Pure.pure a) (Pure.pure a) where
  moves _ := .refl _
  descends _ := Int.le_refl _
  of_le _ _ := rfl
  of_word _ _ := rfl

theorem bind {k : α → Allocating β} {k' : α → AllocatingBy .wrapping β} (h : Tracks x y)
    (hk : ∀ a, Tracks (k a) (k' a)) : Tracks (x >>= k) (y >>= k') where
  moves table := by
    have hfirst := h.moves table
    rw [Allocating.runOn_bind]
    rcases hy : y.runOn table with ⟨_ | a, mid⟩
    · rwa [hy] at hfirst
    · rw [hy] at hfirst
      exact hfirst.trans ((hk a).moves mid)
  descends table := by
    have hfirst := h.descends table
    rw [Allocating.runOn_bind]
    rcases hx : x.runOn table with ⟨_ | a, mid⟩
    · rwa [hx] at hfirst
    · rw [hx] at hfirst
      exact Int.le_trans ((hk a).descends mid) hfirst
  of_le table hle := by
    have hfirst := h.moves (table.recount .wrapping)
    rw [Allocating.runOn_bind] at hle
    rcases hy : y.runOn (table.recount .wrapping) with ⟨_ | a, mid⟩
    · rw [hy] at hfirst hle
      refine (h.of_le table (by rwa [hy])).bind fun a mid' hx => ?_
      -- The first part has failed in one way to count, so it has failed in the other.
      have hsame := h.of_le table (by rwa [hy])
      rw [Same, hy, hx] at hsame
      cases hsame
    · rw [hy] at hfirst hle
      have hsplit := hfirst.split ((hk a).moves mid) hle
      have hsame := h.of_le table (by rw [hy]; exact hsplit.1.le)
      refine hsame.bind fun a' mid' hx => ?_
      rw [Same, hy, hx] at hsame
      cases hsame
      exact (hk a).of_le mid' hsplit.2.le
  of_word table hword := by
    rw [Allocating.runOn_bind] at hword
    rcases hx : x.runOn table with ⟨_ | a, mid⟩
    · rw [hx] at hword
      refine (h.of_word table (by rwa [hx])).bind fun a mid' hx' => ?_
      rw [hx] at hx'
      cases hx'
    · rw [hx] at hword
      have hmid := (hk a).descends mid
      refine (h.of_word table (by rw [hx]; exact Int.le_trans hword hmid)).bind
        fun a' mid' hx' => ?_
      rw [hx] at hx'
      cases hx'
      exact (hk a).of_word mid hword

/-- Looking at the table does not tell how it is counted. -/
theorem get_bind {k : SymbolTable → Allocating β}
    {k' : SymbolTable .wrapping → AllocatingBy .wrapping β}
    (h : ∀ table : SymbolTable, Tracks (k table) (k' (table.recount .wrapping))) :
    Tracks (get >>= k) (get >>= k') where
  moves table := (h (table.recount .unbounded)).moves table
  descends table := (h table).descends table
  of_le table := (h table).of_le table
  of_word table := (h table).of_word table

theorem modify {f : SymbolTable → SymbolTable}
    {f' : SymbolTable .wrapping → SymbolTable .wrapping}
    (h : ∀ table, f' (table.recount .wrapping) = (f table).recount .wrapping)
    (hcursor : ∀ table, (f table).cursor = table.cursor) :
    Tracks (modifyGet fun table => ((), f table)) (modifyGet fun table => ((), f' table)) where
  moves table := by
    have hsame : (f' table).cursor = table.cursor :=
      (congrArg cursor (h (table.recount .unbounded))).trans (hcursor (table.recount .unbounded))
    have hmoves : Moves table.cursor (f' table).cursor := hsame ▸ Moves.refl _
    exact hmoves
  descends table := Int.le_of_eq (hcursor table)
  of_le table _ := Prod.ext rfl (h table)
  of_word table _ := Prod.ext rfl (h table)

end Tracks

theorem tracks_allocate : Tracks allocate allocate where
  moves table := by
    rw [runOn_allocate]
    by_cases hr : isReserved table.cursor = true
    · rw [if_pos hr]
      exact .refl _
    · rw [if_neg hr]
      exact .next (Bool.eq_false_iff.mpr hr)
  descends table := by
    rw [runOn_allocate]
    by_cases hr : isReserved table.cursor = true
    · exact Int.le_of_eq (by rw [if_pos hr])
    · rw [if_neg hr]
      exact Int.sub_le_self table.cursor (by decide)
  of_le table hle := by
    rw [Same, runOn_allocate, runOn_allocate]
    rw [runOn_allocate] at hle
    by_cases hr : isReserved table.cursor = true
    · rw [cursor_recount, if_pos hr, if_pos hr]
    · rw [cursor_recount, if_neg hr] at hle ⊢
      rw [if_neg hr]
      have hmin : table.cursor ≠ Word.minimum := by
        intro hmin
        simp only [Countdown.next, hmin, if_true] at hle
        exact absurd hle (by decide)
      simp only [Countdown.next, if_neg hmin]
      rfl
  of_word table hword := by
    rw [Same, runOn_allocate, runOn_allocate]
    rw [runOn_allocate] at hword
    by_cases hr : isReserved table.cursor = true
    · rw [cursor_recount, if_pos hr, if_pos hr]
    · rw [if_neg hr] at hword
      rw [cursor_recount, if_neg hr, if_neg hr]
      simp only [Countdown.next] at hword
      have hmin : table.cursor ≠ Word.minimum := by omega
      simp only [Countdown.next, if_neg hmin]
      rfl

theorem tracks_declare (name : String) (value : Int) (kind : SymbolKind) :
    Tracks (declare name value kind) (declare name value kind) := by
  refine Tracks.get_bind fun table => ?_
  rw [get?_recount]
  cases table.get? name with
  | some info => exact .pure _
  | none =>
    refine tracks_allocate.bind fun a => Tracks.bind (Tracks.modify ?_ ?_) fun _ => .pure _
    · exact fun _ => rfl
    · exact fun _ => rfl

theorem tracks_declareLiteral (spelling : String) (value : Int) :
    Tracks (declareLiteral spelling value) (declareLiteral spelling value) :=
  (tracks_declare spelling value .literal).bind fun _ => .pure _

theorem tracks_allocateChars (text : List Char) :
    Tracks (allocateChars text) (allocateChars text) := by
  induction text with
  | nil => exact .pure _
  | cons char text ih =>
    refine tracks_allocate.bind fun a => Tracks.bind (Tracks.modify ?_ ?_) fun _ => ih
    · exact fun _ => rfl
    · exact fun _ => rfl

theorem tracks_declareString (name text : String) :
    Tracks (declareString name text) (declareString name text) := by
  refine (tracks_declare name text.toList.length (.str text.toList.length)).bind fun al => ?_
  cases al with
  | fresh a => exact (tracks_allocateChars text.toList).bind fun _ => .pure _
  | existing a => exact .pure _

theorem tracks_allocateSlot (name : String) : Tracks (allocateSlot name) (allocateSlot name) := by
  refine tracks_allocate.bind fun a => Tracks.bind (Tracks.modify ?_ ?_) fun _ => .pure _
  · exact fun _ => rfl
  · exact fun _ => rfl

end SymbolTable

end AccumulatorMachine
