import Mathlib.Data.List.Infix
import AccumulatorMachine.Text.Position

/-!
# Positions in Order

The order in which the positions of a text come when the text is read.

A position is in front of another one if its line is, or if it is on the same line and its column
is. Reading a character leads to a later position: a line feed leads to the next line, and every
other character to the next column. A smaller byte offset cuts off a smaller part of a text. So the
positions of offsets are in the order of the offsets, whether an offset splits a character, is
behind the end of the text, or not.

## Theorems

* `Text.takeBytes_prefix`: A smaller offset cuts off a smaller part.
* `Position.le_foldl_advance`: Reading on does not lead back.
* `Position.lt_foldl_advance`: Reading on leads to a later position.
* `Position.ofOffset_mono`: Positions are in the order of offsets.
-/

namespace AccumulatorMachine

/-- A smaller offset cuts off a smaller part of a text. -/
theorem Text.takeBytes_prefix (text : List Char) {offset later : Nat} (h : offset ≤ later) :
    takeBytes offset text <+: takeBytes later text := by
  induction text generalizing offset later with
  | nil => exact List.prefix_refl []
  | cons c text ih =>
    by_cases hc : c.utf8Size ≤ offset
    · rw [takeBytes, takeBytes, if_pos hc, if_pos (Nat.le_trans hc h)]
      exact List.prefix_cons_inj c |>.mpr (ih (Nat.sub_le_sub_right h _))
    · rw [takeBytes, if_neg hc]
      exact List.nil_prefix

namespace Position

/-- An earlier line, or the same line and a column that is not later. -/
instance : LE Position :=
  ⟨fun p q => p.line < q.line ∨ p.line = q.line ∧ p.column ≤ q.column⟩

theorem le_def {p q : Position} :
    p ≤ q ↔ p.line < q.line ∨ p.line = q.line ∧ p.column ≤ q.column := Iff.rfl

instance (p q : Position) : Decidable (p ≤ q) := decidable_of_iff _ le_def.symm

theorem le_refl (p : Position) : p ≤ p := Or.inr ⟨rfl, Nat.le_refl _⟩

theorem le_trans {p q r : Position} (h : p ≤ q) (h' : q ≤ r) : p ≤ r := by
  rw [le_def] at h h' ⊢
  omega

/-- An earlier line, or the same line and an earlier column. -/
instance : LT Position :=
  ⟨fun p q => p.line < q.line ∨ p.line = q.line ∧ p.column < q.column⟩

theorem lt_def {p q : Position} :
    p < q ↔ p.line < q.line ∨ p.line = q.line ∧ p.column < q.column := Iff.rfl

instance (p q : Position) : Decidable (p < q) := decidable_of_iff _ lt_def.symm

theorem lt_irrefl (p : Position) : ¬ p < p := by
  rw [lt_def]
  omega

theorem le_of_lt {p q : Position} (h : p < q) : p ≤ q := by
  rw [lt_def] at h
  rw [le_def]
  omega

theorem lt_of_lt_of_le {p q r : Position} (h : p < q) (h' : q ≤ r) : p < r := by
  rw [lt_def] at h ⊢
  rw [le_def] at h'
  omega

theorem lt_advance (p : Position) (c : Char) : p < p.advance c := by
  rw [lt_def, advance]
  by_cases hc : c = '\n'
  · rw [if_pos hc]
    exact Or.inl (Nat.lt_succ_self _)
  · rw [if_neg hc]
    exact Or.inr ⟨rfl, Nat.lt_succ_self _⟩

/-- Reading on does not lead back. -/
theorem le_foldl_advance (p : Position) (text : List Char) : p ≤ text.foldl advance p := by
  induction text generalizing p with
  | nil => exact le_refl p
  | cons c text ih => exact le_trans (le_of_lt (lt_advance p c)) (ih (p.advance c))

/-- Reading on leads to a later position, unless nothing is read. -/
theorem lt_foldl_advance (p : Position) {text : List Char} (h : text ≠ []) :
    p < text.foldl advance p := by
  cases text with
  | nil => exact absurd rfl h
  | cons c text => exact lt_of_lt_of_le (lt_advance p c) (le_foldl_advance (p.advance c) text)

/-- Positions are in the order of offsets. -/
theorem ofOffset_mono (source : List Char) {offset later : Nat} (h : offset ≤ later) :
    ofOffset source offset ≤ ofOffset source later := by
  obtain ⟨between, hbetween⟩ := Text.takeBytes_prefix source h
  rw [ofOffset, ofOffset, ← hbetween, List.foldl_append]
  exact le_foldl_advance _ between

end Position

end AccumulatorMachine
