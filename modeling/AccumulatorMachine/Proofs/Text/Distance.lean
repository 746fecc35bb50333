import AccumulatorMachine.Text.Distance

/-!
# Edits

The distance of two texts, as a number of edits.

An edit inserts, deletes or replaces one character at any place of a text. The distance of two texts
is the least number of edits, one after another, that lead from the one to the other. There is no
table in this, and no order in which the texts are gone through.

The table comes in with a recursion on the first characters. An edit changes what this recursion
gives by one at most, which bounds it from above by the number of edits, and along the recursion
there are just as many edits. The table has the same recursion, but on the last characters: its
rows are about the first few characters of both texts. So it computes the recursion on the texts
turned round, and edits may be turned round as well.

## Main definitions

* `Text.Edit`: One edit.
* `Text.EditsTo`: A number of edits one after another.
* `Text.IsDistance`: The least number of edits that lead from a text to another one.
* `Text.distance`: The distance by recursion on the first characters.
* `Text.rowFrom`: The rows of the table.

## Theorems

* `Text.distance_le_of_edit`: An edit lowers the distance by one at most.
* `Text.editsTo_distance`: There are as many edits as the recursion says.
* `Text.foldl_nextRow`: What is in a row of the table.
* `Text.editDistance_eq_distance`: The table computes the recursion on the texts turned round.
* `Text.isDistance_editDistance`: The last entry of the table is the least number of edits.
-/

namespace AccumulatorMachine

namespace Text

/-- A character is inserted, deleted or replaced. -/
inductive Edit : List Char → List Char → Prop where
  | insert (front back : List Char) (c : Char) : Edit (front ++ back) (front ++ c :: back)
  | delete (front back : List Char) (c : Char) : Edit (front ++ c :: back) (front ++ back)
  | replace (front back : List Char) (c d : Char) :
      Edit (front ++ c :: back) (front ++ d :: back)

/-- A number of edits one after another lead from a text to another one. -/
inductive EditsTo : Nat → List Char → List Char → Prop where
  | refl (text : List Char) : EditsTo 0 text text
  | step {n : Nat} {first mid last : List Char} (h : Edit first mid) (hrest : EditsTo n mid last) :
      EditsTo (n + 1) first last

/-- The least number of edits that lead from a text to another one. -/
def IsDistance (first second : List Char) (n : Nat) : Prop :=
  EditsTo n first second ∧ ∀ m, EditsTo m first second → n ≤ m

/-- The distance of two texts, from that of what is behind their first characters. -/
def distance : List Char → List Char → Nat
  | [], second => second.length
  | first, [] => first.length
  | c :: first, d :: second =>
    min (min (distance (c :: first) second + 1) (distance first (d :: second) + 1))
      (if c = d then distance first second else distance first second + 1)
termination_by first second => first.length + second.length

variable {first second : List Char} {n : Nat}

/-! ## Sequences of edits -/

theorem Edit.cons (h : Edit first second) (c : Char) : Edit (c :: first) (c :: second) := by
  cases h with
  | insert front back d => exact .insert (c :: front) back d
  | delete front back d => exact .delete (c :: front) back d
  | replace front back d e => exact .replace (c :: front) back d e

theorem Edit.reverse (h : Edit first second) : Edit first.reverse second.reverse := by
  cases h with
  | insert front back c =>
    have hedit := Edit.insert back.reverse front.reverse c
    simpa using hedit
  | delete front back c =>
    have hedit := Edit.delete back.reverse front.reverse c
    simpa using hedit
  | replace front back c d =>
    have hedit := Edit.replace back.reverse front.reverse c d
    simpa using hedit

namespace EditsTo

/-- A character in front of both texts makes no difference. -/
theorem cons (h : EditsTo n first second) (c : Char) : EditsTo n (c :: first) (c :: second) := by
  induction h with
  | refl text => exact .refl (c :: text)
  | step hedit hrest ih => exact .step (hedit.cons c) ih

theorem insert (h : EditsTo n first second) (c : Char) : EditsTo (n + 1) first (c :: second) :=
  .step (.insert [] first c) (h.cons c)

theorem delete (h : EditsTo n first second) (c : Char) : EditsTo (n + 1) (c :: first) second :=
  .step (.delete [] first c) h

theorem replace (h : EditsTo n first second) (c d : Char) :
    EditsTo (n + 1) (c :: first) (d :: second) :=
  .step (.replace [] first c d) (h.cons d)

theorem reverse (h : EditsTo n first second) : EditsTo n first.reverse second.reverse := by
  induction h with
  | refl text => exact .refl text.reverse
  | step hedit hrest ih => exact .step hedit.reverse ih

end EditsTo

/-! ## The recursion -/

@[simp] theorem distance_nil (second : List Char) : distance [] second = second.length := by
  rw [distance]

@[simp] theorem distance_nil_right (first : List Char) : distance first [] = first.length := by
  cases first with
  | nil => rw [distance]
  | cons c first =>
    rw [distance]
    simp

theorem distance_cons_cons (c d : Char) (first second : List Char) :
    distance (c :: first) (d :: second)
      = min (min (distance (c :: first) second + 1) (distance first (d :: second) + 1))
        (if c = d then distance first second else distance first second + 1) := by
  rw [distance]

/-- Along the recursion there are as many edits as it counts. -/
theorem editsTo_distance (first second : List Char) :
    EditsTo (distance first second) first second := by
  fun_induction distance first second with
  | case1 second =>
    induction second with
    | nil => exact .refl []
    | cons d second ih => exact ih.insert d
  | case2 first hne =>
    clear hne
    induction first with
    | nil => exact .refl []
    | cons c first ih => exact ih.delete c
  | case3 c first d second ihInsert ihDelete ihKeep =>
    -- The least of the three numbers is one of them, and each is a number of edits.
    have hleast : ∀ {n : Nat}, n = distance (c :: first) second + 1 ∨
        n = distance first (d :: second) + 1 ∨ (c = d ∧ n = distance first second) ∨
        n = distance first second + 1 → EditsTo n (c :: first) (d :: second) := by
      rintro n (rfl | rfl | ⟨rfl, rfl⟩ | rfl)
      · exact ihInsert.insert d
      · exact ihDelete.delete c
      · exact ihKeep.cons c
      · exact ihKeep.replace c d
    by_cases hsame : c = d
    · rw [if_pos hsame]
      refine hleast ?_
      simp only [hsame, true_and]
      omega
    · rw [if_neg hsame]
      exact hleast (by omega)

/-- One more character in the second text takes one more edit at most. -/
theorem distance_le_insert (first second : List Char) (d : Char) :
    distance first (d :: second) ≤ distance first second + 1 := by
  cases first with
  | nil => simp
  | cons c first =>
    rw [distance_cons_cons]
    omega

theorem distance_le_delete (first second : List Char) (c : Char) :
    distance (c :: first) second ≤ distance first second + 1 := by
  cases second with
  | nil => simp
  | cons d second =>
    rw [distance_cons_cons]
    omega

theorem distance_le_keep (first second : List Char) (c d : Char) :
    distance (c :: first) (d :: second) ≤ distance first second + 1 := by
  rw [distance_cons_cons]
  split <;> omega

theorem distance_le_of_insert (front second : List Char) (c : Char) :
    distance front second ≤ distance (c :: front) second + 1 := by
  induction second with
  | nil =>
    simp only [distance_nil_right, List.length_cons]
    omega
  | cons d second ih =>
    have hinsert := distance_le_insert front second d
    rw [distance_cons_cons]
    split <;> omega

theorem distance_le_of_replace (back second : List Char) (c d : Char) :
    distance (c :: back) second ≤ distance (d :: back) second + 1 := by
  induction second with
  | nil => simp
  | cons e second ih =>
    have hinsert := distance_le_insert (c :: back) second e
    have hdelete := distance_le_delete back (e :: second) c
    have hkeep := distance_le_keep back second c e
    rw [distance_cons_cons d e]
    split <;> omega

/-- What lowers the distance by one at most does so behind another character, too. -/
theorem distance_le_cons (h : ∀ text, distance first text ≤ distance second text + 1)
    (c : Char) (text : List Char) :
    distance (c :: first) text ≤ distance (c :: second) text + 1 := by
  induction text with
  | nil =>
    have hlength := h []
    simp only [distance_nil_right, List.length_cons] at hlength ⊢
    omega
  | cons d text ih =>
    have hrest := h text
    have hsame := h (d :: text)
    rw [distance_cons_cons, distance_cons_cons]
    split <;> omega

/-- An edit lowers the distance to any text by one at most. -/
theorem distance_le_of_edit (h : Edit first second) (text : List Char) :
    distance first text ≤ distance second text + 1 := by
  cases h with
  | insert front back c =>
    induction front generalizing text with
    | nil => exact distance_le_of_insert back text c
    | cons d front ih => exact distance_le_cons ih d text
  | delete front back c =>
    induction front generalizing text with
    | nil => exact distance_le_delete back text c
    | cons d front ih => exact distance_le_cons ih d text
  | replace front back c d =>
    induction front generalizing text with
    | nil => exact distance_le_of_replace back text c d
    | cons e front ih => exact distance_le_cons ih e text

theorem distance_self (text : List Char) : distance text text = 0 := by
  induction text with
  | nil => exact distance_nil []
  | cons c text ih =>
    rw [distance_cons_cons, if_pos rfl, ih]
    exact Nat.min_zero _

/-- No fewer edits than the recursion counts lead from a text to another one. -/
theorem distance_le_of_editsTo (h : EditsTo n first second) : distance first second ≤ n := by
  induction h with
  | refl text => exact Nat.le_of_eq (distance_self text)
  | @step n first mid last hedit hrest ih =>
    have hle := distance_le_of_edit hedit last
    omega

/-! ## The table -/

/-- The distances of a text to another one, to this with one more character, and so on. The texts
    are turned round, so that characters are added in front. -/
def rowFrom (first : List Char) : (second : List Char) → (rest : List Char) → List Nat
  | second, [] => [distance first second]
  | second, d :: rest => distance first second :: rowFrom first (d :: second) rest

theorem exists_rowFrom (first second rest : List Char) :
    ∃ row, rowFrom first second rest = distance first second :: row := by
  cases rest with
  | nil => exact ⟨[], rfl⟩
  | cons d rest => exact ⟨rowFrom first (d :: second) rest, rfl⟩

/-- Behind its first entry, a row is computed from the one above. -/
theorem nextEntries_rowFrom (c : Char) (first second rest : List Char) :
    distance (c :: first) second :: nextEntries c (distance (c :: first) second) rest
      (rowFrom first second rest) = rowFrom (c :: first) second rest := by
  induction rest generalizing second with
  | nil => rfl
  | cons d rest ih =>
    have hnext := ih (d :: second)
    rcases exists_rowFrom first (d :: second) rest with ⟨row, hrow⟩
    rw [hrow] at hnext
    rw [rowFrom, rowFrom, hrow, nextEntries, ← distance_cons_cons, hnext]

theorem nextRow_rowFrom (c : Char) (first second : List Char) :
    nextRow second (rowFrom first [] second) c = rowFrom (c :: first) [] second := by
  rcases exists_rowFrom first [] second with ⟨row, hrow⟩
  have hfirst : (rowFrom first [] second).headD 0 + 1 = distance (c :: first) [] := by
    rw [hrow]
    simp
  rw [nextRow, hfirst]
  exact nextEntries_rowFrom c first [] second

/-- The row above all others has the lengths of the texts. -/
theorem rowFrom_nil (second rest : List Char) :
    rowFrom [] second rest = List.range' second.length (rest.length + 1) := by
  induction rest generalizing second with
  | nil => simp [rowFrom]
  | cons d rest ih =>
    rw [rowFrom, ih, distance_nil, List.length_cons, List.length_cons]
    rfl

/-- A row has the distances of the characters that have been gone through. -/
theorem foldl_nextRow (first before second : List Char) :
    first.foldl (nextRow second) (rowFrom before [] second)
      = rowFrom (first.reverse ++ before) [] second := by
  induction first generalizing before with
  | nil => rfl
  | cons c first ih =>
    rw [List.foldl_cons, nextRow_rowFrom, ih, List.reverse_cons, List.append_assoc]
    rfl

theorem getLastD_rowFrom (first second rest : List Char) :
    (rowFrom first second rest).getLastD 0 = distance first (rest.reverse ++ second) := by
  induction rest generalizing second with
  | nil => rfl
  | cons d rest ih =>
    rcases exists_rowFrom first (d :: second) rest with ⟨row, hrow⟩
    have hlast := ih (d :: second)
    rw [hrow] at hlast
    rw [rowFrom, hrow, List.reverse_cons, List.append_assoc]
    exact hlast

/-- The table computes the recursion on the texts turned round. -/
theorem editDistance_eq_distance (first second : List Char) :
    editDistance first second = distance first.reverse second.reverse := by
  have hstart : List.range (second.length + 1) = rowFrom [] [] second := by
    rw [rowFrom_nil, List.range_eq_range']
    rfl
  rw [editDistance, hstart, foldl_nextRow, getLastD_rowFrom, List.append_nil, List.append_nil]

/-- The last entry of the table is the least number of edits that lead from the first text to the
    second one. -/
theorem isDistance_editDistance (first second : List Char) :
    IsDistance first second (editDistance first second) := by
  rw [editDistance_eq_distance]
  constructor
  · have hedits := (editsTo_distance first.reverse second.reverse).reverse
    rwa [List.reverse_reverse, List.reverse_reverse] at hedits
  · exact fun m h => distance_le_of_editsTo h.reverse

end Text

end AccumulatorMachine
