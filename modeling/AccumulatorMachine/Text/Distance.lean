/-!
# Edit Distance

How far apart two names are: the least number of characters to insert, delete or replace
that turns one into the other.

The distance is computed a row at a time. Row `i` holds, for every prefix of the second
name, its distance from the first `i` characters of the first one, so that each entry is
the least of three neighbours and the last entry of the last row is the distance.

## Main definitions

* `Text.editDistance`: The least number of edits between two texts.
-/

namespace AccumulatorMachine

namespace Text

/-- The entries of the next row after its first one. `left` is the entry before, `diagonal` and
    `above` are the neighbours in the row above. Keeping a character that both texts share
    costs nothing. -/
def nextEntries (c : Char) : (left : Nat) → List Char → List Nat → List Nat
  | left, d :: second, diagonal :: above :: row =>
    -- The three neighbours are an insertion, a deletion, and a replacement or a kept character.
    let entry := min (min (left + 1) (above + 1)) (if c = d then diagonal else diagonal + 1)
    entry :: nextEntries c entry second (above :: row)
  | _, _, _ => []

/-- The row for one more character of the first text. Its first entry counts the deletion of
    all characters so far. -/
def nextRow (second : List Char) (row : List Nat) (c : Char) : List Nat :=
  let first := row.headD 0 + 1
  first :: nextEntries c first second row

/-- The least number of insertions, deletions and replacements of a character that turns
    `first` into `second`. -/
def editDistance (first second : List Char) : Nat :=
  (first.foldl (nextRow second) (List.range (second.length + 1))).getLastD 0

end Text

end AccumulatorMachine
