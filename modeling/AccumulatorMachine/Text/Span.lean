/-!
# Spans of a Text

Places in a source text, measured in bytes of its UTF-8 form.

A text is a list of characters, which is what every scanner of this library walks
over, while the places it reports are byte offsets. The two meet here: `byteLength`
turns characters into bytes, and `takeBytes` and `dropBytes` cut a text at a byte
offset. A cut never splits a character. An offset inside one cuts before it, and an
offset past the end cuts at the end.

## Main definitions

* `Span`: A range of byte offsets.
* `Text.byteLength`: The number of bytes of a text.
* `Text.takeBytes`, `Text.dropBytes`: The two sides of a cut.

## Theorems

* `Text.byteLength_append`: Lengths add up.
* `Text.takeBytes_append_dropBytes`: A cut loses nothing.
* `Text.takeBytes_append`, `Text.dropBytes_append`: A cut after a first part has it on its one side
  and the rest on the other.
-/

namespace AccumulatorMachine

/-- The bytes from `start` up to and not including `stop`. -/
structure Span where
  /-- The offset of the first byte. -/
  start : Nat
  /-- The offset just after the last byte. -/
  stop : Nat
  deriving DecidableEq, Repr

namespace Text

/-- The number of bytes of a text in UTF-8. -/
def byteLength (text : List Char) : Nat :=
  text.foldr (fun c length => c.utf8Size + length) 0

/-- The characters that end at or before a byte offset. -/
def takeBytes : Nat → List Char → List Char
  | _, [] => []
  | offset, c :: text =>
    if c.utf8Size ≤ offset then c :: takeBytes (offset - c.utf8Size) text else []

/-- The characters after those that end at or before a byte offset. -/
def dropBytes : Nat → List Char → List Char
  | _, [] => []
  | offset, c :: text =>
    if c.utf8Size ≤ offset then dropBytes (offset - c.utf8Size) text else c :: text

@[simp] theorem byteLength_nil : byteLength [] = 0 := rfl

@[simp] theorem byteLength_cons (c : Char) (text : List Char) :
    byteLength (c :: text) = c.utf8Size + byteLength text := rfl

@[simp] theorem byteLength_append (first second : List Char) :
    byteLength (first ++ second) = byteLength first + byteLength second := by
  induction first with
  | nil => simp
  | cons c text ih => simp [ih, Nat.add_assoc]

theorem takeBytes_append_dropBytes (offset : Nat) (text : List Char) :
    takeBytes offset text ++ dropBytes offset text = text := by
  induction text generalizing offset with
  | nil => rfl
  | cons c text ih =>
    unfold takeBytes dropBytes
    split
    · rw [List.cons_append, ih]
    · rfl

theorem dropBytes_append (first second : List Char) :
    dropBytes (byteLength first) (first ++ second) = second := by
  induction first with
  | nil =>
    cases second with
    | nil => rfl
    | cons c text =>
      -- A character takes at least one byte, so nothing is cut off at offset zero.
      have positive := c.utf8Size_pos
      simp only [byteLength_nil, List.nil_append, dropBytes]
      rw [if_neg (by omega)]
  | cons c text ih =>
    simp only [List.cons_append, dropBytes, byteLength_cons]
    rw [if_pos (by omega), Nat.add_sub_cancel_left]
    exact ih

theorem takeBytes_append (first second : List Char) :
    takeBytes (byteLength first) (first ++ second) = first := by
  have hwhole := takeBytes_append_dropBytes (byteLength first) (first ++ second)
  rw [dropBytes_append] at hwhole
  exact List.append_cancel_right hwhole

end Text

end AccumulatorMachine
