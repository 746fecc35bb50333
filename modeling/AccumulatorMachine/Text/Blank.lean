/-!
# White Space

The characters that count as white space around a statement and on an empty line: those
with the Unicode property `White_Space`.

The scanners skip smaller sets of their own. This one decides only whether a piece of text
holds anything at all, and where its last visible character is.

## Main definitions

* `Text.isBlank`: Whether a character is white space.
* `Text.allBlank`: Whether a text holds white space only.
* `Text.trimEnd`: A text without the white space at its end.
-/

namespace AccumulatorMachine

namespace Text

/-- The ranges of code points with the property `White_Space`. -/
def blankRanges : List (Nat × Nat) :=
  [(0x9, 0xD), (0x20, 0x20), (0x85, 0x85), (0xA0, 0xA0), (0x1680, 0x1680), (0x2000, 0x200A),
    (0x2028, 0x2029), (0x202F, 0x202F), (0x205F, 0x205F), (0x3000, 0x3000)]

/-- Whether a character is white space. -/
def isBlank (c : Char) : Bool :=
  blankRanges.any fun (first, last) => first ≤ c.toNat && c.toNat ≤ last

/-- Whether a text holds white space only. -/
def allBlank (text : List Char) : Bool := text.all isBlank

/-- The text up to its last character that is not white space. -/
def trimEnd (text : List Char) : List Char :=
  (text.reverse.dropWhile isBlank).reverse

end Text

end AccumulatorMachine
