import AccumulatorMachine.Source.Token
import AccumulatorMachine.Text.Span

/-!
# Scanning Tokens

The tokens of a statement with the places where they stand.

Scanning is maximal munch. A letter or an underscore starts a word, which goes on as far as it
can and is a keyword only as a whole. A digit starts a run of digits. A mark is the longest
that the text begins with. Any other character is an error token by itself, except for the
white space between tokens, of which the language has five characters.

## Main definitions

* `Token.isSkipped`: Whether a character only separates tokens.
* `Token.first`: The token at the front of a text.
* `Token.scan`: The tokens of a text with their spans.

## Theorems

* `Token.first_append`: A token and what follows it are the whole text.
-/

namespace AccumulatorMachine

namespace Token

/-- Whether a character only separates tokens. -/
def isSkipped (c : Char) : Bool :=
  c = ' ' || c = '\n' || c = '\t' || c = '\r' || c = '\x0c'

/-- Whether a character starts a word. -/
def isWordStart (c : Char) : Bool := c.isAlpha || c = '_'

/-- Whether a character continues a word. -/
def isWordChar (c : Char) : Bool := c.isAlphanum || c = '_'

/-- The token of a whole word. -/
def ofWord (word : String) : Token :=
  match Keyword.ofSpelling? word with
  | some reserved => .keyword reserved
  | none => .identifier word

/-- The mark that a text begins with, and the number of its characters. -/
def markAt? (text : List Char) : Option (Punctuation × Nat) :=
  (Punctuation.spellings.find? fun spelled => spelled.1.toList.isPrefixOf text).map
    fun spelled => (spelled.2, spelled.1.toList.length)

/-- The token that starts with `c`, its characters after `c`, and what follows it. -/
def first (c : Char) (text : List Char) : Token × List Char × List Char :=
  if isWordStart c then
    -- Only the whole word is looked up, so a longer word is never a keyword and a rest.
    let word := text.takeWhile isWordChar
    (ofWord (String.ofList (c :: word)), word, text.dropWhile isWordChar)
  else if c.isDigit then
    let digits := text.takeWhile Char.isDigit
    (.number (String.ofList (c :: digits)), digits, text.dropWhile Char.isDigit)
  else match markAt? (c :: text) with
    -- The first character of the mark is `c`, which has been taken.
    | some (mark, length) => (.punctuation mark, text.splitAt (length - 1))
    | none => (.error, [], text)

/-- A token and what follows it are the whole text. -/
theorem first_append (c : Char) (text : List Char) :
    (first c text).2.1 ++ (first c text).2.2 = text := by
  unfold first
  split
  · exact List.takeWhile_append_dropWhile
  · split
    · exact List.takeWhile_append_dropWhile
    · split
      · simp [List.splitAt_eq]
      · rfl

theorem length_first_le (c : Char) (text : List Char) :
    (first c text).2.2.length ≤ text.length := by
  have whole := congrArg List.length (first_append c text)
  rw [List.length_append] at whole
  omega

/-- The tokens of a text that starts at a byte offset, with their spans. -/
def scan (offset : Nat) : List Char → List (Token × Span)
  | [] => []
  | c :: text =>
    if isSkipped c then scan (offset + c.utf8Size) text
    else
      let token := (first c text).1
      let stop := offset + Text.byteLength (c :: (first c text).2.1)
      (token, ⟨offset, stop⟩) :: scan stop (first c text).2.2
termination_by text => text.length
decreasing_by
  · exact Nat.lt_succ_self _
  · exact Nat.lt_succ_of_le (length_first_le c text)

end Token

end AccumulatorMachine
