import AccumulatorMachine.Text.Unprintable

/-!
# Quoted Texts

The form in which a message shows a text that may hold anything: between double quotes,
with every character that could not be told from its surroundings spelled out.

A quote mark and a backslash follow a backslash. Line feed, carriage return, tabulator and
the null character have letters of their own, and other unprintable characters are given by
their code point.

## Main definitions

* `Text.quoted`: A text between quotes.
-/

namespace AccumulatorMachine

namespace Text

/-- A code point in lower case hexadecimal between braces. -/
def escapedCode (c : Char) : String :=
  "\\u\x7b" ++ String.ofList (Nat.toDigits 16 c.toNat) ++ "\x7d"

/-- A character as a quoted text shows it. -/
def quotedChar (c : Char) : String :=
  if c = '"' then "\\\""
  else if c = '\\' then "\\\\"
  else if c = '\n' then "\\n"
  else if c = '\r' then "\\r"
  else if c = '\t' then "\\t"
  else if c = '\x00' then "\\0"
  else if isUnprintable c then escapedCode c
  else String.singleton c

/-- A text between double quotes. -/
def quoted (text : List Char) : String :=
  "\"" ++ String.join (text.map quotedChar) ++ "\""

end Text

end AccumulatorMachine
