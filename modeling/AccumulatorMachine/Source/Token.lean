/-!
# Tokens of the Source Language

The words and marks that a statement is made of. Statements are separated before they are cut
into tokens, so the separator is not among them.

Keywords and punctuation each have one table of spellings, which both the scanner and the
printer use. The assignment mark alone has two spellings, and is printed with the first.

## Main definitions

* `Keyword`, `Punctuation`: The fixed tokens.
* `Token`: A token of a statement.
* `Token.render`: The text of a token.

## Theorems

* `Keyword.ofSpelling?_spelling`: The spelling of a keyword reads back as that keyword.
-/

namespace AccumulatorMachine

/-- The reserved words. -/
inductive Keyword where
  | int
  | string
  | new
  | loop
  | endLoop
  | inputInt
  | outputInt
  | inputStr
  | outputStr
  deriving DecidableEq, Repr

namespace Keyword

/-- All reserved words. -/
def all : List Keyword :=
  [int, string, new, loop, endLoop, inputInt, outputInt, inputStr, outputStr]

/-- The spelling of a reserved word. -/
def spelling : Keyword → String
  | int => "int"
  | string => "string"
  | new => "new"
  | loop => "while"
  | endLoop => "endWhile"
  | inputInt => "input_int"
  | outputInt => "output_int"
  | inputStr => "input_str"
  | outputStr => "output_str"

/-- The reserved word that is spelled like this. -/
def ofSpelling? (text : String) : Option Keyword :=
  all.find? fun keyword => keyword.spelling = text

theorem ofSpelling?_spelling (keyword : Keyword) :
    ofSpelling? keyword.spelling = some keyword := by
  cases keyword <;> decide

end Keyword

/-- The marks. -/
inductive Punctuation where
  | assign
  | openParen
  | closeParen
  | plus
  | minus
  | star
  | slash
  | greater
  | greaterEqual
  | less
  | lessEqual
  | equal
  | notEqual
  deriving DecidableEq, Repr

namespace Punctuation

/-- The spellings of all marks. A mark whose spelling begins another one comes after it, so the
    first spelling that a text begins with is the longest. -/
def spellings : List (String × Punctuation) :=
  [("==", equal), ("!=", notEqual), (">=", greaterEqual), ("<=", lessEqual), ("<-", assign),
    ("=", assign), ("(", openParen), (")", closeParen), ("+", plus), ("-", minus), ("*", star),
    ("/", slash), (">", greater), ("<", less)]

/-- The spelling with which a mark is printed. -/
def spelling : Punctuation → String
  | assign => "="
  | openParen => "("
  | closeParen => ")"
  | plus => "+"
  | minus => "-"
  | star => "*"
  | slash => "/"
  | greater => ">"
  | greaterEqual => ">="
  | less => "<"
  | lessEqual => "<="
  | equal => "=="
  | notEqual => "!="

theorem spelling_mem_spellings (mark : Punctuation) : (mark.spelling, mark) ∈ spellings := by
  cases mark <;> decide

end Punctuation

/-- A token of a statement. -/
inductive Token where
  /-- A character that starts no token. -/
  | error
  | keyword (word : Keyword)
  /-- A word that is not reserved. -/
  | identifier (name : String)
  /-- A run of digits. A negative number is a minus sign before one. -/
  | number (digits : String)
  | punctuation (mark : Punctuation)
  deriving DecidableEq, Repr

namespace Token

/-- The text of a token. -/
def render : Token → String
  | error => "<error>"
  | keyword word => word.spelling
  | identifier name => name
  | number digits => digits
  | punctuation mark => mark.spelling

end Token

end AccumulatorMachine
