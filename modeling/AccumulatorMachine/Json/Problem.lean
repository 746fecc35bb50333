/-!
# Problems in a JSON Text

The ways in which a text can fail to be the record a reader looks for. A reader goes from left
to right and reports the first problem it meets, so a text that is both malformed and cut off
has the class of whichever comes first.

## Main definitions

* `Json.Problem`: The class of a problem.
-/

namespace AccumulatorMachine

namespace Json

/-- The class of the first problem in a text. -/
inductive Problem where
  /-- The text ends where it has to go on. -/
  | cutOff
  /-- The text is not JSON. -/
  | malformed
  /-- The text is JSON so far but its value has the wrong shape. -/
  | mismatch
  deriving DecidableEq, Repr

end Json

end AccumulatorMachine
