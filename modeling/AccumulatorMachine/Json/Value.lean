/-!
# JSON Values

The values that a JSON text can hold, as far as records need them apart.

A number is kept as an integer if it is written as one. Any other number is a `real`, whose
size no record asks for. The fields of an object keep their order and their repetitions, since
it is for the reader of a record to say what a repeated key means.

## Main definitions

* `Json.Value`: A JSON value.
* `Json.Value.once?`: The value of a key that an object has exactly once.
-/

namespace AccumulatorMachine

namespace Json

/-- A JSON value. -/
inductive Value where
  | null
  | bool (value : Bool)
  | integer (value : Int)
  /-- A number with a fraction or an exponent, or a negative zero. -/
  | real
  | string (value : String)
  | array (items : List Value)
  | object (fields : List (String × Value))

namespace Value

/-- The value of a key that occurs exactly once among the fields of an object. -/
def once? (fields : List (String × Value)) (key : String) : Option Value :=
  match fields.filter fun field => field.1 = key with
  | [(_, value)] => some value
  | _ => none

end Value

end Json

end AccumulatorMachine
