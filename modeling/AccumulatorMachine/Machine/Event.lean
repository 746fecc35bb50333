import AccumulatorMachine.Image

/-!
# Events

What the machine reports while it runs.

At the end of every tick the machine reports its registers. Those records are the journal of a
run. In between it reports what it stores and prints, and at last that it has halted.

## Main definitions

* `TickRecord`: The registers at the end of a tick.
* `Event`: A report of the machine.
-/

namespace AccumulatorMachine

/-- The registers at the end of a tick. -/
structure TickRecord where
  /-- The number of the tick, counted from one. -/
  tick : Nat
  acc : Int
  address : Int
  pc : Int
  instruction : Option CellValue
  deriving DecidableEq, Repr

namespace TickRecord

/-- The record as a line of the journal. -/
def render (r : TickRecord) : String :=
  "tact: " ++ Decimal.ofNat r.tick ++ " acc: " ++ Decimal.ofInt r.acc ++ " memory_address: "
    ++ Decimal.ofInt r.address ++ " PC: " ++ Decimal.ofInt r.pc ++ " inst: "
    ++ (match r.instruction with
      | some value => value.render
      | none => "None")

end TickRecord

/-- A report of the machine. -/
inductive Event where
  | tick (record : TickRecord)
  /-- A word was stored. -/
  | stored (address value : Int)
  /-- A number or a character was printed. -/
  | printed (token : String)
  /-- The machine has halted after a number of ticks. -/
  | halted (ticks : Nat)
  deriving DecidableEq, Repr

/-- The record of an event that ends a tick. -/
def Event.record? : Event → Option TickRecord
  | tick record => some record
  | _ => none

end AccumulatorMachine
