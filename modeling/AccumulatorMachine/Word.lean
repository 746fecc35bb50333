/-!
# Machine Words

The numbers the machine computes with: integers of 64 bits with a sign.

Words are kept as plain integers rather than as bit patterns, because nothing in
this machine wraps. Every operation computes the exact integer first and then asks
whether a register can hold it, so the only fact about the width that the machine
needs is the range itself. `checked` is that question. What does wrap is the
allocator of the compiler, and it has a `Countdown` of its own for that.

## Main definitions

* `Word.InRange`: An integer that a register can hold.
* `Word.checked`: An integer, unless it is out of range.

## Theorems

* `Word.checked_eq_some_iff`: A checked integer is the integer itself.
* `Word.checked_eq_none_iff`: Exactly the integers out of range are refused.
-/

namespace AccumulatorMachine

namespace Word

/-- The least word. -/
def minimum : Int := -9223372036854775808

/-- The greatest word. -/
def maximum : Int := 9223372036854775807

/-- The integers that fit into a register. -/
def InRange (n : Int) : Prop := minimum ≤ n ∧ n ≤ maximum

instance (n : Int) : Decidable (InRange n) :=
  inferInstanceAs (Decidable (minimum ≤ n ∧ n ≤ maximum))

/-- The integer itself if a register can hold it. -/
def checked (n : Int) : Option Int :=
  if InRange n then some n else none

theorem checked_eq_some_iff {n m : Int} : checked n = some m ↔ n = m ∧ InRange n := by
  unfold checked
  split <;> simp_all

theorem checked_eq_none_iff {n : Int} : checked n = none ↔ ¬ InRange n := by
  unfold checked
  split <;> simp_all

end Word

end AccumulatorMachine
