import Mathlib.Data.List.Basic
import AccumulatorMachine.Source.TokenStream

/-!
# Cursors

A token stream as a list of tokens with a number in it.

A stream keeps the tokens before its position apart from those after it, so that the next token is
always at hand. Seen from outside it is one list, which reading never changes, and the number of
tokens that are before the position. The two views are the same: a stream is known by its tokens and
its position, and it can be moved to every position that there is and to no other. In particular it
can be moved back from wherever reading has led, by as many tokens as it has moved ahead.

What a reader passes over stands in the list in the order in which it was passed over.

## Main definitions

* `TokenStream.Passes`: From one stream to another one by passing over some tokens.

## Theorems

* `TokenStream.position_le`: A position is not behind the last token.
* `TokenStream.eq_of_position`: Streams at the same position of the same tokens are the same.
* `TokenStream.seek?_eq_some_iff`: Where a stream can be moved.
* `TokenStream.seek?_back`: It can be moved back.
* `TokenStream.Passes.eq_take`: What was passed over is the front of the tokens.
-/

namespace AccumulatorMachine

namespace TokenStream

variable {T : Type} {s s' s'' : TokenStream T}

theorem position_le (s : TokenStream T) : s.position ≤ s.tokens.length := by
  rw [position, tokens, List.length_append, List.length_reverse]
  exact Nat.le_add_right _ _

theorem take_position (s : TokenStream T) : s.tokens.take s.position = s.before.reverse :=
  List.take_left' List.length_reverse

theorem drop_position (s : TokenStream T) : s.tokens.drop s.position = s.after :=
  List.drop_left' List.length_reverse

/-- Streams at the same position of the same tokens are the same. -/
theorem eq_of_position (htokens : s'.tokens = s.tokens) (hstop : s'.stop = s.stop)
    (hposition : s'.position = s.position) : s' = s := by
  have hbefore : s'.before = s.before := by
    rw [← List.reverse_inj, ← take_position, ← take_position, htokens, hposition]
  have hafter : s'.after = s.after := by
    rw [← drop_position, ← drop_position, htokens, hposition]
  obtain ⟨before, after, stop⟩ := s
  obtain ⟨before', after', stop'⟩ := s'
  exact congr (congr (congrArg mk hbefore) hafter) hstop

/-- A stream can be moved to every position among its tokens and to no other. -/
theorem seek?_eq_some_iff {amount : Int} : s.seek? amount = some s' ↔
    s'.tokens = s.tokens ∧ s'.stop = s.stop ∧ (s'.position : Int) = s.position + amount := by
  rw [seek?]
  refine ⟨fun h => ?_, fun ⟨htokens, hstop, hposition⟩ => ?_⟩
  · split at h
    · next htarget =>
      cases h
      refine ⟨?_, rfl, ?_⟩
      · rw [tokens, List.reverse_reverse, List.take_append_drop]
      · rw [position, List.length_reverse, List.length_take]
        omega
    · cases h
  · have hle := htokens ▸ s'.position_le
    have htarget : (s.position + amount).toNat = s'.position := by omega
    rw [if_pos (by omega), htarget, ← htokens, ← hstop, take_position, drop_position,
      List.reverse_reverse]

/-- A stream can be moved back to where it came from. -/
theorem seek?_back (htokens : s'.tokens = s.tokens) (hstop : s'.stop = s.stop) :
    s'.seek? (s.position - s'.position) = some s :=
  seek?_eq_some_iff.mpr ⟨htokens.symm, hstop.symm, by omega⟩

/-- The second stream is where the first one gets to by passing over some tokens. -/
structure Passes (s : TokenStream T) (passed : List (T × Span)) (s' : TokenStream T) : Prop where
  before : s'.before = passed.reverse ++ s.before
  after : s.after = passed ++ s'.after
  stop : s'.stop = s.stop

namespace Passes

variable {passed more : List (T × Span)}

theorem refl (s : TokenStream T) : Passes s [] s := ⟨rfl, rfl, rfl⟩

theorem trans (h : s.Passes passed s') (h' : s'.Passes more s'') :
    s.Passes (passed ++ more) s'' where
  before := by rw [h'.before, h.before, List.reverse_append, List.append_assoc]
  after := by rw [h.after, h'.after, List.append_assoc]
  stop := h'.stop.trans h.stop

theorem tokens_eq (h : s.Passes passed s') : s'.tokens = s.tokens := by
  rw [tokens, tokens, h.before, h.after, List.reverse_append, List.reverse_reverse,
    List.append_assoc]

/-- A stream that passes over nothing stays where it is. -/
theorem eq_of_nil (h : s.Passes [] s') : s' = s :=
  eq_of_position h.tokens_eq h.stop (congrArg List.length h.before)

/-- From the first token on, what was passed over is the front of the tokens. -/
theorem eq_take {tokens : List (T × Span)} {stop : Nat}
    (h : (ofTokens tokens stop).Passes passed s') : passed = tokens.take s'.position := by
  have htokens : s'.tokens = tokens := h.tokens_eq
  rw [← htokens, take_position, h.before, List.reverse_append, List.reverse_reverse]
  exact (List.nil_append passed).symm

end Passes

end TokenStream

end AccumulatorMachine
