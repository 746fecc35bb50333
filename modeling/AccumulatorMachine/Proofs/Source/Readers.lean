import AccumulatorMachine.Source.Statement.Grammar

/-!
# Running Readers

How a reader ends that is made of others.

A reader has a state and may fail, and how the two go together is nothing that a proof about a
grammar should see. So a result or an error is traced back here to the part of the reader it comes
from: to the first or the second one of a sequence, or to the reader inside an attempt or a context.

## Theorems

* `TokenStream.runOn_bind_ok`, `TokenStream.runOn_bind_error`: A sequence of readers.
* `TokenStream.runOn_attempt_ok`, `TokenStream.runOn_attempt_error`: An attempt.
* `TokenStream.runOn_inContext_ok`, `TokenStream.runOn_inContext_error`: A reader in a context.
* `Statement.runOn_parse?`: What a text is read as comes from its tokens.
-/

namespace AccumulatorMachine

namespace TokenStream

variable {T α β : Type}

/-- Readers one after another, where the second one reads only if the first one succeeds. -/
theorem runOn_bind (x : Reader T α) (f : α → Reader T β) (s : TokenStream T) :
    (x >>= f).runOn s = match x.runOn s with
      | (.ok a, s') => (f a).runOn s'
      | (.error e, s') => (.error e, s') := by
  rw [Reader.runOn, ExceptT.run_bind, StateT.run_bind]
  have hx : StateT.run (ExceptT.run x) s = x.runOn s := rfl
  rw [hx]
  rcases x.runOn s with ⟨_ | a, mid⟩ <;> rfl

theorem runOn_bind_ok {x : Reader T α} {f : α → Reader T β} {s s' : TokenStream T} {b : β}
    (h : (x >>= f).runOn s = (.ok b, s')) :
    ∃ a mid, x.runOn s = (.ok a, mid) ∧ (f a).runOn mid = (.ok b, s') := by
  rw [runOn_bind] at h
  rcases hrun : x.runOn s with ⟨_ | a, mid⟩
  · rw [hrun] at h
    cases h
  · rw [hrun] at h
    exact ⟨a, mid, rfl, h⟩

theorem runOn_bind_error {x : Reader T α} {f : α → Reader T β} {s s' : TokenStream T}
    {e : ParseError} (h : (x >>= f).runOn s = (.error e, s')) : x.runOn s = (.error e, s') ∨
      ∃ a mid, x.runOn s = (.ok a, mid) ∧ (f a).runOn mid = (.error e, s') := by
  rw [runOn_bind] at h
  rcases hrun : x.runOn s with ⟨_ | a, mid⟩
  · rw [hrun] at h
    cases h
    exact Or.inl rfl
  · rw [hrun] at h
    exact Or.inr ⟨a, mid, rfl, h⟩

theorem runOn_attempt_ok {x : Reader T α} {s s' : TokenStream T} {a : α}
    (h : (attempt x).runOn s = (.ok a, s')) : x.runOn s = (.ok a, s') := by
  rcases hrun : x.runOn s with ⟨e | b, mid⟩
  · rw [attempt_error hrun] at h
    cases h
  · rw [← h, attempt_ok hrun]

theorem runOn_attempt_error {x : Reader T α} {s s' : TokenStream T} {e : ParseError}
    (h : (attempt x).runOn s = (.error e, s')) : ∃ mid, x.runOn s = (.error e, mid) := by
  rcases hrun : x.runOn s with ⟨e' | b, mid⟩
  · rw [attempt_error hrun] at h
    cases h
    exact ⟨mid, rfl⟩
  · rw [attempt_ok hrun] at h
    cases h

theorem runOn_inContext (context : ParseError.Context) (x : Reader T α) (s : TokenStream T) :
    (inContext context x).runOn s = match x.runOn s with
      | (.ok a, s') => (.ok a, s')
      | (.error e, s') => (.error (e.within context), s') := rfl

theorem runOn_inContext_ok {context : ParseError.Context} {x : Reader T α}
    {s s' : TokenStream T} {a : α} (h : (inContext context x).runOn s = (.ok a, s')) :
    x.runOn s = (.ok a, s') := by
  rw [runOn_inContext] at h
  rcases hrun : x.runOn s with ⟨e | b, mid⟩
  · rw [hrun] at h
    cases h
  · rw [hrun] at h
    exact h

theorem runOn_inContext_error {context : ParseError.Context} {x : Reader T α}
    {s s' : TokenStream T} {e : ParseError} (h : (inContext context x).runOn s = (.error e, s')) :
    ∃ inner, x.runOn s = (.error inner, s') ∧ e = inner.within context := by
  rw [runOn_inContext] at h
  rcases hrun : x.runOn s with ⟨inner | b, mid⟩
  · rw [hrun] at h
    cases h
    exact ⟨inner, rfl, rfl⟩
  · rw [hrun] at h
    cases h

end TokenStream

namespace Statement

/-- What a text is read as is what its tokens are read as. -/
theorem runOn_parse? (text : List Char) (offset : Nat) : ∃ s, (read text offset).runOn
    (.ofTokens (Token.scan offset text) (offset + Text.byteLength text))
      = (parse? text offset, s) :=
  ⟨_, rfl⟩

end Statement

end AccumulatorMachine
