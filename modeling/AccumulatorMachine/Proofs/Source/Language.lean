import AccumulatorMachine.Proofs.Source.Readers

/-!
# Languages of Readers

Which tokens a reader accepts, and what it makes of them.

A reader has a language: a relation between the tokens it starts from, those it leaves and what it
reads. `Accepts` says that the language is exactly this, so it has two directions. The reader
succeeds on everything that is in the language, and on nothing else. Why it fails where it fails is
not a part of it.

The languages of readers are put together like the readers. A sequence has the composition of the
languages of its parts. A reader that starts with the next token has, behind that token, the
language that is left of its own. This is how most languages are found: token by token, with what
may come next as the language of the rest of the reader.

Some readers look at the stream without taking a token from it. `AcceptsAt` is the language on one
stream only, and serves for these.

## Main definitions

* `TokenStream.Accepts`: The language of a reader.
* `TokenStream.AcceptsAt`: The language of a reader on one stream.

## Theorems

* `TokenStream.Accepts.bind`: Readers one after another.
* `TokenStream.Accepts.next`: A reader that starts with the next token.
* `TokenStream.Accepts.take`, `TokenStream.Accepts.eat`, `TokenStream.Accepts.rest`,
  `TokenStream.Accepts.expectEnd`: The languages of the elementary readers.
-/

namespace AccumulatorMachine

namespace TokenStream

variable {T α β : Type}

/-- A reader succeeds on a stream with just those results, leaving just those tokens, that are in a
    relation. -/
def AcceptsAt (s : TokenStream T) (reader : Reader T α) (L : List (T × Span) → α → Prop) : Prop :=
  ∀ rest a, (∃ s', reader.runOn s = (.ok a, s') ∧ s'.after = rest) ↔ L rest a

/-- The language of a reader: from which tokens it reads what, and which tokens it leaves. -/
def Accepts (reader : Reader T α) (L : List (T × Span) → List (T × Span) → α → Prop) : Prop :=
  ∀ s : TokenStream T, s.AcceptsAt reader (L s.after)

section AcceptsAt

variable {s : TokenStream T} {L : List (T × Span) → α → Prop}

theorem AcceptsAt.congr {L' : List (T × Span) → α → Prop} {reader : Reader T α}
    (h : s.AcceptsAt reader L) (hL : ∀ rest a, L' rest a ↔ L rest a) : s.AcceptsAt reader L' :=
  fun rest a => (h rest a).trans (hL rest a).symm

theorem AcceptsAt.pure {a : α} (h : ∀ rest b, L rest b ↔ a = b ∧ s.after = rest) :
    s.AcceptsAt (Pure.pure a) L := by
  intro rest b
  rw [h]
  constructor
  · rintro ⟨s', hrun, rfl⟩
    cases hrun
    exact ⟨rfl, rfl⟩
  · rintro ⟨rfl, rfl⟩
    exact ⟨s, rfl, rfl⟩

theorem AcceptsAt.throw {e : ParseError} (h : ∀ rest a, ¬ L rest a) :
    s.AcceptsAt (MonadExcept.throw e) L := by
  intro rest a
  constructor
  · rintro ⟨s', hrun, -⟩
    cases hrun
  · exact fun hL => absurd hL (h rest a)

theorem AcceptsAt.bind {x : Reader T α} {f : α → Reader T β}
    {M : α → List (T × Span) → List (T × Span) → β → Prop} {N : List (T × Span) → β → Prop}
    (hx : s.AcceptsAt x L) (hf : ∀ a, Accepts (f a) (M a))
    (h : ∀ rest b, N rest b ↔ ∃ mid a, L mid a ∧ M a mid rest b) : s.AcceptsAt (x >>= f) N := by
  intro rest b
  rw [h]
  constructor
  · rintro ⟨s', hrun, hrest⟩
    rcases runOn_bind_ok hrun with ⟨a, mid, ha, hb⟩
    exact ⟨mid.after, a, (hx _ _).mp ⟨mid, ha, rfl⟩, (hf a mid _ _).mp ⟨s', hb, hrest⟩⟩
  · rintro ⟨mid, a, hL, hM⟩
    rcases (hx mid a).mpr hL with ⟨s'', ha, rfl⟩
    rcases (hf a s'' rest b).mpr hM with ⟨s', hb, hrest⟩
    refine ⟨s', ?_, hrest⟩
    rw [runOn_bind, ha]
    exact hb

theorem AcceptsAt.get {f : TokenStream T → Reader T α} (h : s.AcceptsAt (f s) L) :
    s.AcceptsAt (MonadState.get >>= f) L := h

theorem AcceptsAt.set {s' : TokenStream T} {f : PUnit → Reader T α}
    (h : s'.AcceptsAt (f ⟨⟩) L) : s.AcceptsAt (MonadStateOf.set s' >>= f) L := h

/-- A reader that starts with the next token is the one for this token, one token further on. -/
theorem AcceptsAt.next {before after : List (T × Span)} {stop : Nat} {token : T × Span}
    {f : T × Span → Reader T α}
    (h : AcceptsAt ⟨token :: before, after, stop⟩ (f token) L) :
    AcceptsAt ⟨before, token :: after, stop⟩ (TokenStream.next >>= f) L := h

theorem AcceptsAt.next_nil {before : List (T × Span)} {stop : Nat} {f : T × Span → Reader T α}
    (h : ∀ rest a, ¬ L rest a) : AcceptsAt ⟨before, [], stop⟩ (TokenStream.next >>= f) L :=
  .throw h

end AcceptsAt

namespace Accepts

variable {L : List (T × Span) → List (T × Span) → α → Prop}

theorem pure {a : α} (h : ∀ tokens rest b, L tokens rest b ↔ a = b ∧ tokens = rest) :
    Accepts (Pure.pure a) L :=
  fun s => .pure (h s.after)

theorem throw {e : ParseError} (h : ∀ tokens rest a, ¬ L tokens rest a) :
    Accepts (MonadExcept.throw e) L :=
  fun s => .throw (h s.after)

theorem bind {x : Reader T β} {f : β → Reader T α}
    {M : β → List (T × Span) → List (T × Span) → α → Prop}
    {L' : List (T × Span) → List (T × Span) → β → Prop} (hx : Accepts x L')
    (hf : ∀ b, Accepts (f b) (M b))
    (h : ∀ tokens rest a, L tokens rest a ↔ ∃ mid b, L' tokens mid b ∧ M b mid rest a) :
    Accepts (x >>= f) L :=
  fun s => (hx s).bind hf (h s.after)

theorem token : Accepts (TokenStream.next : Reader T _) fun tokens rest token =>
    tokens = token :: rest := by
  rintro ⟨before, _ | ⟨token, after⟩, stop⟩
  · exact AcceptsAt.throw (by simp)
  · intro rest a
    constructor
    · rintro ⟨s', hrun, rfl⟩
      cases hrun
      rfl
    · rintro ⟨⟩
      exact ⟨_, rfl, rfl⟩

/-- A reader that starts with the next token reads what it reads after each of them. -/
theorem next {f : T × Span → Reader T α} (hnil : ∀ rest a, ¬ L [] rest a)
    (hf : ∀ token span, Accepts (f (token, span)) fun after => L ((token, span) :: after)) :
    Accepts (TokenStream.next >>= f) L := by
  rintro ⟨before, _ | ⟨⟨token, span⟩, after⟩, stop⟩
  · exact .next_nil hnil
  · exact .next (hf token span _)

theorem nextIn {context : ParseError.Context} {f : T × Span → Reader T α}
    (hnil : ∀ rest a, ¬ L [] rest a)
    (hf : ∀ token span, Accepts (f (token, span)) fun after => L ((token, span) :: after)) :
    Accepts (TokenStream.inContext context TokenStream.next >>= f) L := by
  rintro ⟨before, _ | ⟨⟨token, span⟩, after⟩, stop⟩
  · exact AcceptsAt.throw hnil
  · exact hf token span ⟨(token, span) :: before, after, stop⟩

theorem attempt {reader : Reader T α} (h : Accepts reader L) : Accepts (attempt reader) L := by
  intro s rest a
  rw [← h s rest a]
  rcases hrun : reader.runOn s with ⟨e | b, mid⟩
  · rw [attempt_error hrun]
    simp
  · rw [attempt_ok hrun]

theorem inContext {reader : Reader T α} (context : ParseError.Context) (h : Accepts reader L) :
    Accepts (inContext context reader) L := by
  intro s rest a
  rw [← h s rest a, runOn_inContext]
  rcases hrun : reader.runOn s with ⟨e | b, mid⟩
  · simp
  · rfl

theorem take [DecidableEq T] (expected : T) : Accepts (take expected) fun tokens rest span =>
    tokens = (expected, span) :: rest := by
  refine attempt (next (by simp) fun token span => ?_)
  simp only
  by_cases h : token = expected
  · rw [if_pos h]
    exact pure (by simp [h])
  · rw [if_neg h]
    exact throw (by simp [h])

theorem eat [DecidableEq T] (wanted : T) : Accepts (eat wanted) fun tokens rest eaten =>
    if eaten then ∃ span, tokens = (wanted, span) :: rest
    else tokens = rest ∧ ∀ token ∈ tokens.head?, token.1 ≠ wanted := by
  rintro ⟨before, _ | ⟨⟨token, span⟩, after⟩, stop⟩
  · exact .get (.pure fun rest eaten => by cases eaten <;> simp)
  · refine .get ?_
    simp only
    by_cases h : token = wanted
    · rw [if_pos h]
      exact .set (.pure fun rest eaten => by cases eaten <;> simp [h])
    · rw [if_neg h]
      exact .pure fun rest eaten => by cases eaten <;> simp [h]

theorem expectEnd : Accepts (expectEnd : Reader T Unit) fun tokens rest _ =>
    tokens = [] ∧ rest = [] := by
  rintro ⟨before, _ | ⟨⟨token, span⟩, after⟩, stop⟩
  · exact .get (.pure (by simp))
  · exact .get (.throw (by simp))

theorem rest : Accepts (rest : Reader T (List (T × Span))) fun tokens rest all =>
    rest = [] ∧ all = tokens := by
  intro s left all
  constructor
  · rintro ⟨s', hrun, rfl⟩
    cases hrun
    exact ⟨rfl, rfl⟩
  · rintro ⟨rfl, rfl⟩
    exact ⟨_, rfl, rfl⟩

end Accepts

end TokenStream

end AccumulatorMachine
