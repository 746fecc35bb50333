import AccumulatorMachine.Proofs.Source.Tracking

/-!
# The First Impossible Token

A parse error points at the first token that cannot be right.

Tokens are viable if some statement begins with them. This says nothing about readers or stages,
only that there is a text which is read as a statement and whose tokens go on like this. When a text
is not read as a statement, there are two cases. If all of its tokens are viable, the error is that
the statement ends too early. Otherwise there is a first token that takes the viability away, and
the error is at this token.

So an error is never late, and it is never early either. That it is not early is what stages cannot
tell. A stage says that a token may come next, and it takes a whole text to show that it really can.
The text is found by printing the tokens, those that have come and those that lead to the end.

## Main definitions

* `Statement.HasTokens`: A statement with its tokens.
* `Statement.Viable`: Tokens that some statement begins with.
* `Statement.Misfit`: What is wrong with an impossible token.
* `Statement.BlamesFirst`: An error that points at the first impossible token.

## Theorems

* `Statement.HasTokens.run`: The tokens of a statement lead to a stage where it may end.
* `Statement.viable_of_run`: What leads to a stage is viable.
* `Statement.parse?_blames_first`: An error points at the first impossible token.
-/

namespace AccumulatorMachine

namespace Source

/-- The keyword of a statement comes first, and a `new` statement is one that has its keyword. -/
theorem Denotes.keyword {text : List Char} {offset : Nat} {tokens : List (Token × Span)}
    {s : Statement} (h : Denotes text offset tokens s) :
    ∃ word place rest, tokens = (.keyword word, place) :: rest ∧
      ((∃ name e, s.form = .new name e) ↔ word = .new) := by
  cases h with
  | @statement word place rest form h =>
    refine ⟨word, place, rest, rfl, ?_⟩
    cases h <;> simp

end Source

namespace Statement

open Stage

/-- A statement has these tokens: it is what some text with these tokens is read as. -/
def HasTokens (s : Statement) (tokens : List Token) : Prop :=
  ∃ text offset, parse? text offset = .ok s ∧ (Token.scan offset text).map Prod.fst = tokens

/-- Tokens that can be continued to those of a statement. -/
def Viable (tokens : List Token) : Prop := ∃ more s, HasTokens s (tokens ++ more)

/-- The tokens of a statement other than a `new` statement. -/
def Complete (tokens : List Token) : Prop :=
  ∃ s, HasTokens s tokens ∧ ∀ name e, s.form ≠ .new name e

/-- A token that is a number out of range where a number may come, or that stands where the number
    of a declaration has to come. -/
def MissesNumber (before : List Token) (token : Token) : Prop :=
  (∃ digits, token = .number digits ∧ ¬ Word.InRange (Source.number digits) ∧
    ∃ other, Viable (before ++ [.number other])) ∨
  ∃ name, before = [.keyword .int, .identifier name] ∨
    before = [.keyword .int, .identifier name, .punctuation .minus]

/-- The cause of an error at a token that cannot come behind others. -/
structure Misfit (before : List Token) (token : Token) (cause : ParseError.Cause) : Prop where
  unknown : before = [] → cause = .unknownStatement
  trailing : Complete before → cause = .trailingInput
  literal : MissesNumber before token → cause = .invalidLiteral
  unexpected : before ≠ [] → ¬ Complete before → ¬ MissesNumber before token →
    cause = .unexpectedToken

/-- The error of a text is about its end if the tokens can be continued, and otherwise about the
    first token up to which they cannot. -/
structure BlamesFirst (text : List Char) (offset : Nat) (e : ParseError) : Prop where
  atEnd : Viable ((Token.scan offset text).map Prod.fst) →
    e.cause = .endOfStatement ∧
      e.span = ⟨offset + Text.byteLength text, offset + Text.byteLength text⟩
  atToken : ¬ Viable ((Token.scan offset text).map Prod.fst) →
    ∃ before token after, Token.scan offset text = before ++ token :: after ∧
      Viable (before.map Prod.fst) ∧ ¬ Viable (before.map Prod.fst ++ [token.1]) ∧
      e.span = token.2 ∧ Misfit (before.map Prod.fst) token.1 e.cause

/-! ## Tokens and stages -/

section Stages

variable {text : List Char} {offset : Nat} {tokens : List Token} {q : Stage}

/-- The tokens of a text that is read lead to a stage where the statement may end. -/
theorem run_of_parse? {s : Statement} (h : parse? text offset = .ok s) :
    ∃ q, start.run ((Token.scan offset text).map Prod.fst) = some q ∧ q.final = true ∧
      ((∃ expecting, q = .part expecting) ↔ ∃ name e, s.form = .new name e) := by
  rcases (parse?_eq_ok_iff.mp h).keyword with ⟨word, place, rest, htokens, hform⟩
  rcases runOn_parse? text offset with ⟨s', hrun⟩
  rw [h] at hrun
  rcases (tracks_read text offset).ok s' s hrun with
    ⟨all, q, hall, -, hq, hend, hfinal, hnew⟩
  rw [hend, List.append_nil] at hall
  subst hall
  refine ⟨q, hq, hfinal, ?_⟩
  rw [hform]
  constructor
  · rintro ⟨expecting, rfl⟩
    rw [htokens] at hq
    rcases run_start_cons hq with ⟨word', hword, -, hnew'⟩
    cases hnew'
    exact Token.keyword.inj hword
  · rintro rfl
    refine hnew ⟨(.keyword .new, place), ?_, rfl⟩
    rw [TokenStream.ofTokens, htokens]
    rfl

theorem HasTokens.run {s : Statement} (h : HasTokens s tokens) :
    ∃ q, start.run tokens = some q ∧ q.final = true ∧
      ((∃ expecting, q = .part expecting) ↔ ∃ name e, s.form = .new name e) := by
  rcases h with ⟨text, offset, hparse, rfl⟩
  exact run_of_parse? hparse

theorem Viable.run_isSome (h : Viable tokens) : (start.run tokens).isSome := by
  rcases h with ⟨more, s, hs⟩
  rcases hs.run with ⟨q, hrun, -⟩
  exact run_isSome_of_append (by rw [hrun]; rfl)

/-- What can be printed and leads to where a statement may end has a statement, that of its text. -/
theorem hasTokens_of_run (htokens : ∀ token ∈ tokens, token.Printable)
    (hrun : start.run tokens = some q) (hfinal : q.final = true) : ∃ s, HasTokens s tokens := by
  have hscan := Token.map_fst_scan_printed 0 htokens
  cases hparse : parse? (Token.printed tokens) 0 with
  | ok s => exact ⟨s, _, 0, hparse, hscan⟩
  | error e =>
    have hstuck := (parse?_stuck hparse).not_final (hscan.symm ▸ hrun)
    rw [hfinal] at hstuck
    cases hstuck

/-- What can be printed and leads to any stage is viable. -/
theorem viable_of_run (htokens : ∀ token ∈ tokens, token.Printable)
    (hrun : start.run tokens = some q) : Viable tokens := by
  rcases q.completes with ⟨more, last, hmore, hlast, hfinal⟩
  refine ⟨more, hasTokens_of_run (List.forall_mem_append.mpr ⟨htokens, hmore⟩) ?_ hfinal⟩
  rw [run_append hrun, hlast]

/-- Outside of strings, the tokens of a text can be printed. -/
theorem printable_of_run {read : List (Token × Span)}
    (hscan : ∀ token ∈ read, token ∈ Token.scan offset text)
    (hrun : start.run (read.map Prod.fst) = some q) (hq : q ≠ .text) :
    ∀ token ∈ read.map Prod.fst, token.Printable := by
  intro token htoken
  rcases List.mem_map.mp htoken with ⟨placed, hplaced, rfl⟩
  refine Token.printable_of_mem_scan (hscan placed hplaced) fun herror => ?_
  exact error_not_mem hrun hq (herror ▸ htoken)

end Stages

/-! ## The first impossible token -/

section Misfit

variable {before : List Token} {token : Token} {q : Stage}

/-- A number may come where some number leads on. -/
theorem viable_number (hbefore : ∀ token ∈ before, token.Printable)
    (hrun : start.run before = some q) {after : Stage} (hnext : q.next (.number "0") = some after) :
    Viable (before ++ [.number "0"]) := by
  refine viable_of_run (List.forall_mem_append.mpr ⟨hbefore, ?_⟩) ((run_append hrun _).trans
    (run_cons hnext))
  simpa using printable_zero

/-- The stage knows what is wrong with the token. -/
theorem misfit (hbefore : ∀ token ∈ before, token.Printable) (hrun : start.run before = some q)
    (hnext : q.next token = none) : Misfit before token (q.blame token) where
  unknown := by
    rintro rfl
    cases hrun
    rfl
  trailing := by
    rintro ⟨s, hs, hform⟩
    -- Tokens of a whole statement lead to a final stage, and there is only one stage for them.
    rcases hs.run with ⟨q', hrun', hfinal, hnew⟩
    rw [hrun] at hrun'
    cases hrun'
    refine blame_of_final hfinal (fun expecting hpart => ?_) hnext
    rcases hnew.mp ⟨expecting, hpart⟩ with ⟨name, e, hs⟩
    exact hform name e hs
  literal := by
    rintro (⟨digits, rfl, -, other, hother⟩ | ⟨name, rfl | rfl⟩)
    · have hsome := hother.run_isSome
      rw [run_append hrun] at hsome
      rcases Option.isSome_iff_exists.mp hsome with ⟨q', hq'⟩
      rcases run_cons_eq_some hq' with ⟨mid, hmid, -⟩
      exact (blame_number hnext hmid).1
    · cases hrun
      rfl
    · cases hrun
      rfl
  unexpected := by
    intro hne hcomplete hnumber
    -- Each other cause would put the token under one of the cases that are excluded here.
    cases hblame : q.blame token with
    | unexpectedToken => rfl
    | endOfStatement => exact absurd hblame (blame_ne_endOfStatement q token)
    | unknownStatement =>
      cases eq_start_of_blame hblame
      exact absurd (eq_nil_of_run_start hrun) hne
    | trailingInput =>
      rcases final_of_blame hblame with ⟨hfinal, hpart⟩
      rcases hasTokens_of_run hbefore hrun hfinal with ⟨s, hs⟩
      refine absurd ⟨s, hs, fun name e hform => ?_⟩ hcomplete
      rcases hs.run with ⟨q', hrun', -, hnew⟩
      rw [hrun] at hrun'
      cases hrun'
      rcases hnew.mpr ⟨name, e, hform⟩ with ⟨expecting, hq⟩
      exact hpart expecting hq
    | invalidLiteral =>
      refine absurd ?_ hnumber
      rcases cases_of_blame hblame with hq | hq | ⟨digits, after, rfl, hzero⟩
      · exact Or.inr (tokens_of_value hrun (Or.inl hq))
      · exact Or.inr (tokens_of_value hrun (Or.inr hq))
      · exact Or.inl ⟨digits, rfl, (blame_number hnext hzero).2, "0",
          viable_number hbefore hrun hzero⟩

end Misfit

/-- The error of a text that is not read as a statement points at the first impossible token. -/
theorem parse?_blames_first {text : List Char} {offset : Nat} {e : ParseError}
    (h : parse? text offset = .error e) : BlamesFirst text offset e := by
  cases parse?_stuck h with
  | @atEnd q hrun hfinal hcause hspan =>
    have hq : q ≠ .text := by
      rintro rfl
      cases hfinal
    have hviable := viable_of_run (printable_of_run (fun _ h => h) hrun hq) hrun
    exact ⟨fun _ => ⟨hcause, hspan⟩, fun hnot => absurd hviable hnot⟩
  | @atToken q before after token htokens hrun hnext hcause hspan =>
    have hq : q ≠ .text := by
      rintro rfl
      cases hnext
    have hbefore := printable_of_run (fun first hfirst => by
      rw [htokens]
      exact List.mem_append_left _ hfirst) hrun hq
    -- More tokens do not help, since there is no stage behind this one.
    have hnot : ¬ Viable (before.map Prod.fst ++ [token.1]) := by
      intro hviable
      have hsome := hviable.run_isSome
      rw [run_append hrun] at hsome
      rcases Option.isSome_iff_exists.mp hsome with ⟨q', hq'⟩
      rcases run_cons_eq_some hq' with ⟨mid, hmid, -⟩
      rw [hnext] at hmid
      cases hmid
    refine ⟨?_, fun _ => ⟨before, token, after, htokens, viable_of_run hbefore hrun, hnot, hspan,
      hcause ▸ misfit hbefore hrun hnext⟩⟩
    rintro ⟨more, s, hs⟩
    refine absurd ⟨after.map Prod.fst ++ more, s, ?_⟩ hnot
    simpa [htokens] using hs

/-- A name behind a call that is complete. -/
theorem outputThenName_blames_first :
    parse? "output_int(x) y".toList 0 = .error ⟨.trailingInput, ⟨14, 15⟩, []⟩ ∧
      BlamesFirst "output_int(x) y".toList 0 ⟨.trailingInput, ⟨14, 15⟩, []⟩ := by
  have herror : parse? "output_int(x) y".toList 0 = .error ⟨.trailingInput, ⟨14, 15⟩, []⟩ := by
    decide +kernel
  exact ⟨herror, parse?_blames_first herror⟩

end Statement

end AccumulatorMachine
