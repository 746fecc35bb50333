import AccumulatorMachine.Proofs.Source.Stages

/-!
# Readers and Stages

The readers of statements go from stage to stage.

A reader tracks a stage if the tokens that it takes lead on from there, to a stage that depends on
what it has read. If it fails, it is stuck. All tokens are taken and the statement may not end, or
the tokens in front of one are taken and this one may not come next. The error says what the stage
says.

`Tracks` has one rule for each way to build a reader, like the other properties of readers. It is
about a stream, not about all of them, because some readers look at a token and leave it there. Then
what is known of the token has to go along with the stage.

## Main definitions

* `Statement.Stuck`: How a reader fails.
* `Statement.Tracks`: A reader that goes from a stage to others.

## Theorems

* `Statement.Tracks.bind`, `Statement.Tracks.token`: Readers one after another, and a reader that
  begins with a token.
* `Statement.tracks_expressionTokens`: The parts of an expression.
* `Statement.tracks_form`: What follows a keyword.
* `Statement.tracks_read`: A whole statement.
* `Statement.parse?_stuck`, `Statement.parse?_error_covers`: Where the error of a text is.
-/

namespace AccumulatorMachine

namespace Statement

open TokenStream (Reader next peek take eat attempt inContext runOn_bind runOn_bind_ok
  runOn_bind_error runOn_attempt_ok runOn_attempt_error runOn_inContext_ok runOn_inContext_error)

open Stage

variable {α β : Type}

/-- A reader has failed on tokens whose end is at an offset. Either all of them may come one after
    another, but the statement may not end with them, or one of them may not come next. -/
inductive Stuck (q : Stage) (tokens : List (Token × Span)) (stop : Nat) (e : ParseError) :
    Prop where
  | atEnd {q' : Stage} (hrun : q.run (tokens.map Prod.fst) = some q') (hfinal : q'.final = false)
      (hcause : e.cause = .endOfStatement) (hspan : e.span = ⟨stop, stop⟩)
  | atToken {q' : Stage} {before after : List (Token × Span)} {token : Token × Span}
      (htokens : tokens = before ++ token :: after)
      (hrun : q.run (before.map Prod.fst) = some q') (hnext : q'.next token.1 = none)
      (hcause : e.cause = q'.blame token.1) (hspan : e.span = token.2)

namespace Stuck

variable {q q' : Stage} {tokens : List (Token × Span)} {stop : Nat} {e : ParseError}

theorem within (h : Stuck q tokens stop e) (context : ParseError.Context) :
    Stuck q tokens stop (e.within context) := by
  cases h with
  | atEnd hrun hfinal hcause hspan => exact .atEnd hrun hfinal hcause hspan
  | atToken htokens hrun hnext hcause hspan => exact .atToken htokens hrun hnext hcause hspan

theorem behind {read : List (Token × Span)} (hread : q.run (read.map Prod.fst) = some q')
    (h : Stuck q' tokens stop e) : Stuck q (read ++ tokens) stop e := by
  cases h with
  | atEnd hrun hfinal hcause hspan =>
    refine .atEnd ?_ hfinal hcause hspan
    rw [List.map_append, run_append hread, hrun]
  | @atToken _ before after token htokens hrun hnext hcause hspan =>
    have htokens' : read ++ tokens = (read ++ before) ++ token :: after := by
      rw [htokens, List.append_assoc]
    refine .atToken htokens' ?_ hnext hcause hspan
    rw [List.map_append, run_append hread, hrun]

/-- If a statement may end with the tokens, nothing is stuck on them. -/
theorem not_final (h : Stuck q tokens stop e) (hrun : q.run (tokens.map Prod.fst) = some q') :
    q'.final = false := by
  cases h with
  | atEnd hrun' hfinal =>
    rw [hrun] at hrun'
    exact Option.some.inj hrun' ▸ hfinal
  | @atToken _ before after token htokens hrun' hnext =>
    rw [htokens, List.map_append, run_append hrun'] at hrun
    rcases run_cons_eq_some hrun with ⟨mid, hmid, -⟩
    rw [hnext] at hmid
    cases hmid

end Stuck

/-- Two stages make the same of the token that comes next. -/
def Agree (q q' : Stage) (s : TokenStream Token) : Prop :=
  ∀ token ∈ s.after.head?, q.next token.1 = q'.next token.1 ∧ q.blame token.1 = q'.blame token.1

theorem Agree.refl (q : Stage) (s : TokenStream Token) : Agree q q s := fun _ _ => ⟨rfl, rfl⟩

/-- On a stream, a reader goes from a stage to others. What it reads, the stream that it leaves and
    the stage there have a property. -/
structure Tracks (q : Stage) (s : TokenStream Token) (reader : Reader Token α)
    (post : α → TokenStream Token → Stage → Prop) : Prop where
  ok : ∀ s' a, reader.runOn s = (.ok a, s') → ∃ read q', s.after = read ++ s'.after ∧
    s'.stop = s.stop ∧ q.run (read.map Prod.fst) = some q' ∧ post a s' q'
  error : ∀ s' e, reader.runOn s = (.error e, s') → Stuck q s.after s.stop e

/-- What a reader does after a token, where it goes on if the token may come next and fails if it
    may not. -/
inductive Meets (q : Stage) (token : Token × Span) (s : TokenStream Token)
    (reader : Reader Token α) (post : α → TokenStream Token → Stage → Prop) : Prop where
  | goesOn {q' : Stage} (hnext : q.next token.1 = some q') (h : Tracks q' s reader post)
  | fails {e : ParseError} {s' : TokenStream Token} (hnext : q.next token.1 = none)
      (hrun : reader.runOn s = (.error e, s')) (hcause : e.cause = q.blame token.1)
      (hspan : e.span = token.2)

/-- A reader of one token, up to the context of its error. -/
def TakesToken (reader : Reader Token (Token × Span)) : Prop := ∀ before stop,
  (∃ e s, reader.runOn ⟨before, [], stop⟩ = (.error e, s) ∧ e.cause = .endOfStatement ∧
    e.span = ⟨stop, stop⟩) ∧
  ∀ token after, reader.runOn ⟨before, token :: after, stop⟩
    = (.ok token, ⟨token :: before, after, stop⟩)

theorem takesToken_next : TakesToken next :=
  fun _ _ => ⟨⟨_, _, rfl, rfl, rfl⟩, fun _ _ => rfl⟩

theorem takesToken_inContext (context : ParseError.Context) :
    TakesToken (inContext context next) :=
  fun _ _ => ⟨⟨_, _, rfl, rfl, rfl⟩, fun _ _ => rfl⟩

namespace Tracks

variable {q q' : Stage} {s : TokenStream Token} {post : α → TokenStream Token → Stage → Prop}

theorem pure {a : α} (h : post a s q) : Tracks q s (Pure.pure a) post where
  ok := by
    intro s' b hrun
    cases hrun
    exact ⟨[], q, rfl, rfl, rfl, h⟩
  error := by
    intro s' e hrun
    cases hrun

theorem bind {x : Reader Token β} {f : β → Reader Token α}
    {post' : β → TokenStream Token → Stage → Prop} (hx : Tracks q s x post')
    (hf : ∀ b s' q', post' b s' q' → Tracks q' s' (f b) post) : Tracks q s (x >>= f) post where
  ok := by
    intro s' a hrun
    rcases runOn_bind_ok hrun with ⟨b, mid, hb, ha⟩
    rcases hx.ok mid b hb with ⟨first, q₁, hfirst, hstop, hrun₁, hpost₁⟩
    rcases (hf b mid q₁ hpost₁).ok s' a ha with ⟨second, q₂, hsecond, hstop', hrun₂, hpost₂⟩
    refine ⟨first ++ second, q₂, ?_, hstop'.trans hstop, ?_, hpost₂⟩
    · rw [hfirst, hsecond, List.append_assoc]
    · rw [List.map_append, run_append hrun₁, hrun₂]
  error := by
    intro s' e hrun
    rcases runOn_bind_error hrun with he | ⟨b, mid, hb, he⟩
    · exact hx.error s' e he
    · rcases hx.ok mid b hb with ⟨first, q₁, hfirst, hstop, hrun₁, hpost₁⟩
      rw [hfirst, ← hstop]
      exact ((hf b mid q₁ hpost₁).error s' e he).behind hrun₁

theorem mono {post' : α → TokenStream Token → Stage → Prop} {reader : Reader Token α}
    (h : Tracks q s reader post) (hpost : ∀ a s' q', post a s' q' → post' a s' q') :
    Tracks q s reader post' where
  ok := by
    intro s' a hrun
    rcases h.ok s' a hrun with ⟨read, q', hread, hstop, hrun', hpost'⟩
    exact ⟨read, q', hread, hstop, hrun', hpost _ _ _ hpost'⟩
  error := h.error

theorem get {f : TokenStream Token → Reader Token α} (h : Tracks q s (f s) post) :
    Tracks q s (MonadState.get >>= f) post :=
  ⟨fun s' a hrun => h.ok s' a hrun, fun s' e hrun => h.error s' e hrun⟩

/-- The end of the tokens is blamed where the statement has to go on. -/
theorem throwAtEnd (hend : s.after = []) (hfinal : q.final = false) :
    Tracks q s (MonadExcept.throw (ParseError.atEnd s.stop)) post where
  ok := by
    intro s' a hrun
    cases hrun
  error := by
    intro s' e hrun
    cases hrun
    rw [hend]
    exact .atEnd rfl hfinal rfl rfl

/-- The next token is blamed where it may not come. -/
theorem throwAt {e : ParseError} {token : Token × Span} {after : List (Token × Span)}
    (htoken : s.after = token :: after) (hnext : q.next token.1 = none)
    (hcause : e.cause = q.blame token.1) (hspan : e.span = token.2) :
    Tracks q s (MonadExcept.throw e) post where
  ok := by
    intro s' a hrun
    cases hrun
  error := by
    intro s' e hrun
    cases hrun
    rw [htoken]
    exact .atToken (List.nil_append _).symm rfl hnext hcause hspan

/-- A reader that does on a token what another one does behind it. -/
theorem of_meets {x y : Reader Token α} {before after : List (Token × Span)}
    {token : Token × Span} {stop : Nat}
    (hrun : x.runOn ⟨before, token :: after, stop⟩ = y.runOn ⟨token :: before, after, stop⟩)
    (h : Meets q token ⟨token :: before, after, stop⟩ y post) :
    Tracks q ⟨before, token :: after, stop⟩ x post where
  ok := by
    intro s' a hok
    rw [hrun] at hok
    cases h with
    | goesOn hnext htracks =>
      rcases htracks.ok s' a hok with ⟨read, q', hread, hstop, hrun', hpost⟩
      exact ⟨token :: read, q', congrArg _ hread, hstop, (run_cons hnext).trans hrun', hpost⟩
    | fails hnext hfail =>
      rw [hfail] at hok
      cases hok
  error := by
    intro s' e herror
    rw [hrun] at herror
    cases h with
    | goesOn hnext htracks =>
      have hone : q.run ([token].map Prod.fst) = some _ := run_cons hnext
      exact (htracks.error s' e herror).behind hone
    | fails hnext hfail hcause hspan =>
      rw [hfail] at herror
      cases herror
      exact .atToken (List.nil_append _).symm rfl hnext hcause hspan

/-- A reader that begins with a token, where there has to be one. -/
theorem token {x : Reader Token (Token × Span)} {f : Token × Span → Reader Token α}
    (hx : TakesToken x) (hend : s.after = [] → q.final = false)
    (hf : ∀ token after, s.after = token :: after →
      Meets q token ⟨token :: s.before, after, s.stop⟩ (f token) post) :
    Tracks q s (x >>= f) post := by
  obtain ⟨before, _ | ⟨token, after⟩, stop⟩ := s
  · rcases (hx before stop).1 with ⟨e, s', hrun, hcause, hspan⟩
    refine ⟨fun s'' a h => ?_, fun s'' e' h => ?_⟩
    · rw [runOn_bind, hrun] at h
      cases h
    · rw [runOn_bind, hrun] at h
      cases h
      exact .atEnd rfl (hend rfl) hcause hspan
  · refine .of_meets ?_ (hf token after rfl)
    rw [runOn_bind, (hx before stop).2 token after]

theorem attempt {reader : Reader Token α} (h : Tracks q s reader post) :
    Tracks q s (attempt reader) post where
  ok := fun s' a hrun => h.ok s' a (runOn_attempt_ok hrun)
  error := by
    intro s' e hrun
    rcases runOn_attempt_error hrun with ⟨mid, he⟩
    exact h.error mid e he

theorem inContext {reader : Reader Token α} (context : ParseError.Context)
    (h : Tracks q s reader post) : Tracks q s (inContext context reader) post where
  ok := fun s' a hrun => h.ok s' a (runOn_inContext_ok hrun)
  error := by
    intro s' e hrun
    rcases runOn_inContext_error hrun with ⟨inner, he, rfl⟩
    exact (h.error s' inner he).within context

/-- A mark that has to come. -/
theorem take {m : Punctuation} {after : Stage} (hagree : Agree q (.mark m after) s)
    (hfinal : q.final = false) :
    Tracks q s (take (Token.punctuation m)) fun _ _ q' => q' = after := by
  refine .attempt (.token takesToken_next (fun _ => hfinal) fun token rest htoken => ?_)
  rcases hagree token (by rw [htoken]; rfl) with ⟨hnext, hblame⟩
  by_cases h : token.1 = .punctuation m
  · simp only [h, if_true]
    exact .goesOn (hnext.trans (if_pos h)) (.pure rfl)
  · simp only [h, if_false]
    exact .fails (hnext.trans (if_neg h)) rfl hblame.symm rfl

/-- A token that may come or not. -/
theorem eat {wanted : Token} {opened : Stage} (hnext : q.next wanted = some opened) :
    Tracks q s (eat wanted) fun eaten s' q' => if eaten then q' = opened
      else q' = q ∧ s' = s ∧ ∀ token ∈ s.after.head?, token.1 ≠ wanted := by
  refine .get ?_
  obtain ⟨before, _ | ⟨token, after⟩, stop⟩ := s
  · exact .pure ⟨rfl, rfl, by simp⟩
  · simp only
    by_cases h : token.1 = wanted
    · rw [if_pos h]
      exact .of_meets (y := Pure.pure true) rfl (.goesOn (h ▸ hnext) (.pure rfl))
    · rw [if_neg h]
      exact .pure ⟨rfl, rfl, by simpa using h⟩

/-- All that is left, where anything may come. -/
theorem rest (hnext : ∀ token, q.next token = some q) :
    Tracks q s (TokenStream.rest : Reader Token _) fun _ s' q' => s'.after = [] ∧ q' = q where
  ok := by
    intro s' a hrun
    cases hrun
    refine ⟨s.after, q, (List.append_nil _).symm, rfl, ?_, rfl, rfl⟩
    induction s.after.map Prod.fst with
    | nil => rfl
    | cons token tokens ih => exact (run_cons (hnext token)).trans ih
  error := by
    intro s' e hrun
    cases hrun

/-- The end, where nothing more may come. -/
theorem expectEnd (h : ∀ token ∈ s.after.head?,
      q.next token.1 = none ∧ q.blame token.1 = .trailingInput) :
    Tracks q s (TokenStream.expectEnd : Reader Token Unit)
      fun _ s' q' => s'.after = [] ∧ q' = q := by
  refine .get ?_
  obtain ⟨before, _ | ⟨token, after⟩, stop⟩ := s
  · exact .pure ⟨rfl, rfl⟩
  · rcases h token rfl with ⟨hnext, hblame⟩
    exact .throwAt rfl hnext hblame.symm rfl

/-- A reader that takes all tokens tracks any stage that makes the same of the first one. -/
theorem of_agree {reader : Reader Token α} (hs : s.after ≠ []) (hagree : Agree q q' s)
    (hpost : ∀ a s' q₁, post a s' q₁ → s'.after = []) (h : Tracks q' s reader post) :
    Tracks q s reader post := by
  obtain ⟨before, _ | ⟨token, after⟩, stop⟩ := s
  · exact absurd rfl hs
  rcases hagree token rfl with ⟨hnext, hblame⟩
  -- The two stages differ in nothing that can be seen behind the first token.
  have hrun : ∀ tokens, q.run (token.1 :: tokens) = q'.run (token.1 :: tokens) := by
    intro tokens
    simp only [run, List.foldlM_cons, hnext]
  refine ⟨fun s' a hok => ?_, fun s' e herror => ?_⟩
  · rcases h.ok s' a hok with ⟨read, q₁, hread, hstop, hrun₁, hpost₁⟩
    rw [hpost a s' q₁ hpost₁, List.append_nil] at hread
    subst hread
    exact ⟨token :: after, q₁, by rw [hpost a s' q₁ hpost₁, List.append_nil], hstop,
      (hrun _).trans hrun₁, hpost₁⟩
  · cases h.error s' e herror with
    | atEnd hrun₁ hfinal hcause hspan => exact .atEnd ((hrun _).trans hrun₁) hfinal hcause hspan
    | @atToken _ front _ _ htokens hrun₁ hnone hcause hspan =>
      cases front with
      | nil =>
        cases htokens
        cases hrun₁
        exact .atToken (List.nil_append _).symm rfl (hnext.trans hnone) (hcause.trans hblame.symm)
          hspan
      | cons first front =>
        cases htokens
        exact .atToken (List.cons_append).symm ((hrun _).trans hrun₁) hnone hcause hspan

end Tracks

/-! ## The readers of statements -/

section Readers

variable {q after : Stage} {s : TokenStream Token}

theorem tracks_name : Tracks (.name after) s readName fun _ _ q' => q' = after := by
  refine .attempt (.token takesToken_next (fun _ => rfl) fun token rest _ => ?_)
  obtain ⟨token, span⟩ := token
  cases token with
  | identifier name => exact .goesOn rfl (.pure rfl)
  | error | keyword | number | punctuation => exact .fails rfl rfl rfl rfl

/-- Digits that have been taken, where their number has to be a word. -/
theorem meets_literal {negative : Bool} {digits : String} {span : Span} {f : Int → Reader Token α}
    {post : α → TokenStream Token → Stage → Prop}
    (hnext : q.next (.number digits)
      = ofNumber (if negative then -Source.number digits else Source.number digits) after)
    (hblame : q.blame (.number digits) = .invalidLiteral)
    (h : ∀ value, Tracks after s (f value) post) :
    Meets q (.number digits, span) s (literalValue negative digits span >>= f) post := by
  rw [literalValue]
  cases hvalue : Word.checked
      (if negative then -(Nat.ofDigitChars 10 digits.toList 0 : Int)
        else Nat.ofDigitChars 10 digits.toList 0) with
  | none =>
    have hrange := Word.checked_eq_none_iff.mp hvalue
    exact .fails (hnext.trans (ofNumber_of_not_inRange hrange)) rfl hblame.symm rfl
  | some value =>
    rcases Word.checked_eq_some_iff.mp hvalue with ⟨-, hrange⟩
    exact .goesOn (hnext.trans (ofNumber_of_inRange hrange)) (h value)

theorem tracks_operand (hagree : Agree q (.operand after) s)
    (hend : s.after = [] → q.final = false) : Tracks q s readOperand
      fun _ s' q' => q' = after ∧ s'.after.length < s.after.length := by
  refine .attempt (.token takesToken_next hend fun token rest htoken => ?_)
  rcases hagree token (by rw [htoken]; rfl) with ⟨hnext, hblame⟩
  have hless : rest.length < s.after.length := by simp [htoken]
  obtain ⟨token, span⟩ := token
  cases token with
  | identifier name => exact .goesOn hnext (.pure ⟨rfl, hless⟩)
  | number digits => exact meets_literal hnext hblame fun value => .pure ⟨rfl, hless⟩
  | punctuation mark =>
    cases mark with
    | minus =>
      refine .goesOn hnext (.token takesToken_next (fun _ => rfl) fun last more hlast => ?_)
      have hless' : more.length < s.after.length := by
        rw [show rest = last :: more from hlast] at hless
        exact Nat.lt_of_succ_lt hless
      obtain ⟨token, place⟩ := last
      cases token with
      | number digits => exact meets_literal rfl rfl fun value => .pure ⟨rfl, hless'⟩
      | error | keyword | identifier | punctuation => exact .fails rfl rfl rfl rfl
    | _ => exact .fails hnext rfl hblame.symm rfl
  | error | keyword => exact .fails hnext rfl hblame.symm rfl

theorem tracks_int : Tracks (.name .value) s readInt fun _ _ q' => q' = .done .int := by
  refine .bind (.inContext _ tracks_name) fun name s q hq => ?_
  subst hq
  refine .bind (.eat rfl) fun negative s' q' heaten => ?_
  cases negative with
  | false =>
    rcases heaten with ⟨rfl, rfl, hminus⟩
    refine .token (takesToken_inContext _) (fun _ => rfl) fun token rest htoken => ?_
    obtain ⟨token, span⟩ := token
    cases token with
    | number digits => exact meets_literal rfl rfl fun value => .pure rfl
    | punctuation mark =>
      cases mark with
      | minus => exact absurd rfl (hminus (.punctuation .minus, span) (by rw [htoken]; rfl))
      | _ => exact .fails rfl rfl rfl rfl
    | error | keyword | identifier => exact .fails rfl rfl rfl rfl
  | true =>
    cases heaten
    refine .token (takesToken_inContext _) (fun _ => rfl) fun token rest htoken => ?_
    obtain ⟨token, span⟩ := token
    cases token with
    | number digits => exact meets_literal rfl rfl fun value => .pure rfl
    | error | keyword | identifier | punctuation => exact .fails rfl rfl rfl rfl

theorem tracks_string (source : List Char) (offset : Nat) :
    Tracks (.name .text) s (readString source offset)
      fun _ s' q' => s'.after = [] ∧ q' = .text := by
  refine .bind (.inContext _ tracks_name) fun name s q hq => ?_
  subst hq
  exact .bind (.rest fun _ => rfl) fun _ _ _ h => .pure h

/-- Where a part of an expression is expected to be an operand, a token that starts one has to be
    one. -/
theorem agree_part {expecting : Bool} {token : Token × Span} {rest : List (Token × Span)}
    (hs : s.after = token :: rest) (h : (expecting && startsOperand token.1) = true) :
    Agree (.part expecting) (.operand (.part false)) s := by
  intro first hfirst
  rw [hs] at hfirst
  cases hfirst
  refine ⟨if_pos h, ?_⟩
  rw [Bool.and_eq_true] at h
  rcases h with ⟨rfl, -⟩
  cases token.1 <;> rfl

/-- Each part of an expression takes a token at least, so as many parts as there are tokens are all
    of the expression. -/
theorem tracks_expressionTokens {count : Nat} (expecting : Bool) (hcount : s.after.length ≤ count) :
    Tracks (.part expecting) s (readExpressionTokens count expecting)
      fun _ s' q' => s'.after = [] ∧ ∃ expecting', q' = .part expecting' := by
  induction count generalizing s expecting with
  | zero =>
    exact .pure ⟨List.length_eq_zero_iff.mp (Nat.le_zero.mp hcount), expecting, rfl⟩
  | succ count ih =>
    refine .get ?_
    rcases hs : s.after with _ | ⟨token, rest⟩
    · simp only [peek, hs, List.head?_nil]
      exact .pure ⟨hs, expecting, rfl⟩
    · obtain ⟨token, span⟩ := token
      simp only [peek, hs, List.head?_cons]
      -- The expression may be over here, but it is not.
      have hend : s.after = [] → (Stage.part expecting).final = false := by simp [hs]
      by_cases hop : (expecting && startsOperand token) = true
      · rw [if_pos hop]
        refine .bind (tracks_operand (agree_part hs hop) hend) fun operand mid q hmid => ?_
        rcases hmid with ⟨rfl, hless⟩
        exact .bind (ih false (by omega)) fun _ _ _ h => .pure h
      · rw [if_neg hop]
        have hnext : (Stage.part expecting).next token
            = (expressionMark? token).map fun mark => .part (mark ≠ .closeParen) := if_neg hop
        cases hmark : expressionMark? token with
        | none =>
          rw [hmark] at hnext
          refine .throwAt hs hnext ?_ rfl
          cases expecting <;> cases token <;> first | rfl | cases hop rfl
        | some mark =>
          rw [hmark] at hnext
          refine .token takesToken_next hend fun first more hfirst => ?_
          rw [hs] at hfirst
          cases hfirst
          refine .goesOn hnext (.bind (ih _ ?_) fun _ _ _ h => .pure h)
          rw [hs] at hcount
          exact Nat.le_of_succ_le_succ hcount

/-- An expression, from any stage that makes the same of its first token. -/
theorem tracks_expression (hagree : Agree q .expression s) (hfinal : q.final = false) :
    Tracks q s readExpression fun _ s' q' => s'.after = [] ∧ ∃ expecting, q' = .part expecting := by
  refine .get ?_
  rcases hs : s.after with _ | ⟨token, rest⟩
  · simp only [peek, hs, List.head?_nil]
    exact .throwAtEnd hs hfinal
  · simp only [peek, hs, List.head?_cons]
    have hpart : Agree q (.part true) s := by
      intro first hfirst
      rcases hagree first hfirst with ⟨hnext, hblame⟩
      refine ⟨hnext, hblame.trans ?_⟩
      cases first.1 <;> rfl
    refine .bind (.of_agree (by simp [hs]) hpart (fun _ _ _ h => h.1)
      (tracks_expressionTokens true (Nat.le_of_eq (by rw [hs])))) fun _ _ _ h => .pure h

/-- Without an assignment mark, the expression comes at once. -/
theorem agree_assignment (h : ∀ token ∈ s.after.head?, token.1 ≠ .punctuation .assign) :
    Agree .assignment .expression s := by
  rintro ⟨token, span⟩ htoken
  cases token with
  | punctuation mark =>
    cases mark with
    | assign => exact absurd rfl (h _ htoken)
    | _ => exact ⟨rfl, rfl⟩
  | error | keyword | identifier | number => exact ⟨rfl, rfl⟩

theorem tracks_new : Tracks (.name .assignment) s readNew
    fun _ s' q' => s'.after = [] ∧ ∃ expecting, q' = .part expecting := by
  refine .bind (.inContext _ tracks_name) fun name s q hq => ?_
  subst hq
  refine .bind (.eat rfl) fun assigned s' q' heaten => ?_
  have hexpression : Tracks q' s' (inContext .expression readExpression)
      fun _ s' q' => s'.after = [] ∧ ∃ expecting, q' = .part expecting := by
    refine .inContext _ ?_
    cases assigned with
    | false =>
      rcases heaten with ⟨rfl, rfl, hassign⟩
      exact tracks_expression (agree_assignment hassign) rfl
    | true =>
      cases heaten
      exact tracks_expression (.refl _ _) rfl
  exact .bind hexpression fun _ _ _ h => .pure h

theorem tracks_comparison :
    Tracks (.comparison after) s readComparison fun _ _ q' => q' = after := by
  refine .attempt (.token takesToken_next (fun _ => rfl) fun token rest _ => ?_)
  obtain ⟨token, span⟩ := token
  cases token with
  | punctuation mark =>
    cases mark with
    | greater | greaterEqual | less | lessEqual | equal | notEqual => exact .goesOn rfl (.pure rfl)
    | _ => exact .fails rfl rfl rfl rfl
  | error | keyword | identifier | number => exact .fails rfl rfl rfl rfl

theorem tracks_loop : Tracks (.operand (.comparison (.operand after))) s readLoop
    fun _ _ q' => q' = after := by
  refine .bind (.inContext _ (tracks_operand (Agree.refl _ _) fun _ => rfl)) fun left s q hq => ?_
  rcases hq with ⟨rfl, -⟩
  refine .bind (.inContext _ tracks_comparison) fun comparison s q hq => ?_
  subst hq
  exact .bind (.inContext _ (tracks_operand (Agree.refl _ _) fun _ => rfl)) fun _ _ _ h => .pure h.1

theorem tracks_argument : Tracks (.mark .openParen (.name (.mark .closeParen after))) s readArgument
    fun _ _ q' => q' = after := by
  refine .bind (.take (Agree.refl _ _) rfl) fun _ s q hq => ?_
  subst hq
  refine .bind (.inContext _ tracks_name) fun name s q hq => ?_
  subst hq
  exact .bind (.take (Agree.refl _ _) rfl) fun _ _ _ h => .pure h

/-- Without a name, the argument is closed at once. -/
theorem agree_argument (h : ∀ token ∈ s.after.head?, ∀ name, token.1 ≠ .identifier name) :
    Agree .argument (.mark .closeParen (.done .inputStr)) s := by
  rintro ⟨token, span⟩ htoken
  cases token with
  | identifier name => exact absurd rfl (h _ htoken name)
  | punctuation mark => cases mark <;> exact ⟨rfl, rfl⟩
  | error | keyword | number => exact ⟨rfl, rfl⟩

/-- The statement may end here, and a token that comes next would be one too many. -/
def MayEnd (s : TokenStream Token) (q : Stage) : Prop :=
  q.final = true ∧
    ∀ token ∈ s.after.head?, q.next token.1 = none ∧ q.blame token.1 = .trailingInput

theorem mayEnd_done (s : TokenStream Token) (word : Keyword) : MayEnd s (.done word) :=
  ⟨rfl, fun _ _ => ⟨rfl, rfl⟩⟩

theorem mayEnd_of_nil (hs : s.after = []) (hfinal : q.final = true) : MayEnd s q :=
  ⟨hfinal, by simp [hs]⟩

theorem mayEnd_opening (h : ∀ token ∈ s.after.head?, token.1 ≠ .punctuation .openParen) :
    MayEnd s .opening := by
  refine ⟨rfl, ?_⟩
  rintro ⟨token, span⟩ htoken
  cases token with
  | punctuation mark =>
    cases mark with
    | openParen => exact absurd rfl (h _ htoken)
    | _ => exact ⟨rfl, rfl⟩
  | error | keyword | identifier | number => exact ⟨rfl, rfl⟩

theorem tracks_inputStr : Tracks .opening s readInputStr fun _ s' q' => MayEnd s' q' := by
  refine .bind (.eat rfl) fun opened s q heaten => ?_
  cases opened with
  | false =>
    rcases heaten with ⟨rfl, rfl, hopen⟩
    exact .pure (mayEnd_opening hopen)
  | true =>
    cases heaten
    have hclose : ∀ {q : Stage} {s : TokenStream Token},
        Agree q (.mark .closeParen (.done .inputStr)) s → q.final = false → Tracks q s
          (do
            let _ ← inContext (.call .inputStr) (take (Token.punctuation .closeParen))
            return Form.inputStr) fun _ s' q' => MayEnd s' q' := by
      intro q s hagree hfinal
      refine .bind (.inContext _ (.take hagree hfinal)) fun _ s' q' hq' => ?_
      subst hq'
      exact .pure (mayEnd_done s' _)
    refine .get ?_
    -- The name is taken if there is one.
    split
    · next name span hpeek =>
      refine .token takesToken_next (fun _ => rfl) fun token rest htoken => ?_
      have hhead : s.after.head? = some (.identifier name, span) := hpeek
      rw [htoken] at hhead
      cases hhead
      exact .goesOn rfl (hclose (Agree.refl _ _) rfl)
    · next hpeek =>
      refine hclose (agree_argument ?_) rfl
      rintro ⟨token, span⟩ htoken name rfl
      exact hpeek name span htoken

/-- Behind a keyword, a reader goes to where the statement may end. Only an expression may go on
    there. -/
theorem tracks_form (source : List Char) (offset : Nat) (word : Keyword) :
    Tracks (ofKeyword word) s (readForm source offset word) fun _ s' q' =>
      MayEnd s' q' ∧ (word = .new → ∃ expecting, q' = .part expecting) := by
  have hdone : ∀ {s' : TokenStream Token} {q' : Stage} {word : Keyword}, q' = .done word →
      word ≠ .new → MayEnd s' q' ∧ (word = .new → ∃ expecting, q' = .part expecting) :=
    fun {s' _ word} hq' hword => ⟨hq' ▸ mayEnd_done s' word, fun h => absurd h hword⟩
  cases word with
  | int => exact .inContext _ (tracks_int.mono fun _ _ _ h => hdone h (by decide))
  | string =>
    refine .inContext _ ((tracks_string source offset).mono ?_)
    rintro _ s' _ ⟨hs', rfl⟩
    exact ⟨mayEnd_of_nil hs' rfl, by simp⟩
  | new =>
    refine .inContext _ (tracks_new.mono ?_)
    rintro _ s' _ ⟨hs', expecting, rfl⟩
    exact ⟨mayEnd_of_nil hs' rfl, fun _ => ⟨expecting, rfl⟩⟩
  | loop => exact .inContext _ (tracks_loop.mono fun _ _ _ h => hdone h (by decide))
  | endLoop => exact .pure (hdone rfl (by decide))
  | inputInt | outputInt | outputStr =>
    exact .bind (.inContext _ tracks_argument) fun _ _ _ h => .pure (hdone h (by decide))
  | inputStr => exact tracks_inputStr.mono fun _ _ _ h => ⟨h, by simp⟩

/-- A statement is read to its end, and to a stage where it may end. -/
theorem tracks_read (source : List Char) (offset : Nat) :
    Tracks .start s (read source offset) fun _ s' q' => s'.after = [] ∧ q'.final = true ∧
      ((∃ token ∈ s.after.head?, token.1 = .keyword .new) → ∃ expecting, q' = .part expecting) := by
  refine .token takesToken_next (fun _ => rfl) fun token rest htoken => ?_
  obtain ⟨token, span⟩ := token
  cases token with
  | keyword word =>
    refine .goesOn rfl (.bind (tracks_form source offset word) fun form s' q' hform => ?_)
    rcases hform with ⟨⟨hfinal, hend⟩, hnew⟩
    refine .bind (.expectEnd hend) fun _ s'' q'' h => ?_
    rcases h with ⟨hs'', rfl⟩
    refine .pure ⟨hs'', hfinal, ?_⟩
    rw [htoken]
    rintro ⟨_, ⟨⟩, hword⟩
    exact hnew (Token.keyword.inj hword)
  | error | identifier | number | punctuation => exact .fails rfl rfl rfl rfl

end Readers

/-- A text that is not read as a statement is one that a reader is stuck on. -/
theorem parse?_stuck {source : List Char} {offset : Nat} {e : ParseError}
    (h : parse? source offset = .error e) :
    Stuck .start (Token.scan offset source) (offset + Text.byteLength source) e := by
  rcases runOn_parse? source offset with ⟨s, hrun⟩
  rw [h] at hrun
  exact (tracks_read source offset).error s e hrun

/-- The error of a text is at a part of it. -/
theorem parse?_error_covers {source : List Char} {offset : Nat} {e : ParseError}
    (h : parse? source offset = .error e) : ∃ word, e.span.Covers offset source word := by
  cases parse?_stuck h with
  | atEnd _ _ _ hspan =>
    -- The end is the empty part behind the last character.
    rw [hspan]
    exact ⟨[], source, [], by simp, rfl, rfl⟩
  | atToken htokens _ _ _ hspan =>
    rw [hspan]
    exact (Token.covers_of_mem_scan (htokens ▸ by simp)).imp fun word hword => hword.1

end Statement

end AccumulatorMachine
