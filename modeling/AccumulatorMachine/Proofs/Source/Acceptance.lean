import AccumulatorMachine.Proofs.Source.Grammar
import AccumulatorMachine.Proofs.Source.Language

/-!
# Accepted Statements

The reader of statements accepts what the grammar says, and reads what it means.

The languages of the readers are found one by one, from those of names and literals up to that of
a whole statement. Two of them are not about tokens alone. Reading the parts of an expression stops
when there have been as many parts as there are tokens, which never stops it early. And the text of
a string is cut off at the place of the name in front of it, which is right because a token stands
where its characters are.

## Theorems

* `Statement.accepts_operand`, `Statement.accepts_expression`: The languages of operands and
  expressions.
* `Statement.accepts_form`: What may follow a keyword.
* `Statement.parse?_eq_ok_iff`: The statement that a text holds is what its tokens denote.
* `Statement.parse?_exact`: A text holds a statement if its tokens denote one, and then this one.
-/

namespace AccumulatorMachine

namespace Statement

open TokenStream (Accepts AcceptsAt)

open Source

theorem accepts_name : Accepts readName fun tokens rest name =>
    tokens = (.identifier name.1, name.2) :: rest := by
  refine .attempt (.next (by simp) fun token span => ?_)
  cases token with
  | identifier name => exact .pure fun tokens rest b => by simp [Prod.ext_iff]
  | error | keyword | number | punctuation => exact .throw (by simp)

theorem accepts_literalValue (negative : Bool) (digits : String) (span : Span) :
    Accepts (literalValue negative digits span) fun tokens rest value =>
      Word.InRange value ∧ (if negative then -number digits else number digits) = value ∧
        tokens = rest := by
  rw [literalValue]
  cases hvalue : Word.checked
      (if negative then -(Nat.ofDigitChars 10 digits.toList 0 : Int)
        else Nat.ofDigitChars 10 digits.toList 0) with
  | none =>
    refine .throw fun tokens rest value h => ?_
    rcases h with ⟨hrange, rfl, -⟩
    exact Word.checked_eq_none_iff.mp hvalue hrange
  | some value =>
    rcases Word.checked_eq_some_iff.mp hvalue with ⟨heq, hrange⟩
    refine .pure fun tokens rest other => ?_
    rw [number, heq]
    constructor
    · exact fun h => h.2
    · rintro ⟨rfl, rfl⟩
      exact ⟨heq ▸ hrange, rfl, rfl⟩

theorem accepts_operand : Accepts readOperand fun tokens rest operand =>
    ∃ read, tokens = read ++ rest ∧ IsOperand read operand.1 operand.2 := by
  simp only [isOperand_iff]
  refine .attempt (.next (by simp) fun token span => ?_)
  -- The first token decides which of the three kinds of operands it can be. Only behind a minus
  -- sign does a second one have a say.
  cases token with
  | identifier name =>
    refine .pure fun tokens rest b => ?_
    obtain ⟨operand, place⟩ := b
    constructor
    · rintro (⟨_, rfl, ⟨⟩⟩ | ⟨_, -, -, ⟨⟩⟩ | ⟨_, _, _, -, -, -, ⟨⟩⟩)
      exact ⟨rfl, rfl⟩
    · rintro ⟨⟨⟩, rfl⟩
      exact Or.inl ⟨name, rfl, rfl⟩
  | number digits =>
    refine .bind (accepts_literalValue false digits span)
      (fun value => .pure fun _ _ _ => Iff.rfl) fun tokens rest b => ?_
    obtain ⟨operand, place⟩ := b
    constructor
    · rintro (⟨_, -, ⟨⟩⟩ | ⟨_, h, rfl, ⟨⟩⟩ | ⟨_, _, _, -, -, -, ⟨⟩⟩)
      exact ⟨_, _, ⟨h, rfl, rfl⟩, rfl, rfl⟩
    · rintro ⟨_, _, ⟨h, rfl, rfl⟩, ⟨⟩, rfl⟩
      exact Or.inr (Or.inl ⟨digits, h, rfl, rfl⟩)
  | punctuation mark =>
    cases mark with
    | minus =>
      refine .next (by simp) fun token last => ?_
      cases token with
      | number digits =>
        refine .bind (accepts_literalValue true digits last)
          (fun value => .pure fun _ _ _ => Iff.rfl) fun tokens rest b => ?_
        obtain ⟨operand, place⟩ := b
        constructor
        · rintro (⟨_, -, ⟨⟩⟩ | ⟨_, -, -, ⟨⟩⟩ | ⟨_, _, _, h, rfl, rfl, ⟨⟩⟩)
          exact ⟨_, _, ⟨h, rfl, rfl⟩, rfl, rfl⟩
        · rintro ⟨_, _, ⟨h, rfl, rfl⟩, ⟨⟩, rfl⟩
          exact Or.inr (Or.inr ⟨digits, span, last, h, rfl, rfl, rfl⟩)
      | error | keyword | identifier | punctuation => exact .throw (by simp)
    | _ => exact .throw (by simp)
  | error | keyword => exact .throw (by simp)

theorem expressionMark?_eq_some_iff {token : Token} {mark : ExpressionToken} :
    expressionMark? token = some mark ↔ IsMark token mark := by
  constructor
  · intro h
    unfold expressionMark? at h
    split at h <;> cases h <;> constructor
  · intro h
    cases h <;> rfl

/-- A token that starts an operand is no mark, except for the minus sign. -/
theorem eq_minus_of_startsOperand {token : Token} {mark : ExpressionToken}
    (h : startsOperand token = true) (hmark : IsMark token mark) : token = .punctuation .minus := by
  cases hmark with
  | minus => rfl
  | plus | star | slash | openParen | closeParen => cases h

theorem startsOperand_of_isOperand {token : Token} {place span : Span}
    {read : List (Token × Span)} {operand : Operand}
    (h : IsOperand ((token, place) :: read) operand span) : startsOperand token = true := by
  cases h with
  | name => rfl
  | literal h => cases h <;> rfl

/-- A part of an expression where an operand is expected and a token starts one. -/
theorem scans_operand_iff {token : Token} {span : Span} {after : List (Token × Span)}
    {parts : List (ExpressionToken × Span)} (h : startsOperand token = true) :
    Scans true ((token, span) :: after) parts ↔ ∃ read rest operand place more,
      (token, span) :: after = read ++ rest ∧ IsOperand read operand place ∧
        Scans false rest more ∧ parts = (.operand operand, place) :: more := by
  constructor
  · intro hscans
    cases hscans with
    | operand htokens hop hrest => exact ⟨_, _, _, _, _, htokens, hop, hrest, rfl⟩
    | mark hmark hminus hrest => exact absurd (eq_minus_of_startsOperand h hmark) (hminus rfl)
  · rintro ⟨read, rest, operand, place, more, htokens, hop, hrest, rfl⟩
    exact .operand htokens hop hrest

/-- A part of an expression everywhere else. -/
theorem scans_mark_iff {expecting : Bool} {token : Token} {span : Span}
    {after : List (Token × Span)} {parts : List (ExpressionToken × Span)}
    (h : ¬ (expecting && startsOperand token) = true) :
    Scans expecting ((token, span) :: after) parts ↔ ∃ mark more, IsMark token mark ∧
      Scans (mark ≠ .closeParen) after more ∧ parts = (mark, span) :: more := by
  constructor
  · intro hscans
    cases hscans with
    | @operand _ read _ _ _ _ htokens hop hrest =>
      cases read with
      | nil => exact absurd hop.length_pos (Nat.lt_irrefl 0)
      | cons first read =>
        cases htokens
        exact absurd (startsOperand_of_isOperand hop) h
    | mark hmark hminus hrest => exact ⟨_, _, hmark, hrest, rfl⟩
  · rintro ⟨mark, more, hmark, hrest, rfl⟩
    refine .mark hmark (fun hexpecting htoken => h ?_) hrest
    rw [hexpecting, htoken]
    rfl

/-- Tokens of an expression from the front, up to the last one or until there are enough parts. -/
def ScansUpTo (count : Nat) (expecting : Bool) (tokens rest : List (Token × Span))
    (parts : List (ExpressionToken × Span)) : Prop :=
  ∃ read, tokens = read ++ rest ∧ Scans expecting read parts ∧ parts.length ≤ count ∧
    (rest = [] ∨ parts.length = count)

theorem scansUpTo_zero {expecting : Bool} {tokens rest : List (Token × Span)}
    {parts : List (ExpressionToken × Span)} :
    ScansUpTo 0 expecting tokens rest parts ↔ [] = parts ∧ tokens = rest := by
  constructor
  · rintro ⟨read, rfl, hscans, hle, -⟩
    have hparts := List.length_eq_zero_iff.mp (Nat.le_zero.mp hle)
    rw [hparts] at hscans
    cases hscans
    exact ⟨hparts.symm, rfl⟩
  · rintro ⟨rfl, rfl⟩
    exact ⟨[], rfl, .done expecting, Nat.le_refl 0, Or.inr rfl⟩

theorem scansUpTo_nil {count : Nat} {expecting : Bool} {rest : List (Token × Span)}
    {parts : List (ExpressionToken × Span)} :
    ScansUpTo count expecting [] rest parts ↔ [] = parts ∧ [] = rest := by
  constructor
  · rintro ⟨read, hread, hscans, -, -⟩
    rcases List.nil_eq_append_iff.mp hread with ⟨rfl, rfl⟩
    exact ⟨(List.length_eq_zero_iff.mp (Nat.le_zero.mp hscans.length_le)).symm, rfl⟩
  · rintro ⟨rfl, rfl⟩
    exact ⟨[], rfl, .done expecting, Nat.zero_le _, Or.inl rfl⟩

/-- If there is a token left and parts are wanted, the token is read. -/
theorem ScansUpTo.read_cons {count : Nat} {expecting : Bool} {token : Token × Span}
    {after rest : List (Token × Span)} {parts : List (ExpressionToken × Span)}
    (h : ScansUpTo (count + 1) expecting (token :: after) rest parts) :
    ∃ more, after = more ++ rest ∧ Scans expecting (token :: more) parts := by
  rcases h with ⟨read, htokens, hscans, -, hrest⟩
  cases read with
  | nil =>
    rcases hrest with rfl | hlength
    · cases htokens
    · exact absurd hscans.length_le (by simp [hlength])
  | cons first read =>
    cases htokens
    exact ⟨read, rfl, hscans⟩

theorem scansUpTo_operand {count : Nat} {token : Token} {span : Span}
    {after rest : List (Token × Span)} {parts : List (ExpressionToken × Span)}
    (hstart : startsOperand token = true) :
    ScansUpTo (count + 1) true ((token, span) :: after) rest parts ↔
      ∃ (mid : List (Token × Span)) (operand : Operand × Span), (∃ read,
        (token, span) :: after = read ++ mid ∧ IsOperand read operand.1 operand.2) ∧
        ∃ last more, ScansUpTo count false mid last more ∧
          (.operand operand.1, operand.2) :: more = parts ∧ last = rest := by
  constructor
  · intro h
    rcases h.read_cons with ⟨others, rfl, hscans⟩
    rcases (scans_operand_iff hstart).mp hscans with
      ⟨first, second, operand, place, more, heq, hoperand, hmore, rfl⟩
    rcases h with ⟨-, -, -, hle, hrest⟩
    refine ⟨second ++ rest, ⟨operand, place⟩, ⟨first, ?_, hoperand⟩, rest, more,
      ⟨second, rfl, hmore, Nat.le_of_succ_le_succ hle, by simpa using hrest⟩, rfl, rfl⟩
    rw [← List.append_assoc, ← heq]
    rfl
  · rintro ⟨mid, ⟨operand, place⟩, ⟨first, htokens, hoperand⟩, _, more,
      ⟨second, rfl, hmore, hle, hrest⟩, rfl, rfl⟩
    exact ⟨first ++ second, by rw [List.append_assoc]; exact htokens,
      .operand rfl hoperand hmore, Nat.succ_le_succ hle, by simpa using hrest⟩

theorem scansUpTo_mark {count : Nat} {expecting : Bool} {token : Token} {span : Span}
    {after rest : List (Token × Span)} {parts : List (ExpressionToken × Span)}
    (hop : ¬ (expecting && startsOperand token) = true) :
    ScansUpTo (count + 1) expecting ((token, span) :: after) rest parts ↔ ∃ mark more,
      IsMark token mark ∧ ScansUpTo count (mark ≠ .closeParen) after rest more ∧
        (mark, span) :: more = parts := by
  constructor
  · intro h
    rcases h.read_cons with ⟨others, rfl, hscans⟩
    rcases (scans_mark_iff hop).mp hscans with ⟨mark, more, hmark, hmore, rfl⟩
    rcases h with ⟨-, -, -, hle, hrest⟩
    exact ⟨mark, more, hmark,
      ⟨others, rfl, hmore, Nat.le_of_succ_le_succ hle, by simpa using hrest⟩, rfl⟩
  · rintro ⟨mark, more, hmark, ⟨read, rfl, hmore, hle, hrest⟩, rfl⟩
    exact ⟨(token, span) :: read, rfl, (scans_mark_iff hop).mpr ⟨mark, more, hmark, hmore, rfl⟩,
      Nat.succ_le_succ hle, by simpa using hrest⟩

theorem accepts_expressionTokens (count : Nat) (expecting : Bool) :
    Accepts (readExpressionTokens count expecting) (ScansUpTo count expecting) := by
  induction count generalizing expecting with
  | zero => exact .pure fun tokens rest parts => scansUpTo_zero
  | succ count ih =>
    rintro ⟨before, _ | ⟨⟨token, span⟩, after⟩, stop⟩
    · exact .get (.pure fun rest parts => scansUpTo_nil)
    · refine .get ?_
      simp only [TokenStream.peek, List.head?_cons]
      -- A minus sign belongs to a literal where an operand is expected, and is a mark elsewhere.
      by_cases hop : (expecting && startsOperand token) = true
      · rw [if_pos hop]
        rw [Bool.and_eq_true] at hop
        rcases hop with ⟨rfl, hstart⟩
        exact .bind (accepts_operand _) (fun operand => .bind (ih false)
          (fun parts => .pure fun _ _ _ => Iff.rfl) fun _ _ _ => Iff.rfl)
          fun rest parts => scansUpTo_operand hstart
      · rw [if_neg hop]
        cases hmark : expressionMark? token with
        | none =>
          refine .throw fun rest parts h => ?_
          rcases (scansUpTo_mark hop).mp h with ⟨mark, more, hsome, -⟩
          rw [expressionMark?_eq_some_iff.mpr hsome] at hmark
          cases hmark
        | some mark =>
          refine .bind (Accepts.token _) (fun _ => .bind (ih _)
            (fun parts => .pure fun _ _ _ => Iff.rfl) fun _ _ _ => Iff.rfl)
            fun rest parts => ?_
          rw [scansUpTo_mark hop]
          constructor
          · rintro ⟨other, more, hother, hmore, hparts⟩
            rw [expressionMark?_eq_some_iff.mpr hother] at hmark
            cases hmark
            exact ⟨after, _, rfl, rest, more, hmore, hparts, rfl⟩
          · rintro ⟨_, _, ⟨⟩, _, more, hmore, hparts, rfl⟩
            exact ⟨mark, more, expressionMark?_eq_some_iff.mp hmark, hmore, hparts⟩

/-- The first part of an expression starts where its first token does. -/
theorem head_of_scans {expecting : Bool} {token : Token × Span} {tokens : List (Token × Span)}
    {parts : List (ExpressionToken × Span)} (h : Scans expecting (token :: tokens) parts) :
    ∃ first, parts.head? = some first ∧ first.2.start = token.2.start := by
  cases h with
  | operand htokens hop hrest =>
    refine ⟨_, rfl, ?_⟩
    cases hop with
    | name =>
      cases htokens
      rfl
    | literal hliteral => cases hliteral <;> cases htokens <;> rfl
  | mark hmark hminus hrest => exact ⟨_, rfl, rfl⟩

/-- An expression goes on to the last token. -/
theorem accepts_expression : Accepts readExpression fun tokens rest e =>
    rest = [] ∧ IsExpression tokens e := by
  rintro ⟨before, _ | ⟨token, after⟩, stop⟩
  · refine .get (.throw ?_)
    rintro rest e ⟨-, hscans, first, last, hfirst, -⟩
    rw [List.length_eq_zero_iff.mp (Nat.le_zero.mp hscans.length_le)] at hfirst
    cases hfirst
  · refine .get (.bind (accepts_expressionTokens _ true _) (fun parts => .pure fun _ _ _ => Iff.rfl)
      fun rest e => ⟨?_, ?_⟩)
    · rintro ⟨rfl, hscans, first, last, hfirst, hlast, hspan⟩
      refine ⟨[], e.tokens, ⟨_, (List.append_nil _).symm, hscans, hscans.length_le, Or.inl rfl⟩,
        ?_, rfl⟩
      rcases head_of_scans hscans with ⟨head, hhead, hstart⟩
      rw [hfirst] at hhead
      cases hhead
      obtain ⟨parts, span⟩ := e
      simp only at hlast hspan
      simp only [hlast, Option.map_some, Option.getD_some, hspan, hstart]
    · rintro ⟨left, parts, hparts, rfl, rfl⟩
      rcases ScansUpTo.read_cons hparts with ⟨more, rfl, hscans⟩
      rcases hparts with ⟨-, -, -, -, hrest⟩
      -- There are as many parts as tokens at most, so none of the tokens is left.
      have hnil : left = [] := by
        rcases hrest with hrest | hlength
        · exact hrest
        · have hle := hscans.length_le
          simp only [List.length_cons, List.length_append] at hle hlength
          exact List.length_eq_zero_iff.mp (by omega)
      rw [hnil, List.append_nil]
      rcases head_of_scans hscans with ⟨first, hfirst, hstart⟩
      refine ⟨rfl, hscans, first, ?_⟩
      cases hlast : parts.getLast? with
      | none =>
        rw [List.getLast?_eq_none_iff.mp hlast] at hfirst
        cases hfirst
      | some last => exact ⟨last, hfirst, rfl, by rw [hstart]; rfl⟩

theorem accepts_int : Accepts readInt fun tokens rest form => ∃ name place read spelling value span,
    tokens = (.identifier name, place) :: (read ++ rest) ∧
      IsLiteral read spelling value span ∧ form = .int name value := by
  refine .bind (M := fun name tokens rest form => ∃ read spelling value span,
    tokens = read ++ rest ∧ IsLiteral read spelling value span ∧ form = .int name.1 value)
    (.inContext _ accepts_name) (fun name => ?_) fun tokens rest form => ?_
  · -- A minus sign decides how the digits behind it are valued.
    refine .bind (M := fun negative tokens rest form => ∃ digits span,
      tokens = (.number digits, span) :: rest ∧
        Word.InRange (if negative then -number digits else number digits) ∧
        form = .int name.1 (if negative then -number digits else number digits))
      (.eat _) (fun negative => .nextIn (by simp) fun token span => ?_)
      fun tokens rest form => ⟨?_, ?_⟩
    · cases token with
      | number digits =>
        refine .bind (accepts_literalValue negative digits span)
          (fun value => .pure fun _ _ _ => Iff.rfl) fun tokens rest form => ⟨?_, ?_⟩
        · rintro ⟨_, _, ⟨⟩, h, rfl⟩
          exact ⟨_, _, ⟨h, rfl, rfl⟩, rfl, rfl⟩
        · rintro ⟨_, _, ⟨h, rfl, rfl⟩, rfl, rfl⟩
          exact ⟨digits, span, rfl, h, rfl⟩
      | error | keyword | identifier | punctuation => exact .throw (by simp)
    · rintro ⟨_, _, _, _, rfl, hliteral, rfl⟩
      cases hliteral with
      | plain h => exact ⟨_, false, ⟨rfl, by simp⟩, _, _, rfl, h, rfl⟩
      | signed h => exact ⟨_, true, ⟨_, rfl⟩, _, _, rfl, h, rfl⟩
    · rintro ⟨_, negative, heaten, digits, span, rfl, h, rfl⟩
      cases negative with
      | false => exact ⟨_, _, _, _, heaten.1, .plain h, rfl⟩
      | true =>
        rcases heaten with ⟨sign, rfl⟩
        exact ⟨_, _, _, _, rfl, .signed h, rfl⟩
  · constructor
    · rintro ⟨name, place, read, spelling, value, span, rfl, h, rfl⟩
      exact ⟨_, (name, place), rfl, read, spelling, value, span, rfl, h, rfl⟩
    · rintro ⟨_, name, rfl, read, spelling, value, span, rfl, h, rfl⟩
      exact ⟨_, _, read, spelling, value, span, rfl, h, rfl⟩

theorem accepts_string (text : List Char) (offset : Nat) :
    Accepts (readString text offset) fun tokens rest form => rest = [] ∧ ∃ name place more,
      tokens = (.identifier name, place) :: more ∧
        form = .string name (stringText (Text.dropBytes (place.stop - offset) text)) := by
  refine .bind (.inContext _ accepts_name) (fun name => .bind .rest
    (fun _ => .pure fun _ _ _ => Iff.rfl) fun _ _ _ => Iff.rfl) fun tokens rest form => ⟨?_, ?_⟩
  · rintro ⟨rfl, name, place, more, rfl, rfl⟩
    exact ⟨more, (name, place), rfl, _, more, ⟨rfl, rfl⟩, rfl, rfl⟩
  · rintro ⟨_, ⟨name, place⟩, rfl, _, more, ⟨rfl, rfl⟩, rfl, rfl⟩
    exact ⟨rfl, name, place, _, rfl, rfl⟩

theorem dropBytes_stop {text front back : List Char} {offset stop : Nat}
    (htext : text = front ++ back) (hstop : stop = offset + Text.byteLength front) :
    Text.dropBytes (stop - offset) text = back := by
  rw [htext, hstop, Nat.add_sub_cancel_left, Text.dropBytes_append]

/-- What may follow the keyword of a string, with the text behind the name found by its place. -/
theorem follows_string_iff {text : List Char} {offset : Nat} {tokens : List (Token × Span)}
    {form : Form} (hplaces : ∀ token ∈ tokens, ∃ word, token.2.Covers offset text word) :
    (∃ name place more, tokens = (.identifier name, place) :: more ∧
        form = .string name (stringText (Text.dropBytes (place.stop - offset) text))) ↔
      Follows text offset .string tokens form := by
  constructor
  · rintro ⟨name, place, more, rfl, rfl⟩
    rcases hplaces _ List.mem_cons_self with ⟨word, front, back, htext, -, hstop⟩
    have hplace : place.stop = offset + Text.byteLength (front ++ word) := by
      rw [Text.byteLength_append, ← Nat.add_assoc]
      exact hstop
    rcases exists_isBody back with ⟨body, hbody⟩
    rw [dropBytes_stop htext hplace, hbody.stringText_eq]
    exact .string htext hplace hbody
  · intro h
    cases h with
    | string htext hplace hbody =>
      refine ⟨_, _, _, rfl, ?_⟩
      rw [dropBytes_stop htext hplace, hbody.stringText_eq]

theorem not_isExpression_assign {mark : Span} {tokens : List (Token × Span)} {e : Expression} :
    ¬ IsExpression ((.punctuation .assign, mark) :: tokens) e := by
  rintro ⟨hscans, -⟩
  rcases (scans_mark_iff (by decide)).mp hscans with ⟨_, _, hmark, -⟩
  cases hmark

theorem accepts_new : Accepts readNew fun tokens rest form => rest = [] ∧ ∃ name place more e,
    tokens = (.identifier name, place) :: more ∧ form = .new name e ∧ (IsExpression more e ∨
      ∃ mark others, more = (.punctuation .assign, mark) :: others ∧ IsExpression others e) := by
  refine .bind (.inContext _ accepts_name) (fun name => .bind (.eat _) (fun assigned => .bind
    (.inContext _ accepts_expression) (fun e => .pure fun _ _ _ => Iff.rfl) fun _ _ _ => Iff.rfl)
    fun _ _ _ => Iff.rfl) fun tokens rest form => ⟨?_, ?_⟩
  · rintro ⟨rfl, name, place, more, e, rfl, rfl, h | ⟨mark, others, rfl, h⟩⟩
    · refine ⟨more, (name, place), rfl, more, false, ⟨rfl, ?_⟩, [], e, ⟨rfl, h⟩, rfl, rfl⟩
      -- An expression does not begin with the assignment mark, so there is none to be eaten.
      rintro ⟨token, mark⟩ htoken rfl
      cases more with
      | nil => cases htoken
      | cons first others =>
        cases htoken
        exact not_isExpression_assign h
    · exact ⟨_, (name, place), rfl, others, true, ⟨mark, rfl⟩, [], e, ⟨rfl, h⟩, rfl, rfl⟩
  · rintro ⟨more, ⟨name, place⟩, rfl, others, assigned, heaten, _, e, ⟨rfl, h⟩, rfl, rfl⟩
    cases assigned with
    | false => exact ⟨rfl, name, place, more, e, rfl, rfl, Or.inl (heaten.1 ▸ h)⟩
    | true =>
      rcases heaten with ⟨mark, rfl⟩
      exact ⟨rfl, name, place, _, e, rfl, rfl, Or.inr ⟨mark, others, rfl, h⟩⟩

theorem accepts_comparison : Accepts readComparison fun tokens rest comparison =>
    ∃ mark place, tokens = (.punctuation mark, place) :: rest ∧ IsComparison mark comparison := by
  refine .attempt (.next (by simp) fun token span => ?_)
  cases token with
  | punctuation mark =>
    have hiff : ∀ {tokens rest : List (Token × Span)} {comparison : Comparison},
        (∃ other place,
            (Token.punctuation mark, span) :: tokens = (.punctuation other, place) :: rest
              ∧ IsComparison other comparison) ↔
          IsComparison mark comparison ∧ tokens = rest := by
      intro tokens rest comparison
      constructor
      · rintro ⟨_, _, ⟨⟩, h⟩
        exact ⟨h, rfl⟩
      · rintro ⟨h, rfl⟩
        exact ⟨mark, span, rfl, h⟩
    simp only [hiff]
    cases mark with
    | greater | greaterEqual | less | lessEqual | equal | notEqual =>
      refine .pure fun tokens rest comparison => and_congr_left fun _ => ⟨?_, ?_⟩
      · intro h
        cases h
        rfl
      · rintro rfl
        constructor
    | _ => exact .throw (by rintro _ _ _ ⟨⟨⟩, -⟩)
  | error | keyword | identifier | number => exact .throw (by simp)

theorem accepts_loop : Accepts readLoop fun tokens rest form =>
    ∃ leftTokens rightTokens left right leftSpan place rightSpan mark comparison,
      tokens = leftTokens ++ (.punctuation mark, place) :: (rightTokens ++ rest) ∧
        IsOperand leftTokens left leftSpan ∧ IsComparison mark comparison ∧
        IsOperand rightTokens right rightSpan ∧ form = .loop left comparison right := by
  refine .bind (.inContext _ accepts_operand) (fun left => .bind (.inContext _ accepts_comparison)
    (fun comparison => .bind (.inContext _ accepts_operand)
      (fun right => .pure fun _ _ _ => Iff.rfl) fun _ _ _ => Iff.rfl)
    fun _ _ _ => Iff.rfl) fun tokens rest form => ⟨?_, ?_⟩
  · rintro ⟨first, last, left, right, leftSpan, place, rightSpan, mark, comparison, rfl, hleft,
      hmark, hright, rfl⟩
    exact ⟨_, (left, leftSpan), ⟨first, rfl, hleft⟩, _, comparison, ⟨mark, place, rfl, hmark⟩, _,
      (right, rightSpan), ⟨last, rfl, hright⟩, rfl, rfl⟩
  · rintro ⟨_, ⟨left, leftSpan⟩, ⟨first, rfl, hleft⟩, _, comparison, ⟨mark, place, rfl, hmark⟩, _,
      ⟨right, rightSpan⟩, ⟨last, rfl, hright⟩, rfl, rfl⟩
    exact ⟨first, last, left, right, leftSpan, place, rightSpan, mark, comparison, rfl, hleft,
      hmark, hright, rfl⟩

theorem accepts_argument : Accepts readArgument fun tokens rest name =>
    ∃ read, tokens = read ++ rest ∧ IsArgument read name := by
  refine .bind (.take _) (fun _ => .bind (.inContext _ accepts_name) (fun name => .bind (.take _)
    (fun _ => .pure fun _ _ _ => Iff.rfl) fun _ _ _ => Iff.rfl) fun _ _ _ => Iff.rfl)
    fun tokens rest name => ⟨?_, ?_⟩
  · rintro ⟨_, rfl, ⟨⟩⟩
    exact ⟨_, _, rfl, _, (name, _), rfl, _, _, rfl, rfl, rfl⟩
  · rintro ⟨_, first, rfl, _, ⟨_, place⟩, rfl, _, last, rfl, rfl, rfl⟩
    exact ⟨_, rfl, .parens⟩

theorem accepts_inputStr : Accepts readInputStr fun tokens rest form => form = .inputStr ∧
    ((tokens = rest ∧ ∀ token ∈ tokens.head?, token.1 ≠ .punctuation .openParen) ∨
      (∃ first last, tokens
        = (.punctuation .openParen, first) :: (.punctuation .closeParen, last) :: rest) ∨
      ∃ read name, tokens = read ++ rest ∧ IsArgument read name) := by
  refine .bind (M := fun opened tokens rest form => form = .inputStr ∧
    if opened then ((∃ last, tokens = (.punctuation .closeParen, last) :: rest) ∨
      ∃ name place last, tokens
        = (.identifier name, place) :: (.punctuation .closeParen, last) :: rest)
    else tokens = rest) (.eat _) (fun opened => ?_) fun tokens rest form => ⟨?_, ?_⟩
  · cases opened with
    | false => exact .pure fun tokens rest form => by simp [eq_comm]
    | true =>
      have hclose : Accepts
          (do
            let _ ← TokenStream.inContext (.call .inputStr)
              (TokenStream.take (Token.punctuation .closeParen))
            return Form.inputStr)
          fun tokens rest form => form = .inputStr ∧
            ∃ last, tokens = (.punctuation .closeParen, last) :: rest := by
        refine .bind (.inContext _ (.take _)) (fun _ => .pure fun _ _ _ => Iff.rfl)
          fun tokens rest form => ⟨?_, ?_⟩
        · rintro ⟨rfl, last, rfl⟩
          exact ⟨rest, last, rfl, rfl, rfl⟩
        · rintro ⟨_, last, rfl, rfl, rfl⟩
          exact ⟨rfl, last, rfl⟩
      rintro ⟨before, _ | ⟨⟨token, span⟩, after⟩, stop⟩
      · exact AcceptsAt.get ((hclose _).congr fun rest form => by simp)
      · refine AcceptsAt.get ?_
        cases token with
        | identifier name =>
          -- The name is passed over.
          refine AcceptsAt.congr (hclose ⟨(.identifier name, span) :: before, after, stop⟩)
            fun rest form => ?_
          simp
        | error | keyword | number | punctuation =>
          exact (hclose _).congr fun rest form => by simp
  · rintro ⟨rfl, ⟨rfl, hnone⟩ | ⟨first, last, rfl⟩ | ⟨_, name, rfl, ⟨⟩⟩⟩
    · exact ⟨tokens, false, ⟨rfl, hnone⟩, rfl, rfl⟩
    · exact ⟨_, true, ⟨first, rfl⟩, rfl, Or.inl ⟨last, rfl⟩⟩
    · exact ⟨_, true, ⟨_, rfl⟩, rfl, Or.inr ⟨name, _, _, rfl⟩⟩
  · rintro ⟨mid, opened, heaten, rfl, hrest⟩
    refine ⟨rfl, ?_⟩
    cases opened with
    | false => exact Or.inl ⟨heaten.1.trans hrest, heaten.2⟩
    | true =>
      rcases heaten with ⟨first, rfl⟩
      rcases hrest with ⟨last, rfl⟩ | ⟨name, place, last, rfl⟩
      · exact Or.inr (Or.inl ⟨first, last, rfl⟩)
      · exact Or.inr (Or.inr ⟨_, name, rfl, .parens⟩)

/-- What a reader accepts after a keyword, if it is to leave no tokens. -/
theorem accepts_form (text : List Char) (offset : Nat) (keyword : Keyword) :
    ∃ L, Accepts (readForm text offset keyword) L ∧ ∀ tokens form,
      (∀ token ∈ tokens, ∃ word, token.2.Covers offset text word) →
        (L tokens [] form ↔ Follows text offset keyword tokens form) := by
  -- A keyword stands for one rule of the grammar, which its reader goes through part by part. Some
  -- rules have variants, and there the reader and the grammar branch at the same token.
  cases keyword with
  | int =>
    refine ⟨_, .inContext _ accepts_int, fun tokens form _ => ⟨?_, ?_⟩⟩
    · rintro ⟨name, place, read, spelling, value, span, rfl, h, rfl⟩
      rw [List.append_nil]
      exact .int h
    · rintro ⟨h⟩
      exact ⟨_, _, _, _, _, _, by rw [List.append_nil], h, rfl⟩
  | string =>
    -- The text of a string is cut out of the statement, so the places of the tokens matter.
    exact ⟨_, .inContext _ (accepts_string text offset), fun tokens form hplaces =>
      (and_iff_right rfl).trans (follows_string_iff hplaces)⟩
  | new =>
    refine ⟨_, .inContext _ accepts_new, fun tokens form _ => ⟨?_, ?_⟩⟩
    · rintro ⟨-, name, place, more, e, rfl, rfl, h | ⟨mark, others, rfl, h⟩⟩
      · exact .new h
      · exact .newAssign h
    · intro h
      cases h with
      | new h => exact ⟨rfl, _, _, _, _, rfl, rfl, Or.inl h⟩
      | newAssign h => exact ⟨rfl, _, _, _, _, rfl, rfl, Or.inr ⟨_, _, rfl, h⟩⟩
  | loop =>
    refine ⟨_, .inContext _ accepts_loop, fun tokens form _ => ⟨?_, ?_⟩⟩
    · rintro ⟨_, _, _, _, _, _, _, _, _, rfl, hleft, hmark, hright, rfl⟩
      rw [List.append_nil]
      exact .loop hleft hmark hright
    · intro h
      cases h with
      | loop hleft hmark hright =>
        exact ⟨_, _, _, _, _, _, _, _, _, by rw [List.append_nil], hleft, hmark, hright, rfl⟩
  | endLoop =>
    refine ⟨_, .pure fun _ _ _ => Iff.rfl, fun tokens form _ => ⟨?_, ?_⟩⟩
    · rintro ⟨rfl, rfl⟩
      exact .endLoop
    · rintro ⟨⟩
      exact ⟨rfl, rfl⟩
  | inputInt | outputInt | outputStr =>
    -- These three have the same argument and differ in what they say about it.
    refine ⟨_, .bind (.inContext _ accepts_argument) (fun name => .pure fun _ _ _ => Iff.rfl)
      fun _ _ _ => Iff.rfl, fun tokens form _ => ⟨?_, ?_⟩⟩
    · rintro ⟨_, name, ⟨read, rfl, h⟩, rfl, rfl⟩
      rw [List.append_nil]
      constructor
      exact h
    · rintro ⟨⟩
      exact ⟨[], _, ⟨_, by rw [List.append_nil], ‹IsArgument _ _›⟩, rfl, rfl⟩
  | inputStr =>
    refine ⟨_, accepts_inputStr, fun tokens form _ => ⟨?_, ?_⟩⟩
    · rintro ⟨rfl, ⟨rfl, -⟩ | ⟨first, last, rfl⟩ | ⟨read, name, rfl, h⟩⟩
      · exact .inputStr
      · exact .inputStrParens
      · rw [List.append_nil]
        exact .inputStrArgument h
    · intro h
      cases h with
      | inputStr => exact ⟨rfl, Or.inl ⟨rfl, by simp⟩⟩
      | inputStrParens => exact ⟨rfl, Or.inr (Or.inl ⟨_, _, rfl⟩)⟩
      | inputStrArgument h => exact ⟨rfl, Or.inr (Or.inr ⟨_, _, by rw [List.append_nil], h⟩)⟩

/-- A statement is read from all tokens. -/
theorem accepts_read {text : List Char} {offset : Nat} {s : TokenStream Token}
    (hplaces : ∀ token ∈ s.after, ∃ word, token.2.Covers offset text word) :
    s.AcceptsAt (read text offset) fun rest statement =>
      rest = [] ∧ Denotes text offset s.after statement := by
  obtain ⟨before, _ | ⟨⟨token, span⟩, after⟩, stop⟩ := s
  · exact .next_nil (by rintro _ _ ⟨-, ⟨⟩⟩)
  · refine .next ?_
    cases token with
    | keyword word =>
      rcases accepts_form text offset word with ⟨L, hL, hfollows⟩
      refine .bind (hL _) (fun form => .bind .expectEnd (fun _ => .pure fun _ _ _ => Iff.rfl)
        fun _ _ _ => Iff.rfl) fun rest statement => ?_
      have hiff := fun form => hfollows after form
        fun token htoken => hplaces token (List.mem_cons_of_mem _ htoken)
      constructor
      · rintro ⟨rfl, ⟨h⟩⟩
        exact ⟨[], _, (hiff _).mpr h, [], ⟨⟩, ⟨rfl, rfl⟩, rfl, rfl⟩
      · rintro ⟨_, form, hform, _, _, ⟨rfl, rfl⟩, rfl, rfl⟩
        exact ⟨rfl, .statement ((hiff form).mp hform)⟩
    | error | identifier | number | punctuation => exact .throw (by rintro _ _ ⟨-, ⟨⟩⟩)

/-- The statement that a text holds is what its tokens denote. -/
theorem parse?_eq_ok_iff {text : List Char} {offset : Nat} {s : Statement} :
    parse? text offset = .ok s ↔ Denotes text offset (Token.scan offset text) s := by
  let stream : TokenStream Token :=
    .ofTokens (Token.scan offset text) (offset + Text.byteLength text)
  have haccepts : stream.AcceptsAt (read text offset) _ := accepts_read fun token htoken =>
    (Token.covers_of_mem_scan htoken).imp fun word hword => hword.1
  constructor
  · intro h
    rcases runOn_parse? text offset with ⟨s', hrun⟩
    rw [h] at hrun
    exact ((haccepts s'.after s).mp ⟨s', hrun, rfl⟩).2
  · intro h
    rcases (haccepts [] s).mpr ⟨rfl, h⟩ with ⟨s', hrun, -⟩
    exact congrArg Prod.fst hrun

/-- A text holds a statement just if its tokens denote one, and then it is the one they denote. -/
theorem parse?_exact (text : List Char) (offset : Nat) :
    ((∃ s, parse? text offset = .ok s) ↔ ∃ s, Denotes text offset (Token.scan offset text) s) ∧
      ∀ s, Denotes text offset (Token.scan offset text) s → parse? text offset = .ok s :=
  ⟨exists_congr fun _ => parse?_eq_ok_iff, fun _ => parse?_eq_ok_iff.mpr⟩

end Statement

end AccumulatorMachine
