import AccumulatorMachine.Proofs.Outcome
import AccumulatorMachine.Proofs.Source.Acceptance

/-!
# Names and Literals of a Program

What the names and the literals of a statement are that was read from a text.

A literal is bound under its spelling, in the same table as the names. That this is safe rests on
two facts about the grammar: a name begins with a letter or an underscore, so no name is spelled
like a literal, and the value of a literal is the number that its spelling denotes, so literals
that are spelled alike are equal.

Both facts are about tokens in the first place. The scanner makes a word or a run of digits only of
the right characters, and the grammar takes names and literals from tokens without changing them.
So there is nothing to say about readers in here: what a text is read as is what its tokens denote.

## Main definitions

* `Source.IsWord`: A text that begins like a word.
* `Token.Spelled`: A token that is spelled as the scanner spells it.
* `Operand.Faithful`, `Statement.Form.Faithful`: Names that are words, and literals with the value
  that they spell.

## Theorems

* `Token.spelled_of_mem_scan`: All tokens of a text are spelled so.
* `Source.Follows.faithful`: What a statement says is faithful to its spelling.
* `Program.parse?_faithful`: So is what all statements of a program say.
-/

namespace AccumulatorMachine

/-- A text that begins like a word. -/
def Source.IsWord (name : String) : Prop :=
  ∃ c text, name.toList = c :: text ∧ Token.isWordStart c = true

namespace Decimal

theorem not_isDigit_of_isWordStart {c : Char} (h : Token.isWordStart c = true) :
    c.isDigit = false := by
  refine Bool.eq_false_iff.mpr fun hdigit => ?_
  have hranges : (decide ('A'.val ≤ c.val ∧ c.val ≤ 'Z'.val)
      || (decide ('a'.val ≤ c.val) && decide (c.val ≤ 'z'.val)) || decide (c = '_')) = true := h
  simp only [Char.isDigit, Bool.or_eq_true, Bool.and_eq_true, decide_eq_true_eq, ge_iff_le,
    UInt32.le_iff_toNat_le] at hranges hdigit
  have hnine : '9'.val.toNat = 57 := rfl
  have hupper : 'A'.val.toNat = 65 := rfl
  have hlower : 'a'.val.toNat = 97 := rfl
  -- The letters come after the digits, and the underscore is none.
  rcases hranges with (hrange | hrange) | rfl
  · omega
  · omega
  · exact absurd hdigit (by decide)

theorem natural?_eq_some_iff {text : List Char} {n : Nat} : natural? text = some n ↔
    text ≠ [] ∧ (∀ c ∈ text, c.isDigit = true) ∧ n = Nat.ofDigitChars 10 text 0 := by
  rw [natural?]
  by_cases h : text ≠ [] ∧ text.all Char.isDigit = true
  · rw [if_pos h, Option.some.injEq]
    exact ⟨fun heq => ⟨h.1, List.all_eq_true.mp h.2, heq.symm⟩, fun hn => hn.2.2.symm⟩
  · rw [if_neg h]
    exact ⟨fun heq => absurd heq.symm (Option.some_ne_none n),
      fun hn => absurd ⟨hn.1, List.all_eq_true.mpr hn.2.1⟩ h⟩

/-- A word is no numeral. -/
theorem word?_of_isWord {name : String} (h : Source.IsWord name) : word? name.toList = none := by
  rcases h with ⟨c, text, hname, hc⟩
  have hdigits : natural? (c :: text) = none := by
    refine Option.eq_none_iff_forall_ne_some.mpr fun n hn => ?_
    have hdigit := (natural?_eq_some_iff.mp hn).2.1 c List.mem_cons_self
    rw [not_isDigit_of_isWordStart hc] at hdigit
    cases hdigit
  -- It does not begin with a sign either.
  have hinteger : integer? (c :: text) = none := by
    unfold integer?
    split
    · next heq =>
      cases heq
      exact absurd hc (by decide)
    · next heq =>
      cases heq
      exact absurd hc (by decide)
    · rw [hdigits]
      rfl
  rw [word?, hname, hinteger]
  rfl

/-- Digits denote a number without a sign, and with a minus sign the opposite one. -/
theorem integer?_digits {text : List Char} {n : Nat} (h : natural? text = some n) :
    integer? text = some (n : Int) ∧ integer? ('-' :: text) = some (-(n : Int)) := by
  refine ⟨?_, by rw [integer?, h]; rfl⟩
  have hdigits := (natural?_eq_some_iff.mp h).2.1
  unfold integer?
  split
  · exact absurd (hdigits '-' List.mem_cons_self) (by decide)
  · exact absurd (hdigits '+' List.mem_cons_self) (by decide)
  · rw [h]
    rfl

end Decimal

namespace Token

/-- A token that is spelled as the scanner spells it: an identifier is a word, and a number is a
    run of digits. -/
def Spelled : Token → Prop
  | identifier name => Source.IsWord name
  | number digits => (Decimal.natural? digits.toList).isSome
  | _ => True

theorem spelled_first (c : Char) (text : List Char) : (first c text).1.Spelled := by
  unfold first
  split
  · next hword =>
    simp only [ofWord]
    split
    · exact trivial
    · exact ⟨c, _, String.toList_ofList, hword⟩
  · split
    · next hdigit =>
      refine Option.isSome_iff_exists.mpr ⟨_, Decimal.natural?_eq_some_iff.mpr ⟨?_, ?_, rfl⟩⟩
      · rw [String.toList_ofList]
        exact List.cons_ne_nil c _
      · rw [String.toList_ofList]
        exact List.forall_mem_cons.mpr ⟨hdigit, fun d hd =>
          List.all_eq_true.mp List.all_takeWhile d hd⟩
    · split <;> exact trivial

theorem spelled_of_mem_scan {offset : Nat} {text : List Char} {token : Token × Span}
    (h : token ∈ scan offset text) : token.1.Spelled := by
  rcases mem_scan h with ⟨_, c, rest, -, -, rfl⟩
  exact spelled_first c rest

end Token

/-- A name that is a word, or a literal with the value that it spells. -/
def Operand.Faithful : Operand → Prop
  | .name text => Source.IsWord text
  | .literal spelling value => Decimal.word? spelling.toList = some value

/-- A faithful operand, or a mark. -/
def ExpressionToken.Faithful : ExpressionToken → Prop
  | .operand side => side.Faithful
  | _ => True

/-- A statement whose names are words and whose literals have the values that they spell. -/
def Statement.Form.Faithful : Statement.Form → Prop
  | .int name _ => Source.IsWord name
  | .string name _ => Source.IsWord name
  | .new name e => Source.IsWord name ∧ ∀ token ∈ e.tokens, token.1.Faithful
  | .loop left _ right => left.Faithful ∧ right.Faithful
  | .inputInt name => Source.IsWord name
  | .outputInt name => Source.IsWord name
  | .outputStr name => Source.IsWord name
  | .endLoop => True
  | .inputStr => True

/-! ## From tokens to statements -/

namespace Source

/-- The digits of a token that is spelled as the scanner spells it. -/
theorem natural?_of_spelled {digits : String} (h : (Token.number digits).Spelled) :
    ∃ n : Nat, Decimal.natural? digits.toList = some n ∧ number digits = n := by
  rcases Option.isSome_iff_exists.mp h with ⟨n, hn⟩
  exact ⟨n, hn, by rw [number, (Decimal.natural?_eq_some_iff.mp hn).2.2]⟩

theorem IsLiteral.faithful {tokens : List (Token × Span)} {spelling : String} {value : Int}
    {span : Span} (h : IsLiteral tokens spelling value span)
    (hspelled : ∀ token ∈ tokens, token.1.Spelled) :
    (Operand.literal spelling value).Faithful := by
  cases h with
  | plain hrange =>
    rcases natural?_of_spelled (hspelled _ List.mem_cons_self) with ⟨n, hn, hvalue⟩
    rw [Operand.Faithful, Decimal.word?, (Decimal.integer?_digits hn).1, ← hvalue]
    exact Word.checked_eq_some_iff.mpr ⟨rfl, hrange⟩
  | signed hrange =>
    have hnumber := hspelled _ (List.mem_cons_of_mem _ List.mem_cons_self)
    rcases natural?_of_spelled hnumber with ⟨n, hn, hvalue⟩
    rw [Operand.Faithful, Decimal.word?, String.toList_append, show "-".toList = ['-'] from rfl,
      List.singleton_append, (Decimal.integer?_digits hn).2, ← hvalue]
    exact Word.checked_eq_some_iff.mpr ⟨rfl, hrange⟩

theorem IsOperand.faithful {tokens : List (Token × Span)} {operand : Operand} {span : Span}
    (h : IsOperand tokens operand span) (hspelled : ∀ token ∈ tokens, token.1.Spelled) :
    operand.Faithful := by
  cases h with
  | name => exact hspelled _ List.mem_cons_self
  | literal h => exact h.faithful hspelled

theorem Scans.faithful {expecting : Bool} {tokens : List (Token × Span)}
    {parts : List (ExpressionToken × Span)} (h : Scans expecting tokens parts)
    (hspelled : ∀ token ∈ tokens, token.1.Spelled) : ∀ part ∈ parts, part.1.Faithful := by
  induction h with
  | done => simp
  | operand htokens hop hrest ih =>
    subst htokens
    rcases List.forall_mem_append.mp hspelled with ⟨hread, hmore⟩
    exact List.forall_mem_cons.mpr ⟨hop.faithful hread, ih hmore⟩
  | mark hmark _ hrest ih =>
    refine List.forall_mem_cons.mpr ⟨?_, ih (List.forall_mem_cons.mp hspelled).2⟩
    cases hmark <;> exact trivial

theorem IsArgument.isWord {tokens : List (Token × Span)} {name : String}
    (h : IsArgument tokens name) (hspelled : ∀ token ∈ tokens, token.1.Spelled) : IsWord name := by
  cases h with
  | parens => exact hspelled _ (List.mem_cons_of_mem _ List.mem_cons_self)

/-- What a statement says is faithful if its tokens are spelled as the scanner spells them. -/
theorem Follows.faithful {text : List Char} {offset : Nat} {word : Keyword}
    {tokens : List (Token × Span)} {form : Statement.Form}
    (h : Follows text offset word tokens form) (hspelled : ∀ token ∈ tokens, token.1.Spelled) :
    form.Faithful := by
  cases h with
  | int | string => exact hspelled _ List.mem_cons_self
  | new h =>
    rcases List.forall_mem_cons.mp hspelled with ⟨hname, hrest⟩
    exact ⟨hname, h.scans.faithful hrest⟩
  | newAssign h =>
    rcases List.forall_mem_cons.mp hspelled with ⟨hname, hrest⟩
    exact ⟨hname, h.scans.faithful (List.forall_mem_cons.mp hrest).2⟩
  | loop hleft hmark hright =>
    rcases List.forall_mem_append.mp hspelled with ⟨hfirst, hrest⟩
    exact ⟨hleft.faithful hfirst, hright.faithful (List.forall_mem_cons.mp hrest).2⟩
  | inputInt h | outputInt h | outputStr h => exact h.isWord hspelled
  | endLoop | inputStr | inputStrParens | inputStrArgument => exact trivial

end Source

/-- The statement that a text holds is faithful. -/
theorem Statement.parse?_faithful {text : List Char} {offset : Nat} {s : Statement}
    (h : parse? text offset = .ok s) : s.form.Faithful := by
  have hspelled : ∀ token ∈ Token.scan offset text, token.1.Spelled :=
    fun _ htoken => Token.spelled_of_mem_scan htoken
  have hdenotes := parse?_eq_ok_iff.mp h
  generalize Token.scan offset text = tokens at hdenotes hspelled
  cases hdenotes with
  | statement hfollows => exact hfollows.faithful (List.forall_mem_cons.mp hspelled).2

/-- All statements of a program that was read are faithful. -/
theorem Program.parse?_faithful {source : List Char} {program : Program}
    (h : Program.parse? source = .ok program) : ∀ s ∈ program.statements, s.form.Faithful := by
  rcases Outcome.bind_ok h with ⟨statements, hstatements, hpure⟩
  cases hpure
  intro s hs
  rcases Outcome.mem_of_mapM hstatements hs with ⟨⟨offset, text⟩, -, hparse⟩
  exact Statement.parse?_faithful hparse

end AccumulatorMachine
