import AccumulatorMachine.Json.Reader
import AccumulatorMachine.Proofs.Json.Layout
import AccumulatorMachine.Proofs.Outcome

/-!
# JSON Cut Short

What is left of a layout that ends too early, and what a reader makes of it.

A cut goes through a lexeme or between two of them. All lexemes in front of it are whole, so the
ones that are left are the first of the layout, and the last of them may be cut. What a cut lexeme
has become depends on its kind. A string lacks its closing quote and can no longer be read. A
number may have nothing left but its sign, which cannot be read either. But a number that keeps
some of its digits is a number all the same, only another one. A bracket or a separator is there
or not.

So a reader that would take all lexemes has two ways to fare with those that are left. It gets
to the end of the text in the middle of a value, and says so. Or it takes all that there is,
because the value is a number of which some digits are left, or because nothing that it wants is
missing.

## Main definitions

* `Json.Lexeme.CutTo`: What a lexeme becomes if a cut goes through it.
* `Json.Cut`: The lexemes that are left of others.

## Theorems

* `Json.Atom.lexemes_part`: What is left of a spelling.
* `Json.LaidOut.cut`: What is left of a layout.
* `Json.Reader.run_append`: What follows a value does not change it.
* `Json.Reader.run_cut`: A value that is cut is cut off, or is a number with fewer digits.
-/

namespace AccumulatorMachine

/-- Digits at the front of a numeral are a numeral, which is zero only if the whole one is. -/
theorem Decimal.digits_of_isPrefix {n : Nat} {part : List Char}
    (hpart : part <+: Nat.toDigits 10 n) (hsome : part ≠ []) :
    ∃ m ≤ n, part = Nat.toDigits 10 m ∧ (m = 0 → n = 0) := by
  induction n using Nat.strongRecOn with
  | ind n ih =>
    by_cases hsmall : n < 10
    · rw [Nat.toDigits_of_lt_base hsmall] at hpart
      rcases List.prefix_cons_iff.mp hpart with rfl | ⟨rest, rfl, hrest⟩
      · exact absurd rfl hsome
      · rw [List.prefix_nil.mp hrest]
        exact ⟨n, Nat.le_refl n, (Nat.toDigits_of_lt_base hsmall).symm, id⟩
    · rw [Nat.toDigits_of_base_le (by decide) (by omega)] at hpart
      rcases List.prefix_concat_iff.mp hpart with rfl | hpart
      · exact ⟨n, Nat.le_refl n,
          (Nat.toDigits_of_base_le (by decide) (Nat.not_lt.mp hsmall)).symm, id⟩
      · obtain ⟨m, hm, heq, hzero⟩ := ih (n / 10) (by omega) hpart
        exact ⟨m, by omega, heq, fun h => absurd (hzero h) (by omega)⟩

/-- A part at the front of two texts is in the first one or has all of it. -/
theorem Text.prefix_append {part front back : List Char} (h : part <+: front ++ back) :
    part <+: front ∨ ∃ rest, part = front ++ rest ∧ rest <+: back := by
  rcases List.prefix_or_prefix_of_prefix h (List.prefix_append front back) with hfront | hfront
  · exact .inl hfront
  · obtain ⟨rest, rfl⟩ := hfront
    exact .inr ⟨rest, rfl, (List.prefix_append_right_inj front).mp h⟩

namespace Json

/-- What a lexeme becomes if a cut goes through it. -/
inductive Lexeme.CutTo : Lexeme → Lexeme → Prop
  | string {text : String} {skipped : Except Problem Unit} :
    CutTo (.string (.ok text) skipped) (.string (.error .cutOff) (.error .cutOff))
  /-- The sign is left, and no digit. -/
  | sign {n : Int} {skipped : Except Problem Unit} :
    CutTo (.scalar (.ok (.integer n)) skipped) (.scalar (.error .cutOff) (.error .malformed))
  /-- Some digits are left. -/
  | number {n m : Int} {skipped : Except Problem Unit} (hm : Word.InRange m) :
    CutTo (.scalar (.ok (.integer n)) skipped) (.scalar (.ok (.integer m)) (.ok ()))

/-- The lexemes that are left of others: the first of them, the last of which may be cut. -/
inductive Cut : List Lexeme → List Lexeme → Prop
  | ended {full : List Lexeme} : Cut full []
  | inside {lexeme part : Lexeme} {full : List Lexeme} (hpart : lexeme.CutTo part) :
    Cut (lexeme :: full) [part]
  | behind {lexeme : Lexeme} {full part : List Lexeme} (hpart : Cut full part) :
    Cut (lexeme :: full) (lexeme :: part)

namespace Cut

variable {first second part : List Lexeme}

theorem append_right (h : Cut first part) (second : List Lexeme) : Cut (first ++ second) part := by
  induction h with
  | ended => exact .ended
  | inside hpart => exact .inside hpart
  | behind _ ih => exact .behind ih

/-- A cut of two lists goes through the first one or leaves all of it. -/
theorem append_cases (h : Cut (first ++ second) part) :
    Cut first part ∨ ∃ rest, part = first ++ rest ∧ Cut second rest := by
  induction first generalizing part with
  | nil => exact .inr ⟨part, rfl, h⟩
  | cons lexeme first ih =>
    cases h with
    | ended => exact .inl .ended
    | inside hpart => exact .inl (.inside hpart)
    | behind hpart =>
      rcases ih hpart with hfirst | ⟨rest, rfl, hrest⟩
      · exact .inl (.behind hfirst)
      · exact .inr ⟨rest, rfl, hrest⟩

end Cut

/-! ## What is left of a layout -/

theorem cut_lexemes_nil (full : List Lexeme) : Cut full (lexemes []) := by
  rw [lexemes_nil]
  exact .ended

/-- A plain text without its closing quote is a string that is cut off. -/
theorem lexemes_unclosed {text : List Char} (h : Plain text) :
    lexemes ('"' :: text) = [.string (.error .cutOff) (.error .cutOff)] := by
  have hscan := scanString_plain h []
  rw [List.append_nil, scanString, List.append_nil] at hscan
  refine lexemes_last rfl ?_
  show Lexeme.ofString text = _
  rw [Lexeme.ofString, hscan]
  simp only [joinPieces_chars]
  rfl

theorem lexemes_ofInt_nil {n : Int} (hn : Word.InRange n) :
    lexemes (Decimal.ofInt n).toList = [.scalar (.ok (.integer n)) (.ok ())] := by
  have hread := lexemes_ofInt hn EndsNumeral.nil
  rwa [List.append_nil, lexemes_nil] at hread

/-- What is left of a written word. -/
theorem cut_ofInt {n : Int} (hn : Word.InRange n) {part : List Char}
    (hpart : part <+: (Decimal.ofInt n).toList) :
    Cut [.scalar (.ok (.integer n)) (.ok ())] (lexemes part) := by
  obtain ⟨hlow, hhigh⟩ := hn
  rw [Decimal.toList_ofInt] at hpart
  by_cases hneg : n < 0
  · rw [if_pos hneg, List.singleton_append] at hpart
    rcases List.prefix_cons_iff.mp hpart with rfl | ⟨digits, rfl, hdigits⟩
    · exact cut_lexemes_nil _
    -- A sign alone is no number. With a digit behind it, it is a shorter one.
    by_cases hnone : digits = []
    · rw [hnone, lexemes_last rfl rfl]
      exact .inside .sign
    · obtain ⟨m, hm, rfl, hzero⟩ := Decimal.digits_of_isPrefix hdigits hnone
      have hwritten : '-' :: Nat.toDigits 10 m = (Decimal.ofInt (-m)).toList := by
        rw [Decimal.toList_ofInt, if_pos (by omega), Int.natAbs_neg, Int.natAbs_natCast]
        rfl
      have hrange : Word.InRange (-m) := ⟨by omega, by unfold Word.maximum; omega⟩
      rw [hwritten, lexemes_ofInt_nil hrange]
      exact .inside (.number hrange)
  · rw [if_neg hneg, List.nil_append] at hpart
    by_cases hnone : part = []
    · exact hnone ▸ cut_lexemes_nil _
    · obtain ⟨m, hm, rfl, -⟩ := Decimal.digits_of_isPrefix hpart hnone
      have hwritten : Nat.toDigits 10 m = (Decimal.ofInt m).toList := by
        rw [Decimal.toList_ofInt, if_neg (by omega), Int.natAbs_natCast]
        rfl
      have hrange : Word.InRange m := ⟨by unfold Word.minimum; omega, by omega⟩
      rw [hwritten, lexemes_ofInt_nil hrange]
      exact .inside (.number hrange)

/-- What is left of a spelling. -/
theorem Atom.lexemes_part {atom : Atom} (hvalid : atom.Valid) {part : List Char}
    (hpart : part <+: atom.spelling) : Cut [atom.lexeme] (lexemes part) := by
  have hwhole : part = atom.spelling → Cut [atom.lexeme] (lexemes part) := by
    intro heq
    have hread := lexemes_spelling hvalid fun _ => EndsNumeral.nil
    rw [List.append_nil, lexemes_nil] at hread
    rw [heq, hread]
    exact .behind .ended
  cases atom with
  | number n => exact cut_ofInt hvalid hpart
  | string text =>
    rcases List.prefix_cons_iff.mp hpart with rfl | ⟨inner, rfl, hinner⟩
    · exact cut_lexemes_nil _
    rcases List.prefix_concat_iff.mp hinner with rfl | hinner
    · exact hwhole rfl
    · rw [lexemes_unclosed fun c hc => hvalid c (hinner.subset hc)]
      exact .inside .string
  | _ =>
    -- One character is there or not.
    rcases List.prefix_cons_iff.mp hpart with rfl | ⟨rest, rfl, hrest⟩
    · exact cut_lexemes_nil _
    · exact hwhole (List.prefix_nil.mp hrest ▸ rfl)

/-- What is left of a layout. -/
theorem LaidOut.cut {atoms : List Atom} {text part : List Char} (h : LaidOut atoms text)
    (hlegible : Legible atoms) (hpart : part <+: text) :
    Cut (atoms.map Atom.lexeme) (Json.lexemes part) := by
  induction h generalizing part with
  | nil hgap => exact (hgap.of_isPrefix hpart).lexemes ▸ .ended
  | @cons gap text atom atoms hgap htext ih =>
    obtain ⟨hvalid, hapart, hrest⟩ := hlegible
    rcases Text.prefix_append hpart with hinside | ⟨behind, rfl, hbehind⟩
    · exact (hgap.of_isPrefix hinside).lexemes ▸ .ended
    rw [hgap.lexemes_append]
    rcases Text.prefix_append hbehind with hinside | ⟨left, rfl, hleft⟩
    · exact (Atom.lexemes_part hvalid hinside).append_right _
    · rw [Atom.lexemes_spelling hvalid fun hnumber =>
        (htext.endsNumeral (hapart hnumber)).of_isPrefix hleft]
      exact .behind (ih hrest hleft)

/-! ## Reading what is left -/

namespace Reader

theorem run_append {reader : Reader} {full rest : List Lexeme} {value : Value}
    (h : run reader full = .ok (value, rest)) (more : List Lexeme) :
    run reader (full ++ more) = .ok (value, rest ++ more) := by
  fun_induction run reader full with
  | case1 => cases h
  | case2 => cases h
  | case3 reader lexeme full value hstep =>
    cases h
    rw [List.cons_append, run, hstep]
  | case4 reader lexeme full next hstep ih =>
    rw [List.cons_append, run, hstep]
    exact ih h

theorem purpose_of_deliver {purpose : Purpose} {value : Value} {stack : List Frame}
    {next : Reader} (h : deliver purpose value stack = .more next) : next.purpose = purpose := by
  unfold deliver at h
  split at h <;> cases h <;> rfl

theorem purpose_of_start {purpose : Purpose} {stack : List Frame} {lexeme : Lexeme}
    {next : Reader} (h : start purpose stack lexeme = .ok (.more next)) :
    next.purpose = purpose := by
  unfold start enter at h
  split at h
  · cases purpose
    · obtain ⟨value, -, hnext⟩ := Outcome.map_ok h
      exact purpose_of_deliver hnext
    · obtain ⟨_, -, hnext⟩ := Outcome.map_ok h
      exact purpose_of_deliver hnext
  · cases purpose
    · obtain ⟨text, -, hnext⟩ := Outcome.map_ok h
      exact purpose_of_deliver hnext
    · obtain ⟨_, -, hnext⟩ := Outcome.map_ok h
      exact purpose_of_deliver hnext
  · split at h <;> cases h
    rfl
  · split at h <;> cases h
    rfl
  · cases h

theorem purpose_of_takeKey {purpose : Purpose} {fields : List (String × Value)}
    {stack : List Frame} {lexeme : Lexeme} {next : Reader}
    (h : takeKey purpose fields stack lexeme = .ok (.more next)) : next.purpose = purpose := by
  unfold takeKey at h
  split at h
  · cases purpose
    · obtain ⟨_, -, hnext⟩ := Outcome.map_ok h
      cases hnext
      rfl
    · obtain ⟨_, -, hnext⟩ := Outcome.map_ok h
      cases hnext
      rfl
  · cases h

/-- Reading does not turn into skipping, nor skipping into reading. -/
theorem purpose_of_step {reader next : Reader} {lexeme : Lexeme} :
    reader.step lexeme = .ok (.more next) → next.purpose = reader.purpose := by
  fun_cases step reader lexeme <;> intro h
  all_goals first
    | exact purpose_of_start h
    | exact purpose_of_takeKey h
    | exact purpose_of_deliver (Except.ok.inj h)
    | (cases h; rfl)
    | cases h

/-- A lexeme that can be read, after a cut: the text ends in it, or it is a number still. -/
theorem step_cutTo {expectation : Expectation} {stack : List Frame} {lexeme part : Lexeme}
    {progress : Progress} (hpart : lexeme.CutTo part)
    (h : step ⟨.read, expectation, stack⟩ lexeme = .ok progress) :
    step ⟨.read, expectation, stack⟩ part = .error .cutOff
      ∨ ∃ n m, Word.InRange m ∧ progress = deliver .read (.integer n) stack
          ∧ step ⟨.read, expectation, stack⟩ part = .ok (deliver .read (.integer m) stack) := by
  -- What the state expects decides whether the lexeme is a value, a key or out of place.
  cases hpart <;> cases expectation <;> rcases stack with _ | ⟨_ | _, stack⟩ <;>
    first
    | exact .inl rfl
    | exact .inr ⟨_, _, ‹_›, (Except.ok.inj h).symm, rfl⟩
    | cases h

/-- A value of which not all is left is cut off, unless it is a number that has fewer digits. -/
theorem run_cut {reader : Reader} {full part : List Lexeme} {value : Value}
    (hread : reader.purpose = .read) (h : run reader full = .ok (value, []))
    (hcut : Cut full part) :
    run reader part = .error .cutOff ∨ run reader part = .ok (value, [])
      ∨ ∃ n m, Word.InRange m ∧ value = .integer n ∧ run reader part = .ok (.integer m, []) := by
  induction hcut generalizing reader with
  | ended => exact .inl rfl
  | @inside lexeme part full hpart =>
    obtain ⟨purpose, expectation, stack⟩ := reader
    obtain rfl : purpose = .read := hread
    cases hstep : step ⟨.read, expectation, stack⟩ lexeme with
    | error problem =>
      rw [run, hstep] at h
      cases h
    | ok progress =>
      rcases step_cutTo hpart hstep with hnone | ⟨n, m, hm, rfl, hsome⟩
      · rw [run, hnone]
        exact .inl rfl
      rw [run, hstep] at h
      rw [run, hsome]
      -- The number is the value itself, or a part of one of which the rest is missing.
      cases stack with
      | nil =>
        cases h
        exact .inr (.inr ⟨n, m, hm, rfl, rfl⟩)
      | cons frame stack => cases frame <;> exact .inl rfl
  | @behind lexeme full part hpart ih =>
    cases hstep : step reader lexeme with
    | error problem =>
      rw [run, hstep] at h
      cases h
    | ok progress =>
      rw [run, hstep] at h
      rw [run, hstep]
      cases progress with
      | done value =>
        cases h
        cases hpart
        exact .inr (.inl rfl)
      | more next => exact ih ((purpose_of_step hstep).trans hread) h

end Reader

end Json

end AccumulatorMachine
