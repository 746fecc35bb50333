import Mathlib.Data.List.Forall2
import AccumulatorMachine.Proofs.Lowering.Blocks

/-!
# Loops

Which loop a statement belongs to, and that both the pairing and the lowering agree on it.

Loops are paired before anything is lowered. The lowering then keeps the sizes of the open loops
on a stack of its own, and takes the size of a loop from the pairs when it starts and from the
stack when it ends. The two stacks run in step: `Opened` says that the entry for a loop on the one
is its size on the other, so an end jumps as far as its own start does.

## Main definitions

* `LoopPairs.OpenBefore`: The loops that are open in front of a place.
* `Lowering.Opened`: The stack of open loops and the stack of their sizes.
* `Lowering.InStep`: The two stacks in front of statements.

## Theorems

* `LoopPairs.pairFrom_of_loop`, `LoopPairs.pairFrom_of_endLoop`, `LoopPairs.pairFrom_of_plain`: What
  pairing does with a statement.
* `LoopPairs.pairFrom_cons_ok`: What pairing has done with a statement.
* `LoopPairs.pairFrom_ends`, `LoopPairs.pairFrom_starts`: The ends and the starts of the pairs.
* `LoopPairs.pairFrom_closes`: Every loop has an end.
* `LoopPairs.endOf?_eq_some_iff`: A loop has only one end.
* `LoopPairs.start_unique`: An end has only one loop.
* `Lowering.InStep.step`: The two stacks stay in step.
* `Lowering.statements_endLoop`: The code of an end is that of its own loop.
-/

namespace AccumulatorMachine

namespace LoopPairs

variable {index : Nat} {opened : List (Nat × Span)} {s : Statement} {rest ss : List Statement}
  {pairs : LoopPairs}

theorem pairFrom_of_loop {left right : Operand} {comparison : Comparison}
    (h : s.form = .loop left comparison right) :
    pairFrom index opened (s :: rest) = pairFrom (index + 1) ((index, s.span) :: opened) rest := by
  simp only [pairFrom, h]

theorem pairFrom_of_endLoop (h : s.form = .endLoop) (entry : Nat × Span) :
    pairFrom index (entry :: opened) (s :: rest)
      = (pairFrom (index + 1) opened rest).map ((entry.1, index) :: ·) := by
  simp only [pairFrom, h]

theorem pairFrom_of_endLoop_nil (h : s.form = .endLoop) :
    pairFrom index [] (s :: rest) = .error (.atSpan .unmatchedEndLoop s.span) := by
  simp only [pairFrom, h]

theorem pairFrom_of_plain (h : s.form.Plain) :
    pairFrom index opened (s :: rest) = pairFrom (index + 1) opened rest := by
  cases hform : s.form with
  | loop | endLoop =>
    rw [hform] at h
    exact h.elim
  | int | string | new | inputInt | outputInt | inputStr | outputStr =>
    simp only [pairFrom, hform]

/-- What pairing has done with a statement. -/
theorem pairFrom_cons_ok (h : pairFrom index opened (s :: rest) = .ok pairs) :
    ((∃ left comparison right, s.form = .loop left comparison right) ∧
        pairFrom (index + 1) ((index, s.span) :: opened) rest = .ok pairs) ∨
      (s.form = .endLoop ∧ ∃ start span outer tail, opened = (start, span) :: outer ∧
        pairs = (start, index) :: tail ∧ pairFrom (index + 1) outer rest = .ok tail) ∨
      (s.form.Plain ∧ pairFrom (index + 1) opened rest = .ok pairs) := by
  rcases s.form.loop_or_endLoop_or_plain with ⟨left, comparison, right, hform⟩ | hform | hplain
  · rw [pairFrom_of_loop hform] at h
    exact Or.inl ⟨⟨left, comparison, right, hform⟩, h⟩
  · cases opened with
    | nil =>
      rw [pairFrom_of_endLoop_nil hform] at h
      cases h
    | cons entry outer =>
      rw [pairFrom_of_endLoop hform] at h
      rcases Outcome.map_ok h with ⟨tail, htail, rfl⟩
      exact Or.inr (Or.inl ⟨hform, entry.1, entry.2, outer, tail, rfl, rfl, htail⟩)
  · rw [pairFrom_of_plain hplain] at h
    exact Or.inr (Or.inr ⟨hplain, h⟩)

/-- The ends of the pairs are the places of statements that end a loop, in ascending order. -/
theorem pairFrom_ends (h : pairFrom index opened ss = .ok pairs) :
    (∀ p ∈ pairs, ∃ k s, p.2 = index + k ∧ ss[k]? = some s ∧ s.form = .endLoop) ∧
      pairs.Pairwise fun p q => p.2 < q.2 := by
  induction ss generalizing index opened pairs with
  | nil =>
    cases opened with
    | nil =>
      cases h
      exact ⟨by simp, List.Pairwise.nil⟩
    | cons first outer => cases h
  | cons s rest ih =>
    -- A place in the rest is a place in the whole, one further on.
    have hlater : ∀ {later : LoopPairs}, (∀ p ∈ later, ∃ k s, p.2 = index + 1 + k ∧
        rest[k]? = some s ∧ s.form = .endLoop) →
        ∀ p ∈ later, ∃ k s', p.2 = index + k ∧ (s :: rest)[k]? = some s' ∧ s'.form = .endLoop := by
      intro later hends p hp
      rcases hends p hp with ⟨k, s', hk, hs', hform⟩
      exact ⟨k + 1, s', by omega, hs', hform⟩
    rcases pairFrom_cons_ok h with
      ⟨-, hrest⟩ | ⟨hform, start, span, outer, tail, rfl, rfl, hrest⟩ | ⟨-, hrest⟩
    · rcases ih hrest with ⟨hends, hsorted⟩
      exact ⟨hlater hends, hsorted⟩
    · rcases ih hrest with ⟨hends, hsorted⟩
      refine ⟨fun p hp => ?_, List.pairwise_cons.mpr ⟨fun p hp => ?_, hsorted⟩⟩
      · rcases List.mem_cons.mp hp with rfl | hp
        · exact ⟨0, s, rfl, rfl, hform⟩
        · exact hlater hends p hp
      · -- The other ends are found later in the text.
        rcases hends p hp with ⟨k, s', hk, -, -⟩
        simp only
        omega
    · rcases ih hrest with ⟨hends, hsorted⟩
      exact ⟨hlater hends, hsorted⟩

/-- Loops that are open in front of a place. They have started at different places before it. -/
structure OpenBefore (index : Nat) (opened : List (Nat × Span)) : Prop where
  lt : ∀ p ∈ opened, p.1 < index
  nodup : (opened.map Prod.fst).Nodup

namespace OpenBefore

theorem nil : OpenBefore index [] := ⟨by simp, List.nodup_nil⟩

/-- A loop that starts at a place starts later than those before. -/
theorem push (h : OpenBefore index opened) (span : Span) :
    OpenBefore (index + 1) ((index, span) :: opened) where
  lt := by
    intro p hp
    rcases List.mem_cons.mp hp with rfl | hp
    · exact Nat.lt_succ_self index
    · exact Nat.lt_succ_of_lt (h.lt p hp)
  nodup := by
    rw [List.map_cons, List.nodup_cons]
    refine ⟨fun hmem => ?_, h.nodup⟩
    rcases List.mem_map.mp hmem with ⟨p, hp, heq⟩
    exact absurd heq (Nat.ne_of_lt (h.lt p hp))

theorem later (h : OpenBefore index opened) : OpenBefore (index + 1) opened :=
  ⟨fun p hp => Nat.lt_succ_of_lt (h.lt p hp), h.nodup⟩

theorem pop {entry : Nat × Span} (h : OpenBefore index (entry :: opened)) :
    OpenBefore index opened :=
  ⟨fun p hp => h.lt p (List.mem_cons_of_mem _ hp), (List.nodup_cons.mp h.nodup).2⟩

end OpenBefore

/-- The starts of the pairs are loops that were open or the places of statements that start a loop,
    each one only once. -/
theorem pairFrom_starts (h : pairFrom index opened ss = .ok pairs)
    (hopened : OpenBefore index opened) :
    (∀ p ∈ pairs, p.1 ∈ opened.map Prod.fst ∨ ∃ k s, p.1 = index + k ∧ ss[k]? = some s ∧
        ∃ left comparison right, s.form = .loop left comparison right) ∧
      (pairs.map Prod.fst).Nodup ∧ ∀ p ∈ pairs, p.1 < p.2 := by
  induction ss generalizing index opened pairs with
  | nil =>
    cases opened with
    | nil =>
      cases h
      exact ⟨by simp, List.nodup_nil, by simp⟩
    | cons first outer => cases h
  | cons s rest ih =>
    -- A place in the rest is a place in the whole, one further on.
    have hlater : ∀ {a : Nat}, (∃ k s, a = index + 1 + k ∧ rest[k]? = some s ∧
        ∃ left comparison right, s.form = .loop left comparison right) →
        ∃ k s', a = index + k ∧ (s :: rest)[k]? = some s' ∧
          ∃ left comparison right, s'.form = .loop left comparison right := by
      rintro a ⟨k, s', hk, hs', hform⟩
      exact ⟨k + 1, s', by omega, hs', hform⟩
    rcases pairFrom_cons_ok h with
      ⟨hform, hrest⟩ | ⟨-, start, span, outer, tail, rfl, rfl, hrest⟩ | ⟨-, hrest⟩
    · rcases ih hrest (hopened.push s.span) with ⟨hstarts, hdistinct, hlt⟩
      refine ⟨fun p hp => ?_, hdistinct, hlt⟩
      rcases hstarts p hp with hmem | hloop
      · rcases List.mem_cons.mp hmem with heq | hmem
        · exact Or.inr ⟨0, s, heq, rfl, hform⟩
        · exact Or.inl hmem
      · exact Or.inr (hlater hloop)
    · -- An end closes the innermost loop that is open.
      have hstart : start < index := hopened.lt _ List.mem_cons_self
      rcases ih hrest hopened.pop.later with ⟨hstarts, hdistinct, hlt⟩
      refine ⟨List.forall_mem_cons.mpr ⟨Or.inl List.mem_cons_self, fun p hp => ?_⟩, ?_,
        List.forall_mem_cons.mpr ⟨hstart, hlt⟩⟩
      · exact (hstarts p hp).imp (List.mem_cons_of_mem _) hlater
      · -- The loop that ends here is not among those still open, and later ones start later.
        rw [List.map_cons, List.nodup_cons]
        refine ⟨fun hmem => ?_, hdistinct⟩
        rcases List.mem_map.mp hmem with ⟨p, hp, heq⟩
        rcases hstarts p hp with hmem | ⟨k, s', hk, -, -⟩
        · rw [heq] at hmem
          exact (List.nodup_cons.mp hopened.nodup).1 hmem
        · simp only at heq
          omega
    · rcases ih hrest hopened.later with ⟨hstarts, hdistinct, hlt⟩
      exact ⟨fun p hp => (hstarts p hp).imp_right hlater, hdistinct, hlt⟩

/-- Loops that are open have an end, and so have those that start. -/
theorem pairFrom_closes (h : pairFrom index opened ss = .ok pairs) :
    (∀ p ∈ opened, ∃ stop, (p.1, stop) ∈ pairs) ∧
      ∀ (k : Nat) (s : Statement), ss[k]? = some s →
        (∃ left comparison right, s.form = .loop left comparison right) →
        ∃ stop, (index + k, stop) ∈ pairs := by
  induction ss generalizing index opened pairs with
  | nil =>
    cases opened with
    | nil => exact ⟨by simp, by simp⟩
    | cons first outer => cases h
  | cons s rest ih =>
    -- The first statement is a loop that is open behind it, or no loop. The others are counted from
    -- one place further on.
    have hcons : ∀ {tail : LoopPairs}, (∀ p ∈ tail, p ∈ pairs) →
        ((∃ left comparison right, s.form = .loop left comparison right) →
          ∃ stop, (index, stop) ∈ pairs) →
        (∀ (k : Nat) (s : Statement), rest[k]? = some s →
          (∃ left comparison right, s.form = .loop left comparison right) →
          ∃ stop, (index + 1 + k, stop) ∈ tail) →
        ∀ (k : Nat) (s' : Statement), (s :: rest)[k]? = some s' →
          (∃ left comparison right, s'.form = .loop left comparison right) →
          ∃ stop, (index + k, stop) ∈ pairs := by
      intro tail htail hfirst hlater k s' hs' hform
      cases k with
      | zero =>
        cases hs'
        exact hfirst hform
      | succ k =>
        rcases hlater k s' hs' hform with ⟨stop, hstop⟩
        exact ⟨stop, htail _ (Nat.add_right_comm index k 1 ▸ hstop)⟩
    rcases pairFrom_cons_ok h with
      ⟨-, hrest⟩ | ⟨hform, start, span, outer, tail, rfl, rfl, hrest⟩ | ⟨hplain, hrest⟩
    · rcases ih hrest with ⟨hopened, hlater⟩
      exact ⟨fun p hp => hopened p (List.mem_cons_of_mem _ hp),
        hcons (fun _ => id) (fun _ => hopened (index, s.span) List.mem_cons_self) hlater⟩
    · rcases ih hrest with ⟨hopened, hlater⟩
      refine ⟨List.forall_mem_cons.mpr ⟨⟨index, List.mem_cons_self⟩, fun p hp =>
        (hopened p hp).imp fun _ => List.mem_cons_of_mem _⟩,
        hcons (fun _ => List.mem_cons_of_mem _) (fun hloop => ?_) hlater⟩
      rcases hloop with ⟨left, comparison, right, hloop⟩
      cases hform.symm.trans hloop
    · rcases ih hrest with ⟨hopened, hlater⟩
      refine ⟨hopened, hcons (fun _ => id) (fun hloop => ?_) hlater⟩
      rcases hloop with ⟨left, comparison, right, hloop⟩
      rw [hloop] at hplain
      exact absurd hplain id

theorem mem_of_endOf? {start stop : Nat} (h : pairs.endOf? start = some stop) :
    (start, stop) ∈ pairs := by
  rcases List.lookup_eq_some_iff.mp h with ⟨before, after, rfl, -⟩
  exact List.mem_append_right _ List.mem_cons_self

section Whole

variable (h : ofStatements? ss = .ok pairs)

include h

/-- A loop has only one end. -/
theorem endOf?_eq_some_iff {start stop : Nat} :
    pairs.endOf? start = some stop ↔ (start, stop) ∈ pairs := by
  refine ⟨mem_of_endOf?, fun hmem => ?_⟩
  have hnodup := (pairFrom_starts h .nil).2.1
  rcases List.append_of_mem hmem with ⟨before, after, rfl⟩
  refine List.lookup_eq_some_iff.mpr ⟨before, after, rfl, fun p hp => ?_⟩
  rw [List.map_append, List.nodup_append] at hnodup
  -- No pair before it has the same start, so the search does not end sooner.
  have hne := hnodup.2.2 p.1 (List.mem_map.mpr ⟨p, hp, rfl⟩) start List.mem_cons_self
  exact bne_iff_ne.mpr hne.symm

/-- A pair is a statement that starts a loop and a later one that ends a loop. -/
theorem endOf?_ok {start stop : Nat} (hstop : pairs.endOf? start = some stop) :
    start < stop ∧
      (∃ s, ss[start]? = some s ∧ ∃ left comparison right, s.form = .loop left comparison right) ∧
      ∃ s, ss[stop]? = some s ∧ s.form = .endLoop := by
  have hmem := mem_of_endOf? hstop
  rcases pairFrom_starts h .nil with ⟨hstarts, -, hlt⟩
  refine ⟨hlt _ hmem, ?_, ?_⟩
  · rcases hstarts _ hmem with hnil | ⟨k, s, hk, hs, hform⟩
    · cases hnil
    · have hstart : start = k := hk.trans (Nat.zero_add k)
      exact ⟨s, hstart ▸ hs, hform⟩
  · rcases (pairFrom_ends h).1 _ hmem with ⟨k, s, hk, hs, hform⟩
    have hstop : stop = k := hk.trans (Nat.zero_add k)
    exact ⟨s, hstop ▸ hs, hform⟩

/-- An end has only one loop. -/
theorem start_unique {start other stop : Nat} (hstart : pairs.endOf? start = some stop)
    (hother : pairs.endOf? other = some stop) : start = other := by
  have hsorted := (pairFrom_ends h).2
  rcases List.mem_iff_getElem.mp (mem_of_endOf? hstart) with ⟨m, hm, hmget⟩
  rcases List.mem_iff_getElem.mp (mem_of_endOf? hother) with ⟨n, hn, hnget⟩
  have hm2 : pairs[m].2 = stop := by rw [hmget]
  have hn2 : pairs[n].2 = stop := by rw [hnget]
  -- The ends ascend, so two pairs with the same end are at the same place.
  rcases Nat.lt_trichotomy m n with hlt | rfl | hlt
  · have := List.pairwise_iff_getElem.mp hsorted m n hm hn hlt
    omega
  · rw [hmget] at hnget
    exact congrArg Prod.fst hnget
  · have := List.pairwise_iff_getElem.mp hsorted n m hn hm hlt
    omega

end Whole

end LoopPairs

namespace Lowering

/-- The loops that are open, and their sizes. -/
def Opened (pairs : LoopPairs) : List (Nat × Span) → List Nat → Prop :=
  List.Forall₂ fun entry count =>
    ∃ stop, pairs.endOf? entry.1 = some stop ∧ count = stop - entry.1 + 1

/-- The two stacks in front of statements: the pairing can go on from loops that are open, it finds
    pairs that are among the given ones, and the sizes are those of the open loops. -/
def InStep (pairs : LoopPairs) (index : Nat) (ss : List Statement) (sizes : List Nat) : Prop :=
  ∃ opened tail, LoopPairs.pairFrom index opened ss = .ok tail ∧
    (∀ p ∈ tail, pairs.endOf? p.1 = some p.2) ∧ Opened pairs opened sizes

section InStep

variable {pairs : LoopPairs} {index : Nat} {sizes : List Nat} {ss rest : List Statement}
  {s : Statement} {table table' : SymbolTable}

/-- No loop is open in front of the first statement, so the two stacks start out alike. -/
theorem InStep.start (h : LoopPairs.ofStatements? ss = .ok pairs) : InStep pairs 0 ss [] :=
  ⟨[], pairs, h, fun _ hp => (LoopPairs.endOf?_eq_some_iff h).mpr hp, List.Forall₂.nil⟩

/-- A statement that is lowered keeps the two stacks in step, and if it is the end of a loop it
    jumps as far as the size of its own loop says. -/
theorem InStep.step (h : InStep pairs index (s :: rest) sizes) {block : Block} {sizes' : List Nat}
    (hlowers : Lowers pairs index sizes table s block sizes' table') :
    InStep pairs (index + 1) rest sizes' ∧ (s.form = .endLoop →
      ∃ start, pairs.endOf? start = some index ∧ block.code = loopEnd (index - start + 1)) := by
  rcases h with ⟨opened, tail, hpairs, htail, hopened⟩
  rcases LoopPairs.pairFrom_cons_ok hpairs with
    ⟨⟨left, comparison, right, hloop⟩, hrest⟩ |
    ⟨hend, start, span, outer, tail', rfl, rfl, hrest⟩ | ⟨hplain, hrest⟩
  · have hother : s.form ≠ .endLoop := by
      rw [hloop]
      exact fun heq => nomatch heq
    cases hlowers with
    | loop hform hstop hleft hright =>
      -- The size that is put on the stack is that of the pair that starts here.
      have hopened' := List.Forall₂.cons (a := (index, s.span)) ⟨_, hstop, rfl⟩ hopened
      exact ⟨⟨_, tail, hrest, htail, hopened'⟩, fun hend => absurd hend hother⟩
    | endLoop hform => exact absurd hform hother
    | plain hplain => rw [hloop] at hplain; exact absurd hplain id
  · cases hlowers with
    | loop hform => rw [hend] at hform; cases hform
    | plain hplain => rw [hend] at hplain; exact absurd hplain id
    | endLoop hform hsizes =>
      have hmem := htail _ List.mem_cons_self
      subst hsizes
      cases hopened with
      | cons hentry hopened' =>
        -- The size on the stack is that of the loop which the pairing closes here.
        rcases hentry with ⟨stop, hstop, rfl⟩
        rw [hmem] at hstop
        cases hstop
        exact ⟨⟨outer, tail', hrest, fun p hp => htail p (List.mem_cons_of_mem _ hp), hopened'⟩,
          fun _ => ⟨start, hmem, rfl⟩⟩
  · cases hlowers with
    | loop hform => rw [hform] at hplain; exact absurd hplain id
    | endLoop hform => rw [hform] at hplain; exact absurd hplain id
    | plain =>
      refine ⟨⟨opened, tail, hrest, htail, hopened⟩, fun hend => ?_⟩
      rw [hend] at hplain
      exact absurd hplain id

/-- The end of a loop jumps as far as the size of its own loop says, also if what follows the
    statements is not lowered. -/
theorem statements_endLoop {later : List Statement} (h : InStep pairs index (ss ++ later) sizes)
    {blocks : List Block}
    (hlowering : (statements pairs index sizes ss).run table = .ok (blocks, table')) {k : Nat}
    (hs : ss[k]? = some s) (hform : s.form = .endLoop) :
    ∃ start block, pairs.endOf? start = some (index + k) ∧ blocks[k]? = some block ∧
      block.code = loopEnd (index + k - start + 1) := by
  induction ss generalizing index sizes table blocks k with
  | nil => cases hs
  | cons first rest ih =>
    rcases statements_cons_ok hlowering with ⟨block, sizes', mid, blocks', rfl, hfirst, hrest⟩
    rcases h.step (statement_ok hfirst) with ⟨hstep, hjumps⟩
    cases k with
    | zero =>
      cases hs
      rcases hjumps hform with ⟨start, hstart, hcode⟩
      exact ⟨start, block, hstart, rfl, hcode⟩
    | succ k =>
      rw [← Nat.add_assoc index k 1, Nat.add_right_comm index k 1]
      exact ih hstep hrest hs

end InStep

end Lowering

end AccumulatorMachine
