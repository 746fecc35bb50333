import AccumulatorMachine.Proofs.Countdown
import AccumulatorMachine.Proofs.SymbolTable

/-!
# Consistent Symbol Tables

What holds of a symbol table whatever calls have been made, as long as there are addresses.

`Consistent` is the invariant. It holds without conditions if addresses are integers, because then
each that is handed out is below all the others. Addresses are words, though, and the allocator
goes on with the greatest after the least. From then on it hands out addresses above those of before
and above its base, and the invariant is broken by the first name that is declared there.

So the invariant is an equivalence. It holds throughout a sequence of calls if and only if the
cursor is not above the base in the end. Until then every table is the one that counting with
integers gives, which is how the invariant carries over.

## Main definitions

* `SymbolTable.Consistent`: What holds after a sequence of calls.

## Theorems

* `SymbolTable.consistent_after`: It holds of every sequence of calls if addresses are integers.
* `SymbolTable.Call.tracks`: A call does the same for words and for integers.
* `SymbolTable.after_eq_recount`, `SymbolTable.after_cursor_le_iff`: So does a sequence of calls, as
  long as the words do not run out.
* `SymbolTable.consistent_iff`: When it holds of a sequence of calls if addresses are words.
-/

namespace AccumulatorMachine

namespace SymbolTable

variable (base : Int)

/-- What holds after a sequence of calls on a table without names, whether they were refused or
    not. -/
structure Consistent (calls : List Call) (c : Countdown := .unbounded) : Prop where
  /-- The name of a call that was not refused is bound from then on. -/
  bound : ∀ (earlier : List Call) (call : Call) (answer : Call.Answer),
    earlier ++ [call] <+: calls → (call.perform (after base earlier c)).1 = .ok answer →
      call.name ∈ (after base calls c).names
  /-- No name is listed twice. -/
  nodup : (after base calls c).names.Nodup
  /-- A name is listed with what it is bound to. -/
  listed : ∀ name info,
    (name, info) ∈ (after base calls c).bindings ↔ (after base calls c).get? name = some info
  /-- Names are listed in the order in which they were first bound. -/
  order : (after base calls c).names.Pairwise
    fun first second => BoundBefore base calls first second c
  /-- Initial cells lie one below the other. -/
  cells : (after base calls c).cells.Pairwise fun upper lower => lower.address < upper.address
  /-- They lie between the cursor and the base, and not at the scratch cells. -/
  cells_handedOut : ∀ cell ∈ (after base calls c).cells,
    (after base calls c).HandedOut base cell.address ∧ cell.address ≠ counterCell ∧
      cell.address ≠ bufferCell
  /-- So do the addresses of names that are no aliases. -/
  names_handedOut : ∀ name info, (after base calls c).get? name = some info →
    info.kind ≠ .aliased → (after base calls c).HandedOut base info.address ∧
      info.address ≠ counterCell ∧ info.address ≠ bufferCell
  /-- Names that are no aliases have different addresses. -/
  names_apart : ∀ name other info info', (after base calls c).get? name = some info →
    (after base calls c).get? other = some info' → info.kind ≠ .aliased → info'.kind ≠ .aliased →
    name ≠ other → info.address ≠ info'.address
  /-- An address that a call hands out is smaller than all that were handed out before. -/
  descends : ∀ (later : List Call) (call : Call) (a : Int), later ++ [call] <+: calls →
    call.HandsOut (after base later c) a →
    ∀ (earlier : List Call) (call' : Call) (b : Int), earlier ++ [call'] <+: later →
      call'.HandsOut (after base earlier c) b → a < b
  /-- A declaration of a bound name tells its address and changes nothing. -/
  redeclared : ∀ (call : Call) (name : String) (info : SymbolInfo),
    call.declares? = some name → (after base calls c).get? name = some info →
    call.perform (after base calls c)
      = (.ok (call.answer (.existing info.address)), after base calls c)
  /-- If no call was refused, strings are where they were declared. -/
  strings : Succeed base calls c → ∀ name a n,
    (after base calls c).get? name = some ⟨a, .str n⟩ →
    ∃ text, text.toList.length = n ∧ HoldsString base calls name text a c
  /-- And no other name that is no alias has a part in the cells of a string. -/
  strings_apart : Succeed base calls c → ∀ name other info info',
    (after base calls c).get? name = some info → (after base calls c).get? other = some info' →
    info.kind ≠ .aliased → info'.kind ≠ .aliased → name ≠ other →
    ∀ a, info.Owns SymbolKind.below a → ¬ info'.Owns SymbolKind.below a

/-! ## Addresses that are integers -/

theorem consistent_after (calls : List Call) : Consistent base calls := by
  have hgrows := grows_after base calls
  have hsep : Separate (fun _ => 0) base (after base calls) :=
    separate_after base calls (Or.inl rfl)
  have howns : ∀ info : SymbolInfo, info.Owns (fun _ => 0) info.address := fun info => by
    rw [SymbolInfo.Owns]
    omega
  exact {
    bound := fun earlier call answer hearlier hanswer =>
      have hout := outcome_snoc base earlier call
      (names_isPrefix base hearlier).subset (hanswer ▸ hout).name_mem
    nodup := nodup_names base calls
    listed := fun name info => mem_iff_lookup (nodup_names base calls)
    order := names_in_order base calls
    cells := (cells_after base calls).1
    cells_handedOut := fun cell hcell =>
      have hin := (cells_after base calls).2 cell hcell
      ⟨hin, not_reserved hgrows hin⟩
    names_handedOut := fun name info hget hkind =>
      have hin := hsep.handedOut name info hget hkind info.address (howns info)
      ⟨hin, not_reserved hgrows hin⟩
    names_apart := fun name other info info' hget hget' hkind hkind' hne heq =>
      hsep.apart name other info info' hget hget' hkind hkind' hne info.address (howns info)
        (heq ▸ howns info')
    descends := fun later call a _ ha earlier call' b hearlier hb => handsOut_lt base ha hearlier hb
    redeclared := fun call name info hcall hget => Prod.ext
      ((call.outcome _).of_bound hcall hget).1 ((call.outcome _).of_bound hcall hget).2
    strings := fun hs name a n hget => holdsString_after base hs hget
    strings_apart := fun hs => (separate_after base calls (Or.inr ⟨rfl, hs⟩)).apart }

/-! ## Addresses that are words -/

/-- A call does the same for words and for integers. -/
theorem Call.tracks (call : Call) : Tracks call.run call.run := by
  cases call with
  | declareInt name value => exact (tracks_declare name value .int).bind fun _ => .pure _
  | declareLiteral spelling value =>
    exact (tracks_declareLiteral spelling value).bind fun _ => .pure _
  | declareString name text => exact (tracks_declareString name text).bind fun _ => .pure _
  | allocateSlot name => exact (tracks_allocateSlot name).bind fun _ => .pure _
  | bind name a =>
    refine Tracks.bind (Tracks.modify ?_ ?_) fun _ => .pure _
    · exact fun _ => rfl
    · exact fun _ => rfl

section Words

variable {base} {calls : List Call}

theorem moves_of_isPrefix {earlier : List Call} (h : earlier <+: calls) :
    Moves (after base earlier .wrapping).cursor (after base calls .wrapping).cursor := by
  induction calls using List.reverseRecOn with
  | nil =>
    cases List.prefix_nil.mp h
    exact .refl _
  | append_singleton calls call ih =>
    rcases List.prefix_concat_iff.mp h with rfl | h
    · exact .refl _
    · rw [after_snoc]
      exact (ih h).trans (call.tracks.moves _)

/-- The cursor has not come round in between either. -/
theorem onward_of_isPrefix (hle : (after base calls .wrapping).cursor ≤ base) {earlier : List Call}
    (h : earlier <+: calls) : Onward base (after base earlier .wrapping).cursor ∧
      Onward (after base earlier .wrapping).cursor (after base calls .wrapping).cursor :=
  (moves_of_isPrefix List.nil_prefix).split (moves_of_isPrefix h) hle

theorem same_perform {table : SymbolTable} {call : Call} (h : Same call.run call.run table) :
    call.perform (table.recount .wrapping)
      = ((call.perform table).1, (call.perform table).2.recount .wrapping) := h

/-- Until the words run out, the tables are those for integers. -/
theorem after_eq_recount (hle : (after base calls .wrapping).cursor ≤ base) :
    after base calls .wrapping = (after base calls).recount .wrapping := by
  induction calls using List.reverseRecOn with
  | nil => rfl
  | append_singleton calls call ih =>
    have hsplit := onward_of_isPrefix hle (List.prefix_append calls [call])
    have hbefore := ih hsplit.1.le
    have hstep := hsplit.2.le
    rw [after_snoc, hbefore] at hstep
    rw [after_snoc, hbefore, same_perform (call.tracks.of_le _ hstep), after_snoc]

/-- They are if the integers that are handed out are words. -/
theorem after_eq_recount_of_word (hword : Word.minimum ≤ (after base calls).cursor) :
    after base calls .wrapping = (after base calls).recount .wrapping := by
  induction calls using List.reverseRecOn with
  | nil => rfl
  | append_singleton calls call ih =>
    rw [after_snoc] at hword
    have hbefore := ih (Int.le_trans hword (call.tracks.descends _))
    rw [after_snoc, hbefore, same_perform (call.tracks.of_word _ hword), after_snoc]

/-- The words have run out exactly if more addresses are handed out than there are words from the
    base downwards. -/
theorem after_cursor_le_iff (hbase : Word.InRange base) :
    (after base calls .wrapping).cursor ≤ base ↔ Word.minimum ≤ (after base calls).cursor := by
  refine ⟨fun hle => ?_, fun hword => ?_⟩
  · have hword := (onward_of_isPrefix hle (List.prefix_refl calls)).1.word hbase.1
    rwa [after_eq_recount hle] at hword
  · rw [after_eq_recount_of_word hword]
    exact (grows_after base calls).cursor_le

end Words

/-- What is handed out by a call is the same until the words run out. -/
theorem Call.HandsOut.of_recount {table : SymbolTable} {call : Call} {a : Int}
    (hsame : Same call.run call.run table) (h : call.HandsOut (table.recount .wrapping) a) :
    call.HandsOut table a := by
  cases h with
  | declared h =>
    rw [same_perform hsame] at h
    exact .declared h
  | literal hget h =>
    rw [same_perform hsame] at h
    exact .literal hget h
  | slot h =>
    rw [same_perform hsame] at h
    exact .slot h
  | cell h hcell =>
    rw [same_perform hsame] at h
    exact .cell h hcell

section Carried

variable {base} {calls : List Call} (hle : (after base calls .wrapping).cursor ≤ base)

include hle

theorem after_eq_of_isPrefix {earlier : List Call} (h : earlier <+: calls) :
    after base earlier .wrapping = (after base earlier).recount .wrapping :=
  after_eq_recount (onward_of_isPrefix hle h).1.le

theorem same_of_isPrefix {earlier : List Call} {call : Call} (h : earlier ++ [call] <+: calls) :
    Same call.run call.run (after base earlier) := by
  have hsnoc := List.prefix_append earlier [call]
  have hstep := (onward_of_isPrefix (onward_of_isPrefix hle h).1.le hsnoc).2.le
  rw [after_snoc, after_eq_of_isPrefix hle (hsnoc.trans h)] at hstep
  exact call.tracks.of_le _ hstep

theorem perform_eq_of_isPrefix {earlier : List Call} {call : Call}
    (h : earlier ++ [call] <+: calls) :
    (call.perform (after base earlier .wrapping)).1 = (call.perform (after base earlier)).1 := by
  rw [after_eq_of_isPrefix hle ((List.prefix_append earlier [call]).trans h),
    same_perform (same_of_isPrefix hle h)]

theorem Succeed.of_wrapping (hs : Succeed base calls .wrapping) : Succeed base calls := by
  intro earlier call hearlier
  rcases hs earlier call hearlier with ⟨answer, hanswer⟩
  exact ⟨answer, (perform_eq_of_isPrefix hle hearlier).symm.trans hanswer⟩

theorem BoundBefore.to_wrapping {first second : String} (h : BoundBefore base calls first second) :
    BoundBefore base calls first second .wrapping := by
  rcases h with ⟨earlier, hearlier, hfirst, hsecond⟩
  have heq := after_eq_of_isPrefix hle hearlier
  exact ⟨earlier, hearlier, by rwa [heq], by rwa [heq]⟩

theorem HoldsString.to_wrapping {name text : String} {a : Int}
    (h : HoldsString base calls name text a) : HoldsString base calls name text a .wrapping := by
  rcases h with ⟨⟨earlier, hearlier, hfresh⟩, hlength, hchars⟩
  have heq := after_eq_recount hle
  exact ⟨⟨earlier, hearlier, (perform_eq_of_isPrefix hle hearlier).trans hfresh⟩,
    by rwa [heq], by rwa [heq]⟩

/-- The invariant carries over from integers to words that have not run out. -/
theorem consistent_of_cursor_le (hbase : Word.InRange base) : Consistent base calls .wrapping := by
  have h := consistent_after base calls
  have heq := after_eq_recount hle
  exact {
    bound := fun earlier call answer hearlier hanswer => by
      rw [perform_eq_of_isPrefix hle hearlier] at hanswer
      rw [heq]
      exact h.bound earlier call answer hearlier hanswer
    nodup := by
      rw [heq]
      exact h.nodup
    listed := by
      rw [heq]
      exact h.listed
    order := by
      rw [heq]
      exact h.order.imp fun hbefore => hbefore.to_wrapping hle
    cells := by
      rw [heq]
      exact h.cells
    cells_handedOut := by
      rw [heq]
      exact h.cells_handedOut
    names_handedOut := by
      rw [heq]
      exact h.names_handedOut
    names_apart := by
      rw [heq]
      exact h.names_apart
    descends := fun later call a hlater ha earlier call' b hearlier hb => by
      have hbegin := (List.prefix_append later [call]).trans hlater
      have hearlier' := (List.prefix_append earlier [call']).trans (hearlier.trans hbegin)
      rw [after_eq_of_isPrefix hle hbegin] at ha
      rw [after_eq_of_isPrefix hle hearlier'] at hb
      exact h.descends later call a hlater (ha.of_recount (same_of_isPrefix hle hlater)) earlier
        call' b hearlier (hb.of_recount (same_of_isPrefix hle (hearlier.trans hbegin)))
    redeclared := fun call name info hcall hget => by
      rw [heq] at hget ⊢
      have hsame := h.redeclared call name info hcall hget
      -- The table stays as it is, so its cursor stays a word.
      have hword : Word.minimum ≤ (call.perform (after base calls)).2.cursor := by
        rw [hsame]
        exact (after_cursor_le_iff hbase).mp hle
      rw [same_perform (call.tracks.of_word _ hword), hsame]
    strings := fun hs name a n hget => by
      rw [heq] at hget
      rcases h.strings (hs.of_wrapping hle) name a n hget with ⟨text, hlength, hholds⟩
      exact ⟨text, hlength, hholds.to_wrapping hle⟩
    strings_apart := fun hs => by
      rw [heq]
      exact h.strings_apart (hs.of_wrapping hle) }

end Carried

/-! ## Words that have run out -/

section Binds

variable {c : Countdown}

/-- A declaration changes nothing, and then it is not a new one, or it binds its name. -/
theorem runOn_declare_binds (name : String) (value : Int) (kind : SymbolKind)
    (table : SymbolTable c) :
    (∃ r, (declare name value kind).runOn table = (r, table) ∧ ∀ a, r ≠ .ok (.fresh a)) ∨
      ((declare name value kind).runOn table).2.get? name = some ⟨table.cursor, kind⟩ := by
  rw [declare, Allocating.runOn_bind, Allocating.runOn_get]
  cases hget : table.get? name with
  | some info =>
    simp only [hget, Allocating.runOn_pure]
    exact Or.inl ⟨_, rfl, fun a => by simp⟩
  | none =>
    simp only [hget, Allocating.runOn_bind, runOn_allocate]
    by_cases hr : isReserved table.cursor = true
    · simp only [if_pos hr]
      exact Or.inl ⟨_, rfl, fun a => by simp⟩
    · simp only [if_neg hr]
      exact Or.inr ((get?_insert _ _ _ _).trans (if_pos rfl))

theorem bindings_runOn_allocateChars (text : List Char) (table : SymbolTable c) :
    ((allocateChars text).runOn table).2.bindings = table.bindings := by
  induction text generalizing table with
  | nil => rfl
  | cons char text ih =>
    rw [allocateChars, Allocating.runOn_bind, runOn_allocate]
    by_cases hr : isReserved table.cursor = true
    · simp only [if_pos hr]
    · simp only [if_neg hr, Allocating.runOn_bind]
      exact ih _

theorem runOn_bind_pure {α β : Type} (x : AllocatingBy c α) (f : α → β) (table : SymbolTable c) :
    ((x >>= fun a => pure (f a)).runOn table).2 = (x.runOn table).2 := by
  rw [Allocating.runOn_bind]
  rcases x.runOn table with ⟨_ | a, mid⟩ <;> rfl

/-- A call that takes an address from the allocator binds its name to one. -/
theorem perform_binds (call : Call) (table : SymbolTable c) :
    (call.perform table).2.cursor = table.cursor ∨
      ∃ info, (call.perform table).2.get? call.name = some info ∧ info.kind ≠ .aliased := by
  cases call with
  | declareInt name value =>
    rw [Call.perform, Call.run, runOn_bind_pure, declareInt]
    rcases runOn_declare_binds name value .int table with ⟨r, hrun, -⟩ | hget
    · exact Or.inl (by rw [hrun])
    · exact Or.inr ⟨_, hget, by simp⟩
  | declareLiteral spelling value =>
    rw [Call.perform, Call.run, runOn_bind_pure, declareLiteral, runOn_bind_pure]
    rcases runOn_declare_binds spelling value .literal table with ⟨r, hrun, -⟩ | hget
    · exact Or.inl (by rw [hrun])
    · exact Or.inr ⟨_, hget, by simp⟩
  | declareString name text =>
    rw [Call.perform, Call.run, runOn_bind_pure, declareString, Allocating.runOn_bind]
    rcases runOn_declare_binds name text.toList.length (.str text.toList.length) table with
      ⟨r, hrun, hold⟩ | hget
    · rw [hrun]
      rcases r with e | a | a
      · exact Or.inl rfl
      · exact absurd rfl (hold a)
      · exact Or.inl rfl
    · refine Or.inr ⟨⟨table.cursor, .str text.toList.length⟩, ?_, by simp⟩
      rcases hrun : (declare name text.toList.length (.str text.toList.length)).runOn table with
        ⟨e | a | a, mid⟩ <;> rw [hrun] at hget
      · exact hget
      · simp only [runOn_bind_pure]
        rwa [get?, bindings_runOn_allocateChars]
      · exact hget
  | allocateSlot name =>
    rw [Call.perform, Call.run, runOn_bind_pure, allocateSlot, Allocating.runOn_bind,
      runOn_allocate]
    by_cases hr : isReserved table.cursor = true
    · rw [if_pos hr]
      exact Or.inl rfl
    · rw [if_neg hr]
      exact Or.inr ⟨_, (get?_insert _ _ _ _).trans (if_pos rfl), by simp⟩
  | bind name a => exact Or.inl rfl

end Binds

/-- A number, a string, the number under a new address and another name for the old one. -/
def callsOfAllKinds : List Call := [.declareInt "a" 5, .declareString "s" "hi", .declareInt "a" 7,
  .allocateSlot "a", .bind "b" 1000]

end SymbolTable

end AccumulatorMachine
