import AccumulatorMachine.Proofs.Lowering.Nesting
import AccumulatorMachine.Proofs.Lowering.Scope
import AccumulatorMachine.Proofs.Lowering.Tables

/-!
# Names

Names stand for the addresses of their latest bindings, wherever they are used.

The scope in front of a statement is computed from the statements before it and from nothing else.
Three things follow. What is emitted for a statement does not depend on those after it, so no
binding changes it later. A name keeps its address until a statement binds it again, also if it
shares the address with a name that is bound to something else in the meantime. And a name has no
address just if no statement before binds it.

The last one is what makes errors predictable. A name without an address is reported if lowering
gets to a use of it, and this is the case if nothing else is wrong before.

## Main definitions

* `Program.scopeAt`: The scope in front of a statement.
* `Scope.Above`: All bindings are to addresses that were handed out.
* `Statement.Form.Binds`: The statements that bind a name if it is not bound.
* `Block.apartFromJumps`: The code of a statement without its jumps.
* `Program.NamesResolve`: What holds of the names of a program.

## Theorems

* `Scope.Above.after`: New addresses are below all that were handed out.
* `Statement.Form.after_keeps`, `Statement.Form.after_of_not_binds`: Names that keep their
  addresses.
* `Statement.Form.Emits.unique`: The scope determines the code.
* `Lowering.statements_unbound_iff`: Which names have no address.
* `Program.compile_unbound_iff`: When a name without an address is reported.
* `Program.names_resolve`: Names resolve statically to their latest binding.
-/

namespace AccumulatorMachine

/-! ## Fresh addresses -/

namespace Scope

variable {scope : Scope} {name : String} {a : Int}

/-- All bindings so far are to addresses above the one that is handed out next. -/
def Above (scope : Scope) : Prop := ∀ binding ∈ scope.bindings, scope.next < binding.2

theorem Above.lt (h : scope.Above) (ha : scope.latest? name = some a) : scope.next < a := by
  rcases List.lookup_eq_some_iff.mp ha with ⟨front, back, hbindings, -⟩
  exact h (name, a) (hbindings ▸ List.mem_append_right _ List.mem_cons_self)

theorem Above.bind (h : scope.Above) (ha : scope.next < a) : (scope.bind name a).Above :=
  List.forall_mem_cons.mpr ⟨ha, h⟩

theorem Above.allot (h : scope.Above) (name : String) {count : Nat} (hcount : 0 < count) :
    (scope.allot name count).Above := by
  have hlt : scope.next - count < scope.next := by omega
  exact List.forall_mem_cons.mpr ⟨hlt, fun binding hbinding =>
    Int.lt_trans hlt (h binding hbinding)⟩

theorem Above.declare (h : scope.Above) (name : String) {count : Nat} (hcount : 0 < count) :
    (scope.declare name count).Above := by
  rw [Scope.declare]
  split
  · exact h
  · exact h.allot name hcount

theorem next_declare_le (scope : Scope) (name : String) (count : Nat) :
    (scope.declare name count).next ≤ scope.next := by
  rw [declare]
  split
  · exact Int.le_refl _
  · simp only [allot]
    omega

theorem Above.mentionAll (h : scope.Above) (operands : List Operand) :
    (scope.mentionAll operands).Above ∧ (scope.mentionAll operands).next ≤ scope.next := by
  induction operands generalizing scope with
  | nil => exact ⟨h, Int.le_refl _⟩
  | cons o operands ih =>
    cases o with
    | name other => exact ih h
    | literal spelling value =>
      rcases ih (h.declare spelling Nat.one_pos) with ⟨habove, hle⟩
      exact ⟨habove, Int.le_trans hle (next_declare_le scope spelling 1)⟩

/-- A statement hands out addresses below all that were handed out before. -/
theorem Above.after (h : scope.Above) (f : Statement.Form) : (f.after scope).Above := by
  rcases h.mentionAll f.operands with ⟨hinside, hle⟩
  cases f with
  | int name value => exact h.declare name Nat.one_pos
  | string name text => exact h.declare name (Nat.succ_pos _)
  | inputInt name => exact h.allot name Nat.one_pos
  | new name e =>
    rw [Statement.Form.after]
    cases hfirst : (Statement.Form.new name e).operands.head?.bind
        ((Statement.Form.new name e).address? scope) with
    | none => exact hinside
    | some a =>
      rcases Option.bind_eq_some_iff.mp hfirst with ⟨o, -, ha⟩
      refine hinside.bind ?_
      cases o with
      | name other => exact Int.lt_of_le_of_lt hle (h.lt ha)
      | literal spelling value => exact hinside.lt ha
  | outputInt | inputStr | outputStr | loop | endLoop => exact hinside

theorem Above.through (h : scope.Above) (ss : List Statement) : (scope.through ss).Above := by
  induction ss generalizing scope with
  | nil => exact h
  | cons s rest ih => exact ih (h.after s.form)

theorem through_append (scope : Scope) (first second : List Statement) :
    scope.through (first ++ second) = (scope.through first).through second :=
  List.foldl_append

end Scope

/-! ## What statements bind -/

/-- The statements that bind a name if it is not bound yet. -/
def Statement.Form.Binds (name : String) : Statement.Form → Prop
  | .int other _ | .string other _ | .new other _ | .inputInt other => other = name
  | .outputInt _ | .inputStr | .outputStr _ | .loop .. | .endLoop => False

namespace Statement.Form

variable {f : Statement.Form} {scope : Scope} {name : String} {a : Int}

/-- A name keeps its address unless the statement binds it again. -/
theorem after_keeps (hf : ¬ f.Rebinds name) (h : scope.latest? name = some a) :
    (f.after scope).latest? name = some a := by
  have hinside : (f.inside scope).latest? name = some a := Scope.mentionAll_keeps h f.operands
  cases f with
  | int other value => exact Scope.declare_keeps h other 1
  | string other text => exact Scope.declare_keeps h other _
  | new other e =>
    rw [after]
    cases (Statement.Form.new other e).operands.head?.bind
        ((Statement.Form.new other e).address? scope) with
    | none => exact hinside
    | some b =>
      rw [Scope.share, Scope.latest?_bind, if_neg fun heq => hf heq.symm]
      exact hinside
  | inputInt other =>
    rw [after, Scope.latest?_allot, if_neg fun heq => hf heq.symm]
    exact h
  | outputInt | inputStr | outputStr | loop | endLoop => exact hinside

/-- A word that a statement does not bind means what it meant before. -/
theorem after_of_not_binds (hfaithful : f.Faithful) (hname : Source.IsWord name)
    (hf : ¬ f.Binds name) (scope : Scope) :
    (f.after scope).latest? name = scope.latest? name := by
  have hinside : (f.inside scope).latest? name = scope.latest? name :=
    hfaithful.latest?_mentionAll hname (fun _ => id) scope
  cases f with
  | int other value => exact Scope.latest?_declare_of_ne (fun heq => hf heq.symm) scope 1
  | string other text => exact Scope.latest?_declare_of_ne (fun heq => hf heq.symm) scope _
  | new other e =>
    rw [after]
    cases (Statement.Form.new other e).operands.head?.bind
        ((Statement.Form.new other e).address? scope) with
    | none => exact hinside
    | some b =>
      rw [Scope.share, Scope.latest?_bind, if_neg fun heq => hf heq.symm]
      exact hinside
  | inputInt other => rw [after, Scope.latest?_allot, if_neg fun heq => hf heq.symm]
  | outputInt | inputStr | outputStr | loop | endLoop => exact hinside

/-- A statement binds what it is said to bind. -/
theorem Emits.binds {count : Nat} {code : List Instruction} (h : f.Emits scope count code)
    (hf : f.Binds name) :
    ∃ a, (f.after scope).latest? name = some a := by
  cases h with
  | int other value =>
    cases hf
    exact Scope.exists_latest?_declare scope name 1
  | string other text =>
    cases hf
    exact Scope.exists_latest?_declare scope name _
  | @new other e phrase a code htokens hphrase hcode hfirst =>
    cases hf
    exact ⟨a, by rw [after, hfirst, Scope.share, Scope.latest?_bind, if_pos rfl]⟩
  | inputInt other =>
    cases hf
    exact ⟨scope.next, by rw [after, Scope.latest?_allot, if_pos rfl]⟩
  | outputInt | inputStr | outputStr | loop | endLoop => exact absurd hf id

end Statement.Form

/-! ## What a scope determines -/

/-- The code of a statement without its jumps. -/
def Block.apartFromJumps (block : Block) : List Instruction :=
  block.code.filter fun i => i.opcode ≠ .jump

/-- The scope in front of a statement determines its code, but for the jumps of loops. -/
theorem Statement.Form.Emits.unique {f : Statement.Form} {scope : Scope} {count count' : Nat}
    {block block' : Block} (h : f.Emits scope count block.code)
    (h' : f.Emits scope count' block'.code) : block.apartFromJumps = block'.apartFromJumps := by
  rw [Block.apartFromJumps, Block.apartFromJumps]
  generalize block.code = code at h
  generalize block'.code = code' at h'
  -- Both codes have the same form, and the scope says which cells they name.
  cases h with
  | new htokens hf hcode =>
    cases h' with
    | new htokens' hf' hcode' =>
      -- The tokens of an expression are one phrase only.
      have hsame := (Phrase.derives_iff.mp hf).1.eq_of_tokens (Phrase.derives_iff.mp hf').1
        (htokens.symm.trans htokens')
      rw [hsame, hcode'] at hcode
      cases hcode
      rfl
  | outputInt ha =>
    cases h' with
    | outputInt ha' =>
      rw [ha] at ha'
      cases ha'
      rfl
  | inputStr hzero =>
    cases h' with
    | inputStr hzero' =>
      rw [hzero] at hzero'
      cases hzero'
      rfl
  | outputStr hzero hone ha =>
    cases h' with
    | outputStr hzero' hone' ha' =>
      rw [hzero] at hzero'
      rw [hone] at hone'
      rw [ha] at ha'
      cases hzero'
      cases hone'
      cases ha'
      rfl
  | @loop left right comparison a b hleft hright =>
    cases h' with
    | loop hleft' hright' =>
      rw [hleft] at hleft'
      rw [hright] at hright'
      cases hleft'
      cases hright'
      cases comparison <;> rfl
  | endLoop =>
    cases h'
    -- The two jumps may lead to different places, but they are left out.
    simp
  | int | string | inputInt =>
    cases h'
    rfl

namespace Lowering

/-- A word has no address behind statements just if it had none in front of them and none of them
    binds it. -/
theorem statements_unbound_iff {pairs : LoopPairs} {index : Nat} {opened : List Nat}
    {ss : List Statement} {blocks : List Block} {scope : Scope} {table table' : SymbolTable}
    {name : String} (h : (statements pairs index opened ss).run table = .ok (blocks, table'))
    (hscope : scope.Agrees table) (hfaithful : ∀ s ∈ ss, s.form.Faithful)
    (hname : Source.IsWord name) :
    (scope.through ss).latest? name = none ↔
      scope.latest? name = none ∧ ∀ s ∈ ss, ¬ s.form.Binds name := by
  induction ss generalizing index opened table blocks scope with
  | nil => simp [Scope.through]
  | cons first rest ih =>
    rcases statements_cons_ok h with ⟨block, opened', mid, blocks', rfl, hfirst, hrest⟩
    have hfaithful' := hfaithful first List.mem_cons_self
    rcases (statement_ok hfirst).emits hscope hfaithful' with ⟨hmid, count, hemits⟩
    refine (ih hrest hmid fun s hs => hfaithful s (List.mem_cons_of_mem first hs)).trans ?_
    rw [List.forall_mem_cons, ← and_assoc]
    refine and_congr_left fun _ => ?_
    by_cases hbinds : first.form.Binds name
    · rcases hemits.binds hbinds with ⟨a, ha⟩
      simp [ha, hbinds]
    · rw [Statement.Form.after_of_not_binds hfaithful' hname hbinds]
      simp [hbinds]

end Lowering

/-! ## Programs -/

namespace Program

variable {program : Program} {dataBase : Int}

/-- What names mean in front of the statement at an index. -/
def scopeAt (program : Program) (dataBase : Int) (index : Nat) : Scope :=
  (Scope.start dataBase).through (program.statements.take index)

theorem scopeAt_succ {k : Nat} {s : Statement} (hs : program.statements[k]? = some s) :
    program.scopeAt dataBase (k + 1) = s.form.after (program.scopeAt dataBase k) := by
  rw [scopeAt, List.take_add_one, hs, Scope.through_append]
  rfl

/-- A name keeps its address up to the statement that binds it again. -/
theorem scopeAt_keeps {j k : Nat} {name : String} {a : Int} (hjk : j ≤ k)
    (ha : (program.scopeAt dataBase j).latest? name = some a)
    (hkept : ∀ i s, j ≤ i → i < k → program.statements[i]? = some s → ¬ s.form.Rebinds name) :
    (program.scopeAt dataBase k).latest? name = some a := by
  induction hjk with
  | refl => exact ha
  | @step k hjk ih =>
    have hbefore := ih fun i s hi hik => hkept i s hi (Nat.lt_succ_of_lt hik)
    cases hs : program.statements[k]? with
    | none =>
      have hlength := List.getElem?_eq_none_iff.mp hs
      rw [scopeAt, List.take_of_length_le (Nat.le_succ_of_le hlength)]
      rwa [scopeAt, List.take_of_length_le hlength] at hbefore
    | some s =>
      rw [scopeAt_succ hs]
      exact Statement.Form.after_keeps (hkept k s hjk (Nat.lt_succ_self k) hs) hbefore

theorem compile_of_error {pairs : LoopPairs} {e : CompileError}
    (hpairs : LoopPairs.ofStatements? program.statements = .ok pairs)
    (hrun : (Lowering.statements pairs 0 [] program.statements).run (.empty dataBase) = .error e) :
    program.compile dataBase = .error e := by
  rw [compile, hpairs]
  simp only [bind, Except.bind, hrun]

/-- Where a name is used, it has no address just if no statement before binds it. -/
theorem uses_unbound_iff {pairs : LoopPairs} (hfaithful : ∀ s ∈ program.statements, s.form.Faithful)
    {k : Nat} {s : Statement} {blocks : List Block} {table table' : SymbolTable} {name : String}
    {place : Span} (hs : program.statements[k]? = some s)
    (hrun : (Lowering.statements pairs 0 [] (program.statements.take k)).run (.empty dataBase)
      = .ok (blocks, table)) (huses : Lowering.Uses s table name place table') :
    table'.addressOf? name = none ↔
      ∀ earlier ∈ program.statements.take k, ¬ earlier.form.Binds name := by
  have hbegin : ∀ s ∈ program.statements.take k, s.form.Faithful :=
    fun s hs => hfaithful s (List.mem_of_mem_take hs)
  have hstart := Scope.Agrees.empty dataBase
  have hagrees := (Lowering.statements_emits hrun hstart hbegin).1
  rcases huses.latest?_eq hagrees (hfaithful s (List.mem_of_getElem? hs)) with ⟨hname, haddress⟩
  rw [haddress, Lowering.statements_unbound_iff hrun hstart hbegin hname]
  -- No name has an address in the empty table.
  exact and_iff_right (show (Scope.start dataBase).latest? name = none from rfl)

/-- A name without an address is reported just if lowering gets to a use of it and no statement
    before binds it. -/
theorem compile_unbound_iff {pairs : LoopPairs}
    (hpairs : LoopPairs.ofStatements? program.statements = .ok pairs)
    (hfaithful : ∀ s ∈ program.statements, s.form.Faithful) {name : String}
    {suggestion : Option String} {span : Option Span} :
    program.compile dataBase = .error ⟨.unboundIdentifier name suggestion, span⟩ ↔
      ∃ k s blocks table place table', program.statements[k]? = some s ∧
        (Lowering.statements pairs 0 [] (program.statements.take k)).run (.empty dataBase)
          = .ok (blocks, table) ∧ Lowering.Uses s table name place table' ∧
        (∀ earlier ∈ program.statements.take k, ¬ earlier.form.Binds name) ∧
        suggestion = table'.suggest name ∧ span = some place := by
  constructor
  · intro h
    rcases compile_error h with hfails | ⟨pairs', k, s, blocks, table, opened, hpairs', hs, hrun,
      hfails⟩ | ⟨address, length, heq⟩
    · rw [hpairs] at hfails
      cases hfails
    · rw [hpairs] at hpairs'
      cases hpairs'
      rcases Lowering.statement_fails pairs k opened s table _ hfails with
        ⟨name', place', table', huses, hnone, heq⟩ | ⟨cause, place', heq, -, hcause⟩
      · cases heq
        exact ⟨k, s, blocks, table, place', table', hs, hrun, huses,
          (uses_unbound_iff hfaithful hs hrun huses).mp hnone, rfl, rfl⟩
      · cases heq
        exact absurd rfl (hcause name suggestion)
    · cases heq
  · rintro ⟨k, s, blocks, table, place, table', hs, hrun, huses, hnot, rfl, rfl⟩
    have hnone := (uses_unbound_iff hfaithful hs hrun huses).mpr hnot
    refine compile_of_error hpairs (Lowering.statements_error_of hs hrun fun opened => ?_)
    refine Lowering.statement_unresolved opened ⟨name, place, table', huses, hnone, rfl⟩ ?_
    -- A statement that starts a loop has its end, since all loops are paired.
    intro left comparison right hform
    rcases (LoopPairs.pairFrom_closes hpairs).2 k s hs ⟨left, comparison, right, hform⟩ with
      ⟨stop, hstop⟩
    exact ⟨stop, (LoopPairs.endOf?_eq_some_iff hpairs).mpr hstop⟩

/-- The names of a program mean what they were bound to last. -/
structure NamesResolve (program : Program) (dataBase : Int) : Prop where
  /-- Each statement emits the addresses that its names have in front of it. -/
  emits : ∀ compiled, program.compile dataBase = .ok compiled →
    ∀ (k : Nat) (s : Statement), program.statements[k]? = some s → ∃ block count,
      compiled.blocks[k]? = some block ∧
      s.form.Emits (program.scopeAt dataBase k) count block.code
  /-- The symbol table has the latest bindings of all names. -/
  symbols : ∀ compiled, program.compile dataBase = .ok compiled → ∀ name,
    compiled.symbols.addressOf? name
      = (program.scopeAt dataBase program.statements.length).latest? name
  /-- The bindings behind a statement are those in front of it and its own. -/
  steps : ∀ (k : Nat) (s : Statement), program.statements[k]? = some s →
    program.scopeAt dataBase (k + 1) = s.form.after (program.scopeAt dataBase k)
  /-- No name was ever bound to the address that is handed out next. -/
  fresh : ∀ k, ∀ binding ∈ (program.scopeAt dataBase k).bindings,
    binding.2 ≠ (program.scopeAt dataBase k).next
  /-- A name that is not bound again keeps its address, whatever happens to others. -/
  kept : ∀ (j k : Nat) (name : String) (a : Int), j ≤ k →
    (program.scopeAt dataBase j).latest? name = some a →
    (∀ (i : Nat) (s : Statement), j ≤ i → i < k → program.statements[i]? = some s →
      ¬ s.form.Rebinds name) → (program.scopeAt dataBase k).latest? name = some a
  /-- What has been emitted does not depend on later statements, but for the jumps of loops. -/
  final : ∀ (other : Program) (compiled compiled' : Compiled) (k : Nat) (block block' : Block),
    other.statements.take (k + 1) = program.statements.take (k + 1) →
    program.compile dataBase = .ok compiled → other.compile dataBase = .ok compiled' →
    compiled.blocks[k]? = some block → compiled'.blocks[k]? = some block' →
    block.apartFromJumps = block'.apartFromJumps
  /-- A name without an address is reported just if lowering gets to a use of it. -/
  unbound : ∃ pairs, LoopPairs.ofStatements? program.statements = .ok pairs ∧
    ∀ name suggestion span,
      program.compile dataBase = .error ⟨.unboundIdentifier name suggestion, span⟩ ↔
        ∃ k s blocks table place table', program.statements[k]? = some s ∧
          (Lowering.statements pairs 0 [] (program.statements.take k)).run (.empty dataBase)
            = .ok (blocks, table) ∧ Lowering.Uses s table name place table' ∧
          (∀ earlier ∈ program.statements.take k, ¬ earlier.form.Binds name) ∧
          suggestion = table'.suggest name ∧ span = some place

theorem compile_emits {compiled : Compiled} (h : program.compile dataBase = .ok compiled) {k : Nat}
    (hfaithful : ∀ s ∈ program.statements.take (k + 1), s.form.Faithful) {s : Statement}
    (hs : program.statements[k]? = some s) :
    ∃ block count, compiled.blocks[k]? = some block ∧
      s.form.Emits (program.scopeAt dataBase k) count block.code := by
  rcases compile_ok h with ⟨pairs, -, hlowering, -⟩
  rcases Lowering.statements_get hlowering hs with ⟨block, _, _, _, _, hblock, -, -, hrun, -⟩
  have hlast : (program.statements.take (k + 1))[k]? = some s := by
    rw [List.getElem?_take, if_pos (Nat.lt_succ_self k), hs]
  rcases (Lowering.statements_emits hrun (Scope.Agrees.empty dataBase) hfaithful).2 k s hlast with
    ⟨block', count, hblock', hemits⟩
  rw [List.getElem?_take, if_pos (Nat.lt_succ_self k), hblock] at hblock'
  cases hblock'
  rw [List.take_take, Nat.min_eq_left (Nat.le_succ k)] at hemits
  exact ⟨block, count, hblock, hemits⟩

/-- Programs that begin alike have the same code there, except for their jumps. -/
theorem block_of_take_eq {other : Program} {compiled compiled' : Compiled} {k : Nat}
    {block block' : Block} (hfaithful : ∀ s ∈ program.statements.take (k + 1), s.form.Faithful)
    (hsame : other.statements.take (k + 1) = program.statements.take (k + 1))
    (h : program.compile dataBase = .ok compiled) (h' : other.compile dataBase = .ok compiled')
    (hblock : compiled.blocks[k]? = some block) (hblock' : compiled'.blocks[k]? = some block') :
    block.apartFromJumps = block'.apartFromJumps := by
  have hlt : k < program.statements.length := by
    rw [← compile_length h]
    exact (List.getElem?_eq_some_iff.mp hblock).1
  have hs := List.getElem?_eq_getElem hlt
  have hs' : other.statements[k]? = some program.statements[k] := by
    have hget := congrArg (·[k]?) hsame
    simpa only [List.getElem?_take, if_pos (Nat.lt_succ_self k), hs] using hget
  -- The statements in front are the same, so the scope is.
  have hscope : other.scopeAt dataBase k = program.scopeAt dataBase k := by
    have htake := congrArg (List.take k) hsame
    rw [List.take_take, List.take_take, Nat.min_eq_left (Nat.le_succ k)] at htake
    rw [scopeAt, scopeAt, htake]
  rcases compile_emits h hfaithful hs with ⟨_, count, hget, hemits⟩
  rcases compile_emits h' (hsame ▸ hfaithful) hs' with ⟨_, count', hget', hemits'⟩
  rw [hblock] at hget
  rw [hblock'] at hget'
  cases hget
  cases hget'
  exact hemits.unique (hscope ▸ hemits')

/-- Names resolve statically to their latest binding. -/
theorem names_resolve {source : List Char} (hsource : parse? source = .ok program)
    (hbalanced : program.Balanced) (dataBase : Int) : program.NamesResolve dataBase := by
  have hfaithful := parse?_faithful hsource
  have hbegin : ∀ k, ∀ s ∈ program.statements.take k, s.form.Faithful :=
    fun k s hs => hfaithful s (List.mem_of_mem_take hs)
  exact {
    emits := fun compiled h k s hs => compile_emits h (hbegin _) hs
    symbols := by
      intro compiled h name
      rcases compile_ok h with ⟨pairs, -, hlowering, -⟩
      rw [scopeAt, List.take_length]
      exact (Lowering.statements_emits hlowering (.empty dataBase) hfaithful).1.names name
    steps := fun k s hs => scopeAt_succ hs
    fresh := by
      intro k binding hbinding
      have hstart : (Scope.start dataBase).Above := by simp [Scope.Above, Scope.start]
      exact Int.ne_of_gt (hstart.through (program.statements.take k) binding hbinding)
    kept := fun j k name a hjk ha hkept => scopeAt_keeps hjk ha hkept
    final := fun other compiled compiled' k block block' hsame h h' hblock hblock' =>
      block_of_take_eq (hbegin _) hsame h h' hblock hblock'
    unbound := by
      rcases balanced_iff.mp hbalanced with ⟨pairs, hpairs⟩
      exact ⟨pairs, hpairs, fun name suggestion span => compile_unbound_iff hpairs hfaithful⟩ }

/-- A program that binds a name to the cell of another one, which is then bound to a new cell. -/
def sharesThenReads : Program where
  statements := [⟨.int "a" 5, ⟨0, 7⟩⟩, ⟨.string "s" "x", ⟨9, 19⟩⟩,
    ⟨.new "b" ⟨[(.operand (.name "a"), ⟨27, 28⟩)], ⟨27, 28⟩⟩, ⟨21, 28⟩⟩,
    ⟨.inputInt "a", ⟨30, 42⟩⟩,
    ⟨.loop (.name "b") .less (.literal "9" 9), ⟨44, 55⟩⟩,
    ⟨.new "b" ⟨[(.operand (.name "b"), ⟨63, 64⟩), (.operator .add, ⟨65, 66⟩),
      (.operand (.name "a"), ⟨67, 68⟩), (.operator .multiply, ⟨69, 70⟩),
      (.operand (.literal "1" 1), ⟨71, 72⟩)], ⟨63, 72⟩⟩, ⟨57, 72⟩⟩,
    ⟨.endLoop, ⟨74, 82⟩⟩, ⟨.outputInt "b", ⟨84, 97⟩⟩, ⟨.outputStr "s", ⟨99, 112⟩⟩]

/-- Its text. -/
def sharesThenReadsText : String :=
  "int a 5; string s x; new b a; input_int(a); while b < 9; " ++
    "new b b + a * 1; endWhile; output_int(b); output_str(s)"

/-- Its code, statement by statement. -/
def sharesThenReadsCode : List (List Instruction) :=
  [[], [], [], [⟨.input, 0⟩, ⟨.write, 997⟩],
    [⟨.read, 1000⟩, ⟨.subtract, 996⟩, ⟨.skip .signed false, 995⟩, ⟨.jump, 7⟩],
    [⟨.read, 997⟩, ⟨.multiply, 995⟩, ⟨.write, 997⟩, ⟨.read, 1000⟩, ⟨.add, 997⟩, ⟨.write, 1000⟩],
    [⟨.jump, -9⟩], [⟨.read, 1000⟩, ⟨.output, 0⟩],
    [⟨.read, 994⟩, ⟨.write, 1001⟩, ⟨.read, 1001⟩, ⟨.subtract, 999⟩, ⟨.skip .signed false, 993⟩,
      ⟨.jump, 9⟩, ⟨.read, 1001⟩, ⟨.add, 995⟩, ⟨.write, 1001⟩, ⟨.readAddress, 999⟩,
      ⟨.subtract, 1001⟩, ⟨.writeAddress, 0⟩, ⟨.output, 1⟩, ⟨.jump, -11⟩]]

/-- The second name keeps the cell that it shared with the first one, and all uses of the two are
    uses of the cells that they have at this place. -/
theorem sharesThenReads_resolve :
    parse? sharesThenReadsText.toList = .ok sharesThenReads ∧
      sharesThenReads.Balanced ∧ sharesThenReads.NamesResolve 1000 ∧
      ∃ compiled, sharesThenReads.compile 1000 = .ok compiled ∧
        compiled.symbols.addressOf? "a" = some 997 ∧
        compiled.symbols.addressOf? "b" = some 1000 ∧
        compiled.blocks.map Block.code = sharesThenReadsCode := by
  have hsource : parse? sharesThenReadsText.toList = .ok sharesThenReads := by decide +kernel
  have hbalanced : sharesThenReads.Balanced := rfl
  have hresolve := names_resolve hsource hbalanced 1000
  obtain ⟨compiled, hcompiled, hcode⟩ : ∃ compiled, sharesThenReads.compile 1000 = .ok compiled ∧
    compiled.blocks.map Block.code = sharesThenReadsCode := ⟨_, rfl, rfl⟩
  have hsymbols := hresolve.symbols compiled hcompiled
  exact ⟨hsource, hbalanced, hresolve, compiled, hcompiled, hsymbols "a", hsymbols "b", hcode⟩

end Program

end AccumulatorMachine
