import AccumulatorMachine.Proofs.Names
import AccumulatorMachine.Proofs.SymbolTable

/-!
# Lowering as Calls

The operations of the symbol table that lowering a program comes to.

Lowering works on a symbol table with the operations that bind names, and in no other way. So the
table at any place of a program is the one after a sequence of calls, and whatever holds after all
sequences of calls holds there. Two kinds of calls are made for a statement: literals are declared
when they are used, and the name of the statement is bound, if it binds one. So a name that is not
that of a literal is the name of a statement.

## Main definitions

* `SymbolTable.Call.DeclaresLiteral`: The calls that declare a literal.
* `SymbolTable.CalledTo`: The tables that calls lead to.

## Theorems

* `SymbolTable.CalledTo.exists_calls`: Such a table is the one after a sequence of calls.
* `Lowering.form_called`, `Lowering.statements_called`: The calls that statements make.
* `Lowering.Uses.called`: The calls in front of the use of a name are those of literals.
* `Lowering.Uses.exists_calls`: The calls that lead to the table in which a name is used.
* `SymbolTable.exists_call_of_variable`: A name that is bound, but not as a literal, is that of
  another call.
-/

namespace AccumulatorMachine

namespace SymbolTable

/-- The declaration of a literal. -/
def Call.DeclaresLiteral : Call → Prop
  | declareLiteral .. => True
  | _ => False

/-- Calls of a kind lead from a table to another one. -/
inductive CalledTo (P : Call → Prop) (table : SymbolTable) : SymbolTable → Prop where
  | refl : CalledTo P table table
  | call {mid : SymbolTable} {call : Call} (h : CalledTo P table mid) (hcall : P call) :
      CalledTo P table (call.perform mid).2

namespace CalledTo

variable {P Q : Call → Prop} {table mid table' : SymbolTable}

theorem trans (h : CalledTo P table mid) (h' : CalledTo P mid table') :
    CalledTo P table table' := by
  induction h' with
  | refl => exact h
  | call _ hcall ih => exact ih.call hcall

theorem mono (h : CalledTo P table table') (hPQ : ∀ call, P call → Q call) :
    CalledTo Q table table' := by
  induction h with
  | refl => exact .refl
  | call _ hcall ih => exact ih.call (hPQ _ hcall)

/-- Calls on a table without names are a sequence of calls. -/
theorem exists_calls {base : Int} (h : CalledTo P (empty base) table) :
    ∃ calls, (∀ call ∈ calls, P call) ∧ table = after base calls := by
  induction h with
  | refl => exact ⟨[], by simp, rfl⟩
  | @call mid call _ hcall ih =>
    rcases ih with ⟨calls, hcalls, rfl⟩
    refine ⟨calls ++ [call], ?_, (after_snoc base calls call).symm⟩
    exact List.forall_mem_append.mpr ⟨hcalls, by simpa using hcall⟩

end CalledTo

/-- What a name is bound to after a call, it was bound to before, or the call has bound it. -/
theorem Call.Outcome.get?_cases {table table' : SymbolTable} {call : Call}
    {answer : Except ReservedAddress Call.Answer} (h : Call.Outcome table call answer table')
    {name : String} {info : SymbolInfo} (hget : table'.get? name = some info) :
    table.get? name = some info ∨
      call.name = name ∧ (call.DeclaresLiteral → info.kind = .literal) := by
  cases h with
  | existing | refused => exact Or.inl hget
  | fresh hcall hnew hr =>
    rcases get?_of_rebind rfl hget with hold | ⟨hname, hinfo⟩
    · exact Or.inl hold
    · rcases hcall with ⟨rfl, rfl⟩ | ⟨rfl, rfl⟩
      · exact Or.inr ⟨hname, nofun⟩
      · exact Or.inr ⟨hname, fun _ => hinfo ▸ rfl⟩
  | string hnew hr | cut htext hnew hr =>
    exact (get?_of_rebind (bindings_chars _ _) hget).imp_right fun h => ⟨h.1, nofun⟩
  | slot | bind => exact (get?_of_rebind rfl hget).imp_right fun h => ⟨h.1, nofun⟩

/-- A name that is bound, but not as a literal, is that of a call which declares none. -/
theorem exists_call_of_variable {base : Int} {calls : List Call} {name : String} {info : SymbolInfo}
    (hget : (after base calls).get? name = some info) (hkind : info.kind ≠ .literal) :
    ∃ call ∈ calls, call.name = name ∧ ¬ call.DeclaresLiteral := by
  induction calls using List.reverseRecOn with
  | nil => cases hget
  | append_singleton calls call ih =>
    rcases (outcome_snoc base calls call).get?_cases hget with hold | ⟨hname, hliteral⟩
    · rcases ih hold with ⟨earlier, hearlier, hfound⟩
      exact ⟨earlier, List.mem_append_left _ hearlier, hfound⟩
    · exact ⟨call, by simp, hname, fun hcall => hkind (hliteral hcall)⟩

end SymbolTable

namespace Lowering

open SymbolTable (Call CalledTo)

section Calls

variable {α : Type} {table table' : SymbolTable} {span : Span} {f : Statement.Form}

/-- The calls that a statement makes. -/
def MadeFor (f : Statement.Form) (call : Call) : Prop := call.DeclaresLiteral ∨ f.Binds call.name

/-- An allocation is a call of the operation that allocates. -/
theorem allocating_called {P : Call → Prop} {computation : SymbolTable.Allocating α}
    {tell : α → Call.Answer} {a : α} (call : Call)
    (hrun : call.run = do return tell (← computation)) (hcall : P call)
    (h : (allocating span computation).run table = .ok (a, table')) : CalledTo P table table' := by
  have hperform : (call.perform table).2 = table' := by
    rw [Call.perform, hrun, SymbolTable.Allocating.runOn_bind, allocating_ok h]
    rfl
  rw [← hperform]
  exact CalledTo.refl.call hcall

theorem literal_called {spelling : String} {value a : Int}
    (h : (literal spelling value span).run table = .ok (a, table')) :
    CalledTo Call.DeclaresLiteral table table' :=
  allocating_called (.declareLiteral spelling value) rfl trivial h

theorem operandAddress_called {operand : Operand} {a : Int}
    (h : (operandAddress operand span).run table = .ok (a, table')) :
    CalledTo Call.DeclaresLiteral table table' := by
  cases operand with
  | name name =>
    rw [(resolve_ok h).2]
    exact .refl
  | literal spelling value => exact literal_called h

theorem zeroOne_called {zero one : Int} {mid : SymbolTable}
    (hzero : (literal "0" 0 span).run table = .ok (zero, mid))
    (hone : (literal "1" 1 span).run mid = .ok (one, table')) :
    CalledTo Call.DeclaresLiteral table table' :=
  (literal_called hzero).trans (literal_called hone)

/-- Reading parts of an expression declares their literals. -/
theorem reading_called {tokens : List (ExpressionToken × Span)} {pending : List Pending}
    {r : Reduction} {result : List Pending × Reduction}
    (h : (reading span tokens pending r).run table = .ok (result, table')) :
    CalledTo Call.DeclaresLiteral table table' := by
  induction tokens generalizing pending r table with
  | nil =>
    cases h
    exact .refl
  | cons token tokens ih =>
    obtain ⟨token, place⟩ := token
    cases token with
    | operand o =>
      rcases Outcome.run_bind_ok h with ⟨a, mid, ha, hrest⟩
      exact (operandAddress_called ha).trans (ih hrest)
    | operator o =>
      rcases Outcome.run_bind_ok h with ⟨_, _, hlift, hrest⟩
      rcases Outcome.run_liftM_ok hlift with ⟨-, rfl⟩
      exact ih hrest
    | openParen => exact ih h
    | closeParen =>
      rcases Outcome.run_bind_ok h with ⟨_, _, hlift, hrest⟩
      rcases Outcome.run_liftM_ok hlift with ⟨-, rfl⟩
      exact ih hrest

theorem expression_called {e : Expression} {result : Int × List Instruction}
    (h : (expression e span).run table = .ok (result, table')) :
    CalledTo Call.DeclaresLiteral table table' := by
  rcases Outcome.run_bind_ok h with ⟨r, mid, htokens, hrest⟩
  rcases Outcome.run_bind_ok hrest with ⟨_, _, hlift, hpure⟩
  rcases Outcome.run_liftM_ok hlift with ⟨-, rfl⟩
  cases hpure
  rcases expressionTokens_reading htokens with ⟨_, _, hreading, -⟩
  exact reading_called hreading

/-- A statement declares literals and binds its name. -/
theorem form_called {code : List Instruction} {redeclared : Option (String × Int)}
    (h : (form span f).run table = .ok ((code, redeclared), table')) :
    CalledTo (MadeFor f) table table' := by
  cases f with
  | int name value =>
    rcases Outcome.run_bind_ok h with ⟨al, mid, hdeclare, hpure⟩
    cases hpure
    exact allocating_called (.declareInt name value) rfl (Or.inr rfl) hdeclare
  | string name text =>
    rcases Outcome.run_bind_ok h with ⟨al, mid, hdeclare, hpure⟩
    cases hpure
    exact allocating_called (.declareString name text) rfl (Or.inr rfl) hdeclare
  | new name e =>
    rcases form_new_ok h with ⟨a, mid, he, rfl⟩
    have hliterals := (expression_called he).mono fun call (hcall : call.DeclaresLiteral) =>
      (Or.inl hcall : MadeFor (.new name e) call)
    have hbind : MadeFor (.new name e) (.bind name a) := Or.inr rfl
    exact hliterals.call hbind
  | inputInt name =>
    rcases Outcome.run_bind_ok h with ⟨a, mid, hslot, hpure⟩
    cases hpure
    exact allocating_called (.allocateSlot name) rfl (Or.inr rfl) hslot
  | outputInt name =>
    rcases form_outputInt_ok h with ⟨a, -, -, rfl⟩
    exact .refl
  | inputStr =>
    rcases form_inputStr_ok h with ⟨zero, one, mid, hzero, hone, -⟩
    exact (zeroOne_called hzero hone).mono fun _ => Or.inl
  | outputStr name =>
    rcases form_outputStr_ok h with ⟨zero, one, string, mid, hzero, hone, -, -⟩
    exact (zeroOne_called hzero hone).mono fun _ => Or.inl
  | loop left comparison right =>
    cases h
    exact .refl
  | endLoop =>
    cases h
    exact .refl

theorem Lowers.called {pairs : LoopPairs} {index : Nat} {opened opened' : List Nat} {s : Statement}
    {block : Block} (h : Lowers pairs index opened table s block opened' table') :
    CalledTo (MadeFor s.form) table table' := by
  cases h with
  | loop hform hstop hleft hright =>
    exact ((operandAddress_called hleft).trans (operandAddress_called hright)).mono fun _ => Or.inl
  | endLoop hform hopened => exact .refl
  | plain hplain hform => exact form_called hform

/-- Statements declare literals and bind their names. -/
theorem statements_called {pairs : LoopPairs} {index : Nat} {opened : List Nat}
    {ss : List Statement} {blocks : List Block}
    (h : (statements pairs index opened ss).run table = .ok (blocks, table')) :
    CalledTo (fun call => call.DeclaresLiteral ∨ ∃ s ∈ ss, s.form.Binds call.name)
      table table' := by
  induction ss generalizing index opened table blocks with
  | nil =>
    cases h
    exact .refl
  | cons first rest ih =>
    rcases statements_cons_ok h with ⟨_, _, mid, _, -, hfirst, hrest⟩
    refine ((statement_ok hfirst).called.mono fun call hcall => ?_).trans
      ((ih hrest).mono fun call hcall => ?_)
    · exact hcall.imp_right fun hbinds => ⟨first, List.mem_cons_self, hbinds⟩
    · exact hcall.imp_right fun ⟨s, hs, hbinds⟩ => ⟨s, List.mem_cons_of_mem first hs, hbinds⟩

/-- In front of the use of a name, a statement declares literals and binds nothing. -/
theorem Uses.called {s : Statement} {name : String} {place : Span}
    (h : Uses s table name place table') : CalledTo Call.DeclaresLiteral table table' := by
  cases h with
  | outputInt hform => exact .refl
  | outputStr hform hzero hone => exact zeroOne_called hzero hone
  | left hform => exact .refl
  | right hform hleft => exact operandAddress_called hleft
  | operand hform htokens hfront => exact reading_called hfront

/-- The table in which a name is used is one after calls. The statements before have made them, and
    then there are those of the literals in front of the name. -/
theorem Uses.exists_calls {pairs : LoopPairs} {ss : List Statement} {blocks : List Block}
    {base : Int} {s : Statement} {name : String} {place : Span} (h : Uses s table name place table')
    (hrun : (statements pairs 0 [] ss).run (.empty base) = .ok (blocks, table)) : ∃ calls,
      (∀ call ∈ calls, call.DeclaresLiteral ∨ ∃ s ∈ ss, s.form.Binds call.name) ∧
        table' = .after base calls :=
  ((statements_called hrun).trans (h.called.mono fun _ => Or.inl)).exists_calls

end Calls

end Lowering

end AccumulatorMachine
