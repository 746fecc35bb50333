import AccumulatorMachine.Proofs.Lowering.Reading
import AccumulatorMachine.Proofs.Source.Spelling

/-!
# Scopes

What the names of a program mean, without a symbol table.

A name means what it was bound to last. So the bindings of a program are kept here as a list that
only grows, the latest in front, and a name is looked up by going through that list. The symbol
table has one entry for each name, and a binding replaces the one before it. That both have the same
addresses for all names, at every place of a program, is `Scope.Agrees`, and lowering a statement
keeps it.

With the scope in front of a statement its code can be written down, instruction by instruction:
`Statement.Form.Emits` is the code with the addresses that the names have in it. An expression is a
phrase of the grammar, and its code is that of the phrase. Literals have a cell from their first use
on, so an operand of a statement may get one in the middle of it. This makes no difference to names,
since no name is spelled like a number.

## Main definitions

* `Scope`: All bindings so far, the latest first.
* `Scope.declare`, `Scope.allot`, `Scope.bind`: The ways to bind a name.
* `Statement.Form.operands`: The names and literals that a statement looks up.
* `Statement.Form.after`: The scope behind a statement.
* `Comparison.skip`: The skip that a comparison stands for.
* `Statement.Form.Emits`: The code of a statement, from what names mean in front of it.
* `Scope.Agrees`: A symbol table with the same addresses.

## Theorems

* `Lowering.Lowers.agrees`, `Lowering.statements_agrees`: Lowering leaves the scope behind it.
* `Lowering.Lowers.emits`: Lowering emits the addresses of the latest bindings.
* `Lowering.Uses.latest?_eq`: A name is looked up as it is bound in front of its statement.
* `Lowering.statements_emits`: The same for all statements of a program.
-/

namespace AccumulatorMachine

/-- What names mean at some place of a program. -/
structure Scope where
  /-- All bindings so far, the latest one first. -/
  bindings : List (String × Int)
  /-- The address that is handed out next. -/
  next : Int
  deriving DecidableEq, Repr

namespace Scope

/-- No bindings, and a first address. -/
def start (base : Int) : Scope := ⟨[], base⟩

/-- The address that a name was bound to last. -/
def latest? (scope : Scope) (name : String) : Option Int := scope.bindings.lookup name

/-- Binds a name to an address. -/
def bind (scope : Scope) (name : String) (a : Int) : Scope :=
  ⟨(name, a) :: scope.bindings, scope.next⟩

/-- Hands out a number of addresses and binds a name to the first of them. -/
def allot (scope : Scope) (name : String) (count : Nat) : Scope :=
  ⟨(name, scope.next) :: scope.bindings, scope.next - count⟩

/-- Does the same if the name is not bound, and nothing otherwise. -/
def declare (scope : Scope) (name : String) (count : Nat) : Scope :=
  if (scope.latest? name).isSome then scope else scope.allot name count

/-- Binds a literal under its spelling when it is used first. The use of a name binds nothing. -/
def mention (scope : Scope) : Operand → Scope
  | .name _ => scope
  | .literal spelling _ => scope.declare spelling 1

/-- Binds the literals among operands. -/
def mentionAll (scope : Scope) (operands : List Operand) : Scope := operands.foldl mention scope

/-- Binds a name to the address of an operand, if it has one. -/
def share (scope : Scope) (name : String) : Option Int → Scope
  | some a => scope.bind name a
  | none => scope

end Scope

namespace Statement.Form

/-- The names and literals that a statement looks up, in this order. -/
def operands : Statement.Form → List Operand
  | .new _ e => Expression.operandsOf e.tokens
  | .outputInt name => [.name name]
  | .inputStr => [.literal "0" 0, .literal "1" 1]
  | .outputStr name => [.literal "0" 0, .literal "1" 1, .name name]
  | .loop left _ right => [left, right]
  | .int .. | .string .. | .inputInt _ | .endLoop => []

/-- The scope inside a statement, when all its operands have been looked up. -/
def inside (f : Statement.Form) (scope : Scope) : Scope := scope.mentionAll f.operands

/-- The address of an operand of a statement. A name has that of its latest binding in front of the
    statement, and a literal has its cell. -/
def address? (f : Statement.Form) (scope : Scope) : Operand → Option Int
  | .name name => scope.latest? name
  | .literal spelling _ => (f.inside scope).latest? spelling

/-- The scope behind a statement. Declarations bind names that are not bound, and nothing else. An
    expression gives its name the address of its first operand. An integer that is read gets a new
    address in any case. -/
def after (f : Statement.Form) (scope : Scope) : Scope :=
  match f with
  | .int name _ => scope.declare name 1
  | .string name text => scope.declare name (text.toList.length + 1)
  | .new name _ => (f.inside scope).share name (f.operands.head?.bind (f.address? scope))
  | .inputInt name => scope.allot name 1
  | .outputInt _ | .inputStr | .outputStr _ | .loop .. | .endLoop => f.inside scope

end Statement.Form

/-- The scope behind statements. -/
def Scope.through (scope : Scope) (ss : List Statement) : Scope :=
  ss.foldl (fun scope s => s.form.after scope) scope

/-- The skip that a comparison stands for. It steps over the exit of a loop if the difference of the
    two sides is as the comparison asks. -/
def Comparison.skip : Comparison → OpCode
  | greater => .skip .signedOrZero true
  | greaterEqual => .skip .signed true
  | less => .skip .signed false
  | lessEqual => .skip .signedOrZero false
  | equal => .skip .zero false
  | notEqual => .skip .zero true

/-- The code of a statement, from what names mean in front of it. A statement that starts or ends a
    loop has the number of statements of this loop. -/
inductive Statement.Form.Emits (scope : Scope) (count : Nat) :
    Statement.Form → List Instruction → Prop
  | int (name : String) (value : Int) : Emits scope count (.int name value) []
  | string (name text : String) : Emits scope count (.string name text) []
  | new {name : String} {e : Expression} {f : Phrase} {a : Int} {code : List Instruction}
      (htokens : e.tokens.map Prod.fst = f.tokens) (hf : f.Derives .sum)
      (hcode : f.code? ((new name e).address? scope) ([], []) = some ([a], code))
      (hfirst : (new name e).operands.head?.bind ((new name e).address? scope) = some a) :
      Emits scope count (.new name e) code
  | inputInt (name : String) :
      Emits scope count (.inputInt name) [⟨.input, integerMode⟩, ⟨.write, scope.next⟩]
  | outputInt {name : String} {a : Int} (ha : scope.latest? name = some a) :
      Emits scope count (.outputInt name) [⟨.read, a⟩, ⟨.output, integerMode⟩]
  | inputStr {zero : Int} (hzero : (inputStr.inside scope).latest? "0" = some zero) :
      Emits scope count .inputStr
        [⟨.read, zero⟩, ⟨.write, counterCell⟩,
          ⟨.read, counterCell⟩, ⟨.subtract, zero⟩,
          ⟨.skip .zero false, (inputStr.inside scope).next⟩, ⟨.jump, 5⟩,
          ⟨.input, 3⟩, ⟨.write, bufferCell⟩, ⟨.output, characterMode⟩, ⟨.jump, -7⟩]
  | outputStr {name : String} {zero one a : Int}
      (hzero : ((outputStr name).inside scope).latest? "0" = some zero)
      (hone : ((outputStr name).inside scope).latest? "1" = some one)
      (ha : scope.latest? name = some a) :
      Emits scope count (.outputStr name)
        [⟨.read, zero⟩, ⟨.write, counterCell⟩,
          ⟨.read, counterCell⟩, ⟨.subtract, a⟩,
          ⟨.skip .signed false, ((outputStr name).inside scope).next⟩, ⟨.jump, 9⟩,
          ⟨.read, counterCell⟩, ⟨.add, one⟩, ⟨.write, counterCell⟩,
          ⟨.readAddress, a⟩, ⟨.subtract, counterCell⟩, ⟨.writeAddress, 0⟩,
          ⟨.output, characterMode⟩, ⟨.jump, -11⟩]
  | loop {left right : Operand} {comparison : Comparison} {a b : Int}
      (hleft : (loop left comparison right).address? scope left = some a)
      (hright : (loop left comparison right).address? scope right = some b) :
      Emits scope count (.loop left comparison right)
        [⟨.read, a⟩, ⟨.subtract, b⟩,
          ⟨comparison.skip, ((loop left comparison right).inside scope).next⟩, ⟨.jump, count + 4⟩]
  | endLoop : Emits scope count .endLoop [⟨.jump, -(count + 6)⟩]

/-! ## Bindings -/

namespace Scope

variable {scope : Scope} {name : String} {a : Int}

theorem latest?_bind (scope : Scope) (name other : String) (a : Int) :
    (scope.bind name a).latest? other = if other = name then some a else scope.latest? other := by
  rw [latest?, bind, List.lookup_cons]
  by_cases h : other = name
  · rw [if_pos h, beq_iff_eq.mpr h]
  · rw [if_neg h, beq_false_of_ne h]
    rfl

theorem latest?_allot (scope : Scope) (name other : String) (count : Nat) :
    (scope.allot name count).latest? other
      = if other = name then some scope.next else scope.latest? other :=
  latest?_bind scope name other scope.next

theorem declare_of_latest? (h : scope.latest? name = some a) (count : Nat) :
    scope.declare name count = scope := by
  rw [declare, h]
  rfl

theorem declare_of_none (h : scope.latest? name = none) (count : Nat) :
    scope.declare name count = scope.allot name count := by
  rw [declare, h]
  rfl

/-- A declared name has an address. -/
theorem exists_latest?_declare (scope : Scope) (name : String) (count : Nat) :
    ∃ a, (scope.declare name count).latest? name = some a := by
  cases h : scope.latest? name with
  | some a => exact ⟨a, by rw [declare_of_latest? h, h]⟩
  | none => exact ⟨scope.next, by rw [declare_of_none h, latest?_allot, if_pos rfl]⟩

/-- A declaration gives no name another address. -/
theorem declare_keeps (h : scope.latest? name = some a) (other : String) (count : Nat) :
    (scope.declare other count).latest? name = some a := by
  cases hother : scope.latest? other with
  | some b => rwa [declare_of_latest? hother]
  | none =>
    have hne : name ≠ other := by
      rintro rfl
      rw [hother] at h
      cases h
    rwa [declare_of_none hother, latest?_allot, if_neg hne]

theorem latest?_declare_of_ne {other : String} (h : name ≠ other) (scope : Scope) (count : Nat) :
    (scope.declare other count).latest? name = scope.latest? name := by
  rw [declare]
  split
  · rfl
  · rw [latest?_allot, if_neg h]

theorem mention_keeps (h : scope.latest? name = some a) (o : Operand) :
    (scope.mention o).latest? name = some a := by
  cases o with
  | name other => exact h
  | literal spelling value => exact declare_keeps h spelling 1

theorem mentionAll_keeps (h : scope.latest? name = some a) (operands : List Operand) :
    (scope.mentionAll operands).latest? name = some a := by
  induction operands generalizing scope with
  | nil => exact h
  | cons o operands ih => exact ih (mention_keeps h o)

/-- No name is bound where operands are looked up, unless it is spelled like one of them. -/
theorem latest?_mentionAll {operands : List Operand}
    (h : ∀ spelling value, .literal spelling value ∈ operands → name ≠ spelling) (scope : Scope) :
    (scope.mentionAll operands).latest? name = scope.latest? name := by
  induction operands generalizing scope with
  | nil => rfl
  | cons o operands ih =>
    have hrest := ih (fun spelling value hmem => h spelling value (List.mem_cons_of_mem _ hmem))
      (scope.mention o)
    rw [show scope.mentionAll (o :: operands) = (scope.mention o).mentionAll operands from rfl,
      hrest]
    cases o with
    | name other => rfl
    | literal spelling value =>
      exact latest?_declare_of_ne (h spelling value List.mem_cons_self) scope 1

end Scope

/-! ## Tables -/

/-- A symbol table and a scope that have the same addresses for all names. -/
structure Scope.Agrees (scope : Scope) (table : SymbolTable) : Prop where
  names : ∀ name, table.addressOf? name = scope.latest? name
  next : table.cursor = scope.next

namespace Scope.Agrees

variable {scope : Scope} {table : SymbolTable} {name : String}

theorem empty (base : Int) : (Scope.start base).Agrees (.empty base) := ⟨fun _ => rfl, rfl⟩

theorem get?_eq_none_iff (h : scope.Agrees table) :
    table.get? name = none ↔ scope.latest? name = none := by
  rw [← h.names name, SymbolTable.addressOf?, Option.map_eq_none_iff]

theorem fresh (h : scope.Agrees table) (hnone : table.get? name = none) (value : Int)
    (kind : SymbolKind) : (scope.declare name 1).Agrees (table.fresh name value kind) := by
  rw [declare_of_none (h.get?_eq_none_iff.mp hnone)]
  refine ⟨fun other => ?_, ?_⟩
  · rw [SymbolTable.addressOf?_fresh, latest?_allot, h.names, h.next]
  · exact congrArg (· - 1) h.next

theorem string (h : scope.Agrees table) (hnone : table.get? name = none) (text : List Char)
    (value : Int) (kind : SymbolKind) : (scope.declare name (text.length + 1)).Agrees
      (.chars text (table.fresh name value kind)) := by
  rw [declare_of_none (h.get?_eq_none_iff.mp hnone)]
  refine ⟨fun other => ?_, ?_⟩
  · rw [SymbolTable.addressOf?_chars, SymbolTable.addressOf?_fresh, latest?_allot, h.names, h.next]
  · have hnext := h.next
    rw [SymbolTable.cursor_chars]
    simp only [SymbolTable.fresh, SymbolTable.insert, SymbolTable.addCell, SymbolTable.taken, allot]
    omega

theorem declared (h : scope.Agrees table) {info : SymbolInfo} (hget : table.get? name = some info)
    (count : Nat) : (scope.declare name count).Agrees table := by
  have hname : scope.latest? name = some info.address := by
    rw [← h.names name, SymbolTable.addressOf?, hget]
    rfl
  rwa [declare_of_latest? hname]

theorem slot (h : scope.Agrees table) : (scope.allot name 1).Agrees (table.slot name) := by
  refine ⟨fun other => ?_, ?_⟩
  · rw [SymbolTable.addressOf?_slot, latest?_allot, h.names, h.next]
  · exact congrArg (· - 1) h.next

theorem bind (h : scope.Agrees table) (a : Int) :
    (scope.bind name a).Agrees (table.bind name a) := by
  refine ⟨fun other => ?_, h.next⟩
  rw [SymbolTable.addressOf?_bind, latest?_bind, h.names]

end Scope.Agrees

/-! ## Names are no numbers -/

/-- A word is not the spelling of a literal. -/
theorem Source.IsWord.ne_spelling {name spelling : String} {value : Int} (h : Source.IsWord name)
    (hliteral : (Operand.literal spelling value).Faithful) : name ≠ spelling := by
  rintro rfl
  rw [Operand.Faithful, Decimal.word?_of_isWord h] at hliteral
  cases hliteral

namespace Statement.Form

variable {f : Statement.Form} {name : String}

theorem Faithful.operands (h : f.Faithful) : ∀ o ∈ f.operands, o.Faithful := by
  have hzero : Decimal.word? "0".toList = some 0 := by decide
  have hone : Decimal.word? "1".toList = some 1 := by decide
  cases f with
  | new name e =>
    intro o ho
    rcases List.mem_filterMap.mp ho with ⟨⟨token, place⟩, htoken, hoperand⟩
    have hfaithful := h.2 _ htoken
    cases token <;> cases hoperand
    exact hfaithful
  | outputInt name => exact List.forall_mem_singleton.mpr h
  | inputStr => exact List.forall_mem_cons.mpr ⟨hzero, List.forall_mem_singleton.mpr hone⟩
  | outputStr name =>
    exact List.forall_mem_cons.mpr ⟨hzero, List.forall_mem_cons.mpr
      ⟨hone, List.forall_mem_singleton.mpr h⟩⟩
  | loop left comparison right =>
    exact List.forall_mem_cons.mpr ⟨h.1, List.forall_mem_singleton.mpr h.2⟩
  | int | string | inputInt | endLoop => simp [operands]

/-- Looking up some operands of a statement changes no name. -/
theorem Faithful.latest?_mentionAll (h : f.Faithful) (hname : Source.IsWord name)
    {operands : List Operand} (hsub : ∀ o ∈ operands, o ∈ f.operands) (scope : Scope) :
    (scope.mentionAll operands).latest? name = scope.latest? name :=
  Scope.latest?_mentionAll (fun _ _ hmem => hname.ne_spelling (h.operands _ (hsub _ hmem))) scope

/-- The address of an operand is what the scope inside the statement has for it. -/
theorem Faithful.address?_eq (h : f.Faithful) {o : Operand} (ho : o ∈ f.operands) (scope : Scope) :
    f.address? scope o = (f.inside scope).latest? o.render := by
  cases o with
  | name name => exact (h.latest?_mentionAll (h.operands _ ho) (fun _ => id) scope).symm
  | literal spelling value => rfl

end Statement.Form

/-! ## Lowering -/

theorem Comparison.skipOpCode_eq (comparison : Comparison) :
    comparison.skipOpCode = comparison.skip := by
  cases comparison <;> rfl

namespace Lowering

variable {scope : Scope} {table table' : SymbolTable} {span : Span} {name : String}

theorem operandAddress_agrees {o : Operand} {a : Int}
    (h : (operandAddress o span).run table = .ok (a, table')) (hscope : scope.Agrees table) :
    (scope.mention o).Agrees table' ∧ (scope.mention o).latest? o.render = some a := by
  rcases operandAddress_ok h with ⟨ha, rfl⟩ | ⟨value, ho, hnone, -, rfl, rfl⟩
  · rw [hscope.names] at ha
    cases o with
    | name name => exact ⟨hscope, ha⟩
    | literal spelling value =>
      have hsame : scope.mention (.literal spelling value) = scope :=
        Scope.declare_of_latest? ha 1
      rw [hsame]
      exact ⟨hscope, ha⟩
  · have hmention : scope.mention o = scope.declare o.render 1 := by
      rw [ho]
      rfl
    rw [hmention]
    refine ⟨hscope.fresh hnone value .literal, ?_⟩
    rw [Scope.declare_of_none (hscope.get?_eq_none_iff.mp hnone), Scope.latest?_allot, if_pos rfl,
      hscope.next]

/-- The literals that the code for strings needs. -/
theorem zeroOne_agrees {zero one : Int} {mid : SymbolTable}
    (hzero : (literal "0" 0 span).run table = .ok (zero, mid))
    (hone : (literal "1" 1 span).run mid = .ok (one, table')) (hscope : scope.Agrees table) :
    (scope.mentionAll [.literal "0" 0, .literal "1" 1]).Agrees table' ∧
      (scope.mentionAll [.literal "0" 0, .literal "1" 1]).latest? "0" = some zero ∧
      (scope.mentionAll [.literal "0" 0, .literal "1" 1]).latest? "1" = some one := by
  rcases operandAddress_agrees (o := .literal "0" 0) hzero hscope with ⟨hmid, hzero⟩
  rcases operandAddress_agrees (o := .literal "1" 1) hone hmid with ⟨hlast, hone⟩
  exact ⟨hlast, Scope.mention_keeps hzero (.literal "1" 1), hone⟩

/-- Reading parts of an expression looks up their operands, and then reads them as they are. -/
theorem reading_agrees {tokens : List (ExpressionToken × Span)} {pending pending' : List Pending}
    {r r' : Reduction}
    (h : (reading span tokens pending r).run table = .ok ((pending', r'), table'))
    (hscope : scope.Agrees table) :
    (scope.mentionAll (Expression.operandsOf tokens)).Agrees table' ∧
      ∀ address? : Operand → Option Int, (∀ o ∈ Expression.operandsOf tokens, ∀ a,
        (scope.mentionAll (Expression.operandsOf tokens)).latest? o.render = some a →
          address? o = some a) →
        Expression.Resolves address? span tokens pending r pending' r' := by
  -- An operand keeps the cell that it has got, whatever operands are read behind it.
  induction tokens generalizing pending r table scope with
  | nil =>
    cases h
    exact ⟨hscope, fun _ _ => .done pending' r'⟩
  | cons token tokens ih =>
    obtain ⟨token, place⟩ := token
    cases token with
    | operand o =>
      rcases Outcome.run_bind_ok h with ⟨a, mid, ha, hrest⟩
      rcases operandAddress_agrees ha hscope with ⟨hmid, hlatest⟩
      rcases ih hrest hmid with ⟨hlast, hresolves⟩
      refine ⟨hlast, fun address? haddress => .operand ?_ (hresolves address? ?_)⟩
      · exact haddress o List.mem_cons_self a (Scope.mentionAll_keeps hlatest _)
      · exact fun o' ho' => haddress o' (List.mem_cons_of_mem o ho')
    | operator o =>
      rcases Outcome.run_bind_ok h with ⟨⟨waiting, mid⟩, _, hlift, hrest⟩
      rcases Outcome.run_liftM_ok hlift with ⟨happly, rfl⟩
      rcases ih hrest hscope with ⟨hlast, hresolves⟩
      exact ⟨hlast, fun address? haddress => .operator happly (hresolves address? haddress)⟩
    | openParen =>
      rcases ih h hscope with ⟨hlast, hresolves⟩
      exact ⟨hlast, fun address? haddress => .openParen (hresolves address? haddress)⟩
    | closeParen =>
      rcases Outcome.run_bind_ok h with ⟨⟨waiting, mid⟩, _, hlift, hrest⟩
      rcases Outcome.run_liftM_ok hlift with ⟨happly, rfl⟩
      rcases ih hrest hscope with ⟨hlast, hresolves⟩
      exact ⟨hlast, fun address? haddress => .closeParen happly (hresolves address? haddress)⟩

/-- Lowering the tokens of an expression is reading them and applying what still waits. -/
theorem expressionTokens_reading {whole : Span} {tokens : List (ExpressionToken × Span)}
    {pending : List Pending} {r r' : Reduction}
    (h : (expressionTokens whole span tokens pending r).run table = .ok (r', table')) :
    ∃ pending' mid, (reading span tokens pending r).run table = .ok ((pending', mid), table') ∧
      mid.applyAll whole span pending' = .ok r' := by
  have happend := expressionTokens_append whole span tokens [] pending r
  rw [List.append_nil] at happend
  rw [happend] at h
  rcases Outcome.run_bind_ok h with ⟨⟨pending', mid⟩, _, hreading, hall⟩
  rcases Outcome.run_liftM_ok hall with ⟨happly, rfl⟩
  exact ⟨pending', mid, hreading, happly⟩

/-- An expression emits the code for the addresses of its operands, and the first of them is where
    its value goes. -/
theorem expression_agrees {e : Expression} {a : Int} {code : List Instruction}
    (h : (expression e span).run table = .ok ((a, code), table')) (hscope : scope.Agrees table)
    {address? : Operand → Option Int} (haddress : ∀ o ∈ Expression.operandsOf e.tokens, ∀ a,
      (scope.mentionAll (Expression.operandsOf e.tokens)).latest? o.render = some a →
        address? o = some a) :
    (scope.mentionAll (Expression.operandsOf e.tokens)).Agrees table' ∧
      (Expression.operandsOf e.tokens).head?.bind address? = some a ∧
      ∃ f : Phrase, e.tokens.map Prod.fst = f.tokens ∧ f.Derives .sum ∧
        f.code? address? ([], []) = some ([a], code) := by
  rcases Outcome.run_bind_ok h with ⟨r', _, htokens, hrest⟩
  rcases Outcome.run_bind_ok hrest with ⟨b, _, hlift, hpure⟩
  rcases Outcome.run_liftM_ok hlift with ⟨hresult, rfl⟩
  cases hpure
  rcases expressionTokens_reading htokens with ⟨pending, r, hreading, hall⟩
  rcases reading_agrees hreading hscope with ⟨hlast, hresolves⟩
  have hread := hresolves address? haddress
  have hone := Reduction.result_ok hresult
  -- The one operand that is left has been at the bottom from the start.
  have hbottom := (Reduction.kept_getLast? _).applyAll rfl hall
  rw [hone, hread.getLast?_operands] at hbottom
  rcases exists_phrase_of_expressionTokens htokens with ⟨f, hphrase, hf⟩
  have hcode := hread.code?_eq (Phrase.derives_iff.mp hf).1 hphrase hall
  rw [hone] at hcode
  exact ⟨hlast, hbottom.symm, f, hphrase, hf, hcode⟩

/-- Nothing is looked up in front of the first operand of an expression. -/
theorem expressionTokens_head {whole : Span} {tokens : List (ExpressionToken × Span)}
    {pending : List Pending} {r r' : Reduction} {o : Operand}
    (h : (expressionTokens whole span tokens pending r).run table = .ok (r', table'))
    (hfirst : (Expression.operandsOf tokens).head? = some o) :
    ∃ place a mid, (operandAddress o place).run table = .ok (a, mid) := by
  induction tokens generalizing pending r with
  | nil => cases hfirst
  | cons token tokens ih =>
    obtain ⟨token, place⟩ := token
    cases token with
    | operand first =>
      cases hfirst
      rcases Outcome.run_bind_ok h with ⟨a, mid, ha, -⟩
      exact ⟨place, a, mid, ha⟩
    | operator operator =>
      rcases Outcome.run_bind_ok h with ⟨_, _, hlift, hrest⟩
      rcases Outcome.run_liftM_ok hlift with ⟨-, rfl⟩
      exact ih hrest hfirst
    | openParen => exact ih h hfirst
    | closeParen =>
      rcases Outcome.run_bind_ok h with ⟨_, _, hlift, hrest⟩
      rcases Outcome.run_liftM_ok hlift with ⟨-, rfl⟩
      exact ih hrest hfirst

/-- A statement leaves the scope behind it, whatever its names and literals are spelled like. -/
theorem Lowers.agrees {pairs : LoopPairs} {index : Nat} {opened opened' : List Nat} {s : Statement}
    {block : Block} (h : Lowers pairs index opened table s block opened' table')
    (hscope : scope.Agrees table) : (s.form.after scope).Agrees table' := by
  obtain ⟨f, span⟩ := s
  cases h with
  | loop hform hstop hleft hright =>
    cases hform
    exact (operandAddress_agrees hright (operandAddress_agrees hleft hscope).1).1
  | endLoop hform hopened =>
    cases hform
    exact hscope
  | plain hplain hform =>
    cases f with
    | int name value =>
      rcases form_int_ok hform with ⟨-, ⟨info, hget, rfl⟩ | ⟨hnone, -, rfl⟩⟩
      · exact hscope.declared hget 1
      · exact hscope.fresh hnone value .int
    | string name text =>
      rcases form_string_ok hform with ⟨-, ⟨info, hget, rfl⟩ | ⟨hnone, -, rfl⟩⟩
      · exact hscope.declared hget _
      · exact hscope.string hnone text.toList _ _
    | new name e =>
      rcases form_new_ok hform with ⟨a, mid, he, rfl⟩
      rcases expression_agrees he hscope (fun _ _ _ ha => ha) with ⟨hmid, hfirst, -⟩
      have haddress : (Statement.Form.new name e).operands.head?.bind
          ((Statement.Form.new name e).address? scope) = some a := by
        rcases Option.bind_eq_some_iff.mp hfirst with ⟨o, ho, ha⟩
        refine Option.bind_eq_some_iff.mpr ⟨o, ho, ?_⟩
        cases o with
        | literal spelling value => exact ha
        | name other =>
          -- A name in front of all literals is looked up before any of them gets a cell.
          rcases Outcome.run_bind_ok he with ⟨_, _, htokens, -⟩
          rcases expressionTokens_head htokens ho with ⟨_, b, _, hb⟩
          have hlatest := (operandAddress_agrees hb hscope).2
          have hsame := ha.symm.trans (Scope.mentionAll_keeps hlatest _)
          cases hsame
          exact hlatest
      rw [Statement.Form.after, haddress]
      exact hmid.bind a
    | inputInt name =>
      rcases form_inputInt_ok hform with ⟨-, -, rfl⟩
      exact hscope.slot
    | outputInt name =>
      rcases form_outputInt_ok hform with ⟨a, -, -, rfl⟩
      exact hscope
    | inputStr =>
      rcases form_inputStr_ok hform with ⟨zero, one, mid, hzero, hone, -⟩
      exact (zeroOne_agrees hzero hone hscope).1
    | outputStr name =>
      rcases form_outputStr_ok hform with ⟨zero, one, a, mid, hzero, hone, -, -⟩
      exact (zeroOne_agrees hzero hone hscope).1
    | loop left comparison right => exact absurd hplain id
    | endLoop => exact absurd hplain id

/-- A statement emits the addresses of the latest bindings, and leaves the scope behind it. -/
theorem Lowers.emits {pairs : LoopPairs} {index : Nat} {opened opened' : List Nat} {s : Statement}
    {block : Block} (h : Lowers pairs index opened table s block opened' table')
    (hscope : scope.Agrees table) (hfaithful : s.form.Faithful) :
    (s.form.after scope).Agrees table' ∧ ∃ count, s.form.Emits scope count block.code := by
  refine ⟨h.agrees hscope, ?_⟩
  obtain ⟨f, span⟩ := s
  -- The operands are known by what the scope inside the statement has for them.
  have haddress : ∀ o ∈ f.operands, ∀ a, (f.inside scope).latest? o.render = some a →
      f.address? scope o = some a := by
    intro o ho a ha
    rw [Statement.Form.Faithful.address?_eq hfaithful ho, ha]
  cases h with
  | @loop left right comparison stop a b mid _ hform hstop hleft hright =>
    cases hform
    rcases operandAddress_agrees hleft hscope with ⟨hmid, hleft⟩
    rcases operandAddress_agrees hright hmid with ⟨hlast, hright⟩
    refine ⟨stop - index + 1, ?_⟩
    rw [hlast.next, loopHead, comparison.skipOpCode_eq]
    exact .loop (haddress left List.mem_cons_self a (Scope.mention_keeps hleft right))
      (haddress right (List.mem_cons_of_mem _ List.mem_cons_self) b hright)
  | @endLoop count outer hform hopened =>
    cases hform
    exact ⟨count, .endLoop⟩
  | plain hplain hform =>
    cases f with
    | int name value =>
      rw [(form_int_ok hform).1]
      exact ⟨0, .int name value⟩
    | string name text =>
      rw [(form_string_ok hform).1]
      exact ⟨0, .string name text⟩
    | new name e =>
      rcases form_new_ok hform with ⟨a, mid, he, rfl⟩
      rcases expression_agrees he hscope haddress with
        ⟨-, hfirst, f, htokens, hf, hcode⟩
      exact ⟨0, .new htokens hf hcode hfirst⟩
    | inputInt name =>
      rw [(form_inputInt_ok hform).2.1, hscope.next]
      exact ⟨0, .inputInt name⟩
    | outputInt name =>
      rcases form_outputInt_ok hform with ⟨a, ha, rfl, rfl⟩
      rw [hscope.names] at ha
      exact ⟨0, .outputInt ha⟩
    | inputStr =>
      rcases form_inputStr_ok hform with ⟨zero, one, mid, hzero, hone, rfl⟩
      rcases zeroOne_agrees hzero hone hscope with ⟨hlast, hzero, -⟩
      rw [hlast.next]
      exact ⟨0, .inputStr hzero⟩
    | outputStr name =>
      rcases form_outputStr_ok hform with ⟨zero, one, a, mid, hzero, hone, ha, rfl⟩
      rcases zeroOne_agrees hzero hone hscope with ⟨hlast, hzero, hone⟩
      rw [hlast.names] at ha
      rw [hlast.next]
      exact ⟨0, .outputStr hzero hone
        (haddress (.name name) (by simp [Statement.Form.operands]) a ha)⟩
    | loop left comparison right => exact absurd hplain id
    | endLoop => exact absurd hplain id

/-- A name that lowering looks up is a word, and has the address that it has in front of its
    statement. -/
theorem Uses.latest?_eq {s : Statement} {place : Span} (h : Uses s table name place table')
    (hscope : scope.Agrees table) (hfaithful : s.form.Faithful) :
    Source.IsWord name ∧ table'.addressOf? name = scope.latest? name := by
  -- Up to the use, some operands of the statement have been looked up.
  have hlooked : ∃ operands, (∀ o ∈ operands, o ∈ s.form.operands) ∧
      (scope.mentionAll operands).Agrees table' ∧ Operand.name name ∈ s.form.operands := by
    cases h with
    | outputInt hform =>
      rw [hform]
      exact ⟨[], by simp, hscope, List.mem_cons_self⟩
    | outputStr hform hzero hone =>
      rw [hform]
      exact ⟨[.literal "0" 0, .literal "1" 1], by simp [Statement.Form.operands],
        (zeroOne_agrees hzero hone hscope).1,
        by simp [Statement.Form.operands]⟩
    | left hform =>
      rw [hform]
      exact ⟨[], by simp, hscope, List.mem_cons_self⟩
    | @right _ left comparison a _ hform hleft =>
      rw [hform]
      exact ⟨[left], by simp [Statement.Form.operands], (operandAddress_agrees hleft hscope).1,
        by simp [Statement.Form.operands]⟩
    | @operand target _ e front back place pending r _ hform htokens hfront =>
      rw [hform]
      have happend : (Statement.Form.new target e).operands
          = Expression.operandsOf front ++ .name name :: Expression.operandsOf back := by
        rw [Statement.Form.operands, htokens, Expression.operandsOf, List.filterMap_append]
        rfl
      refine ⟨Expression.operandsOf front, fun o ho => ?_, (reading_agrees hfront hscope).1, ?_⟩
      · rw [happend]
        exact List.mem_append_left _ ho
      · rw [happend]
        exact List.mem_append_right _ List.mem_cons_self
  rcases hlooked with ⟨operands, hsub, hagrees, hmem⟩
  have hword : Source.IsWord name := hfaithful.operands _ hmem
  exact ⟨hword, by rw [hagrees.names, hfaithful.latest?_mentionAll hword hsub]⟩

/-- Statements leave the scope behind them. -/
theorem statements_agrees {pairs : LoopPairs} {index : Nat} {opened : List Nat}
    {ss : List Statement} {blocks : List Block}
    (h : (statements pairs index opened ss).run table = .ok (blocks, table'))
    (hscope : scope.Agrees table) : (scope.through ss).Agrees table' := by
  induction ss generalizing index opened table blocks scope with
  | nil =>
    cases h
    exact hscope
  | cons first rest ih =>
    rcases statements_cons_ok h with ⟨_, _, _, _, -, hfirst, hrest⟩
    exact ih hrest ((statement_ok hfirst).agrees hscope)

/-- All statements of a program emit the addresses of the latest bindings in front of them. -/
theorem statements_emits {pairs : LoopPairs} {index : Nat} {opened : List Nat}
    {ss : List Statement} {blocks : List Block}
    (h : (statements pairs index opened ss).run table = .ok (blocks, table'))
    (hscope : scope.Agrees table) (hfaithful : ∀ s ∈ ss, s.form.Faithful) :
    (scope.through ss).Agrees table' ∧ ∀ (k : Nat) (s : Statement), ss[k]? = some s →
      ∃ block count, blocks[k]? = some block ∧
        s.form.Emits (scope.through (ss.take k)) count block.code := by
  refine ⟨statements_agrees h hscope, fun k s hs => ?_⟩
  -- The table in front of a statement is the one that those before it have left.
  rcases statements_get h hs with ⟨block, _, _, _, _, hblock, hlowers, hbefore, -, -⟩
  have hagrees := statements_agrees hbefore hscope
  rcases (hlowers.emits hagrees (hfaithful s (List.mem_of_getElem? hs))).2 with ⟨count, hemits⟩
  exact ⟨block, count, hblock, hemits⟩

end Lowering

end AccumulatorMachine
