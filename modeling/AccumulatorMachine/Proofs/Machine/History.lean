import AccumulatorMachine.Proofs.Machine.Action
import AccumulatorMachine.Proofs.Machine.Events
import AccumulatorMachine.Proofs.Strings.Printing

/-!
# The History of a Run

How the data path of a machine comes from what has been done to it.

Some of what holds in every state holds because nothing breaks it: the sign flag goes with the
accumulator, and an input that was found empty stays empty. The rest can be said only with the past
in view. The zero flag goes with the accumulator once the accumulator has been loaded, and not
before. The input is what is left of it after the characters that were read. A cell has the contents
it was loaded with if no store was to its address.

So the past is kept here as a list of deeds, which are the micro-operations that were done, each
with the data path before it and the one after it. A deed is done as a whole, and a fault leaves
none. Each of the facts is shown of a single deed, in the ways in which it can be done, and then of
all that leads from one data path to another.

## Main definitions

* `Deed`: A micro-operation that was done.
* `Deed.Loads`, `Deed.Targets`, `Deed.character?`: What a deed has done.
* `DataPath.Leads`: Deeds that lead from one data path to another.
* `Machine.history`: The deeds of a number of steps.

## Theorems

* `DataPath.Leads.zero_eq`, `DataPath.Leads.input_eq`, `DataPath.Leads.read_eq`: What deeds leave.
* `Machine.leads_history`: A run leads through its history.
* `Machine.path_invariant`: What holds in every state.
-/

namespace AccumulatorMachine

/-- A micro-operation that was done, with the data paths before it and after it. -/
structure Deed where
  before : DataPath
  op : MicroOp
  after : DataPath

namespace Deed

/-- A deed that loads the accumulator. -/
def Loads (deed : Deed) : Prop := ∃ source, deed.op = .latchAccumulator source

/-- A deed that stores to an address. -/
def Targets (deed : Deed) (address : Int) : Prop :=
  deed.op = .write ∧ deed.before.address = address

/-- The character that a deed has read, as the accumulator shows it afterwards. Nothing is read in
    integer mode, or where there is no input. -/
def character? (deed : Deed) : Option Char :=
  if deed.op = .latchAccumulator .input ∧ deed.before.operand ≠ integerMode ∧
      deed.before.input ≠ [] then
    charOfCode? deed.after.acc
  else none

end Deed

namespace DataPath

namespace Does

variable {d d' : DataPath} {op : MicroOp} (h : d.Does op d')

include h

/-- The sign flag goes with the accumulator. -/
theorem signed_eq (hd : d.signed = decide (d.acc < 0)) : d'.signed = decide (d'.acc < 0) := by
  cases h with
  | compute | address | integer | character | exhausted => rfl
  | latchAddress | latchInstruction | write | latchPc | emit => exact hd

/-- The zero flag goes with an accumulator that has been loaded. -/
theorem zero_eq_of_loads {source : AccumulatorSource} (hop : op = .latchAccumulator source) :
    d'.zero = decide (d'.acc = 0) := by
  cases h with
  | compute | address | integer | character | exhausted => rfl
  | latchAddress | latchInstruction | write | latchPc | emit => cases hop

/-- Without a load the accumulator and its zero flag stay. -/
theorem acc_eq (hop : ∀ source, op ≠ .latchAccumulator source) :
    d'.acc = d.acc ∧ d'.zero = d.zero := by
  cases h with
  | compute | address | integer | character | exhausted => exact absurd rfl (hop _)
  | latchAddress | latchInstruction | write | latchPc | emit => exact ⟨rfl, rfl⟩

/-- The input loses the character that was read, and nothing else. -/
theorem input_eq : d.input = (Deed.character? ⟨d, op, d'⟩).toList ++ d'.input := by
  cases h with
  | character hmode hinput =>
    have hne : d.input ≠ [] := by
      rw [hinput]
      exact List.cons_ne_nil _ _
    rw [Deed.character?, if_pos ⟨rfl, hmode, hne⟩, setAccumulator, charOfCode?_toNat, hinput]
    rfl
  | integer hmode hvalue =>
    rw [Deed.character?, if_neg (fun hreads => hreads.2.1 hmode)]
    rfl
  | exhausted hmode hinput =>
    rw [Deed.character?, if_neg (fun hreads => hreads.2.2 hinput)]
    rfl
  | compute | address | latchAddress | latchInstruction | write | latchPc | emit =>
    rw [Deed.character?, if_neg (fun hreads => nomatch hreads.1)]
    rfl

/-- An input that was found empty is empty, and stays so. -/
theorem exhausted_kept (hd : d.exhausted = true → d.input = []) :
    (d.exhausted = true → d'.exhausted = true) ∧ (d'.exhausted = true → d'.input = []) := by
  cases h with
  | exhausted hmode hinput => exact ⟨fun _ => rfl, fun _ => hinput⟩
  | character hmode hinput =>
    refine ⟨id, fun hx => ?_⟩
    rw [hd hx] at hinput
    cases hinput
  | compute | address | integer | latchAddress | latchInstruction | write | latchPc | emit =>
    exact ⟨id, hd⟩

/-- What was printed stays. -/
theorem tokens_prefix : d.tokens <+: d'.tokens := by
  by_cases hop : op = .emit
  · subst hop
    cases h with
    | emit htoken =>
      rw [tokens, tokens, List.reverse_cons]
      exact List.prefix_append _ _
  · have hkept : d'.tokens = d.tokens := congrArg List.reverse (h.printed_eq hop)
    exact ⟨[], (List.append_nil _).trans hkept.symm⟩

/-- A cell that is not stored to stays. -/
theorem read_eq {address : Int} (hop : ¬ (⟨d, op, d'⟩ : Deed).Targets address) :
    d'.memory.read address = d.memory.read address := by
  by_cases hwrite : op = .write
  · subst hwrite
    cases h with
    | write => rw [Memory.read_write, if_neg (fun heq => hop ⟨rfl, heq.symm⟩)]
  · rw [h.memory_eq hwrite]

end Does

/-- Deeds that lead from one data path to another, each of them from where the one before it has
    led. -/
inductive Leads (d : DataPath) : List Deed → DataPath → Prop
  | nothing : Leads d [] d
  | does {deeds : List Deed} {mid d' : DataPath} {op : MicroOp} (h : Leads d deeds mid)
      (hdoes : mid.Does op d') : Leads d (deeds ++ [⟨mid, op, d'⟩]) d'

namespace Leads

variable {d mid d' : DataPath} {deeds more : List Deed}

theorem single {op : MicroOp} (h : d.Does op d') : d.Leads [⟨d, op, d'⟩] d' := nothing.does h

theorem trans (h : d.Leads deeds mid) (hmore : mid.Leads more d') : d.Leads (deeds ++ more) d' := by
  induction hmore with
  | nothing => rwa [List.append_nil]
  | does _ hdoes ih =>
    rw [← List.append_assoc]
    exact ih.does hdoes

theorem does_of_mem (h : d.Leads deeds d') {deed : Deed} (hdeed : deed ∈ deeds) :
    deed.before.Does deed.op deed.after := by
  induction h with
  | nothing => cases hdeed
  | does _ hdoes ih =>
    rcases List.mem_append.mp hdeed with hdeed | hdeed
    · exact ih hdeed
    · cases List.mem_singleton.mp hdeed
      exact hdoes

theorem signed_eq (h : d.Leads deeds d') (hd : d.signed = decide (d.acc < 0)) :
    d'.signed = decide (d'.acc < 0) := by
  induction h with
  | nothing => exact hd
  | does _ hdoes ih => exact hdoes.signed_eq ih

/-- The zero flag goes with the accumulator once that has been loaded. -/
theorem zero_eq (h : d.Leads deeds d') (hloads : ∃ deed ∈ deeds, deed.Loads) :
    d'.zero = decide (d'.acc = 0) := by
  induction h with
  | nothing =>
    rcases hloads with ⟨deed, hdeed, -⟩
    cases hdeed
  | @does deeds mid d' op _ hdoes ih =>
    by_cases hop : ∃ source, op = .latchAccumulator source
    · rcases hop with ⟨source, hop⟩
      exact hdoes.zero_eq_of_loads hop
    · -- The last deed loads nothing, so an earlier one does.
      rcases hdoes.acc_eq (fun source heq => hop ⟨source, heq⟩) with ⟨hacc, hzero⟩
      rw [hacc, hzero]
      rcases hloads with ⟨deed, hdeed, hload⟩
      rcases List.mem_append.mp hdeed with hdeed | hdeed
      · exact ih ⟨deed, hdeed, hload⟩
      · cases List.mem_singleton.mp hdeed
        exact absurd hload hop

/-- Without a load the accumulator and its zero flag stay. -/
theorem acc_eq (h : d.Leads deeds d') (hloads : ∀ deed ∈ deeds, ¬ deed.Loads) :
    d'.acc = d.acc ∧ d'.zero = d.zero := by
  induction h with
  | nothing => exact ⟨rfl, rfl⟩
  | does _ hdoes ih =>
    rcases ih (fun deed hdeed => hloads deed (List.mem_append_left _ hdeed)) with ⟨hacc, hzero⟩
    have hlast := hloads _ (List.mem_append_right _ List.mem_cons_self)
    rcases hdoes.acc_eq (fun source heq => hlast ⟨source, heq⟩) with ⟨hacc', hzero'⟩
    exact ⟨hacc'.trans hacc, hzero'.trans hzero⟩

/-- The input is the characters that were read, and then what is left of it. -/
theorem input_eq (h : d.Leads deeds d') :
    d.input = deeds.filterMap Deed.character? ++ d'.input := by
  induction h with
  | nothing => rfl
  | @does deeds mid d' op _ hdoes ih =>
    have hlast : [(⟨mid, op, d'⟩ : Deed)].filterMap Deed.character?
        = (Deed.character? ⟨mid, op, d'⟩).toList := by
      rw [List.filterMap_cons]
      cases Deed.character? ⟨mid, op, d'⟩ <;> rfl
    rw [ih, hdoes.input_eq, List.filterMap_append, hlast, List.append_assoc]

theorem exhausted_kept (h : d.Leads deeds d') (hd : d.exhausted = true → d.input = []) :
    (d.exhausted = true → d'.exhausted = true) ∧ (d'.exhausted = true → d'.input = []) := by
  induction h with
  | nothing => exact ⟨id, hd⟩
  | does _ hdoes ih =>
    rcases hdoes.exhausted_kept ih.2 with ⟨hkept, hempty⟩
    exact ⟨fun hx => hkept (ih.1 hx), hempty⟩

theorem tokens_prefix (h : d.Leads deeds d') : d.tokens <+: d'.tokens := by
  induction h with
  | nothing => exact List.prefix_rfl
  | does _ hdoes ih => exact ih.trans hdoes.tokens_prefix

/-- A cell that no deed stores to stays. -/
theorem read_eq (h : d.Leads deeds d') {address : Int}
    (htargets : ∀ deed ∈ deeds, ¬ deed.Targets address) :
    d'.memory.read address = d.memory.read address := by
  induction h with
  | nothing => rfl
  | does _ hdoes ih =>
    have hlast := htargets _ (List.mem_append_right _ List.mem_cons_self)
    rw [hdoes.read_eq hlast]
    exact ih fun deed hdeed => htargets deed (List.mem_append_left _ hdeed)

end Leads

end DataPath

namespace Machine

/-- The micro-operation of an action, if it has one. -/
def microOp? (m : Machine) : Action → Option MicroOp
  | .micro op => some op
  | .jumpIfExhausted => if m.path.exhausted then some (.latchPc .jump) else none
  | _ => none

/-- What actions do, up to the first that faults. -/
def deeds : List Action → Machine → List Deed
  | [], _ => []
  | action :: actions, m =>
    match m.perform action with
    | .ok m' => (m.microOp? action).toList.map (⟨m.path, ·, m'.path⟩) ++ deeds actions m'
    | .error _ => []

/-- What an instruction does, its fetch included. -/
def cycleDeeds (m : Machine) : List Deed :=
  deeds fetchActions m ++
    match performAll fetchActions m with
    | (_, some _) => []
    | (m', none) =>
      match m'.decoded with
      | .ok actions => deeds actions m'
      | .error _ => []

/-- What a number of steps do, which go on after failures. -/
def history (m : Machine) : Nat → List Deed
  | 0 => []
  | n + 1 => m.history n ++ if (m.after n).halted then [] else (m.after n).cycleDeeds

theorem leads_perform {m m' : Machine} {action : Action} (h : m.Performs action m') :
    m.path.Leads ((m.microOp? action).toList.map (⟨m.path, ·, m'.path⟩)) m'.path := by
  cases h with
  | micro hpath => exact .single hpath
  | jumps hx hpath =>
    rw [microOp?, if_pos hx]
    exact .single hpath
  | stays hx =>
    rw [microOp?, if_neg hx]
    exact .nothing
  | reportStore | reportOutput | endTick | halt => exact .nothing

theorem leads_performAll (actions : List Action) (m : Machine) :
    m.path.Leads (deeds actions m) (performAll actions m).1.path := by
  induction actions generalizing m with
  | nil => exact .nothing
  | cons action rest ih =>
    rw [deeds, performAll]
    cases hperform : m.perform action with
    | error fault => exact .nothing
    | ok mid => exact (leads_perform (perform_ok_iff.mp hperform)).trans (ih mid)

theorem leads_cycle (m : Machine) : m.path.Leads m.cycleDeeds m.cycle.1.path := by
  have hfetch := leads_performAll fetchActions m
  rw [cycleDeeds, cycle]
  rcases hrun : performAll fetchActions m with ⟨mid, _ | fault⟩
  · rw [hrun] at hfetch
    refine hfetch.trans ?_
    cases hdecoded : mid.decoded with
    | ok actions =>
      simp only [hdecoded]
      exact leads_performAll actions mid
    | error fault =>
      simp only [hdecoded]
      exact .nothing
  · rw [hrun] at hfetch
    exact hfetch.trans .nothing

/-- A run leads through its history. -/
theorem leads_history (m : Machine) (n : Nat) : m.path.Leads (m.history n) (m.after n).path := by
  induction n with
  | zero => exact .nothing
  | succ n ih =>
    rw [history, after, step]
    refine ih.trans ?_
    by_cases hhalted : (m.after n).halted = true
    · rw [if_pos hhalted, if_pos hhalted]
      exact .nothing
    · rw [if_neg hhalted, if_neg hhalted]
      exact leads_cycle (m.after n)

theorem after_add (m : Machine) (n k : Nat) : m.after (n + k) = (m.after n).after k := by
  induction k with
  | zero => rfl
  | succ k ih => rw [← Nat.add_assoc, after, ih, after]

/-- What holds after any number of steps. The flags go with the accumulator, where the zero flag has
    to wait for the first load. The input is what was read, character by character, and what is
    left. Once it was found empty it is, for ever. What was printed stays printed, and a cell that
    was not stored to has the contents it was loaded with. -/
theorem path_invariant (image : Image) (input : List Char) (limit : Option Nat) (n : Nat) :
    let start := load image input limit
    let d := (start.after n).path
    let past := start.history n
    d.signed = decide (d.acc < 0) ∧
      ((∃ deed ∈ past, deed.Loads) → d.zero = decide (d.acc = 0)) ∧
      ((∀ deed ∈ past, ¬ deed.Loads) → d.acc = 0 ∧ d.zero = false) ∧
      input = past.filterMap Deed.character? ++ d.input ∧
      (∀ deed ∈ past, deed.op = .latchAccumulator .input → deed.before.operand = integerMode →
        deed.after.input = deed.before.input) ∧
      (d.exhausted = true → d.input = [] ∧ ∀ k, (start.after (n + k)).path.exhausted = true) ∧
      (∀ k, d.tokens <+: (start.after (n + k)).path.tokens) ∧
      ∀ a, (∀ deed ∈ past, ¬ deed.Targets a) →
        d.memory.read a = (Memory.ofCells image.cells).read a := by
  intro start d past
  have hpast : start.path.Leads past d := leads_history start n
  -- What comes later is led to from here in the same way as this was from the start.
  have hfuture : ∀ k, ∃ more, d.Leads more (start.after (n + k)).path := fun k =>
    ⟨_, by rw [after_add]; exact leads_history (start.after n) k⟩
  have hempty : d.exhausted = true → d.input = [] :=
    (hpast.exhausted_kept fun hx => nomatch hx).2
  refine ⟨hpast.signed_eq rfl, hpast.zero_eq, hpast.acc_eq, hpast.input_eq, ?_, ?_, ?_, ?_⟩
  · intro deed hdeed hop hmode
    have hread := (hpast.does_of_mem hdeed).input_eq
    rw [Deed.character?, if_neg (fun hreads => hreads.2.1 hmode)] at hread
    exact hread.symm
  · intro hx
    refine ⟨hempty hx, fun k => ?_⟩
    rcases hfuture k with ⟨more, hmore⟩
    exact (hmore.exhausted_kept hempty).1 hx
  · intro k
    rcases hfuture k with ⟨more, hmore⟩
    exact hmore.tokens_prefix
  · exact fun a htargets => hpast.read_eq htargets

/-- A program that reads a character and prints it has read it, and leaves the one after it. -/
example :
    let start :=
      load ⟨[⟨.code ⟨.input, 5⟩, 0⟩, ⟨.code ⟨.output, characterMode⟩, 1⟩]⟩ ['x', 'y'] none
    (start.history 2).filterMap Deed.character? = ['x'] ∧ (start.after 2).path.input = ['y'] :=
  ⟨rfl, rfl⟩

end Machine

end AccumulatorMachine
