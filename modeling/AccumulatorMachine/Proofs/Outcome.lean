import Mathlib.Data.List.Forall2

/-!
# Outcomes

What a computation that has succeeded has gone through, and where one that has failed has stopped.

Most of this library computes in monads that may stop with an error. A proof about a result
starts from the fact that there is one, and walks back over the steps that led to it. Each of
them has succeeded as well.

## Theorems

* `Outcome.bind_ok`: A sequence that succeeds has two parts that do.
* `Outcome.bind_error`: A sequence that fails has a part that does.
* `Outcome.map_ok`: A mapped result is the image of a result.
* `Outcome.ok_of_toOption`: A computation with a result succeeds.
* `Outcome.mapM_ok`, `Outcome.mem_of_mapM`: The results of a list are those of its elements.
* `Outcome.mapM_error`: The error of a list is that of the first element that has one.
* `Outcome.run_bind_ok`: The same as `bind_ok`, for computations on a state.
* `Outcome.run_bind_of_ok`, `Outcome.run_bind_of_error`: A sequence goes on after its first part if
  that has succeeded, and stops if it has failed.
* `Outcome.run_liftM_ok`: A computation that does not use the state leaves it alone.
* `Outcome.run_liftM_bind`: Going on after such a computation.
-/

namespace AccumulatorMachine

namespace Outcome

variable {ε σ α β : Type}

theorem bind_ok {x : Except ε α} {f : α → Except ε β} {b : β} (h : (x >>= f) = .ok b) :
    ∃ a, x = .ok a ∧ f a = .ok b := by
  cases x with
  | error e => cases h
  | ok a => exact ⟨a, rfl, h⟩

theorem bind_error {x : Except ε α} {f : α → Except ε β} {e : ε} (h : (x >>= f) = .error e) :
    x = .error e ∨ ∃ a, x = .ok a ∧ f a = .error e := by
  cases x with
  | error e' =>
    cases h
    exact Or.inl rfl
  | ok a => exact Or.inr ⟨a, rfl, h⟩

theorem map_ok {x : Except ε α} {f : α → β} {b : β} (h : x.map f = .ok b) :
    ∃ a, x = .ok a ∧ f a = b := by
  cases x with
  | error e => cases h
  | ok a =>
    cases h
    exact ⟨a, rfl, rfl⟩

theorem map_error {x : Except ε α} {f : α → β} {e : ε} (h : x.map f = .error e) : x = .error e := by
  cases x with
  | error e' =>
    cases h
    rfl
  | ok a => cases h

theorem ok_of_toOption {x : Except ε α} {a : α} (h : x.toOption = some a) : x = .ok a := by
  cases x with
  | error e => cases h
  | ok b =>
    cases h
    rfl

/-- A list that is mapped has a result for each of its elements. -/
theorem mapM_ok {f : α → Except ε β} {list : List α} {results : List β}
    (h : list.mapM f = .ok results) : List.Forall₂ (fun a b => f a = .ok b) list results := by
  induction list generalizing results with
  | nil =>
    cases h
    exact .nil
  | cons first rest ih =>
    rw [List.mapM_cons] at h
    rcases bind_ok h with ⟨result, hfirst, hrest⟩
    rcases bind_ok hrest with ⟨others, hothers, hpure⟩
    cases hpure
    exact .cons hfirst (ih hothers)

/-- A list that is mapped has the error of the first element that has one. -/
theorem mapM_error {f : α → Except ε β} {list : List α} {e : ε} (h : list.mapM f = .error e) :
    ∃ (k : Nat) (a : α), list[k]? = some a ∧ f a = .error e ∧
      ∀ a' ∈ list.take k, ∃ b, f a' = .ok b := by
  induction list with
  | nil => cases h
  | cons first rest ih =>
    rw [List.mapM_cons] at h
    rcases bind_error h with hfirst | ⟨b, hfirst, hlater⟩
    · exact ⟨0, first, rfl, hfirst, by simp⟩
    · rcases bind_error hlater with hrest | ⟨others, -, hpure⟩
      · rcases ih hrest with ⟨k, a, hk, ha, hbefore⟩
        exact ⟨k + 1, a, hk, ha, List.forall_mem_cons.mpr ⟨⟨b, hfirst⟩, hbefore⟩⟩
      · cases hpure

theorem exists_of_mem {R : α → β → Prop} {list : List α} {results : List β}
    (h : List.Forall₂ R list results) {b : β} (hb : b ∈ results) : ∃ a ∈ list, R a b := by
  rcases List.getElem_of_mem hb with ⟨k, hk, rfl⟩
  have hlength : k < list.length := h.length_eq ▸ hk
  exact ⟨list[k], List.getElem_mem hlength, h.get hlength hk⟩

theorem mem_of_mapM {f : α → Except ε β} {list : List α} {results : List β}
    (h : list.mapM f = .ok results) {b : β} (hb : b ∈ results) : ∃ a ∈ list, f a = .ok b :=
  exists_of_mem (mapM_ok h) hb

theorem run_bind_ok {x : StateT σ (Except ε) α} {f : α → StateT σ (Except ε) β} {s s' : σ} {b : β}
    (h : (x >>= f).run s = .ok (b, s')) :
    ∃ a mid, x.run s = .ok (a, mid) ∧ (f a).run mid = .ok (b, s') := by
  rw [StateT.run_bind] at h
  rcases bind_ok h with ⟨⟨a, mid⟩, hx, hf⟩
  exact ⟨a, mid, hx, hf⟩

theorem run_bind_of_ok {x : StateT σ (Except ε) α} (f : α → StateT σ (Except ε) β) {s mid : σ}
    {a : α} (h : x.run s = .ok (a, mid)) : (x >>= f).run s = (f a).run mid := by
  rw [StateT.run_bind, h]
  rfl

theorem run_bind_of_error {x : StateT σ (Except ε) α} (f : α → StateT σ (Except ε) β) {s : σ}
    {e : ε} (h : x.run s = .error e) : (x >>= f).run s = .error e := by
  rw [StateT.run_bind, h]
  rfl

theorem run_liftM_ok {x : Except ε α} {s s' : σ} {a : α}
    (h : (liftM x : StateT σ (Except ε) α).run s = .ok (a, s')) : x = .ok a ∧ s' = s := by
  cases x with
  | error e => cases h
  | ok a =>
    cases h
    exact ⟨rfl, rfl⟩

theorem run_liftM_bind (x : Except ε α) (f : α → StateT σ (Except ε) β) (s : σ) :
    ((liftM x : StateT σ (Except ε) α) >>= f).run s = x >>= fun a => (f a).run s := by
  cases x <;> rfl

end Outcome

end AccumulatorMachine
