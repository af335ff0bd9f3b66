import Mathlib.Tactic.Common

/-!
# Computations that can fail

A sequence of computations succeeds exactly when each of its parts does, it fails for a
reason of one of its parts, and a search depends only on what it finds at the members of
its list.
-/

namespace Kerrigan.Lib

open List

variable {ε α β : Type} {first : Except ε α} {next : α → Except ε β}

theorem bind_eq_ok_iff {result : β} :
    (first >>= next) = .ok result ↔ ∃ value, first = .ok value ∧ next value = .ok result := by
  cases first with
  | error reason => simp [bind, Except.bind]
  | ok value => simp [bind, Except.bind]

def require {ε : Type} (condition : Prop) [Decidable condition] (reason : ε) : Except ε Unit :=
  if condition then .ok () else .error reason

variable {condition : Prop} {reason : ε}

theorem require_eq_ok_iff [Decidable condition] {result : Unit} :
    require condition reason = .ok result ↔ condition := by
  unfold require
  split <;> simp [*]

theorem mapError_eq_ok_iff {ε' : Type} {outcome : Except ε α} {wrap : ε → ε'} {value : α} :
    outcome.mapError wrap = .ok value ↔ outcome = .ok value := by
  cases outcome <;> simp [Except.mapError]

variable {values : List α} {check : α → Except ε Unit}

theorem forM_eq_ok_iff :
    values.forM check = .ok () ↔ ∀ value ∈ values, check value = .ok () := by
  induction values with
  | nil => simp [List.forM, pure, Except.pure]
  | cons value rest ih =>
    rw [List.forM, bind_eq_ok_iff, List.forall_mem_cons, ← ih]
    constructor
    · rintro ⟨⟨⟩, hvalue, hrest⟩
      exact ⟨hvalue, hrest⟩
    · rintro ⟨hvalue, hrest⟩
      exact ⟨(), hvalue, hrest⟩

/-- A loop over the indices of a list in which every step succeeds collects the values of its steps. -/
theorem mapM_range_eq_ok {step : Nat → Except ε β} {f : α → β}
    (hstep : ∀ index value, values[index]? = some value → step index = .ok (f value)) :
    (range values.length).mapM step = .ok (values.map f) := by
  induction values generalizing step with
  | nil => rfl
  | cons value rest ih =>
    have hrest := @ih (step ∘ Nat.succ)
      (fun index value hvalue => hstep (index + 1) value (by simpa using hvalue))
    rw [length_cons, range_succ_eq_map, mapM_cons, hstep 0 value rfl,
      mapM_map]
    simp only [bind, Except.bind, hrest]
    rfl

def FailsWith {ε α : Type} (property : ε → Prop) (outcome : Except ε α) : Prop :=
  ∀ reason, outcome = .error reason → property reason

variable {property : ε → Prop}

theorem FailsWith.ok (value : α) :
    FailsWith property (.ok value) := by
  intro reason hreason
  cases hreason

theorem FailsWith.require [Decidable condition] (hreason : property reason) :
    FailsWith property (require condition reason) := by
  intro found hfound
  unfold Lib.require at hfound
  split at hfound
  · cases hfound
  · cases hfound
    exact hreason

theorem FailsWith.require_of [Decidable condition] (hcondition : condition) :
    FailsWith property (Lib.require condition reason) := by
  unfold Lib.require
  rw [if_pos hcondition]
  exact .ok ()

theorem FailsWith.bind (hfirst : FailsWith property first)
    (hnext : ∀ value, FailsWith property (next value)) :
    FailsWith property (first >>= next) := by
  cases first with
  | error reason =>
    intro found hfound
    have hsame : reason = found := by simpa [Bind.bind, Except.bind] using hfound
    exact hfirst found (by rw [hsame])
  | ok value => exact hnext value

theorem findSome?_congr {first second : α → Option β}
    (hsame : ∀ value ∈ values, first value = second value) :
    values.findSome? first = values.findSome? second := by
  induction values with
  | nil => rfl
  | cons value rest ih =>
    have hrest := ih (fun other hother => hsame other (mem_cons_of_mem value hother))
    rw [findSome?_cons, findSome?_cons, hsame value mem_cons_self, hrest]

end Kerrigan.Lib
