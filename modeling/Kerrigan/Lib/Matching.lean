import Mathlib.Data.List.Forall2
import Mathlib.Data.List.Perm.Subperm

/-!
# Greedy matching

Requirements are served one after another from a list of values; each takes one value away.  What
was taken is an assignment of the requirements to distinct positions of the list, however a
requirement chooses.
-/

namespace Kerrigan.Lib

open List

variable {α β : Type}

def Assignment (Satisfies : α → β → Prop) (requirements : List α) (values : List β)
    (positions : List Nat) : Prop :=
  positions.Nodup ∧ Forall₂ (fun requirement position =>
    ∃ value, values[position]? = some value ∧ Satisfies requirement value) requirements positions

def Takes (Satisfies : α → β → Prop) (serve : List β → α → Option (List β)) : Prop :=
  ∀ values requirement rest, serve values requirement = some rest →
    ∃ value, Satisfies requirement value ∧ values.Perm (value :: rest)

variable {requirements : List α} {values rest : List β} {Satisfies : α → β → Prop}
  {serve : List β → α → Option (List β)}

theorem Takes.foldlM (htakes : Takes Satisfies serve)
    (h : requirements.foldlM serve values = some rest) :
    ∃ taken, Forall₂ Satisfies requirements taken ∧ values.Perm (taken ++ rest) := by
  induction requirements generalizing values with
  | nil =>
    cases h
    exact ⟨[], Forall₂.nil, Perm.refl _⟩
  | cons requirement requirements ih =>
    rw [foldlM_cons, Option.bind_eq_bind, Option.bind_eq_some_iff] at h
    obtain ⟨middle, hserve, hlater⟩ := h
    obtain ⟨value, hvalue, hperm⟩ := htakes values requirement middle hserve
    obtain ⟨taken, htaken, hrest⟩ := ih hlater
    exact ⟨value :: taken, Forall₂.cons hvalue htaken, hperm.trans (hrest.cons value)⟩

theorem exists_positions {taken : List β} (hperm : values.Perm (taken ++ rest)) :
    ∃ positions : List Nat, positions.Nodup ∧
      Forall₂ (fun value position => values[position]? = some value) taken positions := by
  have hrange : Forall₂ (fun value position => values[position]? = some value) values
      (range values.length) := by
    refine forall₂_iff_get.mpr ⟨by simp, ?_⟩
    intro position hvalue hposition
    simp [hvalue]
  obtain ⟨positions, hpositions, hsame⟩ := perm_comp_forall₂ hperm.symm hrange
  have hnodup : positions.Nodup := hsame.nodup_iff.mpr nodup_range
  refine ⟨positions.take taken.length, hnodup.sublist (take_sublist _ _), ?_⟩
  have htake := forall₂_take taken.length hpositions
  rwa [take_left] at htake

/-- Serving requirements one after another assigns them to distinct positions. -/
theorem Takes.assignment (htakes : Takes Satisfies serve)
    (h : requirements.foldlM serve values = some rest) :
    ∃ positions, Assignment Satisfies requirements values positions := by
  obtain ⟨taken, htaken, hperm⟩ := htakes.foldlM h
  obtain ⟨positions, hnodup, hpositions⟩ := exists_positions hperm
  refine ⟨positions, hnodup, ?_⟩
  clear h hperm hnodup
  induction htaken generalizing positions with
  | nil =>
    cases hpositions
    exact Forall₂.nil
  | cons hvalue _ ih =>
    cases hpositions with
    | cons hposition hpositions =>
      exact Forall₂.cons ⟨_, hposition, hvalue⟩ (ih _ hpositions)

/-- If the equal value is preferred, a list that holds all requirements serves them. -/
theorem foldlM_of_subperm [DecidableEq α] {serve : List α → α → Option (List α)}
    (hexact : ∀ values value, value ∈ values → serve values value = some (values.erase value))
    {values : List α} (h : requirements.Subperm values) :
    ∃ rest, requirements.foldlM serve values = some rest := by
  induction requirements generalizing values with
  | nil => exact ⟨values, rfl⟩
  | cons requirement requirements ih =>
    have hmem : requirement ∈ values := h.subset mem_cons_self
    have hrest := h.erase requirement
    rw [erase_cons_head] at hrest
    obtain ⟨rest, hserved⟩ := ih hrest
    refine ⟨rest, ?_⟩
    rw [foldlM_cons, hexact values requirement hmem]
    exact hserved

end Kerrigan.Lib
