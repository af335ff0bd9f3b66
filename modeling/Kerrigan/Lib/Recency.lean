import Mathlib.Data.List.Infix

/-!
# Bounded lists of recent entries

A list of recent entries brings an entry that is used again to the front and drops the oldest
entry above its capacity.  Two such lists that see the same entries and the same indices stay in
step: the longer one always continues the shorter one, so that an index into the shorter one means
the same entry in both.
-/

namespace Kerrigan.Lib

open List

variable {α : Type}

def moveToFront (entries : List α) (index : Nat) : List α :=
  match entries[index]? with
  | none => entries
  | some entry => entry :: entries.eraseIdx index

def pushRecent (capacity : Nat) (entries : List α) (entry : α) : List α :=
  if capacity < (entry :: entries).length then (entry :: entries).dropLast
  else entry :: entries

theorem moveToFront_of_getElem? {entries : List α} {index : Nat} {entry : α}
    (hentry : entries[index]? = some entry) :
    moveToFront entries index = entry :: entries.eraseIdx index := by
  rw [moveToFront, hentry]

theorem length_moveToFront (entries : List α) (index : Nat) :
    (moveToFront entries index).length = entries.length := by
  unfold moveToFront
  cases hentry : entries[index]? with
  | none => rfl
  | some entry =>
    have hindex := (List.getElem?_eq_some_iff.mp hentry).1
    rw [length_cons, length_eraseIdx_of_lt hindex]
    omega

theorem length_pushRecent_le {capacity : Nat} {entries : List α}
    (hlength : entries.length ≤ capacity) (entry : α) :
    (pushRecent capacity entries entry).length ≤ capacity := by
  unfold pushRecent
  split
  · rw [length_dropLast, length_cons]
    omega
  · omega

structure InStep (capacity : Nat) (first second : List α) : Prop where
  continues : first <+: second
  bounded : second.length ≤ capacity

namespace InStep

variable {capacity : Nat} {first second : List α}

section

variable (hstep : InStep capacity first second)

include hstep

theorem getElem? {index : Nat} {entry : α}
    (hentry : first[index]? = some entry) : second[index]? = some entry := by
  obtain ⟨extra, rfl⟩ := hstep.continues
  rw [List.getElem?_append_left (List.getElem?_eq_some_iff.mp hentry).1]
  exact hentry

theorem moveToFront {index : Nat} {entry : α} (hentry : first[index]? = some entry) :
    InStep capacity (moveToFront first index) (moveToFront second index) := by
  refine ⟨?_, ?_⟩
  · rw [moveToFront_of_getElem? hentry, moveToFront_of_getElem? (hstep.getElem? hentry)]
    obtain ⟨extra, rfl⟩ := hstep.continues
    rw [List.eraseIdx_append_of_lt_length (List.getElem?_eq_some_iff.mp hentry).1]
    exact ⟨extra, rfl⟩
  · rw [length_moveToFront]
    exact hstep.bounded

theorem pushRecent (entry : α) :
    InStep capacity (pushRecent capacity first entry) (pushRecent capacity second entry) := by
  refine ⟨?_, length_pushRecent_le hstep.bounded entry⟩
  have hcontinues : entry :: first <+: entry :: second := cons_prefix_cons.mpr ⟨rfl, hstep.continues⟩
  have hlength := hstep.continues.length_le
  unfold Lib.pushRecent
  rw [length_cons, length_cons]
  by_cases hsecond : capacity < second.length + 1
  · rw [if_pos hsecond]
    by_cases hfirst : capacity < first.length + 1
    · have hsame : first = second :=
        hstep.continues.eq_of_length (by have hbounded := hstep.bounded; omega)
      rw [if_pos hfirst, hsame]
    · rw [if_neg hfirst, dropLast_eq_take]
      refine prefix_take_iff.mpr ⟨hcontinues, ?_⟩
      rw [length_cons, length_cons]
      omega
  · rw [if_neg hsecond, if_neg (by omega)]
    exact hcontinues

end

end InStep

end Kerrigan.Lib
