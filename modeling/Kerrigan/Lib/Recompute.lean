import Kerrigan.Lib.OrdMap
import Mathlib.Data.List.Induction
import Mathlib.Data.List.Sort

/-!
# Recomputing the entries of a map in order

A value is recomputed from the map as it is when its key is reached.  When every key
comes after the keys that its value reads, the pass ends in a map that satisfies the
equation of every entry.
-/

namespace Kerrigan.Lib

open List

variable {α β : Type} [Ord α] [Std.TransOrd α]

def recomputeAt (update : Std.ExtTreeMap α β → β → β) (map : Std.ExtTreeMap α β) (key : α) :
    Std.ExtTreeMap α β :=
  match map[key]? with
  | none => map
  | some value => map.insert key (update map value)

def recompute (update : Std.ExtTreeMap α β → β → β) (order : List α)
    (map : Std.ExtTreeMap α β) : Std.ExtTreeMap α β :=
  order.foldl (recomputeAt update) map

/-- The keys that a value reads come before its own key. -/
def ReadsEarlier (reads : β → Option α) (map : Std.ExtTreeMap α β) (order : List α) : Prop :=
  ∀ before key after, order = before ++ key :: after → ∀ value, map[key]? = some value →
    ∀ other ∈ reads value, other ∈ before

variable {reads : β → Option α} {map : Std.ExtTreeMap α β}

theorem readsEarlier_of_rank {order : List α} (rank : α → Nat)
    (hsorted : order.Pairwise (fun first second => rank first ≤ rank second))
    (hrank : ∀ key value, map[key]? = some value → ∀ other ∈ reads value,
      other ∈ order ∧ rank other < rank key) : ReadsEarlier reads map order := by
  intro before key after hsplit value hvalue other hother
  obtain ⟨hmem, hlower⟩ := hrank key value hvalue other hother
  rw [hsplit] at hmem hsorted
  rcases mem_append.mp hmem with hbefore | hafter
  · exact hbefore
  · exfalso
    rcases mem_cons.mp hafter with rfl | hlater
    · exact Nat.lt_irrefl _ hlower
    · have hle := (pairwise_cons.mp (pairwise_append.mp hsorted).2.1).1 other hlater
      exact absurd hlower (Nat.not_lt.mpr hle)

variable [Std.LawfulEqOrd α] [DecidableEq α] {update : Std.ExtTreeMap α β → β → β}

theorem recompute_of_notMem {order : List α} {key : α} (hkey : key ∉ order) :
    (recompute update order map)[key]? = map[key]? := by
  induction order generalizing map with
  | nil => rfl
  | cons first rest ih =>
    rw [mem_cons, not_or] at hkey
    have hstep : (recomputeAt update map first)[key]? = map[key]? := by
      unfold recomputeAt
      split
      · rfl
      · rw [getElem?_insert_eq, if_neg (Ne.symm hkey.1)]
    exact (ih hkey.2).trans hstep

/-- The pass reaches a solution of the equations of the entries. -/
theorem recompute_eq (hlocal : ∀ (first second : Std.ExtTreeMap α β) value,
      (∀ other ∈ reads value, first[other]? = second[other]?) →
        update first value = update second value)
    {order : List α} (hnodup : order.Nodup) (hreads : ReadsEarlier reads map order)
    {key : α} (hkey : key ∈ order) {value : β} (hvalue : map[key]? = some value) :
    (recompute update order map)[key]? =
      some (update (recompute update order map) value) := by
  induction order using reverseRecOn generalizing key value with
  | nil => cases hkey
  | append_singleton before last ih =>
    have hlast : last ∉ before := by
      intro hmem
      exact (nodup_append.mp hnodup).2.2 last hmem last (mem_singleton_self last) rfl
    have hbefore : ∀ other ∈ before, other ≠ last := fun other hother heq =>
      hlast (heq ▸ hother)
    have hearlier : ReadsEarlier reads map before := by
      intro first middle after heq
      refine hreads first middle (after ++ [last]) ?_
      rw [heq, append_assoc, cons_append]
    have hstep : recompute update (before ++ [last]) map =
        recomputeAt update (recompute update before map) last := by
      simp [recompute]
    have hsame : ∀ other ∈ before, (recompute update (before ++ [last]) map)[other]? =
        (recompute update before map)[other]? := by
      intro other hother
      rw [hstep, recomputeAt]
      split
      · rfl
      · rw [getElem?_insert_eq, if_neg (Ne.symm (hbefore other hother))]
    have hupdate : ∀ found, map[key]? = some found → (∀ other ∈ reads found, other ∈ before) →
        update (recompute update before map) found =
          update (recompute update (before ++ [last]) map) found := by
      intro found _ hfound
      exact hlocal _ _ found (fun other hother => (hsame other (hfound other hother)).symm)
    rcases mem_append.mp hkey with hold | hnew
    · have hvalueReads : ∀ other ∈ reads value, other ∈ before := by
        obtain ⟨first, after, hsplit⟩ := append_of_mem hold
        intro other hother
        rw [hsplit]
        exact mem_append_left _ (hearlier first key after hsplit value hvalue other hother)
      rw [hsame key hold, ih (nodup_append.mp hnodup).1 hearlier hold hvalue,
        hupdate value hvalue hvalueReads]
    · obtain rfl := mem_singleton.mp hnew
      have hvalueReads := hreads before key [] rfl value hvalue
      have hfound : (recompute update before map)[key]? = some value :=
        (recompute_of_notMem hlast).trans hvalue
      have hinsert : recompute update (before ++ [key]) map =
          (recompute update before map).insert key
            (update (recompute update before map) value) := by
        rw [hstep, recomputeAt, hfound]
      rw [← hupdate value hvalue hvalueReads, hinsert, getElem?_insert_eq, if_pos rfl]

end Kerrigan.Lib
