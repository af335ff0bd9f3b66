import Mathlib.Data.List.Basic
import Mathlib.Data.List.DropRight
import Mathlib.Tactic.Common

/-!
# Bounded windows

A queue that drops its oldest elements when it grows beyond its capacity.  After
enough pushes its content is the last pushed elements, whatever it held before.
-/

namespace Kerrigan.Lib

open List

variable {α : Type*}

/-- Append an element and drop from the front down to the capacity. -/
def pushWindow (capacity : Nat) (window : List α) (item : α) : List α :=
  (window ++ [item]).drop (window.length + 1 - capacity)

theorem length_pushWindow (capacity : Nat) (window : List α) (item : α) :
    (pushWindow capacity window item).length = min (window.length + 1) capacity := by
  rw [pushWindow, length_drop, length_append, length_singleton]
  omega

variable {capacity : Nat} {window : List α}

theorem pushWindow_of_lt (hroom : window.length < capacity) (item : α) :
    pushWindow capacity window item = window ++ [item] := by
  rw [pushWindow, Nat.sub_eq_zero_of_le hroom, drop_zero]

/-- The content after a sequence of pushes is the end of everything pushed. -/
theorem foldl_pushWindow (capacity : Nat) (window items : List α)
    (hbound : window.length ≤ capacity) :
    items.foldl (pushWindow capacity) window =
      (window ++ items).drop (window.length + items.length - capacity) := by
  induction items generalizing window with
  | nil =>
    rw [foldl_nil, append_nil, length_nil, Nat.add_zero,
      Nat.sub_eq_zero_of_le hbound, drop_zero]
  | cons item rest ih =>
    have hlength := length_pushWindow capacity window item
    rw [foldl_cons, ih (pushWindow capacity window item) (by omega), hlength, pushWindow]
    have hsplit : (window ++ item :: rest) = (window ++ [item]) ++ rest := by simp
    rw [hsplit, ← drop_append_of_le_length (by simp), drop_drop]
    congr 1
    rw [length_cons]
    omega

theorem foldl_pushWindow_of_le {items : List α} (window : List α) (hsome : items ≠ [])
    (henough : capacity ≤ items.length) :
    items.foldl (pushWindow capacity) window = items.drop (items.length - capacity) := by
  cases items with
  | nil => exact absurd rfl hsome
  | cons item rest =>
    have hlength := length_pushWindow capacity window item
    rw [foldl_cons,
      foldl_pushWindow capacity (pushWindow capacity window item) rest (by omega), hlength,
      pushWindow, ← drop_append_of_le_length (by simp), drop_drop,
      append_assoc, singleton_append]
    have hskip : window.length + 1 - capacity +
        (min (window.length + 1) capacity + rest.length - capacity) =
        window.length + ((item :: rest).length - capacity) := by
      rw [length_cons] at henough ⊢
      omega
    rw [hskip, drop_append]
    simp

theorem foldl_pushWindow_of_lt {items : List α} (window : List α) (hfit : items.length < capacity) :
    ∃ older, items.foldl (pushWindow capacity) window = older ++ items := by
  induction items using reverseRecOn with
  | nil => exact ⟨window, by simp⟩
  | append_singleton front last ih =>
    rw [length_append, length_singleton] at hfit
    obtain ⟨older, hfront⟩ := ih (by omega)
    refine ⟨older.drop ((older ++ front).length + 1 - capacity), ?_⟩
    rw [foldl_append, hfront, foldl_cons, foldl_nil, pushWindow,
      append_assoc, drop_append_of_le_length]
    rw [length_append]
    omega

theorem mem_of_mem_pushWindow {item found : α} (hmem : found ∈ pushWindow capacity window item) :
    found ∈ window ∨ found = item := by
  rcases mem_append.mp (mem_of_mem_drop hmem) with hbefore | hnew
  · exact Or.inl hbefore
  · exact Or.inr (mem_singleton.mp hnew)

theorem pairwise_pushWindow_of_last {relation : α → α → Prop} {item : α}
    (hsorted : window.Pairwise relation) (hlast : ∀ other ∈ window, relation other item) :
    (pushWindow capacity window item).Pairwise relation := by
  refine Pairwise.sublist (drop_sublist _ _) ?_
  rw [pairwise_append]
  refine ⟨hsorted, pairwise_singleton _ _, ?_⟩
  intro other hother last hmem
  rw [mem_singleton.mp hmem]
  exact hlast other hother

section Heights

variable (height : α → Int)

theorem pairwise_pushWindow {capacity : Nat} {window : List α} {item : α}
    (hsorted : window.Pairwise (fun first second => height first ≤ height second))
    (hlast : ∀ other ∈ window, height other ≤ height item) :
    (pushWindow capacity window item).Pairwise
      (fun first second => height first ≤ height second) :=
  pairwise_pushWindow_of_last hsorted hlast

/-- Dropping from the end of a sorted window what is at or above a height drops all of it. -/
theorem lt_of_mem_rdropWhile {window : List α} {limit : Int}
    (hsorted : window.Pairwise (fun first second => height first ≤ height second))
    {found : α} (hmem : found ∈ window.rdropWhile (fun item => limit ≤ height item)) :
    height found < limit := by
  induction window using reverseRecOn with
  | nil => simp at hmem
  | append_singleton front last ih =>
    rw [pairwise_append] at hsorted
    by_cases hlast : limit ≤ height last
    · rw [rdropWhile_concat_pos _ _ _ (by simpa using hlast)] at hmem
      exact ih hsorted.1 hmem
    · rw [rdropWhile_concat_neg _ _ _ (by simpa using hlast)] at hmem
      rcases mem_append.mp hmem with hfront | hsame
      · have hbelow := hsorted.2.2 found hfront last mem_cons_self
        omega
      · rw [mem_singleton.mp hsame]
        omega

end Heights

/-! ## Windows of live heights -/

structure LiveWindow (height : α → Int) (capacity : Nat) (live : List Int) (window : List α) :
    Prop where
  length_le : window.length ≤ capacity
  increasing : window.Pairwise (fun first second => height first < height second)
  live_of_mem : ∀ item ∈ window, height item ∈ live

namespace LiveWindow

variable {height : α → Int} {capacity : Nat} {live : List Int} {window : List α}

theorem nil : LiveWindow height capacity [] [] :=
  ⟨Nat.zero_le capacity, Pairwise.nil, by simp⟩

section

variable (h : LiveWindow height capacity live window)

include h

theorem mono (more : List Int) :
    LiveWindow height capacity (live ++ more) window :=
  ⟨h.length_le, h.increasing, fun item hitem => mem_append_left more (h.live_of_mem item hitem)⟩

theorem push (item : α) (habove : ∀ other ∈ window, height other < height item) :
    LiveWindow height capacity (live ++ [height item]) (pushWindow capacity window item) where
  length_le := by
    rw [length_pushWindow]
    exact Nat.min_le_right _ _
  increasing := pairwise_pushWindow_of_last h.increasing habove
  live_of_mem := by
    intro found hfound
    rcases mem_of_mem_pushWindow hfound with hbefore | rfl
    · exact mem_append_left _ (h.live_of_mem found hbefore)
    · exact mem_append_right _ (mem_singleton_self _)

theorem drop (limit : Int) :
    LiveWindow height capacity (live.filter (fun other => other < limit))
      (window.rdropWhile (fun item => limit ≤ height item)) where
  length_le := ( rdropWhile_prefix _ _).length_le.trans h.length_le
  increasing := h.increasing.sublist ( rdropWhile_prefix _ _).sublist
  live_of_mem := by
    intro item hitem
    have hsorted : window.Pairwise (fun first second => height first ≤ height second) :=
      h.increasing.imp Int.le_of_lt
    have hbelow := lt_of_mem_rdropWhile height hsorted hitem
    have hwindow := ( rdropWhile_prefix _ _).subset hitem
    exact mem_filter.mpr ⟨h.live_of_mem item hwindow, by simpa using hbelow⟩

end

end LiveWindow

end Kerrigan.Lib
