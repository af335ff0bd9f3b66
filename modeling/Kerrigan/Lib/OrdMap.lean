import Mathlib.Order.Defs.LinearOrder
import Mathlib.Tactic.Tauto
import Std.Data.ExtTreeMap
import Std.Data.ExtTreeSet

/-!
# Ordered maps

Lookup in an ordered map after an insertion or a removal, in terms of equality of
keys instead of their comparison, the entries selected from its list form, and the same for
ordered sets.
-/

namespace Kerrigan.Lib

open List

variable {α β γ : Type} [Ord α] [Std.TransOrd α] [Std.LawfulEqOrd α]

theorem mem_filterMap_toList {map : Std.ExtTreeMap α β} {select : α × β → Option γ} {item : γ} :
    item ∈ map.toList.filterMap select ↔
      ∃ (key : α) (value : β), map[key]? = some value ∧ select (key, value) = some item := by
  simp only [mem_filterMap, Prod.exists, Std.ExtTreeMap.mem_toList_iff_getElem?_eq_some]

theorem nodup_filterMap_toList {map : Std.ExtTreeMap α β} {select : α × β → Option γ}
    {keyOf : γ → α} (hkey : ∀ (key : α) (value : β) (item : γ), map[key]? = some value →
      select (key, value) = some item → keyOf item = key) :
    ((map.toList.filterMap select).map keyOf).Nodup := by
  have hdistinct : map.toList.Pairwise (fun first second => first.1 ≠ second.1) :=
    map.distinct_keys_toList.imp (fun hne heq => hne (Std.compare_eq_iff_eq.mpr heq))
  rw [Nodup, pairwise_map, pairwise_filterMap]
  refine hdistinct.imp_of_mem ?_
  intro first second hfirst hsecond hne one hone two htwo
  rw [Std.ExtTreeMap.mem_toList_iff_getElem?_eq_some] at hfirst hsecond
  rw [hkey first.1 first.2 one hfirst hone, hkey second.1 second.2 two hsecond htwo]
  exact hne

section SelectKeys

variable {map : Std.ExtTreeMap α β} {select : α × β → Prop} [DecidablePred select]

theorem mem_selectKeys {key : α} :
    key ∈ map.toList.filterMap (fun item => if select item then some item.1 else none) ↔
      ∃ value ∈ map[key]?, select (key, value) := by
  simp only [mem_filterMap_toList, Option.ite_none_right_eq_some, Option.some.injEq]
  constructor
  · rintro ⟨other, value, hfound, hselect, rfl⟩
    exact ⟨value, hfound, hselect⟩
  · rintro ⟨value, hfound, hselect⟩
    exact ⟨key, value, hfound, hselect, rfl⟩

theorem nodup_selectKeys :
    (map.toList.filterMap (fun item => if select item then some item.1 else none)).Nodup := by
  rw [← map_id (filterMap _ _)]
  refine nodup_filterMap_toList ?_
  intro key value item _ hselect
  rw [Option.ite_none_right_eq_some] at hselect
  exact (Option.some.inj hselect.2).symm

end SelectKeys

theorem takeWhile_eq_filter_of_pairwise {relation : γ → γ → Prop} {below : γ → Bool}
    {items : List γ} (hsorted : items.Pairwise relation)
    (hbelow : ∀ first second, relation first second → below second → below first) :
    items.takeWhile below = items.filter below := by
  induction items with
  | nil => rfl
  | cons item rest ih =>
    obtain ⟨hfirst, hrest⟩ := pairwise_cons.mp hsorted
    by_cases hitem : below item
    · rw [takeWhile_cons_of_pos hitem, filter_cons_of_pos hitem, ih hrest]
    · rw [takeWhile_cons_of_neg hitem, filter_cons_of_neg hitem]
      symm
      apply filter_eq_nil_iff.mpr
      intro other hmem hother
      exact hitem (hbelow item other (hfirst other hmem) hother)

theorem dropWhile_eq_filter_of_pairwise {relation : γ → γ → Prop} {below : γ → Bool}
    {items : List γ} (hsorted : items.Pairwise relation)
    (hbelow : ∀ first second, relation first second → below second → below first) :
    items.dropWhile below = items.filter (fun item => !below item) := by
  induction items with
  | nil => rfl
  | cons item rest ih =>
    obtain ⟨hfirst, hrest⟩ := pairwise_cons.mp hsorted
    by_cases hitem : below item
    · rw [dropWhile_cons_of_pos hitem, filter_cons_of_neg (by simp [hitem]), ih hrest]
    · rw [dropWhile_cons_of_neg hitem]
      symm
      apply filter_eq_self.mpr
      intro other hmem
      rcases mem_cons.mp hmem with rfl | hlater
      · simpa using hitem
      · have hnot : ¬ below other := fun hother =>
          hitem (hbelow item other (hfirst other hlater) hother)
        simpa using hnot

theorem mem_foldl_insert (set : Std.ExtTreeSet α) (keys : List α) (other : α) :
    other ∈ keys.foldl (fun set key => set.insert key) set ↔ other ∈ keys ∨ other ∈ set := by
  induction keys generalizing set with
  | nil => simp
  | cons key rest ih =>
    rw [foldl_cons, ih, Std.ExtTreeSet.mem_insert, Std.compare_eq_iff_eq, mem_cons,
      eq_comm]
    tauto

theorem mem_foldl_erase (set : Std.ExtTreeSet α) (keys : List α) (other : α) :
    other ∈ keys.foldl (fun set key => set.erase key) set ↔ other ∉ keys ∧ other ∈ set := by
  induction keys generalizing set with
  | nil => simp
  | cons key rest ih =>
    rw [foldl_cons, ih, Std.ExtTreeSet.mem_erase, ne_eq, Std.compare_eq_iff_eq,
      mem_cons, eq_comm]
    tauto

variable [DecidableEq α] (map : Std.ExtTreeMap α β)

theorem getElem?_insert_eq (key other : α) (value : β) :
    (map.insert key value)[other]? = if key = other then some value else map[other]? := by
  rw [Std.ExtTreeMap.getElem?_insert]
  simp only [Std.compare_eq_iff_eq]

theorem getElem?_insert_cases {map : Std.ExtTreeMap α β} {key other : α} {value found : β}
    (hfound : (map.insert key value)[other]? = some found) :
    (other = key ∧ found = value) ∨ (other ≠ key ∧ map[other]? = some found) := by
  rw [getElem?_insert_eq] at hfound
  split at hfound
  · rename_i hkey
    cases hfound
    exact Or.inl ⟨hkey.symm, rfl⟩
  · rename_i hkey
    exact Or.inr ⟨Ne.symm hkey, hfound⟩

theorem getElem?_erase_eq (key other : α) :
    (map.erase key)[other]? = if key = other then none else map[other]? := by
  rw [Std.ExtTreeMap.getElem?_erase]
  simp only [Std.compare_eq_iff_eq]

theorem getElem?_foldl_erase (keys : List α) (other : α) :
    (keys.foldl (fun map key => map.erase key) map)[other]? =
      if other ∈ keys then none else map[other]? := by
  induction keys generalizing map with
  | nil => simp
  | cons key rest ih =>
    rw [foldl_cons, ih, getElem?_erase_eq]
    by_cases hmem : other ∈ rest
    · simp [hmem]
    · by_cases hkey : key = other
      · simp [hkey]
      · simp [hmem, hkey, Ne.symm hkey]

theorem getElem?_foldl_insert (keys : List α) (value : β) (other : α) :
    (keys.foldl (fun map key => map.insert key value) map)[other]? =
      if other ∈ keys then some value else map[other]? := by
  induction keys generalizing map with
  | nil => simp
  | cons key rest ih =>
    rw [foldl_cons, ih, getElem?_insert_eq]
    by_cases hmem : other ∈ rest
    · simp [hmem]
    · by_cases hkey : key = other
      · simp [hkey]
      · simp [hmem, hkey, Ne.symm hkey]

theorem getElem?_foldl_erase_filter (drop : α → Bool) (other : α) :
    ((map.keys.filter drop).foldl (fun map key => map.erase key) map)[other]? =
      if drop other then none else map[other]? := by
  rw [getElem?_foldl_erase]
  by_cases hkey : other ∈ map
  · simp [Std.ExtTreeMap.mem_keys, hkey]
  · simp [Std.ExtTreeMap.getElem?_eq_none hkey]

end Kerrigan.Lib
