import Kerrigan.Lib.OrdMap

/-!
# The reverse index of a map

For every value of a map, the set of the keys that have it.  Sets are never empty, so that a
value is in the index exactly if it is in the map.  The index is maintained under insertions of
fresh keys and removals, and can be rebuilt from the map.
-/

namespace Kerrigan.Lib

variable {α β : Type} [Ord α] [Std.TransOrd α] [Ord β] [Std.TransOrd β]

abbrev ReverseIndex (α β : Type) [Ord α] [Ord β] := Std.ExtTreeMap β (Std.ExtTreeSet α)

namespace ReverseIndex

def add (index : ReverseIndex α β) (value : β) (key : α) : ReverseIndex α β :=
  index.insert value ((index[value]?.getD ∅).insert key)

def remove (index : ReverseIndex α β) (value : β) (key : α) : ReverseIndex α β :=
  match index[value]? with
  | none => index
  | some keys =>
      if (keys.erase key).isEmpty then index.erase value else index.insert value (keys.erase key)

def keys (index : ReverseIndex α β) : List α :=
  index.toList.flatMap (fun entry => entry.2.toList)

def ofMap (map : Std.ExtTreeMap α β) : ReverseIndex α β :=
  map.toList.foldl (fun index entry => index.add entry.2 entry.1) ∅

def Holds (index : ReverseIndex α β) (value : β) (key : α) : Prop :=
  ∃ keys, index[value]? = some keys ∧ key ∈ keys

structure Indexes (index : ReverseIndex α β) (relation : α → β → Prop) : Prop where
  holds_iff : ∀ value key, index.Holds value key ↔ relation key value
  nonempty : ∀ (value : β) (keys : Std.ExtTreeSet α), index[value]? = some keys → ∃ key, key ∈ keys

theorem indexes_empty {relation : α → β → Prop} (hnone : ∀ key value, ¬ relation key value) :
    Indexes (∅ : ReverseIndex α β) relation := by
  refine ⟨?_, ?_⟩
  · intro value key
    constructor
    · rintro ⟨keys, hkeys, -⟩
      simp at hkeys
    · intro hrelation
      exact absurd hrelation (hnone key value)
  · intro value keys hkeys
    simp at hkeys

variable {index : ReverseIndex α β} {relation : α → β → Prop}

theorem Indexes.congr (hindex : index.Indexes relation) {other : α → β → Prop}
    (hsame : ∀ key value, relation key value ↔ other key value) : index.Indexes other :=
  ⟨fun value key => (hindex.holds_iff value key).trans (hsame key value), hindex.nonempty⟩

theorem Indexes.contains_iff (hindex : index.Indexes relation) (value : β) :
    index.contains value = true ↔ ∃ key, relation key value := by
  rw [Std.ExtTreeMap.contains_eq_isSome_getElem?, Option.isSome_iff_exists]
  constructor
  · rintro ⟨keys, hkeys⟩
    obtain ⟨key, hkey⟩ := hindex.nonempty value keys hkeys
    exact ⟨key, (hindex.holds_iff value key).mp ⟨keys, hkeys, hkey⟩⟩
  · rintro ⟨key, hrelation⟩
    obtain ⟨keys, hkeys, -⟩ := (hindex.holds_iff value key).mpr hrelation
    exact ⟨keys, hkeys⟩

variable [Std.LawfulEqOrd α] [Std.LawfulEqOrd β]

theorem Indexes.mem_keys_iff (hindex : index.Indexes relation) (key : α) :
    key ∈ index.keys ↔ ∃ value, relation key value := by
  simp only [keys, List.mem_flatMap, Prod.exists, Std.ExtTreeMap.mem_toList_iff_getElem?_eq_some,
    Std.ExtTreeSet.mem_toList]
  constructor
  · rintro ⟨value, keys, hkeys, hkey⟩
    exact ⟨value, (hindex.holds_iff value key).mp ⟨keys, hkeys, hkey⟩⟩
  · rintro ⟨value, hrelation⟩
    obtain ⟨keys, hkeys, hkey⟩ := (hindex.holds_iff value key).mpr hrelation
    exact ⟨value, keys, hkeys, hkey⟩

variable [DecidableEq β]

theorem holds_add {value other : β} {key found : α} :
    (index.add value key).Holds other found ↔
      (other = value ∧ found = key) ∨ index.Holds other found := by
  unfold Holds add
  rw [getElem?_insert_eq]
  by_cases hvalue : value = other
  · subst hvalue
    cases hkeys : index[value]? with
    | none => simp [Std.ExtTreeSet.mem_insert, @eq_comm α found]
    | some keys => simp [Std.ExtTreeSet.mem_insert, @eq_comm α found]
  · simp [hvalue, Ne.symm hvalue]

theorem Indexes.add (hindex : index.Indexes relation) (value : β) (key : α) :
    (index.add value key).Indexes
      (fun found other => (other = value ∧ found = key) ∨ relation found other) := by
  refine ⟨?_, ?_⟩
  · intro other found
    rw [holds_add, hindex.holds_iff]
  · intro other keys hkeys
    rcases getElem?_insert_cases hkeys with ⟨-, rfl⟩ | ⟨-, hold⟩
    · exact ⟨key, Std.ExtTreeSet.mem_insert.mpr (Or.inl (Std.compare_eq_iff_eq.mpr rfl))⟩
    · exact hindex.nonempty other keys hold

theorem holds_remove {value other : β} {key found : α} :
    (index.remove value key).Holds other found ↔
      ¬ (other = value ∧ found = key) ∧ index.Holds other found := by
  unfold Holds remove
  cases hkeys : index[value]? with
  | none =>
    constructor
    · rintro ⟨keys, hother, hfound⟩
      refine ⟨?_, keys, hother, hfound⟩
      rintro ⟨rfl, -⟩
      rw [hkeys] at hother
      cases hother
    · exact And.right
  | some keys =>
    have herase : ∀ found : α, found ∈ keys.erase key ↔ found ≠ key ∧ found ∈ keys := by
      intro found
      rw [Std.ExtTreeSet.mem_erase, ne_eq, Std.compare_eq_iff_eq, ne_eq, eq_comm]
    by_cases hempty : (keys.erase key).isEmpty
    · have hall : ∀ found, found ∉ keys.erase key :=
        Std.ExtTreeSet.eq_empty_iff_forall_not_mem.mp (Std.ExtTreeSet.isEmpty_iff.mp hempty)
      simp only [hempty, if_true, getElem?_erase_eq]
      by_cases hvalue : value = other
      · subst hvalue
        simp only [hkeys, if_true]
        constructor
        · rintro ⟨_, hnone, -⟩
          cases hnone
        · rintro ⟨hne, _, hsome, hfound⟩
          cases hsome
          exact absurd ((herase found).mpr ⟨fun heq => hne ⟨trivial, heq⟩, hfound⟩) (hall found)
      · simp [hvalue, Ne.symm hvalue]
    · simp only [hempty, Bool.false_eq_true, if_false, getElem?_insert_eq]
      by_cases hvalue : value = other
      · subst hvalue
        simp [hkeys, herase]
      · simp [hvalue, Ne.symm hvalue]

theorem Indexes.remove (hindex : index.Indexes relation) (value : β) (key : α) :
    (index.remove value key).Indexes
      (fun found other => ¬ (other = value ∧ found = key) ∧ relation found other) := by
  refine ⟨?_, ?_⟩
  · intro other found
    rw [holds_remove, hindex.holds_iff]
  · intro other keys hkeys
    unfold ReverseIndex.remove at hkeys
    cases hvalue : index[value]? with
    | none =>
      rw [hvalue] at hkeys
      exact hindex.nonempty other keys hkeys
    | some old =>
      simp only [hvalue] at hkeys
      by_cases hempty : (old.erase key).isEmpty
      · simp only [hempty, if_true, getElem?_erase_eq] at hkeys
        split at hkeys
        · cases hkeys
        · exact hindex.nonempty other keys hkeys
      · simp only [hempty, Bool.false_eq_true, if_false] at hkeys
        rcases getElem?_insert_cases hkeys with ⟨-, rfl⟩ | ⟨-, hold⟩
        · by_contra hnone
          refine hempty (Std.ExtTreeSet.isEmpty_iff.mpr ?_)
          exact Std.ExtTreeSet.eq_empty_iff_forall_not_mem.mpr
            (fun found hfound => hnone ⟨found, hfound⟩)
        · exact hindex.nonempty other keys hold

theorem indexes_foldl_add (entries : List (α × β)) (hindex : index.Indexes relation) :
    (entries.foldl (fun index entry => index.add entry.2 entry.1) index).Indexes
      (fun key value => (key, value) ∈ entries ∨ relation key value) := by
  induction entries generalizing index relation with
  | nil => exact hindex.congr (by simp)
  | cons entry rest ih =>
    refine (ih (hindex.add entry.2 entry.1)).congr ?_
    intro key value
    rw [List.mem_cons, Prod.ext_iff, and_comm, or_left_comm, or_assoc]

theorem indexes_ofMap (map : Std.ExtTreeMap α β) :
    (ofMap map).Indexes (fun key value => map[key]? = some value) := by
  have hempty : Indexes (∅ : ReverseIndex α β) (fun _ _ => False) :=
    indexes_empty (fun _ _ => not_false)
  refine (indexes_foldl_add map.toList hempty).congr ?_
  intro key value
  rw [or_false, Std.ExtTreeMap.mem_toList_iff_getElem?_eq_some]

end ReverseIndex

end Kerrigan.Lib
