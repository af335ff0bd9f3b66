import Kerrigan.Lib.OrdMap

/-!
# Indexes of owners

A collection of items by their owners, every item with a list of keys, and an index from the keys
to the owners.  The index is exact if it holds the keys of the items and nothing else.  Then no
two items share a key.
-/

namespace Kerrigan.Lib

variable {β κ ι : Type} [Ord β] [Std.TransOrd β]

def Owns (index : Std.ExtTreeMap β κ) (items : κ → Option ι) (keysOf : ι → List β) : Prop :=
  ∀ (key : β) (owner : κ), index[key]? = some owner ↔
    ∃ item, items owner = some item ∧ key ∈ keysOf item

variable {index : Std.ExtTreeMap β κ} {items next : κ → Option ι} {keysOf : ι → List β}
  {owner other : κ} {item found : ι} {key : β}

theorem owns_empty (keysOf : ι → List β) :
    Owns (∅ : Std.ExtTreeMap β κ) (fun _ => none) keysOf := by
  intro key owner
  simp

theorem Owns.unique (howns : Owns index items keysOf) (hitem : items owner = some item)
    (hkey : key ∈ keysOf item) (hother : items other = some found) (hfound : key ∈ keysOf found) :
    owner = other := by
  have hfirst := (howns key owner).mpr ⟨item, hitem, hkey⟩
  have hsecond := (howns key other).mpr ⟨found, hother, hfound⟩
  exact Option.some.inj (hfirst.symm.trans hsecond)

theorem Owns.getElem?_eq_none (howns : Owns index items keysOf)
    (hfree : ∀ owner item, items owner = some item → key ∉ keysOf item) : index[key]? = none := by
  cases hindex : index[key]? with
  | none => rfl
  | some owner =>
    obtain ⟨item, hitem, hkey⟩ := (howns key owner).mp hindex
    exact absurd hkey (hfree owner item hitem)

variable [Std.LawfulEqOrd β] [DecidableEq β] [DecidableEq κ]

theorem Owns.add (howns : Owns index items keysOf)
    (hadded : next owner = some item) (hothers : ∀ other ≠ owner, next other = items other)
    (hsame : ∀ before, items owner = some before → before = item)
    (hfree : ∀ key ∈ keysOf item, ∀ other ≠ owner, index[key]? ≠ some other) :
    Owns ((keysOf item).foldl (fun index key => index.insert key owner) index) next keysOf := by
  intro key other
  rw [getElem?_foldl_insert]
  by_cases hkey : key ∈ keysOf item
  · rw [if_pos hkey, Option.some.injEq]
    constructor
    · rintro rfl
      exact ⟨item, hadded, hkey⟩
    · rintro ⟨found, hfound, hshared⟩
      by_contra hne
      rw [hothers other (Ne.symm hne)] at hfound
      exact hfree key hkey other (Ne.symm hne) ((howns key other).mpr ⟨found, hfound, hshared⟩)
  · rw [if_neg hkey, howns]
    by_cases hother : other = owner
    · subst hother
      rw [hadded]
      constructor
      · rintro ⟨before, hbefore, hshared⟩
        rw [hsame before hbefore] at hshared
        exact absurd hshared hkey
      · rintro ⟨found, hfound, hshared⟩
        rw [← Option.some.inj hfound] at hshared
        exact absurd hshared hkey
    · rw [hothers other hother]

theorem Owns.remove (howns : Owns index items keysOf) (hitem : items owner = some item)
    (hremoved : next owner = none) (hothers : ∀ other ≠ owner, next other = items other) :
    Owns ((keysOf item).foldl (fun index key => index.erase key) index) next keysOf := by
  intro key other
  rw [getElem?_foldl_erase]
  by_cases hkey : key ∈ keysOf item
  · rw [if_pos hkey]
    constructor
    · intro hnone
      cases hnone
    · rintro ⟨found, hfound, hshared⟩
      have hne : other ≠ owner := by
        rintro rfl
        rw [hremoved] at hfound
        cases hfound
      rw [hothers other hne] at hfound
      exact absurd (howns.unique hitem hkey hfound hshared).symm hne
  · rw [if_neg hkey, howns]
    by_cases hother : other = owner
    · subst hother
      rw [hremoved, hitem]
      constructor
      · rintro ⟨found, hfound, hshared⟩
        rw [← Option.some.inj hfound] at hshared
        exact absurd hshared hkey
      · rintro ⟨found, hfound, -⟩
        cases hfound
    · rw [hothers other hother]

end Kerrigan.Lib
