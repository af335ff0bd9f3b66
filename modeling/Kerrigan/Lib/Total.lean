import Mathlib.Algebra.BigOperators.Finprod
import Mathlib.Tactic.Abel

/-!
# The total of a function with finite support

The sum over all arguments, and how it changes when the function is changed at one of them.
-/

namespace Kerrigan.Lib

variable {α : Type*} [DecidableEq α] {M : Type*} [AddCommGroup M]

theorem finite_support_update {f : α → M} (hfinite : (Function.support f).Finite) (key : α)
    (value : M) : (Function.support (Function.update f key value)).Finite := by
  refine (hfinite.insert key).subset ?_
  intro other hother
  by_cases hkey : other = key
  · exact Or.inl hkey
  · right
    rwa [Function.mem_support, Function.update_of_ne hkey] at hother

theorem finsum_update {f : α → M} (hfinite : (Function.support f).Finite) (key : α) (value : M) :
    finsum (Function.update f key value) = finsum f - f key + value := by
  have hsupport : Function.support f ⊆ ↑(insert key hfinite.toFinset) := by
    intro other hother
    simp only [Finset.coe_insert, Set.Finite.coe_toFinset]
    exact Or.inr hother
  have hupdated : Function.support (Function.update f key value) ⊆
      ↑(insert key hfinite.toFinset) := by
    intro other hother
    simp only [Finset.coe_insert, Set.Finite.coe_toFinset]
    by_cases hkey : other = key
    · exact Or.inl hkey
    · right
      rwa [Function.mem_support, Function.update_of_ne hkey] at hother
  have hkey : key ∈ insert key hfinite.toFinset := Finset.mem_insert_self key hfinite.toFinset
  rw [finsum_eq_sum_of_support_subset _ hsupport, finsum_eq_sum_of_support_subset _ hupdated,
    Finset.sum_update_of_mem hkey, ← Finset.add_sum_erase _ f hkey,
    Finset.sdiff_singleton_eq_erase]
  abel

end Kerrigan.Lib
