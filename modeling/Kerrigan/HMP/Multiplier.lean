import Kerrigan.HMP.Ladder
import Mathlib.Data.List.Perm.Subperm
import Mathlib.Order.MinMax

/-!
# The seal multiplier as a function of its signers

`ComputeSealMultiplier` interpolates between thresholds on the Elders that are present and adds two
capped bonuses for the algorithms of the signers.  Every part grows with the signers and reads them
as a collection, so more signers never lower the multiplier and their order does not matter.
-/

namespace Kerrigan.HMP

open Primitives Consensus List

/-! ## The part of the Elders -/

/-- From the threshold on, short of all Elders, the multiplier is at most that of the threshold that
is the total. -/
theorem interpolation_le {required total present : Nat} (hpresent : present < total) :
    (if total - required = 0 then 15000
      else 12000 + (present - required) * 3000 / (total - required)) ≤ 15000 := by
  split
  · exact le_rfl
  · have hratio : (present - required) * 3000 / (total - required) ≤ 3000 := by
      refine Nat.div_le_of_le_mul ?_
      exact Nat.mul_le_mul_right 3000 (Nat.sub_le_sub_right hpresent.le required)
    exact Nat.add_le_add_left hratio 12000

theorem eldersMultiplier_mono (elderCount : Nat) {present more : Nat} (hmore : present ≤ more) :
    eldersMultiplier elderCount present ≤ eldersMultiplier elderCount more := by
  unfold eldersMultiplier
  generalize max ((elderCount * getRequiredAgreement elderCount + 99) / 100) 1 = required
  by_cases hall : elderCount ≤ present
  · rw [if_pos hall, if_pos (hall.trans hmore)]
    refine min_le_min (Nat.add_le_add_left ?_ _) le_rfl
    exact Nat.div_le_div_right (Nat.mul_le_mul_right 3000 hmore)
  · rw [if_neg hall]
    by_cases hallMore : elderCount ≤ more
    · rw [if_pos hallMore]
      have hpart : (if required ≤ present then
          if elderCount - required = 0 then 15000
          else 12000 + (present - required) * 3000 / (elderCount - required)
        else 10000) ≤ 15000 := by
        split
        · exact interpolation_le (Nat.lt_of_not_le hall)
        · omega
      exact le_min (Nat.le_add_right_of_le hpart) (hpart.trans (by omega))
    · rw [if_neg hallMore]
      by_cases hrequired : required ≤ present
      · rw [if_pos hrequired, if_pos (hrequired.trans hmore)]
        split
        · exact le_rfl
        · refine Nat.add_le_add_left (Nat.div_le_div_right ?_) _
          exact Nat.mul_le_mul_right 3000 (Nat.sub_le_sub_right hmore _)
      · rw [if_neg hrequired]
        split
        · split
          · omega
          · exact Nat.le_add_right_of_le (by omega)
        · exact le_rfl

/-! ## The algorithms of the signers -/

def selectedAlgos (selects : CBLSPublicKey × Nat → Bool) (pairs : List (CBLSPublicKey × Nat)) :
    List Nat :=
  ((pairs.filter selects).map Prod.snd).dedup

section Algos

variable {selects : CBLSPublicKey × Nat → Bool} {pairs more : List (CBLSPublicKey × Nat)}

theorem selectedAlgos_subset (hsubset : pairs ⊆ more) :
    selectedAlgos selects pairs ⊆ selectedAlgos selects more := by
  intro algo hmem
  rw [selectedAlgos, mem_dedup] at hmem ⊢
  exact map_subset _ (filter_subset _ hsubset) hmem

theorem length_selectedAlgos_le (hsubset : pairs ⊆ more) :
    (selectedAlgos selects pairs).length ≤ (selectedAlgos selects more).length :=
  (subperm_of_subset (nodup_dedup _) (selectedAlgos_subset hsubset)).length_le

theorem length_selectedAlgos_erase_le (hsubset : pairs ⊆ more) (algo : Nat) :
    ((selectedAlgos selects pairs).erase algo).length ≤
      ((selectedAlgos selects more).erase algo).length := by
  have hnodup : (selectedAlgos selects pairs).Nodup := nodup_dedup _
  refine (subperm_of_subset (hnodup.erase algo) ?_).length_le
  intro other hmem
  rw [hnodup.mem_erase_iff] at hmem
  exact (nodup_dedup _).mem_erase_iff.mpr ⟨hmem.1, selectedAlgos_subset hsubset hmem.2⟩

end Algos

/-! ## The multiplier -/

section Multiplier

variable (params : Params) (oracles : Oracles) (tracker : CHMPPrivilegeTracker)
  (blockAlgo : Nat) (pindex : Uint256)

def pairsMultiplier (pairs : List (CBLSPublicKey × Nat)) : Nat :=
  computeSealMultiplier params oracles tracker (pairs.map Prod.fst) (pairs.map Prod.snd) blockAlgo
    pindex

theorem pairsMultiplier_eq (pairs : List (CBLSPublicKey × Nat)) :
    pairsMultiplier params oracles tracker blockAlgo pindex pairs =
      let elderSet := tracker.getElderSet params blockAlgo true
      let tierOf := fun pair : CBLSPublicKey × Nat =>
        tracker.getTier params oracles pair.1 pair.2 pindex
      if pairs = [] ∨ ((range numAlgos).map (fun algo =>
          (tracker.getElderSet params algo true).length)).sum = 0 ∨ elderSet.length ≤ 1 then 10000
      else
        eldersMultiplier elderSet.length
            (pairs.countP (fun pair => pair.1 ∈ elderSet ∧ pair.2 = blockAlgo)) +
          min (((selectedAlgos (fun pair => tierOf pair = .elder ∨ tierOf pair = .brood)
            pairs).erase blockAlgo).length * 500) 1500 +
          min ((selectedAlgos (fun pair => tierOf pair = .brood) pairs).length * 300) 1200 := by
  have hzip : (pairs.map Prod.fst).zip (pairs.map Prod.snd) = pairs := by
    rw [zip_map']
    exact map_id pairs
  unfold pairsMultiplier computeSealMultiplier
  rw [hzip]
  simp only [map_eq_nil_iff, length_map, ne_eq, not_true_eq_false, if_false]
  by_cases hempty : pairs = []
  · rw [if_pos hempty, if_pos (Or.inl hempty)]
  · rw [if_neg hempty]
    split
    · rename_i hnone
      rw [if_pos (Or.inr (Or.inl hnone))]
    · split
      · rename_i hfew
        rw [if_pos (Or.inr (Or.inr hfew))]
      · rw [if_neg (by tauto)]
        rfl

theorem pairsMultiplier_le {pairs more : List (CBLSPublicKey × Nat)} (hmore : pairs.Subperm more) :
    pairsMultiplier params oracles tracker blockAlgo pindex pairs ≤
      pairsMultiplier params oracles tracker blockAlgo pindex more := by
  rw [pairsMultiplier_eq params oracles tracker blockAlgo pindex pairs]
  dsimp only
  split
  · exact le_computeSealMultiplier params oracles tracker _ _ _ _
  · rename_i hbranch
    have hsome : more ≠ [] := by
      rintro rfl
      exact hbranch (Or.inl (subperm_nil.mp hmore))
    rw [pairsMultiplier_eq]
    rw [if_neg (by tauto)]
    refine Nat.add_le_add (Nat.add_le_add ?_ ?_) ?_
    · exact eldersMultiplier_mono _ (hmore.countP_le _)
    · refine min_le_min (Nat.mul_le_mul_right 500 ?_) le_rfl
      exact length_selectedAlgos_erase_le hmore.subset blockAlgo
    · refine min_le_min (Nat.mul_le_mul_right 300 ?_) le_rfl
      exact length_selectedAlgos_le hmore.subset

end Multiplier

/-- One more signer, with any algorithm, never lowers the multiplier, and the order of the signers
does not matter. -/
theorem computeSealMultiplier_monotone (params : Params) (oracles : Oracles)
    (tracker : CHMPPrivilegeTracker) (blockAlgo : Nat) (pindex : Uint256)
    (pairs : List (CBLSPublicKey × Nat)) :
    (∀ signer : CBLSPublicKey × Nat,
      computeSealMultiplier params oracles tracker (pairs.map Prod.fst) (pairs.map Prod.snd)
          blockAlgo pindex ≤
        computeSealMultiplier params oracles tracker ((pairs ++ [signer]).map Prod.fst)
          ((pairs ++ [signer]).map Prod.snd) blockAlgo pindex) ∧
      ∀ reordered : List (CBLSPublicKey × Nat), pairs.Perm reordered →
        computeSealMultiplier params oracles tracker (reordered.map Prod.fst)
            (reordered.map Prod.snd) blockAlgo pindex =
          computeSealMultiplier params oracles tracker (pairs.map Prod.fst) (pairs.map Prod.snd)
            blockAlgo pindex := by
  constructor
  · intro signer
    exact pairsMultiplier_le params oracles tracker blockAlgo pindex
      (sublist_append_left pairs [signer]).subperm
  · intro reordered hperm
    apply le_antisymm
    · exact pairsMultiplier_le params oracles tracker blockAlgo pindex hperm.symm.subperm
    · exact pairsMultiplier_le params oracles tracker blockAlgo pindex hperm.subperm

namespace Sample

def sealingTracker : CHMPPrivilegeTracker :=
  (CHMPPrivilegeTracker.cleared.blockConnected ladderParams
    { height := 1, algo := 0, minerPubKey := 1, sealSigners := [1, 2], signerAlgos := [0, 0]
      sealedAlgo := some 0 }).blockConnected ladderParams
    { height := 2, algo := 0, minerPubKey := 2, sealSigners := [1, 2], signerAlgos := [0, 0]
      sealedAlgo := some 0 }

end Sample

open Sample in
theorem computeSealMultiplier_monotone_both :
    let multiplier := computeSealMultiplier ladderParams trusting sealingTracker
    multiplier [1, 2] [0, 0] 0 0 = 18000 ∧
      multiplier [2, 1] [0, 0] 0 0 = multiplier [1, 2] [0, 0] 0 0 ∧
      multiplier [1] [0] 0 0 ≤ multiplier [1, 2] [0, 0] 0 0 := by
  have hone := computeSealMultiplier_monotone ladderParams trusting sealingTracker 0 0 [(1, 0)]
  have htwo := computeSealMultiplier_monotone ladderParams trusting sealingTracker 0 0
    [(1, 0), (2, 0)]
  exact ⟨by decide +kernel, htwo.2 [(2, 0), (1, 0)] (Perm.swap _ _ _), hone.1 (2, 0)⟩

end Kerrigan.HMP
