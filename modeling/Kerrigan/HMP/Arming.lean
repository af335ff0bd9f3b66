import Kerrigan.HMP.Elders
import Kerrigan.HMP.Determinism

/-!
# Arming of the penalties

`IsPenaltyArmed` keeps no state: it asks the privilege window for the conditions to arm, and the
longer seal window for the conditions to hold.  Both are read off the chain here, and the start and
the end of an armed period are traced to them.
-/

namespace Kerrigan.HMP

open Primitives Consensus Lib CHMPPrivilegeTracker List

/-! ## The conditions on a chain -/

def lastBlocks (count : Nat) (entries : List CHMPWindowEntry) : List CHMPWindowEntry :=
  entries.drop (entries.length - count)

variable (params : Params) (algo : Nat) (entries : List CHMPWindowEntry)

def blocksOf : Nat :=
  entries.countP (fun entry => entry.algo = algo)

def sealsOf : Nat :=
  entries.countP (fun entry => entry.sealedAlgo = some algo)

def signersOf : List CBLSPublicKey :=
  (((entries.filter (fun entry => entry.sealedAlgo = some algo)).flatMap
    CHMPWindowEntry.sealSigners).filter (fun key => key.IsValid)).dedup

def eldersOf : List CBLSPublicKey :=
  getElderSet params
    { cleared with
      window := lastBlocks params.nHMPPrivilegeWindow entries
      records := rebuildFromWindow (lastBlocks params.nHMPPrivilegeWindow entries) } algo false

def ArmCondition : Prop :=
  let window := lastBlocks params.nHMPPrivilegeWindow entries
  4 ≤ (eldersOf params algo entries).length ∧ 8 ≤ sealsOf algo window ∧
    0 < blocksOf algo window ∧ blocksOf algo window * 60 ≤ sealsOf algo window * 100 ∧
    4 ≤ (signersOf algo window).length

instance (params : Params) (algo : Nat) (entries : List CHMPWindowEntry) :
    Decidable (ArmCondition params algo entries) :=
  inferInstanceAs (Decidable (_ ∧ _))

def HoldCondition : Prop :=
  let window := lastBlocks sealLongWindow entries
  3 ≤ (eldersOf params algo entries).length ∧ 0 < blocksOf algo window ∧
    blocksOf algo window * 45 ≤ sealsOf algo window * 100

/-! ## The tracker of a chain -/

def HeightsIncrease : Prop :=
  entries.Pairwise (fun first second => first.height < second.height)

instance (entries : List CHMPWindowEntry) : Decidable (HeightsIncrease entries) :=
  inferInstanceAs (Decidable (Pairwise _ _))

def trackerAt : CHMPPrivilegeTracker :=
  entries.foldl (blockConnected params) cleared

section TrackerAt

variable (params : Params) (entries : List CHMPWindowEntry)

theorem trackerAt_window :
    (trackerAt params entries).window = lastBlocks params.nHMPPrivilegeWindow entries := by
  unfold trackerAt
  rw [foldl_blockConnected_window, foldl_pushWindow _ _ _ (Nat.zero_le _)]
  simp only [cleared, nil_append, length_nil, Nat.zero_add]
  rfl

theorem trackerAt_sealLong :
    (trackerAt params entries).sealLong = (lastBlocks sealLongWindow entries).map
      (fun entry => ⟨entry.height, entry.algo, entry.sealedAlgo⟩) := by
  unfold trackerAt
  rw [foldl_blockConnected_sealLong, foldl_pushWindow _ _ _ (Nat.zero_le _)]
  simp only [cleared, nil_append, length_nil, Nat.zero_add, length_map]
  exact map_drop.symm

theorem trackerAt_concat (entry : CHMPWindowEntry) :
    trackerAt params (entries ++ [entry]) = (trackerAt params entries).blockConnected params entry :=
  foldl_concat _ _ _ _

theorem trackerAt_reachable {params : Params} {entries : List CHMPWindowEntry} {bound : Int}
    (hincrease : HeightsIncrease entries) (hbound : ∀ entry ∈ entries, entry.height ≤ bound) :
    ReachableUpTo params (trackerAt params entries) bound := by
  induction entries using reverseRecOn generalizing bound with
  | nil => exact reachableUpTo_cleared
  | append_singleton front last ih =>
    obtain ⟨hfront, -, hlast⟩ := pairwise_append.mp hincrease
    have hbelow : ReachableUpTo params (trackerAt params front) (last.height - 1) := by
      refine ih hfront (fun entry hmem => ?_)
      have hless := hlast entry hmem last mem_cons_self
      omega
    rw [trackerAt_concat]
    exact (hbelow.connect (by omega)).mono (hbound last (by simp))

theorem trackerAt_records (hincrease : HeightsIncrease entries) :
    (trackerAt params entries).records =
      rebuildFromWindow (lastBlocks params.nHMPPrivilegeWindow entries) := by
  have hreach : ∃ bound, ReachableUpTo params (trackerAt params entries) bound := by
    rcases eq_nil_or_concat' entries with rfl | ⟨front, last, rfl⟩
    · exact ⟨0, reachableUpTo_cleared⟩
    · refine ⟨last.height, trackerAt_reachable hincrease ?_⟩
      intro entry hmem
      rcases mem_append.mp hmem with hfront | hsame
      · exact ((pairwise_append.mp hincrease).2.2 entry hfront last mem_cons_self).le
      · exact (mem_singleton.mp hsame) ▸ le_rfl
  obtain ⟨bound, hupTo⟩ := hreach
  rw [hupTo.reachable.records, trackerAt_window]

theorem getElderSet_trackerAt (hincrease : HeightsIncrease entries) (algo : Nat) :
    (trackerAt params entries).getElderSet params algo false = eldersOf params algo entries := by
  simp only [getElderSet, organicElders, QualifiesElder, IsWarm, getTipHeight,
    trackerAt_window, trackerAt_records params entries hincrease, Bool.false_eq_true, false_and,
    if_false]
  rfl

theorem isPenaltyArmed_trackerAt (hincrease : HeightsIncrease entries) (algo : Nat) :
    (trackerAt params entries).isPenaltyArmed params algo = true ↔
      ArmCondition params algo entries ∨ HoldCondition params algo entries := by
  unfold isPenaltyArmed windowSigners
  simp only [getElderSet_trackerAt params entries hincrease, trackerAt_window, trackerAt_sealLong,
    countP_map]
  by_cases halgo : algo < numAlgos
  · rw [if_pos halgo]
    split
    · rename_i harm
      exact iff_of_true rfl (Or.inl harm)
    · rename_i harm
      rw [decide_eq_true_iff]
      exact (or_iff_right harm).symm
  · have hnone : eldersOf params algo entries = [] := by
      unfold eldersOf getElderSet
      rw [if_neg halgo]
    rw [if_neg halgo]
    refine iff_of_false Bool.false_ne_true ?_
    rintro (harm | hhold)
    · have helders := harm.1
      rw [hnone] at helders
      exact absurd helders (by decide)
    · have helders := hhold.1
      rw [hnone] at helders
      exact absurd helders (by decide)

end TrackerAt

/-! ## Armed periods -/

/-- On every chain penalties are armed exactly where the chain arms or holds them: a period that
begins at a block begins with the condition to arm, or with the condition to hold, which did not
hold at the parent; and it lasts at least as long as the condition to hold. -/
theorem armed_period (params : Params) (algo : Nat) (entries : List CHMPWindowEntry)
    (entry : CHMPWindowEntry) (hchain : HeightsIncrease (entries ++ [entry])) :
    let parent := trackerAt params entries
    let block := trackerAt params (entries ++ [entry])
    (block.isPenaltyArmed params algo = true ↔
        ArmCondition params algo (entries ++ [entry]) ∨
          HoldCondition params algo (entries ++ [entry])) ∧
      (parent.isPenaltyArmed params algo = false → block.isPenaltyArmed params algo = true →
        ArmCondition params algo (entries ++ [entry]) ∨
          HoldCondition params algo (entries ++ [entry]) ∧ ¬ HoldCondition params algo entries) ∧
      (parent.isPenaltyArmed params algo = true → HoldCondition params algo (entries ++ [entry]) →
        block.isPenaltyArmed params algo = true) := by
  have hparent := isPenaltyArmed_trackerAt params entries (pairwise_append.mp hchain).1 algo
  have hblock := isPenaltyArmed_trackerAt params (entries ++ [entry]) hchain algo
  refine ⟨hblock, ?_, ?_⟩
  · intro hunarmed harmed
    rw [← Bool.not_eq_true, hparent] at hunarmed
    rcases hblock.mp harmed with harm | hhold
    · exact Or.inl harm
    · exact Or.inr ⟨hhold, fun hbefore => hunarmed (Or.inr hbefore)⟩
  · intro _ hhold
    exact hblock.mpr (Or.inr hhold)

namespace TrackerSample

def armingParams : Params where
  nHMPSealAlgoFixHeight := 1
  nHMPRearmHeight := 1

/-- Three keys take turns; from the third block on each block embeds a seal that all of them
signed. -/
def threeMiners (height : Nat) : CHMPWindowEntry where
  height := height
  algo := 0
  minerPubKey := height % 3 + 1
  sealSigners := if height < 3 then [] else [1, 2, 3]
  signerAlgos := if height < 3 then [] else [0, 0, 0]
  sealedAlgo := if height < 3 then none else some 0

def threeMinersChain : List CHMPWindowEntry := (range' 1 12).map threeMiners

end TrackerSample

open TrackerSample in
theorem armed_period_three_miners :
    (trackerAt armingParams threeMinersChain).isPenaltyArmed armingParams 0 = false ∧
      (HoldCondition armingParams 0 (threeMinersChain ++ [threeMiners 13]) ∧
        ¬ HoldCondition armingParams 0 threeMinersChain) := by
  have hperiod := armed_period armingParams 0 threeMinersChain (threeMiners 13)
    (by decide +kernel)
  have hunarmed : (trackerAt armingParams threeMinersChain).isPenaltyArmed armingParams 0 = false := by
    decide +kernel
  have hnot : ¬ ArmCondition armingParams 0 (threeMinersChain ++ [threeMiners 13]) := by
    decide +kernel
  exact ⟨hunarmed, (hperiod.2.1 hunarmed (by decide +kernel)).resolve_left hnot⟩

open TrackerSample in
/-- Three Elders arm a chain whose parent is not armed, without the condition to arm. -/
theorem hold_starts_armed_period :
    HeightsIncrease (threeMinersChain ++ [threeMiners 13]) ∧
      (trackerAt armingParams threeMinersChain).isPenaltyArmed armingParams 0 = false ∧
      (trackerAt armingParams (threeMinersChain ++ [threeMiners 13])).isPenaltyArmed
        armingParams 0 = true ∧
      ¬ ArmCondition armingParams 0 (threeMinersChain ++ [threeMiners 13]) := by
  decide +kernel

end Kerrigan.HMP
