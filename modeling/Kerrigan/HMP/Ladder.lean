import Kerrigan.HMP.Connect

/-!
# The weight ladder from the re-arm height on

A block with a seal weighs between a tenth and one and a half of a plain one.  It weighs less than
the same block without its seal exactly when two signers count and most of the signers that the
coinbase names are privileged on no algorithm.
-/

namespace Kerrigan.HMP

open Primitives Consensus Lib CHMPCommitmentRegistry

/-! ## Bounds of the parts -/

theorem le_eldersMultiplier (elderCount eldersPresent : Nat) :
    10000 ≤ eldersMultiplier elderCount eldersPresent := by
  unfold eldersMultiplier
  dsimp only
  split
  · exact le_min (Nat.le_add_right_of_le (by omega)) (by omega)
  · split
    · split
      · omega
      · exact Nat.le_add_right_of_le (by omega)
    · exact le_rfl

section Weight

variable (params : Params) (oracles : Oracles) (tracker : CHMPPrivilegeTracker)
  (signers : List CBLSPublicKey) (algos : List Nat) (rawSigners : List CBLSPublicKey)
  (sealedAlgo : Nat) (pindex : Uint256)

theorem le_computeSealMultiplier (blockAlgo : Nat) (pindex : Uint256) :
    10000 ≤ computeSealMultiplier params oracles tracker signers algos blockAlgo pindex := by
  unfold computeSealMultiplier
  dsimp only
  split
  · exact le_rfl
  · split
    · exact le_rfl
    · split
      · exact le_rfl
      · split
        · exact le_rfl
        · refine Nat.le_add_right_of_le (Nat.le_add_right_of_le ?_)
          exact le_eldersMultiplier _ _

/-- The penalty is all or nothing; for as many signers as a seal may have, it is the exact test
for a strict majority of unknown signers. -/
theorem evaluateMannequinPenalty_cases : (evaluateMannequinPenalty params tracker signers = 1000 ∧
      signers.length < 2 * unknownSigners params tracker signers) ∨
    (evaluateMannequinPenalty params tracker signers = 10000 ∧
      (signers.length ≤ maxSealSigners →
        2 * unknownSigners params tracker signers ≤ signers.length)) := by
  unfold evaluateMannequinPenalty
  by_cases hempty : signers = []
  · right
    rw [if_pos hempty, hempty]
    exact ⟨rfl, fun _ => le_rfl⟩
  · have hpos : 0 < signers.length := List.length_pos_iff.mpr hempty
    rw [if_neg hempty]
    by_cases hmany : 5000 < unknownSigners params tracker signers * 10000 / signers.length
    · left
      rw [if_pos hmany]
      have hratio := (Nat.le_div_iff_mul_le hpos).mp hmany
      exact ⟨rfl, by omega⟩
    · right
      rw [if_neg hmany]
      refine ⟨rfl, ?_⟩
      intro hcap
      have hratio := (Nat.div_lt_iff_lt_mul hpos).mp (Nat.lt_succ_of_le (Nat.le_of_not_lt hmany))
      unfold maxSealSigners at hcap
      omega

def unsealedWeight : Nat :=
  if tracker.isPenaltyArmed params sealedAlgo then 6667 else 10000

theorem unsealedWeight_cases : (tracker.isPenaltyArmed params sealedAlgo = true ∧
      unsealedWeight params tracker sealedAlgo = 6667) ∨
    (tracker.isPenaltyArmed params sealedAlgo = false ∧
      unsealedWeight params tracker sealedAlgo = 10000) := by
  unfold unsealedWeight
  cases tracker.isPenaltyArmed params sealedAlgo with
  | true => exact Or.inl ⟨rfl, rfl⟩
  | false => exact Or.inr ⟨rfl, rfl⟩

theorem rearmWeight_of_two_le {signers : List CBLSPublicKey} (htwo : 2 ≤ signers.length)
    (algos : List Nat) (rawSigners : List CBLSPublicKey) (sealedAlgo : Nat) (pindex : Uint256) :
    rearmWeight params oracles tracker signers algos rawSigners sealedAlgo pindex =
      min (computeSealMultiplier params oracles tracker signers algos sealedAlgo pindex)
          (if tracker.isPenaltyArmed params sealedAlgo then 15000 else 12000) *
        evaluateMannequinPenalty params tracker rawSigners / 10000 := by
  have hsome : signers ≠ [] := List.ne_nil_of_length_pos (Nat.lt_of_lt_of_le Nat.zero_lt_two htwo)
  unfold rearmWeight
  rw [if_neg hsome, if_neg (Nat.not_lt.mpr htwo)]
  rcases evaluateMannequinPenalty_cases params tracker rawSigners with ⟨hlow, -⟩ | ⟨hfull, -⟩
  · rw [hlow, if_pos (by omega)]
  · rw [hfull, if_neg (by omega), Nat.mul_div_cancel _ (by omega)]

theorem rearmWeight_cases :
    let weight := rearmWeight params oracles tracker signers algos rawSigners sealedAlgo pindex
    (signers.length < 2 ∧
      (weight = unsealedWeight params tracker sealedAlgo ∨ weight = 10000)) ∨
    (2 ≤ signers.length ∧ ∃ base, 10000 ≤ base ∧
      base ≤ (if tracker.isPenaltyArmed params sealedAlgo then 15000 else 12000) ∧
      weight = base * evaluateMannequinPenalty params tracker rawSigners / 10000) := by
  dsimp only
  by_cases hthin : signers.length < 2
  · left
    refine ⟨hthin, ?_⟩
    unfold rearmWeight unsealedWeight
    split
    · exact Or.inl rfl
    · exact Or.inr rfl
  · right
    have htwo : 2 ≤ signers.length := Nat.le_of_not_lt hthin
    refine ⟨htwo, min (computeSealMultiplier params oracles tracker signers algos sealedAlgo pindex)
        (if tracker.isPenaltyArmed params sealedAlgo then 15000 else 12000), ?_,
      min_le_right _ _, rearmWeight_of_two_le params oracles tracker htwo _ _ _ _⟩
    refine le_min (le_computeSealMultiplier params oracles tracker _ _ _ _) ?_
    split <;> omega

theorem rearmWeight_bounds :
    let weight := rearmWeight params oracles tracker signers algos rawSigners sealedAlgo pindex
    1000 ≤ weight ∧ weight ≤ 15000 ∧
      (tracker.isPenaltyArmed params sealedAlgo = false → weight ≤ 12000) := by
  dsimp only
  have hunsealed := unsealedWeight_cases params tracker sealedAlgo
  rcases rearmWeight_cases params oracles tracker signers algos rawSigners sealedAlgo pindex with
    ⟨-, hthin⟩ | ⟨-, base, hlow, hhigh, hweight⟩
  · omega
  · have hcapped : base ≤ 15000 ∧
        (tracker.isPenaltyArmed params sealedAlgo = false → base ≤ 12000) := by
      split at hhigh
      · rename_i harmed
        exact ⟨hhigh, fun hfalse => by rw [hfalse] at harmed; cases harmed⟩
      · exact ⟨by omega, fun _ => hhigh⟩
    rw [hweight]
    rcases evaluateMannequinPenalty_cases params tracker rawSigners with ⟨hpenalty, -⟩ | ⟨hpenalty, -⟩
    · rw [hpenalty]
      omega
    · rw [hpenalty, Nat.mul_div_cancel _ (by omega)]
      exact ⟨by omega, hcapped.1, hcapped.2⟩

theorem rearmWeight_lt_unsealed_iff (hcap : rawSigners.length ≤ maxSealSigners) :
    rearmWeight params oracles tracker signers algos rawSigners sealedAlgo pindex <
        unsealedWeight params tracker sealedAlgo ↔
      rawSigners.length < 2 * unknownSigners params tracker rawSigners ∧ 2 ≤ signers.length := by
  have hunsealed := unsealedWeight_cases params tracker sealedAlgo
  rcases rearmWeight_cases params oracles tracker signers algos rawSigners sealedAlgo pindex with
    ⟨hthin, hweight⟩ | ⟨htwo, base, hlow, hhigh, hweight⟩
  · omega
  · have hcapped : base ≤ 15000 := by
      split at hhigh <;> omega
    rcases evaluateMannequinPenalty_cases params tracker rawSigners with
      ⟨hpenalty, hmajority⟩ | ⟨hpenalty, hminority⟩
    · rw [hweight, hpenalty]
      omega
    · have hfew := hminority hcap
      rw [hweight, hpenalty, Nat.mul_div_cancel _ (by omega)]
      omega

end Weight

/-! ## Blocks -/

def CCbTx.withoutSeal (cbTx : CCbTx) : CCbTx :=
  { cbTx with
    sealForAncestor := 0
    sealBlockHash := 0
    vSealSigners := []
    vSealSignerAlgos := []
    vSealSignerVRFProofs := [] }

theorem CCbTx.atVersion_withoutSeal (cbTx : CCbTx) :
    cbTx.withoutSeal.atVersion = cbTx.atVersion.withoutSeal := by
  simp only [CCbTx.atVersion, CCbTx.withoutSeal, CCbTx.since_absent]
  rfl

def HMPBlock.withoutSeal (block : HMPBlock) (cbTx : CCbTx) (hash : Uint256) : HMPBlock :=
  { block with hash := hash, coinbase := .special (some cbTx.withoutSeal) }

def HMPVerdict.weight (verdict : HMPVerdict) : Nat := verdict.nSealWeight.getD 10000

section Block

variable {params : Params} {oracles : Oracles} {registry : CHMPCommitmentRegistry}
  {tracker : CHMPPrivilegeTracker} {block : HMPBlock} {parent : Chain} {cbTx : CCbTx}

theorem weighedAlgo_of_algo {other : HMPBlock} (halgo : other.algo = block.algo) :
    weighedAlgo params other parent = weighedAlgo params block parent := by
  unfold weighedAlgo
  simp only [Chain.height_cons, Chain.getAncestor_cons, halgo]
  split
  · by_cases htip : parent.height + 1 - params.nHMPSealTrailingDepth = parent.height + 1
    · rw [if_pos htip, if_pos htip]
      exact halgo
    · rw [if_neg htip, if_neg htip]
  · rfl

theorem weight_blockVerdict (hpayload : block.hmpPayload = some cbTx)
    (hrearm : params.IsHMPRearmActive (parent.height + 1)) :
    (blockVerdict params oracles registry tracker block parent).weight =
      if params.IsHMPActive (parent.height + 1) ∧ 3 ≤ params.getHMPStage (parent.height + 1) then
        rearmWeight params oracles tracker
          (countedSigners params oracles registry tracker block (parent.height + 1) cbTx).1
          (countedSigners params oracles registry tracker block (parent.height + 1) cbTx).2
          cbTx.vSealSigners (weighedAlgo params block parent) block.hash
      else 10000 := by
  unfold blockVerdict
  by_cases hactive : params.IsHMPActive (parent.height + 1)
  · rw [if_neg (not_not.mpr hactive)]
    by_cases hfirst : params.getHMPStage (parent.height + 1) = 1
    · rw [if_pos hfirst, if_neg (by omega)]
      rfl
    · rw [if_neg hfirst]
      cases hcoinbase : block.coinbase with
      | other => simp [HMPBlock.hmpPayload, hcoinbase] at hpayload
      | special payload =>
        simp only [hpayload, payloadVerdict]
        by_cases hstage : params.getHMPStage (parent.height + 1) < 3
        · rw [if_pos hstage, if_neg (by omega)]
          rfl
        · rw [if_neg hstage, if_pos ⟨hactive, Nat.le_of_not_lt hstage⟩]
          simp only [HMPVerdict.weight, Option.getD_some, sealWeight, if_pos hrearm]
  · rw [if_pos hactive, if_neg (fun hboth => hactive hboth.1)]
    rfl

theorem weight_withoutSeal (hpayload : block.hmpPayload = some cbTx)
    (hrearm : params.IsHMPRearmActive (parent.height + 1)) (hash : Uint256) :
    (blockVerdict params oracles registry tracker (block.withoutSeal cbTx hash) parent).weight =
      if params.IsHMPActive (parent.height + 1) ∧ 3 ≤ params.getHMPStage (parent.height + 1) then
        unsealedWeight params tracker (weighedAlgo params block parent)
      else 10000 := by
  obtain ⟨hversion, hread⟩ := hmpPayload_eq_some hpayload
  have hunsealed : (block.withoutSeal cbTx hash).hmpPayload = some cbTx.withoutSeal := by
    rw [HMPBlock.hmpPayload, HMPBlock.withoutSeal]
    dsimp only
    rw [if_pos (show CCbTx.hmpSeal ≤ cbTx.withoutSeal.nVersion from hversion),
      cbTx.atVersion_withoutSeal, hread]
  have hcounted : countedSigners params oracles registry tracker (block.withoutSeal cbTx hash)
      (parent.height + 1) cbTx.withoutSeal = ([], []) := by
    exact if_neg (fun hseal => hseal.1 rfl)
  have halgo : weighedAlgo params (block.withoutSeal cbTx hash) parent =
      weighedAlgo params block parent := weighedAlgo_of_algo rfl
  rw [weight_blockVerdict hunsealed hrearm, hcounted, halgo]
  rfl

theorem length_vSealSigners_le {chain : Chain} (hseal : cbTx.HasSeal)
    (hcheck : checkSeal params oracles chain cbTx = .ok ()) :
    cbTx.vSealSigners.length ≤ maxSealSigners := by
  by_cases hempty : cbTx.vSealSigners = []
  · rw [hempty]
    exact Nat.zero_le _
  · simp only [checkSeal, if_pos hseal, if_pos hempty, bind_eq_ok_iff, require_eq_ok_iff] at hcheck
    obtain ⟨-, -, -, -, -, hverify, -⟩ := hcheck
    exact hverify.2.2.2.1

/-- From the re-arm height on, a block whose seal passes the checks weighs between 1000 and 15000,
at most 12000 while the algorithm is not armed, and less than without its seal exactly when seals
count, two signers survive the filter and most of the signers it names are unknown. -/
theorem seal_weighs_no_less (params : Params) (oracles : Oracles)
    (registry : CHMPCommitmentRegistry) (tracker : CHMPPrivilegeTracker) (block : HMPBlock)
    (parent : Chain) (cbTx : CCbTx) (unsealedHash : Uint256)
    (hrearm : params.IsHMPRearmActive (parent.height + 1))
    (hpayload : block.hmpPayload = some cbTx) (hseal : cbTx.HasSeal)
    (hcheck : checkSeal params oracles (block :: parent) cbTx = .ok ()) :
    let weight := (blockVerdict params oracles registry tracker block parent).weight
    let unsealed := (blockVerdict params oracles registry tracker
      (block.withoutSeal cbTx unsealedHash) parent).weight
    1000 ≤ weight ∧ weight ≤ 15000 ∧
      (tracker.isPenaltyArmed params (weighedAlgo params block parent) = false →
        weight ≤ 12000) ∧
      (weight < unsealed ↔
        (params.IsHMPActive (parent.height + 1) ∧
          3 ≤ params.getHMPStage (parent.height + 1)) ∧
        cbTx.vSealSigners.length < 2 * unknownSigners params tracker cbTx.vSealSigners ∧
        2 ≤ (countedSigners params oracles registry tracker block (parent.height + 1)
          cbTx).1.length) := by
  rw [weight_blockVerdict hpayload hrearm, weight_withoutSeal hpayload hrearm]
  by_cases hseals : params.IsHMPActive (parent.height + 1) ∧
      3 ≤ params.getHMPStage (parent.height + 1)
  · rw [if_pos hseals, if_pos hseals]
    obtain ⟨hlow, hhigh, hunarmed⟩ := rearmWeight_bounds params oracles tracker
      (countedSigners params oracles registry tracker block (parent.height + 1) cbTx).1
      (countedSigners params oracles registry tracker block (parent.height + 1) cbTx).2
      cbTx.vSealSigners (weighedAlgo params block parent) block.hash
    refine ⟨hlow, hhigh, hunarmed, ?_⟩
    rw [rearmWeight_lt_unsealed_iff params oracles tracker _ _ _ _ _
      (length_vSealSigners_le hseal hcheck)]
    exact (and_iff_right hseals).symm
  · rw [if_neg hseals, if_neg hseals]
    refine ⟨by omega, by omega, fun _ => by omega, ?_⟩
    constructor
    · intro hless
      exact absurd hless (Nat.lt_irrefl _)
    · intro hboth
      exact absurd hboth.1 hseals

end Block

namespace Sample

def ladderParams : Params where
  nHMPWarmupBlocks := 0
  nHMPRearmHeight := 1

def ladderTracker : CHMPPrivilegeTracker :=
  (CHMPPrivilegeTracker.cleared.blockConnected ladderParams
    { height := 1, algo := 0, minerPubKey := 1 }).blockConnected ladderParams
    { height := 2, algo := 0, minerPubKey := 2 }

def mannequinSeal : CCbTx where
  nVersion := 6
  minerIdentity := 1
  sealForAncestor := 1
  sealBlockHash := 11
  vSealSigners := [1, 2, 3, 4, 5]
  vSealSignerAlgos := [0, 0, 0, 0, 0]
  vSealSignerVRFProofs := [1, 1, 1, 1, 1]

def mannequinBlock : HMPBlock := ⟨13, 0, .special (some mannequinSeal), none⟩

def ladderChain : Chain := [⟨12, 0, .other, none⟩, ⟨11, 0, .other, none⟩, ⟨10, 0, .other, none⟩]

end Sample

open Sample in
theorem seal_weighs_no_less_mannequins :
    let weight := (blockVerdict ladderParams trusting empty ladderTracker mannequinBlock
      ladderChain).weight
    let unsealed := (blockVerdict ladderParams trusting empty ladderTracker
      (mannequinBlock.withoutSeal mannequinSeal 14) ladderChain).weight
    (1000 ≤ weight ∧ weight ≤ 15000) ∧ weight < unsealed := by
  have hladder := seal_weighs_no_less ladderParams trusting empty ladderTracker mannequinBlock
    ladderChain mannequinSeal 14 (by decide) (by decide) (by decide) (by decide +kernel)
  exact ⟨⟨hladder.1, hladder.2.1⟩, hladder.2.2.2.mpr (by decide +kernel)⟩

end Kerrigan.HMP
