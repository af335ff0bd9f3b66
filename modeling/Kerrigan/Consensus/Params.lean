import Kerrigan.Primitives.Transaction

/-!
# Consensus parameters

The fields of `Consensus::Params` that the modelled code reads, under the
source's names and with the source's defaults.
-/

namespace Kerrigan.Consensus

open Primitives

structure Params where
  growthEscrowScript : Script := []
  legacyEscrowScripts : List Script := []
  nEscrowUnlockHeight : Int := 0
  nEscrowBurnHeight : Int := 0
  nDronePayoutHeight : Int := 0
  /-- Exact value of a drone bond; 0 admits no registration. -/
  nDroneCollateralAmount : Int := 0
  nDroneMaxAge : Int := 0
  V20Height : Int := 0
  HMPHeight : Int := 0
  nHMPStage2Height : Int := 0
  nHMPStage3Height : Int := 0
  nHMPStage4Height : Int := 0
  nHMPWarmupBlocks : Nat := 10
  nHMPPrivilegeWindow : Nat := 100
  nHMPMinBlocksSolved : Nat := 1
  /-- A block carries the seal of the block this far below it. -/
  nHMPSealTrailingDepth : Int := 2
  nHMPDominanceCatchFloor : Nat := 6
  nHMPDominanceCatchMaxLookback : Nat := 1000
  /-- Age at which a committed key may seal; 0 disables the check. -/
  nHMPCommitmentOffset : Nat := 0
  nHMPSigningWindowMs : Int := 5000
  nHMPGracePeriodMs : Int := 15000
  nHMPMandatoryProofHeight : Int := 0
  nHMPSealAlgoFixHeight : Int := 0
  nPrevSealHashFixHeight : Int := 0
  nHMPDeterministicSealHeight : Int := 0
  nHMPRearmHeight : Int := 0

namespace Params

variable (params : Params) (height : Int)

def isGrowthEscrowScript (spk : Script) : Bool :=
  if spk.isEmpty then false
  else if !params.growthEscrowScript.isEmpty && spk == params.growthEscrowScript then true
  else params.legacyEscrowScripts.any (fun legacy => !legacy.isEmpty && spk == legacy)

def isDronePayoutActive : Bool :=
  decide (0 < params.nDronePayoutHeight ∧ params.nDronePayoutHeight ≤ height)

def scheduledAt (forkHeight height : Int) : Prop :=
  0 < forkHeight ∧ forkHeight ≤ height

instance (forkHeight height : Int) : Decidable (scheduledAt forkHeight height) :=
  inferInstanceAs (Decidable (_ ∧ _))

def IsDeterministicSealActive : Prop :=
  scheduledAt params.nHMPDeterministicSealHeight height

instance (params : Params) (height : Int) : Decidable (params.IsDeterministicSealActive height) :=
  inferInstanceAs (Decidable (scheduledAt _ _))

def IsHMPRearmActive : Prop :=
  scheduledAt params.nHMPRearmHeight height

instance (params : Params) (height : Int) : Decidable (params.IsHMPRearmActive height) :=
  inferInstanceAs (Decidable (scheduledAt _ _))

def getEffectiveMinBlocksSolved : Nat :=
  if scheduledAt params.nHMPSealAlgoFixHeight height then 3 else params.nHMPMinBlocksSolved

theorem getEffectiveMinBlocksSolved_pos {params : Params} (hmin : 0 < params.nHMPMinBlocksSolved)
    (height : Int) : 0 < params.getEffectiveMinBlocksSolved height := by
  unfold getEffectiveMinBlocksSolved
  split
  · omega
  · exact hmin

def getHMPStage : Nat :=
  if height < params.nHMPStage2Height then 1
  else if height < params.nHMPStage3Height then 2
  else if height < params.nHMPStage4Height then 3
  else 4

/-- The Hivemind deployment is active at a height. -/
def IsHMPActive : Prop :=
  params.HMPHeight ≤ height

instance (params : Params) (height : Int) : Decidable (params.IsHMPActive height) :=
  inferInstanceAs (Decidable (_ ≤ _))

end Params

end Kerrigan.Consensus
