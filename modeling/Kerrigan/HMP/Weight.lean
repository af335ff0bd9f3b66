import Kerrigan.HMP.Privilege
import Kerrigan.HMP.Commitment

/-!
# Seal weight

The signers of a seal are filtered by commitment, privilege and committee selection, and
the weight of the block is computed from those that remain: a bonus for Elders that are
present, a penalty for Elders that are absent and for signers nobody knows.
-/

namespace Kerrigan.HMP

open Primitives Consensus CHMPPrivilegeTracker CHMPCommitmentRegistry

/-! ## Committee selection -/

def getVRFTierMultiplier : HMPPrivilegeTier → Nat
  | .brood => 4
  | .elder => 3
  | .new => 1
  | .unknown => 0

def isVRFSelected (vrfHash tierMultiplier : Nat) : Bool :=
  vrfHash % 2 ^ 64 % 1000 < min (200 * tierMultiplier) 1000

/-! ## `FilterSealSigners` -/

structure SealVectors where
  signers : List CBLSPublicKey
  algos : List Nat
  vrfProofs : Option (List CBLSSignature)
  deriving DecidableEq

/-- Strip the signers that are not committed; algorithms and proofs move along by index. -/
def filterCommitted (keep : CBLSPublicKey → Bool) :
    List CBLSPublicKey → List Nat → List CBLSSignature →
      List CBLSPublicKey × List Nat × List CBLSSignature
  | [], _, _ => ([], [], [])
  | signer :: signers, algos, proofs =>
      let rest := filterCommitted keep signers algos.tail proofs.tail
      if keep signer then
        (signer :: rest.1, algos.head?.toList ++ rest.2.1, proofs.head?.toList ++ rest.2.2)
      else rest

/-- Strip the signers without privilege, and those that the committee did not select. -/
def filterPrivileged (tierOf : CBLSPublicKey → Nat → HMPPrivilegeTier)
    (selected : HMPPrivilegeTier → Option CBLSSignature → Bool) :
    List CBLSPublicKey → List Nat → List CBLSSignature →
      List CBLSPublicKey × List Nat × List CBLSSignature
  | signer :: signers, algo :: algos, proofs =>
      let rest := filterPrivileged tierOf selected signers algos proofs.tail
      let tier := tierOf signer algo
      if tier ≠ .unknown ∧ selected tier proofs.head? then
        (signer :: rest.1, algo :: rest.2.1, proofs.head?.toList ++ rest.2.2)
      else rest
  | _, _, _ => ([], [], [])

section Passes

variable (params : Params) (oracles : Oracles) (registry : CHMPCommitmentRegistry)
  (tracker : CHMPPrivilegeTracker) (height : Int) (pindex : Uint256) (fHaveProofs : Bool)
  (given : List CBLSPublicKey × List Nat × List CBLSSignature)

def committeeSelects (tier : HMPPrivilegeTier) (proof : Option CBLSSignature) : Bool :=
  if fHaveProofs ∧ params.IsHMPRearmActive height then
    match proof with
    | none => false
    | some sig => isVRFSelected (oracles.vrfOutputHash sig) (getVRFTierMultiplier tier)
  else true

def commitmentPass : List CBLSPublicKey × List Nat × List CBLSSignature :=
  if 0 < params.nHMPCommitmentOffset ∧ given.1 ≠ [] then
    filterCommitted (fun signer =>
      registry.isCommitted params signer (max (height - params.nHMPSealTrailingDepth) 0))
      given.1 given.2.1 given.2.2
  else given

def privilegePass : List CBLSPublicKey × List Nat × List CBLSSignature :=
  if given.1 ≠ [] then
    filterPrivileged (fun signer algo => tracker.getTier params oracles signer algo pindex)
      (committeeSelects params oracles height fHaveProofs) given.1 given.2.1 given.2.2
  else given

def filterSealSigners (vectors : SealVectors) : SealVectors :=
  let fHaveProofs := vectors.vrfProofs.isSome
  let kept := privilegePass params oracles tracker height pindex fHaveProofs
    (commitmentPass params registry height
      (vectors.signers, vectors.algos, vectors.vrfProofs.getD []))
  ⟨kept.1, kept.2.1, if fHaveProofs then some kept.2.2 else none⟩

end Passes

variable (params : Params) (oracles : Oracles) (tracker : CHMPPrivilegeTracker)
  (signers : List CBLSPublicKey) (algos : List Nat)

/-! ## Multipliers -/

def getRequiredAgreement (totalElders : Nat) : Nat :=
  if totalElders ≤ 1 then 0
  else if totalElders ≤ 2 then 100
  else if totalElders = 3 then 66
  else if totalElders ≤ 5 then 75
  else 80

def eldersMultiplier (elderCount eldersPresent : Nat) : Nat :=
  let requiredCount := max ((elderCount * getRequiredAgreement elderCount + 99) / 100) 1
  if elderCount ≤ eldersPresent then min (15000 + eldersPresent * 3000 / elderCount) 18000
  else if requiredCount ≤ eldersPresent then
    if elderCount - requiredCount = 0 then 15000
    else 12000 + (eldersPresent - requiredCount) * 3000 / (elderCount - requiredCount)
  else 10000

def computeSealMultiplier (blockAlgo : Nat) (pindex : Uint256) : Nat :=
  let elderSet := tracker.getElderSet params blockAlgo true
  let pairs := signers.zip algos
  if signers = [] then 10000
  else if signers.length ≠ algos.length then 10000
  else if ((List.range numAlgos).map (fun algo =>
      (tracker.getElderSet params algo true).length)).sum = 0 then 10000
  else if elderSet.length ≤ 1 then 10000
  else
    let eldersPresent := pairs.countP (fun pair => pair.1 ∈ elderSet ∧ pair.2 = blockAlgo)
    let tierOf := fun pair : CBLSPublicKey × Nat =>
      tracker.getTier params oracles pair.1 pair.2 pindex
    let elderAlgos := ((pairs.filter (fun pair =>
      tierOf pair = .elder ∨ tierOf pair = .brood)).map Prod.snd).dedup
    let broodAlgos := ((pairs.filter (fun pair => tierOf pair = .brood)).map Prod.snd).dedup
    eldersMultiplier elderSet.length eldersPresent +
      min ((elderAlgos.erase blockAlgo).length * 500) 1500 + min (broodAlgos.length * 300) 1200

def unknownSigners : Nat :=
  signers.countP (fun signer =>
    signer ∉ (List.range numAlgos).flatMap (fun algo => tracker.getPrivilegedSet params algo))

def evaluateNegativeProof (blockAlgo : Nat) : Nat :=
  let elders := tracker.getElderSet params blockAlgo true
  let requiredBps := getRequiredAgreement elders.length * 100
  let present := elders.countP (fun elder => (elder, blockAlgo) ∈ signers.zip algos)
  let presentBps := present * 10000 / elders.length
  let unknownBps := unknownSigners params tracker signers * 10000 / signers.length
  if elders = [] then 10000
  else if requiredBps = 0 then 10000
  else if 5000 < unknownBps then 1000
  else if requiredBps ≤ presentBps then
    if 3000 < unknownBps ∧ 4 ≤ elders.length then max (10000 - unknownBps) 5000 else 10000
  else if presentBps < 5000 then 1000
  else if requiredBps - 5000 = 0 then 10000
  else min (5000 + (presentBps - 5000) * 5000 / (requiredBps - 5000)) 10000

def evaluateMannequinPenalty : Nat :=
  if signers = [] then 10000
  else if 5000 < unknownSigners params tracker signers * 10000 / signers.length then 1000
  else 10000

/-! ## The weight ladder -/

def rearmWeight (rawSigners : List CBLSPublicKey) (sealedAlgo : Nat) (pindex : Uint256) : Nat :=
  let fArmed := tracker.isPenaltyArmed params sealedAlgo
  if signers = [] then if fArmed then 6667 else 10000
  else if signers.length < 2 then 10000
  else
    let base := min (computeSealMultiplier params oracles tracker signers algos sealedAlgo pindex)
      (if fArmed then 15000 else 12000)
    let mq := evaluateMannequinPenalty params tracker rawSigners
    if mq < 10000 then base * mq / 10000 else base

def legacyWeight (stage : Nat) (signers : List CBLSPublicKey) (algos : List Nat) (sealedAlgo : Nat)
    (pindex : Uint256) : Nat :=
  let base :=
    if signers ≠ [] ∧ signers.length < 2 then 10000
    else computeSealMultiplier params oracles tracker signers algos sealedAlgo pindex
  if 4 ≤ stage then
    min base 20000 * min (evaluateNegativeProof params tracker signers algos sealedAlgo) 20000 /
      10000
  else base

end Kerrigan.HMP
