import Kerrigan.HMP.Weight
import Kerrigan.HMP.Seal
import Kerrigan.Lib.Outcome

/-!
# Connecting a block

The Hivemind part of `ConnectBlock`: the checks of the coinbase payload and of the embedded
seal, the weight of the block, and the updates of the trackers that are applied after all
other checks.  `RebuildHMPState` replays the blocks of the lookback into the trackers.
-/

namespace Kerrigan.HMP

open Primitives Consensus Lib CHMPPrivilegeTracker

/-! ## Checks -/

variable (params : Params) (oracles : Oracles) (registry : CHMPCommitmentRegistry)
  (tracker : CHMPPrivilegeTracker) (block : HMPBlock) (parent : Chain) (height : Int) (cbTx : CCbTx)

def checkCbTx : Except String Unit := do
  require (cbTx.nVersion ≠ 0 ∧ cbTx.nVersion ≤ CCbTx.hmpRearm) "bad-cbtx-version"
  require (params.V20Height ≤ height ↔ 3 ≤ cbTx.nVersion) "bad-cbtx-version"
  require (params.V20Height ≤ height ∧ params.IsHMPActive height ↔
    CCbTx.hmpSeal ≤ cbTx.nVersion) "bad-cbtx-version"
  require (params.IsHMPRearmActive height ↔ CCbTx.hmpRearm ≤ cbTx.nVersion) "bad-cbtx-version"
  require (cbTx.vSealSigners.length = cbTx.vSealSignerAlgos.length)
    "bad-cbtx-seal-signer-parity"
  require (∀ algo ∈ cbTx.vSealSignerAlgos, algo < numAlgos) "bad-cbtx-seal-algo"
  if CCbTx.hmpRearm ≤ cbTx.nVersion then
    require (cbTx.vSealSignerVRFProofs.length = cbTx.vSealSigners.length) "bad-cbtx-vrf-parity"
    require (cbTx.vCommitmentSigs.length = cbTx.vCommitments.length)
      "bad-cbtx-commitment-sig-parity"
    require (∀ commitment ∈ cbTx.vCommitments.zip cbTx.vCommitmentSigs,
      commitment.1.IsValid ∧ commitment.2.IsValid ∧
        oracles.verifyCommitment commitment.1 commitment.2) "bad-cbtx-commitment-sig"

def checkCoinbase : Coinbase → Except String Unit
  | .other => .ok ()
  | .special none => .error "bad-cbtx-payload"
  | .special (some cbTx) => checkCbTx params oracles height cbTx.atVersion

def checkMinerIdentity : Except String Unit := do
  require (3 ≤ params.getHMPStage (parent.height + 1) → cbTx.minerIdentity.IsValid)
    "bad-cbtx-no-miner-identity"
  if params.IsHMPRearmActive (parent.height + 1) ∧ CCbTx.hmpRearm ≤ cbTx.nVersion then
    require (cbTx.minerIdentity.IsValid ∧ cbTx.minerIdentitySig.IsValid ∧
      ∃ script ∈ block.payoutScript, oracles.verifyIdentity cbTx.minerIdentity
        cbTx.minerIdentitySig (parent.height + 1) (parent.tipHash.getD 0) script)
      "bad-cbtx-miner-identity-sig"

def vrfPrevSealHash (chain : Chain) : Uint256 :=
  let targetHeight := chain.height - params.nHMPSealTrailingDepth
  match chain.getAncestor targetHeight with
  | none => 0
  | some _ => ((chain.getAncestor (targetHeight - 1)).map HMPBlock.hash).getD 0

def checkSeal (chain : Chain) (cbTx : CCbTx) : Except String Unit := do
  let targetHeight := chain.height - params.nHMPSealTrailingDepth
  if cbTx.HasSeal then
    require (0 ≤ targetHeight →
      ∃ ancestor ∈ chain.getAncestor targetHeight, ancestor.hash = cbTx.sealBlockHash)
      "bad-seal-wrong-ancestor"
    require (cbTx.vSealSigners.length = cbTx.vSealSignerAlgos.length)
      "bad-seal-signers-algos-mismatch"
    if cbTx.vSealSigners ≠ [] then
      require (CAssembledSeal.Verify oracles
        { blockHash := cbTx.sealBlockHash, aggregatedSig := cbTx.sealForAncestor
          signers := cbTx.vSealSigners, signerAlgos := cbTx.vSealSignerAlgos })
        "bad-seal-signature"
      if params.IsHMPRearmActive chain.height ∧ CCbTx.hmpRearm ≤ cbTx.nVersion then
        require (cbTx.vSealSignerVRFProofs.length = cbTx.vSealSigners.length)
          "bad-seal-vrf-parity"
        require (∀ proof ∈ cbTx.vSealSigners.zip cbTx.vSealSignerVRFProofs,
          oracles.verifyVRF proof.1 cbTx.sealBlockHash (vrfPrevSealHash params chain) proof.2)
          "bad-seal-vrf"
  else
    require (params.IsDeterministicSealActive chain.height → cbTx.vSealSigners = [])
      "bad-seal-signers-no-seal"

def checkPayload : Except String Unit := do
  checkMinerIdentity params oracles block parent cbTx
  require (cbTx.vCommitments.length ≤ 16) "bad-cbtx-too-many-commitments"
  if 3 ≤ params.getHMPStage (parent.height + 1) then
    checkSeal params oracles (block :: parent) cbTx

def checkBlock : Except String Unit :=
  if ¬ params.IsHMPActive (parent.height + 1) ∨ params.getHMPStage (parent.height + 1) = 1 then
    .ok ()
  else
    match block.hmpPayload with
    | none => .ok ()
    | some cbTx => checkPayload params oracles block parent cbTx

/-! ## Evaluation of a block -/

/-- What `ConnectBlock` decides about a block from the trackers: the weight it writes, if
any, and the updates it defers. -/
structure HMPVerdict where
  nSealWeight : Option Nat := none
  commitments : Option (CBLSPublicKey × List CBLSPublicKey) := none
  privilege : Option CHMPWindowEntry := none
  seals : Bool := false

def countedSigners : List CBLSPublicKey × List Nat :=
  if cbTx.HasSeal then
    let kept := filterSealSigners params oracles registry tracker height block.hash
      { signers := cbTx.vSealSigners
        algos := cbTx.vSealSignerAlgos
        vrfProofs :=
          if CCbTx.hmpRearm ≤ cbTx.nVersion then some cbTx.vSealSignerVRFProofs else none }
    (kept.signers, kept.algos)
  else ([], [])

/-- The algorithm whose Elders the seal is measured against. -/
def weighedAlgo : Nat :=
  let chain : Chain := block :: parent
  if Params.scheduledAt params.nHMPSealAlgoFixHeight chain.height then
    match chain.getAncestor (chain.height - params.nHMPSealTrailingDepth) with
    | none => block.algo
    | some pSealed => pSealed.algo
  else block.algo

/-- The entry of the privilege window for a block in the sealing stages: the raw signers
from the deterministic height on, the counted ones below it. -/
def sealEntry (counted : List CBLSPublicKey × List Nat) : CHMPWindowEntry where
  height := parent.height + 1
  algo := block.algo
  minerPubKey := cbTx.minerIdentity
  sealSigners :=
    if params.IsDeterministicSealActive (parent.height + 1) then cbTx.vSealSigners else counted.1
  signerAlgos :=
    if params.IsDeterministicSealActive (parent.height + 1) then cbTx.vSealSignerAlgos
    else counted.2
  sealedAlgo := sealedAlgoOf params (block :: parent) cbTx

def sealWeight (counted : List CBLSPublicKey × List Nat) : Nat :=
  if params.IsHMPRearmActive (parent.height + 1) then
    rearmWeight params oracles tracker counted.1 counted.2 cbTx.vSealSigners
      (weighedAlgo params block parent) block.hash
  else
    legacyWeight params oracles tracker (params.getHMPStage (parent.height + 1)) counted.1
      counted.2 (weighedAlgo params block parent) block.hash

def payloadVerdict : HMPVerdict :=
  if params.getHMPStage (parent.height + 1) < 3 then
    { nSealWeight := some 10000
      commitments := some (cbTx.minerIdentity, cbTx.vCommitments)
      privilege := some
        { height := parent.height + 1, algo := block.algo, minerPubKey := cbTx.minerIdentity } }
  else
    let counted := countedSigners params oracles registry tracker block (parent.height + 1) cbTx
    { nSealWeight := some (sealWeight params oracles tracker block parent cbTx counted)
      commitments := some (cbTx.minerIdentity, cbTx.vCommitments)
      privilege := some (sealEntry params block parent cbTx counted)
      seals := true }

/-- The decision of `ConnectBlock` about a block that passes the checks.  A coinbase of an
older version leaves everything as it is. -/
def blockVerdict : HMPVerdict :=
  if ¬ params.IsHMPActive (parent.height + 1) then {}
  else if params.getHMPStage (parent.height + 1) = 1 then { nSealWeight := some 10000 }
  else
    match block.coinbase, block.hmpPayload with
    | .other, _ =>
        { nSealWeight := some 10000
          privilege := some
            { height := parent.height + 1, algo := block.algo, minerPubKey := 0 } }
    | .special _, none => {}
    | .special _, some cbTx => payloadVerdict params oracles registry tracker block parent cbTx

end Kerrigan.HMP
