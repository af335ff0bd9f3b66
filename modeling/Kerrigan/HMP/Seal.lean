import Kerrigan.HMP.Block

/-!
# Seals

A share is the signature of one daemon over a block, and an assembled seal the aggregate
of the shares of a block.  The wire form of an assembled seal leaves out the committee
proofs of its signers.
-/

namespace Kerrigan.HMP

open Primitives

def maxSealSigners : Nat := 200

def hmpGroth16ProofSize : Nat := 192

structure CSealShare where
  blockHash : Uint256
  signerPubKey : CBLSPublicKey
  signature : CBLSSignature
  algoId : Nat
  vrfProof : CBLSSignature
  zkProof : List Nat := []
  commitment : Uint256 := 0
  deriving DecidableEq

structure CAssembledSeal where
  blockHash : Uint256
  aggregatedSig : CBLSSignature
  signers : List CBLSPublicKey
  signerAlgos : List Nat
  vrfProofs : List CBLSSignature := []
  deriving DecidableEq

namespace CAssembledSeal

variable (assembled : CAssembledSeal)

def IsNull : Prop := assembled.blockHash = 0

instance (assembled : CAssembledSeal) : Decidable assembled.IsNull :=
  inferInstanceAs (Decidable (_ = _))

def Verify (oracles : Oracles) (assembled : CAssembledSeal) : Prop :=
  (assembled.blockHash ≠ 0 ∧ assembled.signers ≠ [] ∧ assembled.aggregatedSig.IsValid) ∧
    assembled.signers.length = assembled.signerAlgos.length ∧ assembled.signers.Nodup ∧
    assembled.signers.length ≤ maxSealSigners ∧
    oracles.verifyAggregate assembled.blockHash assembled.aggregatedSig assembled.signers
      assembled.signerAlgos

instance (oracles : Oracles) (assembled : CAssembledSeal) :
    Decidable (assembled.Verify oracles) :=
  inferInstanceAs (Decidable (_ ∧ _))

def onWire : CAssembledSeal :=
  { assembled with vrfProofs := [] }

def CarriesProofs : Prop :=
  assembled.vrfProofs.length = assembled.signers.length

instance (assembled : CAssembledSeal) : Decidable assembled.CarriesProofs :=
  inferInstanceAs (Decidable (_ = _))

end CAssembledSeal

/-- The parts of the signature schemes that only the sealing protocol uses. -/
structure SealSchemes where
  verifyShare : CSealShare → Bool
  aggregate : List CBLSSignature → CBLSSignature
  proofInitialized : Bool
  verifyProof : List Nat → Uint256 → Uint256 → Bool
  sealHash : CAssembledSeal → Uint256

/-- The identity of the daemon, when it is valid. -/
structure CHMPIdentity where
  publicKey : CBLSPublicKey
  signVRF : Uint256 → Uint256 → CBLSSignature
  /-- `Sign` of the message of a share for a block hash and an algorithm. -/
  sign : Uint256 → Nat → CBLSSignature
  createProof : Uint256 → Uint256 → List Nat × Uint256

inductive HMPAcceptResult where
  | accepted
  | rejectedBenign
  | rejectedInvalid
  deriving DecidableEq

namespace Sample

def acceptingSchemes : SealSchemes where
  verifyShare := fun _ => true
  aggregate := fun _ => 1
  proofInitialized := false
  verifyProof := fun _ _ _ => true
  sealHash := fun _ => 0

end Sample

end Kerrigan.HMP
