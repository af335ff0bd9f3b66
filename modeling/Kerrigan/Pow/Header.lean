import Kerrigan.Pow.Difficulty
import Kerrigan.Lib.Outcome

/-!
# Block headers and their proof of work

A header has fields that every algorithm shares and fields of single algorithms.  The block hash
covers neither the Equihash solution nor the height, nonce and mix hash of KawPoW.  The checks
without the chain and the checks at a height are as in `CheckBlockHeader` and
`ContextualCheckBlockHeader`; the hash functions and the verifiers they call are parameters.
-/

namespace Kerrigan.Pow

open Primitives Lib

/-! ## Headers -/

structure CBlockHeader where
  nVersion : UInt32
  hashPrevBlock : Uint256
  hashMerkleRoot : Uint256
  nTime : UInt32
  nBits : UInt32
  nNonce : UInt32 := 0
  hashReserved : Uint256 := 0
  nNonce256 : Uint256 := 0
  nSolution : List UInt8 := []
  nHeight : UInt32 := 0
  nNonce64 : UInt64 := 0
  mixHash : Uint256 := 0
  deriving DecidableEq

/-- What `GetHash` serializes. -/
inductive HashInput
  | standard (nVersion : UInt32) (hashPrevBlock hashMerkleRoot : Uint256)
      (nTime nBits nNonce : UInt32)
  | equihash (nVersion : UInt32) (hashPrevBlock hashMerkleRoot hashReserved : Uint256)
      (nTime nBits : UInt32) (nNonce256 : Uint256)
  deriving DecidableEq

/-- The hash functions and verifiers of the headers. -/
structure PowFunctions where
  hashX11 : HashInput → Uint256
  sha256d : HashInput → List UInt8 → Uint256
  ehIsValidSolution : HashInput → List UInt8 → Bool
  hashNoVerify : UInt32 → HashInput → Uint256 → UInt64 → Uint256
  /-- `progpow::verify` of height, header, mix hash and nonce against the target of the header. -/
  verify : UInt32 → HashInput → Uint256 → UInt64 → Bool

def Algo.isEquihash : Algo → Bool
  | .equihash200 | .equihash192 => true
  | .x11 | .kawpow => false

namespace CBlockHeader

variable (header : CBlockHeader)

def getAlgo : Option Algo :=
  if header.nVersion &&& 0x0F00 = 0x0000 then some .x11
  else if header.nVersion &&& 0x0F00 = 0x0200 then some .kawpow
  else if header.nVersion &&& 0x0F00 = 0x0400 then some .equihash200
  else if header.nVersion &&& 0x0F00 = 0x0600 then some .equihash192
  else none

def hashInput : HashInput :=
  if header.getAlgo.any Algo.isEquihash then
    .equihash header.nVersion header.hashPrevBlock header.hashMerkleRoot header.hashReserved
      header.nTime header.nBits header.nNonce256
  else
    .standard header.nVersion header.hashPrevBlock header.hashMerkleRoot header.nTime
      header.nBits header.nNonce

end CBlockHeader

namespace HashInput

def nVersion : HashInput → UInt32
  | standard nVersion .. => nVersion
  | equihash nVersion .. => nVersion

def hashPrevBlock : HashInput → Uint256
  | standard _ hashPrevBlock .. => hashPrevBlock
  | equihash _ hashPrevBlock .. => hashPrevBlock

end HashInput

namespace CBlockHeader

variable {first second : CBlockHeader} (header : CBlockHeader)

theorem hashPrevBlock_hashInput : header.hashInput.hashPrevBlock = header.hashPrevBlock := by
  unfold hashInput
  split <;> rfl

theorem hashPrevBlock_eq (hsame : first.hashInput = second.hashInput) :
    first.hashPrevBlock = second.hashPrevBlock := by
  rw [← hashPrevBlock_hashInput, hsame, hashPrevBlock_hashInput]

theorem nVersion_hashInput : header.hashInput.nVersion = header.nVersion := by
  unfold hashInput
  split <;> rfl

theorem getAlgo_eq (hsame : first.hashInput = second.hashInput) :
    first.getAlgo = second.getAlgo := by
  unfold getAlgo
  rw [← nVersion_hashInput first, hsame, nVersion_hashInput]

end CBlockHeader

/-! ## Checks of the proof of work -/

namespace PowFunctions

variable (functions : PowFunctions) (params : PowParams) (header : CBlockHeader)

def getHash : Uint256 := functions.hashX11 header.hashInput

def getPoWAlgoHash : Uint256 :=
  match header.getAlgo with
  | some .x11 | none => functions.getHash header
  | some .kawpow =>
      functions.hashNoVerify header.nHeight header.hashInput header.mixHash header.nNonce64
  | some .equihash200 | some .equihash192 => functions.sha256d header.hashInput header.nSolution

def checkEquihashSolution : Bool :=
  header.getAlgo.any Algo.isEquihash &&
    functions.ehIsValidSolution header.hashInput header.nSolution

end PowFunctions

def checkProofOfWork (params : PowParams) (algo : Algo) (hash : Uint256) (nBits : UInt32) : Bool :=
  checkProofOfWorkRange params algo nBits.toNat &&
    !decide ((setCompact nBits.toNat).target < hash)

def epochLength : Int := 7500

def maxReasonableEpoch : Int := 2048

variable (nHeight : UInt32)

def getEpochNumber : Int :=
  (BitVec.toInt nHeight.toBitVec).tdiv epochLength

def reasonableEpoch : Bool :=
  !(decide (getEpochNumber nHeight < 0) || decide (maxReasonableEpoch < getEpochNumber nHeight))

namespace PowFunctions

variable (functions : PowFunctions) (params : PowParams)

def checkAlgoFields (algo : Algo) (header : CBlockHeader) : Except String Unit :=
  if algo.isEquihash then do
    require (header.hashReserved = 0) "bad-equihash-hashreserved"
    require (header.nSolution.length = if algo = .equihash200 then 1344 else 400)
      "bad-equihash-size"
    require (functions.checkEquihashSolution header) "bad-equihash"
  else if algo = .kawpow then
    require (reasonableEpoch header.nHeight) "kawpow-epoch-too-large"
  else .ok ()

/-- The devnet part of `CheckBlockHeader`. -/
structure DevnetRule where
  hashGenesisBlock : Uint256
  hashDevnetGenesisBlock : Uint256 := 0

def checkBlockHeader (devnet : DevnetRule) (header : CBlockHeader) : Except String Unit :=
  match header.getAlgo with
  | none => .error "bad-algo"
  | some algo => do
      functions.checkAlgoFields algo header
      require (checkProofOfWork params algo (functions.getPoWAlgoHash header) header.nBits)
        "high-hash"
      require (¬(devnet.hashDevnetGenesisBlock ≠ 0 ∧
        header.hashPrevBlock = devnet.hashGenesisBlock ∧
        functions.getHash header ≠ devnet.hashDevnetGenesisBlock)) "devnet-genesis"

def checkKawPowSolution (header : CBlockHeader) : Except String Unit := do
  require (reasonableEpoch header.nHeight) "kawpow-epoch-too-large"
  require (functions.verify header.nHeight header.hashInput header.mixHash header.nNonce64)
    "bad-kawpow"

def contextualCheckWork (nHeight : Nat) (header : CBlockHeader) : Except String Unit :=
  if header.getAlgo = some .kawpow then do
    require (header.nHeight.toNat = nHeight % 2 ^ 32) "kawpow-bad-height"
    functions.checkKawPowSolution header
  else .ok ()

/-- The whole check of the proof of work of a header that was not known before. -/
structure Verified (devnet : DevnetRule) (nHeight : Nat) (header : CBlockHeader) : Prop where
  contextFree : functions.checkBlockHeader params devnet header = .ok ()
  contextual : functions.contextualCheckWork nHeight header = .ok ()

variable {functions}

theorem contextualCheckWork_of_ne {nHeight : Nat} {header : CBlockHeader}
    (halgo : header.getAlgo ≠ some .kawpow) :
    functions.contextualCheckWork nHeight header = .ok () := by
  unfold contextualCheckWork
  rw [if_neg halgo]

end PowFunctions

end Kerrigan.Pow
