import Kerrigan.Consensus.Params
import Kerrigan.Lib.Outcome

/-!
# Checks of a shielded transaction

`CheckSaplingTx`.  The proofs and signatures are a parameter, as is the set of known anchors.
-/

namespace Kerrigan.Sapling

open Primitives Consensus Lib

/-- The parameters of the shielded pool. -/
structure SaplingParams extends Params where
  SaplingHeight : Int
  /-- From this height on a block on a mismatched shielded store is invalid. -/
  nSaplingStrictnessHeight : Int := 0

variable (payload : SaplingTxPayload) (params : SaplingParams)

def SaplingParams.IsSaplingActive (nHeight : Int) : Prop :=
  params.SaplingHeight ≤ nHeight

instance (params : SaplingParams) (nHeight : Int) : Decidable (params.IsSaplingActive nHeight) :=
  inferInstanceAs (Decidable (_ ≤ _))

def saplingPayloadVersion : Nat := 1

def maxSaplingTxExtraPayload : Nat := 150000

/-- The length of a count in the serialization of a payload with at most 500 entries. -/
def countSize (count : Nat) : Nat := if count < 253 then 1 else 3

def payloadSize : Nat :=
  2 + countSize payload.vSpendDescriptions.length + 384 * payload.vSpendDescriptions.length +
    countSize payload.vOutputDescriptions.length + 948 * payload.vOutputDescriptions.length +
    8 + 64

def nullifiersOf : List Uint256 :=
  payload.vSpendDescriptions.map SaplingSpendDescription.nullifier

def commitmentsOf : List Uint256 :=
  payload.vOutputDescriptions.map SaplingOutputDescription.cmu

def HasShieldedActions : Prop :=
  payload.vSpendDescriptions ≠ [] ∨ payload.vOutputDescriptions ≠ []

instance (payload : SaplingTxPayload) : Decidable (HasShieldedActions payload) :=
  inferInstanceAs (Decidable (_ ∨ _))

def hasExtraPayloadField (tx : CTransaction) : Bool :=
  tx.isSpecialTxVersion && tx.nType != .normal

/-- The payload that decoding finds; a transaction without the field has an empty one. -/
def saplingPayloadOf (tx : CTransaction) : Option SaplingTxPayload :=
  if hasExtraPayloadField tx then tx.saplingPayload else none

/-- The verdict on proofs and signatures: a reject reason, or none. -/
abbrev ProofVerdict := CTransaction → SaplingTxPayload → Option String

def checkSaplingTx (isValidAnchor : Uint256 → Bool) (verifySaplingProofs : ProofVerdict)
    (nHeight : Int) (tx : CTransaction) : Except String Unit := do
  require (tx.nType = .sapling) "bad-sapling-type"
  require (params.IsSaplingActive nHeight) "bad-sapling-not-active"
  require (hasExtraPayloadField tx = true) "bad-sapling-no-payload"
  match saplingPayloadOf tx with
  | none => .error "bad-sapling-payload"
  | some payload => do
      require (payload.nVersion = saplingPayloadVersion) "bad-sapling-version"
      require (HasShieldedActions payload) "bad-sapling-empty"
      require (payload.vSpendDescriptions.length ≤ 500) "bad-sapling-spends-count"
      require (payload.vOutputDescriptions.length ≤ 500) "bad-sapling-outputs-count"
      require (payloadSize payload ≤ maxSaplingTxExtraPayload) "bad-sapling-payload-size"
      require (nullifiersOf payload).Nodup "bad-sapling-duplicate-nullifier"
      require (-maxMoney ≤ payload.valueBalance ∧ payload.valueBalance ≤ maxMoney)
        "bad-sapling-value-balance"
      payload.vSpendDescriptions.forM (fun spend => do
        require (spend.anchor ≠ 0) "bad-sapling-anchor-null"
        require (isValidAnchor spend.anchor = true) "bad-sapling-anchor")
      match verifySaplingProofs tx payload with
      | some reason => .error reason
      | none => .ok ()

def checkSpecialTx (isValidAnchor : Uint256 → Bool) (verifySaplingProofs : ProofVerdict)
    (nHeight : Int) (tx : CTransaction) : Except String Unit :=
  if hasExtraPayloadField tx && tx.nType == .sapling then
    checkSaplingTx params isValidAnchor verifySaplingProofs nHeight tx
  else .ok ()

variable {params : SaplingParams} {isValidAnchor : Uint256 → Bool}
  {verifySaplingProofs : ProofVerdict} {nHeight : Int} {tx : CTransaction}

section

variable (h : checkSaplingTx params isValidAnchor verifySaplingProofs nHeight tx = .ok ())

include h

theorem checkSaplingTx_eq_ok :
    params.IsSaplingActive nHeight ∧
      ∃ payload, saplingPayloadOf tx = some payload ∧ HasShieldedActions payload := by
  obtain ⟨_, _, h⟩ := bind_eq_ok_iff.mp h
  obtain ⟨_, hactive, h⟩ := bind_eq_ok_iff.mp h
  obtain ⟨_, _, h⟩ := bind_eq_ok_iff.mp h
  refine ⟨require_eq_ok_iff.mp hactive, ?_⟩
  cases hpayload : saplingPayloadOf tx with
  | none =>
    rw [hpayload] at h
    cases h
  | some payload =>
    rw [hpayload] at h
    obtain ⟨_, _, h⟩ := bind_eq_ok_iff.mp h
    obtain ⟨_, hactions, _⟩ := bind_eq_ok_iff.mp h
    exact ⟨payload, rfl, require_eq_ok_iff.mp hactions⟩

theorem checkSaplingTx_anchors {payload : SaplingTxPayload}
    (hpayload : saplingPayloadOf tx = some payload) :
    ∀ spend ∈ payload.vSpendDescriptions, isValidAnchor spend.anchor = true := by
  iterate 3 obtain ⟨_, -, h⟩ := bind_eq_ok_iff.mp h
  rw [hpayload] at h
  iterate 7 obtain ⟨_, -, h⟩ := bind_eq_ok_iff.mp h
  obtain ⟨_, hanchors, -⟩ := bind_eq_ok_iff.mp h
  intro spend hspend
  obtain ⟨_, -, hvalid⟩ := bind_eq_ok_iff.mp (forM_eq_ok_iff.mp hanchors spend hspend)
  exact require_eq_ok_iff.mp hvalid

end

end Kerrigan.Sapling
