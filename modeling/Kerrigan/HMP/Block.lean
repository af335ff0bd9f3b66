import Kerrigan.Consensus.Params

/-!
# Hivemind data of a block

The fields of the coinbase payload `CCbTx` that the Hivemind rules read, chains of
blocks, and the parts of the node that the rules only query: signature schemes and the
masternode list.
-/

namespace Kerrigan.HMP

open Primitives Consensus

abbrev CBLSPublicKey := Nat

/-- A BLS signature; 0 is the unset signature. -/
abbrev CBLSSignature := Nat

def CBLSPublicKey.IsValid (key : CBLSPublicKey) : Prop := key ≠ 0

instance (key : CBLSPublicKey) : Decidable key.IsValid := inferInstanceAs (Decidable (_ ≠ _))

def CBLSSignature.IsValid (sig : CBLSSignature) : Prop := sig ≠ 0

instance (sig : CBLSSignature) : Decidable sig.IsValid := inferInstanceAs (Decidable (_ ≠ _))

def numAlgos : Nat := 4

/-- The coinbase payload. -/
@[ext] structure CCbTx where
  nVersion : Nat
  minerIdentity : CBLSPublicKey := 0
  sealForAncestor : CBLSSignature := 0
  sealBlockHash : Uint256 := 0
  vSealSigners : List CBLSPublicKey := []
  vSealSignerAlgos : List Nat := []
  vCommitments : List CBLSPublicKey := []
  vSealSignerVRFProofs : List CBLSSignature := []
  vCommitmentSigs : List CBLSSignature := []
  minerIdentitySig : CBLSSignature := 0
  deriving DecidableEq

namespace CCbTx

def hmpSeal : Nat := 4

def hmpCommitment : Nat := 5

def hmpRearm : Nat := 6

variable (cbTx : CCbTx)

/-- A field that is there from the given version on. -/
def since {α : Type} (version : Nat) (value absent : α) : α :=
  if version ≤ cbTx.nVersion then value else absent

/-- The payload as it is read: the fields of later versions have their defaults. -/
def atVersion : CCbTx where
  nVersion := cbTx.nVersion
  minerIdentity := cbTx.since hmpSeal cbTx.minerIdentity 0
  sealForAncestor := cbTx.since hmpSeal cbTx.sealForAncestor 0
  sealBlockHash := cbTx.since hmpSeal cbTx.sealBlockHash 0
  vSealSigners := cbTx.since hmpSeal cbTx.vSealSigners []
  vSealSignerAlgos := cbTx.since hmpSeal cbTx.vSealSignerAlgos []
  vCommitments := cbTx.since hmpCommitment cbTx.vCommitments []
  vSealSignerVRFProofs := cbTx.since hmpRearm cbTx.vSealSignerVRFProofs []
  vCommitmentSigs := cbTx.since hmpRearm cbTx.vCommitmentSigs []
  minerIdentitySig := cbTx.since hmpRearm cbTx.minerIdentitySig 0

@[simp] theorem atVersion_nVersion : cbTx.atVersion.nVersion = cbTx.nVersion := rfl

@[simp] theorem since_absent {α : Type} (version : Nat) (absent : α) :
    cbTx.since version absent absent = absent := ite_self absent

theorem since_of_le {α : Type} {cbTx : CCbTx} {version : Nat} (hle : version ≤ cbTx.nVersion)
    (value absent : α) : cbTx.since version value absent = value := if_pos hle

theorem since_atVersion {α : Type} (version : Nat) (value absent : α) :
    cbTx.atVersion.since version (cbTx.since version value absent) absent =
      cbTx.since version value absent := by
  unfold since
  split
  · rfl
  · rename_i hearlier
    exact (if_neg hearlier).symm

theorem atVersion_atVersion : cbTx.atVersion.atVersion = cbTx.atVersion := by
  refine CCbTx.ext rfl ?_ ?_ ?_ ?_ ?_ ?_ ?_ ?_ ?_ <;> exact cbTx.since_atVersion _ _ _

theorem atVersion_of_rearm {cbTx : CCbTx} (hrearm : hmpRearm ≤ cbTx.nVersion) :
    cbTx.atVersion = cbTx := by
  have hseal : hmpSeal ≤ cbTx.nVersion := le_trans (by decide) hrearm
  have hcommitment : hmpCommitment ≤ cbTx.nVersion := le_trans (by decide) hrearm
  simp only [atVersion, since_of_le hrearm, since_of_le hseal, since_of_le hcommitment]

def HasSeal : Prop :=
  cbTx.sealForAncestor.IsValid ∧ cbTx.sealBlockHash ≠ 0

instance (cbTx : CCbTx) : Decidable cbTx.HasSeal := inferInstanceAs (Decidable (_ ∧ _))

end CCbTx

/-- The first transaction of a block: a version 3 transaction of type `TRANSACTION_COINBASE`
with its payload, or any other. -/
inductive Coinbase where
  | special (payload : Option CCbTx)
  | other
  deriving DecidableEq

/-- A block as far as the Hivemind rules read it. -/
structure HMPBlock where
  hash : Uint256
  algo : Nat
  coinbase : Coinbase
  payoutScript : Option Script := none
  deriving DecidableEq

def HMPBlock.hmpPayload (block : HMPBlock) : Option CCbTx :=
  match block.coinbase with
  | .special (some cbTx) => if CCbTx.hmpSeal ≤ cbTx.nVersion then some cbTx.atVersion else none
  | _ => none

theorem hmpPayload_eq_some {block : HMPBlock} {cbTx : CCbTx}
    (hpayload : block.hmpPayload = some cbTx) :
    CCbTx.hmpSeal ≤ cbTx.nVersion ∧ cbTx.atVersion = cbTx := by
  unfold HMPBlock.hmpPayload at hpayload
  split at hpayload
  · split at hpayload
    · rename_i payload _ hversion
      rw [← Option.some.inj hpayload]
      exact ⟨hversion, payload.atVersion_atVersion⟩
    · cases hpayload
  · cases hpayload

/-! ## Chains -/

/-- A block with its ancestors, newest first; the last one has height 0. -/
abbrev Chain := List HMPBlock

namespace Chain

variable (block : HMPBlock) (chain : Chain)

def height : Int :=
  (chain.length : Int) - 1

@[simp] theorem height_cons : height (block :: chain) = height chain + 1 := by
  simp [height]

def tipHash : Option Uint256 :=
  chain.head?.map HMPBlock.hash

def getAncestor (nHeight : Int) : Option HMPBlock :=
  if nHeight < 0 ∨ chain.height < nHeight then none
  else chain[(chain.height - nHeight).toNat]?

theorem getAncestor_cons (parent : Chain) (nHeight : Int) : getAncestor (block :: parent) nHeight =
      if nHeight = parent.height + 1 then some block else parent.getAncestor nHeight := by
  have hbound : -1 ≤ parent.height := by
    unfold height
    omega
  simp only [getAncestor, height_cons]
  by_cases htip : nHeight = parent.height + 1
  · subst htip
    rw [if_neg (by omega), if_pos rfl, Int.sub_self]
    rfl
  · rw [if_neg htip]
    by_cases hrange : nHeight < 0 ∨ parent.height < nHeight
    · rw [if_pos hrange, if_pos (by omega)]
    · have hindex : (parent.height + 1 - nHeight).toNat = (parent.height - nHeight).toNat + 1 := by
        omega
      rw [if_neg hrange, if_neg (by omega), hindex, List.getElem?_cons_succ]

theorem height_of_getAncestor {chain : Chain} {block : HMPBlock} {height : Int}
    (hblock : block ∈ chain.getAncestor height) : 0 ≤ height ∧ height ≤ chain.height := by
  unfold getAncestor at hblock
  split at hblock
  · cases hblock
  · omega

theorem getAncestor_of_parent {block found : HMPBlock} {parent : Chain} {height : Int}
    (hfound : found ∈ parent.getAncestor height) :
    found ∈ getAncestor (block :: parent) height := by
  have hle : height ≤ parent.height := (height_of_getAncestor hfound).2
  rw [getAncestor_cons, if_neg (by omega)]
  exact hfound

theorem getAncestor_tip (block : HMPBlock) (parent : Chain) :
    block ∈ getAncestor (block :: parent) (parent.height + 1) := by
  rw [getAncestor_cons, if_pos rfl]
  rfl

theorem height_suffix {older chain : Chain} (hsuffix : older <:+ chain) :
    older.height ≤ chain.height := by
  have hlength := hsuffix.length_le
  unfold height
  omega

theorem getAncestor_suffix {older chain : Chain} (hsuffix : older <:+ chain) {height : Int}
    (hle : height ≤ older.height) : chain.getAncestor height = older.getAncestor height := by
  induction chain with
  | nil => rw [List.suffix_nil.mp hsuffix]
  | cons block parent ih =>
    rcases List.suffix_cons_iff.mp hsuffix with rfl | hparent
    · rfl
    · have hlength := hparent.length_le
      rw [getAncestor_cons, if_neg ?_, ih hparent]
      unfold Chain.height at hle ⊢
      omega

end Chain

def sealedAlgoOf (params : Params) (chain : Chain) (cbTx : CCbTx) : Option Nat :=
  if ¬ cbTx.HasSeal ∨ cbTx.vSealSigners = [] then none
  else
    match chain.getAncestor (chain.height - params.nHMPSealTrailingDepth) with
    | none => none
    | some pSealed => if pSealed.hash = cbTx.sealBlockHash then some pSealed.algo else none

/-! ## What the rules query -/

/-- The signature schemes and the masternode list. -/
structure Oracles where
  verifyAggregate : Uint256 → CBLSSignature → List CBLSPublicKey → List Nat → Bool
  verifyVRF : CBLSPublicKey → Uint256 → Uint256 → CBLSSignature → Bool
  vrfOutputHash : CBLSSignature → Nat
  verifyCommitment : CBLSPublicKey → CBLSSignature → Bool
  verifyIdentity : CBLSPublicKey → CBLSSignature → Int → Uint256 → Script → Bool
  isBroodNodeOperator : CBLSPublicKey → Uint256 → Bool

namespace Sample

def trusting : Oracles where
  verifyAggregate := fun _ _ _ _ => true
  verifyVRF := fun _ _ _ _ => true
  vrfOutputHash := fun _ => 0
  verifyCommitment := fun _ _ => true
  verifyIdentity := fun _ _ _ _ _ => true
  isBroodNodeOperator := fun _ _ => false

end Sample

end Kerrigan.HMP
