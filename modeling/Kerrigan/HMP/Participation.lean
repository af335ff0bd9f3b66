import Mathlib.Data.ZMod.Basic
import Kerrigan.HMP.Circuit
import Kerrigan.HMP.SealStore

/-!
# Participation proofs

The verification of the participation proof of a share: the public inputs are the scalar of the block
hash and the commitment that the share carries.  The proof system and the digest are parameters.
-/

namespace Kerrigan.HMP

open Lib CSealManager
open Primitives

@[irreducible] def scalarModulus : Nat := 0x73eda753299d7d483339d80809a1d80553bda402fffe5bfeffffffff00000001

abbrev Scalar : Type := ZMod scalarModulus

instance : Fact (1 < scalarModulus) := ⟨by unfold scalarModulus; decide⟩

instance : NeZero scalarModulus := ⟨by unfold scalarModulus; decide⟩

def fromRepr (bytes : Uint256) : Option Scalar :=
  if bytes < scalarModulus then some (bytes : Scalar) else none

def scalarToBytes (scalar : Scalar) : Uint256 := scalar.val

@[simp] theorem fromRepr_scalarToBytes (scalar : Scalar) :
    fromRepr (scalarToBytes scalar) = some scalar := by
  unfold fromRepr scalarToBytes
  rw [if_pos (ZMod.val_lt scalar), ZMod.natCast_zmod_val]

/-- What the proofs rest on: the digest, as the number that its 64 bytes are in little endian, the
reader and the verifier of the proof system, and which of its parameters are set. -/
structure ProofSystem where
  sha512 : Uint256 → Nat
  paramsSet : Bool
  vkSet : Bool
  Proof : Type
  read : List Nat → Except String Proof
  verify : Proof → List Scalar → Bool

namespace ProofSystem

variable (system : ProofSystem)

def bytesToScalar (bytes : Uint256) : Scalar := (system.sha512 bytes : Scalar)

def isInitialized : Bool := system.paramsSet && system.vkSet

def hmpVerifyProof (proofBytes : List Nat) (blockHash commitment : Uint256) : Except String Bool := do
  require (system.vkSet = true) "HMP params not initialized"
  let proof ← (system.read proofBytes).mapError ("proof deserialization failed: " ++ ·)
  let blockScalar := system.bytesToScalar blockHash
  match fromRepr commitment with
  | none => .error "invalid commitment scalar representation"
  | some commitmentScalar => return system.verify proof [blockScalar, commitmentScalar]

def verifyProof (proofBytes : List Nat) (blockHash commitment : Uint256) : Bool :=
  match system.hmpVerifyProof proofBytes blockHash commitment with
  | .ok valid => valid
  | .error _ => false

def hmpComputeCommitment (skBytes blockHash chainStateHash : Uint256) : Uint256 :=
  scalarToBytes (computeCommitment mimcConstants (system.bytesToScalar skBytes)
    (system.bytesToScalar blockHash) (system.bytesToScalar chainStateHash))

theorem fromRepr_hmpComputeCommitment (skBytes blockHash chainStateHash : Uint256) :
    fromRepr (system.hmpComputeCommitment skBytes blockHash chainStateHash) =
      some (computeCommitment mimcConstants (system.bytesToScalar skBytes)
        (system.bytesToScalar blockHash) (system.bytesToScalar chainStateHash)) :=
  fromRepr_scalarToBytes _

theorem verifyProof_eq_true {proofBytes : List Nat} {blockHash commitment : Uint256}
    (hverify : system.verifyProof proofBytes blockHash commitment = true) :
    ∃ proof scalar, system.read proofBytes = .ok proof ∧ fromRepr commitment = some scalar ∧
      system.verify proof [system.bytesToScalar blockHash, scalar] = true := by
  unfold verifyProof at hverify
  cases hresult : system.hmpVerifyProof proofBytes blockHash commitment with
  | error reason => simp [hresult] at hverify
  | ok valid =>
    simp only [hresult] at hverify
    rw [hverify] at hresult
    unfold hmpVerifyProof at hresult
    simp only [bind_eq_ok_iff, mapError_eq_ok_iff] at hresult
    obtain ⟨-, -, proof, hread, hscalar⟩ := hresult
    cases hcommitment : fromRepr commitment with
    | none => simp [hcommitment] at hscalar
    | some scalar =>
      rw [hcommitment] at hscalar
      injection hscalar with hscalar
      exact ⟨proof, scalar, hread, rfl, hscalar⟩

theorem verifyProof_of_read {proofBytes : List Nat} {blockHash commitment : Uint256}
    {proof : system.Proof} {scalar : Scalar} (hset : system.vkSet = true)
    (hread : system.read proofBytes = .ok proof) (hscalar : fromRepr commitment = some scalar) :
    system.verifyProof proofBytes blockHash commitment =
      system.verify proof [system.bytesToScalar blockHash, scalar] := by
  unfold verifyProof hmpVerifyProof
  rw [require, if_pos hset, hread, hscalar]
  rfl

end ProofSystem

/-! ## Witnesses of a share -/

def dummyCircuit : HMPCircuit Scalar := ⟨none, none, none⟩

/-- Private inputs that satisfy the constraints for the public inputs that `hmp_verify_proof` derives
from a block hash and a commitment. -/
def IsWitness (system : ProofSystem) (cs : ConstraintSystem Scalar) (blockHash commitment : Uint256)
    (sk chainState : Scalar) : Prop :=
  ∃ scalar, fromRepr commitment = some scalar ∧
    ∃ aux, Satisfies cs sk (system.bytesToScalar blockHash) chainState scalar aux

/-- Every witness of a share is the secret key of its signer and the hash before the session, and no
other block hash has a witness for the commitment. -/
structure BindsWitness (system : ProofSystem) (cs : ConstraintSystem Scalar)
    (secretKey : CBLSPublicKey → Uint256) (share : CSealShare) (session : CSealSession) : Prop where
  inputs : ∀ sk chainState, IsWitness system cs share.blockHash share.commitment sk chainState →
    sk = system.bytesToScalar (secretKey share.signerPubKey) ∧
      chainState = system.bytesToScalar session.prevSealHash
  block : ∀ sk chainState, IsWitness system cs share.blockHash share.commitment sk chainState →
    ∀ blockHash, blockHash ≠ share.blockHash →
      ∀ sk' chainState', ¬ IsWitness system cs blockHash share.commitment sk' chainState'

section Witnesses

variable {gadgets : NumGadgets Scalar} {system : ProofSystem} {cs : ConstraintSystem Scalar}

theorem isWitness_iff (hgadgets : gadgets.Documented)
    (hsynthesize : dummyCircuit.synthesize gadgets mimcConstants { proving := false } = .ok ((), cs))
    {commitment : Uint256} {scalar : Scalar} (hscalar : fromRepr commitment = some scalar)
    (blockHash : Uint256) (sk chainState : Scalar) :
    IsWitness system cs blockHash commitment sk chainState ↔
      scalar = mimcPlain mimcConstants (sk * system.bytesToScalar blockHash + chainState) := by
  unfold IsWitness
  simp only [satisfies_iff hgadgets hsynthesize, hscalar, Option.some.injEq]
  constructor
  · rintro ⟨_, rfl, -, hcommitment, -⟩
    exact hcommitment
  · intro hcommitment
    exact ⟨scalar, rfl, _, hcommitment, rfl⟩

theorem bindsWitness_iff (hgadgets : gadgets.Documented)
    (hsynthesize : dummyCircuit.synthesize gadgets mimcConstants { proving := false } = .ok ((), cs))
    {share : CSealShare} {scalar : Scalar} (hscalar : fromRepr share.commitment = some scalar)
    (secretKey : CBLSPublicKey → Uint256) (session : CSealSession) :
    BindsWitness system cs secretKey share session ↔
      ¬ ∃ mixed, mimcPlain mimcConstants mixed = scalar := by
  constructor
  · rintro hbinds ⟨mixed, hmixed⟩
    let own := system.bytesToScalar (secretKey share.signerPubKey)
    let block := system.bytesToScalar share.blockHash
    -- A secret key other than the signer's, completed by a chain state.
    have hwitness : IsWitness system cs share.blockHash share.commitment (own + 1)
        (mixed - (own + 1) * block) := by
      rw [isWitness_iff hgadgets hsynthesize hscalar, add_sub_cancel, hmixed]
    have hsame : own + 1 = own := (hbinds.inputs _ _ hwitness).1
    exact one_ne_zero (left_eq_add.mp hsame.symm)
  · intro hnone
    have hempty : ∀ sk chainState,
        ¬ IsWitness system cs share.blockHash share.commitment sk chainState := by
      intro sk chainState hwitness
      exact hnone ⟨_, ((isWitness_iff hgadgets hsynthesize hscalar ..).mp hwitness).symm⟩
    exact ⟨fun sk chainState hwitness => absurd hwitness (hempty sk chainState),
      fun sk chainState hwitness => absurd hwitness (hempty sk chainState)⟩

theorem isWitness_move (hgadgets : gadgets.Documented)
    (hsynthesize : dummyCircuit.synthesize gadgets mimcConstants { proving := false } = .ok ((), cs))
    {blockHash commitment : Uint256} {sk chainState : Scalar}
    (hwitness : IsWitness system cs blockHash commitment sk chainState) (blockHash' : Uint256) :
    IsWitness system cs blockHash' commitment sk (sk * system.bytesToScalar blockHash + chainState -
      sk * system.bytesToScalar blockHash') := by
  obtain ⟨scalar, hscalar, -⟩ := id hwitness
  rw [isWitness_iff hgadgets hsynthesize hscalar] at hwitness ⊢
  rw [add_sub_cancel]
  exact hwitness

end Witnesses

theorem verifyProof_of_accepted {context : SealContext} {view : TrackerView} {manager : CSealManager}
    {share : CSealShare} {now : Int} (hproof : share.zkProof ≠ [])
    (haccepted : (manager.addSealShare context view share now).1 = .accepted) :
    context.schemes.verifyProof share.zkProof share.blockHash share.commitment = true := by
  obtain ⟨session, _, -, hchecked, -⟩ := addSealShare_accepted_iff.mp haccepted
  unfold checkShare at hchecked
  simp only [bind_eq_ok_iff, require_eq_ok_iff] at hchecked
  obtain ⟨-, -, -, -, -, -, -, -, -, -, -, -, hzk⟩ := hchecked
  unfold checkZkProof at hzk
  rw [if_pos hproof] at hzk
  simp only [bind_eq_ok_iff, require_eq_ok_iff] at hzk
  obtain ⟨-, -, -, -, hverify⟩ := hzk
  exact hverify

/-- For an accepted share with a proof the witnesses are bound to its signer, its session and its block
if and only if there is none, which is where the commitment is no value of the permutation; a witness for
its block is a witness for any other block with a changed chain state. -/
theorem participation_proof_binds_iff (gadgets : NumGadgets Scalar) (hgadgets : gadgets.Documented)
    (system : ProofSystem) (context : SealContext)
    (hschemes : context.schemes.verifyProof = system.verifyProof) (view : TrackerView)
    (manager : CSealManager) (share : CSealShare) (now : Int) (hproof : share.zkProof ≠ [])
    (haccepted : (manager.addSealShare context view share now).1 = .accepted)
    (secretKey : CBLSPublicKey → Uint256) :
    ∃ session cs scalar, manager.sessions[share.blockHash]? = some session ∧
      dummyCircuit.synthesize gadgets mimcConstants { proving := false } = .ok ((), cs) ∧
      fromRepr share.commitment = some scalar ∧
      (BindsWitness system cs secretKey share session ↔
        ¬ ∃ mixed, mimcPlain mimcConstants mixed = scalar) ∧
      ∀ sk chainState, IsWitness system cs share.blockHash share.commitment sk chainState →
        ∀ blockHash, ∃ chainState', IsWitness system cs blockHash share.commitment sk chainState' := by
  have hverify := verifyProof_of_accepted hproof haccepted
  rw [hschemes] at hverify
  obtain ⟨-, scalar, -, hscalar, -⟩ := system.verifyProof_eq_true hverify
  obtain ⟨-, _, -, -, hinsert⟩ := addSealShare_accepted_iff.mp haccepted
  obtain ⟨session, hsession, -, -⟩ := insertShare_eq_ok hinsert
  obtain ⟨cs, hsynthesize, -, -⟩ :=
    @synthesize_run Scalar _ gadgets mimcConstants dummyCircuit hgadgets false 0 0 0 nofun
  refine ⟨session, cs, scalar, hsession, hsynthesize, hscalar,
    bindsWitness_iff hgadgets hsynthesize hscalar secretKey session, ?_⟩
  intro sk chainState hwitness blockHash
  exact ⟨_, isWitness_move hgadgets hsynthesize hwitness blockHash⟩

namespace Sample

def sha512 (bytes : Uint256) : Nat :=
  if bytes = 7 then
    0x9073d3943f3cf801d5a963ba37a5d632c92b227750311b80325de169a9000085df6dbeab298261f02139087fec3a9bdda938642b9e9c53b24cf7b61141eb631e
  else if bytes = 55 then
    0x2583d0ac9cbcba25a57f11729c27049880f7fb0128cd5d72c2bfbd97a568f6a76b05f0b8f0159aca6775aa70fc7eb9be396d8a85dc5f0b1a31724e66ab8a9c0f
  else if bytes = 101 then
    0xb2515e9fbadfafed3f8d1f6836ac3ca898644e71fbe8a1368d183c2136070f9e6ffcb4a80b0ee57a1078b4fa2305308fb04e0e8cd5f07e35f2ab8f9b790fc2a1
  else if bytes = 102 then
    0xeb8d221a7357c1bb7aa6727d06577ba45a35bb30f2ab6461b6058486d82fcf431384d9c1ea53bc9be00d0e8a4449d1820cd1079403a427099f116357d0f90e67
  else 0

variable (sha512 : Uint256 → Nat)

def honestSystem : ProofSystem where
  sha512 := sha512
  paramsSet := true
  vkSet := true
  Proof := List Nat
  read := .ok
  verify := fun _ inputs => decide (inputs = [(sha512 101 : Scalar),
    computeCommitment mimcConstants (sha512 7 : Scalar) (sha512 101 : Scalar) (sha512 55 : Scalar)])

def provingContext : SealContext where
  params := {}
  oracles := trusting
  schemes := { acceptingSchemes with
    proofInitialized := (honestSystem sha512).isInitialized
    verifyProof := (honestSystem sha512).verifyProof }
  identity := none

def provingSession : CSealSession where
  blockHash := 101
  blockHeight := 1
  startTime := 0
  prevSealHash := 55

def provingManager : CSealManager where
  sessions := Std.ExtTreeMap.empty.insert 101 provingSession
  assembledSeals := ∅
  sealInsertionOrder := []
  heightToHash := ∅
  signedBlocks := ∅

def provenShare : CSealShare where
  blockHash := 101
  signerPubKey := 1
  signature := 1
  algoId := 0
  vrfProof := 1
  zkProof := List.replicate hmpGroth16ProofSize 0
  commitment := (honestSystem sha512).hmpComputeCommitment 7 101 55

theorem provenShare_verified (proofBytes : List Nat) :
    (honestSystem sha512).verifyProof proofBytes 101
      ((honestSystem sha512).hmpComputeCommitment 7 101 55) = true := by
  rw [@ProofSystem.verifyProof_of_read (honestSystem sha512) proofBytes 101 _ proofBytes _ rfl rfl
    (ProofSystem.fromRepr_hmpComputeCommitment ..)]
  simp only [honestSystem, ProofSystem.bytesToScalar, decide_true]

theorem provenShare_accepted :
    (provingManager.addSealShare (provingContext sha512) openView (provenShare sha512) 1000).1 =
      .accepted := by
  have hlookup : provingManager.sessions[(provenShare sha512).blockHash]? = some provingSession := by
    simp [provingManager, provenShare]
  have hsession : provingManager.sessionFor (provingContext sha512) (provenShare sha512) 1000 =
      .ok provingSession := by
    unfold sessionFor
    rfl
  have hinsert : ∃ next, provingManager.insertShare (provenShare sha512) = .ok next := by
    unfold insertShare
    exact ⟨_, rfl⟩
  have hchecked : checkShare (provingContext sha512) openView (provenShare sha512)
      provingSession = .ok () := by
    have hverify := provenShare_verified sha512 (provenShare sha512).zkProof
    have hproof : (provenShare sha512).zkProof ≠ [] := List.cons_ne_nil _ _
    have hvalid : CBLSSignature.IsValid 1 := by decide
    have hselected : isVRFSelected (trusting.vrfOutputHash 1) (getVRFTierMultiplier .elder) := by
      decide
    have hsize : (provenShare sha512).zkProof.length = hmpGroth16ProofSize := List.length_replicate
    have hknown : openView.tierOf (provenShare sha512).signerPubKey (provenShare sha512).algoId ≠
        .unknown := by
      intro htier
      cases htier
    unfold checkShare checkZkProof
    rw [if_pos hproof]
    simp only [bind_eq_ok_iff, require_eq_ok_iff]
    exact ⟨(), rfl, (), hknown, (), rfl, (), hvalid, (), rfl, (), hselected, (), hsize, (), rfl,
      hverify⟩
  obtain ⟨next, hnext⟩ := hinsert
  exact addSealShare_accepted_iff.mpr ⟨provingSession, next, hsession, hchecked, hnext⟩

end Sample

open Sample in
/-- The signer with the secret key 7 proves its share for the block 101. -/
theorem participation_proof_binds_iff_honest :
    ∃ session cs scalar, provingManager.sessions[(101 : Uint256)]? = some session ∧
      dummyCircuit.synthesize (documentedGadgets Scalar) mimcConstants { proving := false } =
        .ok ((), cs) ∧
      fromRepr (provenShare sha512).commitment = some scalar ∧
      (BindsWitness (honestSystem sha512) cs (fun _ => 7) (provenShare sha512) session ↔
        ¬ ∃ mixed, mimcPlain mimcConstants mixed = scalar) ∧
      ∀ sk chainState,
        IsWitness (honestSystem sha512) cs 101 (provenShare sha512).commitment sk chainState →
        ∀ blockHash, ∃ chainState', IsWitness (honestSystem sha512) cs blockHash
          (provenShare sha512).commitment sk chainState' :=
  participation_proof_binds_iff (documentedGadgets Scalar) documentedGadgets_documented
    (honestSystem sha512) (provingContext sha512) rfl openView provingManager (provenShare sha512) 1000
    (List.cons_ne_nil _ _) (provenShare_accepted sha512) (fun _ => 7)

open Sample in
/-- The share of the signer with the secret key 7 is accepted; another secret key is a witness for it, the
block 102 has a witness with its commitment, and its witnesses are not bound. -/
theorem honest_share_not_bound :
    ∃ cs,
      dummyCircuit.synthesize (documentedGadgets Scalar) mimcConstants { proving := false } =
        .ok ((), cs) ∧
      (provingManager.addSealShare (provingContext sha512) openView (provenShare sha512) 1000).1 =
        .accepted ∧
      (∃ sk chainState, sk ≠ (sha512 7 : Scalar) ∧
        IsWitness (honestSystem sha512) cs 101 (provenShare sha512).commitment sk chainState) ∧
      (∃ chainState, IsWitness (honestSystem sha512) cs 102 (provenShare sha512).commitment
        (sha512 7 : Scalar) chainState) ∧
      ¬ BindsWitness (honestSystem sha512) cs (fun _ => 7) (provenShare sha512) provingSession := by
  obtain ⟨cs, hsynthesize, -, -⟩ := @synthesize_run Scalar _ (documentedGadgets Scalar) mimcConstants
    dummyCircuit documentedGadgets_documented false 0 0 0 nofun
  have hscalar := (honestSystem sha512).fromRepr_hmpComputeCommitment 7 101 55
  have hwitness := @isWitness_iff (documentedGadgets Scalar) (honestSystem sha512) cs
    documentedGadgets_documented hsynthesize _ _ hscalar
  have hown : IsWitness (honestSystem sha512) cs 101 (provenShare sha512).commitment
      (sha512 7 : Scalar) (sha512 55 : Scalar) :=
    (hwitness 101 _ _).mpr rfl
  let mixed : Scalar := (sha512 7 : Scalar) * (sha512 101 : Scalar) + (sha512 55 : Scalar)
  have hother : IsWitness (honestSystem sha512) cs 101 (provenShare sha512).commitment
      ((sha512 7 : Scalar) + 1) (mixed - ((sha512 7 : Scalar) + 1) * (sha512 101 : Scalar)) := by
    refine (hwitness 101 _ _).mpr ?_
    exact congrArg (mimcPlain mimcConstants) (add_sub_cancel _ mixed).symm
  refine ⟨cs, hsynthesize, provenShare_accepted sha512, ⟨_, _, ?_, hother⟩,
    ⟨_, isWitness_move documentedGadgets_documented hsynthesize hown 102⟩, ?_⟩
  · exact fun hsame => one_ne_zero (add_eq_left.mp hsame)
  · rw [bindsWitness_iff documentedGadgets_documented hsynthesize hscalar]
    exact not_not_intro ⟨mixed, rfl⟩

end Kerrigan.HMP
