import Kerrigan.HMP.Weight

/-!
# Aligned seal vectors

`FilterSealSigners` with all the vectors that it rewrites.  Each of its two passes selects from
the signers, the algorithms and the proofs at the same indices.
-/

namespace Kerrigan.HMP

open Primitives Consensus CHMPPrivilegeTracker CHMPCommitmentRegistry List

variable (params : Params) (oracles : Oracles) (registry : CHMPCommitmentRegistry)
  (tracker : CHMPPrivilegeTracker) (height : Int) (pindex : Uint256)

section Tests

variable (signer : CBLSPublicKey) (algo : Nat) (proof : Option CBLSSignature)

/-- What the two passes ask of one signer. -/
def passes : Bool :=
  (0 < params.nHMPCommitmentOffset →
    registry.isCommitted params signer (max (height - params.nHMPSealTrailingDepth) 0)) ∧
    tracker.getTier params oracles signer algo pindex ≠ .unknown ∧
    committeeSelects params oracles height proof.isSome
      (tracker.getTier params oracles signer algo pindex) proof

/-- The signer is committed at the sealed height, has a tier on its algorithm and, after the
re-arm, its proof is selected for that tier. -/
def sealKept : Bool :=
  registry.isCommitted params signer (max (height - params.nHMPSealTrailingDepth) 0) &&
    decide (tracker.getTier params oracles signer algo pindex ≠ .unknown ∧
      (params.IsHMPRearmActive height → ∀ sig ∈ proof, isVRFSelected (oracles.vrfOutputHash sig)
        (getVRFTierMultiplier (tracker.getTier params oracles signer algo pindex)) = true))

variable {params signer algo proof} in
theorem passes_eq_sealKept (henabled : 0 < params.nHMPCommitmentOffset) :
    passes params oracles registry tracker height pindex signer algo proof =
      sealKept params oracles registry tracker height pindex signer algo proof := by
  cases proof <;> by_cases hrearm : params.IsHMPRearmActive height <;>
    simp [passes, sealKept, committeeSelects, hrearm, henabled]

end Tests

/-! ## Selection of indices -/

variable {ι : Type} {signer : ι → CBLSPublicKey} {algo : ι → Nat}
  {proof : Option (ι → CBLSSignature)}

def vectorsAt (signer : ι → CBLSPublicKey) (algo : ι → Nat) (proof : Option (ι → CBLSSignature))
    (indices : List ι) : List CBLSPublicKey × List Nat × List CBLSSignature :=
  (indices.map signer, indices.map algo, proof.elim [] indices.map)

theorem filterCommitted_vectorsAt (keep : CBLSPublicKey → Bool) (indices : List ι) :
    let given := vectorsAt signer algo proof indices
    filterCommitted keep given.1 given.2.1 given.2.2 =
      vectorsAt signer algo proof (indices.filter (fun i => keep (signer i))) := by
  induction indices with
  | nil => cases proof <;> rfl
  | cons i rest ih =>
    cases proof <;> cases hkeep : keep (signer i) <;> simp_all [filterCommitted, vectorsAt]

theorem filterPrivileged_vectorsAt (tierOf : CBLSPublicKey → Nat → HMPPrivilegeTier)
    (selected : HMPPrivilegeTier → Option CBLSSignature → Bool) (indices : List ι) :
    let given := vectorsAt signer algo proof indices
    filterPrivileged tierOf selected given.1 given.2.1 given.2.2 =
      vectorsAt signer algo proof (indices.filter (fun i =>
        decide (tierOf (signer i) (algo i) ≠ .unknown) &&
          selected (tierOf (signer i) (algo i)) (proof.map (fun proof => proof i)))) := by
  induction indices with
  | nil => cases proof <;> rfl
  | cons i rest ih =>
    by_cases hkept : tierOf (signer i) (algo i) ≠ .unknown ∧
        selected (tierOf (signer i) (algo i)) (proof.map (fun proof => proof i)) = true
    · cases proof <;> simp_all [filterPrivileged, vectorsAt]
    · cases proof <;> simp_all [filterPrivileged, vectorsAt]

variable (indices : List ι)

theorem commitmentPass_vectorsAt :
    commitmentPass params registry height (vectorsAt signer algo proof indices) =
      vectorsAt signer algo proof (indices.filter (fun i => 0 < params.nHMPCommitmentOffset →
        registry.isCommitted params (signer i)
          (max (height - params.nHMPSealTrailingDepth) 0))) := by
  unfold commitmentPass
  by_cases henabled : 0 < params.nHMPCommitmentOffset
  · cases indices with
    | nil => exact if_neg (fun hsome => hsome.2 rfl)
    | cons i rest =>
      rw [if_pos ⟨henabled, cons_ne_nil _ _⟩, filterCommitted_vectorsAt]
      simp [henabled]
  · rw [if_neg (fun hpass => henabled hpass.1)]
    simp [henabled]

theorem privilegePass_vectorsAt :
    privilegePass params oracles tracker height pindex proof.isSome
        (vectorsAt signer algo proof indices) =
      vectorsAt signer algo proof (indices.filter (fun i =>
        decide (tracker.getTier params oracles (signer i) (algo i) pindex ≠ .unknown) &&
          committeeSelects params oracles height proof.isSome
            (tracker.getTier params oracles (signer i) (algo i) pindex)
            (proof.map (fun proof => proof i)))) := by
  unfold privilegePass
  split
  next => exact filterPrivileged_vectorsAt _ _ indices
  next hskip =>
    rw [map_eq_nil_iff.mp (not_not.mp hskip)]
    rfl

theorem filterSealSigners_map (signer : ι → CBLSPublicKey) (algo : ι → Nat)
    (proof : Option (ι → CBLSSignature)) (indices : List ι) :
    let kept := indices.filter (fun i => passes params oracles registry tracker height pindex
      (signer i) (algo i) (proof.map (fun proof => proof i)))
    filterSealSigners params oracles registry tracker height pindex
        ⟨indices.map signer, indices.map algo, proof.map indices.map⟩ =
      ⟨kept.map signer, kept.map algo, proof.map kept.map⟩ := by
  intro kept
  have hgiven : (indices.map signer, indices.map algo, (proof.map indices.map).getD []) =
      vectorsAt signer algo proof indices := by
    cases proof <;> rfl
  unfold filterSealSigners
  dsimp only
  rw [hgiven, Option.isSome_map, commitmentPass_vectorsAt, privilegePass_vectorsAt,
    filter_filter]
  generalize hselected : indices.filter _ = selected
  have hkept : selected = kept := by
    rw [← hselected]
    refine filter_congr (fun i _ => ?_)
    simp only [passes, Option.isSome_map, Bool.decide_and, Bool.decide_coe]
    exact Bool.and_comm _ _
  rw [hkept]
  cases proof <;> rfl

/-! ## The filter -/

theorem eq_map_range {values : List Nat} {count : Nat} (hlength : values.length = count) :
    values = (range count).map (fun i => values.getD i 0) := by
  subst hlength
  refine ext_getElem (by simp) (fun i hleft _ => ?_)
  simp [hleft]

/-- The three vectors keep the entries at one set of indices, in order: those of the signers that
pass every test.  A second filter changes nothing. -/
theorem filterSealSigners_aligned {params : Params} (oracles : Oracles)
    (registry : CHMPCommitmentRegistry) (tracker : CHMPPrivilegeTracker) (height : Int)
    (pindex : Uint256) (vectors : SealVectors) (henabled : 0 < params.nHMPCommitmentOffset)
    (halgos : vectors.algos.length = vectors.signers.length)
    (hproofs : ∀ proofs ∈ vectors.vrfProofs, proofs.length = vectors.signers.length) :
    let filter := filterSealSigners params oracles registry tracker height pindex
    let kept := (range vectors.signers.length).filter (fun i =>
      sealKept params oracles registry tracker height pindex (vectors.signers.getD i 0)
        (vectors.algos.getD i 0) (vectors.vrfProofs.map (fun proofs => proofs.getD i 0)))
    filter vectors =
        ⟨kept.map (fun i => vectors.signers.getD i 0), kept.map (fun i => vectors.algos.getD i 0),
          vectors.vrfProofs.map (fun proofs => kept.map (fun i => proofs.getD i 0))⟩ ∧
      (filter vectors).algos.length = (filter vectors).signers.length ∧
      (∀ proofs ∈ (filter vectors).vrfProofs, proofs.length = (filter vectors).signers.length) ∧
      filter (filter vectors) = filter vectors := by
  intro filter kept
  obtain ⟨signers, algos, vrfProofs⟩ := vectors
  have hselect := filterSealSigners_map params oracles registry tracker height pindex
    (fun i => signers.getD i 0) (fun i => algos.getD i 0)
    (vrfProofs.map (fun proofs i => proofs.getD i 0))
  simp only [Option.map_map, Function.comp_def, passes_eq_sealKept _ _ _ _ _ henabled] at hselect
  have hgiven : vrfProofs.map (fun proofs => (range signers.length).map
      (fun i => proofs.getD i 0)) = vrfProofs := by
    cases vrfProofs with
    | none => rfl
    | some proofs => rw [Option.map_some, ← eq_map_range (hproofs proofs rfl)]
  have honce := hselect (range signers.length)
  rw [hgiven, ← eq_map_range rfl, ← eq_map_range halgos] at honce
  have hagain := hselect kept
  rw [filter_filter] at hagain
  refine ⟨honce, ?_, ?_, ?_⟩
  · simp [filter, honce]
  · intro proofs hmem
    rw [show filter _ = _ from honce] at hmem ⊢
    obtain ⟨original, -, rfl⟩ := Option.map_eq_some_iff.mp hmem
    simp
  · simp only [Bool.and_self] at hagain
    rw [show filter _ = _ from honce]
    exact hagain

namespace Sample

def sealing : Params := { nHMPCommitmentOffset := 1, nHMPWarmupBlocks := 0 }

def sealedVectors : SealVectors → SealVectors :=
  filterSealSigners sealing trusting (CHMPCommitmentRegistry.empty.commit 1 7)
    (CHMPPrivilegeTracker.cleared.blockConnected sealing ⟨5, 0, 7, [], [], none⟩) 10 0

end Sample

theorem filterSealSigners_aligned_sample :
    Sample.sealedVectors ⟨[8, 7], [1, 0], some [3, 4]⟩ = ⟨[7], [0], some [4]⟩ ∧
      Sample.sealedVectors (Sample.sealedVectors ⟨[8, 7], [1, 0], some [3, 4]⟩) =
        Sample.sealedVectors ⟨[8, 7], [1, 0], some [3, 4]⟩ :=
  ⟨by decide +kernel, (filterSealSigners_aligned _ _ _ _ _ ⟨[8, 7], [1, 0], some [3, 4]⟩
    (by decide) rfl (by simp)).2.2.2⟩

end Kerrigan.HMP
