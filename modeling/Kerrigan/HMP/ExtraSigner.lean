import Kerrigan.HMP.Elders
import Kerrigan.HMP.Multiplier
import Kerrigan.HMP.SealVectors

/-!
# One more signer

The ladder counts the signers that survive the filter, and punishes by the signers that the coinbase
names.  One more surviving signer raises the multiplier and dilutes the unknown signers, so it can
hurt a block only where its seal stops being too thin to be punished.
-/

namespace Kerrigan.HMP

open Primitives Consensus Lib CHMPPrivilegeTracker List CHMPCommitmentRegistry

/-! ## The filter on aligned signers -/

abbrev SealEntry := CBLSPublicKey × Nat × CBLSSignature

def CCbTx.sealEntries (cbTx : CCbTx) : List SealEntry :=
  cbTx.vSealSigners.zip (cbTx.vSealSignerAlgos.zip cbTx.vSealSignerVRFProofs)

def CCbTx.Aligned (cbTx : CCbTx) : Prop :=
  cbTx.vSealSignerAlgos.length = cbTx.vSealSigners.length ∧
    cbTx.vSealSignerVRFProofs.length = cbTx.vSealSigners.length

theorem aligned_of_checkCbTx {params : Params} {oracles : Oracles} {height : Int} {cbTx : CCbTx}
    (hrearm : params.IsHMPRearmActive height)
    (hcheck : checkCbTx params oracles height cbTx = .ok ()) :
    CCbTx.hmpRearm ≤ cbTx.nVersion ∧ cbTx.Aligned := by
  simp only [checkCbTx, bind_eq_ok_iff, require_eq_ok_iff] at hcheck
  obtain ⟨_, -, _, -, _, -, _, hversion, _, hparity, _, -, hlate⟩ := hcheck
  have hlatest : CCbTx.hmpRearm ≤ cbTx.nVersion := hversion.mp hrearm
  rw [if_pos hlatest, bind_eq_ok_iff] at hlate
  obtain ⟨_, hproofs, -⟩ := hlate
  exact ⟨hlatest, hparity.symm, require_eq_ok_iff.mp hproofs⟩

/-- The test that `FilterSealSigners` makes of one signer from the re-arm height on. -/
def survives (params : Params) (oracles : Oracles) (registry : CHMPCommitmentRegistry)
    (tracker : CHMPPrivilegeTracker) (height : Int) (pindex : Uint256) (entry : SealEntry) : Bool :=
  (0 < params.nHMPCommitmentOffset →
      registry.isCommitted params entry.1 (max (height - params.nHMPSealTrailingDepth) 0)) ∧
    tracker.getTier params oracles entry.1 entry.2.1 pindex ≠ .unknown ∧
    isVRFSelected (oracles.vrfOutputHash entry.2.2)
      (getVRFTierMultiplier (tracker.getTier params oracles entry.1 entry.2.1 pindex))

variable {params : Params} {oracles : Oracles} {registry : CHMPCommitmentRegistry}
  {tracker : CHMPPrivilegeTracker} {height : Int} {first second : Uint256}

theorem filterSealSigners_entries (hrearm : params.IsHMPRearmActive height) (pindex : Uint256)
    (entries : List SealEntry) :
    let kept := entries.filter (survives params oracles registry tracker height pindex)
    filterSealSigners params oracles registry tracker height pindex
        ⟨entries.map Prod.fst, entries.map (fun entry => entry.2.1),
          some (entries.map (fun entry => entry.2.2))⟩ =
      ⟨kept.map Prod.fst, kept.map (fun entry => entry.2.1),
        some (kept.map (fun entry => entry.2.2))⟩ := by
  intro kept
  have hsurvives : ∀ entry : SealEntry, passes params oracles registry tracker height pindex
      entry.1 entry.2.1 (some entry.2.2) =
        survives params oracles registry tracker height pindex entry := by
    intro entry
    simp [passes, survives, committeeSelects, hrearm]
  have hmap := filterSealSigners_map params oracles registry tracker height pindex Prod.fst
    (fun entry : SealEntry => entry.2.1) (some (fun entry => entry.2.2)) entries
  simpa only [Option.map_some, hsurvives] using hmap

theorem CCbTx.Aligned.lists {cbTx : CCbTx} (haligned : cbTx.Aligned) :
    cbTx.sealEntries.map Prod.fst = cbTx.vSealSigners ∧
      cbTx.sealEntries.map (fun entry => entry.2.1) = cbTx.vSealSignerAlgos ∧
      cbTx.sealEntries.map (fun entry => entry.2.2) = cbTx.vSealSignerVRFProofs := by
  obtain ⟨halgos, hproofs⟩ := haligned
  have hpairs : (cbTx.vSealSignerAlgos.zip cbTx.vSealSignerVRFProofs).length =
      cbTx.vSealSigners.length := by
    rw [length_zip, halgos, hproofs, Nat.min_self]
  have hsecond : ∀ {β : Type} (project : Nat × CBLSSignature → β),
      cbTx.sealEntries.map (fun entry => project entry.2) =
        (cbTx.vSealSignerAlgos.zip cbTx.vSealSignerVRFProofs).map project := by
    intro β project
    rw [← map_snd_zip hpairs.le, map_map]
    rfl
  refine ⟨map_fst_zip hpairs.ge, ?_, ?_⟩
  · rw [hsecond Prod.fst]
    exact map_fst_zip (by omega)
  · rw [hsecond Prod.snd]
    exact map_snd_zip (by omega)

theorem countedSigners_entries (hrearm : params.IsHMPRearmActive height) {cbTx : CCbTx}
    (hcheck : checkCbTx params oracles height cbTx = .ok ()) (hseal : cbTx.HasSeal)
    (block : HMPBlock) :
    countedSigners params oracles registry tracker block height cbTx =
      ((cbTx.sealEntries.filter
          (survives params oracles registry tracker height block.hash)).map Prod.fst,
        (cbTx.sealEntries.filter
          (survives params oracles registry tracker height block.hash)).map
            (fun entry => entry.2.1)) := by
  obtain ⟨hversion, haligned⟩ := aligned_of_checkCbTx hrearm hcheck
  obtain ⟨hsigners, halgos, hproofs⟩ := haligned.lists
  have hkept := @filterSealSigners_entries params oracles registry tracker height hrearm block.hash
    cbTx.sealEntries
  rw [hsigners, halgos, hproofs] at hkept
  unfold countedSigners
  rw [if_pos hseal, if_pos hversion, hkept]

/-! ## The masternode list -/

section

variable (hbrood : ∀ key,
  oracles.isBroodNodeOperator key first = oracles.isBroodNodeOperator key second)

include hbrood

theorem getTier_of_operators (key : CBLSPublicKey) (algo : Nat) :
    tracker.getTier params oracles key algo first = tracker.getTier params oracles key algo second := by
  unfold getTier
  simp only [hbrood]

theorem survives_of_operators {registry : CHMPCommitmentRegistry} {height : Int} :
    survives params oracles registry tracker height first =
      survives params oracles registry tracker height second := by
  unfold survives
  simp only [getTier_of_operators hbrood]

theorem pairsMultiplier_of_operators (blockAlgo : Nat) (pairs : List (CBLSPublicKey × Nat)) :
    pairsMultiplier params oracles tracker blockAlgo first pairs =
      pairsMultiplier params oracles tracker blockAlgo second pairs := by
  unfold pairsMultiplier computeSealMultiplier
  simp only [getTier_of_operators hbrood]

end

/-! ## Unknown signers -/

theorem unknownSigners_cons {key : CBLSPublicKey} {algo : Nat} {pindex : Uint256}
    (htier : tracker.getTier params oracles key algo pindex ≠ .unknown)
    (signers : List CBLSPublicKey) :
    unknownSigners params tracker (key :: signers) = unknownSigners params tracker signers := by
  have hmem := getTier_ne_unknown_iff.mp htier
  have halgo : algo < numAlgos := by
    by_contra habove
    unfold getPrivilegedSet at hmem
    rw [if_neg habove] at hmem
    cases hmem
  refine countP_cons_of_neg ?_
  rw [decide_eq_true_eq, not_not]
  exact mem_flatMap.mpr ⟨algo, mem_range.mpr halgo, hmem⟩

theorem evaluateMannequinPenalty_cons {key : CBLSPublicKey} {algo : Nat} {pindex : Uint256}
    (htier : tracker.getTier params oracles key algo pindex ≠ .unknown)
    {signers : List CBLSPublicKey} (hsome : signers ≠ []) :
    evaluateMannequinPenalty params tracker signers ≤
      evaluateMannequinPenalty params tracker (key :: signers) := by
  have hdilute : unknownSigners params tracker signers * 10000 / (signers.length + 1) ≤
      unknownSigners params tracker signers * 10000 / signers.length :=
    Nat.div_le_div_left (Nat.le_succ _) (length_pos_iff.mpr hsome)
  unfold evaluateMannequinPenalty
  rw [if_neg hsome, if_neg (cons_ne_nil _ _), unknownSigners_cons htier, length_cons]
  split
  · split <;> omega
  · rw [if_neg (by omega)]

theorem evaluateMannequinPenalty_perm {signers others : List CBLSPublicKey}
    (hperm : signers.Perm others) :
    evaluateMannequinPenalty params tracker signers =
      evaluateMannequinPenalty params tracker others := by
  have hempty : signers = [] ↔ others = [] := by
    rw [← length_eq_zero_iff, ← length_eq_zero_iff, hperm.length_eq]
  unfold evaluateMannequinPenalty unknownSigners
  simp only [hempty, hperm.countP_eq, hperm.length_eq]

/-! ## The ladder -/

variable {counted more : List SealEntry} {raw rawMore : List CBLSPublicKey} {signer : SealEntry}

def ladderWeight (params : Params) (oracles : Oracles) (tracker : CHMPPrivilegeTracker)
    (counted : List SealEntry) (raw : List CBLSPublicKey) (sealedAlgo : Nat) (pindex : Uint256) :
    Nat :=
  rearmWeight params oracles tracker (counted.map Prod.fst)
    (counted.map (fun entry => entry.2.1)) raw sealedAlgo pindex

theorem ladderWeight_of_two_le (htwo : 2 ≤ counted.length) (sealedAlgo : Nat) (pindex : Uint256) :
    ladderWeight params oracles tracker counted raw sealedAlgo pindex =
      min (pairsMultiplier params oracles tracker sealedAlgo pindex
            (counted.map (fun entry => (entry.1, entry.2.1))))
          (if tracker.isPenaltyArmed params sealedAlgo then 15000 else 12000) *
        evaluateMannequinPenalty params tracker raw / 10000 := by
  have hlength : 2 ≤ (counted.map Prod.fst).length := by rwa [length_map]
  unfold ladderWeight pairsMultiplier
  rw [rearmWeight_of_two_le params oracles tracker hlength, map_map, map_map]
  rfl

theorem ladderWeight_punished (htwo : 2 ≤ counted.length) (sealedAlgo : Nat) (pindex : Uint256) :
    ladderWeight params oracles tracker counted raw sealedAlgo pindex < 10000 ↔
      evaluateMannequinPenalty params tracker raw = 1000 := by
  rw [ladderWeight_of_two_le htwo]
  have hlow := le_computeSealMultiplier params oracles tracker
    ((counted.map (fun entry => (entry.1, entry.2.1))).map Prod.fst)
    ((counted.map (fun entry => (entry.1, entry.2.1))).map Prod.snd) sealedAlgo pindex
  change 10000 ≤ pairsMultiplier params oracles tracker sealedAlgo pindex _ at hlow
  have hcap : 12000 ≤ (if tracker.isPenaltyArmed params sealedAlgo then 15000 else 12000) ∧
      (if tracker.isPenaltyArmed params sealedAlgo then 15000 else 12000) ≤ 15000 := by
    split <;> omega
  rcases evaluateMannequinPenalty_cases params tracker raw with ⟨hpenalty, -⟩ | ⟨hpenalty, -⟩
  · rw [hpenalty]
    omega
  · rw [hpenalty]
    omega

/-- One more surviving signer lowers the weight exactly when it is the second one and the signers
are punished. -/
theorem ladderWeight_extra
    (hbrood : ∀ key, oracles.isBroodNodeOperator key second = oracles.isBroodNodeOperator key first)
    (hmore : more.Perm (signer :: counted)) (hraw : rawMore.Perm (signer.1 :: raw))
    (hnamed : counted ≠ [] → raw ≠ [])
    (htier : tracker.getTier params oracles signer.1 signer.2.1 first ≠ .unknown)
    (sealedAlgo : Nat) :
    ladderWeight params oracles tracker more rawMore sealedAlgo second <
        ladderWeight params oracles tracker counted raw sealedAlgo first ↔
      counted.length = 1 ∧ evaluateMannequinPenalty params tracker rawMore = 1000 := by
  have hlength : more.length = counted.length + 1 := by
    rw [hmore.length_eq, length_cons]
  rcases Nat.lt_trichotomy counted.length 1 with hnone | hone | hmany
  · have hempty : counted = [] := length_eq_zero_iff.mp (by omega)
    subst hempty
    have hunsealed := unsealedWeight_cases params tracker sealedAlgo
    obtain ⟨only, rfl⟩ := length_eq_one_iff.mp hlength
    change 10000 < unsealedWeight params tracker sealedAlgo ↔ _
    refine iff_of_false (by omega) (by simp)
  · obtain ⟨only, rfl⟩ := length_eq_one_iff.mp hone
    have hthin : ladderWeight params oracles tracker [only] raw sealedAlgo first = 10000 := rfl
    rw [hthin, ladderWeight_punished (by omega)]
    exact (and_iff_right rfl).symm
  · refine iff_of_false (Nat.not_lt.mpr ?_) (fun hboth => by omega)
    have hsome : raw ≠ [] := hnamed (ne_nil_of_length_pos (by omega))
    have hpairs : (counted.map (fun entry => (entry.1, entry.2.1))).Subperm
        (more.map (fun entry => (entry.1, entry.2.1))) :=
      ((sublist_cons_self signer counted).map _).subperm.trans (hmore.symm.map _).subperm
    rw [ladderWeight_of_two_le (by omega), ladderWeight_of_two_le (by omega),
      pairsMultiplier_of_operators hbrood, evaluateMannequinPenalty_perm hraw]
    refine Nat.div_le_div_right (Nat.mul_le_mul ?_ ?_)
    · exact min_le_min (pairsMultiplier_le params oracles tracker sealedAlgo first hpairs) le_rfl
    · exact evaluateMannequinPenalty_cons htier hsome

/-! ## Blocks -/

/-- From the re-arm height on one more distinct signer that survives the filter lowers the weight of
a block exactly when seals count, one signer survived before, and more than half of the signers that
the coinbase then names are privileged on no algorithm. -/
theorem extra_signer_lowers_iff (params : Params) (oracles : Oracles)
    (registry : CHMPCommitmentRegistry) (tracker : CHMPPrivilegeTracker) (block other : HMPBlock)
    (parent : Chain) (cbTx more : CCbTx) (signer : SealEntry)
    (hrearm : params.IsHMPRearmActive (parent.height + 1))
    (hpayload : block.hmpPayload = some cbTx) (hother : other.hmpPayload = some more)
    (halgo : other.algo = block.algo)
    (hbrood : ∀ key, oracles.isBroodNodeOperator key other.hash =
      oracles.isBroodNodeOperator key block.hash)
    (hcheck : checkCbTx params oracles (parent.height + 1) cbTx = .ok ())
    (hcheckMore : checkCbTx params oracles (parent.height + 1) more = .ok ())
    (hseal : cbTx.HasSeal) (hadds : more.sealEntries.Perm (signer :: cbTx.sealEntries))
    (hdistinct : signer.1 ∉ cbTx.vSealSigners)
    (hsurvives : signer.1 ∈
      (countedSigners params oracles registry tracker other (parent.height + 1) more).1) :
    (blockVerdict params oracles registry tracker other parent).weight <
        (blockVerdict params oracles registry tracker block parent).weight ↔
      (params.IsHMPActive (parent.height + 1) ∧ 3 ≤ params.getHMPStage (parent.height + 1)) ∧
        (countedSigners params oracles registry tracker block (parent.height + 1)
          cbTx).1.length = 1 ∧
        5000 < unknownSigners params tracker more.vSealSigners * 10000 /
          more.vSealSigners.length := by
  obtain ⟨-, haligned⟩ := aligned_of_checkCbTx hrearm hcheck
  obtain ⟨-, halignedMore⟩ := aligned_of_checkCbTx hrearm hcheckMore
  have hsealMore : more.HasSeal := by
    by_contra hnone
    rw [countedSigners, if_neg hnone] at hsurvives
    cases hsurvives
  have hraw : more.vSealSigners.Perm (signer.1 :: cbTx.vSealSigners) := by
    rw [← haligned.lists.1, ← halignedMore.lists.1]
    exact hadds.map Prod.fst
  have hpenalty : evaluateMannequinPenalty params tracker more.vSealSigners = 1000 ↔
      5000 < unknownSigners params tracker more.vSealSigners * 10000 /
        more.vSealSigners.length := by
    have hsome : more.vSealSigners ≠ [] := by
      intro hempty
      rw [hempty] at hraw
      exact absurd hraw (not_perm_nil_cons _ _)
    unfold evaluateMannequinPenalty
    split <;> simp [*]
  rw [weight_blockVerdict hpayload hrearm, weight_blockVerdict hother hrearm,
    weighedAlgo_of_algo halgo, countedSigners_entries hrearm hcheck hseal]
  rw [countedSigners_entries hrearm hcheckMore hsealMore, survives_of_operators hbrood] at hsurvives ⊢
  have hpasses : survives params oracles registry tracker (parent.height + 1) block.hash signer := by
    obtain ⟨found, hfound, hkey⟩ := mem_map.mp hsurvives
    obtain ⟨hmem, hpasses⟩ := mem_filter.mp hfound
    rcases mem_cons.mp (hadds.mem_iff.mp hmem) with rfl | hold
    · exact hpasses
    · refine absurd ?_ hdistinct
      rw [← haligned.lists.1, ← hkey]
      exact mem_map_of_mem hold
  by_cases hseals : params.IsHMPActive (parent.height + 1) ∧
      3 ≤ params.getHMPStage (parent.height + 1)
  · have hcounted := hadds.filter (survives params oracles registry tracker (parent.height + 1)
      block.hash)
    rw [filter_cons_of_pos hpasses] at hcounted
    have hnamed : cbTx.sealEntries.filter (survives params oracles registry tracker
        (parent.height + 1) block.hash) ≠ [] → cbTx.vSealSigners ≠ [] := by
      intro hsome hempty
      rw [← haligned.lists.1, map_eq_nil_iff] at hempty
      rw [hempty] at hsome
      exact hsome rfl
    have hextra := ladderWeight_extra hbrood hcounted hraw hnamed (of_decide_eq_true hpasses).2.1
      (weighedAlgo params block parent)
    rw [if_pos hseals, if_pos hseals, and_iff_right hseals, ← hpenalty, length_map]
    exact hextra
  · rw [if_neg hseals, if_neg hseals]
    exact iff_of_false (Nat.lt_irrefl _) (fun hboth => hseals hboth.1)

namespace Sample

def thinSeal : CCbTx where
  nVersion := 6
  minerIdentity := 1
  minerIdentitySig := 1
  sealForAncestor := 1
  sealBlockHash := 11
  vSealSigners := [1, 3, 4, 5]
  vSealSignerAlgos := [0, 0, 0, 0]
  vSealSignerVRFProofs := [1, 1, 1, 1]

def joinedSeal : CCbTx :=
  { thinSeal with
    sealForAncestor := 2
    vSealSigners := [1, 2, 3, 4, 5]
    vSealSignerAlgos := [0, 0, 0, 0, 0]
    vSealSignerVRFProofs := [1, 1, 1, 1, 1] }

def thinBlock : HMPBlock := ⟨13, 0, .special (some thinSeal), some []⟩

def joinedBlock : HMPBlock := ⟨14, 0, .special (some joinedSeal), some []⟩

end Sample

open Sample in
theorem extra_signer_lowers_iff_joined :
    5000 < unknownSigners ladderParams ladderTracker joinedSeal.vSealSigners * 10000 /
        joinedSeal.vSealSigners.length ∧
      (blockVerdict ladderParams trusting .empty ladderTracker joinedBlock ladderChain).weight <
        (blockVerdict ladderParams trusting .empty ladderTracker thinBlock ladderChain).weight := by
  have hmannequins : 5000 < unknownSigners ladderParams ladderTracker joinedSeal.vSealSigners *
      10000 / joinedSeal.vSealSigners.length := by
    decide +kernel
  have hlowers := extra_signer_lowers_iff ladderParams trusting .empty ladderTracker thinBlock
    joinedBlock ladderChain thinSeal joinedSeal (2, 0, 1) (by decide) (by decide) (by decide) rfl
    (fun _ => rfl) (by decide +kernel) (by decide +kernel) (by decide)
    (Perm.swap _ _ _) (by decide) (by decide +kernel)
  exact ⟨hmannequins, hlowers.mpr ⟨by decide, by decide +kernel, hmannequins⟩⟩

open Sample in
/-- Both blocks pass the checks, the key 2 is distinct and survives, and the block with its signature
weighs a tenth of the one without. -/
theorem extra_signer_lowers_weight :
    checkBlock ladderParams trusting thinBlock ladderChain = .ok () ∧
      checkBlock ladderParams trusting joinedBlock ladderChain = .ok () ∧
      2 ∉ thinSeal.vSealSigners ∧
      2 ∈ (countedSigners ladderParams trusting .empty ladderTracker joinedBlock 3 joinedSeal).1 ∧
      (blockVerdict ladderParams trusting .empty ladderTracker thinBlock ladderChain).weight =
        10000 ∧
      (blockVerdict ladderParams trusting .empty ladderTracker joinedBlock ladderChain).weight =
        1000 := by
  decide +kernel

end Kerrigan.HMP
