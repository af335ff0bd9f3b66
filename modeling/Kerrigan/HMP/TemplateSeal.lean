import Kerrigan.HMP.Connect
import Kerrigan.HMP.SealPhases

/-!
# The ancestor that a template seals

`GetSealForTemplate` looks up the block at the sealed height in the index of heights, which blocks and
relayed seals write, and not in the active chain.  The template seals the right ancestor as long as the
index agrees with the chain up to the tip.
-/

namespace Kerrigan.HMP

open Primitives Consensus Lib CSealManager Chain

/-! ## Templates -/

/-- The seal fields that `CreateNewBlock` writes.  From the re-arm height on a seal without one
committee proof per signer is left out. -/
def embedSeal (params : Params) (nHeight : Int) (cbTx : CCbTx) (assembled : CAssembledSeal) :
    CCbTx :=
  if params.IsHMPRearmActive nHeight ∧ assembled.vrfProofs.length ≠ assembled.signers.length then
    { cbTx with
      sealForAncestor := 0
      sealBlockHash := 0
      vSealSigners := []
      vSealSignerAlgos := []
      vSealSignerVRFProofs := [] }
  else
    { cbTx with
      sealForAncestor := assembled.aggregatedSig
      sealBlockHash := assembled.blockHash
      vSealSigners := assembled.signers
      vSealSignerAlgos := assembled.signerAlgos
      vSealSignerVRFProofs := assembled.vrfProofs }

/-- The payload of the next block: the seal that the manager finds is written into a payload whose seal
fields are unset.  `sealing` is the state of the spork. -/
def templatePayload (context : SealContext) (state : SealPhases) (sealing : Bool)
    (cbTx : CCbTx) : CCbTx :=
  let nHeight := state.chain.height + 1
  if context.params.V20Height ≤ nHeight ∧ context.params.IsHMPActive nHeight ∧ sealing then
    match state.manager.getSealForTemplate context nHeight with
    | none => cbTx
    | some assembled => embedSeal context.params nHeight cbTx assembled
  else cbTx

/-- The seal for the next block is for its ancestor, and the block is not rejected for a seal of another
block. -/
structure SealsAncestor (context : SealContext) (state : SealPhases) : Prop where
  ancestor : ∀ assembled ∈ state.manager.getSealForTemplate context (state.chain.height + 1),
    ∃ block ∈ state.chain.getAncestor
        (state.chain.height + 1 - context.params.nHMPSealTrailingDepth),
      block.hash = assembled.blockHash
  accepted : ∀ (sealing : Bool) (cbTx : CCbTx) (block : HMPBlock), ¬ cbTx.HasSeal →
    block.coinbase = .special (some (templatePayload context state sealing cbTx)) →
    checkBlock context.params context.oracles block state.chain ≠
      .error "bad-seal-wrong-ancestor"

section Templates

variable {params : Params} {oracles : Oracles}

theorem checkMinerIdentity_failsWith (block : HMPBlock) (parent : Chain) (cbTx : CCbTx) :
    FailsWith (· ≠ "bad-seal-wrong-ancestor")
      (checkMinerIdentity params oracles block parent cbTx) := by
  refine .bind (.require (by simp)) fun _ => ?_
  split
  · exact .require (by simp)
  · exact .ok _

variable {cbTx : CCbTx}

theorem checkSeal_failsWith {chain : Chain}
    (hancestor : cbTx.HasSeal → 0 ≤ chain.height - params.nHMPSealTrailingDepth →
      ∃ ancestor ∈ chain.getAncestor (chain.height - params.nHMPSealTrailingDepth),
        ancestor.hash = cbTx.sealBlockHash) :
    FailsWith (· ≠ "bad-seal-wrong-ancestor") (checkSeal params oracles chain cbTx) := by
  unfold checkSeal
  split
  · rename_i hseal
    refine .bind (.require_of (hancestor hseal)) fun _ => ?_
    refine .bind (.require (by simp)) fun _ => ?_
    split
    · refine .bind (.require (by simp)) fun _ => ?_
      split
      · exact .bind (.require (by simp)) fun _ => .require (by simp)
      · exact .ok _
    · exact .ok _
  · exact .require (by simp)

theorem checkBlock_failsWith {block : HMPBlock} {parent : Chain}
    (hpayload : block.coinbase = .special (some cbTx))
    (hancestor : cbTx.HasSeal → 0 ≤ parent.height + 1 - params.nHMPSealTrailingDepth →
      ∃ ancestor ∈ getAncestor (block :: parent)
          (parent.height + 1 - params.nHMPSealTrailingDepth),
        ancestor.hash = cbTx.sealBlockHash) :
    FailsWith (· ≠ "bad-seal-wrong-ancestor") (checkBlock params oracles block parent) := by
  unfold checkBlock
  split
  · exact .ok _
  · split
    · exact .ok _
    · rename_i found hfound
      refine .bind (checkMinerIdentity_failsWith block parent found) fun _ => ?_
      refine .bind (.require (by simp)) fun _ => ?_
      split
      · refine checkSeal_failsWith ?_
        simp only [HMPBlock.hmpPayload, hpayload] at hfound
        split at hfound
        · rename_i hversion
          rw [← Option.some.inj hfound, height_cons]
          simpa only [CCbTx.HasSeal, CCbTx.atVersion, CCbTx.since_of_le hversion] using hancestor
        · cases hfound
      · exact .ok _

theorem templatePayload_sealBlockHash {context : SealContext} {state : SealPhases} {sealing : Bool}
    (hunset : ¬ cbTx.HasSeal) (hseal : (templatePayload context state sealing cbTx).HasSeal) :
    ∃ assembled ∈ state.manager.getSealForTemplate context (state.chain.height + 1),
      (templatePayload context state sealing cbTx).sealBlockHash = assembled.blockHash := by
  unfold templatePayload at hseal ⊢
  dsimp only at hseal ⊢
  split at hseal
  · rename_i hactive
    rw [if_pos hactive]
    split at hseal
    · exact absurd hseal hunset
    · rename_i assembled hfound
      refine ⟨assembled, hfound, ?_⟩
      unfold embedSeal at hseal ⊢
      split at hseal
      · exact absurd rfl hseal.1
      · rename_i hproofs
        rw [if_neg hproofs]
  · exact absurd hseal hunset

theorem sealsAncestor_of_ancestor {context : SealContext} {state : SealPhases}
    (hancestor : ∀ assembled ∈ state.manager.getSealForTemplate context (state.chain.height + 1),
      ∃ block ∈ state.chain.getAncestor
          (state.chain.height + 1 - context.params.nHMPSealTrailingDepth),
        block.hash = assembled.blockHash) : SealsAncestor context state where
  ancestor := hancestor
  accepted := by
    intro sealing cbTx block hunset hcoinbase herror
    refine checkBlock_failsWith hcoinbase ?_ _ herror rfl
    intro hseal _
    obtain ⟨assembled, hfound, hhash⟩ := templatePayload_sealBlockHash hunset hseal
    obtain ⟨ancestor, hblock, hsame⟩ := hancestor assembled hfound
    exact ⟨ancestor, getAncestor_of_parent hblock, hsame.trans hhash.symm⟩

end Templates

/-! ## The index of heights -/

/-- The index of heights agrees with the chain up to the tip. -/
def Aligned (state : SealPhases) : Prop :=
  ∀ (height : Int) (hash : Uint256), state.manager.heightToHash[height]? = some hash →
    height ≤ state.chain.height → ∃ block ∈ state.chain.getAncestor height, block.hash = hash

/-- The step leaves the index in agreement with the chain: a relayed seal that is committed is still for
the block of the chain at its height, and the height of a block that is connected is not mapped to
another block. -/
def KeepsAligned (heightOf : Uint256 → Int) (state : SealPhases) : PhaseAction → Prop
  | .connect block =>
      state.Extends heightOf block →
        ∀ hash ∈ state.manager.heightToHash[state.chain.height + 1]?, hash = block.hash
  | .finish true =>
      ∀ block ∈ state.connecting,
        ∀ hash ∈ state.manager.heightToHash[state.chain.height + 1]?, hash = block.hash
  | .commitRelay assembled height =>
      (assembled, height) ∈ state.pending → height ≤ state.chain.height →
        ∃ block ∈ state.chain.getAncestor height, block.hash = assembled.blockHash
  | _ => True

section Aligned

variable {context : SealContext} {heightOf : Uint256 → Int} {state : SealPhases} {next : SealPhases}

theorem Aligned.of_lookup (haligned : Aligned state) (hchain : next.chain = state.chain)
    (hlookup : ∀ (height : Int) (hash : Uint256),
      next.manager.heightToHash[height]? = some hash →
      state.manager.heightToHash[height]? = some hash ∨
        (height ≤ state.chain.height →
          ∃ block ∈ state.chain.getAncestor height, block.hash = hash)) : Aligned next := by
  intro height hash hfound hle
  rw [hchain] at hle ⊢
  rcases hlookup height hash hfound with hold | hnew
  · exact haligned height hash hold hle
  · exact hnew hle

theorem Aligned.of_heights (haligned : Aligned state) (hchain : next.chain = state.chain)
    (hheights : next.manager.heightToHash = state.manager.heightToHash) : Aligned next := by
  refine haligned.of_lookup hchain ?_
  intro height hash hfound
  rw [hheights] at hfound
  exact Or.inl hfound

variable {hash : Uint256} {height : Int}

theorem Aligned.onNewBlock (haligned : Aligned state) (hchain : next.chain = state.chain)
    {prevSealHash : Uint256} {now : Int}
    (hmanager : next.manager = state.manager.onNewBlock hash height prevSealHash now)
    (hplace : height ≤ state.chain.height →
      ∃ block ∈ state.chain.getAncestor height, block.hash = hash) : Aligned next := by
  refine haligned.of_lookup hchain ?_
  intro found other hfound
  rw [hmanager] at hfound
  unfold CSealManager.onNewBlock at hfound
  split at hfound
  · exact Or.inl hfound
  · rcases getElem?_insert_cases hfound with ⟨rfl, rfl⟩ | ⟨-, hbefore⟩
    · exact Or.inr hplace
    · exact Or.inl hbefore

theorem Aligned.extend (haligned : Aligned state) {block : HMPBlock}
    (hmapped : ∀ hash ∈ state.manager.heightToHash[state.chain.height + 1]?, hash = block.hash)
    (hchain : next.chain = block :: state.chain) (hmanager : next.manager = state.manager) :
    Aligned next := by
  intro height hash hfound hle
  rw [hmanager] at hfound
  rw [hchain, height_cons] at hle
  rw [hchain]
  by_cases htip : height = state.chain.height + 1
  · subst htip
    refine ⟨block, ?_, (hmapped hash hfound).symm⟩
    rw [getAncestor_cons, if_pos rfl]
    rfl
  · obtain ⟨found, hblock, hhash⟩ := haligned height hash hfound (by omega)
    exact ⟨found, getAncestor_of_parent hblock, hhash⟩

theorem Aligned.disconnect (haligned : Aligned state) {tip : HMPBlock} {parent : Chain}
    (hchain : state.chain = tip :: parent) : Aligned (state.withoutTip tip parent) := by
  intro height hash hfound hle
  simp only [SealPhases.withoutTip, blockDisconnected] at hfound hle ⊢
  rw [getElem?_erase_eq] at hfound
  split at hfound
  · cases hfound
  · rename_i hother
    obtain ⟨block, hblock, hhash⟩ := haligned height hash hfound (by
      rw [hchain, height_cons]
      omega)
    rw [hchain, getAncestor_cons, if_neg (Ne.symm hother)] at hblock
    exact ⟨block, hblock, hhash⟩

theorem workerRound_lookup {manager : CSealManager} {now : Int}
    (hfound : (manager.workerRound context now).heightToHash[height]? = some hash) :
    manager.heightToHash[height]? = some hash := by
  simp only [workerRound, cleanupStaleSessions] at hfound
  rw [getElem?_trimLowest] at hfound
  split at hfound
  · cases hfound
  · rw [(foldl_assembleSession manager manager.sessions.toList).2.2] at hfound
    exact hfound

theorem addAssembledSeal_lookup {manager : CSealManager} {assembled : CAssembledSeal} {found : Int}
    (hfound : (manager.addAssembledSeal context assembled height).2.heightToHash[found]? =
      some hash) :
    manager.heightToHash[found]? = some hash ∨ (found = height ∧ hash = assembled.blockHash) := by
  rcases addAssembledSeal_cases context manager assembled height with hsame | ⟨-, -, -, -, hstored⟩
  · rw [hsame] at hfound
    exact Or.inl hfound
  · rw [hstored] at hfound
    rcases getElem?_insert_cases (foldl_forgetHeight_lookup hfound) with ⟨rfl, rfl⟩ | ⟨-, hbefore⟩
    · exact Or.inr ⟨rfl, rfl⟩
    · exact Or.inl hbefore

theorem Aligned.step (haligned : Aligned state) {action : PhaseAction}
    (hkeeps : KeepsAligned heightOf state action)
    (hstep : PhaseStep context heightOf state action next) : Aligned next := by
  cases hstep with
  | unchanged => exact haligned
  | connected block hextends => exact haligned.extend (hkeeps hextends) rfl rfl
  | announced block prevSealHash now hextends =>
    refine haligned.onNewBlock rfl rfl ?_
    intro hle
    omega
  | shareReturned view block share hconnecting hshare =>
    exact haligned.of_heights rfl (signBlock_sameStore context view _ _ _).2.2
  | noShare view block hconnecting =>
    exact haligned.of_heights rfl (signBlock_sameStore context view _ _ _).2.2
  | accepted block hconnecting => exact haligned.extend (hkeeps block hconnecting) rfl rfl
  | rejected block hconnecting => exact haligned
  | disconnected tip parent hchain => exact haligned.disconnect hchain
  | reannounced height prevSealHash now block hblock =>
    exact haligned.onNewBlock rfl rfl (fun _ => ⟨block, hblock, rfl⟩)
  | worked now =>
    exact haligned.of_lookup rfl (fun _ _ hfound => Or.inl (workerRound_lookup hfound))
  | verified view share now => exact haligned
  | inserted share => exact haligned.of_heights rfl (withShare_sameStore _ share).2.2
  | checked assembled height haccepts => exact haligned
  | committed assembled height hpending =>
    refine haligned.of_lookup rfl ?_
    intro found hash hfound
    rcases addAssembledSeal_lookup hfound with hbefore | ⟨rfl, rfl⟩
    · exact Or.inl hbefore
    · exact Or.inr (hkeeps hpending)

theorem Aligned.sealsAncestor (haligned : Aligned state) (hplaced : Placed context heightOf state)
    (hdepth : 1 ≤ context.params.nHMPSealTrailingDepth) : SealsAncestor context state := by
  refine sealsAncestor_of_ancestor ?_
  intro assembled hfound
  unfold getSealForTemplate at hfound
  split at hfound
  · cases hfound
  · rename_i hash hmapped
    rw [(hplaced.manager.store.sound hash assembled hfound).1]
    exact haligned _ hash hmapped (by omega)

end Aligned

/-- In every run whose steps keep the index of heights in agreement with the chain, the seal for the
next block is for its ancestor, and no template is rejected for a seal of another block. -/
theorem templates_seal_ancestor (context : SealContext) (heightOf : Uint256 → Int)
    (hdepth : 1 ≤ context.params.nHMPSealTrailingDepth) (actions : List PhaseAction)
    (hkeeps : Guarded (phaseStep context heightOf) (KeepsAligned heightOf) .start actions) :
    Always (phaseStep context heightOf) (SealsAncestor context) .start actions := by
  have hstart : Aligned .start := by
    intro height hash hfound
    simp [SealPhases.start, empty] at hfound
  have halways : Always (phaseStep context heightOf)
      (fun state => Placed context heightOf state ∧ Aligned state) .start actions := by
    refine always_of_guarded ?_ ⟨placed_start context heightOf, hstart⟩ hkeeps
    rintro state action ⟨hplaced, haligned⟩ hadmits
    have hstep := phaseStep_cases context heightOf state action
    exact ⟨hplaced.step hstep, haligned.step hadmits hstep⟩
  intro visited hvisited
  obtain ⟨hplaced, haligned⟩ := halways visited hvisited
  exact haligned.sealsAncestor hplaced hdepth

namespace Sample

/-- Two blocks above the first one, and a relayed seal of the lower one passes the check of the
chain. -/
def relayedSeal : List PhaseAction :=
  [.connect (sealBlock 100), .announce (sealBlock 101) 100 0, .finish true,
    .announce (sealBlock 102) 101 0, .finish true, .checkRelay (custodySeal 101) 1]

def otherBranch : List PhaseAction :=
  [.disconnect, .disconnect, .announce (sealBlock 201) 100 0, .finish true,
    .announce (sealBlock 202) 201 0, .finish true]

def phasesAfter (actions : List PhaseAction) : SealPhases :=
  run (phaseStep custodyContext twoForks) .start actions

def lateCommit : SealPhases :=
  phasesAfter (relayedSeal ++ otherBranch ++ [.commitRelay (custodySeal 101) 1])

def templateBlock (state : SealPhases) : HMPBlock where
  hash := 203
  algo := 0
  coinbase := .special (some (templatePayload custodyContext state true
    { nVersion := 4, minerIdentity := 1 }))

end Sample

open Sample in
theorem templates_seal_ancestor_relayed :
    (phasesAfter (relayedSeal ++ [.commitRelay (custodySeal 101) 1])).manager.getSealForTemplate
        custodyContext 3 = some (custodySeal 101) ∧
      SealsAncestor custodyContext
        (phasesAfter (relayedSeal ++ [.commitRelay (custodySeal 101) 1])) := by
  refine ⟨by decide +kernel, ?_⟩
  refine (templates_seal_ancestor custodyContext twoForks (by decide)
    (relayedSeal ++ [.commitRelay (custodySeal 101) 1]) ?_).final
  simp only [relayedSeal, List.cons_append, List.nil_append, Guarded, KeepsAligned, true_and,
    and_true]
  refine ⟨?_, ?_, ?_, ?_⟩ <;> decide +kernel

open Sample in
/-- The other branch is connected between the check of the relayed seal and its commit: the template for
the next block carries a seal of the block that was replaced, and is rejected. -/
theorem late_commit_misleads_template :
    lateCommit.manager.getSealForTemplate custodyContext 3 = some (custodySeal 101) ∧
    (lateCommit.chain.getAncestor 1).map HMPBlock.hash = some 201 ∧
    checkBlock custodyContext.params custodyContext.oracles (templateBlock lateCommit)
        lateCommit.chain =
      .error "bad-seal-wrong-ancestor" := by
  decide +kernel

end Kerrigan.HMP
