import Kerrigan.HMP.SealPhases

/-!
# Seals for templates over time

Once the worker has assembled the seal of a block, the template finds it with one committee proof
per signer.  Other calls of the manager come in between: it stays until the block is disconnected,
the store or the index of heights is full of newer ones, or a larger seal for its height is
committed.
-/

namespace Kerrigan.HMP

open Primitives Consensus Lib CSealManager List Chain

/-! ## Stored seals -/

section Stored

variable (context : SealContext) (heightOf : Uint256 → Int)

def StoresRelay (state : SealPhases) (assembled : CAssembledSeal) (height : Int) : Prop :=
  (assembled, height) ∈ state.pending ∧ ¬ assembled.IsNull ∧
    state.manager.betterKnown assembled height = none ∧ assembled.signers.Nodup ∧
    assembled.Verify context.oracles

instance (state : SealPhases) (assembled : CAssembledSeal) (height : Int) :
    Decidable (StoresRelay context state assembled height) :=
  inferInstanceAs (Decidable (_ ∧ _))

def storedSeals (state : SealPhases) : PhaseAction → List Uint256
  | .worker now => (assembledNow context state.manager now).map CAssembledSeal.blockHash
  | .commitRelay assembled height =>
      if StoresRelay context state assembled height then [assembled.blockHash] else []
  | _ => []

def newerSeals (blockHash : Uint256) (state : SealPhases) : List PhaseAction → Nat
  | [] => 0
  | action :: rest =>
      ((storedSeals context state action).filter (fun stored => stored ≠ blockHash)).length +
        newerSeals blockHash (phaseStep context heightOf state action) rest

end Stored

/-! ## Steps that leave the seal -/

/-- The step leaves the block on the chain and its seal in the store: the block is not
disconnected, a seal that is committed for its height has no more signers than the stored one, and
a clean-up finds fewer than 20 heights above it. -/
def LeavesSeal (blockHash : Uint256) (height : Int) (state : SealPhases) : PhaseAction → Prop
  | .disconnect => state.chain.height ≠ height
  | .commitRelay assembled newHeight =>
      newHeight = height → ∃ existing ∈ state.manager.assembledSeals[blockHash]?,
        assembled.signers.length ≤ existing.signers.length
  | .worker _ => (heightsAbove state.manager height).length < maxKept
  | _ => True

section Steps

variable {context : SealContext} {heightOf : Uint256 → Int} {state next : SealPhases}
  {blockHash : Uint256} {height : Int} {count : Nat} {action : PhaseAction}

theorem SealPhases.OnChain.extend (hchain : state.OnChain blockHash height) {block : HMPBlock}
    (hnext : next.chain = block :: state.chain) : next.OnChain blockHash height := by
  obtain ⟨found, hfound, hhash⟩ := hchain
  refine ⟨found, ?_, hhash⟩
  rw [hnext]
  exact getAncestor_of_parent hfound

theorem SealPhases.OnChain.step (hchain : state.OnChain blockHash height)
    (hleaves : LeavesSeal blockHash height state action)
    (hstep : PhaseStep context heightOf state action next) : next.OnChain blockHash height := by
  cases hstep with
  | connected block hextends => exact hchain.extend rfl
  | accepted block hconnecting => exact hchain.extend rfl
  | disconnected tip parent hparent =>
    obtain ⟨found, hfound, hhash⟩ := hchain
    refine ⟨found, ?_, hhash⟩
    simp only [LeavesSeal, hparent, height_cons] at hleaves
    rw [hparent, getAncestor_cons, if_neg (Ne.symm hleaves)] at hfound
    exact hfound
  | _ => exact hchain

/-- A seal that the manager takes while a block keeps its seal is for another height. -/
theorem Kept.height_ne_of_stored {assembled : CAssembledSeal} {newHeight : Int}
    (hkept : Kept blockHash height count state.manager)
    (hleaves : LeavesSeal blockHash height state (.commitRelay assembled newHeight))
    (hbetter : state.manager.betterKnown assembled newHeight = none) : newHeight ≠ height := by
  intro hsame
  obtain ⟨existing, hexisting, hsigners⟩ := hleaves hsame
  unfold betterKnown at hbetter
  split at hbetter
  · cases hbetter
  · rename_i hfew
    split at hbetter
    · cases hbetter
    · rename_i hother
      refine hother ⟨blockHash, hsame ▸ hkept.mapped, ?_, existing, hexisting, hsigners⟩
      rintro rfl
      exact hfew ⟨existing, hexisting, hsigners⟩

theorem Kept.commitRelay (hplaced : Placed context heightOf state)
    (hkept : Kept blockHash height count state.manager) {assembled : CAssembledSeal}
    {newHeight : Int} (hpending : (assembled, newHeight) ∈ state.pending)
    (hleaves : LeavesSeal blockHash height state (.commitRelay assembled newHeight))
    (hcount : count + ((storedSeals context state (.commitRelay assembled newHeight)).filter
      (fun stored => stored ≠ blockHash)).length < maxKept) :
    Kept blockHash height (count + ((storedSeals context state
      (.commitRelay assembled newHeight)).filter (fun stored => stored ≠ blockHash)).length)
      (state.manager.addAssembledSeal context assembled newHeight).2 := by
  rcases addAssembledSeal_cases context state.manager assembled newHeight with
    hsame | ⟨hnull, hbetter, hnodup, hverified, hstored⟩
  · rw [hsame]
    exact hkept.mono (Nat.le_add_right _ _)
  · have hheight : newHeight ≠ height := hkept.height_ne_of_stored hleaves hbetter
    -- a block has one height, so a seal for another height is for another block
    have hother : assembled.blockHash ≠ blockHash := by
      intro hsame
      have hplace := hplaced.pending (assembled, newHeight) hpending
      rw [hsame, hplaced.manager.indexed.heights height blockHash hkept.mapped] at hplace
      exact hheight hplace.symm
    have hstores : StoresRelay context state assembled newHeight :=
      ⟨hpending, hnull, hbetter, hnodup, hverified⟩
    rw [storedSeals, if_pos hstores, filter_cons_of_pos (by simpa using hother),
      filter_nil, length_singleton] at hcount ⊢
    rw [hstored]
    exact hkept.storeRelayed hplaced.manager.indexed hother hheight hcount

theorem Kept.step (hplaced : Placed context heightOf state)
    (hchain : state.OnChain blockHash height) (hkept : Kept blockHash height count state.manager)
    (hleaves : LeavesSeal blockHash height state action)
    (hcount : count + ((storedSeals context state action).filter (fun stored =>
      stored ≠ blockHash)).length < maxKept)
    (hstep : PhaseStep context heightOf state action next) :
    Kept blockHash height (count + ((storedSeals context state action).filter (fun stored =>
      stored ≠ blockHash)).length) next.manager := by
  obtain ⟨found, hfound, hhash⟩ := hchain
  have hle := (height_of_getAncestor hfound).2
  cases hstep with
  | unchanged => exact hkept.mono (Nat.le_add_right _ _)
  | connected block hextends => exact hkept
  | announced block prevSealHash now hextends =>
    exact hkept.onNewBlock (fun hsame => by omega) prevSealHash now
  | shareReturned view block share hconnecting hshare =>
    exact hkept.of_sameStore (signBlock_sameStore context view _ _ _)
  | noShare view block hconnecting =>
    exact hkept.of_sameStore (signBlock_sameStore context view _ _ _)
  | accepted block hconnecting => exact hkept
  | rejected block hconnecting => exact hkept
  | disconnected tip parent hparent =>
    simp only [LeavesSeal, hparent, height_cons] at hleaves
    have htip : heightOf tip.hash = Chain.height parent + 1 := by
      refine hplaced.chain _ tip ?_
      rw [hparent, getAncestor_cons, if_pos rfl]
      rfl
    refine hkept.blockDisconnected ?_ hleaves
    intro hsame
    rw [hsame, ← hhash, hplaced.chain height found hfound] at htip
    exact hleaves htip.symm
  | reannounced newHeight prevSealHash now block hblock =>
    refine hkept.onNewBlock ?_ prevSealHash now
    rintro rfl
    rw [Option.mem_unique hblock hfound, hhash]
  | worked now =>
    exact kept_workerRound hplaced.manager.indexed hkept.mapped (Or.inl hkept) hleaves hcount
  | verified view share now => exact hkept
  | inserted share => exact hkept.of_sameStore (withShare_sameStore _ share)
  | checked assembled newHeight haccepts => exact hkept
  | committed assembled newHeight hpending =>
    exact hkept.commitRelay hplaced hpending hleaves hcount

theorem kept_run {actions : List PhaseAction} (hplaced : Placed context heightOf state)
    (hchain : state.OnChain blockHash height) (hkept : Kept blockHash height count state.manager)
    (hguarded : Guarded (phaseStep context heightOf) (LeavesSeal blockHash height) state actions)
    (hcount : count + newerSeals context heightOf blockHash state actions < maxKept) :
    Kept blockHash height (count + newerSeals context heightOf blockHash state actions)
      (run (phaseStep context heightOf) state actions).manager := by
  induction actions generalizing state count with
  | nil => exact hkept
  | cons action rest ih =>
    obtain ⟨hleaves, hrest⟩ := hguarded
    have hstep := phaseStep_cases context heightOf state action
    rw [newerSeals, ← Nat.add_assoc] at hcount ⊢
    exact ih (hplaced.step hstep) (hchain.step hleaves hstep)
      (hkept.step hplaced hchain hleaves (Nat.lt_of_le_of_lt (Nat.le_add_right _ _) hcount) hstep)
      hrest hcount

end Steps

/-- Once the worker has assembled a seal of a block of the active chain, the template finds a seal
of it with one committee proof per signer, while the block stays on the chain, fewer than 20 seals
of other blocks are stored since its earliest recorded one, clean-ups find fewer than 20 heights
above it, and no seal for its height with more signers is committed. -/
theorem template_keeps_proofs (context : SealContext) (heightOf : Uint256 → Int)
    (before later : List PhaseAction) (now : Int) (blockHash : Uint256) (height : Int)
    (hchain : (run (phaseStep context heightOf) .start before).OnChain blockHash height)
    (hmapped : (run (phaseStep context heightOf) .start before).manager.heightToHash[height]? =
      some blockHash)
    (hassembled : ∃ assembled ∈ assembledNow context
      (run (phaseStep context heightOf) .start before).manager now,
      assembled.blockHash = blockHash)
    (hleaves : Guarded (phaseStep context heightOf) (LeavesSeal blockHash height)
      (run (phaseStep context heightOf) .start before) (.worker now :: later))
    (hnewer : newerThan blockHash
        (run (phaseStep context heightOf) .start before).manager.sealInsertionOrder +
      newerSeals context heightOf blockHash
        (run (phaseStep context heightOf) .start before) (.worker now :: later) < maxKept) :
    ∃ assembled ∈ (run (phaseStep context heightOf) .start
        (before ++ .worker now :: later)).manager.getSealForTemplate context
        (height + context.params.nHMPSealTrailingDepth), assembled.CarriesProofs := by
  have hplaced : Placed context heightOf (run (phaseStep context heightOf) .start before) := by
    refine (always_of_preserved ?_ (placed_start context heightOf) before).final
    intro state action hplaced
    exact hplaced.step (phaseStep_cases context heightOf state action)
  rw [run_append, run_cons]
  generalize run (phaseStep context heightOf) .start before = state at *
  obtain ⟨hworker, hlater⟩ := hleaves
  have hstep := phaseStep_cases context heightOf state (.worker now)
  rw [newerSeals, ← Nat.add_assoc] at hnewer
  have hkept := kept_workerRound hplaced.manager.indexed hmapped
    (Or.inr ⟨Nat.le_refl _, hassembled⟩) hworker
    (Nat.lt_of_le_of_lt (Nat.le_add_right _ _) hnewer)
  exact (kept_run (hplaced.step hstep) (hchain.step hworker hstep) hkept hlater
    hnewer).getSealForTemplate context

namespace Sample

def shareFor (blockHash : Uint256) : CSealShare where
  blockHash := blockHash
  signerPubKey := 1
  signature := 1
  algoId := 0
  vrfProof := 1

/-- A share of the block passes both halves of `AddSealShare`. -/
def collectShare (blockHash : Uint256) : List PhaseAction :=
  [.checkShare openView (shareFor blockHash) 1000, .insertShare (shareFor blockHash)]

def collectActions : List PhaseAction :=
  [.connect (sealBlock 100), .announce (sealBlock 101) 100 0, .finish true,
    .announce (sealBlock 102) 101 0, .finish true] ++ collectShare 101

/-- A seal that no known key has signed. -/
def junkSeal (blockHash : Uint256) : CAssembledSeal :=
  ⟨blockHash, 9, [7, 8], [0, 0], []⟩

def relayed (assembled : CAssembledSeal) (height : Int) : List PhaseAction :=
  [.checkRelay assembled height, .commitRelay assembled height]

def furtherActions (count : Nat) : List PhaseAction :=
  (range count).flatMap (fun index =>
    [.announce (sealBlock (103 + index)) (102 + index) 6000, .finish true]) ++ [.worker 6000]

/-- Seals of the blocks at the given heights are relayed. -/
def relayedAt (heights : List Nat) : List PhaseAction :=
  heights.flatMap (fun height => relayed (custodySeal (100 + height)) height)

/-- The seal of the first block is relayed, then those of 19 other blocks. -/
def relayedFirst : List PhaseAction :=
  collectActions ++
    (range 19).map (fun index => .connect (sealBlock (103 + index))) ++
    relayedAt (1 :: (range 19).map (· + 2))

/-- A relayed seal of the block 101 is checked, and the block is replaced by 201. -/
def replacedBlock : List PhaseAction :=
  [.connect (sealBlock 100), .announce (sealBlock 101) 100 0, .finish true,
    .checkRelay (junkSeal 101) 1, .disconnect, .announce (sealBlock 201) 100 0, .finish true] ++
    collectShare 201

/-- Both blocks of a height are rejected once, and then the first one is connected. -/
def overtakenHeight : List PhaseAction :=
  [.connect (sealBlock 100), .announce (sealBlock 101) 100 0, .finish false,
    .announce (sealBlock 201) 100 0, .finish false, .announce (sealBlock 101) 100 0,
    .finish true] ++ collectShare 101

def assembledAfter (before actions : List PhaseAction) : Option CAssembledSeal :=
  (run (phaseStep custodyContext twoForks) .start
    (before ++ .worker 6000 :: actions)).manager.getSealForTemplate custodyContext 3

def newerAfter (blockHash : Uint256) (before actions : List PhaseAction) : Nat :=
  newerSeals custodyContext twoForks blockHash
    (run (phaseStep custodyContext twoForks) .start before) (.worker 6000 :: actions)

end Sample

open Sample

/-- With a few more blocks the template still finds the seal with its proofs. -/
theorem template_keeps_proofs_among_blocks :
    ∃ assembled ∈ assembledAfter collectActions (furtherActions 10),
      assembled.CarriesProofs := by
  have hleaves : Guarded (phaseStep custodyContext twoForks) (LeavesSeal 101 1)
      (run (phaseStep custodyContext twoForks) .start collectActions)
      (.worker 6000 :: furtherActions 10) := by
    simp only [furtherActions, Guarded, LeavesSeal, range, range.loop,
      flatMap_cons, flatMap_nil, cons_append, nil_append, true_and, and_true]
    constructor <;> decide +kernel
  exact template_keeps_proofs custodyContext twoForks collectActions
    (furtherActions 10) 6000 101 1 (by decide +kernel) (by decide +kernel)
    (by decide +kernel) hleaves (by decide +kernel)

/-- A seal of two unknown keys takes the proofs away, relayed for the block itself or checked before
the block replaced another one; 20 further blocks take the seal away, although none of them is
sealed; one newer seal takes it away when a seal of the block was already recorded; and a seal is
never found when the height of its block is mapped to a rejected one. -/
theorem template_loses_seal :
    (∃ assembled ∈ assembledAfter collectActions [], assembled.CarriesProofs) ∧
    (∃ assembled ∈ assembledAfter collectActions (relayed (junkSeal 101) 1),
      assembled.signers.length = 2 ∧ assembled.vrfProofs.length = 0) ∧
    ((∃ assembled ∈ assembledAfter replacedBlock [], assembled.CarriesProofs) ∧
      assembledAfter replacedBlock [.commitRelay (junkSeal 101) 1] = some (junkSeal 101) ∧
      newerAfter 201 replacedBlock [.commitRelay (junkSeal 101) 1] = 1) ∧
    (assembledAfter collectActions (furtherActions 19) = none ∧
      newerAfter 101 collectActions (furtherActions 19) = 0) ∧
    ((∃ assembled ∈ assembledAfter relayedFirst [], assembled.CarriesProofs) ∧
      assembledAfter relayedFirst (relayedAt [21]) = none ∧
      newerAfter 101 relayedFirst (relayedAt [21]) = 1) ∧
    ((∃ assembled ∈ assembledNow custodyContext
        (run (phaseStep custodyContext twoForks) .start overtakenHeight).manager 6000,
        assembled.blockHash = 101 ∧ assembled.CarriesProofs) ∧
      assembledAfter overtakenHeight [] = none) := by
  decide +kernel

end Kerrigan.HMP
