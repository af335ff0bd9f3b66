import Kerrigan.HMP.Seal
import Kerrigan.HMP.Weight
import Kerrigan.Lib.Eviction
import Kerrigan.Lib.Outcome

/-!
# The seal manager

`CSealManager` collects the shares of recent blocks, assembles them into seals, keeps the
seals it assembled or received from peers for the block templates, and signs new blocks for
the daemon.  Times are in milliseconds.
-/

namespace Kerrigan.HMP

open Primitives Consensus Lib

structure CSealSession where
  blockHash : Uint256
  blockHeight : Int
  startTime : Int
  prevSealHash : Uint256
  shares : Std.ExtTreeMap CBLSPublicKey CSealShare := ∅
  assembled : Bool := false

structure CSealManager where
  sessions : Std.ExtTreeMap Uint256 CSealSession
  assembledSeals : Std.ExtTreeMap Uint256 CAssembledSeal
  sealInsertionOrder : List Uint256
  heightToHash : Std.ExtTreeMap Int Uint256
  signedBlocks : Std.ExtTreeMap Int Uint256

/-- What the manager is built with. -/
structure SealContext where
  params : Params
  oracles : Oracles
  schemes : SealSchemes
  identity : Option CHMPIdentity

/-- What the manager asks the trackers. -/
structure TrackerView where
  tierOf : CBLSPublicKey → Nat → HMPPrivilegeTier
  isCommitted : CBLSPublicKey → Int → Bool

namespace CSealManager

def empty : CSealManager where
  sessions := ∅
  assembledSeals := ∅
  sealInsertionOrder := []
  heightToHash := ∅
  signedBlocks := ∅

def maxKept : Nat := 20

/-! ## Sessions -/

variable (context : SealContext) (view : TrackerView) (manager : CSealManager) (share : CSealShare)
  (assembled : CAssembledSeal) (height : Int) (session : CSealSession) (blockHash : Uint256)
  (now : Int) (algo : Nat)

def onNewBlock (height : Int) (prevSealHash : Uint256) (now : Int) : CSealManager :=
  if manager.sessions[blockHash]?.isSome then manager
  else
    { manager with
      sessions := manager.sessions.insert blockHash
        { blockHash := blockHash, blockHeight := height, startTime := now
          prevSealHash := prevSealHash }
      heightToHash := manager.heightToHash.insert height blockHash }

/-- The first critical section of `AddSealShare`: the session that the share is for. -/
def sessionFor : Except HMPAcceptResult CSealSession := do
  require (share.algoId < numAlgos) .rejectedInvalid
  match manager.sessions[share.blockHash]? with
  | none => .error .rejectedBenign
  | some session =>
      require (session.assembled = false) .rejectedBenign
      require (now - session.startTime ≤ context.params.nHMPSigningWindowMs + 2000)
        .rejectedBenign
      require (session.shares[share.signerPubKey]?.isNone) .rejectedBenign
      require (session.shares.size < maxSealSigners) .rejectedBenign
      return session

def checkZkProof : Except HMPAcceptResult Unit := do
  if share.zkProof ≠ [] then
    require (share.zkProof.length = hmpGroth16ProofSize) .rejectedInvalid
    require context.schemes.proofInitialized .rejectedBenign
    require (context.schemes.verifyProof share.zkProof share.blockHash share.commitment)
      .rejectedInvalid
  else
    require (¬ Params.scheduledAt context.params.nHMPMandatoryProofHeight height)
      .rejectedInvalid

/-- The verification of `AddSealShare` outside the lock. -/
def checkShare : Except HMPAcceptResult Unit := do
  require (context.schemes.verifyShare share) .rejectedInvalid
  require (view.tierOf share.signerPubKey share.algoId ≠ .unknown) .rejectedBenign
  require (view.isCommitted share.signerPubKey session.blockHeight) .rejectedBenign
  require share.vrfProof.IsValid .rejectedInvalid
  require (context.oracles.verifyVRF share.signerPubKey share.blockHash session.prevSealHash
    share.vrfProof) .rejectedInvalid
  require (isVRFSelected (context.oracles.vrfOutputHash share.vrfProof)
    (getVRFTierMultiplier (view.tierOf share.signerPubKey share.algoId))) .rejectedBenign
  checkZkProof context share session.blockHeight

/-- The second critical section of `AddSealShare`. -/
def insertShare : Except HMPAcceptResult CSealManager :=
  match manager.sessions[share.blockHash]? with
  | none => .error .rejectedBenign
  | some session => do
      require (session.assembled = false) .rejectedBenign
      require (session.shares[share.signerPubKey]?.isNone) .rejectedBenign
      require (session.shares.size < maxSealSigners) .rejectedBenign
      return { manager with
        sessions := manager.sessions.insert share.blockHash
          { session with shares := session.shares.insert share.signerPubKey share } }

theorem insertShare_eq_ok {manager next : CSealManager} {share : CSealShare}
    (hinsert : manager.insertShare share = .ok next) :
    ∃ session, manager.sessions[share.blockHash]? = some session ∧
      session.shares[share.signerPubKey]? = none ∧
      next = { manager with
        sessions := manager.sessions.insert share.blockHash
          { session with shares := session.shares.insert share.signerPubKey share } } := by
  unfold insertShare at hinsert
  cases hsession : manager.sessions[share.blockHash]? with
  | none =>
    rw [hsession] at hinsert
    cases hinsert
  | some session =>
    rw [hsession] at hinsert
    simp only [bind_eq_ok_iff, require_eq_ok_iff] at hinsert
    obtain ⟨-, -, -, hnew, -, -, hnext⟩ := hinsert
    cases hnext
    exact ⟨session, rfl, Option.isNone_iff_eq_none.mp hnew, rfl⟩

def withShare : CSealManager :=
  match manager.insertShare share with
  | .error _ => manager
  | .ok next => next

theorem withShare_cases : manager.withShare share = manager ∨
    ∃ session, manager.sessions[share.blockHash]? = some session ∧
      manager.withShare share = { manager with
        sessions := manager.sessions.insert share.blockHash
          { session with shares := session.shares.insert share.signerPubKey share } } := by
  unfold withShare
  cases hinsert : manager.insertShare share with
  | error _ => exact Or.inl rfl
  | ok next =>
    obtain ⟨session, hsession, -, rfl⟩ := insertShare_eq_ok hinsert
    exact Or.inr ⟨session, hsession, rfl⟩

def addSealShare : HMPAcceptResult × CSealManager :=
  let outcome : Except HMPAcceptResult CSealManager := do
    let session ← manager.sessionFor context share now
    checkShare context view share session
    manager.insertShare share
  match outcome with
  | .error result => (result, manager)
  | .ok next => (.accepted, next)

theorem benign_ne_accepted : HMPAcceptResult.rejectedBenign ≠ .accepted := by
  decide

theorem invalid_ne_accepted : HMPAcceptResult.rejectedInvalid ≠ .accepted := by
  decide

theorem sessionFor_failsWith :
    FailsWith (· ≠ .accepted) (manager.sessionFor context share now) := by
  refine .bind (.require invalid_ne_accepted) fun _ => ?_
  cases manager.sessions[share.blockHash]? with
  | none =>
    intro reason hreason
    cases hreason
    exact benign_ne_accepted
  | some session =>
    refine .bind (.require benign_ne_accepted) fun _ => ?_
    refine .bind (.require benign_ne_accepted) fun _ => ?_
    refine .bind (.require benign_ne_accepted) fun _ => ?_
    exact .bind (.require benign_ne_accepted) fun _ => .ok session

theorem checkZkProof_failsWith : FailsWith (· ≠ .accepted) (checkZkProof context share height) := by
  unfold checkZkProof
  split
  · refine .bind (.require invalid_ne_accepted) fun _ => ?_
    exact .bind (.require benign_ne_accepted) fun _ => .require invalid_ne_accepted
  · exact .require invalid_ne_accepted

theorem checkShare_failsWith :
    FailsWith (· ≠ .accepted) (checkShare context view share session) := by
  refine .bind (.require invalid_ne_accepted) fun _ => ?_
  refine .bind (.require benign_ne_accepted) fun _ => ?_
  refine .bind (.require benign_ne_accepted) fun _ => ?_
  refine .bind (.require invalid_ne_accepted) fun _ => ?_
  refine .bind (.require invalid_ne_accepted) fun _ => ?_
  refine .bind (.require benign_ne_accepted) fun _ => ?_
  exact checkZkProof_failsWith context share session.blockHeight

theorem insertShare_failsWith : FailsWith (· ≠ .accepted) (manager.insertShare share) := by
  unfold insertShare
  cases manager.sessions[share.blockHash]? with
  | none =>
    intro reason hreason
    cases hreason
    exact benign_ne_accepted
  | some session =>
    refine .bind (.require benign_ne_accepted) fun _ => ?_
    refine .bind (.require benign_ne_accepted) fun _ => ?_
    exact .bind (.require benign_ne_accepted) fun _ => .ok _

theorem shareOutcome_failsWith : FailsWith (· ≠ .accepted) (do
      let session ← manager.sessionFor context share now
      checkShare context view share session
      manager.insertShare share) :=
  .bind (sessionFor_failsWith context manager share now) fun session =>
    .bind (checkShare_failsWith context view share session) fun _ =>
      insertShare_failsWith manager share

theorem addSealShare_accepted_iff {context : SealContext} {view : TrackerView}
    {manager : CSealManager} {share : CSealShare} {now : Int} :
    (manager.addSealShare context view share now).1 = .accepted ↔
      ∃ session next, manager.sessionFor context share now = .ok session ∧
        checkShare context view share session = .ok () ∧ manager.insertShare share = .ok next := by
  have hfails := shareOutcome_failsWith context view manager share now
  unfold addSealShare
  dsimp only
  constructor
  · split
    · rename_i reason hreason
      intro haccepted
      exact absurd haccepted (hfails reason hreason)
    · rename_i next hnext
      intro _
      simp only [bind_eq_ok_iff] at hnext
      obtain ⟨session, hsession, _, hchecked, hinsert⟩ := hnext
      exact ⟨session, next, hsession, hchecked, hinsert⟩
  · rintro ⟨session, next, hsession, hchecked, hinsert⟩
    rw [hsession]
    simp only [bind, Except.bind, hchecked, hinsert]

theorem addSealShare_cases :
    let result := manager.addSealShare context view share now
    (result.1 ≠ .accepted ∧ result.2 = manager) ∨
    (result.1 = .accepted ∧
      ∃ session, manager.sessions[share.blockHash]? = some session ∧
        session.shares[share.signerPubKey]? = none ∧
        result.2 = { manager with
          sessions := manager.sessions.insert share.blockHash
            { session with shares := session.shares.insert share.signerPubKey share } }) := by
  have hfails := shareOutcome_failsWith context view manager share now
  unfold addSealShare
  dsimp only
  split
  · rename_i reason hreason
    exact Or.inl ⟨hfails reason hreason, rfl⟩
  · rename_i next hnext
    simp only [bind_eq_ok_iff] at hnext
    obtain ⟨-, -, -, -, hinsert⟩ := hnext
    exact Or.inr ⟨rfl, insertShare_eq_ok hinsert⟩

theorem addSealShare_signedBlocks :
    (manager.addSealShare context view share now).2.signedBlocks = manager.signedBlocks := by
  rcases addSealShare_cases context view manager share now with
    ⟨-, hsame⟩ | ⟨-, session, -, -, hnext⟩
  · rw [hsame]
  · rw [hnext]

/-! ## Assembly and clean-up -/

def tryAssemble : Option CAssembledSeal :=
  let valid := session.shares.toList.filter (fun item =>
    item.2.signature.IsValid ∧ item.1.IsValid)
  let assembled : CAssembledSeal :=
    { blockHash := session.blockHash
      aggregatedSig := context.schemes.aggregate (valid.map (fun item => item.2.signature))
      signers := valid.map Prod.fst
      signerAlgos := valid.map (fun item => item.2.algoId)
      vrfProofs := valid.map (fun item => item.2.vrfProof) }
  if valid ≠ [] ∧ assembled.aggregatedSig.IsValid ∧ assembled.Verify context.oracles then
    some assembled
  else none

def readySeal (session : CSealSession) : Option CAssembledSeal :=
  if session.assembled ∨ now - session.startTime < context.params.nHMPSigningWindowMs then none
  else tryAssemble context session

def assembleSession (manager : CSealManager) (item : Uint256 × CSealSession) : CSealManager :=
  match readySeal context now item.2 with
  | none => manager
  | some assembled =>
      { manager with
        sessions := manager.sessions.insert item.1 { item.2 with assembled := true }
        assembledSeals := manager.assembledSeals.insert assembled.blockHash assembled
        sealInsertionOrder := manager.sealInsertionOrder ++ [assembled.blockHash] }

def staleSessions : List Uint256 :=
  manager.sessions.toList.filterMap (fun item =>
    if (context.params.nHMPGracePeriodMs < now - item.2.startTime ∧ item.2.assembled) ∨
        context.params.nHMPGracePeriodMs * 2 < now - item.2.startTime then some item.1
    else none)

def cleanupStaleSessions : CSealManager :=
  let evicted := overflow maxKept manager.sealInsertionOrder manager.assembledSeals
  { manager with
    sessions := (manager.staleSessions context now).foldl (fun map hash => map.erase hash)
      manager.sessions
    assembledSeals := evicted.foldl (fun map hash => map.erase hash) manager.assembledSeals
    sealInsertionOrder := manager.sealInsertionOrder.drop evicted.length
    heightToHash := trimLowest maxKept manager.heightToHash }

def workerRound : CSealManager :=
  (manager.sessions.toList.foldl (assembleSession context now) manager).cleanupStaleSessions
    context now

/-! ## Seals from peers -/

/-- The reason not to store a seal: there is one with at least as many signers for its
block, or for another block at its height. -/
def betterKnown : Option HMPAcceptResult :=
  if ∃ existing ∈ manager.assembledSeals[assembled.blockHash]?,
      assembled.signers.length ≤ existing.signers.length then some .accepted
  else if ∃ other ∈ manager.heightToHash[height]?, other ≠ assembled.blockHash ∧
      ∃ existing ∈ manager.assembledSeals[other]?,
        assembled.signers.length ≤ existing.signers.length then some .rejectedBenign
  else none

def forgetHeight (heights : Std.ExtTreeMap Int Uint256) (hash : Uint256) :
    Std.ExtTreeMap Int Uint256 :=
  match heights.toList.find? (fun item => item.2 = hash) with
  | none => heights
  | some (height, _) => heights.erase height

def displaced : List Uint256 :=
  manager.heightToHash[height]?.toList.filter (fun other => other ≠ assembled.blockHash)

def orderWith : List Uint256 :=
  manager.sealInsertionOrder.filter (fun hash =>
    hash ∉ manager.displaced assembled height ∧ hash ≠ assembled.blockHash) ++
    [assembled.blockHash]

def sealsWith : Std.ExtTreeMap Uint256 CAssembledSeal :=
  ((manager.displaced assembled height).foldl (fun map hash => map.erase hash)
    manager.assembledSeals).insert assembled.blockHash assembled

/-- The final critical section of `AddAssembledSeal` when it stores the seal. -/
def storeRelayed : CSealManager :=
  let evicted := overflow maxKept (manager.orderWith assembled height)
    (manager.sealsWith assembled height)
  { manager with
    assembledSeals := evicted.foldl (fun map hash => map.erase hash)
      (manager.sealsWith assembled height)
    sealInsertionOrder := (manager.orderWith assembled height).drop evicted.length
    heightToHash := evicted.foldl forgetHeight
      (manager.heightToHash.insert height assembled.blockHash) }

def addAssembledSeal : HMPAcceptResult × CSealManager :=
  if assembled.IsNull then (.rejectedBenign, manager)
  else
    match manager.betterKnown assembled height with
    | some result => (result, manager)
    | none =>
        if assembled.signers.length ≤ maxSealSigners ∧ assembled.signers.Nodup ∧
            assembled.Verify context.oracles then
          (.accepted, manager.storeRelayed assembled height)
        else (.rejectedInvalid, manager)

/-! ## Templates -/

def getSealForTemplate : Option CAssembledSeal :=
  match manager.heightToHash[height - context.params.nHMPSealTrailingDepth]? with
  | none => none
  | some hash => manager.assembledSeals[hash]?

def getSeal : Option CAssembledSeal :=
  manager.assembledSeals[blockHash]?

/-! ## Signing -/

def sessionTarget : Int × Uint256 :=
  match manager.sessions[blockHash]? with
  | none => (-1, 0)
  | some session => (session.blockHeight, session.prevSealHash)

/-- The height of a block, from its session or else from the heights, and the hash before
it; -1 when the block is not known. -/
def signingTarget : Int × Uint256 :=
  if (manager.sessionTarget blockHash).1 < 0 then
    match manager.heightToHash.toList.find? (fun item => item.2 = blockHash) with
    | none => manager.sessionTarget blockHash
    | some (height, _) => (height, (manager.sessionTarget blockHash).2)
  else manager.sessionTarget blockHash

def recordSigned : CSealManager :=
  let recent :=
    if 100 < height then
      (manager.signedBlocks.keys.filter (fun signed => signed < height - 100)).foldl
        (fun map signed => map.erase signed) manager.signedBlocks
    else manager.signedBlocks
  { manager with
    signedBlocks := if 0 ≤ height then recent.insert height blockHash else recent }

theorem getElem?_recordSigned (other : Int) (blockHash : Uint256) :
    (manager.recordSigned height blockHash).signedBlocks[other]? =
      if 0 ≤ height ∧ height = other then some blockHash
      else if 100 < height ∧ other < height - 100 then none
      else manager.signedBlocks[other]? := by
  have hrecent : (if 100 < height then
      (manager.signedBlocks.keys.filter (fun signed => signed < height - 100)).foldl
        (fun map signed => map.erase signed) manager.signedBlocks
      else manager.signedBlocks)[other]? =
      if 100 < height ∧ other < height - 100 then none else manager.signedBlocks[other]? := by
    by_cases hhigh : 100 < height
    · rw [if_pos hhigh, getElem?_foldl_erase_filter]
      simp [hhigh]
    · simp [hhigh]
  unfold recordSigned
  dsimp only
  by_cases hknown : 0 ≤ height
  · rw [if_pos hknown, getElem?_insert_eq, hrecent]
    simp [hknown]
  · rw [if_neg hknown, hrecent]
    simp [hknown]

/-- The share that the daemon signs for a block. -/
def ownShare (identity : CHMPIdentity) (blockHash : Uint256) (algo : Nat)
    (target : Int × Uint256) : CSealShare :=
  let proof :=
    if Params.scheduledAt context.params.nHMPMandatoryProofHeight target.1 ∧
        context.schemes.proofInitialized then identity.createProof blockHash target.2
    else ([], 0)
  { blockHash := blockHash, signerPubKey := identity.publicKey
    signature := identity.sign blockHash algo, algoId := algo
    vrfProof := identity.signVRF blockHash target.2
    zkProof := proof.1, commitment := proof.2 }

def makeShare (identity : CHMPIdentity) (blockHash : Uint256) (algo : Nat) (target : Int × Uint256) :
    Except String CSealShare := do
  let share := ownShare context identity blockHash algo target
  let tier := view.tierOf identity.publicKey algo
  require (tier ≠ .unknown) "unknown_tier"
  require share.vrfProof.IsValid "vrf_invalid"
  require (isVRFSelected (context.oracles.vrfOutputHash share.vrfProof)
    (getVRFTierMultiplier tier)) "vrf_not_selected"
  require share.signature.IsValid "signature_invalid"
  return share

def signBlock : Except String CSealShare × CSealManager :=
  match context.identity with
  | none => (.error "identity_invalid", manager)
  | some identity =>
      let target := manager.signingTarget blockHash
      if 0 ≤ target.1 ∧ ∃ signed ∈ manager.signedBlocks[target.1]?, signed ≠ blockHash then
        (.error "equivocation", manager)
      else
        (makeShare context view identity blockHash algo target,
          manager.recordSigned target.1 blockHash)

/-- Another block is recorded at the height. -/
def Equivocates : Prop :=
  0 ≤ height ∧ ∃ signed ∈ manager.signedBlocks[height]?, signed ≠ blockHash

theorem signBlock_cases : (((manager.signBlock context view blockHash algo).2 = manager ∧
      ∃ reason, (manager.signBlock context view blockHash algo).1 = .error reason) ∧
      ∀ identity ∈ context.identity,
        manager.Equivocates (manager.signingTarget blockHash).1 blockHash) ∨
    ∃ identity, context.identity = some identity ∧
      ¬ manager.Equivocates (manager.signingTarget blockHash).1 blockHash ∧
      manager.signBlock context view blockHash algo =
        (makeShare context view identity blockHash algo (manager.signingTarget blockHash),
          manager.recordSigned (manager.signingTarget blockHash).1 blockHash) := by
  unfold signBlock
  cases hidentity : context.identity with
  | none => exact Or.inl ⟨⟨rfl, _, rfl⟩, fun _ hmem => by cases hmem⟩
  | some identity =>
    dsimp only
    split
    · rename_i hother
      exact Or.inl ⟨⟨rfl, _, rfl⟩, fun _ _ => hother⟩
    · rename_i hother
      exact Or.inr ⟨identity, rfl, hother, rfl⟩

def blockDisconnected (height : Int) : CSealManager where
  sessions := manager.sessions.erase blockHash
  assembledSeals := manager.assembledSeals.erase blockHash
  sealInsertionOrder := manager.sealInsertionOrder.filter (fun hash => hash ≠ blockHash)
  heightToHash := manager.heightToHash.erase height
  signedBlocks := manager.signedBlocks.erase height

end CSealManager

end Kerrigan.HMP
