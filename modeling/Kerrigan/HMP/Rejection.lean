import Kerrigan.HMP.ConnectBlock

/-!
# Rejected blocks

When a late check rejects a block, the deferred updates are not applied, so the tracker, the
registry and the pool do not hear of the block.  The seal manager has heard of it: its
sessions, its heights and the record of signed heights are as before only if the block took
no part in sealing, or if it was known and signed already.
-/

namespace Kerrigan.HMP

open Primitives Consensus Lib CSealManager HMPState

namespace CSealManager

/-! ## Announcements -/

theorem announce_eq_self {manager : CSealManager} {item : Announcement} (now : Int)
    (hopen : manager.sessions[item.blockHash]?.isSome) : manager.announce now item = manager :=
  if_pos hopen

variable (context : SealContext) (view : TrackerView) (manager : CSealManager)

theorem isSome_announce (item : Announcement) (now : Int) :
    (manager.announce now item).sessions[item.blockHash]?.isSome := by
  unfold announce onNewBlock
  split
  · assumption
  · simp

/-! ## The record of signed heights -/

def HasSigned (height : Int) (blockHash : Uint256) : Prop :=
  (0 ≤ height → manager.signedBlocks[height]? = some blockHash) ∧
    (100 < height → ∀ signed, manager.signedBlocks[signed]?.isSome → height - 100 ≤ signed)

theorem recordSigned_signedBlocks_iff (height : Int) (blockHash : Uint256) :
    (manager.recordSigned height blockHash).signedBlocks = manager.signedBlocks ↔
      manager.HasSigned height blockHash := by
  constructor
  · intro hsame
    have hlookup : ∀ other : Int, manager.signedBlocks[other]? =
        if 0 ≤ height ∧ height = other then some blockHash
        else if 100 < height ∧ other < height - 100 then none
        else manager.signedBlocks[other]? := by
      intro other
      rw [← getElem?_recordSigned, hsame]
    refine ⟨?_, ?_⟩
    · intro hknown
      rw [hlookup, if_pos ⟨hknown, rfl⟩]
    · intro hhigh signed hsigned
      by_contra hold
      rw [hlookup, if_neg (by omega), if_pos (by omega)] at hsigned
      cases hsigned
  · rintro ⟨hrecorded, hrecent⟩
    refine Std.ExtTreeMap.ext_getElem? ?_
    intro other
    rw [getElem?_recordSigned]
    split
    · rename_i hheight
      rw [← hheight.2, hrecorded hheight.1]
    · split
      · rename_i hold
        cases hfound : manager.signedBlocks[other]? with
        | none => rfl
        | some signed =>
          have := hrecent hold.1 other (by rw [hfound]; rfl)
          omega
      · rfl

theorem recordSigned_eq_self {manager : CSealManager} {height : Int} {blockHash : Uint256}
    (hsigned : manager.HasSigned height blockHash) :
    manager.recordSigned height blockHash = manager := by
  have hsame := (recordSigned_signedBlocks_iff manager height blockHash).mpr hsigned
  unfold recordSigned at hsame ⊢
  dsimp only at hsame ⊢
  rw [hsame]

/-! ## The share of the daemon -/

variable (share : CSealShare)

/-- The session of the block is open, has room for a share of the signer, and the share is good. -/
def TakesShare (now : Int) : Prop :=
  share.algoId < numAlgos ∧ ∃ session ∈ manager.sessions[share.blockHash]?,
    session.assembled = false ∧
    now - session.startTime ≤ context.params.nHMPSigningWindowMs + 2000 ∧
    session.shares[share.signerPubKey]? = none ∧ session.shares.size < maxSealSigners ∧
    checkShare context view share session = .ok ()

theorem addSealShare_accepted_iff_takesShare (now : Int) :
    (manager.addSealShare context view share now).1 = .accepted ↔
      manager.TakesShare context view share now := by
  rw [addSealShare_accepted_iff]
  unfold TakesShare sessionFor insertShare
  cases manager.sessions[share.blockHash]? with
  | none => simp [bind_eq_ok_iff]
  | some session =>
    simp only [bind_eq_ok_iff, require_eq_ok_iff, Option.isNone_iff_eq_none, Option.mem_some_iff]
    constructor
    · rintro ⟨_, _, ⟨_, halgo, _, hopen, _, hearly, _, hnew, _, hroom, hsession⟩, hchecked, -⟩
      cases hsession
      exact ⟨halgo, session, rfl, hopen, hearly, hnew, hroom, hchecked⟩
    · rintro ⟨halgo, _, rfl, hopen, hearly, hnew, hroom, hchecked⟩
      exact ⟨session, _, ⟨(), halgo, (), hopen, (), hearly, (), hnew, (), hroom, rfl⟩, hchecked,
        (), hopen, (), hnew, (), hroom, rfl⟩

theorem addSealShare_sessions_iff (now : Int) :
    (manager.addSealShare context view share now).2.sessions = manager.sessions ↔
      ¬ manager.TakesShare context view share now := by
  rw [← addSealShare_accepted_iff_takesShare]
  rcases addSealShare_cases context view manager share now with
    ⟨hrefused, hsame⟩ | ⟨haccepted, session, hsession, hnew, hnext⟩
  · rw [hsame]
    exact iff_of_true rfl hrefused
  · refine iff_of_false ?_ (not_not.mpr haccepted)
    intro hsessions
    rw [hnext] at hsessions
    have hlookup := congrArg (fun map => map[share.blockHash]?) hsessions
    rw [getElem?_insert_eq, if_pos rfl, hsession, Option.some_inj] at hlookup
    have hshares := congrArg (fun found => found.shares[share.signerPubKey]?) hlookup
    rw [getElem?_insert_eq, if_pos rfl, hnew] at hshares
    cases hshares

theorem isSome_addSealShare (now : Int) {hash : Uint256} (hopen : manager.sessions[hash]?.isSome) :
    (manager.addSealShare context view share now).2.sessions[hash]?.isSome := by
  rcases addSealShare_cases context view manager share now with
    ⟨-, hsame⟩ | ⟨-, session, -, -, hnext⟩
  · rw [hsame]
    exact hopen
  · rw [hnext, getElem?_insert_eq]
    split
    · rfl
    · exact hopen

theorem makeShare_eq_ok {identity : CHMPIdentity} {blockHash : Uint256} {algo : Nat}
    {target : Int × Uint256} {share : CSealShare}
    (hshare : makeShare context view identity blockHash algo target = .ok share) :
    share = ownShare context identity blockHash algo target ∧ share.signature.IsValid := by
  simp only [makeShare, bind_eq_ok_iff, require_eq_ok_iff] at hshare
  obtain ⟨-, -, -, -, -, -, -, hsigned, hsame⟩ := hshare
  cases hsame
  exact ⟨rfl, hsigned⟩

/-- Whoever takes the share of the daemon makes the checks that the daemon makes first. -/
theorem TakesShare.makeShare {identity : CHMPIdentity} {blockHash : Uint256} {algo : Nat}
    {target : Int × Uint256} {now : Int} {manager : CSealManager}
    (htakes : manager.TakesShare context view
      (ownShare context identity blockHash algo target) now)
    (hsigned : (ownShare context identity blockHash algo target).signature.IsValid) :
    makeShare context view identity blockHash algo target =
      .ok (ownShare context identity blockHash algo target) := by
  obtain ⟨-, session, -, -, -, -, -, hchecked⟩ := htakes
  simp only [checkShare, bind_eq_ok_iff, require_eq_ok_iff] at hchecked
  obtain ⟨-, -, -, htier, -, -, -, hvalid, -, -, -, hselected, -⟩ := hchecked
  simp only [CSealManager.makeShare, bind_eq_ok_iff, require_eq_ok_iff]
  exact ⟨(), htier, (), hvalid, (), hselected, (), hsigned, rfl⟩

/-! ## Signing -/

/-- The sessions, the heights and the record of signed heights are the same. -/
structure SameRecords (next manager : CSealManager) : Prop where
  sessions : next.sessions = manager.sessions
  heightToHash : next.heightToHash = manager.heightToHash
  signedBlocks : next.signedBlocks = manager.signedBlocks

/-- An attempt to sign the block changes nothing: there is no identity, another block was
signed at the height, or the block was signed before and the share of the daemon is not taken. -/
def SigningIdle (blockHash : Uint256) (algo : Nat) (now : Int) : Prop :=
  ∀ identity ∈ context.identity,
    ¬ manager.Equivocates (manager.signingTarget blockHash).1 blockHash →
      manager.HasSigned (manager.signingTarget blockHash).1 blockHash ∧
      ((identity.sign blockHash algo).IsValid → ¬ manager.TakesShare context view
        (ownShare context identity blockHash algo (manager.signingTarget blockHash)) now)

section Signing

variable (blockHash : Uint256) (algo : Nat) (now : Int)

theorem isSome_signAndShare {hash : Uint256} (hopen : manager.sessions[hash]?.isSome) :
    (manager.signAndShare context view blockHash algo now).sessions[hash]?.isSome := by
  have hsigned : (manager.signBlock context view blockHash algo).2.sessions[hash]?.isSome := by
    rcases signBlock_cases context view manager blockHash algo with
      ⟨⟨hsame, -⟩, -⟩ | ⟨identity, -, -, hsign⟩
    · rw [hsame]
      exact hopen
    · rw [hsign]
      exact hopen
  unfold signAndShare
  split
  · rename_i heq
    rw [heq] at hsigned
    exact hsigned
  · rename_i share signed heq
    rw [heq] at hsigned
    exact isSome_addSealShare context view signed share now hsigned

theorem signAndShare_sameRecords_iff :
    SameRecords (manager.signAndShare context view blockHash algo now) manager ↔
      SigningIdle context view manager blockHash algo now := by
  unfold signAndShare SigningIdle
  rcases signBlock_cases context view manager blockHash algo with
    ⟨⟨hsame, reason, hreason⟩, hrefused⟩ | ⟨identity, hidentity, hother, hsign⟩
  · have hsign : manager.signBlock context view blockHash algo = (.error reason, manager) :=
      Prod.ext hreason hsame
    rw [hsign]
    refine iff_of_true ⟨rfl, rfl, rfl⟩ ?_
    intro identity hmem hother
    exact absurd (hrefused identity hmem) hother
  · rw [hsign]
    simp only [hidentity, Option.mem_some_iff, forall_eq', hother, not_false_eq_true,
      true_imp_iff]
    cases hshare : makeShare context view identity blockHash algo
        (manager.signingTarget blockHash) with
    | error reason =>
      constructor
      · intro hrecords
        refine ⟨(recordSigned_signedBlocks_iff _ _ _).mp hrecords.signedBlocks, ?_⟩
        intro hvalid htakes
        rw [htakes.makeShare context view hvalid] at hshare
        cases hshare
      · rintro ⟨hsigned, -⟩
        rw [recordSigned_eq_self hsigned]
        exact ⟨rfl, rfl, rfl⟩
    | ok share =>
      obtain ⟨rfl, hvalid⟩ := makeShare_eq_ok context view hshare
      dsimp only
      constructor
      · intro hrecords
        have hsigned : manager.HasSigned (manager.signingTarget blockHash).1 blockHash := by
          refine (recordSigned_signedBlocks_iff _ _ _).mp ?_
          rw [← hrecords.signedBlocks]
          exact (addSealShare_signedBlocks context view _ _ now).symm
        rw [recordSigned_eq_self hsigned] at hrecords
        exact ⟨hsigned, fun _ => (addSealShare_sessions_iff _ _ _ _ _).mp hrecords.sessions⟩
      · rintro ⟨hsigned, hrefused⟩
        rw [recordSigned_eq_self hsigned]
        rcases addSealShare_cases context view manager _ now with ⟨-, hsame⟩ | ⟨haccepted, -⟩
        · rw [hsame]
          exact ⟨rfl, rfl, rfl⟩
        · rw [addSealShare_accepted_iff_takesShare] at haccepted
          exact absurd haccepted (hrefused hvalid)

end Signing

end CSealManager

/-! ## The trackers -/

/-- The trackers need no preparation for a child of the parent: they are empty at activation, and
later they stand at the parent where the deterministic rules ask for it. -/
def HMPState.Current (params : Params) (parent : Chain) (state : HMPState) : Prop :=
  params.IsHMPActive (parent.height + 1) →
    if params.IsHMPActive parent.height then
      params.IsDeterministicSealActive (parent.height + 1) → state.anchor = parent.tipHash
    else state.tracker = CHMPPrivilegeTracker.cleared

/-- A rebuild moves the anchor to the parent, so that it shows even if it finds the same entries. -/
theorem HMPState.prepare_eq_self_iff (params : Params) (oracles : Oracles) (parent : Chain)
    (state : HMPState) :
    state.prepare params oracles parent = state ↔ state.Current params parent := by
  unfold prepare clearAtActivation Current rebuild
  by_cases hactive : params.IsHMPActive (parent.height + 1)
  · by_cases hparent : params.IsHMPActive parent.height
    · simp only [hactive, hparent, if_true, true_imp_iff]
      split
      · rename_i hmoved
        refine iff_of_false ?_ (fun hcurrent => hmoved.2 (hcurrent hmoved.1))
        intro hsame
        exact hmoved.2 (congrArg anchor hsame).symm
      · rename_i hstays
        exact iff_of_true rfl (not_and_not_right.mp hstays)
    · simp only [hactive, hparent, if_true, if_false, true_imp_iff, ite_self]
      constructor
      · intro hsame
        exact (congrArg tracker hsame).symm
      · intro hcleared
        rw [← hcleared]
  · simp [hactive]

namespace HMPStores

/-! ## Connecting a block that is rejected -/

/-- The tracker and the registry with the block that they stand at, the pool and the records of
the seal manager are the same. -/
structure SameRecords (next stores : HMPStores) : Prop where
  trackers : next.trackers = stores.trackers
  pool : next.pool = stores.pool
  manager : CSealManager.SameRecords next.manager stores.manager

/-- The trackers are current, and a block that takes part in sealing has a session and is not
newly signed. -/
structure Idle (context : SealContext) (call : ConnectCall) (parent : Chain) (block : HMPBlock)
    (stores : HMPStores) : Prop where
  current : stores.trackers.Current context.params parent
  sealing : TakesPart context.params block parent →
    stores.manager.sessions[block.hash]?.isSome ∧
      (call.sporkActive ∧ ¬ call.quarantined →
        SigningIdle context
          (view context.params context.oracles stores.trackers parent) stores.manager block.hash
          block.algo call.now)

section Rejected

variable {context : SealContext} {call : ConnectCall} {parent : Chain} {block : HMPBlock}
  {stores : HMPStores}

theorem connectBlock_rejected {reason : String}
    (hcoinbase : checkCoinbase context.params context.oracles (parent.height + 1)
      block.coinbase = .ok ())
    (hverify : call.fVerifyOnly = false)
    (hblock : checkBlock context.params context.oracles block parent = .ok ()) :
    (stores.connectBlock context call (.error reason) parent block).2 =
      if TakesPart context.params block parent then
        (stores.prepare context call parent).sealBlock context call parent block
      else stores.prepare context call parent := by
  unfold connectBlock
  rw [hcoinbase, hblock]
  simp only [hverify, Bool.false_eq_true, if_false, verdict, blockVerdict_seals_iff]

theorem prepare_eq_self (hcurrent : stores.trackers.Current context.params parent) :
    stores.prepare context call parent = stores := by
  have hquiet : reannounced context.params stores.trackers parent = [] := by
    refine if_neg ?_
    rintro ⟨hactive, hdeterministic, hmoved, hparent⟩
    have hanchored := hcurrent hactive
    rw [if_pos hparent] at hanchored
    exact hmoved (hanchored hdeterministic)
  unfold prepare
  rw [(prepare_eq_self_iff _ _ _ _).mpr hcurrent, hquiet]
  rfl

theorem isSome_sealBlock :
    (stores.sealBlock context call parent block).manager.sessions[block.hash]?.isSome := by
  have hannounced := isSome_announce stores.manager
    { blockHash := block.hash, height := parent.height + 1
      prevSealHash := prevSealHash context stores.manager parent } call.now
  unfold sealBlock
  split
  · exact isSome_signAndShare _ _ _ _ _ _ hannounced
  · exact hannounced

theorem sealBlock_sameRecords_iff :
    CSealManager.SameRecords (stores.sealBlock context call parent block).manager
        stores.manager ↔
      stores.manager.sessions[block.hash]?.isSome ∧
        (call.sporkActive ∧ ¬ call.quarantined →
          SigningIdle context
            (view context.params context.oracles stores.trackers parent) stores.manager
            block.hash block.algo call.now) := by
  by_cases hopen : stores.manager.sessions[block.hash]?.isSome
  · rw [and_iff_right hopen]
    unfold sealBlock
    rw [announce_eq_self call.now hopen]
    split
    · rename_i hsigns
      rw [signAndShare_sameRecords_iff]
      simp [hsigns]
    · rename_i hsigns
      exact iff_of_true ⟨rfl, rfl, rfl⟩ fun himpossible => absurd himpossible hsigns
  · refine iff_of_false (fun hsame => hopen ?_) (fun h => hopen h.1)
    rw [← hsame.sessions]
    exact isSome_sealBlock

theorem rejected_sameRecords_iff {next : HMPStores}
    (hnext : next = if TakesPart context.params block parent then
        (stores.prepare context call parent).sealBlock context call parent block
      else stores.prepare context call parent) :
    next.SameRecords stores ↔ Idle context call parent block stores := by
  have htrackers : next.trackers = stores.trackers.prepare context.params context.oracles parent := by
    rw [hnext]
    split <;> rfl
  constructor
  · intro hsame
    have hcurrent : stores.trackers.Current context.params parent :=
      (HMPState.prepare_eq_self_iff _ _ _ _).mp (htrackers.symm.trans hsame.trackers)
    refine ⟨hcurrent, fun htakes => ?_⟩
    rw [if_pos htakes, prepare_eq_self hcurrent] at hnext
    rw [← sealBlock_sameRecords_iff, ← hnext]
    exact hsame.manager
  · rintro ⟨hcurrent, hsealing⟩
    rw [prepare_eq_self hcurrent] at hnext
    rw [hnext]
    split
    · rename_i htakes
      exact ⟨rfl, rfl, sealBlock_sameRecords_iff.mpr (hsealing htakes)⟩
    · exact ⟨rfl, rfl, rfl, rfl, rfl⟩

end Rejected

namespace Sample

def daemon : SealContext where
  params := {}
  oracles := HMP.Sample.trusting
  schemes := HMP.Sample.acceptingSchemes
  identity := some
    { publicKey := 1, signVRF := fun _ _ => 1, sign := fun _ _ => 1
      createProof := fun _ _ => ([], 0) }

def signingCall : ConnectCall where
  sporkActive := true
  quarantined := false
  now := 0

def minedBlock (hash : Uint256) : HMPBlock where
  hash := hash
  algo := 0
  coinbase := .special (some { nVersion := 4, minerIdentity := 7 })

def firstChain : Chain := [minedBlock 100]

def started : HMPStores where
  trackers := { fresh with anchor := some 100 }
  pool := { pending := ∅ }
  manager := .empty

def rejected : HMPStores :=
  (started.connectBlock daemon signingCall (.error "bad-cb-amount") firstChain
    (minedBlock 101)).2

def silentCall : ConnectCall where
  sporkActive := false
  quarantined := false
  now := 0

theorem rejected_idle : Idle daemon silentCall firstChain (minedBlock 101) rejected where
  current := fun _ _ => rfl
  sealing := by
    intro _
    refine ⟨by decide +kernel, ?_⟩
    intro hsigns
    exact absurd hsigns.1 (by decide)

end Sample

open HMPStores.Sample

end HMPStores

end Kerrigan.HMP
