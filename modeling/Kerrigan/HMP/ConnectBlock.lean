import Kerrigan.HMP.Node
import Kerrigan.HMP.SealManager

/-!
# ConnectBlock and its stores

`ConnectBlock` reads and writes four Hivemind stores: the privilege tracker, the commitment
registry, the pool of pending commitments and the seal manager.  The first three change
after all checks of the block; the seal manager hears of the block, and the daemon signs it,
before the checks of its transactions and of its payments.
-/

namespace Kerrigan.HMP

open Primitives Consensus Lib

/-! ## The commitment pool -/

structure CPubKeyCommit where
  pubKey : CBLSPublicKey
  signature : CBLSSignature
  nTimestamp : Int

/-- The commitments that wait for a block. -/
structure CHMPCommitPool where
  pending : Std.ExtTreeMap CBLSPublicKey CPubKeyCommit

namespace CHMPCommitPool

def remove (pool : CHMPCommitPool) (pubkey : CBLSPublicKey) : CHMPCommitPool where
  pending := pool.pending.erase pubkey

def cleanup (pool : CHMPCommitPool) (minerIdentity : CBLSPublicKey)
    (keys : List CBLSPublicKey) : CHMPCommitPool :=
  keys.foldl remove (if minerIdentity.IsValid then pool.remove minerIdentity else pool)

end CHMPCommitPool

/-! ## Signing a new block -/

namespace CSealManager

def signAndShare (context : SealContext) (view : TrackerView) (manager : CSealManager)
    (blockHash : Uint256) (algo : Nat) (now : Int) : CSealManager :=
  match manager.signBlock context view blockHash algo with
  | (.error _, signed) => signed
  | (.ok share, signed) => (signed.addSealShare context view share now).2

/-- A block with its height and the hash before it, as it is announced to the manager. -/
structure Announcement where
  blockHash : Uint256
  height : Int
  prevSealHash : Uint256

def announce (now : Int) (manager : CSealManager) (item : Announcement) : CSealManager :=
  manager.onNewBlock item.blockHash item.height item.prevSealHash now

end CSealManager

/-! ## The stores -/

structure HMPStores where
  trackers : HMPState
  pool : CHMPCommitPool
  manager : CSealManager

/-- What a call of `ConnectBlock` finds besides the stores. -/
structure ConnectCall where
  fVerifyOnly : Bool := false
  sporkActive : Bool
  quarantined : Bool
  now : Int

def TakesPart (params : Params) (block : HMPBlock) (parent : Chain) : Prop :=
  params.IsHMPActive (parent.height + 1) ∧ 3 ≤ params.getHMPStage (parent.height + 1) ∧
    block.hmpPayload.isSome

instance (params : Params) (block : HMPBlock) (parent : Chain) :
    Decidable (TakesPart params block parent) :=
  inferInstanceAs (Decidable (_ ∧ _ ∧ _))

theorem blockVerdict_seals_iff (params : Params) (oracles : Oracles)
    (registry : CHMPCommitmentRegistry) (tracker : CHMPPrivilegeTracker) (block : HMPBlock)
    (parent : Chain) :
    (blockVerdict params oracles registry tracker block parent).seals = true ↔
      TakesPart params block parent := by
  unfold blockVerdict TakesPart
  by_cases hactive : params.IsHMPActive (parent.height + 1)
  · by_cases hfirst : params.getHMPStage (parent.height + 1) = 1
    · simp [hactive, hfirst]
    · rw [if_neg (not_not.mpr hactive), if_neg hfirst]
      cases hcoinbase : block.coinbase with
      | other => simp [HMPBlock.hmpPayload, hcoinbase]
      | special payload =>
        cases hpayload : block.hmpPayload with
        | none => simp
        | some cbTx =>
          simp only [payloadVerdict, hactive, Option.isSome_some, true_and, and_true]
          by_cases hstage : params.getHMPStage (parent.height + 1) < 3
          · simp [hstage]
          · simp only [hstage, if_false, true_iff]
            omega
  · simp [hactive]

namespace HMPStores

variable (context : SealContext) (call : ConnectCall) (params : Params)

def view (oracles : Oracles) (trackers : HMPState) (tip : Chain) : TrackerView where
  tierOf := fun key algo =>
    trackers.tracker.getTier params oracles key algo (tip.tipHash.getD 0)
  isCommitted := fun key height => trackers.registry.isCommitted params key height

/-- The blocks among the given number at the end of the chain that `RebuildHMPState`
announces to the seal manager, oldest first. -/
def announcements (params : Params) : Nat → Chain → List CSealManager.Announcement
  | 0, _ => []
  | _ + 1, [] => []
  | count + 1, block :: parent =>
      announcements params count parent ++
        if 3 ≤ params.getHMPStage (Chain.height parent + 1) ∧ block.hmpPayload.isSome then
          [{ blockHash := block.hash, height := Chain.height parent + 1
             prevSealHash := (Chain.tipHash parent).getD 0 }]
        else []

def reannounced (trackers : HMPState) (parent : Chain) : List CSealManager.Announcement :=
  if params.IsHMPActive (parent.height + 1) ∧
      params.IsDeterministicSealActive (parent.height + 1) ∧
      trackers.anchor ≠ parent.tipHash ∧ params.IsHMPActive parent.height then
    announcements params
      (parent.height - HMPState.startHeight params parent.height + 1).toNat parent
  else []

def prepare (parent : Chain) (stores : HMPStores) : HMPStores where
  trackers := stores.trackers.prepare context.params context.oracles parent
  pool := stores.pool
  manager := (reannounced context.params stores.trackers parent).foldl
    (CSealManager.announce call.now) stores.manager

def prevSealHash (manager : CSealManager) (parent : Chain) : Uint256 :=
  match parent.tipHash with
  | none => 0
  | some hash =>
      if Params.scheduledAt context.params.nPrevSealHashFixHeight (parent.height + 1) then hash
      else
        match manager.getSeal hash with
        | none => hash
        | some assembled => context.schemes.sealHash assembled

def sealBlock (parent : Chain) (block : HMPBlock) (stores : HMPStores) : HMPStores :=
  let opened := stores.manager.announce call.now
    { blockHash := block.hash, height := parent.height + 1
      prevSealHash := prevSealHash context stores.manager parent }
  { stores with
    manager :=
      if call.sporkActive ∧ ¬ call.quarantined then
        opened.signAndShare context (view context.params context.oracles stores.trackers parent)
          block.hash block.algo call.now
      else opened }

def apply (block : HMPBlock) (parent : Chain) (verdict : HMPVerdict) (stores : HMPStores) :
    HMPStores where
  trackers := stores.trackers.apply params block parent verdict
  pool :=
    match verdict.commitments with
    | none => stores.pool
    | some (miner, explicit) => stores.pool.cleanup miner explicit
  manager := stores.manager

/-- `ConnectBlock` with `fJustCheck` false.  The checks of the transactions, of InstantSend
and of the payments come after the seal manager has heard of the block; their result is
given. -/
def connectBlock (lateChecks : Except String Unit) (parent : Chain) (block : HMPBlock)
    (stores : HMPStores) : Except String Unit × HMPStores :=
  match checkCoinbase context.params context.oracles (parent.height + 1) block.coinbase with
  | .error reason => (.error reason, stores)
  | .ok () =>
      if call.fVerifyOnly then (lateChecks, stores)
      else
        let prepared := stores.prepare context call parent
        match checkBlock context.params context.oracles block parent with
        | .error reason => (.error reason, prepared)
        | .ok () =>
            let verdict := prepared.trackers.verdict context.params context.oracles block parent
            let announced :=
              if verdict.seals then prepared.sealBlock context call parent block else prepared
            match lateChecks with
            | .error reason => (.error reason, announced)
            | .ok () => (.ok (), announced.apply context.params block parent verdict)

end HMPStores

end Kerrigan.HMP
