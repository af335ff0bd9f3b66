import Kerrigan.HMP.Connect
import Kerrigan.Lib.Run

/-!
# The trackers of a node

The privilege tracker, the commitment registry and the anchor that tells which block they
reflect, as they change when blocks are connected and disconnected, and when the node
rebuilds them from the blocks on disk.
-/

namespace Kerrigan.HMP

open Primitives Consensus Lib CHMPPrivilegeTracker

/-- `g_hmp_privilege`, `g_hmp_commitments` and `m_hmp_state_anchor`. -/
structure HMPState where
  tracker : CHMPPrivilegeTracker
  registry : CHMPCommitmentRegistry
  anchor : Option Uint256

namespace HMPState

def fresh : HMPState where
  tracker := cleared
  registry := .empty
  anchor := none

variable (params : Params) (oracles : Oracles) (state : HMPState) (block : HMPBlock) (height : Int)
  (parent : Chain) (commitments : Option (CBLSPublicKey × List CBLSPublicKey))
  (privilege : Option CHMPWindowEntry)

def record : HMPState where
  tracker :=
    match privilege with
    | none => state.tracker
    | some entry => state.tracker.blockConnected params entry
  registry :=
    match commitments with
    | none => state.registry
    | some (miner, explicit) => state.registry.blockConnected params height miner explicit
  anchor := state.anchor

theorem record_tracker : (state.record params height commitments privilege).tracker =
      privilege.toList.foldl (blockConnected params) state.tracker := by
  cases privilege <;> rfl

/-! ## Rebuilding -/

def replayBlock : HMPState :=
  if params.getHMPStage (parent.height + 1) = 1 then state
  else
    match block.coinbase, block.hmpPayload with
    | .other, _ =>
        state.record params (parent.height + 1) none
          (some { height := parent.height + 1, algo := block.algo, minerPubKey := 0 })
    | .special _, none => state
    | .special _, some cbTx =>
        let committed := state.record params (parent.height + 1)
          (some (cbTx.minerIdentity, cbTx.vCommitments)) none
        committed.record params (parent.height + 1) none
          (if params.getHMPStage (parent.height + 1) < 3 then
            some
              { height := parent.height + 1, algo := block.algo
                minerPubKey := cbTx.minerIdentity }
          else
            some (sealEntry params block parent cbTx
              (countedSigners params oracles committed.registry committed.tracker block
                (parent.height + 1) cbTx)))

def replay (params : Params) (oracles : Oracles) : Nat → Chain → HMPState → HMPState
  | 0, _, state => state
  | _ + 1, [], state => state
  | count + 1, block :: parent, state =>
      replayBlock params oracles (replay params oracles count parent state) block parent

def maxLookback : Nat :=
  max (max (params.nHMPDominanceCatchMaxLookback + params.nHMPPrivilegeWindow)
      (params.nHMPPrivilegeWindow + params.nHMPWarmupBlocks))
    (max sealLongWindow (params.nHMPCommitmentOffset * 2))

def startHeight (target : Int) : Int :=
  max (max 0 (target - maxLookback params)) params.HMPHeight

def rebuild (target : Chain) (state : HMPState) : HMPState :=
  if params.IsHMPActive target.height then
    { replay params oracles (target.height - startHeight params target.height + 1).toNat target
        { state with tracker := cleared } with
      anchor := target.tipHash }
  else state

/-! ## Connecting and disconnecting -/

def clearAtActivation (state : HMPState) : HMPState :=
  if params.IsHMPActive parent.height then state else { state with tracker := cleared }

/-- What `ConnectBlock` does to the trackers before it reads them: they are cleared at the
activation height, and rebuilt when they do not reflect the parent. -/
def prepare (state : HMPState) : HMPState :=
  if params.IsHMPActive (parent.height + 1) then
    if params.IsDeterministicSealActive (parent.height + 1) ∧ state.anchor ≠ parent.tipHash then
      (state.clearAtActivation params parent).rebuild params oracles parent
    else state.clearAtActivation params parent
  else state

def verdict : HMPVerdict :=
  blockVerdict params oracles state.registry state.tracker block parent

/-- The updates deferred to the end of `ConnectBlock`. -/
def apply (verdict : HMPVerdict) : HMPState :=
  { state.record params (parent.height + 1) verdict.commitments verdict.privilege with
    anchor := some block.hash }

def disconnect : HMPState where
  tracker := state.tracker.blockDisconnected height
  registry := state.registry.blockDisconnected height
  anchor := none

end HMPState

/-! ## Histories -/

/-- The active chain and the trackers of a node. -/
structure HMPNode where
  chain : Chain
  state : HMPState

inductive HMPAction where
  | connect (block : HMPBlock) (othersPass : Bool)
  | disconnect
  | rebuild
  | restart

variable (params : Params) (oracles : Oracles) (node : HMPNode)

def assignedWeight (block : HMPBlock) : Except String (Option Nat) := do
  checkCoinbase params oracles (node.chain.height + 1) block.coinbase
  checkBlock params oracles block node.chain
  return ((node.state.prepare params oracles node.chain).verdict params oracles block
    node.chain).nSealWeight

def hmpStep : HMPAction → HMPNode
  | .connect block othersPass =>
      match checkCoinbase params oracles (node.chain.height + 1) block.coinbase with
      | .error _ => node
      | .ok () =>
          let prepared := node.state.prepare params oracles node.chain
          match checkBlock params oracles block node.chain, othersPass with
          | .ok (), true =>
              { chain := block :: node.chain
                state := prepared.apply params block node.chain
                  (prepared.verdict params oracles block node.chain) }
          | _, _ => { node with state := prepared }
  | .disconnect =>
      match node.chain with
      | _ :: parent :: older =>
          { chain := parent :: older, state := node.state.disconnect node.chain.height }
      | _ => node
  | .rebuild => { node with state := node.state.rebuild params oracles node.chain }
  | .restart => { node with state := HMPState.fresh.rebuild params oracles node.chain }

/-- What an action can make of a node. -/
inductive HMPStep (params : Params) (oracles : Oracles) (node : HMPNode) : HMPNode → Prop
  | unchanged : HMPStep params oracles node node
  | rejected :
      HMPStep params oracles node
        { node with state := node.state.prepare params oracles node.chain }
  | connected (block : HMPBlock)
      (hcoinbase : checkCoinbase params oracles (node.chain.height + 1) block.coinbase = .ok ())
      (hblock : checkBlock params oracles block node.chain = .ok ()) :
      HMPStep params oracles node
        { chain := block :: node.chain
          state := (node.state.prepare params oracles node.chain).apply params block node.chain
            ((node.state.prepare params oracles node.chain).verdict params oracles block
              node.chain) }
  | disconnected (tip parent : HMPBlock) (older : Chain)
      (hchain : node.chain = tip :: parent :: older) :
      HMPStep params oracles node
        { chain := parent :: older, state := node.state.disconnect node.chain.height }
  | rebuilt :
      HMPStep params oracles node
        { node with state := node.state.rebuild params oracles node.chain }
  | restarted :
      HMPStep params oracles node
        { node with state := HMPState.fresh.rebuild params oracles node.chain }

theorem hmpStep_cases (action : HMPAction) :
    HMPStep params oracles node (hmpStep params oracles node action) := by
  cases action with
  | connect block othersPass =>
    simp only [hmpStep]
    split
    · exact .unchanged
    · rename_i hcoinbase
      split
      · rename_i hblock
        exact .connected block hcoinbase hblock
      · exact .rejected
  | disconnect =>
    simp only [hmpStep]
    split
    · rename_i tip parent older hchain
      exact .disconnected tip parent older hchain
    · exact .unchanged
  | rebuild => exact .rebuilt
  | restart => exact .restarted

theorem always_of_hmpStep {params : Params} {oracles : Oracles} {property : HMPNode → Prop}
    (hpreserved : ∀ node next, HMPStep params oracles node next → property node → property next)
    {start : HMPNode} (hstart : property start) (actions : List HMPAction) :
    Always (hmpStep params oracles) property start actions :=
  always_of_preserved
    (fun node action => hpreserved node _ (hmpStep_cases params oracles node action))
    hstart actions

def HMPNode.start (genesis : HMPBlock) : HMPNode where
  chain := [genesis]
  state := .fresh

/-- The node after a history from its first block. -/
def HMPNode.after (params : Params) (oracles : Oracles) (genesis : HMPBlock)
    (actions : List HMPAction) : HMPNode :=
  run (hmpStep params oracles) (.start genesis) actions

end Kerrigan.HMP
