import Kerrigan.Validation.BlockIndex
import Kerrigan.Lib.Ancestry
import Mathlib.Data.Prod.Lex
import Mathlib.Order.Lex

/-!
# Choice of the active chain

`ActivateBestChain` looks for the best candidate, disconnects the active chain down to the
fork and connects the blocks of the candidate's branch.  A candidate is compared by the sum of
seal-weighted work of its entry.  Blocks that were never connected count with a neutral
weight there; `ConnectBlock` finds the weight of a block and changes the sum while the branch
is being connected.  What `ConnectBlock` reads besides the index is a parameter.
-/

namespace Kerrigan.Validation

open Primitives Lib

/-! ## Comparison -/

variable (address : Uint256 → Nat) (pa pb : Uint256 × CBlockIndex)

/-- `CBlockIndexWorkComparator` on entries with their hashes; `address` is where an entry
lies in memory. -/
def workComparator : Bool :=
  if pa.2.nChainSealWork > pb.2.nChainSealWork then false
  else if pa.2.nChainSealWork < pb.2.nChainSealWork then true
  else if pa.2.nChainWork > pb.2.nChainWork then false
  else if pa.2.nChainWork < pb.2.nChainWork then true
  else if pa.2.nSequenceId < pb.2.nSequenceId then false
  else if pa.2.nSequenceId > pb.2.nSequenceId then true
  else if address pa.1 < address pb.1 then false
  else if address pa.1 > address pb.1 then true
  else false

/-- What the comparator orders by, most significant first. -/
abbrev WorkKey := Nat ×ₗ Nat ×ₗ Natᵒᵈ ×ₗ Natᵒᵈ

def workKey (hash : Uint256) (entry : CBlockIndex) : WorkKey :=
  toLex (entry.nChainSealWork, toLex (entry.nChainWork,
    toLex (OrderDual.toDual entry.nSequenceId, OrderDual.toDual (address hash))))

theorem workComparator_iff : workComparator address pa pb = true ↔
      workKey address pa.1 pa.2 < workKey address pb.1 pb.2 := by
  unfold workComparator workKey
  simp only [Prod.Lex.toLex_lt_toLex, OrderDual.toDual_lt_toDual, EmbeddingLike.apply_eq_iff_eq]
  split_ifs <;> simp <;> omega

namespace BlockMap

variable (address : Uint256 → Nat) (index : BlockMap) (hash : Uint256)

def entryOf : CBlockIndex :=
  index[hash]?.getD
    { pprev := none, nHeight := 0, blockProof := 0, nChainWork := 0, nChainSealWork := 0 }

def keyOf : WorkKey :=
  workKey address hash (index.entryOf hash)

variable (first second : Uint256)

def less : Bool :=
  workComparator address (first, index.entryOf first) (second, index.entryOf second)

theorem less_iff : index.less address first second = true ↔
      index.keyOf address first < index.keyOf address second :=
  workComparator_iff address _ _

def parentOf : Option Uint256 :=
  index[hash]?.bind CBlockIndex.pprev

def branchOf : List Uint256 :=
  ancestry index.parentOf index.heightOf hash

end BlockMap

/-! ## The node -/

/-- What `ConnectBlock` writes into the entry of a block: without a seal stage the sum counts
the proof in full; with one the weight is stored, and the entry is taken out of the candidates
and put back. -/
inductive SealWrite
  | neutral
  | weighed (nSealWeight : Nat)
  deriving DecidableEq

inductive ConnectOutcome
  | connected (write : SealWrite)
  /-- A rule is violated; the entry may have been written before that was found.  A mutated
  block is not marked. -/
  | invalid (write : Option SealWrite) (mutated : Bool)
  deriving DecidableEq

/-- The rules that are not part of the choice: what connecting a block finds, as a function of
the state of the other stores, and where entries lie in memory. -/
structure ConnectRules (σ : Type) where
  connectBlock : σ → Uint256 → ConnectOutcome × σ
  disconnectBlock : σ → Uint256 → σ
  /-- The first height at which `ConnectBlock` writes weights. -/
  sealHeight : Nat
  address : Uint256 → Nat

/-- The part of `CChainState` that chooses the chain. -/
structure ForkNode (σ : Type) where
  index : BlockMap
  candidates : List Uint256
  chain : List Uint256
  stores : σ

namespace CBlockIndex

variable (entry : CBlockIndex)

/-- The write of `ConnectBlock` over a parent with the sum. -/
def applyWrite (prevSealWork : Nat) : SealWrite → CBlockIndex
  | .neutral =>
      { entry with
        nSealWeight := 10000
        nChainSealWork := addWork prevSealWork entry.blockProof }
  | .weighed nSealWeight =>
      { entry with
        nSealWeight := nSealWeight
        nChainSealWork := addWork prevSealWork (weightedProof entry.blockProof nSealWeight) }

/-- The block cannot be used for the active chain. -/
def unusable : Bool :=
  entry.failed || !entry.haveData || entry.conflicting

end CBlockIndex

namespace BlockMap

variable (index : BlockMap)

def modifyEntry (change : CBlockIndex → CBlockIndex) (hash : Uint256) : BlockMap :=
  match index[hash]? with
  | none => index
  | some entry => index.insert hash (change entry)

def writeSeal (sealHeight : Nat) (hash : Uint256) (write : SealWrite) : BlockMap :=
  if index.heightOf hash < sealHeight then index
  else index.modifyEntry
    (fun entry => entry.applyWrite (index.prevSealWork entry.pprev) write) hash

end BlockMap

namespace ForkNode

variable {σ : Type} (rules : ConnectRules σ) (node : ForkNode σ) (hash : Uint256)

def tip : Option Uint256 := node.chain.head?

/-! ## `FindMostWorkChain` -/

def bestCandidate (address : Uint256 → Nat) (index : BlockMap) : List Uint256 → Option Uint256
  | [] => none
  | hash :: rest =>
      match bestCandidate address index rest with
      | none => some hash
      | some best => if index.less address best hash then some hash else some best

/-- The part of the branch that is not on the active chain, newest first. -/
def offChain : List Uint256 :=
  (node.index.branchOf hash).takeWhile (fun block => block ∉ node.chain)

def markAbove (bad : CBlockIndex) (entry : CBlockIndex) : CBlockIndex :=
  if bad.failed then { entry with failed := true }
  else if bad.conflicting then { entry with conflicting := true }
  else entry

/-- Give up a candidate at the first unusable block below it. -/
def dropBranch (bad : Uint256) : ForkNode σ :=
  let above := (node.offChain hash).takeWhile (fun block => block ≠ bad)
  { node with
    index := above.foldl
      (fun index block => index.modifyEntry (markAbove (node.index.entryOf bad)) block) node.index
    candidates := node.candidates.filter (fun block => block ∉ above ∧ block ≠ bad) }

def findMostWorkLoop (address : Uint256 → Nat) : Nat → ForkNode σ → ForkNode σ × Option Uint256
  | 0, node => (node, none)
  | fuel + 1, node =>
      match bestCandidate address node.index node.candidates with
      | none => (node, none)
      | some hash =>
          match (node.offChain hash).find? (fun block => (node.index.entryOf block).unusable) with
          | none => (node, some hash)
          | some bad => findMostWorkLoop address fuel (node.dropBranch hash bad)

def findMostWorkChain (address : Uint256 → Nat) (node : ForkNode σ) :
    ForkNode σ × Option Uint256 :=
  findMostWorkLoop address (node.candidates.length + 1) node

/-! ## `ActivateBestChainStep` -/

def pruneBlockIndexCandidates (address : Uint256 → Nat) (node : ForkNode σ) : ForkNode σ :=
  match node.tip with
  | none => node
  | some tip =>
      { node with
        candidates := node.candidates.filter (fun block => !node.index.less address block tip) }

variable (write : SealWrite)

/-- The entry and the candidates after a write of `ConnectBlock`. -/
def writeSeal : ForkNode σ :=
  { node with
    index := node.index.writeSeal rules.sealHeight hash write
    candidates :=
      if node.index.heightOf hash < rules.sealHeight then node.candidates
      else
        match write with
        | .neutral => node.candidates
        | .weighed _ => hash :: node.candidates.filter (fun block => block ≠ hash) }

def connectTip (stores : σ) : ForkNode σ :=
  { node.writeSeal rules hash write with
    chain := hash :: node.chain
    stores := stores }

def asFailed (entry : CBlockIndex) : CBlockIndex :=
  { entry with failed := true }

def invalidBlockFound : ForkNode σ :=
  { node with
    index := node.index.modifyEntry asFailed hash
    candidates := node.candidates.filter (fun block => block ≠ hash) }

def rejectTip (write : Option SealWrite) (mutated : Bool) (stores : σ) : ForkNode σ :=
  let written := write.elim node (node.writeSeal rules hash)
  { if mutated then written else written.invalidBlockFound hash with stores := stores }

def findFork : Option Uint256 :=
  (node.index.branchOf hash).find? (fun block => block ∈ node.chain)

def keptChain : List Uint256 :=
  (node.findFork hash).elim [] (fun fork => node.chain.dropWhile (fun block => block ≠ fork))

def disconnectToFork : ForkNode σ :=
  let kept := node.keptChain hash
  { node with
    chain := kept
    stores := (node.chain.take (node.chain.length - kept.length)).foldl rules.disconnectBlock
      node.stores }

def isBetter (pindexOldTip : Option Uint256) : Bool :=
  match pindexOldTip, node.tip with
  | none, _ => true
  | some _, none => false
  | some old, some tip =>
      (node.index.entryOf old).nChainSealWork < (node.index.entryOf tip).nChainSealWork

def connectBlocks (rules : ConnectRules σ) (pindexOldTip : Option Uint256) :
    List Uint256 → ForkNode σ → ForkNode σ × Bool
  | [], node => (node, false)
  | hash :: rest, node =>
      match rules.connectBlock node.stores hash with
      | (.invalid write mutated, stores) => (node.rejectTip rules hash write mutated stores, true)
      | (.connected write, stores) =>
          let next :=
            (node.connectTip rules hash write stores).pruneBlockIndexCandidates rules.address
          if next.isBetter pindexOldTip then (next, false)
          else connectBlocks rules pindexOldTip rest next

def activateBestChainStep (pindexMostWork : Uint256) : ForkNode σ × Bool :=
  let base := node.disconnectToFork rules pindexMostWork
  connectBlocks rules node.tip (base.offChain pindexMostWork).reverse base

/-! ## `ActivateBestChain` -/

/-- The variables of the two loops. -/
structure Activation (σ : Type) where
  node : ForkNode σ
  pindexMostWork : Option Uint256
  startingTip : Option Uint256
  blocksConnected : Bool

namespace Activation

variable (rules : ConnectRules σ) (state : Activation σ)

def select : Activation σ :=
  match state.pindexMostWork with
  | some _ => state
  | none =>
      let found := state.node.findMostWorkChain rules.address
      { state with node := found.1, pindexMostWork := found.2 }

def fellBehind : Bool :=
  match state.node.tip, state.startingTip with
  | none, _ => true
  | some _, none => false
  | some tip, some starting => state.node.index.less rules.address tip starting

def nextRound : Activation σ :=
  { state with startingTip := state.node.tip, blocksConnected := false }

def advance (target : Uint256) : Activation σ :=
  let result := state.node.activateBestChainStep rules target
  { state with
    node := result.1
    pindexMostWork := if result.2 then none else some target
    blocksConnected := true }

/-- One turn of the inner loop: the call has returned, or goes on. -/
inductive Turn (σ : Type)
  | returned (state : Activation σ)
  | goesOn (state : Activation σ)

/-- What follows the inner loop: the outer loop ends at the target. -/
def leaveInner : Turn σ :=
  if state.node.tip = state.pindexMostWork then .returned state else .goesOn state.nextRound

def turn : Turn σ :=
  let selected := state.select rules
  match selected.pindexMostWork with
  | none => if selected.blocksConnected then selected.leaveInner else .returned selected
  | some target =>
      if some target = selected.node.tip then
        if selected.blocksConnected then selected.leaveInner else .returned selected
      else
        let advanced := selected.advance rules target
        if advanced.fellBehind rules then .goesOn advanced else advanced.leaveInner

def loop (rules : ConnectRules σ) : Nat → Activation σ → Option (Activation σ)
  | 0, _ => none
  | fuel + 1, state =>
      match state.turn rules with
      | .returned final => some final
      | .goesOn next => loop rules fuel next

end Activation

def activateBestChain (fuel : Nat) (node : ForkNode σ) : Option (Activation σ) :=
  Activation.loop rules fuel
    { node := node, pindexMostWork := none, startingTip := node.tip, blocksConnected := false }

end ForkNode

end Kerrigan.Validation
