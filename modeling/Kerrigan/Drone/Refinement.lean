import Kerrigan.Drone.Manager
import Kerrigan.Lib.Run

/-!
# The manager refines the fold of the list transition

The list of a block is the left fold of `BuildListFromBlock` over the blocks since the payout
height, starting from the empty list.  Whatever the manager holds, in the EvoDB or in a cache,
agrees with that fold.
-/

namespace Kerrigan.Drone

open Primitives Consensus Lib CDroneListManager CDroneList

/-! ## The pure list of a block -/

/-- The active blocks up to a block, oldest first, each with its height. -/
def sinceActivation (params : Params) : CBlockIndex → List (Int × CBlock)
  | .genesis _ => []
  | .child pprev block =>
      if params.isDronePayoutActive (pprev.nHeight + 1) then
        sinceActivation params pprev ++ [(pprev.nHeight + 1, block)]
      else []

def baseline (params : Params) : CBlockIndex → CDroneList
  | .genesis hash => empty hash 0
  | .child pprev block =>
      if params.isDronePayoutActive (pprev.nHeight + 1) then baseline params pprev
      else empty block.hash (pprev.nHeight + 1)

def nextList (params : Params) (list : CDroneList) (entry : Int × CBlock) : Option CDroneList :=
  (buildListFromBlock params list entry.2 entry.1).map (fun newList =>
    { newList with blockHash := entry.2.hash })

def foldList (params : Params) (index : CBlockIndex) : Option CDroneList :=
  (sinceActivation params index).foldlM (nextList params) (baseline params index)

variable {params : Params} {pprev : CBlockIndex} {block : CBlock}

theorem foldList_genesis (params : Params) (hash : Uint256) :
    foldList params (.genesis hash) = some (empty hash 0) := rfl

theorem foldList_inactive (hinactive : ¬ params.isDronePayoutActive (pprev.nHeight + 1)) :
    foldList params (.child pprev block) =
      some (empty block.hash (pprev.nHeight + 1)) := by
  rw [foldList, sinceActivation, baseline, if_neg hinactive, if_neg hinactive]
  rfl

theorem foldList_active (hactive : params.isDronePayoutActive (pprev.nHeight + 1)) :
    foldList params (.child pprev block) =
      (foldList params pprev).bind (fun list =>
        nextList params list (pprev.nHeight + 1, block)) := by
  rw [foldList, sinceActivation, baseline, if_pos hactive, if_pos hactive, List.foldlM_append]
  simp only [List.foldlM_cons, List.foldlM_nil, bind_pure]
  rfl

/-! ## Block trees -/

/-- The blocks known to a node: closed under parents, and no two with the same hash. -/
structure BlockTree where
  root : Uint256
  mem : CBlockIndex → Prop
  root_mem : mem (.genesis root)
  pprev_mem : ∀ pprev block, mem (.child pprev block) → mem pprev
  hash_injective : ∀ first second, mem first → mem second → first.hash = second.hash →
    first = second

def ProcessedSince (params : Params) (processed : List CBlockIndex) : CBlockIndex → Prop
  | .genesis _ => True
  | .child pprev block =>
      params.isDronePayoutActive (pprev.nHeight + 1) →
        .child pprev block ∈ processed ∧ ProcessedSince params processed pprev

/-! ## Agreement of the stored data with the fold -/

def IsDiffOf (params : Params) (diff : CDroneListDiff) : CBlockIndex → Prop
  | .genesis _ => False
  | .child pprev block =>
      ∃ oldList newList nHeight, foldList params pprev = some oldList ∧
        foldList params (.child pprev block) = some newList ∧
        newList.blockHash = block.hash ∧ newList.nHeight = pprev.nHeight + 1 ∧
        diff = { buildDiff oldList newList with nHeight := nHeight }

structure Coherent (params : Params) (tree : BlockTree) (manager : CDroneListManager) : Prop where
  snapshots : ∀ index, tree.mem index → ∀ list,
    manager.evoDb.snapshots index.hash = some list → foldList params index = some list
  lists : ∀ index, tree.mem index → ∀ list,
    manager.droneListsCache index.hash = some list → foldList params index = some list
  diffs : ∀ index, tree.mem index → ∀ diff,
    manager.evoDb.diffs index.hash = some diff → IsDiffOf params diff index
  diffsCache : ∀ index, tree.mem index → ∀ diff,
    manager.droneListDiffsCache index.hash = some diff → IsDiffOf params diff index

def Recorded (params : Params) (evoDb : DroneDb) : CBlockIndex → Prop
  | .genesis _ => True
  | .child pprev block =>
      params.isDronePayoutActive (pprev.nHeight + 1) →
        (∃ diff, evoDb.diffs block.hash = some diff) ∧ Recorded params evoDb pprev

variable {hash : Uint256}

theorem update_eq_some {α : Type} {cache : Uint256 → Option α} {other : Uint256} {value : Option α}
    {found : α} (hfound : Function.update cache hash value other = some found) :
    cache other = some found ∨ other = hash ∧ value = some found := by
  by_cases hsame : other = hash
  · rw [hsame, Function.update_self] at hfound
    exact Or.inr ⟨hsame, hfound⟩
  · rw [Function.update_of_ne hsame] at hfound
    exact Or.inl hfound

theorem emplace_eq_some {α : Type} {cache : Uint256 → Option α} {other : Uint256} {value found : α}
    (hfound : emplace cache hash value other = some found) :
    cache other = some found ∨ other = hash ∧ some value = some found := by
  unfold emplace at hfound
  split at hfound
  · exact Or.inl hfound
  · exact update_eq_some hfound

variable {index : CBlockIndex}

theorem IsDiffOf.setHeight {diff : CDroneListDiff} (hdiff : IsDiffOf params diff index)
    (nHeight : Int) :
    IsDiffOf params { diff with nHeight := nHeight } index := by
  cases index with
  | genesis hash => exact hdiff
  | child pprev block =>
    obtain ⟨oldList, newList, _, hold, hnew, hhash, hheight, rfl⟩ := hdiff
    exact ⟨oldList, newList, nHeight, hold, hnew, hhash, hheight, rfl⟩

theorem IsDiffOf.replay {diff : CDroneListDiff} (hdiff : IsDiffOf params diff (.child pprev block)) :
    ∃ list, foldList params (.child pprev block) = some list ∧
      (foldList params pprev).bind (fun base =>
        applyDiff base block.hash (pprev.nHeight + 1) diff) = some list := by
  obtain ⟨oldList, newList, nHeight, hold, hnew, hhash, hheight, rfl⟩ := hdiff
  refine ⟨newList, hnew, ?_⟩
  rw [hold, Option.bind_some, ← hhash, ← hheight]
  exact applyDiff_buildDiff oldList newList nHeight

variable {tree : BlockTree} {manager : CDroneListManager}

theorem Coherent.cacheDiff (hcoherent : Coherent params tree manager) {stored : CDroneListDiff}
    (hstored : manager.evoDb.diffs hash = some stored) (nHeight : Int) :
    Coherent params tree { manager with
      droneListDiffsCache :=
        emplace manager.droneListDiffsCache hash { stored with nHeight := nHeight } } := by
  refine { hcoherent with diffsCache := ?_ }
  intro index hmem diff hfound
  rcases emplace_eq_some hfound with hcached | ⟨hhash, hvalue⟩
  · exact hcoherent.diffsCache index hmem diff hcached
  · cases hvalue
    exact (hcoherent.diffs index hmem stored (hhash ▸ hstored)).setHeight nHeight

/-! ## Queries -/

theorem getListForBlock_coherent (hcoherent : Coherent params tree manager) (index : CBlockIndex) :
    Coherent params tree (manager.getListForBlock params index).2 ∧
      (manager.getListForBlock params index).2.evoDb = manager.evoDb := by
  induction index generalizing manager with
  | genesis hash => exact ⟨hcoherent, rfl⟩
  | child pprev block ih =>
    simp only [getListForBlock]
    split
    · split
      · exact ⟨hcoherent, rfl⟩
      · split
        · rename_i snapshot hsnapshot
          refine ⟨{ hcoherent with lists := ?_ }, rfl⟩
          intro index hmem list hfound
          rcases emplace_eq_some hfound with hcached | ⟨hhash, hvalue⟩
          · exact hcoherent.lists index hmem list hcached
          · exact hcoherent.snapshots index hmem list (hvalue ▸ hhash ▸ hsnapshot)
        · split
          · exact ih hcoherent
          · split
            · exact ⟨hcoherent, rfl⟩
            · rename_i stored hstored
              exact ih (hcoherent.cacheDiff hstored _)
    · exact ⟨hcoherent, rfl⟩

theorem getListForBlock_recorded (hcoherent : Coherent params tree manager) (hmem : tree.mem index)
    (hrecorded : Recorded params manager.evoDb index) :
    ∃ list, foldList params index = some list ∧
      (manager.getListForBlock params index).1 = some list := by
  induction index generalizing manager with
  | genesis hash => exact ⟨empty hash 0, rfl, rfl⟩
  | child pprev block ih =>
    have hparent := tree.pprev_mem pprev block hmem
    simp only [getListForBlock]
    split
    · rename_i hactive
      obtain ⟨⟨recorded, hdiff⟩, hbefore⟩ := hrecorded hactive
      split
      · rename_i list hlist
        exact ⟨list, hcoherent.lists _ hmem list hlist, rfl⟩
      · split
        · rename_i snapshot hsnapshot
          exact ⟨snapshot, hcoherent.snapshots _ hmem snapshot hsnapshot, rfl⟩
        · split
          · rename_i diff hcached
            obtain ⟨list, hlist, hreplay⟩ := (hcoherent.diffsCache _ hmem diff hcached).replay
            obtain ⟨base, hbase, hwalk⟩ := ih hcoherent hparent hbefore
            refine ⟨list, hlist, ?_⟩
            rw [hwalk, ← hbase]
            exact hreplay
          · split
            · rename_i hnone
              rw [hdiff] at hnone
              cases hnone
            · rename_i stored hstored
              obtain ⟨list, hlist, hreplay⟩ :=
                ((hcoherent.diffs _ hmem stored hstored).setHeight (pprev.nHeight + 1)).replay
              obtain ⟨base, hbase, hwalk⟩ :=
                ih (hcoherent.cacheDiff hstored (pprev.nHeight + 1)) hparent hbefore
              refine ⟨list, hlist, ?_⟩
              rw [hwalk, ← hbase]
              exact hreplay
    · rename_i hinactive
      exact ⟨_, foldList_inactive hinactive, rfl⟩

/-! ## Updates -/

section

variable (hcoherent : Coherent params tree manager)

include hcoherent

theorem Coherent.shrink {after : CDroneListManager} (hevoDb : after.evoDb = manager.evoDb)
    (hlists : ∀ hash list, after.droneListsCache hash = some list →
      manager.droneListsCache hash = some list)
    (hdiffs : ∀ hash diff, after.droneListDiffsCache hash = some diff →
      manager.droneListDiffsCache hash = some diff) :
    Coherent params tree after where
  snapshots := hevoDb ▸ hcoherent.snapshots
  lists := fun index hmem list hfound => hcoherent.lists index hmem list (hlists _ list hfound)
  diffs := hevoDb ▸ hcoherent.diffs
  diffsCache := fun index hmem diff hfound =>
    hcoherent.diffsCache index hmem diff (hdiffs _ diff hfound)

theorem cleanupCache_coherent (nHeight : Int) :
    Coherent params tree (manager.cleanupCache nHeight) := by
  refine hcoherent.shrink rfl ?_ ?_
  · intro hash list hfound
    exact (Option.filter_eq_some_iff.mp hfound).1
  · intro hash diff hfound
    exact (Option.filter_eq_some_iff.mp hfound).1

theorem undoBlock_coherent (index : CBlockIndex) :
    Coherent params tree (manager.undoBlock params index) := by
  have hkept : ∀ {α : Type} (cache : Uint256 → Option α) (hash : Uint256) (value : α),
      Function.update cache index.hash none hash = some value → cache hash = some value := by
    intro α cache hash value hfound
    rcases update_eq_some hfound with hcached | ⟨_, hnone⟩
    · exact hcached
    · cases hnone
  unfold undoBlock
  split
  · exact hcoherent.shrink rfl (fun hash list => hkept _ hash list)
      (fun hash diff => hkept _ hash diff)
  · exact hcoherent

theorem store_coherent (hmem : tree.mem (.child pprev block)) {oldList newList : CDroneList}
    (hold : foldList params pprev = some oldList)
    (hnew : foldList params (.child pprev block) = some newList)
    (hhash : newList.blockHash = block.hash) (hheight : newList.nHeight = pprev.nHeight + 1) :
    Coherent params tree (manager.store block.hash (pprev.nHeight + 1) oldList newList) := by
  have hsame : ∀ index, tree.mem index → index.hash = block.hash →
      index = .child pprev block := by
    intro index hindex heq
    exact tree.hash_injective index (.child pprev block) hindex hmem heq
  have hdiff : ∀ nHeight, IsDiffOf params
      { buildDiff oldList newList with nHeight := nHeight } (.child pprev block) := by
    intro nHeight
    exact ⟨oldList, newList, nHeight, hold, hnew, hhash, hheight, rfl⟩
  refine cleanupCache_coherent ?_ _
  constructor
  · intro index hindex list hfound
    have hcases : manager.evoDb.snapshots index.hash = some list ∨
        index.hash = block.hash ∧ some newList = some list := by
      split at hfound
      · exact update_eq_some hfound
      · exact Or.inl hfound
    rcases hcases with hstored | ⟨heq, hlist⟩
    · exact hcoherent.snapshots index hindex list hstored
    · rw [hsame index hindex heq, hnew, hlist]
  · intro index hindex list hfound
    rcases emplace_eq_some hfound with hcached | ⟨heq, hlist⟩
    · exact hcoherent.lists index hindex list hcached
    · rw [hsame index hindex heq, hnew, hlist]
  · intro index hindex diff hfound
    rcases update_eq_some hfound with hstored | ⟨heq, hvalue⟩
    · exact hcoherent.diffs index hindex diff hstored
    · cases hvalue
      rw [hsame index hindex heq]
      exact hdiff _
  · intro index hindex diff hfound
    rcases emplace_eq_some hfound with hcached | ⟨heq, hvalue⟩
    · exact hcoherent.diffsCache index hindex diff hcached
    · cases hvalue
      rw [hsame index hindex heq]
      exact hdiff _

end

theorem store_diffs (manager : CDroneListManager) (hash : Uint256) (nHeight : Int)
    (oldList newList : CDroneList) :
    (manager.store hash nHeight oldList newList).evoDb.diffs =
      Function.update manager.evoDb.diffs hash (some (buildDiff oldList newList)) := rfl

theorem processBlock_coherent (hcoherent : Coherent params tree manager)
    (hmem : tree.mem (.child pprev block)) (hrecorded : Recorded params manager.evoDb pprev) :
    Coherent params tree (manager.processBlock params pprev block).2 := by
  obtain ⟨hwalked, hevoDb⟩ := getListForBlock_coherent hcoherent pprev
  obtain ⟨oldList, hold, hquery⟩ :=
    getListForBlock_recorded hcoherent (tree.pprev_mem pprev block hmem) hrecorded
  unfold processBlock
  split
  · rename_i hactive
    split
    · rename_i walked hresult
      rw [hresult] at hwalked
      exact hwalked
    · rename_i found walked hresult
      rw [hresult] at hwalked hquery
      cases hquery
      split
      · exact hwalked
      · rename_i newList hbuild
        have hheight := buildListFromBlock_height hbuild
        refine store_coherent hwalked hmem hold ?_ rfl hheight
        rw [foldList_active hactive, hold, Option.bind_some, nextList, hbuild]
        rfl
  · exact hcoherent

theorem processBlock_diffs (hcoherent : Coherent params tree manager) (pprev : CBlockIndex)
    (block : CBlock) :
    (∀ hash, (∃ diff, manager.evoDb.diffs hash = some diff) →
      ∃ diff, (manager.processBlock params pprev block).2.evoDb.diffs hash = some diff) ∧
    ((manager.processBlock params pprev block).1 = .ok () →
      params.isDronePayoutActive (pprev.nHeight + 1) →
        ∃ diff, (manager.processBlock params pprev block).2.evoDb.diffs block.hash = some diff) := by
  obtain ⟨-, hevoDb⟩ := getListForBlock_coherent hcoherent pprev
  unfold processBlock
  split
  · split
    · rename_i walked hresult
      rw [hresult] at hevoDb
      exact ⟨fun hash hfound => hevoDb ▸ hfound, fun hfailed => by cases hfailed⟩
    · rename_i oldList walked hresult
      rw [hresult] at hevoDb
      split
      · exact ⟨fun hash hfound => hevoDb ▸ hfound, fun hfailed => by cases hfailed⟩
      · simp only [store_diffs]
        constructor
        · intro hash hfound
          by_cases hsame : hash = block.hash
          · rw [hsame, Function.update_self]
            exact ⟨_, rfl⟩
          · rw [Function.update_of_ne hsame, hevoDb]
            exact hfound
        · intro _ _
          rw [Function.update_self]
          exact ⟨_, rfl⟩
  · rename_i hinactive
    exact ⟨fun hash hfound => hfound, fun _ hactive => absurd hactive hinactive⟩

/-! ## The node -/

/-- The manager with the active tip and the blocks processed so far. -/
structure Node where
  manager : CDroneListManager
  tip : CBlockIndex
  processed : List CBlockIndex

inductive NodeAction where
  /-- Connect a block on the tip.  When a later check of the block fails, the writes of the
  EvoDB are rolled back and the caches stay as they are. -/
  | connect (block : CBlock) (committed : Bool)
  | disconnect
  | query (index : CBlockIndex)
  | cleanup (nHeight : Int)
  /-- Start again with the EvoDB and empty caches. -/
  | restart (nSnapshotPeriod : Int)

def Node.start (root : Uint256) (nSnapshotPeriod : Int) : Node where
  manager := .new ⟨fun _ => none, fun _ => none⟩ nSnapshotPeriod
  tip := .genesis root
  processed := []

def nodeStep (params : Params) (node : Node) : NodeAction → Node
  | .connect block committed =>
      match node.manager.processBlock params node.tip block, committed with
      | (.ok (), manager), true =>
          { manager := manager
            tip := .child node.tip block
            processed := .child node.tip block :: node.processed }
      | (_, manager), _ =>
          { node with manager := { manager with evoDb := node.manager.evoDb } }
  | .disconnect =>
      match node.tip with
      | .genesis _ => node
      | .child pprev _ =>
          { node with manager := node.manager.undoBlock params node.tip, tip := pprev }
  | .query index => { node with manager := (node.manager.getListForBlock params index).2 }
  | .cleanup nHeight => { node with manager := node.manager.cleanupCache nHeight }
  | .restart nSnapshotPeriod =>
      { node with manager := .new node.manager.evoDb nSnapshotPeriod }

def Follows (tree : BlockTree) (node : Node) : NodeAction → Prop
  | .connect block _ => tree.mem (.child node.tip block)
  | _ => True

/-! ## The invariant of the node -/

structure NodeInvariant (params : Params) (tree : BlockTree) (node : Node) : Prop where
  coherent : Coherent params tree node.manager
  tip_mem : tree.mem node.tip
  tip_processed : ProcessedSince params node.processed node.tip
  recorded : ∀ index ∈ node.processed, params.isDronePayoutActive index.nHeight →
    ∃ diff, node.manager.evoDb.diffs index.hash = some diff

theorem recorded_of_processed {node : Node} (hinvariant : NodeInvariant params tree node)
    (hprocessed : ProcessedSince params node.processed index) :
    Recorded params node.manager.evoDb index := by
  induction index with
  | genesis hash => trivial
  | child pprev block ih =>
    intro hactive
    obtain ⟨hmem, hbefore⟩ := hprocessed hactive
    exact ⟨hinvariant.recorded _ hmem hactive, ih hbefore⟩

theorem processedSince_mono {processed more : List CBlockIndex} (hsubset : processed ⊆ more)
    (hprocessed : ProcessedSince params processed index) : ProcessedSince params more index := by
  induction index with
  | genesis hash => trivial
  | child pprev block ih =>
    intro hactive
    obtain ⟨hmem, hbefore⟩ := hprocessed hactive
    exact ⟨hsubset hmem, ih hbefore⟩

theorem processedSince_pprev {processed : List CBlockIndex}
    (hprocessed : ProcessedSince params processed (.child pprev block)) :
    ProcessedSince params processed pprev := by
  cases pprev with
  | genesis hash => trivial
  | child older parent =>
    intro hactive
    have hlater : params.isDronePayoutActive (older.nHeight + 1 + 1) := by
      simp only [Params.isDronePayoutActive, decide_eq_true_eq] at hactive ⊢
      omega
    exact (hprocessed hlater).2 hactive

theorem nodeInvariant_connect {node : Node} (hinvariant : NodeInvariant params tree node)
    {committed : Bool} (hmem : tree.mem (.child node.tip block)) :
    NodeInvariant params tree (nodeStep params node (.connect block committed)) := by
  have hcoherent := processBlock_coherent hinvariant.coherent hmem
    (recorded_of_processed hinvariant hinvariant.tip_processed)
  obtain ⟨hkept, hown⟩ := processBlock_diffs hinvariant.coherent node.tip block
  simp only [nodeStep]
  split
  · rename_i manager hresult
    rw [hresult] at hcoherent hkept hown
    refine ⟨hcoherent, hmem, ?_, ?_⟩
    · intro hactive
      exact ⟨List.mem_cons_self,
        processedSince_mono (List.subset_cons_self _ _) hinvariant.tip_processed⟩
    · intro index hindex hactive
      rcases List.mem_cons.mp hindex with rfl | hbefore
      · exact hown rfl hactive
      · exact hkept _ (hinvariant.recorded index hbefore hactive)
  · rename_i result manager hresult _
    rw [hresult] at hcoherent
    exact ⟨⟨hinvariant.coherent.snapshots, hcoherent.lists, hinvariant.coherent.diffs,
      hcoherent.diffsCache⟩, hinvariant.tip_mem, hinvariant.tip_processed, hinvariant.recorded⟩

theorem undoBlock_evoDb (params : Params) (manager : CDroneListManager) (index : CBlockIndex) :
    (manager.undoBlock params index).evoDb = manager.evoDb := by
  unfold undoBlock
  split <;> rfl

theorem nodeInvariant_step (node : Node) (action : NodeAction)
    (hinvariant : NodeInvariant params tree node) (hfollows : Follows tree node action) :
    NodeInvariant params tree (nodeStep params node action) := by
  cases action with
  | connect block committed => exact nodeInvariant_connect hinvariant hfollows
  | disconnect =>
    simp only [nodeStep]
    split
    · exact hinvariant
    · rename_i pprev block htip
      have hmem := hinvariant.tip_mem
      have hprocessed := hinvariant.tip_processed
      rw [htip] at hmem hprocessed
      refine ⟨undoBlock_coherent hinvariant.coherent node.tip, tree.pprev_mem pprev block hmem,
        processedSince_pprev hprocessed, ?_⟩
      rw [undoBlock_evoDb]
      exact hinvariant.recorded
  | query index =>
    obtain ⟨hcoherent, hevoDb⟩ := getListForBlock_coherent hinvariant.coherent index
    refine ⟨hcoherent, hinvariant.tip_mem, hinvariant.tip_processed, ?_⟩
    simp only [nodeStep, hevoDb]
    exact hinvariant.recorded
  | cleanup nHeight =>
    exact ⟨cleanupCache_coherent hinvariant.coherent nHeight, hinvariant.tip_mem,
      hinvariant.tip_processed, hinvariant.recorded⟩
  | restart nSnapshotPeriod =>
    refine ⟨hinvariant.coherent.shrink rfl ?_ ?_, hinvariant.tip_mem, hinvariant.tip_processed,
      hinvariant.recorded⟩
    · intro hash list hfound
      cases hfound
    · intro hash diff hfound
      cases hfound

theorem nodeInvariant_start (params : Params) (tree : BlockTree) (nSnapshotPeriod : Int) :
    NodeInvariant params tree (.start tree.root nSnapshotPeriod) where
  coherent :=
    { snapshots := by intro index _ list hfound; cases hfound
      lists := by intro index _ list hfound; cases hfound
      diffs := by intro index _ diff hfound; cases hfound
      diffsCache := by intro index _ diff hfound; cases hfound }
  tip_mem := tree.root_mem
  tip_processed := trivial
  recorded := by intro index hmem; cases hmem

/-- The list returned for any block processed with its ancestors since activation is the
fold of the list transition, at every point of every run that follows a block tree. -/
theorem getListForBlock_eq_foldList (params : Params) (tree : BlockTree) (nSnapshotPeriod : Int)
    (actions : List NodeAction)
    (hfollows : Guarded (nodeStep params) (Follows tree) (.start tree.root nSnapshotPeriod)
      actions) :
    Always (nodeStep params)
      (fun node => ∀ index, tree.mem index → ProcessedSince params node.processed index →
        ∃ list, foldList params index = some list ∧
          (node.manager.getListForBlock params index).1 = some list)
      (.start tree.root nSnapshotPeriod) actions := by
  have hinvariant := always_of_guarded (fun node action => nodeInvariant_step node action)
    (nodeInvariant_start params tree nSnapshotPeriod) hfollows
  intro visited hvisited index hmem hprocessed
  have hnode := hinvariant visited hvisited
  exact getListForBlock_recorded hnode.coherent hmem (recorded_of_processed hnode hprocessed)

namespace Sample

def payoutParams : Params := { nDronePayoutHeight := 1, nDroneCollateralAmount := 5 }

def registration : CTransaction where
  hash := 20
  nVersion := 3
  nType := .droneRegister
  vin := [⟨⟨10, 0⟩⟩]
  vout := [⟨5, [1]⟩]
  droneRegPayload := some {
    blsPubKeyHash := 7, irohNodeId := 0, nHardwareClass := 0, nModelTier := 0
    nCollateralIndex := 0, scriptPayout := [1] }

def first : CBlockIndex := .child (.genesis 100) ⟨101, [registration]⟩

def stale : CBlockIndex := .child first ⟨102, []⟩

def second : CBlockIndex := .child first ⟨103, []⟩

def indices : List CBlockIndex := [.genesis 100, first, stale, second]

theorem indices_hash_injective : ∀ one ∈ indices, ∀ two ∈ indices, one.hash = two.hash →
    one = two := by
  decide

def forkedTree : BlockTree where
  root := 100
  mem := fun index => index ∈ indices
  root_mem := by decide
  pprev_mem := by
    intro pprev block hmem
    simp only [indices, List.mem_cons, List.not_mem_nil, or_false, first, stale, second,
      CBlockIndex.child.injEq, reduceCtorEq, false_or] at hmem ⊢
    rcases hmem with ⟨rfl, -⟩ | ⟨rfl, -⟩ | ⟨rfl, -⟩ <;> simp
  hash_injective := fun one two hone htwo => indices_hash_injective one hone two htwo

def reorganisation : List NodeAction :=
  [.connect ⟨101, [registration]⟩ true, .connect ⟨102, []⟩ true, .disconnect,
    .connect ⟨103, []⟩ true, .restart 0]

end Sample

open Sample

/-- After a reorganisation and a restart both branches still have the lists of their folds. -/
theorem getListForBlock_after_reorganisation :
    Always (nodeStep payoutParams)
      (fun node => ∀ index, forkedTree.mem index →
        ProcessedSince payoutParams node.processed index →
        ∃ list, foldList payoutParams index = some list ∧
          (node.manager.getListForBlock payoutParams index).1 = some list)
      (.start forkedTree.root 2) reorganisation := by
  refine getListForBlock_eq_foldList payoutParams forkedTree 2
    reorganisation ?_
  have hfirst : first ∈ indices := by decide
  have hstale : stale ∈ indices := by decide
  have hsecond : second ∈ indices := by decide
  exact ⟨hfirst, hstale, trivial, hsecond, trivial, trivial⟩

end Kerrigan.Drone
