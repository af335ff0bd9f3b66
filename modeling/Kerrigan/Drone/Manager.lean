import Kerrigan.Drone.Build
import Kerrigan.Drone.Diff
import Mathlib.Logic.Function.Basic

/-!
# The drone list manager

`CDroneListManager` keeps the list of every processed block as a difference to the list
before it, a full snapshot once per period, and two caches in memory.  A query walks back
to the nearest list it has and replays the differences forward.
-/

namespace Kerrigan.Drone

open Primitives Consensus

/-! ## Block index -/

/-- A block together with its ancestors. -/
inductive CBlockIndex where
  | genesis (hash : Uint256)
  | child (pprev : CBlockIndex) (block : CBlock)
  deriving DecidableEq

namespace CBlockIndex

def hash : CBlockIndex → Uint256
  | genesis hash => hash
  | child _ block => block.hash

def nHeight : CBlockIndex → Int
  | genesis _ => 0
  | child pprev _ => pprev.nHeight + 1

end CBlockIndex

/-! ## Stored and cached data -/

/-- The drone data of the EvoDB, by block hash. -/
structure DroneDb where
  snapshots : Uint256 → Option CDroneList
  diffs : Uint256 → Option CDroneListDiff

def emplace {α : Type} (cache : Uint256 → Option α) (hash : Uint256) (value : α) :
    Uint256 → Option α :=
  if (cache hash).isSome then cache else Function.update cache hash (some value)

structure CDroneListManager where
  evoDb : DroneDb
  nSnapshotPeriod : Int
  droneListsCache : Uint256 → Option CDroneList
  droneListDiffsCache : Uint256 → Option CDroneListDiff

namespace CDroneListManager

def diskSnapshotPeriod : Int := 576

def new (evoDb : DroneDb) (nSnapshotPeriod : Int) : CDroneListManager where
  evoDb := evoDb
  nSnapshotPeriod := if 0 < nSnapshotPeriod then nSnapshotPeriod else diskSnapshotPeriod
  droneListsCache := fun _ => none
  droneListDiffsCache := fun _ => none

variable (params : Params) (manager : CDroneListManager)

def nCacheKeepBlocks : Int :=
  2 * manager.nSnapshotPeriod

/-- `GetListForBlockInternal`.  The recursion walks back to the parent and applies the
difference of this block on the way forward; `none` is an exception from the replay. -/
def getListForBlock (params : Params) (manager : CDroneListManager) :
    CBlockIndex → Option CDroneList × CDroneListManager
  | .genesis hash => (some (CDroneList.empty hash 0), manager)
  | .child pprev block =>
      if params.isDronePayoutActive (pprev.nHeight + 1) then
        match manager.droneListsCache block.hash with
        | some list => (some list, manager)
        | none =>
            match manager.evoDb.snapshots block.hash with
            | some snapshot =>
                (some snapshot, { manager with
                  droneListsCache := emplace manager.droneListsCache block.hash snapshot })
            | none =>
                match manager.droneListDiffsCache block.hash with
                | some diff =>
                    let (base, walked) := getListForBlock params manager pprev
                    (base.bind (fun list => applyDiff list block.hash (pprev.nHeight + 1) diff),
                      walked)
                | none =>
                    match manager.evoDb.diffs block.hash with
                    | none => (some (CDroneList.empty block.hash (pprev.nHeight + 1)), manager)
                    | some stored =>
                        let diff := { stored with nHeight := pprev.nHeight + 1 }
                        let (base, walked) := getListForBlock params
                          { manager with
                            droneListDiffsCache :=
                              emplace manager.droneListDiffsCache block.hash diff } pprev
                        (base.bind (fun list =>
                          applyDiff list block.hash (pprev.nHeight + 1) diff), walked)
      else (some (CDroneList.empty block.hash (pprev.nHeight + 1)), manager)

def cleanupCache (nHeight : Int) : CDroneListManager where
  evoDb := manager.evoDb
  nSnapshotPeriod := manager.nSnapshotPeriod
  droneListsCache := fun hash =>
    (manager.droneListsCache hash).filter (fun list =>
      !(list.nHeight < nHeight - manager.nCacheKeepBlocks))
  droneListDiffsCache := fun hash =>
    (manager.droneListDiffsCache hash).filter (fun diff =>
      !(0 ≤ diff.nHeight && diff.nHeight < nHeight - manager.nCacheKeepBlocks))

def store (hash : Uint256) (nHeight : Int) (oldList newList : CDroneList) : CDroneListManager :=
  let diff := buildDiff oldList newList
  let stored : CDroneListManager :=
    { manager with
      evoDb :=
        { snapshots :=
            if nHeight % manager.nSnapshotPeriod = 0 then
              Function.update manager.evoDb.snapshots hash (some newList)
            else manager.evoDb.snapshots
          diffs := Function.update manager.evoDb.diffs hash (some diff) }
      droneListDiffsCache :=
        emplace manager.droneListDiffsCache hash { diff with nHeight := nHeight }
      droneListsCache := emplace manager.droneListsCache hash newList }
  stored.cleanupCache nHeight

def processBlock (pprev : CBlockIndex) (block : CBlock) : Except String Unit × CDroneListManager :=
  if params.isDronePayoutActive (pprev.nHeight + 1) then
    match manager.getListForBlock params pprev with
    | (none, walked) => (.error "failed-drone-block", walked)
    | (some oldList, walked) =>
        match buildListFromBlock params oldList block (pprev.nHeight + 1) with
        | none => (.error "failed-drone-block", walked)
        | some newList =>
            (.ok (), walked.store block.hash (pprev.nHeight + 1) oldList
              { newList with blockHash := block.hash })
  else (.ok (), manager)

def undoBlock (index : CBlockIndex) : CDroneListManager :=
  if params.isDronePayoutActive index.nHeight then
    { manager with
      droneListsCache := Function.update manager.droneListsCache index.hash none
      droneListDiffsCache := Function.update manager.droneListDiffsCache index.hash none }
  else manager

end CDroneListManager

end Kerrigan.Drone
