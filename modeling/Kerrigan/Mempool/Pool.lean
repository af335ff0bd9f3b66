import Kerrigan.Sapling.State
import Kerrigan.Lib.OwnerIndex
import Kerrigan.Lib.Worklist

/-!
# The memory pool

`CTxMemPool`: the transactions with the links to their children, the spenders of their inputs and
the two indexes of the nullifiers they reveal.  Every removal goes through `RemoveStaged`, every
addition through `addUnchecked`.  Which entries time, size or the provider indexes name is given
to the functions that ask for it.
-/

namespace Kerrigan.Mempool

open Primitives Sapling Lib

/-! ## Shielded parts of a transaction -/

variable (tx : CTransaction)

def shieldedPayload : Option SaplingTxPayload :=
  if tx.nType = .sapling then saplingPayloadOf tx else none

def nullifiersRevealed : List Uint256 :=
  (shieldedPayload tx).elim [] nullifiersOf

def anchorsUsed : List Uint256 :=
  (shieldedPayload tx).elim []
    (fun payload => payload.vSpendDescriptions.map SaplingSpendDescription.anchor)

theorem mem_revealedBy_iff {block : CBlock} {nf : Uint256} :
    nf ∈ revealedBy block ↔ ∃ tx ∈ block.vtx, nf ∈ nullifiersRevealed tx := by
  unfold revealedBy payloadsOf
  rw [List.mem_flatMap]
  constructor
  · rintro ⟨payload, hpayload, hnf⟩
    obtain ⟨tx, htx, hdecoded⟩ := List.mem_filterMap.mp hpayload
    refine ⟨tx, htx, ?_⟩
    unfold nullifiersRevealed shieldedPayload
    rw [hdecoded]
    exact hnf
  · rintro ⟨tx, htx, hnf⟩
    unfold nullifiersRevealed at hnf
    cases hpayload : shieldedPayload tx with
    | none =>
      rw [hpayload] at hnf
      cases hnf
    | some payload =>
      rw [hpayload] at hnf
      exact ⟨payload, List.mem_filterMap.mpr ⟨tx, htx, hpayload⟩, hnf⟩

/-! ## Entries and links -/

structure CTxMemPoolEntry where
  tx : CTransaction
  children : List Uint256 := []

structure CTxMemPool where
  mapTx : Std.ExtTreeMap Uint256 CTxMemPoolEntry := ∅
  /-- The transaction of the pool that spends the output. -/
  mapNextTx : COutPoint → Option Uint256 := fun _ => none
  saplingNullifiers : Std.ExtTreeSet Uint256 := ∅
  saplingNullifierTxids : Std.ExtTreeMap Uint256 Uint256 := ∅

/-- What the provider transactions of the pool tell: which of them refer to a registration, and
which of them conflict with a transaction. -/
structure ProTxConflicts where
  refs : Uint256 → List Uint256 := fun _ => []
  conflicts : CTransaction → List Uint256 := fun _ => []

namespace CTxMemPool

variable (proTx : ProTxConflicts) (pool : CTxMemPool) (tx : CTransaction) (hash : Uint256)
  (newTx : CTransaction)

def get : Option CTransaction :=
  pool.mapTx[hash]?.map CTxMemPoolEntry.tx

def existsTx : Bool := pool.mapTx.contains hash

def getConflictTx (prevout : COutPoint) : Option CTransaction :=
  (pool.mapNextTx prevout).bind pool.get

def updateChild (parent child : Uint256) (add : Bool) : CTxMemPool :=
  match pool.mapTx[parent]? with
  | none => pool
  | some entry =>
      { pool with
        mapTx := pool.mapTx.insert parent
          { entry with
            children := if add then entry.children.insert child else entry.children.erase child } }

/-! ## Nullifiers -/

def checkSaplingNullifiers : Bool :=
  (nullifiersRevealed tx).all (fun nf => !pool.saplingNullifiers.contains nf)

def addSaplingNullifiers : CTxMemPool :=
  { pool with
    saplingNullifiers :=
      (nullifiersRevealed tx).foldl (fun nfs nf => nfs.insert nf) pool.saplingNullifiers
    saplingNullifierTxids :=
      (nullifiersRevealed tx).foldl (fun txids nf => txids.insert nf tx.hash)
        pool.saplingNullifierTxids }

def removeSaplingNullifiers : CTxMemPool :=
  { pool with
    saplingNullifiers :=
      (nullifiersRevealed tx).foldl (fun nfs nf => nfs.erase nf) pool.saplingNullifiers
    saplingNullifierTxids :=
      (nullifiersRevealed tx).foldl (fun txids nf => txids.erase nf) pool.saplingNullifierTxids }

/-! ## Additions and removals -/

def updateParents (add : Bool) : CTxMemPool :=
  tx.vin.foldl (fun linked txin => linked.updateChild txin.prevout.hash hash add) pool

def insertEntry (tx : CTransaction) : CTxMemPool :=
  { pool with
    mapTx := pool.mapTx.insertIfNew newTx.hash { tx := newTx }
    mapNextTx := tx.vin.foldl
      (fun next txin =>
        Function.update next txin.prevout (some ((next txin.prevout).getD tx.hash)))
      pool.mapNextTx }

def addUnchecked : CTxMemPool :=
  let tx := (pool.get newTx.hash).getD newTx
  ((pool.insertEntry newTx tx).updateParents tx tx.hash true).addSaplingNullifiers tx

def removeUnchecked : CTxMemPool :=
  match pool.get hash with
  | none => pool
  | some tx =>
      { pool.removeSaplingNullifiers tx with
        mapTx := pool.mapTx.erase hash
        mapNextTx := tx.vin.foldl (fun next txin => Function.update next txin.prevout none)
          pool.mapNextTx }

def childrenOf : List Uint256 :=
  (pool.mapTx[hash]?.elim [] CTxMemPoolEntry.children).filter pool.existsTx

def calculateDescendants (setDescendants : List Uint256) (hash : Uint256) : List Uint256 :=
  if hash ∈ setDescendants then setDescendants
  else traverse pool.childrenOf pool.mapTx.size [hash] setDescendants

def unlink : CTxMemPool :=
  (pool.get hash).elim pool (fun tx => pool.updateParents tx hash false)

def removeStaged (stage : List Uint256) : CTxMemPool :=
  stage.foldl removeUnchecked (stage.foldl unlink pool)

def removeRecursive (origTx : CTransaction) : CTxMemPool :=
  let txToRemove :=
    if pool.existsTx origTx.hash then [origTx.hash]
    else (List.range origTx.vout.length).filterMap (fun n => pool.mapNextTx ⟨origTx.hash, n⟩)
  pool.removeStaged (txToRemove.foldl pool.calculateDescendants [])

def removeEntries (hashes : List Uint256) : CTxMemPool :=
  hashes.foldl (fun left hash => (left.get hash).elim left left.removeRecursive) pool

def limitMempoolSize (evicted : List Uint256) : CTxMemPool :=
  pool.removeEntries evicted

/-! ## Conflicts -/

def removeConflicts : CTxMemPool :=
  tx.vin.foldl
    (fun left txin =>
      match left.getConflictTx txin.prevout with
      | none => left
      | some txConflict =>
          if txConflict.hash = tx.hash then left
          else
            (if txConflict.nType = .providerRegister then
              left.removeEntries (proTx.refs txConflict.hash)
            else left).removeRecursive txConflict)
    pool

def removeNullifierConflict (pool : CTxMemPool) (nf : Uint256) : CTxMemPool :=
  match pool.saplingNullifierTxids[nf]? with
  | none => pool
  | some owner => if owner = hash then pool else pool.removeEntries [owner]

def removeSaplingNullifierConflicts : CTxMemPool :=
  (nullifiersRevealed tx).foldl (removeNullifierConflict tx.hash) pool

def withoutTx : CTxMemPool :=
  if pool.existsTx tx.hash then pool.removeStaged [tx.hash] else pool

def removeForTx : CTxMemPool :=
  (((pool.withoutTx tx).removeConflicts proTx tx).removeSaplingNullifierConflicts tx).removeEntries
    (proTx.conflicts tx)

def removeForBlock (vtx : List CTransaction) : CTxMemPool :=
  vtx.foldl (removeForTx proTx) pool

/-! ## Reorganisations -/

def removeForReorg (remove : CTransaction → Bool) : CTxMemPool :=
  let txToRemove := pool.mapTx.keys.filter (fun hash => (pool.get hash).any remove)
  pool.removeStaged (txToRemove.foldl pool.calculateDescendants [])

def linkChildren (setAlreadyIncluded : List Uint256) (pool : CTxMemPool) (hash : Uint256) :
    CTxMemPool :=
  match pool.get hash with
  | none => pool
  | some tx =>
      ((List.range tx.vout.length).filterMap (fun n => pool.mapNextTx ⟨hash, n⟩)).foldl
        (fun linked child =>
          if child ∈ setAlreadyIncluded then linked else linked.updateChild hash child true)
        pool

def updateTransactionsFromBlock (vHashesToUpdate : List Uint256)
    (descendantsToRemove : List Uint256) : CTxMemPool :=
  (vHashesToUpdate.reverse.foldl (linkChildren vHashesToUpdate) pool).removeEntries
    descendantsToRemove

end CTxMemPool

end Kerrigan.Mempool
