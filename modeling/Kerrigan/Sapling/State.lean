import Kerrigan.Sapling.Check
import Kerrigan.Lib.ReverseIndex

/-!
# The shielded state

`CSaplingState`: the database with its keys, the indexes in memory, and the batch that a block
prepares and a later commit writes.  The commitment tree is a parameter: its operations are
pure functions, the serialization of a frontier can be read back, and no root is null.
-/

namespace Kerrigan.Sapling

open Primitives Consensus Lib List

/-- The operations on the frontier of the commitment tree. -/
structure FrontierFunctions (Frontier : Type) where
  new : Frontier
  append : Frontier → Uint256 → Option Frontier
  root : Frontier → Uint256
  serialize : Frontier → List UInt8
  deserialize : List UInt8 → Option Frontier
  deserialize_serialize : ∀ frontier, deserialize (serialize frontier) = some frontier
  root_ne_null : ∀ frontier, root frontier ≠ 0

/-! ## The database -/

structure SaplingDb where
  nullifiers : Std.ExtTreeMap Uint256 Int := ∅
  treeRoots : Std.ExtTreeMap Int Uint256 := ∅
  treeData : Std.ExtTreeMap Int (List UInt8) := ∅
  bestBlock : Option Uint256 := none
  valuePool : Option Int := none

inductive DbWrite
  | nullifier (nf : Uint256) (height : Int)
  | eraseNullifier (nf : Uint256)
  | treeRoot (height : Int) (root : Uint256)
  | eraseTreeRoot (height : Int)
  | treeData (height : Int) (data : List UInt8)
  | eraseTreeData (height : Int)
  | bestBlock (hash : Uint256)
  | valuePool (pool : Int)

open DbWrite

namespace SaplingDb

variable (db : SaplingDb)

def applyWrite : DbWrite → SaplingDb
  | .nullifier nf height => { db with nullifiers := db.nullifiers.insert nf height }
  | .eraseNullifier nf => { db with nullifiers := db.nullifiers.erase nf }
  | .treeRoot height root => { db with treeRoots := db.treeRoots.insert height root }
  | .eraseTreeRoot height => { db with treeRoots := db.treeRoots.erase height }
  | .treeData height data => { db with treeData := db.treeData.insert height data }
  | .eraseTreeData height => { db with treeData := db.treeData.erase height }
  | .bestBlock hash => { db with bestBlock := some hash }
  | .valuePool pool => { db with valuePool := some pool }

def writeBatch (batch : List DbWrite) : SaplingDb := batch.foldl applyWrite db

end SaplingDb

open SaplingDb

def lastHeight (heights : List Int) : Int :=
  heights.foldl (fun last height => if last < height then height else last) (-1)

/-! ## `CSaplingState` -/

structure CSaplingState where
  db : SaplingDb
  anchorHeights : ReverseIndex Int Uint256
  lastFrontierHeight : Int
  nSaplingValuePool : Int
  pendingBatch : Option (List DbWrite) := none
  pendingTreeRoot : Uint256 := 0
  pendingHeight : Int := -1
  pendingValuePoolDelta : Int := 0

structure SaplingData where
  nullifiers : List Uint256 := []
  commitments : List Uint256 := []
  valueBalanceTotal : Int := 0

def collectTx (data : SaplingData) (tx : CTransaction) : Option SaplingData :=
  if tx.nType ≠ .sapling then some data
  else
    match saplingPayloadOf tx with
    | none => none
    | some payload =>
        let total := data.valueBalanceTotal + payload.valueBalance
        if 2 ^ 63 ≤ total ∨ total < -(2 ^ 63) ∨ total < -maxMoney ∨ maxMoney < total then none
        else some
          { nullifiers := data.nullifiers ++ nullifiersOf payload
            commitments := data.commitments ++ commitmentsOf payload
            valueBalanceTotal := total }

variable (block : CBlock)

def collectSaplingData : Option SaplingData :=
  block.vtx.foldlM collectTx {}

namespace CSaplingState

variable (nHeight : Int) (db : SaplingDb)

/-- The constructor: the indexes are read from the database. -/
def load : CSaplingState where
  db := db
  anchorHeights := ReverseIndex.ofMap db.treeRoots
  lastFrontierHeight := lastHeight db.treeRoots.keys
  nSaplingValuePool := db.valuePool.getD 0

variable (state : CSaplingState)

def hasNullifier (nf : Uint256) : Bool := state.db.nullifiers.contains nf

def isValidAnchor (anchor : Uint256) : Bool :=
  anchor ≠ 0 && state.anchorHeights.contains anchor

def verifyBestBlock (hash : Uint256) : Bool :=
  state.db.bestBlock.all (fun stored => stored == hash)

def discardPendingBatch : CSaplingState :=
  { state with
    pendingBatch := none, pendingTreeRoot := 0, pendingHeight := -1, pendingValuePoolDelta := 0 }

section Process

variable {Frontier : Type} (frontiers : FrontierFunctions Frontier) (state : CSaplingState)
  (hash : Uint256) (nHeight : Int)

/-- The batch of a block without shielded data: the last frontier and root are carried
forward. -/
def carryForward : CSaplingState :=
  let prevData :=
    if 0 ≤ state.lastFrontierHeight then state.db.treeData[state.lastFrontierHeight]?
    else some (frontiers.serialize frontiers.new)
  let prevRoot :=
    if 0 ≤ state.lastFrontierHeight then state.db.treeRoots[state.lastFrontierHeight]?
    else some (frontiers.root frontiers.new)
  { state with
    pendingBatch := some (prevData.toList.map (treeData nHeight) ++
      prevRoot.toList.map (treeRoot nHeight) ++ [.bestBlock hash])
    pendingTreeRoot := prevRoot.getD state.pendingTreeRoot
    pendingHeight := nHeight
    pendingValuePoolDelta := 0 }

def loadFrontier : Option Frontier :=
  if 0 ≤ state.lastFrontierHeight then
    match state.db.treeData[state.lastFrontierHeight]? with
    | some prevData => frontiers.deserialize prevData
    | none => some frontiers.new
  else some frontiers.new

variable (data : SaplingData) (frontier : Frontier)

def rootMatches : Bool :=
  if 0 ≤ state.lastFrontierHeight then
    state.db.treeRoots[state.lastFrontierHeight]?.all
      (fun storedRoot => frontiers.root frontier == storedRoot)
  else true

/-- The frontier of a block, or none if the stored one is bad or cannot be appended to. -/
def extendFrontier (commitments : List Uint256) : Option Frontier := do
  let frontier ← state.loadFrontier frontiers
  if state.rootMatches frontiers frontier then commitments.foldlM frontiers.append frontier
  else none

def prepareBlock : CSaplingState :=
  let newPool := state.nSaplingValuePool + -data.valueBalanceTotal
  { state with
    pendingBatch := some (data.nullifiers.map (fun nf => nullifier nf nHeight) ++
      [.treeRoot nHeight (frontiers.root frontier),
        .treeData nHeight (frontiers.serialize frontier), .bestBlock hash, .valuePool newPool])
    pendingTreeRoot := frontiers.root frontier
    pendingHeight := nHeight
    pendingValuePoolDelta := -data.valueBalanceTotal }

def extendTree : Bool × CSaplingState :=
  match state.extendFrontier frontiers data.commitments with
  | none =>
      (false, { state with
        pendingValuePoolDelta := -data.valueBalanceTotal, pendingBatch := none })
  | some frontier => (true, state.prepareBlock frontiers hash nHeight data frontier)

def processData (block : CBlock) (nHeight : Int) (fJustCheck : Bool) : Bool × CSaplingState :=
  match collectSaplingData block with
  | none => (false, state)
  | some data =>
      if data.nullifiers = [] ∧ data.commitments = [] then
        if fJustCheck then (true, state)
        else (true, state.carryForward frontiers block.hash nHeight)
      else if state.nSaplingValuePool + -data.valueBalanceTotal < 0 then (false, state)
      else if ¬ data.nullifiers.Nodup then (false, state)
      else if data.nullifiers.any (fun nf => state.db.nullifiers.contains nf) then (false, state)
      else if fJustCheck then (true, state)
      else state.extendTree frontiers block.hash nHeight data

def processBlock (params : SaplingParams) (state : CSaplingState) (block : CBlock) (nHeight : Int)
    (fJustCheck : Bool) : Bool × CSaplingState :=
  if ¬ params.IsSaplingActive nHeight then (true, state)
  else if nHeight ≤ state.lastFrontierHeight then (true, state)
  else
    (if state.pendingBatch.isSome then state.discardPendingBatch else state).processData frontiers
      block nHeight fJustCheck

end Process

def commitBlock : CSaplingState :=
  match state.pendingBatch with
  | none => state
  | some batch =>
      discardPendingBatch
        { state with
          db := state.db.writeBatch batch
          anchorHeights :=
            if state.pendingTreeRoot ≠ 0 then
              state.anchorHeights.add state.pendingTreeRoot state.pendingHeight
            else state.anchorHeights
          lastFrontierHeight :=
            if state.lastFrontierHeight < state.pendingHeight then state.pendingHeight
            else state.lastFrontierHeight
          nSaplingValuePool := state.nSaplingValuePool + state.pendingValuePoolDelta }

def forgetRoot : CSaplingState :=
  let anchorHeights :=
    match state.db.treeRoots[nHeight]? with
    | some erasedRoot => state.anchorHeights.remove erasedRoot nHeight
    | none => state.anchorHeights
  { state with
    db := db
    anchorHeights := anchorHeights
    lastFrontierHeight :=
      if state.lastFrontierHeight ≤ nHeight then lastHeight anchorHeights.keys
      else state.lastFrontierHeight }

def undoWrites (pprev : Option Uint256) : List DbWrite :=
  [.eraseTreeRoot nHeight, .eraseTreeData nHeight] ++ pprev.toList.map DbWrite.bestBlock

def undoBlock (params : SaplingParams) (state : CSaplingState) (block : CBlock) (nHeight : Int)
    (pprev : Option Uint256) : Option CSaplingState :=
  if ¬ params.IsSaplingActive nHeight then some state
  else
    match collectSaplingData block with
    | none => none
    | some data =>
        if data.nullifiers = [] ∧ data.commitments = [] then
          some (state.forgetRoot nHeight (state.db.writeBatch (undoWrites nHeight pprev)))
        else if data.nullifiers.any (fun nf =>
            state.db.nullifiers[nf]?.any (fun storedHeight => storedHeight ≠ nHeight)) then none
        else
          let erased := data.nullifiers.filter (fun nf => state.db.nullifiers.contains nf)
          let newPool := state.nSaplingValuePool + data.valueBalanceTotal
          if newPool < 0 then none
          else some
            { state.forgetRoot nHeight (state.db.writeBatch
                (erased.map DbWrite.eraseNullifier ++ undoWrites nHeight pprev ++
                  [.valuePool newPool])) with
              nSaplingValuePool := newPool }

end CSaplingState

/-! ## What a block changes -/

def payloadsOf : List SaplingTxPayload :=
  block.vtx.filterMap (fun tx => if tx.nType = .sapling then saplingPayloadOf tx else none)

def revealedBy : List Uint256 := (payloadsOf block).flatMap nullifiersOf

def committedBy : List Uint256 := (payloadsOf block).flatMap commitmentsOf

/-- The value that leaves the pool. -/
def balanceOf : Int :=
  ((payloadsOf block).map SaplingTxPayload.valueBalance).sum

theorem payloadsOf_cons (hash : Uint256) (tx : CTransaction) (rest : List CTransaction) :
    payloadsOf ⟨hash, tx :: rest⟩ = payloadsOf ⟨hash, [tx]⟩ ++ payloadsOf ⟨hash, rest⟩ := by
  unfold payloadsOf
  rw [← filterMap_append, singleton_append]

theorem collectTx_eq_some {data next : SaplingData} {tx : CTransaction}
    (hcollect : collectTx data tx = some next) :
    next.nullifiers = data.nullifiers ++ revealedBy ⟨0, [tx]⟩ ∧
      next.commitments = data.commitments ++ committedBy ⟨0, [tx]⟩ ∧
      next.valueBalanceTotal = data.valueBalanceTotal + balanceOf ⟨0, [tx]⟩ := by
  unfold collectTx at hcollect
  by_cases htype : tx.nType = .sapling
  · cases hpayload : saplingPayloadOf tx with
    | none => simp [htype, hpayload] at hcollect
    | some payload =>
      simp only [htype, ne_eq, not_true_eq_false, if_false, hpayload,
        Option.ite_none_left_eq_some, Option.some.injEq] at hcollect
      rw [← hcollect.2]
      simp [revealedBy, committedBy, balanceOf, payloadsOf, htype, hpayload]
  · simp only [htype, ne_eq, not_false_eq_true, if_true, Option.some.injEq] at hcollect
    rw [← hcollect]
    simp [revealedBy, committedBy, balanceOf, payloadsOf, htype]

theorem collectSaplingData_eq_some {block : CBlock} {data : SaplingData}
    (hcollect : collectSaplingData block = some data) :
    data.nullifiers = revealedBy block ∧ data.commitments = committedBy block ∧
      data.valueBalanceTotal = balanceOf block := by
  have hfold : ∀ (vtx : List CTransaction) (start : SaplingData),
      vtx.foldlM collectTx start = some data →
      data.nullifiers = start.nullifiers ++ revealedBy ⟨0, vtx⟩ ∧
        data.commitments = start.commitments ++ committedBy ⟨0, vtx⟩ ∧
        data.valueBalanceTotal = start.valueBalanceTotal + balanceOf ⟨0, vtx⟩ := by
    intro vtx
    induction vtx with
    | nil =>
      intro start hstart
      obtain rfl : start = data := by simpa using hstart
      simp [revealedBy, committedBy, balanceOf, payloadsOf]
    | cons tx rest ih =>
      intro start hstart
      rw [foldlM_cons, Option.bind_eq_bind, Option.bind_eq_some_iff] at hstart
      obtain ⟨next, hnext, hrest⟩ := hstart
      obtain ⟨hnullifiers, hcommitments, htotal⟩ := collectTx_eq_some hnext
      have hfound := ih next hrest
      rw [hnullifiers, hcommitments, htotal] at hfound
      unfold revealedBy committedBy balanceOf at hfound ⊢
      rw [payloadsOf_cons, flatMap_append, flatMap_append, map_append, sum_append,
        ← append_assoc, ← append_assoc, ← Int.add_assoc]
      exact hfound
  have hfound := hfold block.vtx {} hcollect
  rw [nil_append, nil_append, Int.zero_add] at hfound
  exact hfound

namespace SaplingDb

variable (db : SaplingDb)

theorem writeBatch_append (first second : List DbWrite) :
    db.writeBatch (first ++ second) = (db.writeBatch first).writeBatch second :=
  foldl_append

variable (nfs : List Uint256)

theorem writeBatch_nullifiers (height : Int) :
    db.writeBatch (nfs.map (fun nf => nullifier nf height)) =
      { db with nullifiers := nfs.foldl (fun map nf => map.insert nf height) db.nullifiers } := by
  induction nfs generalizing db with
  | nil => rfl
  | cons nf rest ih => exact ih (db.applyWrite (.nullifier nf height))

theorem writeBatch_eraseNullifiers : db.writeBatch (nfs.map eraseNullifier) =
      { db with nullifiers := nfs.foldl (fun map nf => map.erase nf) db.nullifiers } := by
  induction nfs generalizing db with
  | nil => rfl
  | cons nf rest ih => exact ih (db.applyWrite (.eraseNullifier nf))

end SaplingDb

theorem lastHeight_eq {heights : List Int} {top : Int} (hle : ∀ height ∈ heights, height ≤ top)
    (htop : top ∈ heights ∨ top = -1) (hbottom : -1 ≤ top) : lastHeight heights = top := by
  have hfold : ∀ (heights : List Int) (last : Int), (∀ height ∈ heights, height ≤ top) →
      last ≤ top → (top ∈ heights ∨ top = last) →
      heights.foldl (fun last height => if last < height then height else last) last = top := by
    intro heights
    induction heights with
    | nil =>
      intro last _ _ hmem
      rcases hmem with hmem | hlast
      · cases hmem
      · exact hlast.symm
    | cons height rest ih =>
      intro last hle hlast hmem
      have hheight := hle height mem_cons_self
      rw [foldl_cons]
      refine ih _ (fun other hother => hle other (mem_cons_of_mem height hother)) ?_ ?_
      · split
        · exact hheight
        · exact hlast
      · rcases hmem with hmem | rfl
        · rcases mem_cons.mp hmem with rfl | hrest
          · right
            split
            · rfl
            · omega
          · exact Or.inl hrest
        · right
          rw [if_neg (by omega)]
  exact hfold heights (-1) hle hbottom htop

namespace CSaplingState

section Process

variable {Frontier : Type} (frontiers : FrontierFunctions Frontier)

def HasFrontier (state : CSaplingState) (frontier : Frontier) : Prop :=
  if 0 ≤ state.lastFrontierHeight then
    state.db.treeData[state.lastFrontierHeight]? = some (frontiers.serialize frontier) ∧
      state.db.treeRoots[state.lastFrontierHeight]? = some (frontiers.root frontier)
  else frontier = frontiers.new

/-- The store after a block with these nullifiers, frontier and pool change was committed. -/
structure Extends (state next : CSaplingState) (hash : Uint256) (nHeight : Int)
    (nullifiers : List Uint256) (frontier : Frontier) (poolDelta : Int) : Prop where
  nullifiers : ∀ nf : Uint256, next.db.nullifiers[nf]? =
    if nf ∈ nullifiers then some nHeight else state.db.nullifiers[nf]?
  treeRoots : next.db.treeRoots = state.db.treeRoots.insert nHeight (frontiers.root frontier)
  treeData : next.db.treeData = state.db.treeData.insert nHeight (frontiers.serialize frontier)
  bestBlock : next.db.bestBlock = some hash
  pool : next.nSaplingValuePool = state.nSaplingValuePool + poolDelta
  storedPool : state.db.valuePool.getD 0 = state.nSaplingValuePool →
    next.db.valuePool.getD 0 = next.nSaplingValuePool
  anchorHeights : next.anchorHeights = state.anchorHeights.add (frontiers.root frontier) nHeight
  lastFrontierHeight : next.lastFrontierHeight = nHeight
  pendingBatch : next.pendingBatch = none

variable {frontiers} {state next : CSaplingState} {frontier : Frontier} {nHeight : Int}

theorem HasFrontier.extendFrontier (hfrontier : state.HasFrontier frontiers frontier)
    (commitments : List Uint256) :
    state.extendFrontier frontiers commitments =
      commitments.foldlM frontiers.append frontier := by
  unfold CSaplingState.extendFrontier loadFrontier rootMatches
  unfold HasFrontier at hfrontier
  by_cases hlast : 0 ≤ state.lastFrontierHeight
  · rw [if_pos hlast] at hfrontier
    simp [hlast, hfrontier.1, hfrontier.2, frontiers.deserialize_serialize]
  · rw [if_neg hlast] at hfrontier
    simp [hlast, hfrontier]

theorem HasFrontier.carryForward (hfrontier : state.HasFrontier frontiers frontier)
    (hash : Uint256) (hlast : state.lastFrontierHeight < nHeight) :
    Extends frontiers state (state.carryForward frontiers hash nHeight).commitBlock hash nHeight []
      frontier 0 := by
  have hcarry : state.carryForward frontiers hash nHeight =
      { state with
        pendingBatch := some [.treeData nHeight (frontiers.serialize frontier),
          .treeRoot nHeight (frontiers.root frontier), .bestBlock hash]
        pendingTreeRoot := frontiers.root frontier
        pendingHeight := nHeight
        pendingValuePoolDelta := 0 } := by
    unfold HasFrontier at hfrontier
    unfold CSaplingState.carryForward
    by_cases hsome : 0 ≤ state.lastFrontierHeight
    · rw [if_pos hsome] at hfrontier
      simp [hsome, hfrontier.1, hfrontier.2]
    · rw [if_neg hsome] at hfrontier
      simp [hsome, hfrontier]
  rw [hcarry]
  refine ⟨?_, rfl, rfl, rfl, rfl, ?_, ?_, ?_, rfl⟩
  · intro nf
    rfl
  · intro hstored
    exact hstored.trans (Int.add_zero _).symm
  · exact if_pos (frontiers.root_ne_null frontier)
  · exact if_pos hlast

theorem prepareBlock_extends (state : CSaplingState) (hash : Uint256) (data : SaplingData)
    (frontier : Frontier) (hlast : state.lastFrontierHeight < nHeight) :
    Extends frontiers state (state.prepareBlock frontiers hash nHeight data frontier).commitBlock
      hash nHeight data.nullifiers frontier (-data.valueBalanceTotal) := by
  have hdb : (state.prepareBlock frontiers hash nHeight data frontier).commitBlock.db =
      { nullifiers :=
          data.nullifiers.foldl (fun map nf => map.insert nf nHeight) state.db.nullifiers
        treeRoots := state.db.treeRoots.insert nHeight (frontiers.root frontier)
        treeData := state.db.treeData.insert nHeight (frontiers.serialize frontier)
        bestBlock := some hash
        valuePool := some (state.nSaplingValuePool + -data.valueBalanceTotal) } := by
    simp only [commitBlock, prepareBlock, discardPendingBatch, writeBatch_append,
      writeBatch_nullifiers]
    rfl
  refine ⟨?_, ?_, ?_, ?_, rfl, ?_, ?_, ?_, rfl⟩
  · intro nf
    rw [hdb]
    exact getElem?_foldl_insert _ _ _ _
  · rw [hdb]
  · rw [hdb]
  · rw [hdb]
  · intro _
    rw [hdb]
    rfl
  · exact if_pos (frontiers.root_ne_null frontier)
  · exact if_pos hlast

theorem HasFrontier.processBlock (hfrontier : state.HasFrontier frontiers frontier)
    {params : SaplingParams} {block : CBlock} (hactive : params.IsSaplingActive nHeight)
    (hlast : state.lastFrontierHeight < nHeight) (hpending : state.pendingBatch = none)
    (hprocess : state.processBlock frontiers params block nHeight false = (true, next)) :
    ∃ extended poolDelta, (committedBy block).foldlM frontiers.append frontier = some extended ∧
      Extends frontiers state next.commitBlock block.hash nHeight (revealedBy block) extended
        poolDelta ∧
      (revealedBy block).Nodup ∧
      (∀ nf ∈ revealedBy block, state.db.nullifiers[nf]? = none) ∧
      (poolDelta = -balanceOf block ∧ 0 ≤ state.nSaplingValuePool + poolDelta ∨
        revealedBy block = [] ∧ committedBy block = [] ∧ poolDelta = 0) := by
  have hskip : ¬ nHeight ≤ state.lastFrontierHeight := by omega
  unfold CSaplingState.processBlock at hprocess
  simp only [hactive, not_true_eq_false, if_false, hskip, hpending, Option.isSome_none,
    Bool.false_eq_true, processData] at hprocess
  cases hcollect : collectSaplingData block with
  | none => simp [hcollect] at hprocess
  | some data =>
    obtain ⟨hnullifiers, hcommitments, htotal⟩ := collectSaplingData_eq_some hcollect
    rw [hcollect] at hprocess
    dsimp only at hprocess
    rw [← hnullifiers, ← hcommitments, ← htotal]
    split at hprocess
    · rename_i hempty
      simp only [Prod.mk.injEq, true_and] at hprocess
      refine ⟨frontier, 0, ?_, ?_, ?_, ?_, Or.inr ⟨hempty.1, hempty.2, rfl⟩⟩
      · rw [hempty.2]
        rfl
      · rw [hempty.1, ← hprocess]
        exact hfrontier.carryForward block.hash hlast
      · rw [hempty.1]
        exact nodup_nil
      · rw [hempty.1]
        intro nf hnf
        cases hnf
    · split at hprocess
      · cases hprocess
      · split at hprocess
        · cases hprocess
        · rename_i hnodup
          split at hprocess
          · cases hprocess
          · rename_i hfresh
            unfold extendTree at hprocess
            rw [hfrontier.extendFrontier] at hprocess
            cases happend : data.commitments.foldlM frontiers.append frontier with
            | none => simp [happend] at hprocess
            | some extended =>
              simp only [happend, Prod.mk.injEq, true_and] at hprocess
              refine ⟨extended, -data.valueBalanceTotal, rfl, ?_, not_not.mp hnodup, ?_,
                Or.inl ⟨rfl, by omega⟩⟩
              · rw [← hprocess]
                exact prepareBlock_extends state block.hash data extended hlast
              · intro nf hnf
                rw [Bool.not_eq_true, any_eq_false] at hfresh
                have hnone := hfresh nf hnf
                simpa using hnone

theorem db_of_discard (hsame : next.discardPendingBatch = state.discardPendingBatch) :
    next.db = state.db := by
  have hdb : next.discardPendingBatch.db = state.discardPendingBatch.db := by rw [hsame]
  exact hdb

/-- Processing a block changes nothing but the pending batch, and neither a refused block nor a
check leaves one. -/
theorem processData_pending (state : CSaplingState) (block : CBlock) (nHeight : Int)
    (fJustCheck : Bool) :
    let result := state.processData frontiers block nHeight fJustCheck
    result.2.discardPendingBatch = state.discardPendingBatch ∧
      (state.pendingBatch = none → result.1 = false ∨ fJustCheck = true →
        result.2.pendingBatch = none) := by
  dsimp only
  unfold processData
  split
  · exact ⟨rfl, fun hpending _ => hpending⟩
  · split
    · split
      · exact ⟨rfl, fun hpending _ => hpending⟩
      · rename_i hcheck
        exact ⟨rfl, fun _ hnone => absurd hnone (by simp [hcheck])⟩
    · split
      · exact ⟨rfl, fun hpending _ => hpending⟩
      · split
        · exact ⟨rfl, fun hpending _ => hpending⟩
        · split
          · exact ⟨rfl, fun hpending _ => hpending⟩
          · split
            · exact ⟨rfl, fun hpending _ => hpending⟩
            · rename_i hcheck
              unfold extendTree
              split
              · exact ⟨rfl, fun _ _ => rfl⟩
              · exact ⟨rfl, fun _ hnone => absurd hnone (by simp [hcheck])⟩

theorem processBlock_pending (frontiers : FrontierFunctions Frontier) (state : CSaplingState)
    (params : SaplingParams) (block : CBlock) (nHeight : Int) (fJustCheck : Bool) :
    let result := state.processBlock frontiers params block nHeight fJustCheck
    result.2.discardPendingBatch = state.discardPendingBatch ∧
      (state.pendingBatch = none → result.1 = false ∨ fJustCheck = true →
        result.2.pendingBatch = none) := by
  dsimp only
  unfold CSaplingState.processBlock
  split
  · exact ⟨rfl, fun hpending _ => hpending⟩
  · split
    · exact ⟨rfl, fun hpending _ => hpending⟩
    · refine ⟨?_, ?_⟩
      · rw [(processData_pending _ block nHeight fJustCheck).1]
        split <;> rfl
      · intro hpending
        rw [hpending]
        exact (processData_pending state block nHeight fJustCheck).2 hpending

end Process

/-- The store after a block with this root, nullifiers and pool change was undone. -/
structure Retracts (state next : CSaplingState) (pprev : Uint256) (nHeight : Int)
    (nullifiers : List Uint256) (root : Uint256) (poolDelta : Int) : Prop where
  nullifiers : ∀ nf : Uint256, next.db.nullifiers[nf]? =
    if nf ∈ nullifiers then none else state.db.nullifiers[nf]?
  treeRoots : next.db.treeRoots = state.db.treeRoots.erase nHeight
  treeData : next.db.treeData = state.db.treeData.erase nHeight
  bestBlock : next.db.bestBlock = some pprev
  pool : next.nSaplingValuePool = state.nSaplingValuePool + poolDelta
  storedPool : state.db.valuePool.getD 0 = state.nSaplingValuePool →
    next.db.valuePool.getD 0 = next.nSaplingValuePool
  anchorHeights : next.anchorHeights = state.anchorHeights.remove root nHeight
  lastFrontierHeight : next.lastFrontierHeight = lastHeight next.anchorHeights.keys
  pendingBatch : next.pendingBatch = state.pendingBatch

theorem getElem?_foldl_erase_contained (map : Std.ExtTreeMap Uint256 Int) (nfs : List Uint256)
    (other : Uint256) :
    ((nfs.filter (fun nf => map.contains nf)).foldl (fun map nf => map.erase nf) map)[other]? =
      if other ∈ nfs then none else map[other]? := by
  rw [getElem?_foldl_erase]
  by_cases hcontains : map.contains other
  · simp [hcontains]
  · have hnone : map[other]? = none := by
      simpa using hcontains
    simp [hnone]

theorem undoBlock_retracts {state next : CSaplingState} {params : SaplingParams} {block : CBlock}
    {nHeight : Int} {pprev root : Uint256} (hactive : params.IsSaplingActive nHeight)
    (hroot : state.db.treeRoots[nHeight]? = some root)
    (hlast : state.lastFrontierHeight ≤ nHeight)
    (hundo : state.undoBlock params block nHeight (some pprev) = some next) :
    ∃ poolDelta, Retracts state next pprev nHeight (revealedBy block) root poolDelta ∧
      (poolDelta = balanceOf block ∧ 0 ≤ state.nSaplingValuePool + poolDelta ∨
        revealedBy block = [] ∧ committedBy block = [] ∧ poolDelta = 0) := by
  unfold undoBlock at hundo
  simp only [hactive, not_true_eq_false, if_false] at hundo
  cases hcollect : collectSaplingData block with
  | none => simp [hcollect] at hundo
  | some data =>
    obtain ⟨hnullifiers, hcommitments, htotal⟩ := collectSaplingData_eq_some hcollect
    rw [hcollect] at hundo
    dsimp only at hundo
    rw [← hnullifiers, ← hcommitments, ← htotal]
    split at hundo
    · rename_i hempty
      obtain rfl := Option.some.inj hundo
      refine ⟨0, ?_, Or.inr ⟨hempty.1, hempty.2, rfl⟩⟩
      simp only [forgetRoot, hroot, if_pos hlast]
      refine ⟨?_, rfl, rfl, rfl, (Int.add_zero _).symm, id, rfl, rfl, rfl⟩
      intro nf
      rw [hempty.1, if_neg not_mem_nil]
      rfl
    · split at hundo
      · cases hundo
      · split at hundo
        · cases hundo
        · obtain rfl := Option.some.inj hundo
          refine ⟨data.valueBalanceTotal, ?_, Or.inl ⟨rfl, by omega⟩⟩
          simp only [forgetRoot, hroot, if_pos hlast, writeBatch_append,
            writeBatch_eraseNullifiers]
          refine ⟨?_, rfl, rfl, rfl, rfl, fun _ => rfl, rfl, rfl, rfl⟩
          intro nf
          exact getElem?_foldl_erase_contained state.db.nullifiers data.nullifiers nf

end CSaplingState

end Kerrigan.Sapling
