import Kerrigan.Lib.Descent
import Kerrigan.Primitives.Coins
import Kerrigan.Sapling.Recovery
import Mathlib.Data.Finset.Lattice.Lemmas

/-!
# The taint set

The outpoints that descend from the theft.  `ApplyTxRule` passes the taint on from one
transaction to the next, and `EnsureTaintSetComputed` walks the active chain from the root height
to the block below the activation height, unless the set it has was computed for that block.
`ConnectBlock` makes sure of the set; mempool and templates read it as it stands.
-/

namespace Kerrigan.Freeze

open Primitives Lib Sapling List

/-! ## The rule -/

/-- Where the taint starts: the drain script and the transactions of the theft. -/
structure FreezeSeed where
  seedScript : Script
  seedTxids : List Uint256

def FreezeSeed.incident : FreezeSeed where
  seedScript :=
    [0x76, 0xa9, 0x14, 0x25, 0xcc, 0x23, 0x52, 0xfd, 0x7a, 0xd4, 0x76, 0x65, 0x9a, 0xa1, 0x82,
      0x03, 0x96, 0x7a, 0x6e, 0x20, 0x73, 0xad, 0xc9, 0x88, 0xac]
  seedTxids := [0x53c99ba469c2955e6f8db21c4c0e8fa1fee4a78a693e27cb1cda2ed44d77d093]

def applyTxRule (txid : Uint256) (vinPrevouts : List COutPoint) (voutScripts : List Script)
    (seed : FreezeSeed) (working : Finset COutPoint) : Bool × Finset COutPoint :=
  let tainted := seed.seedTxids.contains txid ||
    vinPrevouts.any (fun prevout => decide (prevout ∈ working)) ||
    (!seed.seedScript.isEmpty && voutScripts.any (fun spk => spk == seed.seedScript))
  if tainted then
    (true, (range voutScripts.length).foldl (fun set n => insert ⟨txid, n⟩ set) working)
  else (false, working)

variable (seed : FreezeSeed) (working : Finset COutPoint) (tx : CTransaction) (blocks : List CBlock)

def walkTx : Finset COutPoint :=
  (applyTxRule tx.hash (tx.vin.map CTxIn.prevout) (tx.vout.map CTxOut.scriptPubKey) seed working).2

def walk : Finset COutPoint :=
  blocks.foldl (fun working block => block.vtx.foldl (walkTx seed) working) ∅

/-! ## The rule as descent -/

def outpointsOf : List COutPoint :=
  (range tx.vout.length).map (fun n => ⟨tx.hash, n⟩)

/-- A transaction passes the taint of its inputs on to all its outputs; it is a root if it is of
the theft or pays the drain script. -/
def taintFlow : Flow CTransaction COutPoint where
  root tx := seed.seedTxids.contains tx.hash ||
    (!seed.seedScript.isEmpty && tx.vout.any (fun txout => txout.scriptPubKey == seed.seedScript))
  reads tx := tx.vin.map CTxIn.prevout
  writes tx := outpointsOf tx

def Tainted (outpoint : COutPoint) : Prop :=
  (taintFlow seed).Descends (blocks.flatMap CBlock.vtx) outpoint

theorem foldl_insert_eq {outs : List COutPoint} {working : Finset COutPoint} :
    outs.foldl (fun set outpoint => insert outpoint set) working = working ∪ outs.toFinset := by
  induction outs generalizing working with
  | nil => simp
  | cons outpoint rest ih =>
    rw [foldl_cons, ih, toFinset_cons, Finset.insert_union, Finset.union_insert]

theorem walkTx_eq : walkTx seed working tx = (taintFlow seed).markOne working tx := by
  have hmarks : (taintFlow seed).marks working tx =
      (seed.seedTxids.contains tx.hash ||
        (tx.vin.map CTxIn.prevout).any (fun prevout => decide (prevout ∈ working)) ||
        (!seed.seedScript.isEmpty &&
          (tx.vout.map CTxOut.scriptPubKey).any (fun spk => spk == seed.seedScript))) := by
    have hscripts : (tx.vout.map CTxOut.scriptPubKey).any (fun spk => spk == seed.seedScript) =
        tx.vout.any (fun txout => txout.scriptPubKey == seed.seedScript) := any_map
    rw [hscripts, Flow.marks, taintFlow]
    rw [Bool.or_assoc, Bool.or_assoc, Bool.or_comm (!_ && _)]
  have houts : (range (tx.vout.map CTxOut.scriptPubKey).length).foldl
      (fun set n => insert ⟨tx.hash, n⟩ set) working = working ∪ (outpointsOf tx).toFinset := by
    rw [← foldl_insert_eq, outpointsOf, foldl_map, length_map]
  unfold walkTx applyTxRule Flow.markOne
  rw [hmarks, houts]
  dsimp only
  split <;> rfl

theorem mem_walk_iff {seed : FreezeSeed} {blocks : List CBlock} {outpoint : COutPoint} :
    outpoint ∈ walk seed blocks ↔ Tainted seed blocks outpoint := by
  have hwalk : walk seed blocks = (taintFlow seed).markAll (blocks.flatMap CBlock.vtx) := by
    have hstep : walkTx seed = (taintFlow seed).markOne := by
      funext working tx
      exact walkTx_eq seed working tx
    rw [walk, hstep, Flow.markAll, foldl_flatMap]
  rw [hwalk, Flow.mem_markAll_iff]
  rfl

theorem Tainted.output {seed : FreezeSeed} {blocks : List CBlock} {outpoint : COutPoint}
    (htainted : Tainted seed blocks outpoint) :
    ∃ block ∈ blocks, ∃ tx ∈ block.vtx, outpoint.hash = tx.hash ∧ outpoint.n < tx.vout.length := by
  have hwritten : ∃ tx ∈ blocks.flatMap CBlock.vtx, outpoint ∈ outpointsOf tx := by
    unfold Tainted at htainted
    generalize blocks.flatMap CBlock.vtx = txs at htainted
    cases htainted with
    | @root before after tx _ hroot hkey => exact ⟨tx, by simp, hkey⟩
    | @step before after tx source _ hread hsource hkey => exact ⟨tx, by simp, hkey⟩
  obtain ⟨tx, htx, hout⟩ := hwritten
  obtain ⟨block, hblock, hvtx⟩ := mem_flatMap.mp htx
  obtain ⟨n, hn, rfl⟩ := mem_map.mp hout
  exact ⟨block, hblock, tx, hvtx, rfl, mem_range.mp hn⟩

/-! ## The set of the node -/

structure TaintSet where
  tainted : Finset COutPoint := ∅
  computed : Bool := false
  computedHeight : Int := -1
  computedAnchorHash : Uint256 := 0

variable (set : TaintSet)

namespace TaintSet

def contains (outpoint : COutPoint) : Bool :=
  set.computed && decide (outpoint ∈ set.tainted)

def adopt (outpoints : Finset COutPoint) (height : Int) (anchor : Uint256) : TaintSet where
  tainted := outpoints
  computed := true
  computedHeight := height
  computedAnchorHash := anchor

end TaintSet

structure FreezeParams where
  nFreezeActivationHeight : Int := 0
  /-- The walk starts here. -/
  nFreezeRootHeight : Int := 0
  seed : FreezeSeed := FreezeSeed.incident
  genesis : CBlock

namespace FreezeParams

variable (params : FreezeParams)

def Active (nHeight : Int) : Prop :=
  0 < params.nFreezeActivationHeight ∧ params.nFreezeActivationHeight ≤ nHeight

instance (nHeight : Int) : Decidable (params.Active nHeight) :=
  inferInstanceAs (Decidable (_ ∧ _))

variable (chain : List CBlock)

def byHeight : List CBlock := params.genesis :: chain.reverse

def fromRoot : List CBlock :=
  (params.byHeight chain).drop params.nFreezeRootHeight.toNat

/-- The blocks that the walk reads: from the root height to below the activation height. -/
def window : List CBlock :=
  ((params.byHeight chain).take params.nFreezeActivationHeight.toNat).drop
    params.nFreezeRootHeight.toNat

/-- The blocks from the root height and the activation height on. -/
def afterWindow : List CBlock :=
  (params.byHeight chain).drop
    (max params.nFreezeRootHeight.toNat params.nFreezeActivationHeight.toNat)

def ensureTaintSetComputed (readable : CBlock → Bool) (chain : List CBlock) (set : TaintSet) :
    Option TaintSet :=
  match (params.byHeight chain)[params.nFreezeActivationHeight.toNat - 1]? with
  | none => none
  | some anchor =>
      if set.computed && set.computedAnchorHash == anchor.hash then some set
      else if (params.window chain).all readable then
        some (TaintSet.adopt (walk params.seed (params.window chain))
          params.nFreezeActivationHeight anchor.hash)
      else none

/-- The block below the activation height is the one that the set was computed for. -/
def Anchored (chain : List CBlock) : Prop :=
  ∃ anchor ∈ (params.byHeight chain)[params.nFreezeActivationHeight.toNat - 1]?,
    anchor.hash = set.computedAnchorHash

def isFrozen (view : CCoinsView) (txin : CTxIn) : Bool :=
  set.contains txin.prevout ||
    (view txin.prevout).any (fun coin => coin.out.scriptPubKey == params.seed.seedScript)

def freezeGate (ensured : Option TaintSet) (nHeight : Int) (view : CCoinsView)
    (tx : CTransaction) : Option String :=
  if params.Active nHeight then
    match ensured with
    | none => some "freeze-set-unavailable"
    | some set => if tx.vin.any (params.isFrozen set view) then some "frozen-outpoint-spend" else none
  else none

/-- The check of `MemPoolAccept::PreChecks`, with the set as it stands. -/
def preChecksFreeze : Int → CCoinsView → CTransaction → Option String :=
  params.freezeGate (some set)

/-- The transaction is left out of templates, with the set as it stands.  The drain script is not
looked at. -/
def excludedFromTemplate (nHeight : Int) (tx : CTransaction) : Bool :=
  decide (params.Active nHeight) && set.computed &&
    tx.vin.any (fun txin => set.contains txin.prevout)

/-- Mempool and templates refuse what spends an outpoint of the given closure, and the mempool also
what spends a coin of the drain script. -/
structure ReadsAs (set : TaintSet) (closure : Finset COutPoint) : Prop where
  mempool : ∀ nHeight view tx, params.Active nHeight →
    ((params.preChecksFreeze set nHeight view tx = some "frozen-outpoint-spend" ↔
        ∃ txin ∈ tx.vin, txin.prevout ∈ closure ∨
          ∃ coin ∈ view txin.prevout, coin.out.scriptPubKey = params.seed.seedScript) ∧
      (params.preChecksFreeze set nHeight view tx = some "frozen-outpoint-spend" ∨
        params.preChecksFreeze set nHeight view tx = none))
  template : ∀ nHeight tx, params.Active nHeight →
    (params.excludedFromTemplate set nHeight tx = true ↔ ∃ txin ∈ tx.vin, txin.prevout ∈ closure)

theorem readsAs_of_contains {params : FreezeParams} {set : TaintSet} {closure : Finset COutPoint}
    (hcontains : ∀ outpoint, set.contains outpoint = true ↔ outpoint ∈ closure) :
    params.ReadsAs set closure where
  mempool := by
    intro nHeight view tx hactive
    have hfrozen : tx.vin.any (params.isFrozen set view) = true ↔
        ∃ txin ∈ tx.vin, txin.prevout ∈ closure ∨
          ∃ coin ∈ view txin.prevout, coin.out.scriptPubKey = params.seed.seedScript := by
      rw [any_eq_true]
      refine exists_congr fun txin => and_congr_right fun _ => ?_
      rw [isFrozen, Bool.or_eq_true, hcontains]
      cases view txin.prevout with
      | none => simp
      | some coin => simp
    rw [← hfrozen]
    unfold preChecksFreeze freezeGate
    rw [if_pos hactive]
    dsimp only
    split
    · rename_i hany
      exact ⟨by simp [hany], Or.inl rfl⟩
    · rename_i hnone
      exact ⟨by simp [hnone], Or.inr rfl⟩
  template := by
    intro nHeight tx hactive
    unfold excludedFromTemplate
    rw [decide_eq_true hactive, Bool.true_and, Bool.and_eq_true, any_eq_true]
    constructor
    · rintro ⟨-, txin, htxin, hcontained⟩
      exact ⟨txin, htxin, (hcontains txin.prevout).mp hcontained⟩
    · rintro ⟨txin, htxin, hmem⟩
      have hcontained := (hcontains txin.prevout).mpr hmem
      exact ⟨(Bool.and_eq_true _ _ ▸ hcontained).1, txin, htxin, hcontained⟩

end FreezeParams

end Kerrigan.Freeze
