import Kerrigan.Freeze.TaintSet
import Kerrigan.Primitives.History
import Kerrigan.Validation.CoinOrigin

/-!
# The freeze on a running node

A node connects, disconnects and rolls forward blocks, tests the blocks of its templates, flushes and
restarts.  Only `ConnectBlock` makes sure of the taint set.
-/

namespace Kerrigan.Freeze

open Primitives Consensus Escrow Lib Sapling BlockTree FreezeParams List
open Validation (EveryCoin EveryOutput EveryBlockUndo)

/-! ## The machine -/

structure FreezeNode where
  state : ChainState
  taintSet : TaintSet := {}
  disk : ChainState
  /-- The blocks that `ConnectBlock` has accepted, with the undo data it wrote. -/
  accepted : List ChainEntry := []

open FreezeNode

def blocksOf (state : ChainState) : List CBlock := state.activeChain.map ChainEntry.block

def FreezeNode.start : FreezeNode where
  state := ChainState.genesis
  disk := ChainState.genesis

inductive FreezeStep where
  | connect (hash : Uint256) (checks : OtherChecks) (pGovMan : Option GovernanceStore)
      (readable : CBlock → Bool)
  | disconnect (acceptUnclean : Bool)
  | rollforward (position : Nat)
  /-- `ConnectBlock` on a copy of the coins, for a block that is not connected. -/
  | test (block : CBlock) (checks : OtherChecks) (pGovMan : Option GovernanceStore)
      (readable : CBlock → Bool)
  | flush
  /-- The process starts again.  An interrupted flush has written some of the coins. -/
  | restart (written : COutPoint → Bool)

section Machine

variable (freeze : FreezeParams) (params : Params) (decodeDestination : String → Option Script)
  (tree : BlockTree freeze.genesis.hash)

def withFreeze (ensured : Option TaintSet) (checks : OtherChecks) : OtherChecks :=
  { checks with
    perTx := fun nHeight view tx isBurn =>
      (freeze.freezeGate ensured nHeight view tx).orElse
        (fun _ => checks.perTx nHeight view tx isBurn) }

variable (node : FreezeNode) (block : CBlock) (checks : OtherChecks)
  (pGovMan : Option GovernanceStore)

/-- The transaction loop gets to the freeze of the first transaction after the coinbase. -/
def reachesFreeze (nHeight : Int) (block : CBlock) (view : CCoinsView) (evodb : CEvoDB) : Bool :=
  match block.vtx with
  | coinbase :: tx :: rest =>
      coinbase.isCoinBase && !(tx :: rest).any CTransaction.isCoinBase &&
        (checks.early block nHeight view).isNone &&
        (view.updateCoins coinbase nHeight).any (fun withCoinbase =>
          match checkTxInputs tx withCoinbase.1 nHeight with
          | .error _ => false
          | .ok txfee => moneyRange txfee &&
              (escrowGate params decodeDestination nHeight withCoinbase.1 evodb pGovMan tx).isOk)
  | _ => false

/-- The set of the node after `ConnectBlock`, whether or not it accepts the block. -/
def publishedSet (ensured : Option TaintSet) : TaintSet :=
  if freeze.Active node.state.nextHeight ∧ reachesFreeze params decodeDestination checks pGovMan
      node.state.nextHeight block node.state.coins node.state.evodb then
    ensured.getD node.taintSet
  else node.taintSet

def connectFrozen (readable : CBlock → Bool) : FreezeNode :=
  let nHeight := node.state.nextHeight
  let ensured := freeze.ensureTaintSetComputed readable (blocksOf node.state) node.taintSet
  let taintSet := publishedSet freeze params decodeDestination node block checks pGovMan ensured
  match connectBlock params decodeDestination (withFreeze freeze ensured checks) nHeight pGovMan
      block node.state.coins node.state.evodb with
  | .error _ => { node with taintSet := taintSet }
  | .ok (loop, blockUndo) =>
      { node with
        state := ⟨⟨block, nHeight, blockUndo⟩ :: node.state.activeChain, loop.view, loop.evodb⟩
        taintSet := taintSet
        accepted := ⟨block, nHeight, blockUndo⟩ :: node.accepted }

def freezeStep : FreezeStep → FreezeNode
  | .connect hash checks pGovMan readable =>
      match tree.branch hash with
      | [] => node
      | block :: rest =>
          if rest = blocksOf node.state then
            connectFrozen freeze params decodeDestination node block checks pGovMan readable
          else node
  | .disconnect acceptUnclean =>
      { node with state := (disconnectTip node.state acceptUnclean).getD node.state }
  | .rollforward position =>
      match node.accepted[position]? with
      | none => node
      | some entry =>
          if tree.branch entry.block.hash = entry.block :: blocksOf node.state then
            match rollforwardBlock node.state.nextHeight node.state.coins entry.block.vtx with
            | none => node
            | some coins =>
                { node with state := ⟨entry :: node.state.activeChain, coins, node.state.evodb⟩ }
          else node
  | .test block checks pGovMan readable =>
      { node with
        taintSet := publishedSet freeze params decodeDestination node block checks pGovMan
          (freeze.ensureTaintSetComputed readable (blocksOf node.state) node.taintSet) }
  | .flush => { node with disk := node.state }
  | .restart written =>
      { node with
        state :=
          { node.disk with
            coins := fun outpoint =>
              if written outpoint then node.state.coins outpoint else node.disk.coins outpoint }
        taintSet := {} }

end Machine

/-! ## Transactions of the tree -/

section Tree

variable {freeze : FreezeParams} (tree : BlockTree freeze.genesis.hash)

/-- The transaction is in the genesis block or in a block of the tree. -/
def Mentions (tx : CTransaction) : Prop :=
  tx ∈ freeze.genesis.vtx ∨ ∃ hash, ∃ block ∈ tree.branch hash, tx ∈ block.vtx

/-- What holds of transactions that were read from the wire: an identifier stands for one
transaction, and no transaction has more outputs than an index can name. -/
structure WireTree : Prop where
  committed : ∀ tx other, Mentions tree tx → Mentions tree other → tx.hash = other.hash → tx = other
  outputs : ∀ tx, Mentions tree tx → tx.vout.length ≤ COutPoint.nullIndex

def OutputOf (outpoint : COutPoint) (txout : CTxOut) : Prop :=
  ∃ tx, Mentions tree tx ∧ tx.hash = outpoint.hash ∧ tx.vout[outpoint.n]? = some txout

def PaysDrain (outpoint : COutPoint) : Prop :=
  ∃ txout, OutputOf tree outpoint txout ∧ txout.scriptPubKey = freeze.seed.seedScript

variable {tree} {outpoint : COutPoint}

theorem WireTree.output_unique (hwire : WireTree tree) {first second : CTxOut}
    (hfirst : OutputOf tree outpoint first) (hsecond : OutputOf tree outpoint second) :
    first = second := by
  obtain ⟨tx, hmentions, hhash, hout⟩ := hfirst
  obtain ⟨other, hother, hotherHash, hotherOut⟩ := hsecond
  obtain rfl := hwire.committed tx other hmentions hother (hhash.trans hotherHash.symm)
  exact Option.some.inj (hout.symm.trans hotherOut)

variable {tx : CTransaction}

theorem everyOutput_of_mentions (hmentions : Mentions tree tx) :
    EveryOutput (OutputOf tree) tx := fun _ _ hout => ⟨tx, hmentions, rfl, hout⟩

theorem WireTree.not_outputOf_null (hwire : WireTree tree) (hnull : outpoint.isNull = true)
    (txout : CTxOut) : ¬ OutputOf tree outpoint txout := by
  rintro ⟨tx, hmentions, -, hout⟩
  have hlength := hwire.outputs tx hmentions
  have hlt : outpoint.n < tx.vout.length := (List.getElem?_eq_some_iff.mp hout).1
  have hn : outpoint.n = COutPoint.nullIndex := by
    simp only [COutPoint.isNull, Bool.and_eq_true, beq_iff_eq] at hnull
    exact hnull.2
  omega

/-! ## The window of a chain -/

variable {chain parents : List CBlock}

theorem holds_suffix (hheld : tree.Holds chain) (hsuffix : parents <:+ chain) :
    tree.Holds parents := by
  induction chain with
  | nil =>
    rw [suffix_nil.mp hsuffix]
    exact hheld
  | cons block rest ih =>
    rcases suffix_cons_iff.mp hsuffix with rfl | hrest
    · exact hheld
    · exact ih hheld.tail hrest

variable {block : CBlock}

theorem mentions_of_mem (hheld : tree.Holds chain) (hblock : block ∈ freeze.byHeight chain)
    (htx : tx ∈ block.vtx) :
    Mentions tree tx := by
  rcases mem_cons.mp hblock with rfl | hchain
  · exact Or.inl htx
  · rw [mem_reverse] at hchain
    refine Or.inr ⟨tipHash freeze.genesis.hash chain, block, ?_, htx⟩
    rw [hheld]
    exact hchain

theorem byHeight_cons (block : CBlock) (chain : List CBlock) :
    freeze.byHeight (block :: chain) = freeze.byHeight chain ++ [block] := by
  rw [byHeight, reverse_cons, ← cons_append]
  rfl

theorem mentions_tip (hheld : tree.Holds (block :: chain)) :
    ∀ tx ∈ block.vtx, Mentions tree tx := by
  intro tx htx
  refine mentions_of_mem hheld ?_ htx
  rw [byHeight_cons]
  exact mem_append_right _ mem_cons_self

theorem length_byHeight (chain : List CBlock) :
    (freeze.byHeight chain).length = chain.length + 1 := by
  rw [byHeight, length_cons, length_reverse]

theorem byHeight_tip (freeze : FreezeParams) (chain : List CBlock) :
    ∃ block, (freeze.byHeight chain)[chain.length]? = some block ∧
      block.hash = tipHash freeze.genesis.hash chain := by
  cases chain with
  | nil => exact ⟨freeze.genesis, rfl, rfl⟩
  | cons block rest =>
    refine ⟨block, ?_, rfl⟩
    rw [byHeight_cons, length_cons, ← length_byHeight, getElem?_concat_length]

theorem take_byHeight (chain : List CBlock) (nHeight : Nat) :
    (freeze.byHeight chain).take (nHeight + 1) =
      freeze.byHeight (chain.drop (chain.length - nHeight)) := by
  rw [byHeight, byHeight, take_succ_cons, take_reverse]

theorem window_eq_of_anchor {other : List CBlock} (hheld : tree.Holds chain)
    (hother : tree.Holds other) (hactive : 0 < freeze.nFreezeActivationHeight)
    {anchor otherAnchor : CBlock}
    (hanchor : (freeze.byHeight chain)[freeze.nFreezeActivationHeight.toNat - 1]? = some anchor)
    (hotherAnchor : (freeze.byHeight other)[freeze.nFreezeActivationHeight.toNat - 1]? =
      some otherAnchor) (hhash : anchor.hash = otherAnchor.hash) :
    freeze.window chain = freeze.window other := by
  obtain ⟨last, hlast⟩ : ∃ last, freeze.nFreezeActivationHeight.toNat = last + 1 :=
    ⟨freeze.nFreezeActivationHeight.toNat - 1, by omega⟩
  rw [hlast, Nat.add_sub_cancel] at hanchor hotherAnchor
  have hpart : ∀ {blocks : List CBlock} {found : CBlock}, tree.Holds blocks →
      (freeze.byHeight blocks)[last]? = some found →
      ∃ below, tree.Holds below ∧ tipHash freeze.genesis.hash below = found.hash ∧
        (freeze.byHeight blocks).take (last + 1) = freeze.byHeight below := by
    intro blocks found hblocks hfound
    have hle : last ≤ blocks.length := by
      have hlt := (List.getElem?_eq_some_iff.mp hfound).1
      rw [length_byHeight] at hlt
      omega
    refine ⟨blocks.drop (blocks.length - last), holds_suffix hblocks (drop_suffix _ _), ?_,
      take_byHeight blocks last⟩
    obtain ⟨tip, htip, htipHash⟩ := byHeight_tip freeze (blocks.drop (blocks.length - last))
    rw [← take_byHeight, length_drop, Nat.sub_sub_self hle,
      getElem?_take_of_lt (Nat.lt_succ_self last), hfound] at htip
    rw [← htipHash, Option.some.inj htip]
  obtain ⟨below, hbelow, hbelowHash, htake⟩ := hpart hheld hanchor
  obtain ⟨otherBelow, hotherBelow, hotherHash, hotherTake⟩ := hpart hother hotherAnchor
  have hsame : below = otherBelow :=
    hbelow.eq hotherBelow (hbelowHash.trans (hhash.trans hotherHash.symm))
  rw [window, window, hlast, htake, hotherTake, hsame]

theorem window_cons (hactive : freeze.Active (chain.length + 1)) :
    freeze.window (block :: chain) = freeze.window chain := by
  have hle : freeze.nFreezeActivationHeight.toNat ≤ (freeze.byHeight chain).length := by
    have hheight := hactive.2
    rw [length_byHeight]
    omega
  rw [window, window, byHeight_cons, take_append_of_le_length hle]

theorem window_suffix (hsuffix : parents <:+ chain) (hactive : freeze.Active (parents.length + 1)) :
    freeze.window chain = freeze.window parents := by
  induction chain with
  | nil => rw [suffix_nil.mp hsuffix]
  | cons block rest ih =>
    rcases suffix_cons_iff.mp hsuffix with rfl | hrest
    · rfl
    · have hlength := hrest.length_le
      have hrestActive : freeze.Active (rest.length + 1) := ⟨hactive.1, by
        have hheight := hactive.2
        omega⟩
      rw [window_cons hrestActive, ih hrest]

theorem fromRoot_eq (chain : List CBlock) :
    freeze.fromRoot chain = freeze.window chain ++ freeze.afterWindow chain := by
  rw [fromRoot, window, afterWindow]
  generalize freeze.byHeight chain = blocks
  generalize freeze.nFreezeRootHeight.toNat = root
  generalize freeze.nFreezeActivationHeight.toNat = height
  rcases Nat.le_total root height with hle | hle
  · rw [Nat.max_eq_right hle]
    conv_lhs => rw [← take_append_drop height blocks]
    rw [drop_append]
    by_cases hlength : height ≤ blocks.length
    · rw [length_take, Nat.min_eq_left hlength, Nat.sub_eq_zero_of_le hle, drop_zero]
    · have hnil : blocks.drop height = [] := drop_eq_nil_of_le (by omega)
      rw [hnil, drop_nil]
  · have hnil : (blocks.take height).drop root = [] :=
      drop_eq_nil_of_le (by rw [length_take]; omega)
    rw [Nat.max_eq_left hle, hnil, nil_append]

theorem mem_afterWindow (hpositive : 0 < freeze.nFreezeActivationHeight)
    (hblock : block ∈ freeze.afterWindow chain) :
    ∃ parents, block :: parents <:+ chain ∧ freeze.Active (parents.length + 1) := by
  induction chain with
  | nil =>
    rw [afterWindow, byHeight, drop_eq_nil_of_le] at hblock
    · cases hblock
    · rw [reverse_nil, length_singleton]
      omega
  | cons tip rest ih =>
    rw [afterWindow, byHeight_cons, drop_append] at hblock
    rcases mem_append.mp hblock with hrest | htip
    · obtain ⟨parents, hsuffix, hactive⟩ := ih hrest
      exact ⟨parents, hsuffix.trans (suffix_cons tip rest), hactive⟩
    · have hmem := mem_of_mem_drop htip
      obtain rfl := mem_singleton.mp hmem
      have hshort := length_pos_of_mem htip
      rw [length_drop, length_singleton, length_byHeight] at hshort
      exact ⟨rest, suffix_rfl, hpositive, by omega⟩

/-! ## The set that the node consults -/

variable (tree) in
/-- A computed set is what the walk gives on a chain with its anchor. -/
def SoundTaint (set : TaintSet) : Prop :=
  set.computed = true → ∃ chain, tree.Holds chain ∧ freeze.Anchored set chain ∧
    set.tainted = walk freeze.seed (freeze.window chain)

theorem soundTaint_empty : SoundTaint tree {} := by
  intro hcomputed
  cases hcomputed

variable {set : TaintSet} {readable : CBlock → Bool}

/-- The set is then what the walk gives on every chain with its anchor. -/
theorem SoundTaint.tainted_eq (hsound : SoundTaint tree set) (hcomputed : set.computed = true)
    (hpositive : 0 < freeze.nFreezeActivationHeight) (hheld : tree.Holds chain)
    (hanchored : freeze.Anchored set chain) :
    set.tainted = walk freeze.seed (freeze.window chain) := by
  obtain ⟨other, hother, ⟨otherAnchor, hotherAnchor, hotherHash⟩, htainted⟩ := hsound hcomputed
  obtain ⟨anchor, hanchor, hhash⟩ := hanchored
  rw [htainted, window_eq_of_anchor hother hheld hpositive hotherAnchor hanchor
    (hotherHash.trans hhash.symm)]

theorem SoundTaint.ensure {ensured : TaintSet} (hsound : SoundTaint tree set)
    (hpositive : 0 < freeze.nFreezeActivationHeight) (hheld : tree.Holds chain)
    (hensure : freeze.ensureTaintSetComputed readable chain set = some ensured) :
    SoundTaint tree ensured ∧ ensured.computed = true ∧
      ensured.tainted = walk freeze.seed (freeze.window chain) := by
  unfold ensureTaintSetComputed at hensure
  split at hensure
  · cases hensure
  · rename_i anchor hanchor
    split at hensure
    next hcached =>
        obtain rfl := Option.some.inj hensure
        rw [Bool.and_eq_true, beq_iff_eq] at hcached
        exact ⟨hsound, hcached.1, hsound.tainted_eq hcached.1 hpositive hheld
          ⟨anchor, hanchor, hcached.2.symm⟩⟩
    next =>
        split at hensure
        · obtain rfl := Option.some.inj hensure
          exact ⟨fun _ => ⟨chain, hheld, ⟨anchor, hanchor, rfl⟩, rfl⟩, rfl, rfl⟩
        · cases hensure

theorem SoundTaint.getD (hsound : SoundTaint tree set)
    (hpositive : 0 < freeze.nFreezeActivationHeight) (hheld : tree.Holds chain)
    (readable : CBlock → Bool) :
    SoundTaint tree ((freeze.ensureTaintSetComputed readable chain set).getD set) := by
  cases hensure : freeze.ensureTaintSetComputed readable chain set with
  | none => exact hsound
  | some ensured => exact (hsound.ensure hpositive hheld hensure).1

/-! ## Accepted blocks -/

variable (tree) in
/-- No input of the block is in the set of the window, and none pays the drain script. -/
def CleanBlock (block : CBlock) (parents : List CBlock) : Prop :=
  ∀ tx ∈ block.vtx, ∀ txin ∈ tx.vin,
    txin.prevout ∉ walk freeze.seed (freeze.window parents) ∧ ¬ PaysDrain tree txin.prevout

variable (tree) in
def CleanChain (chain : List CBlock) : Prop :=
  ∀ block parents, block :: parents <:+ chain → freeze.Active (parents.length + 1) →
    CleanBlock tree block parents

theorem cleanChain_cons (hchain : CleanChain tree chain)
    (hblock : freeze.Active (chain.length + 1) → CleanBlock tree block chain) :
    CleanChain tree (block :: chain) := by
  intro other parents hsuffix hactive
  rcases suffix_cons_iff.mp hsuffix with heq | hrest
  · obtain ⟨rfl, rfl⟩ := cons.inj heq
    exact hblock hactive
  · exact hchain other parents hrest hactive

theorem CleanChain.suffix (hchain : CleanChain tree chain) (hsuffix : parents <:+ chain) :
    CleanChain tree parents :=
  fun block rest hrest hactive => hchain block rest (hrest.trans hsuffix) hactive

theorem CleanChain.tainted_iff (hchain : CleanChain tree chain)
    (hpositive : 0 < freeze.nFreezeActivationHeight) :
    outpoint ∈ walk freeze.seed (freeze.fromRoot chain) ↔
      outpoint ∈ walk freeze.seed (freeze.window chain) ∨
        outpoint ∈ walk freeze.seed (freeze.afterWindow chain) := by
  rw [mem_walk_iff, mem_walk_iff, mem_walk_iff]
  unfold Tainted
  rw [fromRoot_eq, flatMap_append]
  refine Flow.descends_append_iff ?_
  intro tx htx source hsource htainted
  obtain ⟨block, hblock, hvtx⟩ := mem_flatMap.mp htx
  obtain ⟨txin, htxin, rfl⟩ := mem_map.mp hsource
  obtain ⟨parents, hsuffix, hactive⟩ := mem_afterWindow hpositive hblock
  have hclean := (hchain block parents hsuffix hactive tx hvtx txin htxin).1
  rw [← window_suffix ((suffix_cons block parents).trans hsuffix) hactive] at hclean
  exact hclean (mem_walk_iff.mpr htainted)

theorem prevout_isNull (hcoinbase : tx.isCoinBase = true) {txin : CTxIn} (htxin : txin ∈ tx.vin) :
    txin.prevout.isNull = true := by
  unfold CTransaction.isCoinBase at hcoinbase
  split at hcoinbase
  · rename_i only hvin
    rw [hvin, mem_singleton] at htxin
    rw [htxin]
    exact hcoinbase
  · cases hcoinbase

theorem WireTree.null_clean (hwire : WireTree tree) (hheld : tree.Holds chain)
    (hnull : outpoint.isNull = true) :
    outpoint ∉ walk freeze.seed (freeze.window chain) ∧ ¬ PaysDrain tree outpoint := by
  refine ⟨?_, ?_⟩
  · intro hmem
    obtain ⟨block, hblock, tx, htx, hhash, hn⟩ := (mem_walk_iff.mp hmem).output
    have hchain : block ∈ freeze.byHeight chain := mem_of_mem_take (mem_of_mem_drop hblock)
    exact hwire.not_outputOf_null hnull _
      ⟨tx, mentions_of_mem hheld hchain htx, hhash.symm, getElem?_eq_getElem hn⟩
  · rintro ⟨txout, hout, -⟩
    exact hwire.not_outputOf_null hnull txout hout

variable {ensured : Option TaintSet} {nHeight : Int} {view : CCoinsView}

theorem freezeGate_eq_none (hactive : freeze.Active nHeight)
    (hgate : freeze.freezeGate ensured nHeight view tx = none) :
    ∃ set, ensured = some set ∧ ∀ txin ∈ tx.vin, set.contains txin.prevout = false ∧
      ∀ coin, view txin.prevout = some coin → coin.out.scriptPubKey ≠ freeze.seed.seedScript := by
  unfold freezeGate at hgate
  rw [if_pos hactive] at hgate
  cases ensured with
  | none => cases hgate
  | some set =>
    refine ⟨set, rfl, ?_⟩
    intro txin htxin
    dsimp only at hgate
    split at hgate
    next => cases hgate
    next hany =>
        have hfrozen : freeze.isFrozen set view txin = false := by
          by_contra hbad
          exact hany (any_eq_true.mpr ⟨txin, htxin, by simpa using hbad⟩)
        rw [isFrozen, Bool.or_eq_false_iff] at hfrozen
        refine ⟨hfrozen.1, ?_⟩
        intro coin hcoin
        rw [hcoin] at hfrozen
        simpa using hfrozen.2

theorem cleanBlock_of_connectBlock {params : Params} {decodeDestination : String → Option Script}
    {checks : OtherChecks} {pGovMan : Option GovernanceStore} {evodb : CEvoDB} {loop : TxLoop}
    {blockUndo : CBlockUndo} (hwire : WireTree tree) (hheld : tree.Holds (block :: chain))
    (hcoins : EveryCoin (OutputOf tree) view) (hensured : ∀ set ∈ ensured, set.computed = true ∧
      set.tainted = walk freeze.seed (freeze.window chain)) (hactive : freeze.Active nHeight)
    (hconnect : connectBlock params decodeDestination (withFreeze freeze ensured checks) nHeight
      pGovMan block view evodb = .ok (loop, blockUndo)) : CleanBlock tree block chain := by
  have hmentions := mentions_tip hheld
  obtain ⟨coinbase, rest, -, hvtx, hcoinbase, -, -, -⟩ := connectBlock_eq_ok hconnect
  obtain ⟨-, -, hrounds⟩ := hcoins.connectBlock
    (fun tx htx => everyOutput_of_mentions (hmentions tx htx)) hconnect
  rw [hvtx, tail_cons] at hrounds
  intro tx htx txin htxin
  rw [hvtx] at htx
  rcases mem_cons.mp htx with rfl | hrest
  · exact hwire.null_clean hheld.tail (prevout_isNull hcoinbase htxin)
  · obtain ⟨hplain, before, after, undo, hbefore, hround⟩ := hrounds tx hrest
    obtain ⟨txfee, -, -, -, hperTx, hupdate, -⟩ := connectTx_eq_ok_iff.mp hround
    have hgate : freeze.freezeGate ensured nHeight before.view tx = none := by
      cases hfreeze : freeze.freezeGate ensured nHeight before.view tx with
      | none => rfl
      | some reason =>
        dsimp only [withFreeze] at hperTx
        rw [hfreeze] at hperTx
        cases hperTx
    obtain ⟨set, hset, hinputs⟩ := freezeGate_eq_none hactive hgate
    obtain ⟨hcontains, hscript⟩ := hinputs txin htxin
    obtain ⟨hcomputed, htainted⟩ := hensured set hset
    refine ⟨?_, ?_⟩
    · rw [← htainted]
      simpa [TaintSet.contains, hcomputed] using hcontains
    · rintro ⟨txout, hout, hdrain⟩
      obtain ⟨coin, hcoin⟩ := coin_of_spends hupdate
        ⟨hplain, mem_map_of_mem htxin⟩
      have hsame := hwire.output_unique (hbefore _ _ hcoin) hout
      exact hscript coin hcoin (by rw [hsame, hdrain])

/-! ## The invariant -/

variable (tree) in
/-- The chain is of the tree and clean, and every coin and undo record is an output of the tree. -/
structure SoundState (state : ChainState) : Prop where
  held : tree.Holds (blocksOf state)
  clean : CleanChain tree (blocksOf state)
  undo : ∀ entry ∈ state.activeChain, EveryBlockUndo (OutputOf tree) entry.block entry.blockUndo
  coins : EveryCoin (OutputOf tree) state.coins

variable (tree) in
structure FreezeInvariant (node : FreezeNode) : Prop where
  state : SoundState tree node.state
  disk : SoundState tree node.disk
  taint : SoundTaint tree node.taintSet
  undo : ∀ entry ∈ node.accepted, EveryBlockUndo (OutputOf tree) entry.block entry.blockUndo
  clean : ∀ entry ∈ node.accepted, CleanChain tree (tree.branch entry.block.hash)

theorem soundState_genesis : SoundState tree ChainState.genesis where
  held := tree.branch_genesis
  clean := by
    intro block parents hsuffix
    cases suffix_nil.mp hsuffix
  undo := by
    intro entry hentry
    cases hentry
  coins := EveryCoin.none

theorem freezeInvariant_start : FreezeInvariant tree start where
  state := soundState_genesis
  disk := soundState_genesis
  taint := soundTaint_empty
  undo := by
    intro entry hentry
    cases hentry
  clean := by
    intro entry hentry
    cases hentry

theorem SoundState.disconnectTip {state next : ChainState} {acceptUnclean : Bool}
    (hsound : SoundState tree state)
    (hdisconnect : Escrow.disconnectTip state acceptUnclean = some next) :
    SoundState tree next := by
  obtain ⟨tip, rest, loop, hchain, hloop, rfl⟩ := disconnectTip_eq_some hdisconnect
  obtain ⟨hheld, hclean, hundo, hcoins⟩ := hsound
  rw [blocksOf, hchain, map_cons] at hheld hclean
  rw [hchain, forall_mem_cons] at hundo
  exact ⟨hheld.tail, hclean.suffix (suffix_cons _ _), hundo.2,
    hcoins.disconnectBlock hundo.1 hloop⟩

variable {params : Params} {decodeDestination : String → Option Script} {node : FreezeNode}

theorem FreezeInvariant.withTaint (hnode : FreezeInvariant tree node) (hset : SoundTaint tree set) :
    FreezeInvariant tree { node with taintSet := set } :=
  ⟨hnode.state, hnode.disk, hset, hnode.undo, hnode.clean⟩

theorem FreezeInvariant.published (params : Params) (decodeDestination : String → Option Script)
    (hnode : FreezeInvariant tree node) (block : CBlock) (checks : OtherChecks)
    (pGovMan : Option GovernanceStore) (readable : CBlock → Bool) :
    SoundTaint tree (publishedSet freeze params decodeDestination node block checks pGovMan
      (freeze.ensureTaintSetComputed readable (blocksOf node.state) node.taintSet)) := by
  unfold publishedSet
  split
  next hreached => exact hnode.taint.getD hreached.1.1 hnode.state.held readable
  next => exact hnode.taint

theorem FreezeInvariant.connectFrozen (hwire : WireTree tree) (hnode : FreezeInvariant tree node)
    {hash : Uint256} (hbranch : tree.branch hash = block :: blocksOf node.state)
    (checks : OtherChecks) (pGovMan : Option GovernanceStore) (readable : CBlock → Bool) :
    FreezeInvariant tree
      (connectFrozen freeze params decodeDestination node block checks pGovMan readable) := by
  have hheld : tree.Holds (block :: blocksOf node.state) := holds_of_branch hbranch
  have hhash : block.hash = hash := (tree.branch_cons hash block _ hbranch).1
  have htaint := hnode.published params decodeDestination block checks pGovMan readable
  unfold Freeze.connectFrozen
  dsimp only
  cases hconnect : connectBlock params decodeDestination (withFreeze freeze
      (freeze.ensureTaintSetComputed readable (blocksOf node.state) node.taintSet) checks)
      node.state.nextHeight pGovMan block node.state.coins node.state.evodb with
  | error reason => exact hnode.withTaint htaint
  | ok result =>
    obtain ⟨loop, blockUndo⟩ := result
    have hheight : node.state.nextHeight = (blocksOf node.state).length + 1 := by
      rw [ChainState.nextHeight, blocksOf, length_map]
    have houts : ∀ tx ∈ block.vtx, EveryOutput (OutputOf tree) tx := by
      intro tx htx
      exact everyOutput_of_mentions (mentions_tip hheld tx htx)
    have hclean : freeze.Active ((blocksOf node.state).length + 1) →
        CleanBlock tree block (blocksOf node.state) := by
      intro hactive
      rw [← hheight] at hactive
      refine cleanBlock_of_connectBlock hwire hheld hnode.state.coins ?_ hactive hconnect
      intro set hset
      exact (hnode.taint.ensure hactive.1 hnode.state.held hset).2
    have hchain : CleanChain tree (block :: blocksOf node.state) :=
      cleanChain_cons hnode.state.clean hclean
    obtain ⟨hcoins, hundo, -⟩ := hnode.state.coins.connectBlock houts hconnect
    refine ⟨⟨hheld, hchain, ?_, hcoins⟩, hnode.disk, htaint, ?_, ?_⟩
    · exact forall_mem_cons.mpr ⟨hundo, hnode.state.undo⟩
    · exact forall_mem_cons.mpr ⟨hundo, hnode.undo⟩
    · refine forall_mem_cons.mpr ⟨?_, hnode.clean⟩
      rw [hhash, hbranch]
      exact hchain

theorem FreezeInvariant.rollforward (hnode : FreezeInvariant tree node) {entry : ChainEntry}
    {coins : CCoinsView} (hentry : entry ∈ node.accepted)
    (hbranch : tree.branch entry.block.hash = entry.block :: blocksOf node.state)
    (hroll : rollforwardBlock node.state.nextHeight node.state.coins entry.block.vtx =
      some coins) :
    FreezeInvariant tree
      { node with state := ⟨entry :: node.state.activeChain, coins, node.state.evodb⟩ } := by
  have hheld : tree.Holds (entry.block :: blocksOf node.state) := holds_of_branch hbranch
  have houts : ∀ tx ∈ entry.block.vtx, EveryOutput (OutputOf tree) tx := by
    intro tx htx
    exact everyOutput_of_mentions (mentions_tip hheld tx htx)
  have hclean := hnode.clean entry hentry
  rw [hbranch] at hclean
  refine ⟨⟨hheld, hclean, ?_, hnode.state.coins.rollforwardBlock houts hroll⟩, hnode.disk,
    hnode.taint, hnode.undo, hnode.clean⟩
  exact forall_mem_cons.mpr ⟨hnode.undo entry hentry, hnode.state.undo⟩

theorem FreezeInvariant.restart (hnode : FreezeInvariant tree node) (written : COutPoint → Bool) :
    FreezeInvariant tree (freezeStep freeze params decodeDestination tree node
      (.restart written)) := by
  refine ⟨⟨hnode.disk.held, hnode.disk.clean, hnode.disk.undo, ?_⟩, hnode.disk, soundTaint_empty,
    hnode.undo, hnode.clean⟩
  intro outpoint coin hcoin
  dsimp only [freezeStep] at hcoin
  split at hcoin
  · exact hnode.state.coins outpoint coin hcoin
  · exact hnode.disk.coins outpoint coin hcoin

theorem FreezeInvariant.freezeStep (hwire : WireTree tree) (hnode : FreezeInvariant tree node)
    (step : FreezeStep) :
    FreezeInvariant tree (freezeStep freeze params decodeDestination tree node step) := by
  cases step with
  | connect hash checks pGovMan readable =>
    unfold Freeze.freezeStep
    dsimp only
    cases hbranch : tree.branch hash with
    | nil => exact hnode
    | cons block rest =>
      dsimp only
      split
      next hparent =>
          rw [hparent] at hbranch
          exact hnode.connectFrozen hwire hbranch checks pGovMan readable
      next => exact hnode
  | disconnect acceptUnclean =>
    cases hdisconnect : disconnectTip node.state acceptUnclean with
    | none =>
      dsimp only [Freeze.freezeStep]
      rw [hdisconnect]
      exact hnode
    | some next =>
      dsimp only [Freeze.freezeStep]
      rw [hdisconnect]
      exact ⟨hnode.state.disconnectTip hdisconnect, hnode.disk, hnode.taint, hnode.undo,
        hnode.clean⟩
  | rollforward position =>
    unfold Freeze.freezeStep
    dsimp only
    cases hentry : node.accepted[position]? with
    | none => exact hnode
    | some entry =>
      dsimp only
      split
      next hbranch =>
          cases hroll : rollforwardBlock node.state.nextHeight node.state.coins
              entry.block.vtx with
          | none => exact hnode
          | some coins => exact hnode.rollforward (mem_of_getElem? hentry) hbranch hroll
      next => exact hnode
  | test block checks pGovMan readable =>
    exact hnode.withTaint (hnode.published params decodeDestination block checks pGovMan readable)
  | flush => exact ⟨hnode.state, hnode.state, hnode.taint, hnode.undo, hnode.clean⟩
  | restart written => exact hnode.restart written

/-! ## The freeze over whole runs -/

variable (tree) in
/-- No accepted block at an active height spends what is frozen, and `ConnectBlock` consults the set
that a fresh walk computes. -/
structure FrozenSince (node : FreezeNode) : Prop where
  /-- What descends from the theft and is spent all the same has its only roots at or above the
  activation height. -/
  accepted : ∀ entry ∈ node.accepted, ∀ parents,
    tree.branch entry.block.hash = entry.block :: parents → freeze.Active (parents.length + 1) →
    ∀ tx ∈ entry.block.vtx, ∀ txin ∈ tx.vin,
      txin.prevout ∉ walk freeze.seed (freeze.window parents) ∧
      ¬ PaysDrain tree txin.prevout ∧
      (txin.prevout ∈ walk freeze.seed (freeze.fromRoot parents) →
        txin.prevout ∈ walk freeze.seed (freeze.afterWindow parents))
  consulted : freeze.Active node.state.nextHeight → ∀ readable ensured,
    freeze.ensureTaintSetComputed readable (blocksOf node.state) node.taintSet = some ensured →
    ∀ outpoint, ensured.contains outpoint = true ↔
      outpoint ∈ walk freeze.seed (freeze.window (blocksOf node.state))
  available : freeze.Active node.state.nextHeight → ∀ readable : CBlock → Bool,
    (∀ block ∈ freeze.window (blocksOf node.state), readable block = true) →
    (freeze.ensureTaintSetComputed readable (blocksOf node.state) node.taintSet).isSome = true
  /-- Mempool and templates know nothing, or the set of a chain on which it was computed. -/
  read : (node.taintSet.computed = false ∧ freeze.ReadsAs node.taintSet ∅) ∨
    ∃ chain, tree.Holds chain ∧ freeze.Anchored node.taintSet chain ∧
      freeze.ReadsAs node.taintSet (walk freeze.seed (freeze.window chain))
  /-- They read the set of the active chain when that has the anchor of the set. -/
  current : freeze.Active node.state.nextHeight → node.taintSet.computed = true →
    freeze.Anchored node.taintSet (blocksOf node.state) →
    freeze.ReadsAs node.taintSet (walk freeze.seed (freeze.window (blocksOf node.state)))

theorem contains_of_tainted {closure : Finset COutPoint} (hcomputed : set.computed = true)
    (htainted : set.tainted = closure) (outpoint : COutPoint) :
    set.contains outpoint = true ↔ outpoint ∈ closure := by
  rw [TaintSet.contains, hcomputed, htainted, Bool.true_and, decide_eq_true_eq]

theorem isSome_ensureTaintSetComputed (hactive : freeze.Active (chain.length + 1))
    (hreadable : ∀ block ∈ freeze.window chain, readable block = true) :
    (freeze.ensureTaintSetComputed readable chain set).isSome = true := by
  have hlt : freeze.nFreezeActivationHeight.toNat - 1 < (freeze.byHeight chain).length := by
    have hheight := hactive.2
    rw [length_byHeight]
    omega
  unfold ensureTaintSetComputed
  rw [getElem?_eq_getElem hlt]
  dsimp only
  split
  · rfl
  · rw [if_pos (all_eq_true.mpr hreadable)]
    rfl

theorem FreezeInvariant.frozenSince (hnode : FreezeInvariant tree node) :
    FrozenSince tree node where
  accepted := by
    intro entry hentry parents hbranch hactive tx htx txin htxin
    have hchain := hnode.clean entry hentry
    rw [hbranch] at hchain
    have hparents := hchain.suffix (suffix_cons entry.block parents)
    obtain ⟨hwindow, hdrain⟩ :=
      hchain entry.block parents suffix_rfl hactive tx htx txin htxin
    refine ⟨hwindow, hdrain, ?_⟩
    intro htainted
    exact ((hparents.tainted_iff hactive.1).mp htainted).resolve_left hwindow
  consulted := by
    intro hactive readable ensured hensure outpoint
    obtain ⟨-, hcomputed, htainted⟩ := hnode.taint.ensure hactive.1 hnode.state.held hensure
    exact contains_of_tainted hcomputed htainted outpoint
  available := by
    intro hactive readable hreadable
    refine isSome_ensureTaintSetComputed ?_ hreadable
    rwa [ChainState.nextHeight, ← length_map ChainEntry.block] at hactive
  read := by
    cases hcomputed : node.taintSet.computed with
    | false =>
      refine Or.inl ⟨rfl, readsAs_of_contains ?_⟩
      intro outpoint
      simp [TaintSet.contains, hcomputed]
    | true =>
      obtain ⟨chain, hheld, hanchored, htainted⟩ := hnode.taint hcomputed
      exact Or.inr ⟨chain, hheld, hanchored,
        readsAs_of_contains (contains_of_tainted hcomputed htainted)⟩
  current := by
    intro hactive hcomputed hanchored
    exact readsAs_of_contains (contains_of_tainted hcomputed
      (hnode.taint.tainted_eq hcomputed hactive.1 hnode.state.held hanchored))

end Tree

/-- Through all reorganisations, flushes and restarts, no block accepted from the activation
height on spends an outpoint of the taint set of its chain or an output that pays the drain
script, and `ConnectBlock` consults the set that a fresh walk of its chain computes.  Mempool and
templates read what it left: nothing, or the set of the chain on which it was last computed. -/
theorem taint_stays_frozen (freeze : FreezeParams) (tree : BlockTree freeze.genesis.hash)
    (hwire : WireTree tree) (params : Params) (decodeDestination : String → Option Script)
    (steps : List FreezeStep) :
    Always (freezeStep freeze params decodeDestination tree) (FrozenSince tree) start
      steps := by
  have hinvariant : Always (freezeStep freeze params decodeDestination tree)
      (FreezeInvariant tree) start steps :=
    always_of_preserved (fun _ step hnode => hnode.freezeStep hwire step) freezeInvariant_start steps
  intro visited hvisited
  exact (hinvariant visited hvisited).frozenSince

namespace Sample

open Escrow.Sample (coinbase passing payeeScript decodeDestination)

def fund : CTransaction :=
  { hash := 11, nVersion := 3, nType := .sapling, vin := [], vout := [⟨10 * coinValue, payeeScript⟩]
    saplingPayload := some { valueBalance := 10 * coinValue } }

def donation : CTransaction :=
  { hash := 12, nVersion := 2, nType := .normal, vin := [⟨⟨11, 0⟩⟩]
    vout := [⟨coinValue, FreezeSeed.incident.seedScript⟩, ⟨9 * coinValue, payeeScript⟩] }

def change : CTransaction :=
  { hash := 13, nVersion := 2, nType := .normal, vin := [⟨⟨12, 1⟩⟩]
    vout := [⟨9 * coinValue, payeeScript⟩] }

def payment : CTransaction :=
  { hash := 14, nVersion := 2, nType := .normal, vin := [⟨⟨11, 0⟩⟩]
    vout := [⟨10 * coinValue, payeeScript⟩] }

variable (hash : Uint256)

def block (txs : List CTransaction) : CBlock := ⟨hash, coinbase (100 + hash) :: txs⟩

def genesis : CBlock := block 50 []

def branches : List (List CBlock) :=
  [[block 1 [fund]], [block 2 [donation], block 1 [fund]],
    [block 3 [change], block 2 [donation], block 1 [fund]],
    [block 4 [], block 1 [fund]], [block 5 [payment], block 4 [], block 1 [fund]]]

def tree : BlockTree 50 where
  branch := find 50 branches
  branch_genesis := by decide
  branch_cons := by
    have hclosed : ∀ chain ∈ branches,
        find 50 branches (tipHash 50 chain.tail) = chain.tail := by decide
    intro hash block rest hbranch
    exact find_cons hclosed hbranch

def regtest : FreezeParams where
  nFreezeActivationHeight := 1
  nFreezeRootHeight := 1
  genesis := genesis

def later : FreezeParams := { regtest with nFreezeActivationHeight := 3 }

theorem wireTree (freeze : FreezeParams) (hgenesis : freeze.genesis = genesis) :
    @WireTree freeze (hgenesis ▸ tree) := by
  obtain ⟨activation, root, seed, found⟩ := freeze
  obtain rfl : found = genesis := hgenesis
  have hlisted : ∀ tx, @Mentions ⟨activation, root, seed, genesis⟩ tree tx →
      tx ∈ genesis.vtx ++ branches.flatten.flatMap CBlock.vtx := by
    rintro tx (hgenesisTx | ⟨hash, found, hfound, htx⟩)
    · exact mem_append_left _ hgenesisTx
    · rcases find_eq_nil_or_mem 50 branches hash with hnil | hmem
      · change found ∈ find 50 branches hash at hfound
        rw [hnil] at hfound
        cases hfound
      · refine mem_append_right _ (mem_flatMap.mpr ⟨found, ?_, htx⟩)
        exact mem_flatten.mpr ⟨_, hmem, hfound⟩
  refine ⟨?_, ?_⟩
  · intro tx other htx hother
    have hall : ∀ tx ∈ genesis.vtx ++ branches.flatten.flatMap CBlock.vtx,
        ∀ other ∈ genesis.vtx ++ branches.flatten.flatMap CBlock.vtx,
        tx.hash = other.hash → tx = other := by decide
    exact hall tx (hlisted tx htx) other (hlisted other hother)
  · intro tx htx
    have hall : ∀ tx ∈ genesis.vtx ++ branches.flatten.flatMap CBlock.vtx,
        tx.vout.length ≤ COutPoint.nullIndex := by decide
    exact hall tx (hlisted tx htx)

def connect : FreezeStep := .connect hash passing none (fun _ => true)

/-- The spend of the change is refused, then another branch is taken and the node restarted. -/
def reorganisation : List FreezeStep :=
  [connect 1, connect 2, connect 3, .flush, .restart (fun _ => false), .disconnect false,
    connect 4, connect 5]

/-- The next height after the given steps, whether the change is in the set of the active chain, and
whether templates leave out its spend. -/
def templateReads (steps : List FreezeStep) : Int × Bool × Bool :=
  let node := run (freezeStep later {} decodeDestination tree) start
    ([connect 1, connect 2, connect 3] ++ steps)
  (node.state.nextHeight,
    decide (⟨12, 1⟩ ∈ walk later.seed (later.window (blocksOf node.state))),
    later.excludedFromTemplate node.taintSet node.state.nextHeight change)

end Sample

open Sample

open Escrow.Sample (decodeDestination) in
theorem taint_stays_frozen_reorganisation :
    @WireTree later tree ∧
      Always (freezeStep later {} decodeDestination tree)
        (@FrozenSince later tree) start reorganisation ∧
      (run (freezeStep later {} decodeDestination tree) start
        reorganisation).accepted.map (fun entry => entry.block.hash) = [5, 4, 2, 1] := by
  have hwire := wireTree later rfl
  exact ⟨hwire, taint_stays_frozen later tree hwire {} decodeDestination
    reorganisation, by decide +kernel⟩

open Escrow.Sample (decodeDestination) in
/-- Above the activation height a transaction pays the drain script and returns its change; the
change descends from it, and the node accepts the block that spends it.  After a restart templates
do not leave out a spend of the set, and after a reorganisation below the activation height they
leave out one that is not of the set. -/
theorem change_of_donation_spent :
    regtest.Active 3 ∧ ⟨12, 1⟩ ∈ walk regtest.seed
        (regtest.fromRoot [block 2 [donation], block 1 [fund]]) ∧
      (⟨⟨12, 1⟩⟩ : CTxIn) ∈ change.vin ∧
      (run (freezeStep regtest {} decodeDestination tree) start
        [connect 1, connect 2, connect 3]).accepted.map
          (fun entry => entry.block) =
        [block 3 [change], block 2 [donation],
          block 1 [fund]] ∧
      templateReads [.flush, .restart (fun _ => false)] = (3, true, false) ∧
      templateReads [.disconnect false, connect 4] = (3, false, true) := by
  refine ⟨by decide, by decide +kernel, by decide, by decide +kernel, by decide +kernel,
    by decide +kernel⟩

end Kerrigan.Freeze
