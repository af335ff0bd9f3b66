import Kerrigan.Mempool.Accept
import Kerrigan.Sapling.ChainState

/-!
# The memory pool along the active chain

Blocks are connected and disconnected under the pool: `ConnectTip`, `DisconnectTip`,
`ActivateBestChainStep` and `MaybeUpdateMempoolForReorg`, with the shielded store as the only part
of the chain state.  A block that `ProcessSpecialTxsInBlock` refuses after the store has prepared
its batch leaves the batch behind; the next block takes it away, unless it is below the activation
height: then the batch is committed with it.
-/

namespace Kerrigan.Mempool

open Primitives Sapling Lib CTxMemPool

structure MempoolNode extends ShieldedChain where
  pool : CTxMemPool := {}

open MempoolNode

def MempoolNode.initial : MempoolNode := { ShieldedChain.initial with }

/-! ## Transactions of disconnected blocks -/

def addTransaction (queuedTx : List CTransaction) (tx : CTransaction) : List CTransaction :=
  if queuedTx.any (fun queued => queued.hash == tx.hash) then queuedTx else queuedTx ++ [tx]

def removeQueued (queuedTx vtx : List CTransaction) : List CTransaction :=
  queuedTx.filter (fun queued => queued.hash ∉ vtx.map CTransaction.hash)

/-- The node while blocks are disconnected and connected. -/
structure ReorgState where
  node : MempoolNode
  queuedTx : List CTransaction := []

/-- What the rules other than the shielded ones say of a block. -/
inductive BlockVerdict where
  | refusedBefore
  | refusedSpecial
  /-- Refused later: `ConnectBlock` discards the batch. -/
  | refusedAfter
  | accepted
  deriving DecidableEq

structure ConnectAttempt where
  block : CBlock
  verdict : BlockVerdict := .accepted
  proTx : ProTxConflicts := {}
  expired : List Uint256 := []

structure ReorgChecks where
  accept : CTransaction → AcceptChecks := fun _ => {}
  descendantsToRemove : List Uint256 := []
  finalAndMature : CTransaction → Bool := fun _ => true
  evicted : List Uint256 := []

variable {Frontier : Type} (params : SaplingParams) (frontiers : FrontierFunctions Frontier)
  (genesis : Uint256) (verifySaplingProofs : ProofVerdict)

def disconnectTip (state : ReorgState) (dropped : Nat) : Option ReorgState :=
  match state.node.chain with
  | [] => none
  | tip :: rest =>
      match disconnectBlock params state.node.sapling tip (rest.length + 1)
        (tipHash genesis rest) with
      | none => none
      | some sapling =>
          let queuedTx := tip.vtx.reverse.foldl addTransaction state.queuedTx
          some
            { node :=
                { chain := rest
                  sapling := sapling
                  pool := (queuedTx.take dropped).foldl removeRecursive
                    state.node.pool }
              queuedTx := queuedTx.drop dropped }

/-- Disconnect as many blocks; a failure ends the loop. -/
def disconnectTips : ReorgState → List Nat → Bool × ReorgState
  | state, [] => (true, state)
  | state, dropped :: rest =>
      match disconnectTip params genesis state dropped with
      | none => (false, state)
      | some next => disconnectTips next rest

def connectTip (state : ReorgState) (attempt : ConnectAttempt) : Bool × ReorgState :=
  if attempt.verdict = .refusedBefore then (false, state)
  else
    match processSpecialTxsInBlock params frontiers verifySaplingProofs state.node.sapling
      attempt.block (state.node.chain.length + 1) (tipHash genesis state.node.chain) false with
    | (.error _, next) =>
        (false, { state with node := { state.node with sapling := next } })
    | (.ok (), next) =>
        match attempt.verdict with
        | .accepted =>
            (true,
              { node :=
                  { chain := attempt.block :: state.node.chain
                    sapling := next.commitBlock
                    pool := (state.node.pool.removeForBlock attempt.proTx
                      attempt.block.vtx).removeEntries attempt.expired }
                queuedTx := removeQueued state.queuedTx attempt.block.vtx })
        | .refusedAfter =>
            (false,
              { state with node := { state.node with sapling := next.discardPendingBatch } })
        | _ => (false, { state with node := { state.node with sapling := next } })

def connectTips : ReorgState → List ConnectAttempt → ReorgState
  | state, [] => state
  | state, attempt :: rest =>
      match connectTip params frontiers genesis verifySaplingProofs state attempt with
      | (true, next) => connectTips next rest
      | (false, next) => next

variable (node : MempoolNode)

def MempoolNode.nextHeight : Int := node.chain.length + 1

/-- One round of the loop over the queued transactions. -/
def resurrect (sapling : CSaplingState) (nHeight : Int) (fAddToMempool : Bool)
    (reorg : ReorgChecks) (state : CTxMemPool × List Uint256) (tx : CTransaction) :
    CTxMemPool × List Uint256 :=
  if !fAddToMempool || tx.isCoinBase then (state.1.removeRecursive tx, state.2)
  else
    match acceptSingleTransaction params verifySaplingProofs sapling nHeight
      { bypassLimits := true } (reorg.accept tx) state.1 tx with
    | (.error _, left) => (left.removeRecursive tx, state.2)
    | (.ok (), left) =>
        (left, if left.existsTx tx.hash then state.2 ++ [tx.hash] else state.2)

def staleAfterReorg (sapling : CSaplingState) (reorg : ReorgChecks) (tx : CTransaction) : Bool :=
  !reorg.finalAndMature tx || (anchorsUsed tx).any (fun anchor => !sapling.isValidAnchor anchor)

def maybeUpdateMempoolForReorg (reorg : ReorgChecks) (fAddToMempool : Bool) (state : ReorgState) :
    MempoolNode :=
  let resurrected := state.queuedTx.reverse.foldl
    (resurrect params verifySaplingProofs state.node.sapling state.node.nextHeight fAddToMempool
      reorg) (state.node.pool, [])
  let updated := resurrected.1.updateTransactionsFromBlock resurrected.2 reorg.descendantsToRemove
  { state.node with
    pool := (updated.removeForReorg (staleAfterReorg state.node.sapling reorg)).limitMempoolSize
      reorg.evicted }

def activateBestChainStep (disconnects : List Nat) (attempts : List ConnectAttempt)
    (reorg : ReorgChecks) : MempoolNode :=
  match disconnectTips params genesis { node := node } disconnects with
  | (false, state) => maybeUpdateMempoolForReorg params verifySaplingProofs reorg false state
  | (true, state) =>
      let connected := connectTips params frontiers genesis verifySaplingProofs state attempts
      if disconnects.isEmpty then connected.node
      else maybeUpdateMempoolForReorg params verifySaplingProofs reorg true connected

def invalidateTip (dropped : Nat) (fAddToMempool : Bool) (reorg : ReorgChecks) : MempoolNode :=
  match disconnectTip params genesis { node := node } dropped with
  | none => maybeUpdateMempoolForReorg params verifySaplingProofs reorg false { node := node }
  | some state => maybeUpdateMempoolForReorg params verifySaplingProofs reorg fAddToMempool state

inductive MempoolStep
  | accept (bypassLimits testAccept : Bool) (checks : AcceptChecks) (tx : CTransaction)
  | package (testAccept : Bool) (checks : PackageChecks) (txns : List CTransaction)
  | activate (disconnects : List Nat) (attempts : List ConnectAttempt) (reorg : ReorgChecks)
  | invalidate (dropped : Nat) (fAddToMempool : Bool) (reorg : ReorgChecks)
  | evict (hashes : List Uint256)

def mempoolStep : MempoolStep → MempoolNode
  | .accept bypassLimits testAccept checks tx =>
      { node with
        pool := (acceptSingleTransaction params verifySaplingProofs node.sapling node.nextHeight
          { bypassLimits := bypassLimits, testAccept := testAccept } checks node.pool tx).2 }
  | .package testAccept checks txns =>
      { node with
        pool := (processNewPackage params verifySaplingProofs node.sapling node.nextHeight
          testAccept checks node.pool txns).2 }
  | .activate disconnects attempts reorg =>
      activateBestChainStep params frontiers genesis verifySaplingProofs node disconnects attempts
        reorg
  | .invalidate dropped fAddToMempool reorg =>
      invalidateTip params genesis verifySaplingProofs node dropped fAddToMempool reorg
  | .evict hashes => { node with pool := node.pool.limitMempoolSize hashes }

/-- No batch of a refused block is pending when a block below the activation height is
connected. -/
def NoStaleBatch : MempoolStep → Prop
  | .activate disconnects attempts _ => attempts ≠ [] →
      node.sapling.pendingBatch = none ∨
        params.IsSaplingActive (node.chain.length - disconnects.length + 1)
  | _ => True

/-- The shielded part of the pool: no nullifier is revealed by two transactions, the indexes are
exact, no nullifier is spent on the chain, and every anchor is a root of the chain. -/
structure ShieldedConsistent (node : MempoolNode) : Prop where
  distinct : ∀ (first second : Uint256) (firstTx secondTx : CTransaction) (nf : Uint256),
    node.pool.get first = some firstTx → nf ∈ nullifiersRevealed firstTx →
    node.pool.get second = some secondTx → nf ∈ nullifiersRevealed secondTx → first = second
  txids : ∀ nf hash : Uint256, node.pool.saplingNullifierTxids[nf]? = some hash ↔
    ∃ tx, node.pool.get hash = some tx ∧ nf ∈ nullifiersRevealed tx
  nullifiers : ∀ nf : Uint256, nf ∈ node.pool.saplingNullifiers ↔
    ∃ hash tx, node.pool.get hash = some tx ∧ nf ∈ nullifiersRevealed tx
  unspent : ∀ hash tx, node.pool.get hash = some tx →
    ∀ nf ∈ nullifiersRevealed tx, nf ∉ revealedOn node.chain
  anchors : ∀ hash tx, node.pool.get hash = some tx → ∀ anchor ∈ anchorsUsed tx,
    ∃ nHeight frontier, FrontierAt params frontiers node.chain nHeight frontier ∧
      anchor = frontiers.root frontier

/-! ## The store with a pending batch -/

section Store

variable {params frontiers verifySaplingProofs} {chain : List CBlock} {block : CBlock}
  {state next : CSaplingState} {pprev : Uint256}

theorem dataOf_connected (hdata : DataOf params frontiers chain state.discardPendingBatch)
    (hclean : state.pendingBatch = none ∨ params.IsSaplingActive (chain.length + 1))
    (hprocess : processSpecialTxsInBlock params frontiers verifySaplingProofs state block
      (chain.length + 1) pprev false = (.ok (), next)) :
    DataOf params frontiers (block :: chain) next.commitBlock := by
  by_cases hpending : state.pendingBatch = none
  · have hstate : DataOf params frontiers chain state := hdata.of_discard rfl hpending
    exact hstate.connected hprocess
  · have hactive := hclean.resolve_left hpending
    have hlast : state.lastFrontierHeight < chain.length + 1 := by
      have hheight : state.lastFrontierHeight = lastActive params chain := hdata.last
      rw [hheight, lastActive]
      split <;> omega
    refine hdata.connected (processSpecialTxsInBlock_of_discard hactive hlast ?_ hprocess)
    exact Option.isSome_iff_ne_none.mpr hpending

theorem dataOf_disconnected
    (hdata : DataOf params frontiers (block :: chain) state.discardPendingBatch)
    (hundo : disconnectBlock params state block (chain.length + 1) pprev = some next) :
    DataOf params frontiers chain next.discardPendingBatch ∧
      next.pendingBatch = state.pendingBatch := by
  obtain ⟨hdiscard, hpending⟩ := disconnectBlock_discard hundo
  exact ⟨hdata.disconnected hdiscard, hpending⟩

end Store

/-! ## The invariant -/

def Anchored (node : MempoolNode) : Prop :=
  ∀ hash tx, node.pool.get hash = some tx → ∀ anchor ∈ anchorsUsed tx,
    ∃ nHeight frontier, FrontierAt params frontiers node.chain nHeight frontier ∧
      anchor = frontiers.root frontier

/-- What holds between the blocks of a reorganisation too: the store is that of the chain beside a
pending batch, the indexes are exact, and no nullifier of the pool is spent. -/
structure Tracks (node : MempoolNode) : Prop where
  data : DataOf params frontiers node.chain node.sapling.discardPendingBatch
  indexed : node.pool.Indexed
  unspent : ∀ hash tx, node.pool.get hash = some tx →
    ∀ nf ∈ nullifiersRevealed tx, nf ∉ revealedOn node.chain

variable {params frontiers genesis verifySaplingProofs} {node : MempoolNode} {pool : CTxMemPool}

theorem tracks_initial : Tracks params frontiers initial := by
  refine ⟨dataOf_initial, indexed_empty, ?_⟩
  intro hash tx hfound
  simp [MempoolNode.initial, CTxMemPool.get] at hfound

theorem anchored_initial : Anchored params frontiers initial := by
  intro hash tx hfound
  simp [MempoolNode.initial, CTxMemPool.get] at hfound

section

variable (htracks : Tracks params frontiers node)

include htracks

theorem Tracks.shieldedConsistent
    (hanchored : Anchored params frontiers node) : ShieldedConsistent params frontiers node := by
  refine ⟨?_, htracks.indexed.owners, ?_, htracks.unspent, hanchored⟩
  · intro first second firstTx secondTx nf hfirst hnf hsecond hshared
    exact htracks.indexed.owners.unique hfirst hnf hsecond hshared
  · intro nf
    rw [htracks.indexed.nullifiers, Option.isSome_iff_exists]
    exact exists_congr (fun hash => htracks.indexed.owners nf hash)

theorem Tracks.unspent_of_acceptable {tx : CTransaction} (htx : Acceptable node.sapling tx) :
    ∀ nf ∈ nullifiersRevealed tx, nf ∉ revealedOn node.chain := by
  intro nf hnf hspent
  obtain ⟨nHeight, hrevealed⟩ := mem_revealedOn_iff.mp hspent
  have hstored : node.sapling.db.nullifiers[nf]? = some nHeight :=
    (htracks.data.nullifiers nf nHeight).mpr hrevealed
  have hunspent := htx.unspent nf hnf
  unfold CSaplingState.hasNullifier at hunspent
  rw [Std.ExtTreeMap.contains_eq_isSome_getElem?, hstored] at hunspent
  cases hunspent

theorem Tracks.isValidAnchor_iff {anchor : Uint256} :
    node.sapling.isValidAnchor anchor = true ↔
      ∃ nHeight frontier, FrontierAt params frontiers node.chain nHeight frontier ∧
        anchor = frontiers.root frontier :=
  htracks.data.reflectsData.anchors anchor

theorem Tracks.admits (hadmits : Admits node.sapling node.pool pool) :
    Tracks params frontiers { node with pool := pool } := by
  refine ⟨htracks.data, hadmits.indexed htracks.indexed, ?_⟩
  intro hash tx hfound
  rcases hadmits.get hash tx hfound with hbefore | hnew
  · exact htracks.unspent hash tx hbefore
  · exact htracks.unspent_of_acceptable hnew

end

theorem Anchored.admits (hanchored : Anchored params frontiers node)
    (htracks : Tracks params frontiers node) (hadmits : Admits node.sapling node.pool pool) :
    Anchored params frontiers { node with pool := pool } := by
  intro hash tx hfound anchor hanchor
  rcases hadmits.get hash tx hfound with hbefore | hnew
  · exact hanchored hash tx hbefore anchor hanchor
  · exact htracks.isValidAnchor_iff.mp (hnew.anchors anchor hanchor)

variable {sapling : CSaplingState}

theorem Tracks.of_discard (htracks : Tracks params frontiers node)
    (hsame : sapling.discardPendingBatch = node.sapling.discardPendingBatch) :
    Tracks params frontiers { node with sapling := sapling } := by
  refine ⟨?_, htracks.indexed, htracks.unspent⟩
  show DataOf params frontiers node.chain sapling.discardPendingBatch
  rw [hsame]
  exact htracks.data

/-! ## Blocks -/

variable {state next : ReorgState}

theorem tracks_disconnectTip {dropped : Nat} (htracks : Tracks params frontiers state.node)
    (hnext : disconnectTip params genesis state dropped = some next) :
    Tracks params frontiers next.node ∧
      next.node.sapling.pendingBatch = state.node.sapling.pendingBatch ∧
      state.node.chain.length = next.node.chain.length + 1 := by
  unfold disconnectTip at hnext
  cases hchain : state.node.chain with
  | nil =>
    rw [hchain] at hnext
    cases hnext
  | cons tip rest =>
    rw [hchain] at hnext
    have hdata := htracks.data
    rw [hchain] at hdata
    simp only at hnext
    split at hnext
    · cases hnext
    · rename_i sapling hundo
      obtain rfl := Option.some.inj hnext
      obtain ⟨hbelow, hpending⟩ := dataOf_disconnected hdata hundo
      have hshrinks := shrinks_foldl shrinks_removeRecursive
        ((tip.vtx.reverse.foldl addTransaction state.queuedTx).take dropped) state.node.pool
      refine ⟨⟨hbelow, hshrinks.indexed htracks.indexed, ?_⟩, hpending, rfl⟩
      intro hash tx hfound nf hnf hspent
      refine htracks.unspent hash tx (hshrinks.get hash tx hfound) nf hnf ?_
      rw [hchain, revealedOn_cons]
      exact List.mem_append.mpr (Or.inr hspent)

theorem tracks_disconnectTips {disconnects : List Nat}
    (htracks : Tracks params frontiers state.node) :
    let result := disconnectTips params genesis state disconnects
    Tracks params frontiers result.2.node ∧
      (result.1 = true →
        result.2.node.sapling.pendingBatch = state.node.sapling.pendingBatch ∧
          state.node.chain.length = result.2.node.chain.length + disconnects.length) := by
  dsimp only
  induction disconnects generalizing state with
  | nil => exact ⟨htracks, fun _ => ⟨rfl, rfl⟩⟩
  | cons dropped rest ih =>
    unfold disconnectTips
    cases hnext : disconnectTip params genesis state dropped with
    | none => exact ⟨htracks, fun hfalse => by cases hfalse⟩
    | some next =>
      obtain ⟨hstep, hpending, hlength⟩ := tracks_disconnectTip htracks hnext
      obtain ⟨hrest, hall⟩ := ih hstep
      refine ⟨hrest, ?_⟩
      intro htrue
      obtain ⟨hrestPending, hrestLength⟩ := hall htrue
      refine ⟨hrestPending.trans hpending, ?_⟩
      rw [hlength, hrestLength, List.length_cons, Nat.add_assoc]

variable {nHeight : Int}

theorem FrontierAt.cons {chain : List CBlock} {frontier : Frontier}
    (hfrontier : FrontierAt params frontiers chain nHeight frontier) (block : CBlock) :
    FrontierAt params frontiers (block :: chain) nHeight frontier := by
  obtain ⟨first, rest, hsuffix, hrest⟩ := hfrontier
  exact ⟨first, rest, hsuffix.trans (List.suffix_cons block chain), hrest⟩

variable {attempt : ConnectAttempt}

theorem connectTip_refused
    (hnext : connectTip params frontiers genesis verifySaplingProofs state attempt =
      (false, next)) :
    ∃ sapling : CSaplingState,
      sapling.discardPendingBatch = state.node.sapling.discardPendingBatch ∧
        next = { state with node := { state.node with sapling := sapling } } := by
  have hsame : (processSpecialTxsInBlock params frontiers verifySaplingProofs state.node.sapling
      attempt.block (state.node.chain.length + 1) (tipHash genesis state.node.chain)
      false).2.discardPendingBatch = state.node.sapling.discardPendingBatch :=
    processSpecialTxsInBlock_discard verifySaplingProofs state.node.sapling attempt.block _ _ false
  unfold connectTip at hnext
  split at hnext
  · exact ⟨state.node.sapling, rfl, (Prod.mk.inj hnext).2.symm⟩
  · split at hnext
    · rename_i sapling hprocess
      rw [hprocess] at hsame
      exact ⟨sapling, hsame, (Prod.mk.inj hnext).2.symm⟩
    · rename_i sapling hprocess
      rw [hprocess] at hsame
      split at hnext
      · cases hnext
      · exact ⟨sapling.discardPendingBatch, hsame, (Prod.mk.inj hnext).2.symm⟩
      · exact ⟨sapling, hsame, (Prod.mk.inj hnext).2.symm⟩

theorem connectTip_accepted
    (hnext : connectTip params frontiers genesis verifySaplingProofs state attempt =
      (true, next)) :
    ∃ sapling : CSaplingState,
      processSpecialTxsInBlock params frontiers verifySaplingProofs state.node.sapling
          attempt.block (state.node.chain.length + 1) (tipHash genesis state.node.chain) false =
        (.ok (), sapling) ∧
      next.node.chain = attempt.block :: state.node.chain ∧
      next.node.sapling = sapling.commitBlock ∧
      next.node.pool = (state.node.pool.removeForBlock attempt.proTx
        attempt.block.vtx).removeEntries attempt.expired := by
  unfold connectTip at hnext
  split at hnext
  · cases hnext
  · split at hnext
    · cases hnext
    · rename_i sapling hprocess
      split at hnext
      · obtain rfl := (Prod.mk.inj hnext).2
        exact ⟨sapling, hprocess, rfl, rfl, rfl⟩
      · cases hnext
      · cases hnext

theorem Tracks.connect (htracks : Tracks params frontiers state.node)
    (hclean : state.node.sapling.pendingBatch = none ∨
      params.IsSaplingActive (state.node.chain.length + 1))
    (hnext : connectTip params frontiers genesis verifySaplingProofs state attempt =
      (true, next)) :
    Tracks params frontiers next.node ∧ next.node.sapling.pendingBatch = none ∧
      (Anchored params frontiers state.node → Anchored params frontiers next.node) := by
  obtain ⟨sapling, hprocess, hchain, hsapling, hpool⟩ := connectTip_accepted hnext
  have hdata := dataOf_connected htracks.data hclean hprocess
  have hshrinks : state.node.pool.Shrinks next.node.pool := by
    rw [hpool]
    exact (shrinks_removeForBlock attempt.proTx _ _).trans
      (shrinks_removeEntries _ _)
  refine ⟨⟨?_, hshrinks.indexed htracks.indexed, ?_⟩, ?_, ?_⟩
  · rw [hchain, hsapling]
    exact hdata.of_discard rfl rfl
  · intro hash tx hfound nf hnf hspent
    rw [hchain, revealedOn_cons, List.mem_append] at hspent
    rcases hspent with hblock | hbelow
    · obtain ⟨confirmed, hconfirmed, hshared⟩ := mem_revealedBy_iff.mp hblock
      rw [hpool] at hfound
      exact (conceals_removeForBlock htracks.indexed attempt.proTx hconfirmed
        hshared).shrinks (shrinks_removeEntries _ _) hash tx hfound hnf
    · exact htracks.unspent hash tx (hshrinks.get hash tx hfound) nf hnf hbelow
  · rw [hsapling]
    exact hdata.pendingBatch
  · intro hanchored hash tx hfound anchor hanchor
    obtain ⟨nHeight, frontier, hfrontier, hroot⟩ :=
      hanchored hash tx (hshrinks.get hash tx hfound) anchor hanchor
    rw [hchain]
    exact ⟨nHeight, frontier, FrontierAt.cons hfrontier attempt.block, hroot⟩

theorem Tracks.connectTips {attempts : List ConnectAttempt}
    (htracks : Tracks params frontiers state.node)
    (hclean : attempts ≠ [] → state.node.sapling.pendingBatch = none ∨
      params.IsSaplingActive (state.node.chain.length + 1)) :
    Tracks params frontiers
        (connectTips params frontiers genesis verifySaplingProofs state attempts).node ∧
      (Anchored params frontiers state.node → Anchored params frontiers
        (connectTips params frontiers genesis verifySaplingProofs state attempts).node) := by
  induction attempts generalizing state with
  | nil => exact ⟨htracks, id⟩
  | cons attempt rest ih =>
    unfold Mempool.connectTips
    split
    · rename_i next hnext
      obtain ⟨hstep, hpending, hanchored⟩ :=
        htracks.connect (hclean (List.cons_ne_nil attempt rest)) hnext
      obtain ⟨hrest, hkept⟩ := ih hstep (fun _ => Or.inl hpending)
      exact ⟨hrest, fun hbefore => hkept (hanchored hbefore)⟩
    · rename_i next hnext
      obtain ⟨sapling, hsame, rfl⟩ := connectTip_refused hnext
      exact ⟨htracks.of_discard hsame, id⟩

/-! ## The pool after a reorganisation -/

theorem admits_resurrect (fAddToMempool : Bool) (reorg : ReorgChecks)
    (resurrected : CTxMemPool × List Uint256) (tx : CTransaction) :
    Admits sapling resurrected.1 (resurrect params verifySaplingProofs sapling nHeight
      fAddToMempool reorg resurrected tx).1 := by
  have haccept : Admits sapling resurrected.1 (acceptSingleTransaction params verifySaplingProofs
      sapling nHeight { bypassLimits := true } (reorg.accept tx) resurrected.1 tx).2 :=
    admits_acceptSingleTransaction _ (reorg.accept tx) resurrected.1 tx
  unfold resurrect
  split
  · exact (shrinks_removeRecursive resurrected.1 tx).admits
  · split
    · rename_i hrejected
      rw [hrejected] at haccept
      exact haccept.trans (shrinks_removeRecursive _ tx).admits
    · rename_i haccepted
      rw [haccepted] at haccept
      exact haccept

theorem admits_foldl_resurrect (fAddToMempool : Bool) (reorg : ReorgChecks)
    (queuedTx : List CTransaction) (resurrected : CTxMemPool × List Uint256) :
    Admits sapling resurrected.1 (queuedTx.foldl (resurrect params verifySaplingProofs sapling
      nHeight fAddToMempool reorg) resurrected).1 := by
  induction queuedTx generalizing resurrected with
  | nil => exact (Shrinks.refl resurrected.1).admits
  | cons tx rest ih => exact (admits_resurrect fAddToMempool reorg resurrected tx).trans (ih _)

theorem anchors_of_not_stale {reorg : ReorgChecks} {tx : CTransaction}
    (hkept : staleAfterReorg sapling reorg tx = false) :
    ∀ anchor ∈ anchorsUsed tx, sapling.isValidAnchor anchor = true := by
  intro anchor hanchor
  unfold staleAfterReorg at hkept
  rw [Bool.or_eq_false_iff, List.any_eq_false] at hkept
  have hvalid := hkept.2 anchor hanchor
  rwa [Bool.not_eq_true, Bool.not_eq_false'] at hvalid

theorem Tracks.reorg (htracks : Tracks params frontiers state.node) (reorg : ReorgChecks)
    (fAddToMempool : Bool) :
    let next := maybeUpdateMempoolForReorg params verifySaplingProofs reorg fAddToMempool state
    Tracks params frontiers next ∧ Anchored params frontiers next := by
  dsimp only
  have hresurrected : Admits state.node.sapling state.node.pool (state.queuedTx.reverse.foldl
      (resurrect params verifySaplingProofs state.node.sapling state.node.nextHeight fAddToMempool
        reorg) (state.node.pool, [])).1 :=
    admits_foldl_resurrect fAddToMempool reorg state.queuedTx.reverse (state.node.pool, [])
  unfold maybeUpdateMempoolForReorg
  generalize state.queuedTx.reverse.foldl (resurrect params verifySaplingProofs state.node.sapling
    state.node.nextHeight fAddToMempool reorg) (state.node.pool, []) = resurrected at hresurrected
  have hupdated := hresurrected.trans (shrinks_updateTransactionsFromBlock
    resurrected.1 resurrected.2 reorg.descendantsToRemove).admits
  have hlimited := shrinks_removeEntries
    ((resurrected.1.updateTransactionsFromBlock resurrected.2
      reorg.descendantsToRemove).removeForReorg (staleAfterReorg state.node.sapling reorg))
    reorg.evicted
  refine ⟨htracks.admits (hupdated.trans
    ((shrinks_removeStaged _ _).trans hlimited).admits), ?_⟩
  intro hash tx hfound anchor hanchor
  have hkept := not_remove_of_get_removeForReorg (hlimited.get hash tx hfound)
  exact htracks.isValidAnchor_iff.mp (anchors_of_not_stale hkept anchor hanchor)

theorem Tracks.activate (htracks : Tracks params frontiers node)
    (hanchored : Anchored params frontiers node) {disconnects : List Nat}
    {attempts : List ConnectAttempt} {reorg : ReorgChecks}
    (hclean : NoStaleBatch params node (.activate disconnects attempts reorg)) :
    let next := activateBestChainStep params frontiers genesis verifySaplingProofs node disconnects
      attempts reorg
    Tracks params frontiers next ∧ Anchored params frontiers next := by
  dsimp only
  have hdisconnected := @tracks_disconnectTips _ params frontiers genesis { node := node }
    disconnects htracks
  unfold activateBestChainStep
  split
  · rename_i state hfailed
    rw [hfailed] at hdisconnected
    exact hdisconnected.1.reorg reorg false
  · rename_i state hdone
    rw [hdone] at hdisconnected
    obtain ⟨hstate, hrest⟩ := hdisconnected
    obtain ⟨hpending, hlength⟩ := hrest rfl
    have hconnects : attempts ≠ [] → state.node.sapling.pendingBatch = none ∨
        params.IsSaplingActive (state.node.chain.length + 1) := by
      intro hattempts
      have hheight : (node.chain.length : Int) - disconnects.length = state.node.chain.length := by
        have hcount : node.chain.length = state.node.chain.length + disconnects.length := hlength
        omega
      rw [hpending, ← hheight]
      exact hclean hattempts
    obtain ⟨hconnected, hkept⟩ := hstate.connectTips hconnects
    split
    · rename_i hempty
      refine ⟨hconnected, hkept ?_⟩
      have hnil : disconnects = [] := List.isEmpty_iff.mp hempty
      rw [hnil] at hdone
      obtain rfl := (Prod.mk.inj hdone).2
      exact hanchored
    · exact hconnected.reorg reorg true

theorem Tracks.invalidate (htracks : Tracks params frontiers node) (dropped : Nat)
    (fAddToMempool : Bool) (reorg : ReorgChecks) :
    let next := invalidateTip params genesis verifySaplingProofs node dropped fAddToMempool reorg
    Tracks params frontiers next ∧ Anchored params frontiers next := by
  dsimp only
  unfold invalidateTip
  split
  · exact Tracks.reorg htracks reorg false
  · rename_i state hnext
    exact (tracks_disconnectTip htracks hnext).1.reorg reorg fAddToMempool

/-! ## Runs -/

theorem tracks_mempoolStep {step : MempoolStep}
    (hnode : Tracks params frontiers node ∧ Anchored params frontiers node)
    (hclean : NoStaleBatch params node step) :
    Tracks params frontiers (mempoolStep params frontiers genesis verifySaplingProofs node step) ∧
      Anchored params frontiers
        (mempoolStep params frontiers genesis verifySaplingProofs node step) := by
  obtain ⟨htracks, hanchored⟩ := hnode
  cases step with
  | accept bypassLimits testAccept checks tx =>
    have hadmits : Admits node.sapling node.pool (acceptSingleTransaction params
        verifySaplingProofs node.sapling node.nextHeight
        { bypassLimits := bypassLimits, testAccept := testAccept } checks node.pool tx).2 :=
      admits_acceptSingleTransaction _ checks node.pool tx
    exact ⟨htracks.admits hadmits, hanchored.admits htracks hadmits⟩
  | package testAccept checks txns =>
    have hadmits : Admits node.sapling node.pool (processNewPackage params verifySaplingProofs
        node.sapling node.nextHeight testAccept checks node.pool txns).2 :=
      admits_processNewPackage testAccept checks htracks.indexed txns
    exact ⟨htracks.admits hadmits, hanchored.admits htracks hadmits⟩
  | activate disconnects attempts reorg => exact htracks.activate hanchored hclean
  | invalidate dropped fAddToMempool reorg => exact htracks.invalidate dropped fAddToMempool reorg
  | evict hashes =>
    have hadmits : Admits node.sapling node.pool (node.pool.limitMempoolSize hashes) :=
      (shrinks_removeEntries node.pool hashes).admits
    exact ⟨htracks.admits hadmits, hanchored.admits htracks hadmits⟩

/-- Along every run from genesis in which no batch of a refused block is pending when a block below
the activation height is connected, the shielded part of the pool is consistent. -/
theorem mempool_shielded_consistent (params : SaplingParams)
    (frontiers : FrontierFunctions Frontier) (genesis : Uint256)
    (verifySaplingProofs : ProofVerdict) (steps : List MempoolStep)
    (hclean : Guarded (mempoolStep params frontiers genesis verifySaplingProofs)
      (NoStaleBatch params) initial steps) :
    Always (mempoolStep params frontiers genesis verifySaplingProofs)
      (ShieldedConsistent params frontiers) initial steps := by
  have hinvariant : Always (mempoolStep params frontiers genesis verifySaplingProofs)
      (fun node => Tracks params frontiers node ∧ Anchored params frontiers node)
      initial steps :=
    always_of_guarded (fun _ _ => tracks_mempoolStep) ⟨tracks_initial, anchored_initial⟩ hclean
  intro visited hvisited
  obtain ⟨htracks, hanchored⟩ := hinvariant visited hvisited
  exact htracks.shieldedConsistent hanchored

namespace Sample

open Sapling.Sample

def spendTx (hash : Uint256) (prevouts : List COutPoint) (anchor nf : Uint256) : CTransaction :=
  { shieldedTx hash { valueBalance := 1, vSpendDescriptions := [⟨anchor, nf⟩] } with
    vin := prevouts.map CTxIn.mk, vout := [⟨1, []⟩] }

def paysFee : AcceptChecks := { modifiedFees := 15000 }

/-- A parent below the fee of the pool and its child, which alone misses its input. -/
def package : PackageChecks where
  singles := fun tx =>
    { paysFee with
      inputs := some (if tx.vin.isEmpty then ⟨.mempoolPolicy, "min relay fee not met"⟩
        else ⟨.missingInputs, "bad-txns-inputs-missingorspent"⟩) }
  members := fun _ => paysFee

/-- Shield, accept a spend, refuse a double spend, accept a package, confirm a conflict. -/
def confirmSteps : List MempoolStep :=
  [.activate [] [{ block := shield }] {},
    .accept false false paysFee (spendTx 31 [] 2 9),
    .accept false false paysFee (spendTx 32 [] 2 9),
    .package false package [spendTx 41 [] 2 10, spendTx 42 [⟨41, 0⟩] 2 11],
    .activate [] [{ block := ⟨12, [spendTx 33 [] 2 9]⟩ }] {}]

/-- Then a reorganisation takes the note away, and the shielding comes back to the pool. -/
def reorgSteps : List MempoolStep :=
  confirmSteps ++ [.activate [0, 0] [{ block := ⟨13, []⟩ }, { block := ⟨14, []⟩ }] {}]

end Sample

open Sapling.Sample Sample in
theorem mempool_shielded_consistent_reorg :
    (run (mempoolStep regtestParams counting 1 provesAll) initial
        confirmSteps).pool.mapTx.keys = [41, 42] ∧
      (run (mempoolStep regtestParams counting 1 provesAll) initial
        reorgSteps).pool.mapTx.keys = [21] ∧
      Always (mempoolStep regtestParams counting 1 provesAll)
        (ShieldedConsistent regtestParams counting) initial reorgSteps := by
  refine ⟨by decide +kernel, by decide +kernel,
    mempool_shielded_consistent regtestParams counting 1 provesAll reorgSteps ?_⟩
  exact ⟨fun _ => Or.inr (by decide +kernel), trivial, trivial, trivial,
    fun _ => Or.inr (by decide +kernel), fun _ => Or.inr (by decide +kernel), trivial⟩

namespace Sample

open Sapling.Sample

/-- The pool is activated at height 102, when the output of the first block is mature. -/
def lateParams : SaplingParams := { SaplingHeight := 102 }

def belowActivation : List ConnectAttempt :=
  (List.range 101).map (fun height => { block := ⟨1000 + height, []⟩ })

/-- A block at the activation height shields and is refused for its list of masternodes; the tip is
replaced by two other blocks; then the note of the refused block is spent. -/
def staleBatchSteps : List MempoolStep :=
  [.activate [] belowActivation {},
    .activate [] [{ block := shield, verdict := .refusedSpecial }] {},
    .activate [0] [{ block := ⟨2001, []⟩ }, { block := ⟨2002, []⟩ }] {},
    .accept false false paysFee (spendTx 31 [⟨7, 0⟩] 2 9)]

end Sample

open Sapling.Sample Sample in
/-- The pool accepts a transaction whose anchor is the root of a block that was never on the
chain. -/
theorem stale_batch_committed :
    ¬ Always (mempoolStep lateParams counting 1 provesAll)
      (ShieldedConsistent lateParams counting) initial staleBatchSteps := by
  intro halways
  have hfinal := halways.final
  have hfound : (run (mempoolStep lateParams counting 1 provesAll) initial
      staleBatchSteps).pool.get 31 = some (spendTx 31 [⟨7, 0⟩] 2 9) := by decide +kernel
  have huncommitted : ∀ block ∈ (run (mempoolStep lateParams counting 1 provesAll)
      initial staleBatchSteps).chain, committedBy block = [] := by decide +kernel
  obtain ⟨nHeight, frontier, ⟨block, rest, hsuffix, -, -, hfrontier⟩, hroot⟩ :=
    hfinal.anchors 31 _ hfound 2 (by decide)
  have hempty : frontierOf counting (block :: rest) = some counting.new :=
    frontierOf_of_uncommitted (fun other hother =>
      huncommitted other (hsuffix.subset hother))
  rw [hempty, Option.some.injEq] at hfrontier
  rw [← hfrontier] at hroot
  exact absurd hroot (by decide)

end Kerrigan.Mempool
