import Kerrigan.Sapling.ChainState

/-!
# Recovery of the shielded store after a crash

The store commits every block at once; the coins are flushed later.  After a crash the two are
at different blocks, perhaps of different branches, and the node goes on with `ReplayBlocks`,
`ConnectBlock` and `DisconnectBlock`.  The rules for this compare heights.
-/

namespace Kerrigan.Sapling

open Primitives Consensus Lib List ShieldedChain

structure BlockTree (genesis : Uint256) where
  branch : Uint256 → List CBlock
  branch_genesis : branch genesis = []
  branch_cons : ∀ hash block rest, branch hash = block :: rest →
    block.hash = hash ∧ branch (tipHash genesis rest) = rest

namespace BlockTree

variable {genesis : Uint256} (tree : BlockTree genesis)

def Holds (chain : List CBlock) : Prop := tree.branch (tipHash genesis chain) = chain

variable {tree} {block : CBlock} {chain other : List CBlock}

theorem Holds.tail (hchain : tree.Holds (block :: chain)) : tree.Holds chain :=
  (tree.branch_cons _ block chain hchain).2

theorem holds_of_branch {hash : Uint256} (hbranch : tree.branch hash = block :: chain) :
    tree.Holds (block :: chain) := by
  have hhash := (tree.branch_cons hash block chain hbranch).1
  rw [Holds, tipHash, hhash]
  exact hbranch

theorem Holds.eq (hchain : tree.Holds chain) (hother : tree.Holds other)
    (hhash : tipHash genesis chain = tipHash genesis other) : chain = other := by
  rw [Holds, hhash] at hchain
  exact hchain.symm.trans hother

def find (genesis : Uint256) (branches : List (List CBlock)) (hash : Uint256) : List CBlock :=
  (branches.find? (fun chain => tipHash genesis chain == hash)).getD []

theorem find_eq_nil_or_mem (genesis : Uint256) (branches : List (List CBlock)) (hash : Uint256) :
    find genesis branches hash = [] ∨ find genesis branches hash ∈ branches := by
  unfold find
  cases hfind : branches.find? (fun chain => tipHash genesis chain == hash) with
  | none => exact Or.inl rfl
  | some chain => exact Or.inr (mem_of_find?_eq_some hfind)

theorem find_cons {branches : List (List CBlock)} (hclosed : ∀ chain ∈ branches,
      find genesis branches (tipHash genesis chain.tail) = chain.tail) {hash : Uint256}
    (hfound : find genesis branches hash = block :: chain) :
    block.hash = hash ∧ find genesis branches (tipHash genesis chain) = chain := by
  unfold find at hfound
  cases hfind : branches.find? (fun chain => tipHash genesis chain == hash) with
  | none => simp [hfind] at hfound
  | some listed =>
    rw [hfind, Option.getD_some] at hfound
    have hmem := mem_of_find?_eq_some hfind
    have htip := find?_some hfind
    rw [hfound] at hmem htip
    exact ⟨by simpa [tipHash] using htip, hclosed _ hmem⟩

end BlockTree

section Recovery

variable {Frontier : Type} (params : SaplingParams) (frontiers : FrontierFunctions Frontier)
  {genesis : Uint256} (tree : BlockTree genesis) (verifySaplingProofs : ProofVerdict)

/-! ## Steps on blocks -/

inductive BlockAction
  | connect (hash : Uint256)
  | disconnect

def blockStep (node : ShieldedChain) : BlockAction → ShieldedChain
  | .connect hash =>
      match tree.branch hash with
      | [] => node
      | block :: rest =>
          if rest = node.chain then
            shieldedStep params frontiers genesis verifySaplingProofs node (.connect block)
          else node
  | .disconnect => shieldedStep params frontiers genesis verifySaplingProofs node .disconnect

def lastCommonAncestor : List CBlock → List CBlock → List CBlock
  | [], _ => []
  | tip :: rest, other => if tip :: rest <:+ other then tip :: rest
      else lastCommonAncestor rest other

def replayActions (old new : List CBlock) : List BlockAction :=
  let fork := lastCommonAncestor old new
  replicate (old.length - fork.length) .disconnect ++
    (new.take (new.length - fork.length)).reverse.map (fun block => .connect block.hash)

/-- The store is not at the old tip, but at a height between the old and the new one. -/
def SaplingAhead (node : ShieldedChain) (new : List CBlock) : Prop :=
  ∃ best ∈ node.sapling.db.bestBlock, node.chain.length < (tree.branch best).length ∧
    (tree.branch best).length ≤ new.length

instance (node : ShieldedChain) (new : List CBlock) : Decidable (SaplingAhead tree node new) :=
  inferInstanceAs (Decidable (∃ best ∈ node.sapling.db.bestBlock, _))

def ReplayAllowed (node : ShieldedChain) (hash : Uint256) : Prop :=
  tipHash genesis (tree.branch hash) = hash ∧
    (params.IsSaplingActive node.chain.length ∧
      node.sapling.verifyBestBlock (tipHash genesis node.chain) = false →
      SaplingAhead tree node (tree.branch hash))

instance (node : ShieldedChain) (hash : Uint256) :
    Decidable (ReplayAllowed params tree node hash) := inferInstanceAs (Decidable (_ ∧ _))

inductive RecoveryStep
  | block (action : BlockAction)
  | replay (hash : Uint256)
  | restart

def recoveryStep (node : ShieldedChain) : RecoveryStep → ShieldedChain
  | .block action => blockStep params frontiers tree verifySaplingProofs node action
  | .replay hash =>
      let replayed := run (blockStep params frontiers tree verifySaplingProofs) node
        (replayActions node.chain (tree.branch hash))
      if ReplayAllowed params tree node hash ∧ replayed.chain = tree.branch hash then replayed
      else node
  | .restart => shieldedStep params frontiers genesis verifySaplingProofs node .restart

/-! ## The condition -/

/-- A connected block is on the branch that the store records or is built on its end, and a
disconnected block is the one the store records.  Nothing is asked below activation. -/
def StoreFollows (node : ShieldedChain) : BlockAction → Prop
  | .connect hash => params.IsSaplingActive (node.chain.length + 1) →
      node.sapling.db.bestBlock = some (tipHash genesis node.chain) ∨
      (∃ best, node.sapling.db.bestBlock = some best ∧ tree.branch hash <:+ tree.branch best) ∨
      (node.sapling.lastFrontierHeight = -1 ∧ lastActive params node.chain = -1)
  | .disconnect => node.chain ≠ [] → params.IsSaplingActive node.chain.length →
      node.sapling.db.bestBlock = some (tipHash genesis node.chain)

def RecoveryFollows (node : ShieldedChain) : RecoveryStep → Prop
  | .block action => StoreFollows params tree node action
  | .replay hash => Guarded (blockStep params frontiers tree verifySaplingProofs)
      (StoreFollows params tree) node (replayActions node.chain (tree.branch hash))
  | .restart => True

structure Crashed (stored : List CBlock) (node : ShieldedChain) : Prop where
  store : StoreOf params frontiers genesis stored node.sapling
  stored_held : tree.Holds stored
  chain_held : tree.Holds node.chain
  chain_checked : Checked params node.chain
  chain_distinct : (revealedOn node.chain).Nodup

/-! ## The invariant -/

def Within (crashHeight : Nat) (chain : List CBlock) : Prop :=
  lastActive params chain = -1 ∨ chain.length ≤ crashHeight

structure Recovering (crashHeight : Nat) (stored : List CBlock) (node : ShieldedChain) : Prop where
  data : DataOf params frontiers stored node.sapling
  stored_held : tree.Holds stored
  best : ∀ hash, node.sapling.db.bestBlock = some hash → hash = tipHash genesis stored
  chain_held : tree.Holds node.chain
  chain_checked : Checked params node.chain
  chain_distinct : (revealedOn node.chain).Nodup
  near : stored = node.chain ∨
    Within params crashHeight node.chain ∧ Within params crashHeight stored

variable {params frontiers tree verifySaplingProofs} {crashHeight : Nat} {stored : List CBlock}
  {node : ShieldedChain}

theorem Crashed.recovering (hcrash : Crashed params frontiers tree stored node) :
    Recovering params frontiers tree (max node.chain.length stored.length) stored node :=
  ⟨hcrash.store.toDataOf, hcrash.stored_held, fun hash hbest => (hcrash.store.tip hash hbest).1,
    hcrash.chain_held, hcrash.chain_checked, hcrash.chain_distinct,
    Or.inr ⟨Or.inr (le_max_left _ _), Or.inr (le_max_right _ _)⟩⟩

theorem Within.of_inactive {chain : List CBlock} {block : CBlock}
    (hactive : ¬ params.IsSaplingActive (chain.length + 1)) :
    Within params crashHeight chain ∧ Within params crashHeight (block :: chain) :=
  (lastActive_of_inactive hactive).imp Or.inl Or.inl

theorem Recovering.reflects (hrecovering : Recovering params frontiers tree crashHeight stored node)
    (habove : crashHeight < node.chain.length) :
    ReflectsData params frontiers node.chain node.sapling := by
  rcases hrecovering.near with heq | ⟨hchain, hstored⟩
  · rw [← heq]
    exact hrecovering.data.reflectsData
  · have hbelow : lastActive params node.chain = -1 := by
      rcases hchain with hbelow | hle
      · exact hbelow
      · omega
    have hstoredBelow : lastActive params stored = -1 := by
      rcases hstored with hbelow | hle
      · exact hbelow
      · refine if_neg ?_
        rintro ⟨-, hactive⟩
        have htip : node.chain ≠ [] ∧ params.IsSaplingActive node.chain.length := by
          refine ⟨ne_nil_of_length_pos (by omega), le_trans hactive ?_⟩
          omega
        rw [lastActive, if_pos htip] at hbelow
        omega
    exact (hrecovering.data.below hstoredBelow hrecovering.chain_checked hbelow).reflectsData

/-! ## Steps -/

variable {block : CBlock} {next : CSaplingState}

theorem Recovering.connect_skipped
    (hrecovering : Recovering params frontiers tree crashHeight stored node)
    (hheld : tree.Holds (block :: node.chain))
    (hprocess : processSpecialTxsInBlock params frontiers verifySaplingProofs node.sapling block
      (node.chain.length + 1) (tipHash genesis node.chain) false = (.ok (), next))
    (hskip : ¬ params.IsSaplingActive (node.chain.length + 1) ∨
      node.chain.length + 1 ≤ node.sapling.lastFrontierHeight)
    (hdistinct : (revealedOn (block :: node.chain)).Nodup)
    (hnear : Within params crashHeight (block :: node.chain) ∧
      Within params crashHeight stored) :
    Recovering params frontiers tree crashHeight stored
      ⟨block :: node.chain, next.commitBlock⟩ := by
  have hnew := checkSpecialTxs_payloads (processSpecialTxsInBlock_eq_ok hprocess).1
  rw [processSpecialTxsInBlock_skipped hrecovering.data.pendingBatch hskip hprocess]
  exact ⟨hrecovering.data, hrecovering.stored_held, hrecovering.best, hheld,
    hrecovering.chain_checked.cons hnew, hdistinct, Or.inr hnear⟩

theorem Recovering.connect_extends (hheld : tree.Holds (block :: node.chain))
    (hdata : DataOf params frontiers node.chain node.sapling)
    (hactive : params.IsSaplingActive (node.chain.length + 1))
    (hprocess : processSpecialTxsInBlock params frontiers verifySaplingProofs node.sapling block
      (node.chain.length + 1) (tipHash genesis node.chain) false = (.ok (), next)) :
    Recovering params frontiers tree crashHeight (block :: node.chain)
      ⟨block :: node.chain, next.commitBlock⟩ := by
  obtain ⟨hextended, hbest⟩ := hdata.connect hactive hprocess
  refine ⟨hextended, hheld, ?_, hheld, hextended.checked, hextended.distinct, Or.inl rfl⟩
  intro hash hsome
  rw [hbest, Option.some.injEq] at hsome
  exact hsome.symm

theorem DataOf.le_lastFrontierHeight {state : CSaplingState} {chain : List CBlock}
    (hdata : DataOf params frontiers stored state) (hsuffix : block :: chain <:+ stored)
    (hactive : params.IsSaplingActive (chain.length + 1)) :
    chain.length + 1 ≤ state.lastFrontierHeight := by
  have hlength := hsuffix.length_le
  rw [length_cons] at hlength
  have htip : stored ≠ [] ∧ params.IsSaplingActive stored.length := by
    refine ⟨ne_nil_of_length_pos (by omega), le_trans hactive ?_⟩
    omega
  rw [hdata.last, lastActive, if_pos htip]
  omega

theorem Recovering.connect {hash : Uint256}
    (hrecovering : Recovering params frontiers tree crashHeight stored node)
    (hbranch : tree.branch hash = block :: node.chain)
    (hfollows : StoreFollows params tree node (.connect hash))
    (hprocess : processSpecialTxsInBlock params frontiers verifySaplingProofs node.sapling block
      (node.chain.length + 1) (tipHash genesis node.chain) false = (.ok (), next)) :
    ∃ stored, Recovering params frontiers tree crashHeight stored
      ⟨block :: node.chain, next.commitBlock⟩ := by
  have hheld := BlockTree.holds_of_branch hbranch
  by_cases hactive : params.IsSaplingActive (node.chain.length + 1)
  · rcases hfollows hactive with hparent | ⟨best, hbest, hsuffix⟩ | ⟨hlast, hbelow⟩
    · have hsame : stored = node.chain := hrecovering.stored_held.eq hrecovering.chain_held
        (hrecovering.best _ hparent).symm
      have hdata := hrecovering.data
      rw [hsame] at hdata
      exact ⟨_, Recovering.connect_extends hheld hdata hactive hprocess⟩
    · have hstored : tree.branch best = stored := by
        rw [hrecovering.best best hbest]
        exact hrecovering.stored_held
      rw [hbranch, hstored] at hsuffix
      have hle := hrecovering.data.le_lastFrontierHeight hsuffix hactive
      have hlength := hsuffix.length_le
      rw [length_cons] at hlength
      refine ⟨stored, hrecovering.connect_skipped hheld hprocess (Or.inr hle) ?_ ?_⟩
      · obtain ⟨before, hsplit⟩ := hsuffix
        have hall := hrecovering.data.distinct
        rw [← hsplit, revealedOn, flatMap_append] at hall
        exact hall.of_append_right
      · have hstoredLe : stored.length ≤ crashHeight := by
          rcases hrecovering.near with heq | ⟨-, hbelow | hle⟩
          · rw [heq] at hlength
            omega
          · rw [hrecovering.data.last, hbelow] at hle
            omega
          · exact hle
        refine ⟨Or.inr ?_, Or.inr hstoredLe⟩
        rw [length_cons]
        omega
    · have hstoredBelow : lastActive params stored = -1 := by
        rw [← hrecovering.data.last]
        exact hlast
      have hdata := hrecovering.data.below hstoredBelow hrecovering.chain_checked hbelow
      exact ⟨_, Recovering.connect_extends hheld hdata hactive hprocess⟩
  · obtain ⟨hshorter, hlonger⟩ := Within.of_inactive hactive
    have hchecked := hrecovering.chain_checked.cons
      (checkSpecialTxs_payloads (processSpecialTxsInBlock_eq_ok hprocess).1)
    refine ⟨stored, hrecovering.connect_skipped hheld hprocess (Or.inl hactive) ?_
      ⟨hlonger, ?_⟩⟩
    · rw [(hchecked.empty_of_below (lastActive_of_inactive hactive).2).1]
      exact nodup_nil
    · rcases hrecovering.near with heq | ⟨-, hwithin⟩
      · rw [heq]
        exact hshorter
      · exact hwithin

theorem Recovering.disconnect {tip : CBlock} {rest : List CBlock} {sapling : CSaplingState}
    (hrecovering : Recovering params frontiers tree crashHeight stored ⟨tip :: rest, sapling⟩)
    (hfollows : StoreFollows params tree ⟨tip :: rest, sapling⟩ .disconnect)
    (hundo : disconnectBlock params sapling tip (rest.length + 1) (tipHash genesis rest) =
      some next) :
    ∃ stored, Recovering params frontiers tree crashHeight stored ⟨rest, next⟩ := by
  have hchecked := hrecovering.chain_checked.suffix (suffix_cons tip rest)
  have hdistinct : (revealedOn rest).Nodup := by
    have hall := hrecovering.chain_distinct
    exact hall.of_append_right
  unfold disconnectBlock at hundo
  split at hundo
  · cases hundo
  · by_cases hactive : params.IsSaplingActive (rest.length + 1)
    · have hparent : sapling.db.bestBlock = some (tipHash genesis (tip :: rest)) := by
        refine hfollows (cons_ne_nil tip rest) ?_
        exact hactive
      have hsame : stored = tip :: rest := hrecovering.stored_held.eq hrecovering.chain_held
        (hrecovering.best _ hparent).symm
      have hdata := hrecovering.data
      rw [hsame] at hdata
      obtain ⟨hundone, hbest⟩ := hdata.undo hactive hundo
      refine ⟨rest, hundone, hrecovering.chain_held.tail, ?_, hrecovering.chain_held.tail, hchecked,
        hdistinct, Or.inl rfl⟩
      intro hash hsome
      rw [hbest, Option.some.injEq] at hsome
      exact hsome.symm
    · unfold CSaplingState.undoBlock at hundo
      rw [if_pos hactive, Option.some.injEq] at hundo
      rw [← hundo]
      obtain ⟨hshorter, hlonger⟩ := Within.of_inactive hactive
      refine ⟨stored, hrecovering.data, hrecovering.stored_held, hrecovering.best,
        hrecovering.chain_held.tail, hchecked, hdistinct, Or.inr ⟨hshorter, ?_⟩⟩
      rcases hrecovering.near with heq | ⟨-, hwithin⟩
      · rw [heq]
        exact hlonger
      · exact hwithin

theorem recovering_blockStep {action : BlockAction}
    (hrecovering : ∃ stored, Recovering params frontiers tree crashHeight stored node)
    (hfollows : StoreFollows params tree node action) :
    ∃ stored, Recovering params frontiers tree crashHeight stored
      (blockStep params frontiers tree verifySaplingProofs node action) := by
  obtain ⟨stored, hrecovering⟩ := hrecovering
  cases action with
  | connect hash =>
    simp only [blockStep]
    cases hbranch : tree.branch hash with
    | nil => exact ⟨stored, hrecovering⟩
    | cons block rest =>
      dsimp only
      split
      · rename_i hparent
        rw [hparent] at hbranch
        simp only [shieldedStep]
        split
        · rename_i next hprocess
          exact hrecovering.connect hbranch hfollows hprocess
        · rename_i reason next hprocess
          obtain ⟨hdata, hdb⟩ := hrecovering.data.refused hprocess
          refine ⟨stored, hdata, hrecovering.stored_held, ?_, hrecovering.chain_held,
            hrecovering.chain_checked, hrecovering.chain_distinct, hrecovering.near⟩
          rw [hdb]
          exact hrecovering.best
      · exact ⟨stored, hrecovering⟩
  | disconnect =>
    obtain ⟨chain, sapling⟩ := node
    cases chain with
    | nil => exact ⟨stored, hrecovering⟩
    | cons tip rest =>
      simp only [blockStep, shieldedStep]
      cases hundo : disconnectBlock params sapling tip (rest.length + 1)
          (tipHash genesis rest) with
      | none => exact ⟨stored, hrecovering⟩
      | some next => exact hrecovering.disconnect hfollows hundo

theorem recovering_recoveryStep {step : RecoveryStep}
    (hrecovering : ∃ stored, Recovering params frontiers tree crashHeight stored node)
    (hfollows : RecoveryFollows params frontiers tree verifySaplingProofs node step) :
    ∃ stored, Recovering params frontiers tree crashHeight stored
      (recoveryStep params frontiers tree verifySaplingProofs node step) := by
  cases step with
  | block action => exact recovering_blockStep hrecovering hfollows
  | replay hash =>
    simp only [recoveryStep]
    split
    · have hreplayed : Always (blockStep params frontiers tree verifySaplingProofs)
          (fun node => ∃ stored, Recovering params frontiers tree crashHeight stored node) node
          (replayActions node.chain (tree.branch hash)) :=
        always_of_guarded (fun _ _ => recovering_blockStep) hrecovering hfollows
      exact hreplayed.final
    · exact hrecovering
  | restart =>
    obtain ⟨stored, hrecovering⟩ := hrecovering
    exact ⟨stored, hrecovering.data.load, hrecovering.stored_held, hrecovering.best,
      hrecovering.chain_held, hrecovering.chain_checked, hrecovering.chain_distinct,
      hrecovering.near⟩

/-- After every crash, along every run whose connected blocks are on or above the branch that
the store records and whose disconnected blocks are the recorded ones, no nullifier is revealed
twice on the active chain, and above the crash the store is the function of the chain again. -/
theorem recovery_sound (params : SaplingParams) (frontiers : FrontierFunctions Frontier)
    (tree : BlockTree genesis) (verifySaplingProofs : ProofVerdict) (stored : List CBlock)
    (node : ShieldedChain) (hcrash : Crashed params frontiers tree stored node)
    (steps : List RecoveryStep)
    (hfollows : Guarded (recoveryStep params frontiers tree verifySaplingProofs)
      (RecoveryFollows params frontiers tree verifySaplingProofs) node steps) :
    Always (recoveryStep params frontiers tree verifySaplingProofs)
      (fun after => (revealedOn after.chain).Nodup ∧
        (max node.chain.length stored.length < after.chain.length →
          ReflectsData params frontiers after.chain after.sapling)) node steps := by
  have hrecovering : Always (recoveryStep params frontiers tree verifySaplingProofs)
      (fun after => ∃ found, Recovering params frontiers tree
        (max node.chain.length stored.length) found after) node steps :=
    always_of_guarded (fun _ _ => recovering_recoveryStep) ⟨stored, hcrash.recovering⟩ hfollows
  intro visited hvisited
  obtain ⟨found, hfound⟩ := hrecovering visited hvisited
  exact ⟨hfound.chain_distinct, hfound.reflects⟩

end Recovery

namespace Sample

def spend (hash nf : Uint256) : CBlock :=
  ⟨hash, [shieldedTx (hash + 100)
    { valueBalance := 1, vSpendDescriptions := [⟨2, nf⟩], vOutputDescriptions := [⟨8⟩] }]⟩

/-- Two branches on `shield`: one of three blocks, and one whose two blocks reveal the same
nullifier. -/
def branches : List (List CBlock) :=
  [[shield], [spend 3 9, shield], [⟨4, []⟩, spend 3 9, shield],
    [⟨5, []⟩, ⟨4, []⟩, spend 3 9, shield], [spend 6 9, shield], [spend 7 9, spend 6 9, shield]]

def branchOf (hash : Uint256) : List CBlock :=
  (branches.find? (fun chain => tipHash 1 chain == hash)).getD []

def tree : BlockTree 1 where
  branch := branchOf
  branch_genesis := by decide
  branch_cons := by
    have hclosed : ∀ chain ∈ branches, branchOf (tipHash 1 chain.tail) = chain.tail := by decide
    intro hash block rest hbranch
    exact BlockTree.find_cons hclosed hbranch

/-- The store has the first three blocks of the first branch when the node stops; the coins
have only `shield`. -/
def aheadNode : ShieldedChain :=
  ⟨[shield], CSaplingState.load (run (shieldedStep regtestParams counting 1 provesAll)
    initial [.connect shield, .connect (spend 3 9), .connect ⟨4, []⟩]).sapling.db⟩

theorem aheadNode_crashed :
    Crashed regtestParams counting tree [⟨4, []⟩, spend 3 9, shield] aheadNode := by
  have hchain : (run (shieldedStep regtestParams counting 1 provesAll) initial
      [.connect shield, .connect (spend 3 9), .connect ⟨4, []⟩]).chain =
      [⟨4, []⟩, spend 3 9, shield] := by decide +kernel
  have hkeeps : Guarded (shieldedStep regtestParams counting 1 provesAll) (KeepsTip regtestParams)
      initial [.connect shield, .connect (spend 3 9), .connect ⟨4, []⟩] :=
    ⟨trivial, trivial, trivial, trivial⟩
  have hstore := (storeOf_always hkeeps).final
  have hsuffix : [shield] <:+ [⟨4, []⟩, spend 3 9, shield] := ⟨[⟨4, []⟩, spend 3 9], rfl⟩
  exact ⟨hstore.of_db ⟨hstore.toDataOf.load, rfl⟩, rfl, rfl, hstore.checked.suffix hsuffix,
    by decide⟩

def recoverySteps : List RecoveryStep := [.replay 4, .restart, .block (.connect 5)]

end Sample

open Sample

theorem recovery_sound_ahead :
    Crashed regtestParams counting tree [⟨4, []⟩, spend 3 9, shield]
        aheadNode ∧
      Always (recoveryStep regtestParams counting tree provesAll)
        (fun after => (revealedOn after.chain).Nodup ∧
          (max aheadNode.chain.length
              [⟨4, []⟩, spend 3 9, shield].length < after.chain.length →
            ReflectsData regtestParams counting after.chain after.sapling))
        aheadNode recoverySteps ∧
      (run (recoveryStep regtestParams counting tree provesAll)
        aheadNode recoverySteps).chain.map CBlock.hash = [5, 4, 3, 11] := by
  have hfollows : Guarded
      (recoveryStep regtestParams counting tree provesAll)
      (RecoveryFollows regtestParams counting tree provesAll)
      aheadNode recoverySteps := by
    refine ⟨⟨?_, ?_, trivial⟩, trivial, ?_, trivial⟩
    · exact fun _ => Or.inr (Or.inl ⟨4, by decide +kernel, by decide +kernel⟩)
    · exact fun _ => Or.inr (Or.inl ⟨4, by decide +kernel, by decide +kernel⟩)
    · exact fun _ => Or.inl (by decide +kernel)
  exact ⟨aheadNode_crashed, recovery_sound regtestParams counting tree
    provesAll [⟨4, []⟩, spend 3 9, shield] aheadNode
    aheadNode_crashed recoverySteps hfollows, by decide +kernel⟩

/-- With the store ahead on one branch, two blocks of another branch are connected without a
look at their nullifiers, and both reveal the same one. -/
theorem nullifier_revealed_twice :
    Crashed regtestParams counting tree [⟨4, []⟩, spend 3 9, shield]
        aheadNode ∧
      ¬ (revealedOn (run
        (recoveryStep regtestParams counting tree provesAll)
        aheadNode [.block (.connect 6), .block (.connect 7)]).chain).Nodup := by
  refine ⟨aheadNode_crashed, ?_⟩
  decide +kernel

end Kerrigan.Sapling
