import Kerrigan.Validation.Reception

/-!
# Agreement on the active tip

Two nodes receive the blocks of one tree in different orders.  A reception is consistent when the
estimate of the block is on the same side of the tip as its true work.  Nodes with consistent
receptions end on the heaviest block, and so on the same tip.  In general the order decides,
because a branch whose estimate is too low is never tried.
-/

namespace Kerrigan.Validation

open Primitives Lib BlockMap ReceivingNode List

namespace BlockTree

def SameSide (kept estimate work : Nat) : Prop :=
  (kept ≤ estimate → kept ≤ work) ∧ (estimate ≤ kept → work ≤ kept)

/-- What the block will count with before it is connected, what its parent counts with and its full
proof, compares with the tip as its true work does. -/
def Consistent (tree : BlockTree) (state : ReceivingNode) (block : TreeBlock) : Prop :=
  ∀ tip ∈ state.node.tip, SameSide (state.node.index.countedWork tip)
    (state.node.index.countedWork block.hashPrevBlock + block.blockProof)
    (tree.trueWork block.hash)

/-- Every reception of the run is consistent in the state in which it happens. -/
def ConsistentRun (tree : BlockTree) (rules : ConnectRules Unit) (fuel : Nat) :
    ReceivingNode → List TreeBlock → Prop
  | _, [] => True
  | state, block :: rest => tree.Consistent state block ∧
      ∀ next ∈ state.processNewBlock rules fuel block, ConsistentRun tree rules fuel next rest

variable {tree : BlockTree} {address : Uint256 → Nat} {node : ForkNode Unit}

/-! ## A new block -/

namespace Adds

variable {index next : BlockMap} {hash : Uint256} {added : CBlockIndex}

theorem sound (hadds : Adds index next hash added) {sealHeight : Nat}
    (hsound : index.Sound sealHeight) (hadded : SoundEntry sealHeight index added) :
    next.Sound sealHeight := by
  refine ⟨hadds.closed hsound.closed, ?_⟩
  intro other entry hentry
  have hold : SoundEntry sealHeight index entry ∧
      ∀ parent ∈ entry.pprev, index[parent]?.isSome := by
    rcases hadds.cases hentry with ⟨-, rfl⟩ | hentry
    · refine ⟨hadded, ?_⟩
      intro parent hparent
      obtain ⟨prev, hprev, -⟩ := hadds.linked parent hparent
      rw [hprev]
      rfl
    · refine ⟨hsound.entries other entry hentry, ?_⟩
      intro parent hparent
      obtain ⟨prev, hprev, -⟩ := hsound.closed other entry hentry parent hparent
      rw [hprev]
      rfl
  obtain ⟨hchainWork, hsealWork⟩ := hadds.prevWork hold.2
  refine ⟨?_, hold.1.positive, hold.1.bounded, hold.1.sealBounded, ?_⟩
  · rw [hchainWork]
    exact hold.1.summed
  · rw [hsealWork]
    exact hold.1.low

theorem branchOf (hadds : Adds index next hash added) (hclosed : index.ParentClosed)
    {tip : Uint256} (hknown : index[tip]?.isSome) : next.branchOf tip = index.branchOf tip := by
  have hheight : next.heightOf tip = index.heightOf tip := by
    simp only [heightOf, hadds.lookup_known hknown]
  unfold BlockMap.branchOf ancestry
  rw [hheight]
  refine ancestryUpTo_congr ?_
  intro member hmember
  simp only [parentOf,
    hadds.lookup_known (ForkNode.isSome_of_mem_branchOf hclosed hknown hmember)]

theorem soundNode (hadds : Adds index next hash added) {node after : ForkNode Unit}
    {rules : ConnectRules Unit} (hsound : node.Sound rules) (hindex : node.index = index)
    (hnext : after.index = next) (hchain : after.chain = node.chain)
    (hcandidates : ∀ other ∈ after.candidates, other = hash ∨ other ∈ node.candidates)
    (hadded : SoundEntry rules.sealHeight index added) : after.Sound rules := by
  subst hindex hnext
  refine ⟨hadds.sound hsound.index hadded, ?_, ?_, ?_, ?_⟩
  · intro other hother
    rcases hcandidates other hother with rfl | hother
    · rw [hadds.lookup, if_pos rfl]
      rfl
    · have hknown := hsound.listed other hother
      rw [hadds.lookup_known hknown]
      exact hknown
  · intro tip htip
    rw [hchain] at htip ⊢
    have hknown := hsound.known tip (mem_of_mem_head? htip)
    exact (hsound.branch tip htip).trans (hadds.branchOf hsound.index.closed hknown).symm
  · intro other hother
    rw [hchain] at hother
    have hknown := hsound.known other hother
    rw [hadds.lookup_known hknown]
    exact hknown
  · intro other hother entry hentry
    rw [hchain] at hother
    rw [hadds.lookup_known (hsound.known other hother)] at hentry
    have hparents : ∀ parent ∈ entry.pprev, node.index[parent]?.isSome := by
      intro parent hparent
      exact hsound.known parent (hsound.parent_mem hother hentry hparent)
    rw [(hadds.prevWork hparents).2]
    exact hsound.rising other hother entry hentry

theorem countedWork_known (hadds : Adds index next hash added) {other : Uint256}
    (hknown : index[other]?.isSome) : next.countedWork other = index.countedWork other :=
  countedWork_of_lookup (hadds.lookup_known hknown)

end Adds

def receivedEntry (prev : CBlockIndex) (block : TreeBlock) (nSequenceId : Nat) : CBlockIndex :=
  { pprev := some block.hashPrevBlock, nHeight := prev.nHeight + 1, blockProof := block.blockProof
    nChainWork := prev.nChainWork + block.blockProof
    nChainSealWork := prev.nChainSealWork + block.blockProof
    nSequenceId := nSequenceId, haveData := true }

variable {state : ReceivingNode} {block : TreeBlock} {prev : CBlockIndex} {index : BlockMap}

theorem newEntry_eq (hprev : index[block.hashPrevBlock]? = some prev)
    (hbounded : (prev.nChainWork + block.blockProof) * 20000 < 2 ^ 256)
    (hsealBounded : prev.nChainSealWork ≤ 2 * prev.nChainWork) :
    index.newEntry block.hashPrevBlock block.blockProof =
      { receivedEntry prev block 0 with haveData := false } := by
  have hproof : block.blockProof * 10000 ≤ (prev.nChainWork + block.blockProof) * 20000 := by
    omega
  have hneutral : weightedProof block.blockProof 10000 = block.blockProof :=
    weightedProof_neutral (lt_of_le_of_lt hproof hbounded)
  have hwork : addWork prev.nChainWork block.blockProof = prev.nChainWork + block.blockProof :=
    addWork_eq (by omega)
  have hseal : addWork prev.nChainSealWork block.blockProof =
      prev.nChainSealWork + block.blockProof :=
    addWork_eq (by omega)
  simp only [newEntry, hprev, sumWork, prevChainWork,
    prevSealWork, Option.bind_some, hneutral, hwork, hseal, receivedEntry]

section

variable (hnew : state.node.index[block.hash]? = none)

include hnew

theorem acceptBlock_eq (hprev : state.node.index[block.hashPrevBlock]? = some prev) :
    state.acceptBlock address block = receivedBlockTransactions address
      { state with
        node.index := state.node.index.insert block.hash
          (state.node.index.newEntry block.hashPrevBlock block.blockProof) } block.hash := by
  unfold acceptBlock
  simp only [addToBlockIndex_eq hnew]
  rw [if_neg]
  simp only [entryOf, getElem?_insert_eq, if_true, Option.getD_some,
    newEntry, hprev, sumWork]
  decide

theorem acceptBlock_lookup (hprev : state.node.index[block.hashPrevBlock]? = some prev)
    (hbounded : (prev.nChainWork + block.blockProof) * 20000 < 2 ^ 256)
    (hsealBounded : prev.nChainSealWork ≤ 2 * prev.nChainWork) (other : Uint256) :
    (state.acceptBlock address block).node.index[other]? =
      if block.hash = other then some (receivedEntry prev block state.nBlockSequenceId)
      else state.node.index[other]? := by
  rw [acceptBlock_eq hnew hprev]
  simp only [receivedBlockTransactions]
  rw [getElem?_modifyEntry, getElem?_insert_eq]
  split
  · rw [newEntry_eq hprev hbounded hsealBounded]
    rfl
  · rfl

theorem acceptBlock_chain (hprev : state.node.index[block.hashPrevBlock]? = some prev) :
    (state.acceptBlock address block).node.chain = state.node.chain := by
  rw [acceptBlock_eq hnew hprev]
  rfl

end

variable {hash : Uint256}

theorem mem_candidates_received
    (hconflicting : ((state.receivedBlockTransactions address hash).node.index.entryOf
      hash).conflicting = false) (other : Uint256) :
    other ∈ (state.receivedBlockTransactions address hash).node.candidates ↔
      other ∈ state.node.candidates ∨ (other = hash ∧ ∀ tip ∈ state.node.tip,
        ¬ (state.receivedBlockTransactions address hash).node.index.less address hash tip) := by
  unfold receivedBlockTransactions at hconflicting ⊢
  simp only [hconflicting, Bool.not_false, Bool.and_true, Bool.not_eq_true']
  cases htip : state.node.tip with
  | none => simp [or_comm]
  | some tip =>
    simp only [Option.any_some, Option.mem_some_iff, forall_eq']
    split
    · rename_i hless
      rw [hless, mem_cons, or_comm]
      simp
    · rename_i hless
      simp [hless]

theorem acceptBlock_candidates (hnew : state.node.index[block.hash]? = none)
    (hprev : state.node.index[block.hashPrevBlock]? = some prev)
    (hbounded : (prev.nChainWork + block.blockProof) * 20000 < 2 ^ 256)
    (hsealBounded : prev.nChainSealWork ≤ 2 * prev.nChainWork) (hash : Uint256) :
    hash ∈ (state.acceptBlock address block).node.candidates ↔
      hash ∈ state.node.candidates ∨ (hash = block.hash ∧ ∀ tip ∈ state.node.tip,
        ¬ (state.acceptBlock address block).node.index.less address block.hash tip) := by
  have hconflicting : ((state.acceptBlock address block).node.index.entryOf
      block.hash).conflicting = false := by
    rw [entryOf, acceptBlock_lookup hnew hprev hbounded hsealBounded, if_pos rfl]
    rfl
  rw [acceptBlock_eq hnew hprev] at hconflicting ⊢
  exact mem_candidates_received hconflicting hash

section

variable (hfaithful : tree.Faithful address state.node) (hblock : block ∈ tree.blocks)
  (hnew : state.node.index[block.hash]? = none)
  (hprev : state.node.index[block.hashPrevBlock]? = some prev)

include hfaithful hblock hprev

theorem Faithful.bounded : (prev.nChainWork + block.blockProof) * 20000 < 2 ^ 256 := by
  rw [(hfaithful.described _ prev hprev).work, ← (tree.child_sums block hblock).2.1]
  exact tree.bounded block.hash (mem_cons_of_mem _ (mem_map_of_mem hblock))

include hnew

theorem Faithful.adds :
    Adds state.node.index (state.acceptBlock address block).node.index block.hash
      (receivedEntry prev block state.nBlockSequenceId) := by
  have hsealBounded := (hfaithful.sound.index.entries _ prev hprev).sealBounded
  refine ⟨hnew, acceptBlock_lookup hnew hprev (hfaithful.bounded hblock hprev) hsealBounded, ?_⟩
  intro parent hparent
  cases hparent
  exact ⟨prev, hprev, rfl⟩

theorem Faithful.candidates (hash : Uint256) :
    hash ∈ (state.acceptBlock address block).node.candidates ↔
      hash ∈ state.node.candidates ∨ (hash = block.hash ∧ ∀ tip ∈ state.node.tip,
        ¬ (state.acceptBlock address block).node.index.less address block.hash tip) :=
  acceptBlock_candidates hnew hprev (hfaithful.bounded hblock hprev)
    (hfaithful.sound.index.entries _ prev hprev).sealBounded hash

theorem Faithful.acceptBlock : tree.Faithful address (state.acceptBlock address block).node := by
  have hprevSound := hfaithful.sound.index.entries _ prev hprev
  have hdescribes := hfaithful.described _ prev hprev
  have hsums := tree.child_sums block hblock
  have hadds := hfaithful.adds hblock hnew hprev
  have hchain : (state.acceptBlock address block).node.chain = state.node.chain :=
    acceptBlock_chain hnew hprev
  have hentry : SoundEntry tree.sealHeight state.node.index
      (receivedEntry prev block state.nBlockSequenceId) := by
    have hsealBounded := hprevSound.sealBounded
    refine ⟨?_, tree.positive block hblock, hfaithful.bounded hblock hprev, ?_, ?_⟩
    · simp only [receivedEntry, prevChainWork, Option.bind_some, hprev]
    · simp only [receivedEntry]
      omega
    · intro _
      simp only [receivedEntry, prevSealWork, Option.bind_some, hprev]
  have hlisted : ∀ other ∈ (state.acceptBlock address block).node.candidates,
      other = block.hash ∨ other ∈ state.node.candidates := by
    intro other hother
    rcases (hfaithful.candidates hblock hnew hprev other).mp hother with hmem | ⟨heq, -⟩
    · exact Or.inr hmem
    · exact Or.inl heq
  refine ⟨hadds.soundNode hfaithful.sound rfl rfl hchain hlisted hentry, ?_, ?_, ?_⟩
  · intro other entry hother
    rcases hadds.cases hother with ⟨-, rfl⟩ | hother
    · rfl
    · exact hfaithful.usable other entry hother
  · intro other entry hother
    rcases hadds.cases hother with ⟨rfl, rfl⟩ | hother
    · refine ⟨?_, ?_, Or.inr ⟨block, hblock, rfl, rfl, rfl⟩⟩
      · rw [hsums.1, ← hdescribes.height]
        rfl
      · rw [hsums.2.1, ← hdescribes.work]
        rfl
    · exact hfaithful.described other entry hother
  · intro other hmem
    rw [hchain] at hmem
    rw [hadds.countedWork_known (hfaithful.sound.known other hmem)]
    exact hfaithful.exact other hmem

theorem Leading.acceptBlock {known : List Uint256} {tip : Uint256}
    (hleading : tree.Leading known state.node tip) (hconsistent : tree.Consistent state block) :
    tree.Offered known (state.acceptBlock address block).node tip block.hash := by
  have hadds := hfaithful.adds hblock hnew hprev
  have hchain : (state.acceptBlock address block).node.chain = state.node.chain :=
    acceptBlock_chain hnew hprev
  have htip : tip ∈ state.node.chain := mem_of_mem_head? hleading.active
  have hcandidates := hfaithful.candidates hblock hnew hprev
  have hkept : (state.acceptBlock address block).node.index.countedWork tip = tree.trueWork tip := by
    rw [hadds.countedWork_known (hfaithful.sound.known tip htip)]
    exact hfaithful.exact tip htip
  have hestimate : (state.acceptBlock address block).node.index.countedWork block.hash =
      state.node.index.countedWork block.hashPrevBlock + block.blockProof := by
    have hadded := hadds.lookup block.hash
    rw [if_pos rfl] at hadded
    rw [countedWork_eq hadded, countedWork_eq hprev]
    rfl
  obtain ⟨habove, hbelow⟩ := hconsistent tip hleading.active
  rw [hfaithful.exact tip htip, ← hestimate] at habove hbelow
  refine ⟨?_, ?_, ?_, hleading.best, ?_⟩
  · rw [ForkNode.tip, hchain]
    exact hleading.active
  · rw [hchain]
    intro hmem
    have hknown := hfaithful.sound.known block.hash hmem
    rw [hnew] at hknown
    cases hknown
  · intro hash hmem hne
    have hold := ((hcandidates hash).mp hmem).resolve_right (fun hblock => hne hblock.1)
    rw [LevelAt, hadds.countedWork_known (hfaithful.sound.listed hash hold)]
    exact hleading.level hash hold
  · rcases Nat.lt_or_ge (tree.trueWork tip) ((state.acceptBlock address block).node.index.countedWork
      block.hash) with hmore | hless
    · right
      refine ⟨(hcandidates _).mpr (Or.inr ⟨rfl, ?_⟩), hmore, habove hmore.le⟩
      intro other hother hworse
      rw [hleading.active] at hother
      cases hother
      have hle := countedWork_le_of_less hworse
      omega
    · left
      refine ⟨hbelow hless, ?_⟩
      intro hmem
      rcases (hcandidates _).mp hmem with hold | ⟨-, hnotWorse⟩
      · have hknown := hfaithful.sound.listed block.hash hold
        rw [hnew] at hknown
        cases hknown
      · have hge := countedWork_le_of_not_less (hnotWorse tip hleading.active)
        rw [hkept] at hge
        have hwork := habove hge
        have hwork' := hbelow hless
        exact ⟨by omega, by omega⟩

end

/-! ## Runs -/

/-- The node has received the known blocks and the rest is to come. -/
structure Following (tree : BlockTree) (address : Uint256 → Nat) (known : List Uint256)
    (rest : List TreeBlock) (state : ReceivingNode) : Prop where
  faithful : tree.Faithful address state.node
  index_iff : ∀ hash : Uint256, state.node.index[hash]?.isSome ↔ hash ∈ known
  blocks : ∀ block ∈ rest, block ∈ tree.blocks
  first : ParentsFirst known rest
  leading : ∃ tip, tree.Leading known state.node tip

variable {known : List Uint256} {rest : List TreeBlock} {fuel : Nat}

theorem Faithful.heightOf_le (hfaithful : tree.Faithful address node)
    (hfuel : ∀ hash ∈ tree.genesis :: tree.blocks.map TreeBlock.hash, tree.height hash + 3 ≤ fuel)
    (hash : Uint256) : node.index.heightOf hash + 3 ≤ fuel := by
  have hgenesis := hfuel tree.genesis mem_cons_self
  unfold heightOf
  split
  · omega
  · rename_i entry hentry
    have hdescribes := hfaithful.described hash entry hentry
    rw [hdescribes.height]
    rcases hdescribes.block with ⟨rfl, -⟩ | ⟨block, hblock, rfl, -⟩
    · exact hgenesis
    · exact hfuel block.hash (mem_cons_of_mem _ (mem_map_of_mem hblock))

theorem Following.processNewBlock
    (hfollowing : tree.Following address known (block :: rest) state)
    (hconsistent : tree.Consistent state block)
    (hfuel : ∀ hash ∈ tree.genesis :: tree.blocks.map TreeBlock.hash, tree.height hash + 3 ≤ fuel) :
    ∃ next, state.processNewBlock (tree.rules address) fuel block = some next ∧
      tree.Following address (block.hash :: known) rest next := by
  obtain ⟨hparent, hfresh, hfirst⟩ := hfollowing.first
  have hnew : state.node.index[block.hash]? = none := by
    rw [← Option.not_isSome_iff_eq_none, hfollowing.index_iff]
    exact hfresh
  obtain ⟨prev, hprev⟩ := Option.isSome_iff_exists.mp ((hfollowing.index_iff _).mpr hparent)
  have hblock := hfollowing.blocks block mem_cons_self
  have hadds := hfollowing.faithful.adds hblock hnew hprev
  have hfaithful := hfollowing.faithful.acceptBlock hblock hnew hprev
  obtain ⟨tip, hleading⟩ := hfollowing.leading
  have hoffered := hleading.acceptBlock hfollowing.faithful hblock hnew hprev hconsistent
  obtain ⟨final, hfinal⟩ := Option.isSome_iff_exists.mp
    (ForkNode.activateBestChain_isSome hfaithful.sound
      (fun _ _ => attemptBlocks_valid _ _) (hfaithful.heightOf_le hfuel))
  obtain ⟨hlast, hlinks, hlead⟩ := hoffered.reaches hfaithful
    (ForkNode.activateBestChain_reaches hfaithful.sound hfinal)
  refine ⟨{ state.acceptBlock address block with node := final.node }, ?_, hlast, ?_, ?_, hfirst,
    hlead⟩
  · simp only [ReceivingNode.processNewBlock]
    rw [show (tree.rules address).address = address from rfl, hfinal]
    rfl
  · intro hash
    rw [hlinks.isSome, hadds.lookup]
    split
    · rename_i heq
      simp [heq]
    · rename_i hne
      rw [hfollowing.index_iff, mem_cons]
      simp [Ne.symm hne]
  · intro other hother
    exact hfollowing.blocks other (mem_cons_of_mem block hother)

theorem Following.receiveAll (hfollowing : tree.Following address known rest state)
    (hconsistent : tree.ConsistentRun (tree.rules address) fuel state rest)
    (hfuel : ∀ hash ∈ tree.genesis :: tree.blocks.map TreeBlock.hash, tree.height hash + 3 ≤ fuel) :
    ∃ final tip, ReceivingNode.receiveAll (tree.rules address) fuel state rest = some final ∧
      final.node.tip = some tip ∧ tip ∈ tree.genesis :: tree.blocks.map TreeBlock.hash ∧
      ∀ hash, hash ∈ known ∨ hash ∈ rest.map TreeBlock.hash →
        tree.trueWork hash ≤ tree.trueWork tip := by
  induction rest generalizing known state with
  | nil =>
    obtain ⟨tip, hleading⟩ := hfollowing.leading
    refine ⟨state, tip, rfl, hleading.active, ?_, ?_⟩
    · have hknown := hfollowing.faithful.sound.known tip (mem_of_mem_head? hleading.active)
      obtain ⟨entry, hentry⟩ := Option.isSome_iff_exists.mp hknown
      rcases (hfollowing.faithful.described tip entry hentry).block with
        ⟨rfl, -⟩ | ⟨block, hblock, rfl, -⟩
      · exact mem_cons_self
      · exact mem_cons_of_mem _ (mem_map_of_mem hblock)
    · intro hash hmem
      exact hleading.best hash (hmem.resolve_right not_mem_nil)
  | cons block rest ih =>
    obtain ⟨hblock, hrest⟩ := hconsistent
    obtain ⟨next, hnext, hfollows⟩ := hfollowing.processNewBlock hblock hfuel
    obtain ⟨final, tip, hfinal, htip, hmem, hbest⟩ := ih hfollows (hrest next hnext)
    refine ⟨final, tip, ?_, htip, hmem, ?_⟩
    · rw [ReceivingNode.receiveAll, hnext]
      exact hfinal
    · intro hash hhash
      apply hbest
      rw [map_cons, mem_cons] at hhash
      rw [mem_cons]
      tauto

theorem start_lookup {entry : CBlockIndex} (hentry : tree.start.node.index[hash]? = some entry) :
    hash = tree.genesis ∧ entry.pprev = none ∧ entry.nHeight = 0 ∧
      entry.blockProof = tree.genesisProof ∧ entry.nChainWork = tree.genesisProof ∧
      entry.nChainSealWork = tree.genesisProof ∧ entry.unusable = false := by
  simp only [start] at hentry
  rw [getElem?_insert_eq] at hentry
  split at hentry
  · rename_i heq
    cases hentry
    exact ⟨heq.symm, rfl, rfl, rfl, rfl, rfl, rfl⟩
  · simp at hentry

theorem start_genesis : tree.start.node.index[tree.genesis]?.isSome := by
  simp only [start]
  rw [getElem?_insert_eq, if_pos rfl]
  rfl

theorem countedWork_start : tree.start.node.index.countedWork tree.genesis = tree.genesisProof := by
  obtain ⟨entry, hentry⟩ := Option.isSome_iff_exists.mp tree.start_genesis
  rw [countedWork_eq hentry]
  exact (start_lookup hentry).2.2.2.2.2.1

theorem faithful_start : tree.Faithful address tree.start.node := by
  have hbounded := tree.bounded tree.genesis mem_cons_self
  rw [tree.genesis_sums.2.1] at hbounded
  have hprev : tree.start.node.index.prevSealWork none = 0 := rfl
  refine ⟨⟨⟨?_, ?_⟩, ?_, ?_, ?_, ?_⟩, ?_, ?_, ?_⟩
  · intro hash entry hentry parent hparent
    rw [(start_lookup hentry).2.1] at hparent
    cases hparent
  · intro hash entry hentry
    obtain ⟨-, hpprev, -, hproof, hwork, hseal, -⟩ := start_lookup hentry
    refine ⟨?_, ?_, ?_, ?_, ?_⟩
    · rw [hwork, hpprev, hproof]
      exact (Nat.zero_add _).symm
    · rw [hproof]
      exact tree.genesis_positive
    · rw [hwork]
      exact hbounded
    · rw [hseal, hwork]
      exact Nat.le_mul_of_pos_left _ (by decide)
    · intro _
      rw [hseal, hpprev, hproof, hprev, Nat.zero_add]
  · intro hash hmem
    rw [mem_singleton.mp hmem]
    exact start_genesis
  · intro tip htip
    cases htip
    have hparent : tree.start.node.index.parentOf tree.genesis = none := by
      obtain ⟨entry, hentry⟩ := Option.isSome_iff_exists.mp tree.start_genesis
      rw [parentOf, hentry]
      exact (start_lookup hentry).2.1
    rw [ancestry, ancestryUpTo, hparent]
    rfl
  · intro hash hmem
    rw [mem_singleton.mp hmem]
    exact start_genesis
  · intro hash _ entry hentry
    rw [(start_lookup hentry).2.1]
    exact Nat.zero_le _
  · intro hash entry hentry
    exact (start_lookup hentry).2.2.2.2.2.2
  · intro hash entry hentry
    obtain ⟨rfl, hpprev, hheight, hproof, hwork, -⟩ := start_lookup hentry
    obtain ⟨hzero, hsum, -⟩ := tree.genesis_sums
    exact ⟨hheight.trans hzero.symm, hwork.trans hsum.symm, Or.inl ⟨rfl, hpprev, hproof⟩⟩
  · intro hash hmem
    rw [mem_singleton.mp hmem, countedWork_start]
    exact tree.genesis_sums.2.2.symm

variable {order : List TreeBlock}

theorem following_start (horder : tree.Order order) :
    tree.Following address [tree.genesis] order tree.start := by
  refine ⟨faithful_start, ?_, ?_, horder.parentsFirst, tree.genesis, rfl, ?_, ?_⟩
  · intro hash
    rw [mem_singleton]
    constructor
    · intro hknown
      obtain ⟨entry, hentry⟩ := Option.isSome_iff_exists.mp hknown
      exact (start_lookup hentry).1
    · rintro rfl
      exact start_genesis
  · intro block hblock
    exact horder.perm.subset hblock
  · intro hash hmem
    rw [mem_singleton.mp hmem]
    exact ⟨countedWork_start.trans tree.genesis_sums.2.2.symm, rfl⟩
  · intro hash hmem
    rw [mem_singleton.mp hmem]

/-- The block is the only one with the most seal-weighted work. -/
structure Heaviest (tree : BlockTree) (heaviest : Uint256) : Prop where
  known : heaviest ∈ tree.genesis :: tree.blocks.map TreeBlock.hash
  exceeds : ∀ hash ∈ tree.genesis :: tree.blocks.map TreeBlock.hash, hash ≠ heaviest →
    tree.trueWork hash < tree.trueWork heaviest

theorem Heaviest.reached {heaviest : Uint256} (hheaviest : tree.Heaviest heaviest)
    (horder : tree.Order order)
    (hconsistent : tree.ConsistentRun (tree.rules address) fuel tree.start order)
    (hfuel : ∀ hash ∈ tree.genesis :: tree.blocks.map TreeBlock.hash, tree.height hash + 3 ≤ fuel) :
    ∃ final, ReceivingNode.receiveAll (tree.rules address) fuel tree.start order = some final ∧
      final.node.tip = some heaviest := by
  obtain ⟨final, tip, hfinal, htip, hmem, hbest⟩ :=
    (following_start horder).receiveAll hconsistent hfuel
  refine ⟨final, hfinal, ?_⟩
  have hle : tree.trueWork heaviest ≤ tree.trueWork tip := by
    apply hbest
    rcases mem_cons.mp hheaviest.known with hgenesis | hblock
    · exact Or.inl (mem_singleton.mpr hgenesis)
    · exact Or.inr ((horder.perm.map TreeBlock.hash).mem_iff.mpr hblock)
  rw [htip]
  by_contra hne
  have hlt := hheaviest.exceeds tip hmem (fun heq => hne (congrArg some heq))
  omega

instance (kept estimate work : Nat) : Decidable (SameSide kept estimate work) :=
  inferInstanceAs (Decidable (_ ∧ _))

instance (tree : BlockTree) (state : ReceivingNode) (block : TreeBlock) :
    Decidable (tree.Consistent state block) :=
  inferInstanceAs (Decidable (∀ _ ∈ state.node.tip, _))

instance decidableConsistentRun (tree : BlockTree) (rules : ConnectRules Unit) (fuel : Nat) :
    ∀ state order, Decidable (tree.ConsistentRun rules fuel state order)
  | _, [] => .isTrue trivial
  | state, block :: rest =>
      have := fun next => decidableConsistentRun tree rules fuel next rest
      inferInstanceAs (Decidable (_ ∧ ∀ _ ∈ state.processNewBlock rules fuel block, _))

namespace Sample

def sealed : TreeBlock := ⟨2, 1, 300⟩

def rival : TreeBlock := ⟨3, 1, 300⟩

/-- Two blocks on the genesis block; the rival weighs as given. -/
def rivals (rivalWeight : Nat) : BlockTree where
  genesis := 1
  genesisProof := 300
  blocks := [sealed, rival]
  writeOf := fun hash => .weighed (if hash = 3 then rivalWeight else 15000)
  sealHeight := 1
  height := fun hash => if hash = 1 then 0 else 1
  work := fun hash => if hash = 1 then 300 else 600
  trueWork := fun hash =>
    if hash = 1 then 300 else if hash = 3 then 300 + weightedProof 300 rivalWeight else 750
  sealHeight_positive := by decide
  genesis_positive := by decide
  positive := by decide
  genesis_sums := ⟨rfl, rfl, rfl⟩
  child_sums := by
    rintro block (_ | ⟨_, _ | ⟨_, ⟨⟩⟩⟩)
    · refine ⟨rfl, rfl, ?_⟩
      change 750 = 300 + weightedProof 300 15000
      decide
    · exact ⟨rfl, rfl, rfl⟩
  bounded := by decide

end Sample

open BlockTree.Sample

end BlockTree

end Kerrigan.Validation
