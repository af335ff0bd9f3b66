import Kerrigan.Validation.Activation

/-!
# Receiving the blocks of a tree

A node receives valid blocks one after the other.  A block that was never connected counts with what
its parent counted when it arrived, plus its full proof; a connected block counts with its true
weight.  When a target is reached, the blocks of the active chain count with their true work, and
no candidate counts less than the tip.
-/

namespace Kerrigan.Validation

open Primitives Lib BlockMap ForkNode CBlockIndex

/-! ## Receiving blocks -/

/-- A block as the choice of the chain sees it. -/
structure TreeBlock where
  hash : Uint256
  hashPrevBlock : Uint256
  blockProof : Nat
  deriving DecidableEq

/-- The chain state with the counter of received blocks. -/
structure ReceivingNode where
  node : ForkNode Unit
  nBlockSequenceId : Nat

namespace ReceivingNode

def receivedBlockTransactions (address : Uint256 → Nat) (state : ReceivingNode) (hash : Uint256) :
    ReceivingNode :=
  let index := state.node.index.modifyEntry
    (fun entry => { entry with haveData := true, nSequenceId := state.nBlockSequenceId }) hash
  let worse := state.node.tip.any (fun tip => index.less address hash tip)
  { node :=
      { state.node with
        index := index
        candidates :=
          if !worse && !(index.entryOf hash).conflicting then hash :: state.node.candidates
          else state.node.candidates }
    nBlockSequenceId := state.nBlockSequenceId + 1 }

def acceptBlock (address : Uint256 → Nat) (state : ReceivingNode) (block : TreeBlock) :
    ReceivingNode :=
  let added := { state with
    node.index := state.node.index.addToBlockIndex block.hash block.hashPrevBlock block.blockProof }
  if (added.node.index.entryOf block.hash).haveData then added
  else added.receivedBlockTransactions address block.hash

def processNewBlock (rules : ConnectRules Unit) (fuel : Nat) (state : ReceivingNode)
    (block : TreeBlock) : Option ReceivingNode :=
  let accepted := state.acceptBlock rules.address block
  (accepted.node.activateBestChain rules fuel).map
    (fun final => { accepted with node := final.node })

def receiveAll (rules : ConnectRules Unit) (fuel : Nat) :
    ReceivingNode → List TreeBlock → Option ReceivingNode
  | state, [] => some state
  | state, block :: rest =>
      (state.processNewBlock rules fuel block).bind (fun next => receiveAll rules fuel next rest)

end ReceivingNode

/-! ## Trees of blocks -/

/-- A finite set of valid blocks above a genesis block.  `writeOf` is what `ConnectBlock` writes
for a block on its own branch; heights, work and seal-weighted work add up along the branches, and
the work is far from wrapping. -/
structure BlockTree where
  genesis : Uint256
  genesisProof : Nat
  blocks : List TreeBlock
  writeOf : Uint256 → SealWrite
  sealHeight : Nat
  height : Uint256 → Nat
  work : Uint256 → Nat
  trueWork : Uint256 → Nat
  sealHeight_positive : 0 < sealHeight
  genesis_positive : 0 < genesisProof
  positive : ∀ block ∈ blocks, 0 < block.blockProof
  genesis_sums : height genesis = 0 ∧ work genesis = genesisProof ∧ trueWork genesis = genesisProof
  child_sums : ∀ block ∈ blocks, height block.hash = height block.hashPrevBlock + 1 ∧
    work block.hash = work block.hashPrevBlock + block.blockProof ∧
    trueWork block.hash = trueWork block.hashPrevBlock +
      if height block.hash < sealHeight then block.blockProof
      else (writeOf block.hash).workOf block.blockProof
  bounded : ∀ hash ∈ genesis :: blocks.map TreeBlock.hash, work hash * 20000 < 2 ^ 256

def ParentsFirst : List Uint256 → List TreeBlock → Prop
  | _, [] => True
  | known, block :: rest =>
      block.hashPrevBlock ∈ known ∧ block.hash ∉ known ∧ ParentsFirst (block.hash :: known) rest

instance decidableParentsFirst : ∀ known order, Decidable (ParentsFirst known order)
  | _, [] => .isTrue trivial
  | known, block :: rest =>
      have := decidableParentsFirst (block.hash :: known) rest
      inferInstanceAs (Decidable (_ ∧ _ ∧ _))

def BlockMap.countedWork (index : BlockMap) (hash : Uint256) : Nat :=
  (index.entryOf hash).nChainSealWork

namespace BlockTree

def rules (tree : BlockTree) (address : Uint256 → Nat) : ConnectRules Unit where
  connectBlock := fun _ hash => (.connected (tree.writeOf hash), ())
  disconnectBlock := fun _ _ => ()
  sealHeight := tree.sealHeight
  address := address

def start (tree : BlockTree) : ReceivingNode where
  node :=
    { index := (∅ : BlockMap).insert tree.genesis
        { pprev := none, nHeight := 0, blockProof := tree.genesisProof
          nChainWork := tree.genesisProof, nChainSealWork := tree.genesisProof
          nSequenceId := 1, haveData := true }
      candidates := [tree.genesis]
      chain := [tree.genesis]
      stores := () }
  nBlockSequenceId := 2

structure Order (tree : BlockTree) (order : List TreeBlock) : Prop where
  perm : order.Perm tree.blocks
  parentsFirst : ParentsFirst [tree.genesis] order

/-! ## Nodes that follow the tree -/

/-- The entry is the one of a block of the tree, up to the weight. -/
structure Describes (tree : BlockTree) (hash : Uint256) (entry : CBlockIndex) : Prop where
  height : entry.nHeight = tree.height hash
  work : entry.nChainWork = tree.work hash
  block : (hash = tree.genesis ∧ entry.pprev = none ∧ entry.blockProof = tree.genesisProof) ∨
    ∃ block ∈ tree.blocks, block.hash = hash ∧ entry.pprev = some block.hashPrevBlock ∧
      entry.blockProof = block.blockProof

/-- The entries are blocks of the tree with all data, and along the active chain they count with
their true work. -/
structure Faithful (tree : BlockTree) (address : Uint256 → Nat) (node : ForkNode Unit) : Prop where
  sound : node.Sound (tree.rules address)
  usable : ∀ (hash : Uint256) entry, node.index[hash]? = some entry → entry.unusable = false
  described : ∀ (hash : Uint256) entry, node.index[hash]? = some entry → tree.Describes hash entry
  exact : ∀ hash ∈ node.chain, node.index.countedWork hash = tree.trueWork hash

variable {tree : BlockTree} {address : Uint256 → Nat} {node : ForkNode Unit}
  {hash target : Uint256} {index : BlockMap} {entry changed : CBlockIndex}

theorem Describes.congr (hdescribes : tree.Describes hash entry)
    (hfixed : changed.fixed = entry.fixed) : tree.Describes hash changed := by
  refine ⟨?_, ?_, ?_⟩
  · rw [nHeight_eq_of_fixed hfixed]
    exact hdescribes.height
  · rw [nChainWork_eq_of_fixed hfixed]
    exact hdescribes.work
  · rw [pprev_eq_of_fixed hfixed, blockProof_eq_of_fixed hfixed]
    exact hdescribes.block

theorem countedWork_eq (hentry : index[hash]? = some entry) :
    index.countedWork hash = entry.nChainSealWork := by
  rw [countedWork, entryOf, hentry]
  rfl

theorem countedWork_of_lookup {first second : BlockMap} (hsame : first[hash]? = second[hash]?) :
    first.countedWork hash = second.countedWork hash := by
  rw [countedWork, countedWork, entryOf, entryOf, hsame]

theorem countedWork_le_of_less {first second : Uint256} (hless : index.less address first second) :
    index.countedWork first ≤ index.countedWork second := by
  rw [less_iff] at hless
  exact (Prod.Lex.toLex_lt_toLex.mp hless).elim Nat.le_of_lt (fun hrest => hrest.1.le)

theorem countedWork_le_of_not_less {first second : Uint256}
    (hless : ¬ index.less address first second) :
    index.countedWork second ≤ index.countedWork first := by
  by_contra hlt
  rw [less_iff] at hless
  exact hless (Prod.Lex.toLex_lt_toLex.mpr (Or.inl (not_le.mp hlt)))

theorem countedWork_congr {first second : BlockMap} (hsame : first.SameWork second)
    (hash : Uint256) : first.countedWork hash = second.countedWork hash := by
  have hkey := hsame.keyOf id hash
  exact congrArg (fun key : WorkKey => (ofLex key).1) hkey

theorem Faithful.usable_known (hfaithful : tree.Faithful address node)
    (hknown : node.index[hash]?.isSome) : Usable node.index node.chain hash := by
  intro block hblock
  have hmem := ( List.takeWhile_prefix _).subset hblock
  obtain ⟨entry, hentry⟩ := Option.isSome_iff_exists.mp
    (isSome_of_mem_branchOf hfaithful.sound.index.closed hknown hmem)
  rw [entryOf, hentry]
  exact hfaithful.usable block entry hentry

theorem Faithful.givesUp {origin : ForkNode Unit} (hfaithful : tree.Faithful address origin)
    (hgives : node.GivesUp origin) : tree.Faithful address node := by
  refine ⟨hfaithful.sound.remark hgives.work hgives.chain hgives.listed, ?_, ?_, ?_⟩
  · intro hash entry hentry
    obtain ⟨old, hold, -⟩ := hgives.work.symm.lookup hentry
    have hknown : origin.index[hash]?.isSome := by
      rw [hold]
      rfl
    rw [← Bool.not_eq_true]
    intro hunusable
    have hbad : (node.index.entryOf hash).unusable = true := by
      rw [entryOf, hentry]
      exact hunusable
    rcases hgives.hopeless hash hbad with hold' | hhopeless
    · rw [entryOf, hold, Option.getD_some, hfaithful.usable hash old hold] at hold'
      cases hold'
    · exact (usable_iff_not_hopeless hfaithful.sound).mp
        (hfaithful.usable_known hknown) hhopeless
  · intro hash entry hentry
    obtain ⟨old, hold, hwork⟩ := hgives.work.symm.lookup hentry
    exact (hfaithful.described hash old hold).congr (congrArg Prod.fst hwork).symm
  · intro hash hmem
    rw [hgives.chain] at hmem
    rw [countedWork_congr hgives.work]
    exact hfaithful.exact hash hmem

/-! ## Attempts -/

theorem lookup_writeSeal {sealHeight : Nat} {other : Uint256} {write : SealWrite}
    (hchanged : (index.writeSeal sealHeight hash write)[other]? = some changed) :
    ∃ entry, index[other]? = some entry ∧ changed.fixed = entry.fixed ∧
      changed.unusable = entry.unusable := by
  obtain ⟨entry, hentry, hfixed⟩ :=
    (sameLinks_writeSeal index sealHeight hash write).symm.lookup hchanged
  have husable := unusable_writeSeal index sealHeight hash other write
  rw [entryOf, entryOf, hchanged, hentry] at husable
  exact ⟨entry, hentry, hfixed.symm, husable⟩

/-- A block connected to a faithful chain counts with its true work. -/
theorem Faithful.countedWork_written (hfaithful : tree.Faithful address node)
    (hbranch : IsBranch node.index.parentOf node.index.heightOf (hash :: node.chain))
    (hknown : node.index[hash]?.isSome) :
    (node.index.writeSeal tree.sealHeight hash (tree.writeOf hash)).countedWork hash =
      tree.trueWork hash := by
  obtain ⟨entry, hentry⟩ := Option.isSome_iff_exists.mp hknown
  have hdescribes := hfaithful.described hash entry hentry
  have hentrySound := hfaithful.sound.index.entries hash entry hentry
  have hheight : node.index.heightOf hash = tree.height hash := by
    rw [heightOf, hentry]
    exact hdescribes.height
  have hwritten : (node.index.writeSeal tree.sealHeight hash (tree.writeOf hash)).countedWork hash =
      node.index.prevSealWork entry.pprev + if tree.height hash < tree.sealHeight then
        entry.blockProof else (tree.writeOf hash).workOf entry.blockProof := by
    unfold BlockMap.writeSeal
    rw [hheight]
    split
    · rename_i hlow
      rw [← hdescribes.height] at hlow
      rw [countedWork_eq hentry, hentrySound.low hlow]
    · have hlookup := node.index.getElem?_modifyEntry (fun entry => entry.applyWrite
        (node.index.prevSealWork entry.pprev) (tree.writeOf hash)) hash hash
      rw [if_pos rfl, hentry, Option.map_some] at hlookup
      rw [countedWork_eq hlookup]
      exact hfaithful.sound.index.applyWrite hentrySound _
  rw [hwritten]
  rcases hdescribes.block with ⟨rfl, hnone, hproof⟩ | ⟨block, hblock, rfl, hpprev, hproof⟩
  · obtain ⟨hzero, -, htrue⟩ := tree.genesis_sums
    rw [hzero, if_pos tree.sealHeight_positive, hnone, hproof, htrue]
    exact Nat.zero_add _
  · have hchain := hbranch block.hash rfl
    have habove : node.index.parentOf block.hash = some block.hashPrevBlock := by
      rw [parentOf, hentry]
      exact hpprev
    rw [ancestry_eq hfaithful.sound.ranked, List.cons.injEq, habove] at hchain
    have hmem : block.hashPrevBlock ∈ node.chain := by
      rw [hchain.2]
      exact self_mem_ancestry block.hashPrevBlock
    obtain ⟨prev, hprev, -⟩ :=
      hfaithful.sound.index.closed block.hash entry hentry block.hashPrevBlock hpprev
    have hsum : node.index.prevSealWork entry.pprev = tree.trueWork block.hashPrevBlock := by
      rw [hpprev, prevSealWork, Option.bind_some, hprev,
        ← hfaithful.exact block.hashPrevBlock hmem, countedWork_eq hprev]
    rw [hsum, hproof, (tree.child_sums block hblock).2.2]

theorem Faithful.connected (hfaithful : tree.Faithful address node)
    (hbranch : IsBranch node.index.parentOf node.index.heightOf (hash :: node.chain))
    (hknown : node.index[hash]?.isSome) :
    tree.Faithful address (node.connected (tree.rules address) hash (tree.writeOf hash) ()) := by
  have hsound := (hfaithful.sound.connectTip hbranch hknown
    (tree.writeOf hash) ()).pruneBlockIndexCandidates
  refine ⟨hsound, ?_, ?_, ?_⟩
  · intro other changed hchanged
    obtain ⟨entry, hentry, -, husable⟩ := lookup_writeSeal hchanged
    rw [husable]
    exact hfaithful.usable other entry hentry
  · intro other changed hchanged
    obtain ⟨entry, hentry, hfixed, -⟩ := lookup_writeSeal hchanged
    exact (hfaithful.described other entry hentry).congr hfixed
  · intro other hmem
    rcases List.mem_cons.mp hmem with rfl | hmem
    · exact hfaithful.countedWork_written hbranch hknown
    · have hne : hash ≠ other := by
        rintro rfl
        exact (List.nodup_cons.mp (hbranch.nodup hfaithful.sound.ranked)).1 hmem
      rw [← hfaithful.exact other hmem]
      exact countedWork_of_lookup (getElem?_writeSeal_of_ne node.index _ _ hne)

theorem attemptBlocks_valid (blocks : List Uint256) (node : ForkNode Unit) :
    (node.attemptBlocks (tree.rules address) blocks).2 = false := by
  induction blocks generalizing node with
  | nil => rfl
  | cons hash rest ih => exact ih _

/-- After an attempt the blocks of the chain count with their true work.  Unless the target was
on the chain before, no candidate counts less than it. -/
theorem Faithful.attempt (hfaithful : tree.Faithful address node)
    (hknown : node.index[target]?.isSome) :
    let result := (node.attempt (tree.rules address) target).1
    tree.Faithful address result ∧
      (result = node.disconnectToFork (tree.rules address) target ∨
        ∀ hash ∈ result.candidates, ∀ tip ∈ result.tip,
          ¬ result.index.less address hash tip) := by
  have hvalid : (node.attempt (tree.rules address) target).2 = false := attemptBlocks_valid _ _
  constructor
  · refine attempt_induction hfaithful.sound hknown ?_ ?_ hvalid
    · refine ⟨hfaithful.sound.disconnectToFork target, hfaithful.usable, hfaithful.described, ?_⟩
      intro hash hmem
      exact hfaithful.exact hash ((node.keptChain_suffix target).subset hmem)
    · rintro next hash write ⟨⟩ - hnext hbranch hhash hconnect
      cases hconnect
      exact hnext.connected hbranch hhash
  · refine attempt_induction (motive := fun next =>
      next = node.disconnectToFork (tree.rules address) target ∨
        ∀ hash ∈ next.candidates, ∀ tip ∈ next.tip, ¬ next.index.less address hash tip)
      hfaithful.sound hknown (Or.inl rfl) ?_ hvalid
    intro next block write stores _ _ _ _ _
    right
    intro hash hmem tip htip
    cases htip
    rw [less_iff]
    exact (mem_connected_candidates.mp hmem).2

/-! ## The tip that leads -/

/-- The block counts and weighs as much as given. -/
def LevelAt (tree : BlockTree) (node : ForkNode Unit) (work : Nat) (hash : Uint256) : Prop :=
  node.index.countedWork hash = work ∧ tree.trueWork hash = work

/-- No known block is heavier than the tip, and every candidate is level with it. -/
structure Leading (tree : BlockTree) (known : List Uint256) (node : ForkNode Unit)
    (tip : Uint256) : Prop where
  active : node.tip = some tip
  level : ∀ hash ∈ node.candidates, tree.LevelAt node (tree.trueWork tip) hash
  best : ∀ hash ∈ known, tree.trueWork hash ≤ tree.trueWork tip

/-- The same when a new block has been stored: it is not heavier than the tip, or a candidate that
counts more and weighs no less. -/
structure Offered (tree : BlockTree) (known : List Uint256) (node : ForkNode Unit)
    (tip newest : Uint256) : Prop where
  active : node.tip = some tip
  new : newest ∉ node.chain
  level : ∀ hash ∈ node.candidates, hash ≠ newest → tree.LevelAt node (tree.trueWork tip) hash
  best : ∀ hash ∈ known, tree.trueWork hash ≤ tree.trueWork tip
  offer : (tree.trueWork newest ≤ tree.trueWork tip ∧ (newest ∈ node.candidates →
      tree.LevelAt node (tree.trueWork tip) newest)) ∨
    (newest ∈ node.candidates ∧ tree.trueWork tip < node.index.countedWork newest ∧
      tree.trueWork tip ≤ tree.trueWork newest)

variable {known : List Uint256} {tip newest : Uint256} {final : ForkNode Unit}

theorem Leading.givesUp {origin : ForkNode Unit} (hleading : tree.Leading known origin tip)
    (hgives : node.GivesUp origin) : tree.Leading known node tip := by
  refine ⟨hgives.tip.trans hleading.active, ?_, hleading.best⟩
  intro hash hmem
  rw [LevelAt, countedWork_congr hgives.work]
  exact hleading.level hash (hgives.listed hmem)

/-- The target is level with the tip, or it is the new block and counts more. -/
theorem Offered.target_cases (hoffered : tree.Offered known node tip newest)
    (hselected : Selected address node target) (hfaithful : tree.Faithful address node) :
    (tree.trueWork target = tree.trueWork tip ∧ tree.trueWork newest ≤ tree.trueWork tip ∧
      ∀ hash ∈ node.candidates, tree.LevelAt node (tree.trueWork tip) hash) ∨
    (target = newest ∧ tree.trueWork tip ≤ tree.trueWork newest) := by
  rcases hoffered.offer with ⟨hbelow, hlevel⟩ | ⟨hmem, hmore, hheavier⟩
  · have hall : ∀ hash ∈ node.candidates, tree.LevelAt node (tree.trueWork tip) hash := by
      intro hash hmem
      by_cases heq : hash = newest
      · rw [heq] at hmem ⊢
        exact hlevel hmem
      · exact hoffered.level hash hmem heq
    exact Or.inl ⟨(hall target hselected.listed).2, hbelow, hall⟩
  · right
    refine ⟨?_, hheavier⟩
    by_contra hne
    have husable := hfaithful.usable_known (hfaithful.sound.listed newest hmem)
    have hle := countedWork_le_of_not_less (hselected.unbeaten newest hmem husable)
    rw [(hoffered.level target hselected.listed hne).1] at hle
    omega

theorem Offered.attempt (hoffered : tree.Offered known node tip newest)
    (hselected : Selected address node target) (hfaithful : tree.Faithful address node) :
    tree.Leading (newest :: known) (node.attempt (tree.rules address) target).1 target := by
  have hknown := hfaithful.sound.listed target hselected.listed
  obtain ⟨hresult, hpruned⟩ := hfaithful.attempt hknown
  obtain ⟨hprogress, htip⟩ :=
    progress_attempt hfaithful.sound hknown (attemptBlocks_valid _ _)
  have hcases := hoffered.target_cases hselected hfaithful
  have hexact := hresult.exact target (List.mem_of_mem_head? htip)
  refine ⟨htip, ?_, ?_⟩
  · intro hash hmem
    rcases hpruned with heq | hpruned
    · have hchain : target ∈ node.chain := by
        rw [heq] at htip
        exact (node.keptChain_suffix target).subset (List.mem_of_mem_head? htip)
      rcases hcases with ⟨hwork, -, hall⟩ | ⟨rfl, -⟩
      · rw [heq] at hmem ⊢
        rw [hwork]
        exact hall hash hmem
      · exact absurd hchain hoffered.new
    · have hge := countedWork_le_of_not_less (hpruned hash hmem target htip)
      by_cases hbranch : hash ∈ node.index.branchOf target
      · rw [← hprogress.chain_eq hresult.sound htip] at hbranch
        have hle := countedWork_le_of_not_less (hresult.sound.not_less htip hbranch)
        have hown := hresult.exact hash hbranch
        exact ⟨by omega, by omega⟩
      · have hlisted := hprogress.selected hash hmem hbranch
        have hsame := countedWork_of_lookup (hprogress.outside hash hbranch)
        rcases hcases with ⟨hwork, -, hall⟩ | ⟨rfl, hheavier⟩
        · obtain ⟨hstored, htrue⟩ := hall hash hlisted
          exact ⟨by omega, by omega⟩
        · have hne : hash ≠ target := by
            rintro rfl
            exact hbranch (self_mem_ancestry hash)
          obtain ⟨hstored, htrue⟩ := hoffered.level hash hlisted hne
          exact ⟨by omega, by omega⟩
  · intro hash hmem
    rcases List.mem_cons.mp hmem with rfl | hmem
    · rcases hcases with ⟨hwork, hbelow, -⟩ | ⟨rfl, -⟩
      · omega
      · exact Nat.le_refl _
    · have hbest := hoffered.best hash hmem
      rcases hcases with ⟨hwork, -, -⟩ | ⟨rfl, hheavier⟩
      · omega
      · omega

/-- Where a call ends, the tip leads again. -/
theorem Offered.reaches (hoffered : tree.Offered known node tip newest)
    (hfaithful : tree.Faithful address node)
    (hreaches : Reaches (tree.rules address) node final) :
    tree.Faithful address final ∧ SameLinks final.index node.index ∧
      ∃ next, tree.Leading (newest :: known) final next := by
  obtain ⟨selection, hsettles, hend⟩ := hreaches
  generalize hfinal : final.tip = finalTip at hsettles hend
  cases hsettles with
  | stays hnone =>
    have hempty : node.candidates = [] := by
      refine List.eq_nil_iff_forall_not_mem.mpr ?_
      intro hash hmem
      exact hnone hash hmem (hfaithful.usable_known (hfaithful.sound.listed hash hmem))
    obtain ⟨-, hgives⟩ := hend tip hoffered.active
    rw [attempt_tip hfaithful.sound hoffered.active] at hgives
    refine ⟨hfaithful.givesUp hgives, hgives.work.links, tip,
      Leading.givesUp ⟨hoffered.active, ?_, ?_⟩ hgives⟩
    · intro hash hmem
      rw [hempty] at hmem
      cases hmem
    · intro hash hmem
      rcases List.mem_cons.mp hmem with rfl | hmem
      · rcases hoffered.offer with ⟨hbelow, -⟩ | ⟨hlisted, -⟩
        · exact hbelow
        · rw [hempty] at hlisted
          cases hlisted
      · exact hoffered.best hash hmem
  | reached hselected _ =>
    obtain ⟨-, hgives⟩ := hend _ rfl
    have hknown := hfaithful.sound.listed _ hselected.listed
    exact ⟨(hfaithful.attempt hknown).1.givesUp hgives,
      hgives.work.links.trans (hfaithful.sound.attempt hknown).2, _,
      (hoffered.attempt hselected hfaithful).givesUp hgives⟩
  | failed _ hinvalid _ =>
    rw [ForkNode.attempt, attemptBlocks_valid] at hinvalid
    cases hinvalid

end BlockTree

end Kerrigan.Validation
