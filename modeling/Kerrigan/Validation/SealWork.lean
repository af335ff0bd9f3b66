import Kerrigan.HMP.ConnectBlock
import Kerrigan.Validation.BlockIndex

/-!
# Seal work over time

A node adds headers to its block index, connects and disconnects blocks, writes changed
entries to disk and starts again from what is on disk.  `ConnectBlock` writes the weight of a
block and its sum of seal-weighted work; an entry is written to disk when it is marked as
changed, which `ConnectBlock` does only the first time.
-/

namespace Kerrigan.Validation

open Primitives Consensus Lib HMP BlockMap List CBlockIndex

/-! ## The node -/

structure IndexNode where
  /-- The active chain and the trackers. -/
  hmp : HMPNode
  index : BlockMap
  dirty : List Uint256
  disk : BlockMap

inductive IndexAction where
  | header (hash hashPrevBlock : Uint256) (blockProof : Nat)
  | connect (block : HMPBlock) (othersPass : Bool)
  | disconnect
  | flush
  | restart

/-- What `ConnectBlock` writes into the entry of a block. -/
def CBlockIndex.weigh (entry : CBlockIndex) (verdict : HMPVerdict) (prevSealWork : Nat) :
    CBlockIndex :=
  match verdict.nSealWeight with
  | none => entry
  | some weight =>
      { entry with
        nSealWeight := weight
        nChainSealWork := addWork prevSealWork
          (if verdict.seals then weightedProof entry.blockProof weight else entry.blockProof) }

namespace IndexNode

def start (genesis : HMPBlock) (blockProof : Nat) : IndexNode where
  hmp := .start genesis
  index := addToBlockIndex ∅ genesis.hash 0 blockProof
  dirty := [genesis.hash]
  disk := ∅

def writeBlockIndexDB (node : IndexNode) : IndexNode :=
  { node with
    disk := node.dirty.foldl (fun disk hash =>
      match node.index[hash]? with
      | none => disk
      | some entry => disk.insert hash entry) node.disk
    dirty := [] }

section Steps

variable (params : Params) (oracles : Oracles) (node : IndexNode) (block : HMPBlock)

def restart : IndexNode where
  hmp := hmpStep params oracles node.hmp .restart
  index := node.writeBlockIndexDB.disk.loadBlockIndex
  dirty := []
  disk := node.writeBlockIndexDB.disk

def acceptHeader (hash hashPrevBlock : Uint256) (blockProof : Nat) : IndexNode :=
  if node.index[hashPrevBlock]?.isSome ∧ node.index[hash]?.isNone then
    { node with
      index := node.index.addToBlockIndex hash hashPrevBlock blockProof
      dirty := hash :: node.dirty }
  else node

def verdict : HMPVerdict :=
  (node.hmp.state.prepare params oracles node.hmp.chain).verdict params oracles block
    node.hmp.chain

def connectEntry (othersPass : Bool) (entry : CBlockIndex) : IndexNode :=
  let hmp := hmpStep params oracles node.hmp (.connect block othersPass)
  let weighed := entry.weigh (node.verdict params oracles block)
    (node.index.prevSealWork entry.pprev)
  match checkCoinbase params oracles (node.hmp.chain.height + 1) block.coinbase,
      checkBlock params oracles block node.hmp.chain, othersPass with
  | .ok (), .ok (), true =>
      { node with
        hmp := hmp
        index := node.index.insert block.hash { weighed with validScripts := true }
        dirty := if entry.validScripts then node.dirty else block.hash :: node.dirty }
  | .ok (), .ok (), false =>
      { node with
        hmp := hmp
        index := node.index.insert block.hash { weighed with failed := true }
        dirty := block.hash :: node.dirty }
  | _, _, _ =>
      { node with
        hmp := hmp
        index := node.index.insert block.hash { entry with failed := true }
        dirty := block.hash :: node.dirty }

def connect (othersPass : Bool) : IndexNode :=
  match node.index[block.hash]? with
  | none => node
  | some entry =>
      if entry.pprev = node.hmp.chain.tipHash ∧ entry.failed = false then
        node.connectEntry params oracles block othersPass entry
      else node

def step : IndexAction → IndexNode
  | .header hash hashPrevBlock blockProof => node.acceptHeader hash hashPrevBlock blockProof
  | .connect block othersPass => node.connect params oracles block othersPass
  | .disconnect => { node with hmp := hmpStep params oracles node.hmp .disconnect }
  | .flush => node.writeBlockIndexDB
  | .restart => node.restart params oracles

end Steps

end IndexNode

open IndexNode

/-! ## Exactness -/

variable (index : BlockMap)

/-- The sum of an entry is the sum of its parent and its own weighted proof. -/
def BlockMap.ExactAt (entry : CBlockIndex) : Prop :=
  entry.nChainSealWork = addWork (index.prevSealWork entry.pprev)
    (weightedProof entry.blockProof entry.nSealWeight)

def BlockMap.sealWorkOf (hash : Uint256) : Option Nat :=
  index[hash]?.map nChainSealWork

theorem BlockMap.prevSealWork_eq (pprev : Option Uint256) :
    index.prevSealWork pprev = (pprev.bind index.sealWorkOf).getD 0 := by
  cases pprev with
  | none => rfl
  | some hash =>
    simp only [prevSealWork, sealWorkOf, Option.bind_some]
    cases index[hash]? <;> rfl

/-- The sums of the active chain are exact, and a restart leaves them as they are. -/
structure SealWorkExact (params : Params) (oracles : Oracles) (node : IndexNode) : Prop where
  exact : ∀ block ∈ node.hmp.chain, ∃ entry, node.index[block.hash]? = some entry ∧
    node.index.ExactAt entry
  restart : ∀ block ∈ node.hmp.chain,
    (node.restart params oracles).index.sealWorkOf block.hash = node.index.sealWorkOf block.hash

/-- The proof of a new header counts without overflow; and a block that is connected again,
with an entry that is not going to be written, gets the weight that is on disk, up to the
rounding of its weighted proof. -/
def Admits (params : Params) (oracles : Oracles) (node : IndexNode) : IndexAction → Prop
  | .header _ _ blockProof => blockProof * 10000 < 2 ^ 256
  | .connect block true =>
      ∀ entry ∈ node.index[block.hash]?, entry.validScripts → block.hash ∉ node.dirty →
        ∀ weight ∈ (node.verdict params oracles block).nSealWeight,
        ∀ stored ∈ node.disk[block.hash]?,
          weightedProof entry.blockProof stored.nSealWeight =
            weightedProof entry.blockProof weight
  | _ => True

/-! ## What the verdict writes -/

def Sealable (params : Params) (height : Int) : Prop :=
  params.V20Height ≤ height ∧ params.IsHMPActive height

variable {params : Params} {oracles : Oracles} {registry : CHMPCommitmentRegistry}
  {tracker : CHMPPrivilegeTracker} {block : HMPBlock} {parent : Chain}

theorem Sealable.mono {height later : Int} (hsealable : Sealable params height)
    (hle : height ≤ later) : Sealable params later :=
  ⟨Int.le_trans hsealable.1 hle, Int.le_trans hsealable.2 hle⟩

theorem checkCoinbase_payload {height : Int}
    (hcoinbase : checkCoinbase params oracles height block.coinbase = .ok ()) :
    (∃ payload, block.coinbase = .special payload) →
      (block.hmpPayload.isSome ↔ Sealable params height) := by
  rintro ⟨payload, hspecial⟩
  rw [hspecial] at hcoinbase
  cases payload with
  | none => cases hcoinbase
  | some cbTx =>
    simp only [checkCoinbase, checkCbTx, bind_eq_ok_iff, require_eq_ok_iff] at hcoinbase
    obtain ⟨-, -, -, -, -, hversion, -⟩ := hcoinbase
    unfold Sealable
    rw [hversion]
    simp only [HMPBlock.hmpPayload, hspecial]
    split
    · rename_i hseal
      simp [hseal]
    · rename_i hseal
      simp [hseal]

theorem blockVerdict_neutral {weight : Nat}
    (hseals : (blockVerdict params oracles registry tracker block parent).seals = false)
    (hweight : (blockVerdict params oracles registry tracker block parent).nSealWeight =
      some weight) : weight = 10000 := by
  unfold blockVerdict at hseals hweight
  split at hweight
  · cases hweight
  · rename_i hactive
    rw [if_neg hactive] at hseals
    split at hweight
    · cases hweight
      rfl
    · rename_i hfirst
      rw [if_neg hfirst] at hseals
      cases hcoinbase : block.coinbase with
      | other =>
        rw [hcoinbase] at hweight
        cases hweight
        rfl
      | special payload =>
        rw [hcoinbase] at hweight hseals
        cases hpayload : block.hmpPayload with
        | none =>
          rw [hpayload] at hweight
          cases hweight
        | some cbTx =>
          rw [hpayload] at hweight hseals
          simp only [payloadVerdict] at hweight hseals
          split at hweight
          · cases hweight
            rfl
          · rename_i hstage
            rw [if_neg hstage] at hseals
            cases hseals

section

variable (hcoinbase : checkCoinbase params oracles (parent.height + 1) block.coinbase = .ok ())

include hcoinbase

theorem blockVerdict_seals_of_not_sealable (hlow : ¬ Sealable params (parent.height + 1)) :
    (blockVerdict params oracles registry tracker block parent).seals = false := by
  rw [Bool.eq_false_iff, Ne, blockVerdict_seals_iff]
  rintro ⟨-, -, hpayload⟩
  have hspecial : ∃ payload, block.coinbase = .special payload := by
    unfold HMPBlock.hmpPayload at hpayload
    split at hpayload
    · exact ⟨_, ‹_›⟩
    · cases hpayload
  exact hlow ((checkCoinbase_payload hcoinbase hspecial).mp hpayload)

theorem not_sealable_of_unwritten
    (hweight : (blockVerdict params oracles registry tracker block parent).nSealWeight = none) :
    ¬ Sealable params (parent.height + 1) := by
  intro hsealable
  unfold blockVerdict at hweight
  rw [if_neg (not_not.mpr hsealable.2)] at hweight
  split at hweight
  · cases hweight
  · cases hspecial : block.coinbase with
    | other =>
      rw [hspecial] at hweight
      cases hweight
    | special payload =>
      have hpayload := (checkCoinbase_payload hcoinbase ⟨payload, hspecial⟩).mpr hsealable
      obtain ⟨cbTx, hcbTx⟩ := Option.isSome_iff_exists.mp hpayload
      rw [hspecial, hcbTx] at hweight
      simp only [payloadVerdict] at hweight
      split at hweight
      · cases hweight
      · cases hweight

end

/-! ## The invariant -/

/-- The entries have the same parent, height and proof. -/
structure SameHeader (first second : CBlockIndex) : Prop where
  pprev : first.pprev = second.pprev
  nHeight : first.nHeight = second.nHeight
  blockProof : first.blockProof = second.blockProof

namespace SameHeader

variable {first second third : CBlockIndex}

theorem refl (entry : CBlockIndex) : SameHeader entry entry := ⟨rfl, rfl, rfl⟩

theorem symm (h : SameHeader first second) : SameHeader second first :=
  ⟨h.pprev.symm, h.nHeight.symm, h.blockProof.symm⟩

theorem trans (h : SameHeader first second) (hnext : SameHeader second third) :
    SameHeader first third :=
  ⟨h.pprev.trans hnext.pprev, h.nHeight.trans hnext.nHeight, h.blockProof.trans hnext.blockProof⟩

end SameHeader

theorem BlockMap.ParentClosed.of_sameHeader {index next : BlockMap} (hclosed : index.ParentClosed)
    (hsame : ∀ (hash : Uint256) entry, index[hash]? = some entry →
      ∃ other, next[hash]? = some other ∧ SameHeader other entry)
    (honly : ∀ (hash : Uint256) other, next[hash]? = some other →
      ∃ entry, index[hash]? = some entry ∧ SameHeader other entry) : next.ParentClosed := by
  intro hash other hother parent hparent
  obtain ⟨entry, hentry, hheader⟩ := honly hash other hother
  rw [hheader.pprev] at hparent
  obtain ⟨prev, hprev, hheight⟩ := hclosed hash entry hentry parent hparent
  obtain ⟨present, hpresent, hpresentHeader⟩ := hsame parent prev hprev
  exact ⟨present, hpresent, by rw [hheader.nHeight, hheight, hpresentHeader.nHeight]⟩

def Linked (index : BlockMap) : Chain → Prop
  | [] => True
  | block :: parent =>
      (∃ entry, index[block.hash]? = some entry ∧ entry.pprev = Chain.tipHash parent ∧
        entry.nHeight = parent.length) ∧ Linked index parent

variable {index} {next : BlockMap} {chain : Chain} {entry : CBlockIndex}

theorem Linked.lookup (hlinked : Linked index chain) (hblock : block ∈ chain) :
    ∃ entry, index[block.hash]? = some entry ∧ entry.nHeight < chain.length ∧
      ∀ hash ∈ entry.pprev, ∃ other ∈ chain, other.hash = hash := by
  induction chain with
  | nil => cases hblock
  | cons tip parent ih =>
    obtain ⟨⟨found, hfound, hprev, hheight⟩, hrest⟩ := hlinked
    rcases mem_cons.mp hblock with rfl | hparent
    · refine ⟨found, hfound, by rw [hheight, length_cons]; omega, ?_⟩
      intro hash hhash
      rw [hprev] at hhash
      cases parent with
      | nil => cases hhash
      | cons older rest =>
        refine ⟨older, mem_cons_of_mem _ mem_cons_self, ?_⟩
        simpa [Chain.tipHash] using hhash
    · obtain ⟨other, hother, hlower, hlink⟩ := ih hrest hparent
      refine ⟨other, hother, by rw [length_cons]; omega, ?_⟩
      intro hash hhash
      obtain ⟨older, holder, heq⟩ := hlink hash hhash
      exact ⟨older, mem_cons_of_mem _ holder, heq⟩

theorem Linked.congr (hlinked : Linked index chain)
    (hsame : ∀ (hash : Uint256) entry, index[hash]? = some entry →
      ∃ other, next[hash]? = some other ∧ SameHeader other entry) : Linked next chain := by
  induction chain with
  | nil => trivial
  | cons tip parent ih =>
    obtain ⟨⟨found, hfound, hprev, hheight⟩, hrest⟩ := hlinked
    obtain ⟨other, hother, hheader⟩ := hsame _ _ hfound
    exact ⟨⟨other, hother, hheader.pprev.trans hprev, hheader.nHeight.trans hheight⟩,
      ih hrest⟩

theorem Linked.child_notMem (hlinked : Linked index chain) (hentry : index[block.hash]? = some entry)
    (hheight : entry.nHeight = chain.length) : ∀ other ∈ chain, other.hash ≠ block.hash := by
  intro other hother heq
  obtain ⟨found, hfound, hlower, -⟩ := hlinked.lookup hother
  rw [heq, hentry] at hfound
  cases hfound
  omega

theorem BlockMap.prevSealWork_insert (hash : Uint256) (entry : CBlockIndex) (pprev : Option Uint256) :
    prevSealWork (index.insert hash entry) pprev =
      if pprev = some hash then entry.nChainSealWork else index.prevSealWork pprev := by
  cases pprev with
  | none => rfl
  | some parent =>
    simp only [prevSealWork, Option.bind_some, getElem?_insert_eq, Option.some_inj]
    by_cases hparent : parent = hash
    · simp [hparent]
    · simp [hparent, Ne.symm hparent]

variable {hash : Uint256} {changed : CBlockIndex}

theorem BlockMap.ExactAt.insert (hexact : index.ExactAt entry) (hparent : entry.pprev ≠ some hash) :
    ExactAt (index.insert hash changed) entry := by
  unfold ExactAt
  rw [prevSealWork_insert, if_neg hparent]
  exact hexact

theorem BlockMap.lookup_insert_sameHeader (hentry : index[hash]? = some entry)
    (hheader : SameHeader changed entry) {found : Uint256} {other : CBlockIndex}
    (hother : index[found]? = some other) :
    ∃ present, (index.insert hash changed)[found]? = some present ∧ SameHeader present other := by
  rw [getElem?_insert_eq]
  split
  · rename_i hhash
    rw [← hhash, hentry] at hother
    cases hother
    exact ⟨changed, rfl, hheader⟩
  · exact ⟨other, hother, SameHeader.refl other⟩

theorem BlockMap.sameHeader_of_lookup_insert (hentry : index[hash]? = some entry)
    (hheader : SameHeader changed entry) {found : Uint256} {present : CBlockIndex}
    (hpresent : (index.insert hash changed)[found]? = some present) :
    ∃ other, index[found]? = some other ∧ SameHeader present other := by
  rcases getElem?_insert_cases hpresent with ⟨rfl, rfl⟩ | ⟨-, hpresent⟩
  · exact ⟨entry, hentry, hheader⟩
  · exact ⟨present, hpresent, SameHeader.refl present⟩

theorem BlockMap.newEntry_exactAt (hashPrevBlock : Uint256) (blockProof : Nat) :
    index.ExactAt (index.newEntry hashPrevBlock blockProof) :=
  rfl

theorem BlockMap.ExactAt.congr {index next : BlockMap} {entry : CBlockIndex}
    (hexact : index.ExactAt entry)
    (hsum : next.prevSealWork entry.pprev = index.prevSealWork entry.pprev) :
    next.ExactAt entry := by
  unfold ExactAt
  rw [hsum]
  exact hexact

/-- What holds of the index, of what is on disk and of the active chain. -/
structure IndexInvariant (params : Params) (node : IndexNode) : Prop where
  closed : node.index.ParentClosed
  linked : Linked node.index node.hmp.chain
  nonempty : node.hmp.chain ≠ []
  kept : ∀ (hash : Uint256) entry, node.index[hash]? = some entry → hash ∉ node.dirty →
    ∃ stored, node.disk[hash]? = some stored ∧ SameHeader stored entry
  known : ∀ (hash : Uint256) stored, node.disk[hash]? = some stored →
    ∃ entry, node.index[hash]? = some entry ∧ SameHeader stored entry
  bounded : ∀ (hash : Uint256) entry, node.index[hash]? = some entry → entry.pprev ≠ none →
    entry.blockProof * 10000 < 2 ^ 256
  low : ∀ (hash : Uint256) entry, node.index[hash]? = some entry →
    ¬ Sealable params entry.nHeight → entry.nSealWeight = 10000 ∧ node.index.ExactAt entry
  lowStored : ∀ (hash : Uint256) stored, node.disk[hash]? = some stored →
    ¬ Sealable params stored.nHeight → stored.nSealWeight = 10000
  exact : ∀ block ∈ node.hmp.chain, ∀ entry, node.index[block.hash]? = some entry →
    node.index.ExactAt entry
  persisted : ∀ block ∈ node.hmp.chain, block.hash ∉ node.dirty → ∀ entry stored,
    node.index[block.hash]? = some entry → node.disk[block.hash]? = some stored →
      weightedProof entry.blockProof stored.nSealWeight =
        weightedProof entry.blockProof entry.nSealWeight

namespace IndexInvariant

variable {node : IndexNode}

theorem start (params : Params) (genesis : HMPBlock) (blockProof : Nat) :
    IndexInvariant params (.start genesis blockProof) := by
  have hindex : ∀ (hash : Uint256) entry,
      (IndexNode.start genesis blockProof).index[hash]? = some entry →
        hash = genesis.hash ∧ entry = BlockMap.newEntry ∅ 0 blockProof := by
    intro hash entry hentry
    simp only [IndexNode.start, BlockMap.addToBlockIndex] at hentry
    rw [if_neg (by simp), getElem?_insert_eq] at hentry
    split at hentry
    · rename_i hhash
      cases hentry
      exact ⟨hhash.symm, rfl⟩
    · simp at hentry
  have hgenesis : (IndexNode.start genesis blockProof).index[genesis.hash]? =
      some (BlockMap.newEntry ∅ 0 blockProof) := by
    simp only [IndexNode.start, BlockMap.addToBlockIndex]
    rw [if_neg (by simp), getElem?_insert_eq, if_pos rfl]
  have hprev : (BlockMap.newEntry ∅ 0 blockProof).pprev = none := by
    simp [BlockMap.newEntry, BlockMap.sumWork]
  have hexact : (IndexNode.start genesis blockProof).index.ExactAt
      (BlockMap.newEntry ∅ 0 blockProof) := by
    unfold BlockMap.ExactAt
    simp [BlockMap.newEntry, BlockMap.sumWork, BlockMap.prevSealWork]
  refine ⟨?_, ?_, ?_, ?_, ?_, ?_, ?_, ?_, ?_, ?_⟩
  · intro hash entry hentry parent hparent
    rw [(hindex hash entry hentry).2, hprev] at hparent
    cases hparent
  · refine ⟨⟨_, hgenesis, hprev, ?_⟩, trivial⟩
    simp [BlockMap.newEntry, BlockMap.sumWork]
  · simp [IndexNode.start, HMPNode.start]
  · intro hash entry hentry hdirty
    exact absurd (by simp [IndexNode.start, (hindex hash entry hentry).1]) hdirty
  · intro hash stored hstored
    simp [IndexNode.start] at hstored
  · intro hash entry hentry hparent
    rw [(hindex hash entry hentry).2] at hparent
    exact absurd hprev hparent
  · intro hash entry hentry _
    rw [(hindex hash entry hentry).2]
    exact ⟨by simp [BlockMap.newEntry, BlockMap.sumWork], hexact⟩
  · intro hash stored hstored
    simp [IndexNode.start] at hstored
  · intro block _ entry hentry
    rw [(hindex block.hash entry hentry).2]
    exact hexact
  · intro block _ _ entry stored _ hstored
    simp [IndexNode.start] at hstored

/-! ## Headers and rejected blocks -/

theorem header (hinv : IndexInvariant params node) (hash hashPrevBlock : Uint256)
    {blockProof : Nat} (hproof : blockProof * 10000 < 2 ^ 256) :
    IndexInvariant params (node.acceptHeader hash hashPrevBlock blockProof) := by
  unfold acceptHeader
  split
  case isFalse => exact hinv
  case isTrue hadd =>
    obtain ⟨hparent, hnew⟩ := hadd
    obtain ⟨prev, hprev⟩ := Option.isSome_iff_exists.mp hparent
    have hadds := adds_addToBlockIndex (Option.isNone_iff_eq_none.mp hnew) hprev blockProof
    obtain ⟨-, -, hnewProof, hnewWeight⟩ := newEntry_child hprev blockProof
    have hold : ∀ (found : Uint256) entry, node.index[found]? = some entry →
        (node.index.addToBlockIndex hash hashPrevBlock blockProof)[found]? = some entry := by
      intro found entry hentry
      rw [hadds.lookup_known (by rw [hentry]; rfl), hentry]
    have hexact : ∀ entry : CBlockIndex,
        (∀ parent ∈ entry.pprev, ∃ prev, node.index[parent]? = some prev ∧
          entry.nHeight = prev.nHeight + 1) → node.index.ExactAt entry →
        (node.index.addToBlockIndex hash hashPrevBlock blockProof).ExactAt entry := by
      intro entry hlinked hentry
      refine hentry.congr (hadds.prevWork ?_).2
      intro parent hmem
      obtain ⟨known, hknown, -⟩ := hlinked parent hmem
      rw [hknown]
      rfl
    refine ⟨hadds.closed hinv.closed, ?_, hinv.nonempty, ?_, ?_, ?_, ?_, hinv.lowStored, ?_, ?_⟩
    · exact hinv.linked.congr fun found entry hentry =>
        ⟨entry, hold found entry hentry, SameHeader.refl entry⟩
    · intro found entry hentry hclean
      rcases hadds.cases hentry with ⟨rfl, -⟩ | hentry
      · exact absurd mem_cons_self hclean
      · exact hinv.kept found entry hentry fun hmem => hclean (mem_cons_of_mem _ hmem)
    · intro found stored hstored
      obtain ⟨entry, hentry, hsame⟩ := hinv.known found stored hstored
      exact ⟨entry, hold found entry hentry, hsame⟩
    · intro found entry hentry hprevious
      rcases hadds.cases hentry with ⟨-, rfl⟩ | hentry
      · rw [hnewProof]
        exact hproof
      · exact hinv.bounded found entry hentry hprevious
    · intro found entry hentry hlow
      rcases hadds.cases hentry with ⟨-, rfl⟩ | hentry
      · exact ⟨hnewWeight, hexact _ hadds.linked (newEntry_exactAt _ _)⟩
      · obtain ⟨hneutral, hsumExact⟩ := hinv.low found entry hentry hlow
        exact ⟨hneutral, hexact entry (hinv.closed found entry hentry) hsumExact⟩
    · intro block hblock entry hentry
      obtain ⟨known, hknown, -⟩ := hinv.linked.lookup hblock
      rw [hold _ _ hknown] at hentry
      cases hentry
      exact hexact _ (hinv.closed _ _ hknown) (hinv.exact block hblock _ hknown)
    · intro block hblock hclean entry stored hentry hstored
      obtain ⟨known, hknown, -⟩ := hinv.linked.lookup hblock
      rw [hold _ _ hknown] at hentry
      cases hentry
      exact hinv.persisted block hblock (fun hmem => hclean (mem_cons_of_mem _ hmem)) _
        stored hknown hstored

/-- Where coinbases carry no Hivemind data, the sums of parents stay when one entry changes and
keeps its sum there. -/
theorem low_prevSealWork_insert (hinv : IndexInvariant params node) {found : Uint256}
    {changed other : CBlockIndex} (hentry : node.index[hash]? = some entry)
    (hlow : ¬ Sealable params entry.nHeight → changed.nChainSealWork = entry.nChainSealWork)
    (hotherLow : ¬ Sealable params other.nHeight) (hother : node.index[found]? = some other) :
    prevSealWork (node.index.insert hash changed) other.pprev =
      node.index.prevSealWork other.pprev := by
  rw [prevSealWork_insert]
  split
  · rename_i hchild
    obtain ⟨prev, hprev, hheight⟩ := hinv.closed found other hother hash hchild
    rw [hentry] at hprev
    cases hprev
    have hentryLow : ¬ Sealable params entry.nHeight := fun hsealable =>
      hotherLow (hsealable.mono (by omega))
    rw [hlow hentryLow, hchild]
    simp [prevSealWork, hentry]
  · rfl

/-- Another entry for a block that is not on the active chain, with the same header and, where
coinbases carry no Hivemind data, with the same sum. -/
theorem replace (hinv : IndexInvariant params node) {changed : CBlockIndex}
    (hentry : node.index[hash]? = some entry) (hheader : SameHeader changed entry)
    (hoff : ∀ block ∈ node.hmp.chain, block.hash ≠ hash) (hlow : ¬ Sealable params entry.nHeight →
      changed.nSealWeight = 10000 ∧ changed.nChainSealWork = entry.nChainSealWork) {hmp : HMPNode}
    (hchain : hmp.chain = node.hmp.chain) {dirty : List Uint256}
    (hdirty : ∀ other ∈ node.dirty, other ∈ dirty) :
    IndexInvariant params
      { node with hmp := hmp, index := node.index.insert hash changed, dirty := dirty } := by
  have hold := fun (found : Uint256) other (hother : node.index[found]? = some other) =>
    lookup_insert_sameHeader hentry hheader hother
  have honly := fun (found : Uint256) present
      (hpresent : (node.index.insert hash changed)[found]? = some present) =>
    sameHeader_of_lookup_insert hentry hheader hpresent
  have hactive : ∀ block ∈ node.hmp.chain,
      (node.index.insert hash changed)[block.hash]? = node.index[block.hash]? := by
    intro block hblock
    rw [getElem?_insert_eq, if_neg (Ne.symm (hoff block hblock))]
  refine ⟨hinv.closed.of_sameHeader hold honly, ?_, ?_, ?_, ?_, ?_, ?_, hinv.lowStored, ?_, ?_⟩
  · rw [hchain]
    exact hinv.linked.congr hold
  · rw [hchain]
    exact hinv.nonempty
  · intro found present hpresent hclean
    obtain ⟨other, hother, hsame⟩ := honly found present hpresent
    obtain ⟨stored, hstored, hstoredSame⟩ :=
      hinv.kept found other hother fun hmem => hclean (hdirty found hmem)
    exact ⟨stored, hstored, hstoredSame.trans hsame.symm⟩
  · intro found stored hstored
    obtain ⟨other, hother, hsame⟩ := hinv.known found stored hstored
    obtain ⟨present, hpresent, hpresentSame⟩ := hold found other hother
    exact ⟨present, hpresent, hsame.trans hpresentSame.symm⟩
  · intro found present hpresent hparent
    obtain ⟨other, hother, hsame⟩ := honly found present hpresent
    rw [hsame.pprev] at hparent
    rw [hsame.blockProof]
    exact hinv.bounded found other hother hparent
  · intro found other hother hotherLow
    rcases getElem?_insert_cases hother with ⟨-, rfl⟩ | ⟨-, hother⟩
    · rw [hheader.nHeight] at hotherLow
      obtain ⟨hneutral, hsum⟩ := hlow hotherLow
      obtain ⟨hneutralBefore, hexact⟩ := hinv.low hash entry hentry hotherLow
      refine ⟨hneutral, ?_⟩
      have hsame := hinv.low_prevSealWork_insert hentry (fun h => (hlow h).2) hotherLow hentry
      unfold ExactAt at hexact ⊢
      rw [hheader.pprev, hheader.blockProof, hneutral, hsame, hsum, hexact, hneutralBefore]
    · obtain ⟨hneutral, hexact⟩ := hinv.low found other hother hotherLow
      exact ⟨hneutral, hexact.congr
        (hinv.low_prevSealWork_insert hentry (fun h => (hlow h).2) hotherLow hother)⟩
  · rw [hchain]
    intro block hblock other hother
    rw [hactive block hblock] at hother
    refine (hinv.exact block hblock other hother).insert ?_
    intro hchild
    obtain ⟨known, hknown, -, hlink⟩ := hinv.linked.lookup hblock
    rw [hother] at hknown
    cases hknown
    obtain ⟨older, holder, heq⟩ := hlink hash hchild
    exact hoff older holder heq
  · rw [hchain]
    intro block hblock hclean other stored hother hstored
    rw [hactive block hblock] at hother
    exact hinv.persisted block hblock (fun hmem => hclean (hdirty _ hmem)) other stored hother
      hstored

/-! ## Connecting -/

/-- The entry with what the trackers of the node find about the block. -/
def weighed (params : Params) (oracles : Oracles) (node : IndexNode) (block : HMPBlock)
    (entry : CBlockIndex) : CBlockIndex :=
  entry.weigh (node.verdict params oracles block) (node.index.prevSealWork entry.pprev)

theorem weighed_sameHeader (params : Params) (oracles : Oracles) (node : IndexNode)
    (block : HMPBlock) (entry : CBlockIndex) :
    SameHeader (weighed params oracles node block entry) entry := by
  unfold weighed weigh
  split
  · exact ⟨rfl, rfl, rfl⟩
  · exact ⟨rfl, rfl, rfl⟩

section

variable (hinv : IndexInvariant params node)

include hinv

theorem child_pprev_ne_none
    (hprev : entry.pprev = node.hmp.chain.tipHash) : entry.pprev ≠ none := by
  rw [hprev]
  cases hchain : node.hmp.chain with
  | nil => exact absurd hchain hinv.nonempty
  | cons tip parent => simp [Chain.tipHash]

variable (hentry : node.index[block.hash]? = some entry)
  (hprev : entry.pprev = node.hmp.chain.tipHash)

include hentry hprev

theorem child_height : entry.nHeight = node.hmp.chain.length := by
  have hlinked := hinv.linked
  cases hchain : node.hmp.chain with
  | nil => exact absurd hchain hinv.nonempty
  | cons tip parent =>
    rw [hchain] at hlinked hprev
    obtain ⟨⟨found, hfound, -, hheight⟩, -⟩ := hlinked
    obtain ⟨prev, hprevious, hchild⟩ := hinv.closed block.hash entry hentry tip.hash
      (by rw [hprev]; rfl)
    rw [hfound] at hprevious
    cases hprevious
    rw [hchild, hheight, length_cons]

theorem next_height : node.hmp.chain.height + 1 = entry.nHeight := by
  rw [hinv.child_height hentry hprev, Chain.height]
  omega

theorem child_weight :
    weightedProof entry.blockProof 10000 = entry.blockProof :=
  weightedProof_neutral (hinv.bounded block.hash entry hentry (hinv.child_pprev_ne_none hprev))

variable (hcoinbase : checkCoinbase params oracles (node.hmp.chain.height + 1) block.coinbase =
  .ok ())

include hcoinbase

theorem weighed_low (hlow : ¬ Sealable params entry.nHeight) :
    (weighed params oracles node block entry).nSealWeight = 10000 ∧
      (weighed params oracles node block entry).nChainSealWork = entry.nChainSealWork := by
  obtain ⟨hneutral, hexact⟩ := hinv.low block.hash entry hentry hlow
  have hseals : (node.verdict params oracles block).seals = false :=
    blockVerdict_seals_of_not_sealable hcoinbase (by rwa [hinv.next_height hentry hprev])
  unfold weighed weigh
  cases hweight : (node.verdict params oracles block).nSealWeight with
  | none => exact ⟨hneutral, rfl⟩
  | some weight =>
    refine ⟨blockVerdict_neutral hseals hweight, ?_⟩
    rw [hexact, hneutral, hinv.child_weight hentry hprev]
    simp [hseals]

theorem not_sealable_of_unweighed (hweight : (node.verdict params oracles block).nSealWeight = none) :
    ¬ Sealable params entry.nHeight := by
  rw [← hinv.next_height hentry hprev]
  exact not_sealable_of_unwritten hcoinbase hweight

theorem weighed_exact : node.index.ExactAt (weighed params oracles node block entry) := by
  unfold weighed weigh
  cases hweight : (node.verdict params oracles block).nSealWeight with
  | none =>
    have hlow := hinv.not_sealable_of_unweighed hentry hprev hcoinbase hweight
    exact (hinv.low block.hash entry hentry hlow).2
  | some weight =>
    unfold ExactAt
    cases hseals : (node.verdict params oracles block).seals with
    | true => rfl
    | false =>
      rw [blockVerdict_neutral hseals hweight, hinv.child_weight hentry hprev]
      simp

theorem weighed_persisted {stored : CBlockIndex}
    (hwrites : ∀ weight ∈ (node.verdict params oracles block).nSealWeight,
      weightedProof entry.blockProof stored.nSealWeight = weightedProof entry.blockProof weight)
    (hstored : node.disk[block.hash]? = some stored) :
    weightedProof (weighed params oracles node block entry).blockProof stored.nSealWeight =
      weightedProof (weighed params oracles node block entry).blockProof
        (weighed params oracles node block entry).nSealWeight := by
  unfold weighed weigh
  cases hweight : (node.verdict params oracles block).nSealWeight with
  | none =>
    have hlow := hinv.not_sealable_of_unweighed hentry hprev hcoinbase hweight
    obtain ⟨known, hknown, hstoredHeader⟩ := hinv.known block.hash stored hstored
    rw [hentry] at hknown
    cases hknown
    rw [hinv.lowStored block.hash stored hstored (by rwa [hstoredHeader.nHeight]),
      (hinv.low block.hash entry hentry hlow).1]
  | some weight => exact hwrites weight hweight

end

variable {hmp : HMPNode}

theorem hmpStep_rejected_chain {othersPass : Bool}
    (hrejected : checkCoinbase params oracles (hmp.chain.height + 1) block.coinbase = .ok () →
      checkBlock params oracles block hmp.chain = .ok () → othersPass = false) :
    (hmpStep params oracles hmp (.connect block othersPass)).chain = hmp.chain := by
  simp only [hmpStep]
  split
  · rfl
  · rename_i hcoinbase
    split
    · rename_i hblock
      exact absurd (hrejected hcoinbase hblock) (by decide)
    · rfl

theorem hmpStep_connected_chain
    (hcoinbase : checkCoinbase params oracles (hmp.chain.height + 1) block.coinbase = .ok ())
    (hblock : checkBlock params oracles block hmp.chain = .ok ()) :
    (hmpStep params oracles hmp (.connect block true)).chain = block :: hmp.chain := by
  simp only [hmpStep, hcoinbase, hblock]

theorem connected (hinv : IndexInvariant params node)
    (hentry : node.index[block.hash]? = some entry) (hprev : entry.pprev = node.hmp.chain.tipHash)
    (hadmits : Admits params oracles node (.connect block true))
    (hcoinbase : checkCoinbase params oracles (node.hmp.chain.height + 1) block.coinbase = .ok ())
    (hchain : hmp.chain = block :: node.hmp.chain) {changed : CBlockIndex}
    (hchanged : changed = { weighed params oracles node block entry with validScripts := true })
    {dirty : List Uint256}
    (hdirty : dirty = if entry.validScripts then node.dirty else block.hash :: node.dirty) :
    IndexInvariant params
      { node with hmp := hmp, index := node.index.insert block.hash changed, dirty := dirty } := by
  have hheight := hinv.child_height hentry hprev
  have hoff := hinv.linked.child_notMem hentry hheight
  have hsame : SameHeader changed entry := by
    have hheader := weighed_sameHeader params oracles node block entry
    rw [hchanged]
    exact ⟨hheader.pprev, hheader.nHeight, hheader.blockProof⟩
  have hmore : ∀ other ∈ node.dirty, other ∈ dirty := by
    intro other hother
    rw [hdirty]
    split
    · exact hother
    · exact mem_cons_of_mem _ hother
  have hrest : IndexInvariant params
      { node with index := node.index.insert block.hash changed, dirty := dirty } := by
    refine hinv.replace hentry hsame hoff ?_ rfl hmore
    rw [hchanged]
    exact hinv.weighed_low hentry hprev hcoinbase
  have htip : (node.index.insert block.hash changed)[block.hash]? = some changed := by
    rw [getElem?_insert_eq, if_pos rfl]
  have hexact : ExactAt (node.index.insert block.hash changed) changed := by
    have hweighed : node.index.ExactAt changed := by
      rw [hchanged]
      exact hinv.weighed_exact hentry hprev hcoinbase
    refine hweighed.insert ?_
    rw [hsame.pprev]
    intro hself
    obtain ⟨prev, hprevious, hhigher⟩ := hinv.closed block.hash entry hentry block.hash hself
    rw [hentry] at hprevious
    cases hprevious
    omega
  refine ⟨hrest.closed, ?_, ?_, hrest.kept, hrest.known, hrest.bounded, hrest.low,
    hrest.lowStored, ?_, ?_⟩
  · rw [hchain]
    exact ⟨⟨changed, htip, hsame.pprev.trans hprev, hsame.nHeight.trans hheight⟩, hrest.linked⟩
  · rw [hchain]
    exact cons_ne_nil _ _
  · rw [hchain]
    intro other hother found hfound
    rcases mem_cons.mp hother with rfl | hother
    · rw [htip] at hfound
      cases hfound
      exact hexact
    · exact hrest.exact other hother found hfound
  · rw [hchain]
    intro other hother hclean found stored hfound hstored
    rcases mem_cons.mp hother with rfl | hother
    · rw [htip] at hfound
      cases hfound
      rw [hdirty] at hclean
      split at hclean
      · rename_i hvalid
        rw [hchanged]
        exact hinv.weighed_persisted hentry hprev hcoinbase
          (fun weight hweight => hadmits entry hentry hvalid hclean weight hweight stored hstored)
          hstored
      · exact absurd mem_cons_self hclean
    · exact hrest.persisted other hother hclean found stored hfound hstored

theorem connect (hinv : IndexInvariant params node) {othersPass : Bool}
    (hadmits : Admits params oracles node (.connect block othersPass)) :
    IndexInvariant params (node.connect params oracles block othersPass) := by
  unfold IndexNode.connect
  cases hentry : node.index[block.hash]? with
  | none => exact hinv
  | some entry =>
    dsimp only
    split
    case isFalse => exact hinv
    case isTrue hchild =>
      have hheight := hinv.child_height hentry hchild.1
      have hoff := hinv.linked.child_notMem hentry hheight
      have hmore : ∀ other ∈ node.dirty, other ∈ block.hash :: node.dirty :=
        fun other hother => mem_cons_of_mem _ hother
      unfold connectEntry
      split
      · rename_i hcoinbase hblock
        exact hinv.connected hentry hchild.1 hadmits hcoinbase
          (hmpStep_connected_chain hcoinbase hblock) rfl rfl
      · rename_i hcoinbase hblock
        have hheader := weighed_sameHeader params oracles node block entry
        refine hinv.replace hentry ?_ hoff ?_ ?_ hmore
        · exact ⟨hheader.pprev, hheader.nHeight, hheader.blockProof⟩
        · exact hinv.weighed_low hentry hchild.1 hcoinbase
        · exact hmpStep_rejected_chain fun _ _ => rfl
      · rename_i hfirst hsecond
        refine hinv.replace hentry ?_ hoff ?_ ?_ hmore
        · exact ⟨rfl, rfl, rfl⟩
        · exact fun hlow => ⟨(hinv.low block.hash entry hentry hlow).1, rfl⟩
        · refine hmpStep_rejected_chain ?_
          intro hcoinbase hblock
          rw [Bool.eq_false_iff]
          intro hpass
          exact hfirst hcoinbase hblock hpass

/-! ## Disconnecting -/

theorem hmpStep_disconnect_chain (hmp : HMPNode) :
    (hmpStep params oracles hmp .disconnect).chain = hmp.chain ∨
      ∃ tip parent older, hmp.chain = tip :: parent :: older ∧
        (hmpStep params oracles hmp .disconnect).chain = parent :: older := by
  simp only [hmpStep]
  split
  · rename_i tip parent older hchain
    exact Or.inr ⟨tip, parent, older, hchain, rfl⟩
  · exact Or.inl rfl

theorem shorter (hinv : IndexInvariant params node) {hmp : HMPNode} (hne : hmp.chain ≠ [])
    (hlinked : Linked node.index hmp.chain) (hsub : hmp.chain ⊆ node.hmp.chain) :
    IndexInvariant params { node with hmp := hmp } :=
  { hinv with
    linked := hlinked
    nonempty := hne
    exact := fun block hblock => hinv.exact block (hsub hblock)
    persisted := fun block hblock => hinv.persisted block (hsub hblock) }

theorem disconnect (hinv : IndexInvariant params node) :
    IndexInvariant params { node with hmp := hmpStep params oracles node.hmp .disconnect } := by
  rcases hmpStep_disconnect_chain node.hmp with hsame | ⟨tip, parent, older, hchain, hnext⟩
  · refine hinv.shorter ?_ ?_ ?_ <;> rw [hsame]
    · exact hinv.nonempty
    · exact hinv.linked
    · exact Subset.refl _
  · have hlinked := hinv.linked
    rw [hchain] at hlinked
    refine hinv.shorter ?_ ?_ ?_ <;> rw [hnext]
    · exact cons_ne_nil parent older
    · exact hlinked.2
    · rw [hchain]
      exact subset_cons_self tip _

/-! ## Writing and loading -/

theorem foldl_write_lookup (index : BlockMap) (dirty : List Uint256) (disk : BlockMap)
    (hash : Uint256) :
    (dirty.foldl (fun disk hash =>
      match index[hash]? with
      | none => disk
      | some entry => disk.insert hash entry) disk)[hash]? =
      if hash ∈ dirty then index[hash]?.or disk[hash]? else disk[hash]? := by
  induction dirty generalizing disk with
  | nil => simp
  | cons first rest ih =>
    rw [foldl_cons, ih]
    cases hentry : index[first]? with
    | none =>
      by_cases hfirst : hash = first
      · subst hfirst
        simp [hentry]
      · simp [hfirst]
    | some entry =>
      rw [getElem?_insert_eq]
      by_cases hfirst : hash = first
      · subst hfirst
        simp [hentry]
      · simp [hfirst, Ne.symm hfirst]

theorem written (hinv : IndexInvariant params node) (hentry : node.index[hash]? = some entry) :
    ∃ stored, node.writeBlockIndexDB.disk[hash]? = some stored ∧ SameHeader stored entry ∧
      ((hash ∈ node.dirty ∧ stored = entry) ∨
        (hash ∉ node.dirty ∧ node.disk[hash]? = some stored)) := by
  unfold writeBlockIndexDB
  rw [foldl_write_lookup]
  split
  · rename_i hmem
    exact ⟨entry, by rw [hentry]; rfl, ⟨rfl, rfl, rfl⟩, Or.inl ⟨hmem, rfl⟩⟩
  · rename_i hmem
    obtain ⟨stored, hstored, hsame⟩ := hinv.kept hash entry hentry hmem
    exact ⟨stored, hstored, hsame, Or.inr ⟨hmem, hstored⟩⟩

variable {stored : CBlockIndex}

section

variable (hinv : IndexInvariant params node)

include hinv

theorem written_known (hstored : node.writeBlockIndexDB.disk[hash]? = some stored) :
    ∃ entry, node.index[hash]? = some entry ∧ SameHeader stored entry := by
  cases hentry : node.index[hash]? with
  | some entry =>
    obtain ⟨found, hfound, hsame, -⟩ := hinv.written hentry
    rw [hfound] at hstored
    cases hstored
    exact ⟨entry, rfl, hsame⟩
  | none =>
    have hbefore : node.disk[hash]? = some stored := by
      unfold writeBlockIndexDB at hstored
      rw [foldl_write_lookup, hentry] at hstored
      simpa using hstored
    obtain ⟨entry, hpresent, -⟩ := hinv.known hash stored hbefore
    rw [hentry] at hpresent
    cases hpresent

theorem written_low (hstored : node.writeBlockIndexDB.disk[hash]? = some stored)
    (hlow : ¬ Sealable params stored.nHeight) : stored.nSealWeight = 10000 := by
  obtain ⟨entry, hentry, hsame⟩ := hinv.written_known hstored
  obtain ⟨found, hfound, -, hcases⟩ := hinv.written hentry
  rw [hfound] at hstored
  cases hstored
  rcases hcases with ⟨-, rfl⟩ | ⟨-, hbefore⟩
  · exact (hinv.low hash _ hentry hlow).1
  · exact hinv.lowStored hash _ hbefore hlow

theorem written_weighted {block : HMPBlock}
    (hblock : block ∈ node.hmp.chain) (hentry : node.index[block.hash]? = some entry)
    (hstored : node.writeBlockIndexDB.disk[block.hash]? = some stored) :
    weightedProof entry.blockProof stored.nSealWeight =
      weightedProof entry.blockProof entry.nSealWeight := by
  obtain ⟨found, hfound, -, hcases⟩ := hinv.written hentry
  rw [hfound] at hstored
  cases hstored
  rcases hcases with ⟨-, rfl⟩ | ⟨hclean, hbefore⟩
  · rfl
  · exact hinv.persisted block hblock hclean entry _ hentry hbefore

theorem flush :
    IndexInvariant params node.writeBlockIndexDB := by
  refine ⟨hinv.closed, hinv.linked, hinv.nonempty, ?_, ?_, hinv.bounded, hinv.low, ?_, hinv.exact,
    ?_⟩
  · intro hash entry hentry _
    obtain ⟨stored, hstored, hsame, -⟩ := hinv.written hentry
    exact ⟨stored, hstored, hsame⟩
  · exact fun hash stored hstored => hinv.written_known hstored
  · exact fun hash stored hstored => hinv.written_low hstored
  · exact fun block hblock _ entry stored hentry hstored =>
      hinv.written_weighted hblock hentry hstored

theorem written_closed :
    node.writeBlockIndexDB.disk.ParentClosed := by
  refine hinv.closed.of_sameHeader ?_ fun hash stored hstored => hinv.written_known hstored
  intro hash entry hentry
  obtain ⟨stored, hstored, hsame, -⟩ := hinv.written hentry
  exact ⟨stored, hstored, hsame⟩

theorem loaded :
    (node.restart params oracles).index[hash]? = some entry ↔
      ∃ stored, node.writeBlockIndexDB.disk[hash]? = some stored ∧
        entry = (node.restart params oracles).index.sumWork
          { stored with nSealWeight := min stored.nSealWeight 20000 } := by
  unfold restart
  constructor
  · intro hentry
    cases hstored : node.writeBlockIndexDB.disk[hash]? with
    | none =>
      rw [loadBlockIndex_none hstored] at hentry
      cases hentry
    | some stored =>
      rw [loadBlockIndex_lookup hinv.written_closed hstored, Option.some_inj] at hentry
      exact ⟨stored, rfl, hentry.symm⟩
  · rintro ⟨stored, hstored, hentry⟩
    rw [loadBlockIndex_lookup hinv.written_closed hstored, hentry]

theorem restart :
    IndexInvariant params (node.restart params oracles) := by
  have hchain : (node.restart params oracles).hmp.chain = node.hmp.chain := rfl
  have hexact : ∀ (hash : Uint256) entry,
      (node.restart params oracles).index[hash]? = some entry →
        (node.restart params oracles).index.ExactAt entry := by
    intro hash entry hentry
    obtain ⟨stored, -, rfl⟩ := hinv.loaded.mp hentry
    rfl
  have hold : ∀ (hash : Uint256) entry, node.index[hash]? = some entry →
      ∃ present, (node.restart params oracles).index[hash]? = some present ∧
        SameHeader present entry := by
    intro hash entry hentry
    obtain ⟨stored, hstored, hsame, -⟩ := hinv.written hentry
    exact ⟨_, hinv.loaded.mpr ⟨stored, hstored, rfl⟩, hsame.pprev, hsame.nHeight,
      hsame.blockProof⟩
  refine ⟨?_, hinv.linked.congr hold, hinv.nonempty, ?_, ?_, ?_, ?_, ?_, ?_, ?_⟩
  · intro hash entry hentry parent hparent
    obtain ⟨stored, hstored, rfl⟩ := hinv.loaded.mp hentry
    obtain ⟨prev, hprev, hheight⟩ := hinv.written_closed hash stored hstored parent hparent
    exact ⟨_, hinv.loaded.mpr ⟨prev, hprev, rfl⟩, hheight⟩
  · intro hash entry hentry _
    obtain ⟨stored, hstored, rfl⟩ := hinv.loaded.mp hentry
    exact ⟨stored, hstored, rfl, rfl, rfl⟩
  · intro hash stored hstored
    exact ⟨_, hinv.loaded.mpr ⟨stored, hstored, rfl⟩, rfl, rfl, rfl⟩
  · intro hash entry hentry hparent
    obtain ⟨stored, hstored, rfl⟩ := hinv.loaded.mp hentry
    obtain ⟨before, hbefore, hsame⟩ := hinv.written_known hstored
    have hbound := hinv.bounded hash before hbefore (by rw [← hsame.pprev]; exact hparent)
    rw [← hsame.blockProof] at hbound
    exact hbound
  · intro hash entry hentry hlow
    refine ⟨?_, hexact hash entry hentry⟩
    obtain ⟨stored, hstored, rfl⟩ := hinv.loaded.mp hentry
    simp [sumWork, hinv.written_low hstored hlow]
  · exact fun hash stored hstored => hinv.written_low hstored
  · exact fun block _ entry hentry => hexact block.hash entry hentry
  · intro block _ _ entry stored hentry hstored
    obtain ⟨found, hfound, rfl⟩ := hinv.loaded.mp hentry
    rw [show (node.restart params oracles).disk = node.writeBlockIndexDB.disk from rfl,
      hfound] at hstored
    cases hstored
    simp [sumWork]

theorem restart_sealWorkOf {chain : Chain}
    (hlinked : Linked node.index chain) (hactive : ∀ block ∈ chain, block ∈ node.hmp.chain) :
    ∀ block ∈ chain, (node.restart params oracles).index.sealWorkOf block.hash =
      node.index.sealWorkOf block.hash := by
  induction chain with
  | nil =>
    intro block hblock
    cases hblock
  | cons tip parent ih =>
    have hparent := ih hlinked.2 fun block hblock => hactive block (mem_cons_of_mem _ hblock)
    intro block hblock
    rcases mem_cons.mp hblock with rfl | hrest
    · obtain ⟨⟨entry, hentry, hprev, -⟩, -⟩ := hlinked
      obtain ⟨stored, hstored, hsame, -⟩ := hinv.written hentry
      have hloaded : (node.restart params oracles).index[block.hash]? =
          some ((node.restart params oracles).index.sumWork
            { stored with nSealWeight := min stored.nSealWeight 20000 }) :=
        hinv.loaded.mpr ⟨stored, hstored, rfl⟩
      have hsum : (node.restart params oracles).index.prevSealWork entry.pprev =
          node.index.prevSealWork entry.pprev := by
        rw [hprev, prevSealWork_eq, prevSealWork_eq]
        cases parent with
        | nil => rfl
        | cons older rest =>
          simp only [Chain.tipHash, head?_cons, Option.map_some, Option.bind_some]
          rw [hparent older mem_cons_self]
      unfold sealWorkOf
      rw [hloaded, hentry]
      simp only [Option.map_some, sumWork, weightedProof_min, hsame.pprev,
        hsame.blockProof, hsum]
      rw [hinv.written_weighted (hactive block mem_cons_self) hentry hstored,
        hinv.exact block (hactive block mem_cons_self) entry hentry]
    · exact hparent block hrest

theorem sealWorkExact : SealWorkExact params oracles node where
  exact := by
    intro block hblock
    obtain ⟨entry, hentry, -⟩ := hinv.linked.lookup hblock
    exact ⟨entry, hentry, hinv.exact block hblock entry hentry⟩
  restart := hinv.restart_sealWorkOf hinv.linked fun _ hblock => hblock

theorem step {action : IndexAction} (hadmits : Admits params oracles node action) :
    IndexInvariant params (node.step params oracles action) := by
  cases action with
  | header hash hashPrevBlock blockProof => exact hinv.header hash hashPrevBlock hadmits
  | connect block othersPass => exact hinv.connect hadmits
  | disconnect => exact hinv.disconnect
  | flush => exact hinv.flush
  | restart => exact hinv.restart

end

end IndexInvariant

/-- In every run in which the proofs of headers count without overflow, and in which a block
that is connected again with an entry that will not be written gets the weight that is on
disk, the sums of the active chain are exact and survive a restart in every state. -/
theorem sealWork_exact_along_runs (params : Params) (oracles : Oracles) (genesis : HMPBlock)
    (blockProof : Nat) (actions : List IndexAction)
    (hadmitted : Guarded (step params oracles) (Admits params oracles)
      (.start genesis blockProof) actions) :
    Always (step params oracles) (SealWorkExact params oracles)
      (.start genesis blockProof) actions := by
  have hinvariant : Always (step params oracles) (IndexInvariant params)
      (.start genesis blockProof) actions :=
    always_of_guarded (fun _ _ hinv hadmits => hinv.step hadmits)
      (IndexInvariant.start params genesis blockProof) hadmitted
  exact fun visited hvisited => (hinvariant visited hvisited).sealWorkExact

namespace Sample

def testParams : Params where
  nHMPPrivilegeWindow := 20
  nHMPCommitmentOffset := 10
  nHMPSealAlgoFixHeight := 1
  nPrevSealHashFixHeight := 1

/-- The key 1 mines the sixth block and the key 2 all others; both sign the seals in the
blocks 20 and 26. -/
def testBlock (height : Nat) : HMPBlock where
  hash := 100 + height
  algo := 0
  coinbase := .special (some
    { nVersion := 4
      minerIdentity := if height = 6 then 1 else 2
      sealForAncestor := if height = 20 ∨ height = 26 then 1 else 0
      sealBlockHash := if height = 20 ∨ height = 26 then 98 + height else 0
      vSealSigners := if height = 20 ∨ height = 26 then [1, 2] else []
      vSealSignerAlgos := if height = 20 ∨ height = 26 then [0, 0] else [] })

def extend (count : Nat) : List IndexAction :=
  (range count).flatMap (fun height =>
    [.header (101 + height) (100 + height) 10000, .connect (testBlock (height + 1)) true])

def reconnect (height : Nat) : List IndexAction :=
  [.flush, .disconnect, .connect (testBlock height) true]

def nodeAfter (actions : List IndexAction) : IndexNode :=
  run (step testParams HMP.Sample.trusting) (.start (testBlock 0) 10000) actions

end Sample

open Sample

/-- The second block gets the same weight when it is connected again. -/
theorem sealWork_exact_after_reconnection :
    SealWorkExact testParams HMP.Sample.trusting
      (nodeAfter (extend 2 ++ reconnect 2)) := by
  refine (sealWork_exact_along_runs testParams HMP.Sample.trusting (testBlock 0) 10000
    (extend 2 ++ reconnect 2) ?_).final
  simp only [extend, reconnect, range, range.loop, flatMap_cons,
    flatMap_nil, cons_append, nil_append, Guarded, Admits, and_true, true_and]
  decide +kernel

/-- The block 26 weighs 18000 when it is connected first, as the key 1 is an Elder; connecting
it evicts the block that this key mined, so it weighs 10000 when it is connected again.  The
entry is not marked as changed, and after a restart the old weight counts. -/
theorem sealWork_changed_by_restart :
    (nodeAfter (extend 26)).index.sealWorkOf 126 = some 233000 ∧
      (nodeAfter (extend 26 ++ reconnect 26)).hmp.chain.head? =
        some (testBlock 26) ∧
      (nodeAfter (extend 26 ++ reconnect 26)).index.sealWorkOf 126 =
        some 225000 ∧
      (nodeAfter (extend 26 ++ reconnect 26 ++
        [.restart])).index.sealWorkOf 126 = some 233000 := by
  decide +kernel

end Kerrigan.Validation
