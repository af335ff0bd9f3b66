import Kerrigan.Validation.ForkChoice

/-!
# Sound block indexes

A block index is sound when the sums of work follow the parent references and cannot wrap.  A
node is sound when, besides, its active chain is one branch of the index along which the sums
of seal-weighted work do not fall.  The steps of `ActivateBestChain` keep nodes sound: they
write weights only into blocks that are not on the active chain, and marks anywhere.
-/

namespace Kerrigan.Validation

open Primitives Lib BlockMap CBlockIndex List ForkNode

/-! ## Entries under changes of weights and marks -/

variable (entry : CBlockIndex) (blockProof : Nat)

/-- The fields that are set once. -/
def CBlockIndex.fixed : Option Uint256 × Nat × Nat × Nat × Nat :=
  (entry.pprev, entry.nHeight, entry.blockProof, entry.nChainWork, entry.nSequenceId)

section Fixed

variable {first second : CBlockIndex}

section

variable (hfixed : first.fixed = second.fixed)

include hfixed

theorem CBlockIndex.pprev_eq_of_fixed :
    first.pprev = second.pprev :=
  congrArg Prod.fst hfixed

theorem CBlockIndex.nHeight_eq_of_fixed :
    first.nHeight = second.nHeight :=
  congrArg (fun fixed => fixed.2.1) hfixed

theorem CBlockIndex.blockProof_eq_of_fixed :
    first.blockProof = second.blockProof :=
  congrArg (fun fixed => fixed.2.2.1) hfixed

theorem CBlockIndex.nChainWork_eq_of_fixed :
    first.nChainWork = second.nChainWork :=
  congrArg (fun fixed => fixed.2.2.2.1) hfixed

end

end Fixed

def CBlockIndex.work : (Option Uint256 × Nat × Nat × Nat × Nat) × Nat :=
  (entry.fixed, entry.nChainSealWork)

@[simp] theorem CBlockIndex.applyWrite_fixed (prevSealWork : Nat) (write : SealWrite) :
    (entry.applyWrite prevSealWork write).fixed = entry.fixed := by
  cases write <;> rfl

def SealWrite.workOf : SealWrite → Nat
  | .neutral => blockProof
  | .weighed nSealWeight => weightedProof blockProof nSealWeight

theorem weightedProof_le (nSealWeight : Nat) :
    weightedProof blockProof nSealWeight ≤ 2 * blockProof := by
  unfold weightedProof
  have hmin : blockProof * min nSealWeight 20000 ≤ blockProof * 20000 :=
    Nat.mul_le_mul_left blockProof (Nat.min_le_right _ _)
  have hmod := Nat.mod_le (blockProof * min nSealWeight 20000) (2 ^ 256)
  omega

theorem SealWrite.workOf_le (write : SealWrite) : write.workOf blockProof ≤ 2 * blockProof := by
  cases write with
  | neutral =>
    simp only [SealWrite.workOf]
    omega
  | weighed nSealWeight => exact weightedProof_le blockProof nSealWeight

@[simp] theorem ForkNode.markAbove_work (bad entry : CBlockIndex) :
    (markAbove bad entry).work = entry.work := by
  unfold markAbove
  split
  · rfl
  · split <;> rfl

namespace BlockMap

def SameLinks (first second : BlockMap) : Prop :=
  ∀ hash : Uint256, first[hash]?.map fixed = second[hash]?.map fixed

variable {first second third : BlockMap}

theorem SameLinks.refl (index : BlockMap) : SameLinks index index := fun _ => rfl

theorem SameLinks.symm (hsame : SameLinks first second) : SameLinks second first :=
  fun hash => (hsame hash).symm

theorem SameLinks.trans (hfirst : SameLinks first second) (hsecond : SameLinks second third) :
    SameLinks first third :=
  fun hash => (hfirst hash).trans (hsecond hash)

variable {hash : Uint256} {entry : CBlockIndex}

section

variable (hsame : SameLinks first second)

include hsame

theorem SameLinks.lookup (hentry : second[hash]? = some entry) :
    ∃ found, first[hash]? = some found ∧ found.fixed = entry.fixed := by
  have hmap := hsame hash
  rw [hentry] at hmap
  obtain ⟨found, hfound, hfixed⟩ := Option.map_eq_some_iff.mp hmap
  exact ⟨found, hfound, hfixed⟩

theorem SameLinks.isSome (hash : Uint256) :
    first[hash]?.isSome = second[hash]?.isSome := by
  rw [← Option.isSome_map (f := fixed), hsame hash, Option.isSome_map]

theorem SameLinks.parentOf : first.parentOf = second.parentOf := by
  funext hash
  have hmap := congrArg (fun fixed => fixed.bind Prod.fst) (hsame hash)
  simp only [Option.bind_map] at hmap
  exact hmap

theorem SameLinks.heightOf : first.heightOf = second.heightOf := by
  funext hash
  have hmap := hsame hash
  unfold BlockMap.heightOf
  cases hfirst : first[hash]? with
  | none =>
    rw [hfirst, Option.map_none, eq_comm, Option.map_eq_none_iff] at hmap
    rw [hmap]
  | some entry =>
    obtain ⟨found, hfound, hfixed⟩ := hsame.symm.lookup hfirst
    rw [hfound]
    exact (nHeight_eq_of_fixed hfixed).symm

theorem SameLinks.branchOf : first.branchOf = second.branchOf := by
  unfold BlockMap.branchOf
  rw [hsame.parentOf, hsame.heightOf]

theorem SameLinks.prevChainWork (pprev : Option Uint256) :
    first.prevChainWork pprev = second.prevChainWork pprev := by
  unfold BlockMap.prevChainWork
  cases pprev with
  | none => rfl
  | some parent =>
    simp only [Option.bind_some]
    cases hsecond : second[parent]? with
    | none =>
      have hmap := hsame parent
      rw [hsecond, Option.map_none, Option.map_eq_none_iff] at hmap
      rw [hmap]
    | some entry =>
      obtain ⟨found, hfound, hfixed⟩ := hsame.lookup hsecond
      rw [hfound]
      exact nChainWork_eq_of_fixed hfixed

end

theorem getElem?_modifyEntry (index : BlockMap) (change : CBlockIndex → CBlockIndex)
    (hash other : Uint256) :
    (index.modifyEntry change hash)[other]? =
      if hash = other then index[other]?.map change else index[other]? := by
  unfold modifyEntry
  by_cases heq : hash = other
  · rw [if_pos heq, heq]
    cases hentry : index[other]? with
    | none => simpa using hentry
    | some entry =>
      rw [getElem?_insert_eq, if_pos rfl]
      rfl
  · rw [if_neg heq]
    cases hentry : index[hash]? with
    | none => rfl
    | some entry => rw [getElem?_insert_eq, if_neg heq]

theorem entryOf_modifyEntry (index : BlockMap) (change : CBlockIndex → CBlockIndex)
    (hash other : Uint256) :
    (index.modifyEntry change hash).entryOf other =
      if hash = other ∧ index[other]?.isSome then change (index.entryOf other)
      else index.entryOf other := by
  unfold entryOf
  rw [getElem?_modifyEntry]
  cases index[other]? <;> by_cases heq : hash = other <;> simp [heq]

variable {change : CBlockIndex → CBlockIndex}

theorem sameLinks_modifyEntry (index : BlockMap)
    (hchange : ∀ entry, (change entry).fixed = entry.fixed) (hash : Uint256) :
    SameLinks (index.modifyEntry change hash) index := by
  intro other
  rw [getElem?_modifyEntry]
  split
  · rw [Option.map_map]
    exact Option.map_congr (fun entry _ => hchange entry)
  · rfl

theorem sameLinks_writeSeal (index : BlockMap) (sealHeight : Nat) (hash : Uint256)
    (write : SealWrite) : SameLinks (index.writeSeal sealHeight hash write) index := by
  unfold writeSeal
  split
  · exact .refl index
  · exact sameLinks_modifyEntry index (fun entry => entry.applyWrite_fixed _ write) hash

theorem getElem?_writeSeal_of_ne (index : BlockMap) (sealHeight : Nat) {other : Uint256}
    (write : SealWrite) (hne : hash ≠ other) :
    (index.writeSeal sealHeight hash write)[other]? = index[other]? := by
  unfold writeSeal
  split
  · rfl
  · rw [getElem?_modifyEntry, if_neg hne]

/-- The two indexes also agree on the sums of seal-weighted work. -/
def SameWork (first second : BlockMap) : Prop :=
  ∀ hash : Uint256, first[hash]?.map work = second[hash]?.map work

theorem SameWork.refl (index : BlockMap) : SameWork index index := fun _ => rfl

theorem SameWork.symm (hsame : SameWork first second) : SameWork second first :=
  fun hash => (hsame hash).symm

theorem SameWork.trans (hfirst : SameWork first second) (hsecond : SameWork second third) :
    SameWork first third :=
  fun hash => (hfirst hash).trans (hsecond hash)

theorem SameWork.lookup (hsame : SameWork first second) (hentry : second[hash]? = some entry) :
    ∃ found, first[hash]? = some found ∧ found.work = entry.work := by
  have hmap := hsame hash
  rw [hentry] at hmap
  obtain ⟨found, hfound, hwork⟩ := Option.map_eq_some_iff.mp hmap
  exact ⟨found, hfound, hwork⟩

theorem SameWork.links (hsame : SameWork first second) : SameLinks first second := by
  intro hash
  have hmap := congrArg (Option.map Prod.fst) (hsame hash)
  simp only [Option.map_map] at hmap
  exact hmap

theorem SameWork.sums (hsame : SameWork first second) (hash : Uint256) :
    first[hash]?.map nChainSealWork = second[hash]?.map nChainSealWork := by
  have hmap := congrArg (Option.map Prod.snd) (hsame hash)
  simp only [Option.map_map] at hmap
  exact hmap

theorem SameWork.keyOf (hsame : SameWork first second) (address : Uint256 → Nat)
    (hash : Uint256) : first.keyOf address hash = second.keyOf address hash := by
  unfold BlockMap.keyOf BlockMap.entryOf
  cases hsecond : second[hash]? with
  | none =>
    have hmap := hsame hash
    rw [hsecond, Option.map_none, Option.map_eq_none_iff] at hmap
    rw [hmap]
  | some entry =>
    obtain ⟨found, hfound, hwork⟩ := hsame.lookup hsecond
    rw [hfound]
    exact congrArg (fun work => toLex (work.2, toLex (work.1.2.2.2.1,
      toLex (OrderDual.toDual work.1.2.2.2.2, OrderDual.toDual (address hash))))) hwork

theorem sameWork_modifyEntry (index : BlockMap)
    (hchange : ∀ entry, (change entry).work = entry.work) (hash : Uint256) :
    SameWork (index.modifyEntry change hash) index := by
  intro other
  rw [getElem?_modifyEntry]
  split
  · rw [Option.map_map]
    exact Option.map_congr (fun entry _ => hchange entry)
  · rfl

theorem prevSealWork_congr {first second : BlockMap} {pprev : Option Uint256}
    (hsame : ∀ parent ∈ pprev, (first[parent]?).map nChainSealWork =
      (second[parent]?).map nChainSealWork) :
    first.prevSealWork pprev = second.prevSealWork pprev := by
  unfold prevSealWork
  cases pprev with
  | none => rfl
  | some parent =>
    have hmap := hsame parent rfl
    simp only [Option.bind_some]
    cases hsecond : second[parent]? with
    | none =>
      rw [hsecond, Option.map_none, Option.map_eq_none_iff] at hmap
      rw [hmap]
    | some prev =>
      rw [hsecond, Option.map_some, Option.map_eq_some_iff] at hmap
      obtain ⟨found, hfound, hwork⟩ := hmap
      rw [hfound]
      exact hwork

theorem SameWork.writeSeal (hsame : SameWork first second) (sealHeight : Nat) (hash : Uint256)
    (write : SealWrite) :
    SameWork (first.writeSeal sealHeight hash write) (second.writeSeal sealHeight hash write) := by
  intro other
  unfold BlockMap.writeSeal
  rw [hsame.links.heightOf]
  split
  · exact hsame other
  · rw [getElem?_modifyEntry, getElem?_modifyEntry]
    split
    · cases hsecond : second[other]? with
      | none =>
        have hmap := hsame other
        rw [hsecond, Option.map_none, Option.map_eq_none_iff] at hmap
        rw [hmap]
        rfl
      | some entry =>
        obtain ⟨found, hfound, hwork⟩ := hsame.lookup hsecond
        have hfixed : found.fixed = entry.fixed := congrArg Prod.fst hwork
        have hprev : first.prevSealWork entry.pprev = second.prevSealWork entry.pprev :=
          prevSealWork_congr (fun parent _ => hsame.sums parent)
        rw [hfound, Option.map_some, Option.map_some, Option.map_some, Option.map_some,
          work, work, applyWrite_fixed,
          applyWrite_fixed, pprev_eq_of_fixed hfixed, hprev, hfixed]
        cases write <;> simp only [applyWrite,
          blockProof_eq_of_fixed hfixed]
    · exact hsame other

theorem sameWork_foldl_modifyEntry (hchange : ∀ entry, (change entry).work = entry.work)
    (blocks : List Uint256) (index : BlockMap) :
    SameWork (blocks.foldl (fun next block => next.modifyEntry change block) index) index := by
  induction blocks generalizing index with
  | nil => exact .refl index
  | cons block rest ih =>
    exact (ih (index.modifyEntry change block)).trans (sameWork_modifyEntry index hchange block)

/-! ## Sound indexes -/

/-- The sums of an entry follow from those of its parent and cannot wrap; blocks below the
first weighed height count in full. -/
structure SoundEntry (sealHeight : Nat) (index : BlockMap) (entry : CBlockIndex) : Prop where
  summed : entry.nChainWork = index.prevChainWork entry.pprev + entry.blockProof
  positive : 0 < entry.blockProof
  bounded : entry.nChainWork * 20000 < 2 ^ 256
  sealBounded : entry.nChainSealWork ≤ 2 * entry.nChainWork
  low : entry.nHeight < sealHeight →
    entry.nChainSealWork = index.prevSealWork entry.pprev + entry.blockProof

structure Sound (sealHeight : Nat) (index : BlockMap) : Prop where
  closed : index.ParentClosed
  entries : ∀ (hash : Uint256) entry, index[hash]? = some entry → SoundEntry sealHeight index entry

theorem addWork_eq {first second : Nat} (hsum : first + second < 2 ^ 256) :
    addWork first second = first + second :=
  Nat.mod_eq_of_lt hsum

variable {sealHeight : Nat} {index : BlockMap}

theorem ParentClosed.ranked (hclosed : index.ParentClosed) :
    Ranked index.parentOf index.heightOf := by
  intro hash above habove
  obtain ⟨entry, hentry, hpprev⟩ := Option.bind_eq_some_iff.mp habove
  obtain ⟨prev, hprev, hheight⟩ := hclosed hash entry hentry above hpprev
  simp only [heightOf, hentry, hprev]
  omega

theorem Sound.ranked (hsound : Sound sealHeight index) : Ranked index.parentOf index.heightOf :=
  hsound.closed.ranked

theorem Sound.prevSealWork_le (hsound : Sound sealHeight index) (pprev : Option Uint256) :
    index.prevSealWork pprev ≤ 2 * index.prevChainWork pprev := by
  unfold prevSealWork prevChainWork
  cases hprev : pprev.bind (fun hash => index[hash]?) with
  | none => exact Nat.zero_le _
  | some prev =>
    obtain ⟨parent, -, hparent⟩ := Option.bind_eq_some_iff.mp hprev
    exact (hsound.entries parent prev hparent).sealBounded

theorem Sound.applyWrite (hsound : Sound sealHeight index)
    (hentry : SoundEntry sealHeight index entry) (write : SealWrite) :
    (entry.applyWrite (index.prevSealWork entry.pprev) write).nChainSealWork =
      index.prevSealWork entry.pprev + write.workOf entry.blockProof := by
  have hprev := hsound.prevSealWork_le entry.pprev
  have hsummed := hentry.summed
  have hbounded := hentry.bounded
  have hwork := write.workOf_le entry.blockProof
  have hsum : index.prevSealWork entry.pprev + write.workOf entry.blockProof < 2 ^ 256 := by
    omega
  cases write with
  | neutral => exact addWork_eq hsum
  | weighed nSealWeight => exact addWork_eq hsum

variable {next : BlockMap}

theorem ParentClosed.congr (hclosed : index.ParentClosed) (hsame : SameLinks next index) :
    next.ParentClosed := by
  intro hash entry hentry parent hparent
  obtain ⟨old, hold, hfixed⟩ := hsame.symm.lookup hentry
  have hpprev := pprev_eq_of_fixed hfixed
  have hheight := nHeight_eq_of_fixed hfixed
  rw [← hpprev] at hparent
  obtain ⟨prev, hprev, hnext⟩ := hclosed hash old hold parent hparent
  obtain ⟨found, hfound, hfoundFixed⟩ := hsame.lookup hprev
  have hfoundHeight := nHeight_eq_of_fixed hfoundFixed
  refine ⟨found, hfound, ?_⟩
  omega

/-- Entries with the same links and the same sum are sound over indexes that agree on links
and on the sum of the parent. -/
theorem SoundEntry.congr {changed : CBlockIndex} (hentry : SoundEntry sealHeight index entry)
    (hsame : SameLinks next index) (hfixed : changed.fixed = entry.fixed)
    (hbounded : changed.nChainSealWork ≤ 2 * changed.nChainWork)
    (hlow : changed.nHeight < sealHeight → changed.nChainSealWork = entry.nChainSealWork ∧
      next.prevSealWork entry.pprev = index.prevSealWork entry.pprev) :
    SoundEntry sealHeight next changed := by
  have hpprev := pprev_eq_of_fixed hfixed
  have hheight := nHeight_eq_of_fixed hfixed
  have hproof := blockProof_eq_of_fixed hfixed
  have hwork := nChainWork_eq_of_fixed hfixed
  refine ⟨?_, ?_, ?_, hbounded, ?_⟩
  · rw [hpprev, hproof, hwork, hsame.prevChainWork]
    exact hentry.summed
  · rw [hproof]
    exact hentry.positive
  · rw [hwork]
    exact hentry.bounded
  · intro hbelow
    obtain ⟨hsum, hprev⟩ := hlow hbelow
    rw [hpprev, hproof, hsum, hprev]
    exact hentry.low (hheight ▸ hbelow)

theorem Sound.congr (hsound : Sound sealHeight index) (hsame : SameWork next index) :
    Sound sealHeight next := by
  refine ⟨hsound.closed.congr hsame.links, ?_⟩
  intro hash changed hchanged
  obtain ⟨entry, hentry, hwork⟩ := hsame.symm.lookup hchanged
  have hold := hsound.entries hash entry hentry
  have hfixed : changed.fixed = entry.fixed := (congrArg Prod.fst hwork).symm
  have hsum : changed.nChainSealWork = entry.nChainSealWork := (congrArg Prod.snd hwork).symm
  have hchainWork := nChainWork_eq_of_fixed hfixed
  refine hold.congr hsame.links hfixed ?_ ?_
  · rw [hsum, hchainWork]
    exact hold.sealBounded
  · intro _
    exact ⟨hsum, prevSealWork_congr (fun parent _ => hsame.sums parent)⟩

/-- A write of `ConnectBlock` keeps the index sound: the blocks below the first weighed height
do not build on the written one. -/
theorem Sound.writeSeal (hsound : Sound sealHeight index) (hash : Uint256) (write : SealWrite) :
    Sound sealHeight (index.writeSeal sealHeight hash write) := by
  have hsame := sameLinks_writeSeal index sealHeight hash write
  refine ⟨hsound.closed.congr hsame, ?_⟩
  intro other changed hchanged
  obtain ⟨entry, hentry, hfixed⟩ := hsame.symm.lookup hchanged
  have hold := hsound.entries other entry hentry
  by_cases hlow : index.heightOf hash < sealHeight
  · rw [BlockMap.writeSeal, if_pos hlow] at hchanged ⊢
    exact hsound.entries other changed hchanged
  · have hwork := CBlockIndex.nChainWork_eq_of_fixed hfixed.symm
    have hheight := CBlockIndex.nHeight_eq_of_fixed hfixed.symm
    have hsummed := hold.summed
    by_cases heq : hash = other
    · rw [BlockMap.writeSeal, if_neg hlow, getElem?_modifyEntry, if_pos heq, hentry,
        Option.map_some] at hchanged
      have hsum := hsound.applyWrite hold write
      have hle := write.workOf_le entry.blockProof
      have hprev := hsound.prevSealWork_le entry.pprev
      refine hold.congr hsame hfixed.symm ?_ ?_
      · rw [hwork, ← Option.some.inj hchanged, hsum]
        omega
      · intro hbelow
        rw [hheight] at hbelow
        rw [heq, heightOf, hentry] at hlow
        exact absurd hbelow hlow
    · rw [getElem?_writeSeal_of_ne index sealHeight write heq, hentry] at hchanged
      cases hchanged
      refine hold.congr hsame rfl hold.sealBounded ?_
      intro hbelow
      refine ⟨rfl, prevSealWork_congr ?_⟩
      intro parent hparent
      obtain ⟨prev, hprev, hnext⟩ := hsound.closed other changed hentry parent hparent
      have hne : hash ≠ parent := by
        intro heqParent
        simp only [heqParent, heightOf, hprev] at hlow
        omega
      rw [getElem?_writeSeal_of_ne index sealHeight write hne]

theorem Sound.keyOf_lt (hsound : Sound sealHeight index) (address : Uint256 → Nat)
    {parent : Uint256} (hentry : index[hash]? = some entry) (hparent : entry.pprev = some parent)
    (hrising : index.prevSealWork entry.pprev ≤ entry.nChainSealWork) :
    index.keyOf address parent < index.keyOf address hash := by
  have hold := hsound.entries hash entry hentry
  obtain ⟨prev, hprev, -⟩ := hsound.closed hash entry hentry parent hparent
  have hsummed := hold.summed
  have hpositive := hold.positive
  rw [hparent, prevChainWork, Option.bind_some, hprev] at hsummed
  rw [hparent, prevSealWork, Option.bind_some, hprev] at hrising
  simp only [keyOf, entryOf, hentry, hprev, Option.getD_some, workKey, Prod.Lex.toLex_lt_toLex]
  rcases Nat.lt_or_eq_of_le hrising with hlt | heq
  · exact Or.inl hlt
  · refine Or.inr ⟨heq, Or.inl ?_⟩
    simp only at hsummed
    omega

end BlockMap

/-! ## Sound nodes -/

namespace ForkNode

variable {σ : Type}

/-- The candidates and the active chain are blocks of a sound index, the chain is one branch,
and along it the sums do not fall. -/
structure Sound (rules : ConnectRules σ) (node : ForkNode σ) : Prop where
  index : node.index.Sound rules.sealHeight
  listed : ∀ hash ∈ node.candidates, node.index[hash]?.isSome
  branch : IsBranch node.index.parentOf node.index.heightOf node.chain
  known : ∀ hash ∈ node.chain, node.index[hash]?.isSome
  rising : ∀ hash ∈ node.chain, ∀ entry, node.index[hash]? = some entry →
    node.index.prevSealWork entry.pprev ≤ entry.nChainSealWork

variable {rules : ConnectRules σ} {node : ForkNode σ}

theorem Sound.tip_branchOf (hsound : node.Sound rules) {tip : Uint256} (htip : tip ∈ node.tip) :
    node.chain = node.index.branchOf tip :=
  hsound.branch tip htip

variable {hash : Uint256}

theorem Sound.keyOf_le_tip (hsound : node.Sound rules) {tip : Uint256} (htip : tip ∈ node.tip)
    (hmem : hash ∈ node.chain) :
    node.index.keyOf rules.address hash ≤ node.index.keyOf rules.address tip := by
  have hbranch := hsound.tip_branchOf htip
  rw [hbranch] at hmem
  refine le_of_mem_ancestry hsound.index.ranked ?_ hmem
  intro other hother above habove
  obtain ⟨entry, hentry, hpprev⟩ := Option.bind_eq_some_iff.mp habove
  have hchain : other ∈ node.chain := by
    rw [hbranch]
    exact hother
  exact le_of_lt (hsound.index.keyOf_lt rules.address hentry hpprev
    (hsound.rising other hchain entry hentry))

theorem Sound.parent_mem (hsound : node.Sound rules) {parent : Uint256} {entry : CBlockIndex}
    (hmem : hash ∈ node.chain) (hentry : node.index[hash]? = some entry)
    (hparent : entry.pprev = some parent) : parent ∈ node.chain := by
  have hsuffix := hsound.branch.ancestry_suffix_of_mem hsound.index.ranked hmem
  have habove : node.index.parentOf hash = some parent := by
    rw [parentOf, hentry]
    exact hparent
  rw [ancestry_eq hsound.index.ranked, habove, Option.elim_some] at hsuffix
  exact hsuffix.subset (mem_cons_of_mem hash (self_mem_ancestry parent))

variable {next : ForkNode σ}

/-- Changing entries off the active chain, and the candidates within the index, keeps a node
sound. -/
theorem Sound.change (hsound : node.Sound rules) (hindex : next.index.Sound rules.sealHeight)
    (hlinks : SameLinks next.index node.index) (hchain : next.chain = node.chain)
    (hlisted : ∀ hash ∈ next.candidates, node.index[hash]?.isSome)
    (hsums : ∀ hash ∈ node.chain, (next.index[hash]?).map nChainSealWork =
      (node.index[hash]?).map nChainSealWork) : next.Sound rules := by
  refine ⟨hindex, ?_, ?_, ?_, ?_⟩
  · intro hash hmem
    rw [hlinks.isSome]
    exact hlisted hash hmem
  · rw [hchain, hlinks.parentOf, hlinks.heightOf]
    exact hsound.branch
  · intro hash hmem
    rw [hlinks.isSome]
    exact hsound.known hash (hchain ▸ hmem)
  · intro hash hmem entry hentry
    rw [hchain] at hmem
    obtain ⟨old, hold, hfixed⟩ := hlinks.symm.lookup hentry
    have hpprev := pprev_eq_of_fixed hfixed
    have hsum : entry.nChainSealWork = old.nChainSealWork := by
      have hmap := hsums hash hmem
      rw [hentry, hold] at hmap
      exact Option.some.inj hmap
    have hprev : next.index.prevSealWork entry.pprev = node.index.prevSealWork old.pprev := by
      rw [← hpprev]
      refine prevSealWork_congr ?_
      intro parent hparent
      exact hsums parent (hsound.parent_mem hmem hold hparent)
    rw [hprev, hsum]
    exact hsound.rising hash hmem old hold

theorem Sound.remark (hsound : node.Sound rules) (hwork : SameWork next.index node.index)
    (hchain : next.chain = node.chain) (hcandidates : next.candidates ⊆ node.candidates) :
    next.Sound rules := by
  refine hsound.change (hsound.index.congr hwork) hwork.links hchain ?_ ?_
  · intro hash hmem
    exact hsound.listed hash (hcandidates hmem)
  · intro hash _
    exact hwork.sums hash

/-! ### Selection -/

theorem bestCandidate_mem {address : Uint256 → Nat} {index : BlockMap} {candidates : List Uint256}
    {best : Uint256} (hbest : bestCandidate address index candidates = some best) :
    best ∈ candidates := by
  induction candidates generalizing best with
  | nil => cases hbest
  | cons hash rest ih =>
    rw [bestCandidate] at hbest
    cases hrest : bestCandidate address index rest with
    | none =>
      rw [hrest] at hbest
      cases hbest
      exact mem_cons_self
    | some other =>
      rw [hrest] at hbest
      simp only at hbest
      split at hbest
      · cases hbest
        exact mem_cons_self
      · cases hbest
        exact mem_cons_of_mem hash (ih hrest)

theorem dropBranch_work (node : ForkNode σ) (hash bad : Uint256) :
    SameWork (node.dropBranch hash bad).index node.index :=
  sameWork_foldl_modifyEntry (fun entry => markAbove_work _ entry) _ node.index

theorem Sound.dropBranch (hsound : node.Sound rules) (hash bad : Uint256) :
    (node.dropBranch hash bad).Sound rules :=
  hsound.remark (node.dropBranch_work hash bad) rfl (fun _ hmem => mem_of_mem_filter hmem)

/-! ### Steps -/

theorem Sound.ranked (hsound : node.Sound rules) :
    Ranked node.index.parentOf node.index.heightOf :=
  hsound.index.ranked

theorem Sound.keptChain_eq (hsound : node.Sound rules) (hash : Uint256) :
    node.keptChain hash =
      (node.index.branchOf hash).dropWhile (fun block => block ∉ node.chain) :=
  hsound.branch.dropWhile_fork hsound.ranked hash

theorem keptChain_suffix (node : ForkNode σ) (hash : Uint256) :
    node.keptChain hash <:+ node.chain := by
  unfold keptChain
  cases node.findFork hash with
  | none => exact nil_suffix
  | some fork => exact dropWhile_suffix _

theorem Sound.shorten (hsound : node.Sound rules) (hindex : next.index = node.index)
    (hcandidates : next.candidates = node.candidates) (hsuffix : next.chain <:+ node.chain) :
    next.Sound rules := by
  refine ⟨?_, ?_, ?_, ?_, ?_⟩
  · rw [hindex]
    exact hsound.index
  · rw [hindex, hcandidates]
    exact hsound.listed
  · rw [hindex]
    exact hsound.branch.suffix hsound.ranked hsuffix
  · intro hash hmem
    rw [hindex]
    exact hsound.known hash (hsuffix.subset hmem)
  · intro hash hmem
    rw [hindex]
    exact hsound.rising hash (hsuffix.subset hmem)

theorem Sound.disconnectToFork (hsound : node.Sound rules) (hash : Uint256) :
    (node.disconnectToFork rules hash).Sound rules :=
  hsound.shorten rfl rfl (node.keptChain_suffix hash)

theorem mem_writeSeal_candidates {block : Uint256} {write : SealWrite}
    (hmem : block ∈ (node.writeSeal rules hash write).candidates) :
    block = hash ∨ block ∈ node.candidates := by
  simp only [writeSeal] at hmem
  split at hmem
  · exact Or.inr hmem
  · cases write with
    | neutral => exact Or.inr hmem
    | weighed nSealWeight =>
      rcases mem_cons.mp hmem with heq | hmem
      · exact Or.inl heq
      · exact Or.inr (mem_of_mem_filter hmem)

section

variable (hsound : node.Sound rules)

include hsound

theorem Sound.writeSeal (hnot : hash ∉ node.chain)
    (hknown : node.index[hash]?.isSome) (write : SealWrite) :
    (node.writeSeal rules hash write).Sound rules := by
  refine hsound.change (hsound.index.writeSeal hash write)
    (sameLinks_writeSeal node.index rules.sealHeight hash write) rfl ?_ ?_
  · intro block hmem
    rcases mem_writeSeal_candidates hmem with rfl | hmem
    · exact hknown
    · exact hsound.listed block hmem
  · intro block hmem
    have hne : hash ≠ block := by
      intro heq
      exact hnot (heq ▸ hmem)
    exact congrArg (Option.map nChainSealWork)
      (getElem?_writeSeal_of_ne node.index rules.sealHeight write hne)

theorem Sound.writeSeal_rising {write : SealWrite} {entry : CBlockIndex}
    (hentry : (node.writeSeal rules hash write).index[hash]? = some entry) :
    (node.writeSeal rules hash write).index.prevSealWork entry.pprev ≤ entry.nChainSealWork := by
  have hlinks := sameLinks_writeSeal node.index rules.sealHeight hash write
  obtain ⟨old, hold, hfixed⟩ := hlinks.symm.lookup hentry
  have hpprev := pprev_eq_of_fixed hfixed
  have hentrySound := hsound.index.entries hash old hold
  have hprev : (node.writeSeal rules hash write).index.prevSealWork entry.pprev =
      node.index.prevSealWork old.pprev := by
    rw [← hpprev]
    refine prevSealWork_congr ?_
    intro parent hparent
    have hne : hash ≠ parent := by
      intro heq
      obtain ⟨prev, hprev, hheight⟩ := hsound.index.closed hash old hold parent hparent
      rw [← heq, hold] at hprev
      cases hprev
      omega
    exact congrArg (Option.map nChainSealWork)
      (getElem?_writeSeal_of_ne node.index rules.sealHeight write hne)
  rw [hprev]
  simp only [ForkNode.writeSeal, BlockMap.writeSeal] at hentry
  split at hentry
  · rename_i hlow
    rw [hold] at hentry
    cases hentry
    rw [heightOf, hold] at hlow
    rw [hentrySound.low hlow]
    omega
  · rw [getElem?_modifyEntry, if_pos rfl, hold, Option.map_some] at hentry
    have hsum := hsound.index.applyWrite hentrySound write
    rw [← Option.some.inj hentry, hsum]
    omega

theorem Sound.connectTip
    (hbranch : IsBranch node.index.parentOf node.index.heightOf (hash :: node.chain))
    (hknown : node.index[hash]?.isSome) (write : SealWrite) (stores : σ) :
    (node.connectTip rules hash write stores).Sound rules := by
  have hnot : hash ∉ node.chain := (nodup_cons.mp (hbranch.nodup hsound.ranked)).1
  have hwritten := hsound.writeSeal hnot hknown write
  have hlinks := sameLinks_writeSeal node.index rules.sealHeight hash write
  refine ⟨hwritten.index, hwritten.listed, ?_, ?_, ?_⟩
  · have hchain := hbranch
    rw [← hlinks.parentOf, ← hlinks.heightOf] at hchain
    exact hchain
  · intro block hmem
    rcases mem_cons.mp hmem with rfl | hmem
    · exact (hlinks.isSome block).trans hknown
    · exact hwritten.known block hmem
  · intro block hmem entry hentry
    rcases mem_cons.mp hmem with rfl | hmem
    · exact hsound.writeSeal_rising hentry
    · exact hwritten.rising block hmem entry hentry

theorem Sound.pruneBlockIndexCandidates :
    (node.pruneBlockIndexCandidates rules.address).Sound rules := by
  unfold ForkNode.pruneBlockIndexCandidates
  split
  · exact hsound
  · exact hsound.remark (.refl node.index) rfl (fun _ hmem => mem_of_mem_filter hmem)

theorem Sound.rejectTip (hnot : hash ∉ node.chain)
    (hknown : node.index[hash]?.isSome) (write : Option SealWrite) (mutated : Bool) (stores : σ) :
    (node.rejectTip rules hash write mutated stores).Sound rules := by
  have hwritten : (write.elim node (node.writeSeal rules hash)).Sound rules := by
    cases write with
    | none => exact hsound
    | some write => exact hsound.writeSeal hnot hknown write
  cases mutated with
  | true => exact hwritten.shorten rfl rfl (suffix_refl _)
  | false =>
    refine hwritten.remark ?_ rfl (fun _ hmem => mem_of_mem_filter hmem)
    apply sameWork_modifyEntry
    intro entry
    rfl

end

end ForkNode

end Kerrigan.Validation
