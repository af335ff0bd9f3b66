import Kerrigan.Validation.SoundIndex

/-!
# What a call of activation is to reach

The best usable candidate of a node is its target.  A call makes the branch of the target the active
chain; when a block of the branch turns out invalid, it goes on from what is left.
`FindMostWorkChain` finds the target and gives up hopeless candidates on the way, which changes
nothing for the choice.
-/

namespace Kerrigan.Validation

open Primitives Lib BlockMap ForkNode List

namespace ForkNode

variable {σ : Type}

/-! ## The specification -/

variable (index : BlockMap) (chain : List Uint256) (address : Uint256 → Nat)

/-- The part of the branch that is not on the chain has all its data and no bad mark. -/
def Usable (hash : Uint256) : Prop :=
  ∀ block ∈ (index.branchOf hash).takeWhile (fun block => block ∉ chain),
    (index.entryOf block).unusable = false

instance (hash : Uint256) : Decidable (Usable index chain hash) :=
  inferInstanceAs (Decidable (∀ _ ∈ takeWhile _ _, _))

/-- A usable candidate that no other usable candidate exceeds. -/
structure Selected (node : ForkNode σ) (target : Uint256) : Prop where
  listed : target ∈ node.candidates
  usable : Usable node.index node.chain target
  unbeaten : ∀ hash ∈ node.candidates, Usable node.index node.chain hash →
    ¬ node.index.less address target hash

def connected (rules : ConnectRules σ) (node : ForkNode σ) (hash : Uint256) (write : SealWrite)
    (stores : σ) : ForkNode σ :=
  (node.connectTip rules hash write stores).pruneBlockIndexCandidates rules.address

/-- Connect the blocks up to the first invalid one, and say whether there was one. -/
def attemptBlocks (rules : ConnectRules σ) : List Uint256 → ForkNode σ → ForkNode σ × Bool
  | [], node => (node, false)
  | hash :: rest, node =>
      match rules.connectBlock node.stores hash with
      | (.invalid write mutated, stores) => (node.rejectTip rules hash write mutated stores, true)
      | (.connected write, stores) =>
          attemptBlocks rules rest (node.connected rules hash write stores)

/-- Make the branch of the target the active chain. -/
def attempt (rules : ConnectRules σ) (node : ForkNode σ) (target : Uint256) :
    ForkNode σ × Bool :=
  attemptBlocks rules (node.offChain target).reverse (node.disconnectToFork rules target)

/-- Where a call settles: at the tip if no candidate is usable, at the selected candidate if its
branch has no invalid block, and otherwise where a call settles from what the attempt leaves.  With
the tip it says from which node the last attempt is made. -/
inductive Settles (rules : ConnectRules σ) : ForkNode σ → ForkNode σ → Option Uint256 → Prop
  | stays {node : ForkNode σ}
      (hnone : ∀ hash ∈ node.candidates, ¬ Usable node.index node.chain hash) :
      Settles rules node node node.tip
  | reached {node : ForkNode σ} {target : Uint256}
      (hselected : Selected rules.address node target)
      (hvalid : (node.attempt rules target).2 = false) :
      Settles rules node node (some target)
  | failed {node selection : ForkNode σ} {target : Uint256} {tip : Option Uint256}
      (hselected : Selected rules.address node target)
      (hinvalid : (node.attempt rules target).2 = true)
      (hlater : Settles rules (node.attempt rules target).1 selection tip) :
      Settles rules node selection tip

variable {rules : ConnectRules σ} {node origin : ForkNode σ} {target hash : Uint256}

section

variable {address : Uint256 → Nat} (hinjective : Function.Injective address)

include hinjective

theorem Selected.unique {other : Uint256} (hfirst : Selected address node target)
    (hsecond : Selected address node other) : target = other := by
  have hle := hfirst.unbeaten other hsecond.listed hsecond.usable
  have hge := hsecond.unbeaten target hfirst.listed hfirst.usable
  rw [less_iff, not_lt] at hle hge
  have hkey := congrArg (fun key : WorkKey => (ofLex (ofLex (ofLex key).2).2).2)
    (le_antisymm hge hle)
  exact hinjective (OrderDual.toDual_inj.mp hkey)

end

theorem Settles.unique (hinjective : Function.Injective rules.address)
    {first second : ForkNode σ} {firstTip secondTip : Option Uint256}
    (hfirst : Settles rules node first firstTip) (hsecond : Settles rules node second secondTip) :
    first = second ∧ firstTip = secondTip := by
  induction hfirst with
  | stays hnone =>
    cases hsecond with
    | stays => exact ⟨rfl, rfl⟩
    | reached hselected => exact absurd hselected.usable (hnone _ hselected.listed)
    | failed hselected => exact absurd hselected.usable (hnone _ hselected.listed)
  | reached hselected hvalid =>
    cases hsecond with
    | stays hnone => exact absurd hselected.usable (hnone _ hselected.listed)
    | reached hother =>
      rw [hselected.unique hinjective hother]
      exact ⟨rfl, rfl⟩
    | failed hother hinvalid =>
      rw [hselected.unique hinjective hother, hinvalid] at hvalid
      cases hvalid
  | failed hselected hinvalid _ ih =>
    cases hsecond with
    | stays hnone => exact absurd hselected.usable (hnone _ hselected.listed)
    | reached hother hvalid =>
      rw [hselected.unique hinjective hother, hvalid] at hinvalid
      cases hinvalid
    | failed hother _ hlater =>
      rw [← hselected.unique hinjective hother] at hlater
      exact ih hlater

/-! ## Hopeless candidates -/

/-- An unusable block stands between the chain and the block. -/
def Hopeless (node : ForkNode σ) (hash : Uint256) : Prop :=
  ∃ bad ∈ node.index.branchOf hash, bad ∉ node.chain ∧
    (node.index.entryOf bad).unusable = true

theorem mem_offChain (hsound : node.Sound rules) :
    hash ∈ node.offChain target ↔ hash ∈ node.index.branchOf target ∧ hash ∉ node.chain := by
  constructor
  · intro hmem
    exact ⟨( takeWhile_prefix _).subset hmem, by simpa using mem_takeWhile_imp hmem⟩
  · rintro ⟨hmem, hnot⟩
    rw [← takeWhile_append_dropWhile (p := fun block => decide (block ∉ node.chain))
      (l := node.index.branchOf target), ← hsound.keptChain_eq] at hmem
    exact (mem_append.mp hmem).resolve_right
      (fun hkept => hnot ((node.keptChain_suffix target).subset hkept))

theorem usable_iff_not_hopeless (hsound : node.Sound rules) :
    Usable node.index node.chain hash ↔ ¬ node.Hopeless hash := by
  constructor
  · rintro husable ⟨bad, hmem, hoff, hunusable⟩
    have hfalse := husable bad ((mem_offChain hsound).mpr ⟨hmem, hoff⟩)
    rw [hunusable] at hfalse
    cases hfalse
  · intro hnot block hblock
    obtain ⟨hmem, hoff⟩ := (mem_offChain hsound).mp hblock
    rw [← Bool.not_eq_true]
    exact fun hunusable => hnot ⟨block, hmem, hoff, hunusable⟩

/-- The node is the other one but for hopeless candidates that were given up, and for marks above
unusable blocks. -/
structure GivesUp (node origin : ForkNode σ) : Prop where
  work : SameWork node.index origin.index
  chain : node.chain = origin.chain
  stores : node.stores = origin.stores
  unusable : ∀ hash, (origin.index.entryOf hash).unusable = true →
    (node.index.entryOf hash).unusable = true
  hopeless : ∀ hash, (node.index.entryOf hash).unusable = true →
    (origin.index.entryOf hash).unusable = true ∨ origin.Hopeless hash
  failed : ∀ hash, (origin.index.entryOf hash).failed = true →
    (node.index.entryOf hash).failed = true
  failedBelow : ∀ hash, (node.index.entryOf hash).failed = true →
    ∃ bad ∈ origin.index.branchOf hash, (origin.index.entryOf bad).failed = true
  listed : node.candidates ⊆ origin.candidates
  given : ∀ hash ∈ origin.candidates, hash ∈ node.candidates ∨ origin.Hopeless hash

theorem GivesUp.refl (node : ForkNode σ) : node.GivesUp node where
  work := .refl node.index
  chain := rfl
  stores := rfl
  unusable := fun _ hunusable => hunusable
  hopeless := fun _ hunusable => Or.inl hunusable
  failed := fun _ hfailed => hfailed
  failedBelow := fun hash hfailed => ⟨hash, self_mem_ancestry hash, hfailed⟩
  listed := fun _ hmem => hmem
  given := fun _ hmem => Or.inl hmem

section

variable (hgives : node.GivesUp origin)

include hgives

theorem GivesUp.branchOf : node.index.branchOf = origin.index.branchOf :=
  hgives.work.links.branchOf

theorem GivesUp.tip : node.tip = origin.tip :=
  congrArg head? hgives.chain

theorem GivesUp.offChain (target : Uint256) : node.offChain target = origin.offChain target := by
  rw [ForkNode.offChain, ForkNode.offChain, hgives.branchOf, hgives.chain]

theorem GivesUp.usable_iff (hsound : origin.Sound rules) :
    Usable node.index node.chain hash ↔ Usable origin.index origin.chain hash := by
  have hoff : ∀ block, block ∈ node.offChain hash ↔ block ∈ origin.offChain hash := by
    intro block
    rw [hgives.offChain]
  constructor
  · intro husable block hblock
    have hfalse := husable block ((hoff block).mpr hblock)
    rw [← Bool.not_eq_true] at hfalse ⊢
    exact fun hunusable => hfalse (hgives.unusable block hunusable)
  · intro husable block hblock
    have hmem := (hoff block).mp hblock
    rw [← Bool.not_eq_true]
    intro hunusable
    rcases hgives.hopeless block hunusable with hbad | ⟨bad, hbelow, hbad⟩
    · rw [husable block hmem] at hbad
      cases hbad
    · have hbranch := (isBranch_ancestry hash).ancestry_suffix_of_mem hsound.ranked
        ((mem_offChain hsound).mp hmem).1
      exact (usable_iff_not_hopeless hsound).mp husable ⟨bad, hbranch.subset hbelow, hbad⟩

theorem GivesUp.mem_candidates (hsound : origin.Sound rules) (hmem : hash ∈ origin.candidates)
    (husable : Usable origin.index origin.chain hash) : hash ∈ node.candidates :=
  (hgives.given hash hmem).resolve_right ((usable_iff_not_hopeless hsound).mp husable)

theorem GivesUp.less (address : Uint256 → Nat) (first second : Uint256) :
    node.index.less address first second ↔ origin.index.less address first second := by
  rw [less_iff, less_iff, hgives.work.keyOf, hgives.work.keyOf]

theorem GivesUp.selected {address : Uint256 → Nat} (hsound : origin.Sound rules)
    (hselected : Selected address node target) : Selected address origin target := by
  refine ⟨hgives.listed hselected.listed, (hgives.usable_iff hsound).mp hselected.usable, ?_⟩
  intro hash hmem husable
  rw [← hgives.less]
  exact hselected.unbeaten hash (hgives.mem_candidates hsound hmem husable)
    ((hgives.usable_iff hsound).mpr husable)

end

/-! ## `FindMostWorkChain` -/

theorem bestCandidate_none {address : Uint256 → Nat} {index : BlockMap}
    {candidates : List Uint256} (hbest : bestCandidate address index candidates = none) :
    candidates = [] := by
  cases candidates with
  | nil => rfl
  | cons first rest =>
    rw [bestCandidate] at hbest
    split at hbest
    · cases hbest
    · split at hbest <;> cases hbest

theorem bestCandidate_max {address : Uint256 → Nat} {index : BlockMap}
    {candidates : List Uint256} {best : Uint256}
    (hbest : bestCandidate address index candidates = some best) :
    ∀ hash ∈ candidates, ¬ index.less address best hash := by
  simp only [less_iff]
  induction candidates generalizing best with
  | nil => cases hbest
  | cons first rest ih =>
    rw [bestCandidate] at hbest
    rw [forall_mem_cons]
    cases hrest : bestCandidate address index rest with
    | none =>
      rw [hrest] at hbest
      cases hbest
      rw [bestCandidate_none hrest]
      exact ⟨lt_irrefl _, fun _ hmem => absurd hmem not_mem_nil⟩
    | some other =>
      rw [hrest] at hbest
      simp only [less_iff] at hbest
      split at hbest
      · rename_i hless
        cases hbest
        exact ⟨lt_irrefl _, fun hash hmem hgreater => ih hrest hash hmem (hless.trans hgreater)⟩
      · rename_i hless
        cases hbest
        exact ⟨hless, ih hrest⟩

/-- What marking may do to an entry above the bad one. -/
structure Marks (bad entry marked : CBlockIndex) : Prop where
  unusable : entry.unusable = true → marked.unusable = true
  failed : entry.failed = true → marked.failed = true
  failedOnly : marked.failed = true → entry.failed = true ∨ bad.failed = true

theorem Marks.refl (bad entry : CBlockIndex) : Marks bad entry entry :=
  ⟨fun hunusable => hunusable, fun hfailed => hfailed, fun hfailed => Or.inl hfailed⟩

theorem marks_markAbove (bad entry : CBlockIndex) : Marks bad entry (markAbove bad entry) := by
  unfold markAbove
  split
  · rename_i hfailed
    exact ⟨fun _ => rfl, fun _ => rfl, fun _ => Or.inr hfailed⟩
  · split
    · refine ⟨fun _ => ?_, fun hfailed => hfailed, fun hfailed => Or.inl hfailed⟩
      simp only [CBlockIndex.unusable, Bool.or_true]
    · exact .refl bad entry

theorem marks_foldl_markAbove (bad : CBlockIndex) (blocks : List Uint256) (index : BlockMap)
    (hash : Uint256) :
    Marks bad (index.entryOf hash) ((blocks.foldl
      (fun next block => next.modifyEntry (markAbove bad) block) index).entryOf hash) ∧
    (hash ∉ blocks → (blocks.foldl
      (fun next block => next.modifyEntry (markAbove bad) block) index).entryOf hash =
        index.entryOf hash) := by
  induction blocks generalizing index with
  | nil => exact ⟨.refl bad _, fun _ => rfl⟩
  | cons block rest ih =>
    obtain ⟨hmarks, hother⟩ := ih (index.modifyEntry (markAbove bad) block)
    have hentry := index.entryOf_modifyEntry (markAbove bad) block hash
    constructor
    · have hfirst : Marks bad (index.entryOf hash)
          ((index.modifyEntry (markAbove bad) block).entryOf hash) := by
        rw [hentry]
        split
        · exact marks_markAbove bad _
        · exact .refl bad _
      refine ⟨fun hunusable => hmarks.unusable (hfirst.unusable hunusable),
        fun hfailed => hmarks.failed (hfirst.failed hfailed), ?_⟩
      intro hfailed
      exact (hmarks.failedOnly hfailed).elim hfirst.failedOnly Or.inr
    · intro hnot
      obtain ⟨hne, hnotRest⟩ := not_or.mp (mt mem_cons.mpr hnot)
      rw [if_neg (fun hsame => hne hsame.1.symm)] at hentry
      exact (hother hnotRest).trans hentry

section Drop

variable {bad : Uint256}
  (hbad : (node.offChain target).find? (fun block => (node.index.entryOf block).unusable) =
    some bad)

include hbad

theorem bad_mem_offChain : bad ∈ node.offChain target :=
  mem_of_find?_eq_some hbad

variable (hsound : node.Sound rules)

include hsound

theorem bad_mem_branchOf
    (habove : hash ∈ (node.offChain target).takeWhile (fun block => block ≠ bad)) :
    bad ∈ node.index.branchOf hash := by
  have hbranch := takeWhile_append_dropWhile (p := fun block => decide (block ∉ node.chain))
    (l := node.index.branchOf target)
  have hoff := takeWhile_append_dropWhile (p := fun block => decide (block ≠ bad))
    (l := node.offChain target)
  rw [← offChain, ← hoff, append_assoc] at hbranch
  refine mem_ancestry_of_append hsound.ranked hbranch habove (mem_append_left _ ?_)
  have hmem := bad_mem_offChain hbad
  rw [← hoff] at hmem
  refine (mem_append.mp hmem).resolve_left ?_
  intro hbefore
  simpa using mem_takeWhile_imp hbefore

variable (hgives : node.GivesUp origin)

include hgives

theorem GivesUp.hopeless_above
    (habove : hash ∈ (node.offChain target).takeWhile (fun block => block ≠ bad) ∨ hash = bad) :
    origin.Hopeless hash := by
  have hmem : bad ∈ origin.index.branchOf hash := by
    rw [← hgives.branchOf]
    rcases habove with habove | rfl
    · exact bad_mem_branchOf hbad hsound habove
    · exact self_mem_ancestry hash
  have hoff := ((mem_offChain hsound).mp (bad_mem_offChain hbad)).2
  rw [hgives.chain] at hoff
  have hunusable : (node.index.entryOf bad).unusable = true := by
    simpa using find?_some hbad
  rcases hgives.hopeless bad hunusable with hunusable | ⟨worse, hbelow, hworse⟩
  · exact ⟨bad, hmem, hoff, hunusable⟩
  · have hranked := hsound.ranked
    rw [hgives.work.links.parentOf, hgives.work.links.heightOf] at hranked
    have hbranch := (isBranch_ancestry hash).ancestry_suffix_of_mem hranked hmem
    exact ⟨worse, hbranch.subset hbelow, hworse⟩

theorem GivesUp.dropBranch : (node.dropBranch target bad).GivesUp origin := by
  have hmarks := marks_foldl_markAbove (node.index.entryOf bad)
    ((node.offChain target).takeWhile (fun block => block ≠ bad)) node.index
  refine ⟨(node.dropBranch_work target bad).trans hgives.work, hgives.chain, hgives.stores,
    ?_, ?_, ?_, ?_, ?_, ?_⟩
  · intro hash hunusable
    exact (hmarks hash).1.unusable (hgives.unusable hash hunusable)
  · intro hash hunusable
    by_cases habove : hash ∈ (node.offChain target).takeWhile (fun block => block ≠ bad)
    · exact Or.inr (hgives.hopeless_above hbad hsound (Or.inl habove))
    · change (entryOf (foldl _ _ _) hash).unusable = true at hunusable
      rw [(hmarks hash).2 habove] at hunusable
      exact hgives.hopeless hash hunusable
  · intro hash hfailed
    exact (hmarks hash).1.failed (hgives.failed hash hfailed)
  · intro hash hfailed
    by_cases habove : hash ∈ (node.offChain target).takeWhile (fun block => block ≠ bad)
    · rcases (hmarks hash).1.failedOnly hfailed with hown | hbadFailed
      · exact hgives.failedBelow hash hown
      · obtain ⟨worse, hbelow, hworse⟩ := hgives.failedBelow bad hbadFailed
        have hmem := bad_mem_branchOf hbad hsound habove
        have hbranch := (isBranch_ancestry hash).ancestry_suffix_of_mem hsound.ranked hmem
        rw [← hgives.branchOf] at hbelow ⊢
        exact ⟨worse, hbranch.subset hbelow, hworse⟩
    · change (entryOf (foldl _ _ _) hash).failed = true at hfailed
      rw [(hmarks hash).2 habove] at hfailed
      exact hgives.failedBelow hash hfailed
  · intro hash hmem
    exact hgives.listed (mem_of_mem_filter hmem)
  · intro hash hmem
    rcases hgives.given hash hmem with hlisted | hhopeless
    · by_cases habove :
        hash ∈ (node.offChain target).takeWhile (fun block => block ≠ bad) ∨ hash = bad
      · exact Or.inr (hgives.hopeless_above hbad hsound habove)
      · refine Or.inl (mem_filter.mpr ⟨hlisted, ?_⟩)
        simpa using not_or.mp habove
    · exact Or.inr hhopeless

omit hgives hsound

theorem length_dropBranch_lt (hlisted : target ∈ node.candidates) :
    (node.dropBranch target bad).candidates.length < node.candidates.length := by
  have hhead : ∃ rest, node.offChain target = target :: rest := by
    have hmem := bad_mem_offChain hbad
    rw [offChain, branchOf, ancestry, ancestryUpTo, takeWhile_cons] at hmem ⊢
    split at hmem
    · rename_i hoff
      rw [if_pos hoff]
      exact ⟨_, rfl⟩
    · cases hmem
  obtain ⟨rest, hoff⟩ := hhead
  refine length_filter_lt_length_iff_exists.mpr ⟨target, hlisted, ?_⟩
  by_cases heq : target = bad
  · simp [heq]
  · simp [hoff, heq]

end Drop

theorem GivesUp.findMostWorkLoop {fuel : Nat} (hgives : node.GivesUp origin)
    (hsound : node.Sound rules) (hfuel : node.candidates.length < fuel) :
    let result := findMostWorkLoop rules.address fuel node
    result.1.Sound rules ∧ result.1.GivesUp origin ∧
      (∀ target ∈ result.2, Selected rules.address result.1 target) ∧
      (result.2 = none → result.1.candidates = []) := by
  dsimp only
  induction fuel generalizing node with
  | zero => cases hfuel
  | succ fuel ih =>
    rw [findMostWorkLoop]
    cases hbest : bestCandidate rules.address node.index node.candidates with
    | none =>
      refine ⟨hsound, hgives, ?_, fun _ => bestCandidate_none hbest⟩
      intro target htarget
      cases htarget
    | some hash =>
      have hlisted := bestCandidate_mem hbest
      simp only
      split
      · rename_i hnone
        refine ⟨hsound, hgives, ?_, ?_⟩
        · intro target htarget
          cases htarget
          refine ⟨hlisted, ?_, fun other hother _ => bestCandidate_max hbest other hother⟩
          intro block hblock
          simpa using find?_eq_none.mp hnone block hblock
        · intro habsurd
          cases habsurd
      · rename_i bad hbad
        have hlength := length_dropBranch_lt hbad hlisted
        exact ih (hgives.dropBranch hbad hsound) (hsound.dropBranch hash bad) (by omega)

/-! ## Attempts -/

theorem entryOf_writeSeal {β : Type} {mark : CBlockIndex → β}
    (hmark : ∀ entry prevSealWork write,
      mark (CBlockIndex.applyWrite entry prevSealWork write) = mark entry)
    (index : BlockMap) (sealHeight : Nat) (hash other : Uint256) (write : SealWrite) :
    mark ((index.writeSeal sealHeight hash write).entryOf other) = mark (index.entryOf other) := by
  unfold BlockMap.writeSeal
  split
  · rfl
  · rw [entryOf_modifyEntry]
    split
    · exact hmark _ _ write
    · rfl

@[simp] theorem unusable_writeSeal (index : BlockMap) (sealHeight : Nat) (hash other : Uint256)
    (write : SealWrite) : ((index.writeSeal sealHeight hash write).entryOf other).unusable =
      (index.entryOf other).unusable :=
  entryOf_writeSeal (fun _ _ write => by cases write <;> rfl) index sealHeight hash other write

@[simp] theorem failed_writeSeal (index : BlockMap) (sealHeight : Nat) (hash other : Uint256)
    (write : SealWrite) : ((index.writeSeal sealHeight hash write).entryOf other).failed =
      (index.entryOf other).failed :=
  entryOf_writeSeal (fun _ _ write => by cases write <;> rfl) index sealHeight hash other write

section

variable {write : SealWrite} {stores : σ} {block : Uint256}

@[simp] theorem connected_index :
    (node.connected rules hash write stores).index =
      node.index.writeSeal rules.sealHeight hash write := rfl

@[simp] theorem connected_chain :
    (node.connected rules hash write stores).chain = hash :: node.chain := rfl

theorem mem_candidates_writeSeal :
    block ∈ (node.writeSeal rules hash write).candidates ↔
      block ∈ node.candidates ∨ (block = hash ∧ ¬ node.index.heightOf hash < rules.sealHeight ∧
        write ≠ .neutral) := by
  simp only [writeSeal]
  split
  · simp [*]
  · cases write with
    | neutral => simp
    | weighed nSealWeight =>
      by_cases heq : block = hash <;> simp [*]

theorem mem_connected_candidates :
    block ∈ (node.connected rules hash write stores).candidates ↔
      block ∈ (node.writeSeal rules hash write).candidates ∧
        ¬ (node.index.writeSeal rules.sealHeight hash write).keyOf rules.address block <
          (node.index.writeSeal rules.sealHeight hash write).keyOf rules.address hash := by
  rw [← less_iff]
  change block ∈ filter _ _ ↔ _
  rw [mem_filter, Bool.not_eq_true', Bool.not_eq_true]
  rfl

end

theorem Hopeless.mono {next : ForkNode σ} (hhopeless : origin.Hopeless hash)
    (hbranch : next.index.branchOf = origin.index.branchOf)
    (hunusable : ∀ bad ∉ origin.chain, (origin.index.entryOf bad).unusable = true →
      bad ∉ next.chain ∧ (next.index.entryOf bad).unusable = true) : next.Hopeless hash := by
  obtain ⟨bad, hmem, hoff, hbad⟩ := hhopeless
  rw [← hbranch] at hmem
  exact ⟨bad, hmem, hunusable bad hoff hbad⟩

section

variable (hgives : node.GivesUp origin)

include hgives

theorem GivesUp.disconnectToFork (target : Uint256) :
    (node.disconnectToFork rules target).GivesUp (origin.disconnectToFork rules target) := by
  have hkept : node.keptChain target = origin.keptChain target := by
    unfold keptChain findFork
    rw [hgives.branchOf, hgives.chain]
  have hmono : ∀ hash, origin.Hopeless hash →
      (origin.disconnectToFork rules target).Hopeless hash := by
    intro hash hhopeless
    refine hhopeless.mono rfl (fun bad hoff hbad => ⟨?_, hbad⟩)
    exact fun hmem => hoff ((origin.keptChain_suffix target).subset hmem)
  refine ⟨hgives.work, hkept, ?_, hgives.unusable, ?_, hgives.failed, hgives.failedBelow,
    hgives.listed, ?_⟩
  · simp only [ForkNode.disconnectToFork, hkept, hgives.chain, hgives.stores]
  · intro hash hunusable
    exact (hgives.hopeless hash hunusable).imp_right (hmono hash)
  · intro hash hmem
    exact (hgives.given hash hmem).imp_right (hmono hash)

variable (hash : Uint256)

theorem GivesUp.writeSeal (write : SealWrite) :
    (node.writeSeal rules hash write).GivesUp (origin.writeSeal rules hash write) := by
  have hlinks := BlockMap.sameLinks_writeSeal origin.index rules.sealHeight hash write
  have hmono : ∀ other, origin.Hopeless other →
      (origin.writeSeal rules hash write).Hopeless other := by
    intro other hhopeless
    refine hhopeless.mono hlinks.branchOf (fun bad hoff hbad => ⟨hoff, ?_⟩)
    exact (unusable_writeSeal origin.index rules.sealHeight hash bad write).trans hbad
  refine ⟨hgives.work.writeSeal rules.sealHeight hash write, hgives.chain, hgives.stores,
    ?_, ?_, ?_, ?_, ?_, ?_⟩
  all_goals intro other
  · simpa only [ForkNode.writeSeal, unusable_writeSeal] using hgives.unusable other
  · simp only [ForkNode.writeSeal, unusable_writeSeal]
    exact fun hunusable => (hgives.hopeless other hunusable).imp_right (hmono other)
  · simpa only [ForkNode.writeSeal, failed_writeSeal] using hgives.failed other
  · simpa only [ForkNode.writeSeal, failed_writeSeal, hlinks.branchOf] using
      hgives.failedBelow other
  · rw [mem_candidates_writeSeal, mem_candidates_writeSeal, hgives.work.links.heightOf]
    exact Or.imp_left (fun hmem => hgives.listed hmem)
  · rw [mem_candidates_writeSeal, mem_candidates_writeSeal, hgives.work.links.heightOf]
    rintro (hmem | hwritten)
    · exact (hgives.given other hmem).imp Or.inl (hmono other)
    · exact Or.inl (Or.inr hwritten)

theorem GivesUp.connected (husable : (origin.index.entryOf hash).unusable = false)
    (write : SealWrite) (stores : σ) :
    (node.connected rules hash write stores).GivesUp
      (origin.connected rules hash write stores) := by
  have hwritten : (node.writeSeal rules hash write).GivesUp (origin.writeSeal rules hash write) :=
    hgives.writeSeal hash write
  have hmono : ∀ other, (origin.writeSeal rules hash write).Hopeless other →
      (origin.connected rules hash write stores).Hopeless other := by
    intro other hhopeless
    refine hhopeless.mono rfl (fun bad hoff hbad => ⟨?_, hbad⟩)
    refine not_mem_cons_of_ne_of_not_mem ?_ hoff
    rintro rfl
    simp only [ForkNode.writeSeal, unusable_writeSeal, husable] at hbad
    cases hbad
  have hkeys := (hgives.work.writeSeal rules.sealHeight hash write).keyOf rules.address
  refine ⟨hwritten.work, congrArg (cons hash) hgives.chain, rfl, hwritten.unusable, ?_,
    hwritten.failed, hwritten.failedBelow, ?_, ?_⟩
  all_goals intro other
  · exact fun hunusable => (hwritten.hopeless other hunusable).imp_right (hmono other)
  · rw [mem_connected_candidates, mem_connected_candidates, hkeys, hkeys]
    exact fun hmem => ⟨hwritten.listed hmem.1, hmem.2⟩
  · rw [mem_connected_candidates, mem_connected_candidates, hkeys, hkeys]
    rintro ⟨hmem, hkey⟩
    exact (hwritten.given other hmem).imp (fun hlisted => ⟨hlisted, hkey⟩) (hmono other)

theorem GivesUp.invalidBlockFound :
    (node.invalidBlockFound hash).GivesUp (origin.invalidBlockFound hash) := by
  have hentry := fun index other => BlockMap.entryOf_modifyEntry index asFailed hash other
  have hsame : ∀ index : BlockMap, (index.modifyEntry asFailed hash).SameWork index := by
    intro index
    apply index.sameWork_modifyEntry
    exact fun _ => rfl
  have hmono : ∀ other, origin.Hopeless other → (origin.invalidBlockFound hash).Hopeless other := by
    intro other hhopeless
    refine hhopeless.mono (hsame origin.index).links.branchOf (fun bad hoff hbad => ⟨hoff, ?_⟩)
    simp only [ForkNode.invalidBlockFound, hentry]
    split
    · rfl
    · exact hbad
  refine ⟨(hsame node.index).trans (hgives.work.trans (hsame origin.index).symm), hgives.chain,
    hgives.stores, ?_, ?_, ?_, ?_, ?_, ?_⟩
  all_goals intro other
  · simp only [ForkNode.invalidBlockFound, hentry, hgives.work.links.isSome]
    split
    · exact fun _ => rfl
    · exact hgives.unusable other
  · have hhopeless := fun hunusable => (hgives.hopeless other hunusable).imp_right (hmono other)
    simp only [ForkNode.invalidBlockFound, hentry, hgives.work.links.isSome] at hhopeless ⊢
    split
    · exact fun _ => Or.inl rfl
    · exact hhopeless
  · simp only [ForkNode.invalidBlockFound, hentry, hgives.work.links.isSome]
    split
    · exact fun _ => rfl
    · exact hgives.failed other
  · simp only [ForkNode.invalidBlockFound, hentry, hgives.work.links.isSome,
      (hsame origin.index).links.branchOf]
    split
    · rename_i hmarked
      intro _
      refine ⟨other, self_mem_ancestry other, ?_⟩
      rw [if_pos hmarked]
      rfl
    · intro hfailed
      obtain ⟨bad, hbelow, hbad⟩ := hgives.failedBelow other hfailed
      refine ⟨bad, hbelow, ?_⟩
      split
      · rfl
      · exact hbad
  · simp only [ForkNode.invalidBlockFound, mem_filter]
    exact fun hmem => ⟨hgives.listed hmem.1, hmem.2⟩
  · have hgiven := fun hmem => (hgives.given other hmem).imp_right (hmono other)
    simp only [ForkNode.invalidBlockFound, mem_filter] at hgiven ⊢
    rintro ⟨hmem, hne⟩
    exact (hgiven hmem).imp_left (fun hlisted => ⟨hlisted, hne⟩)

theorem GivesUp.rejectTip (write : Option SealWrite) (mutated : Bool) (stores : σ) :
    (node.rejectTip rules hash write mutated stores).GivesUp
      (origin.rejectTip rules hash write mutated stores) := by
  have hwritten : (write.elim node (node.writeSeal rules hash)).GivesUp
      (write.elim origin (origin.writeSeal rules hash)) := by
    cases write with
    | none => exact hgives
    | some write => exact hgives.writeSeal hash write
  have hmarked : (if mutated then write.elim node (node.writeSeal rules hash)
      else (write.elim node (node.writeSeal rules hash)).invalidBlockFound hash).GivesUp
      (if mutated then write.elim origin (origin.writeSeal rules hash)
      else (write.elim origin (origin.writeSeal rules hash)).invalidBlockFound hash) := by
    cases mutated with
    | true => exact hwritten
    | false => exact hwritten.invalidBlockFound hash
  exact ⟨hmarked.work, hmarked.chain, rfl, hmarked.unusable, hmarked.hopeless,
    hmarked.failed, hmarked.failedBelow, hmarked.listed, hmarked.given⟩

theorem GivesUp.attemptBlocks {blocks : List Uint256}
    (husable : ∀ block ∈ blocks, (origin.index.entryOf block).unusable = false) :
    (attemptBlocks rules blocks node).1.GivesUp (attemptBlocks rules blocks origin).1 ∧
      (attemptBlocks rules blocks node).2 = (attemptBlocks rules blocks origin).2 := by
  induction blocks generalizing node origin with
  | nil => exact ⟨hgives, rfl⟩
  | cons hash rest ih =>
    rw [attemptBlocks, attemptBlocks, hgives.stores]
    obtain ⟨hhash, hrest⟩ := forall_mem_cons.mp husable
    split
    · exact ⟨hgives.rejectTip hash _ _ _, rfl⟩
    · refine ih (hgives.connected hash hhash _ _) ?_
      simpa only [connected_index, unusable_writeSeal] using hrest

theorem GivesUp.attempt (rules : ConnectRules σ)
    (husable : Usable origin.index origin.chain target) :
    (node.attempt rules target).1.GivesUp (origin.attempt rules target).1 ∧
      (node.attempt rules target).2 = (origin.attempt rules target).2 := by
  unfold ForkNode.attempt
  rw [hgives.offChain]
  refine (hgives.disconnectToFork target).attemptBlocks ?_
  intro block hblock
  exact husable block (mem_reverse.mp hblock)

end

end ForkNode

end Kerrigan.Validation
