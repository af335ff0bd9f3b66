import Kerrigan.Validation.Selection

/-!
# Where activation ends

On a sound node every turn of `ActivateBestChain` works towards one target, and the entries
outside the branch of the target stay as the selection found them.  The final tip is heaviest
exactly when the target at which the call settles, with its branch weighed as `ConnectBlock` weighs
it, is not below the other candidates and the old tip.
-/

namespace Kerrigan.Validation

open Primitives Lib BlockMap ForkNode List Activation

namespace ForkNode

variable {σ : Type}

/-! ## The specification -/

variable (index : BlockMap) (chain : List Uint256) (address : Uint256 → Nat)

def HasFailed : Prop :=
  ∃ block ∈ chain, (index.entryOf block).failed = true

/-- No usable candidate is left above the tip, and the tip is not below the old one unless a
block of the old chain was found invalid. -/
def EndsHeaviest (start final : ForkNode σ) : Prop :=
  ∀ tip ∈ final.tip,
    (∀ hash ∈ final.candidates, Usable final.index final.chain hash →
      ¬ final.index.less address tip hash) ∧
    (HasFailed final.index start.chain ∨
      ∀ old ∈ start.tip, ¬ final.index.less address tip old)

/-- The target, once its branch is weighed, is not below a usable candidate of another branch,
nor below the tip at the start of the call unless that is on its branch or has failed. -/
def HeaviestOnceWeighed (rules : ConnectRules σ) (start selection : ForkNode σ)
    (target : Uint256) : Prop :=
  let weighed := (selection.attempt rules target).1.index
  (∀ hash ∈ selection.candidates, hash ∉ selection.index.branchOf target →
    Usable selection.index (selection.index.branchOf target) hash →
      ¬ weighed.keyOf rules.address target < selection.index.keyOf rules.address hash) ∧
  (HasFailed selection.index start.chain ∨
    ∀ old ∈ start.tip, old ∉ selection.index.branchOf target →
      ¬ weighed.keyOf rules.address target < selection.index.keyOf rules.address old)

/-! ## Branches of known blocks -/

variable {rules : ConnectRules σ} {node : ForkNode σ} {target hash : Uint256}

theorem isSome_of_mem_branchOf {index : BlockMap} (hclosed : index.ParentClosed)
    (htarget : index[target]?.isSome) (hmem : hash ∈ index.branchOf target) :
    index[hash]?.isSome := by
  have hranked := hclosed.ranked
  induction hheight : index.heightOf target using Nat.strong_induction_on generalizing target with
  | _ bound ih =>
    rw [branchOf, ancestry_eq hranked target] at hmem
    rcases mem_cons.mp hmem with rfl | hmem
    · exact htarget
    · cases habove : index.parentOf target with
      | none =>
        rw [habove, Option.elim_none] at hmem
        cases hmem
      | some above =>
        rw [habove, Option.elim_some] at hmem
        have hlt := hranked target above habove
        obtain ⟨entry, hentry, hpprev⟩ := Option.bind_eq_some_iff.mp habove
        obtain ⟨prev, hprev, -⟩ := hclosed target entry hentry above hpprev
        have hknown : index[above]?.isSome := by
          rw [hprev]
          rfl
        exact ih (index.heightOf above) (by omega) hknown hmem rfl

theorem offChain_append_chain (hsound : node.Sound rules)
    (hsuffix : node.chain <:+ node.index.branchOf target) :
    node.offChain target ++ node.chain = node.index.branchOf target := by
  obtain ⟨front, hfront⟩ := hsuffix
  have hnodup : (front ++ node.chain).Nodup := by
    rw [hfront]
    exact nodup_ancestry hsound.ranked target
  rw [offChain, ← hfront, takeWhile_notMem_append hnodup]

theorem disconnectToFork_eq_self (hsound : node.Sound rules)
    (hsuffix : node.chain <:+ node.index.branchOf target) :
    node.disconnectToFork rules target = node := by
  have hkept : node.keptChain target = node.chain := by
    obtain ⟨front, hfront⟩ := hsuffix
    have hnodup : (front ++ node.chain).Nodup := by
      rw [hfront]
      exact nodup_ancestry hsound.ranked target
    rw [hsound.keptChain_eq, ← hfront, dropWhile_notMem_append hnodup]
  unfold disconnectToFork
  simp only [hkept, Nat.sub_self, take_zero, foldl_nil]

theorem offChain_disconnectToFork (hsound : node.Sound rules) :
    (node.disconnectToFork rules target).offChain target = node.offChain target := by
  have hsplit := takeWhile_append_dropWhile (p := fun block => decide (block ∉ node.chain))
    (l := node.index.branchOf target)
  rw [← hsound.keptChain_eq] at hsplit
  have hsuffix : (node.disconnectToFork rules target).chain <:+
      (node.disconnectToFork rules target).index.branchOf target := ⟨_, hsplit⟩
  have hbase := offChain_append_chain (hsound.disconnectToFork target) hsuffix
  exact append_cancel_right (hbase.trans hsplit.symm)

theorem chain_suffix_tip (hsound : node.Sound rules) {tip : Uint256} (htip : tip ∈ node.tip) :
    node.chain <:+ node.index.branchOf tip := by
  rw [hsound.tip_branchOf htip]

/-! ## Progress towards a target -/

/-- The node is on its way from the selection to the target: its chain ends the branch of the
target, connecting the rest of the branch completes the attempt of the selection, and off the
branch nothing has changed but the candidates that fell below a block of the chain. -/
structure Progress (rules : ConnectRules σ) (selection : ForkNode σ) (target : Uint256)
    (node : ForkNode σ) : Prop where
  links : SameLinks node.index selection.index
  suffix : node.chain <:+ selection.index.branchOf target
  remaining : attemptBlocks rules (node.offChain target).reverse node =
    selection.attempt rules target
  outside : ∀ hash ∉ selection.index.branchOf target, node.index[hash]? = selection.index[hash]?
  marks : ∀ hash, (node.index.entryOf hash).failed = (selection.index.entryOf hash).failed
  selected : ∀ hash ∈ node.candidates, hash ∉ selection.index.branchOf target →
    hash ∈ selection.candidates
  kept : ∀ hash ∈ selection.candidates, hash ∉ selection.index.branchOf target →
    (∀ block ∈ node.chain, ¬ selection.index.keyOf rules.address hash <
      node.index.keyOf rules.address block) → hash ∈ node.candidates

variable {selection : ForkNode σ} {target : Uint256}

theorem Progress.branchOf (hprogress : Progress rules selection target node) :
    node.index.branchOf target = selection.index.branchOf target :=
  congrFun hprogress.links.branchOf target

theorem Progress.suffix' (hprogress : Progress rules selection target node) :
    node.chain <:+ node.index.branchOf target := by
  rw [hprogress.branchOf]
  exact hprogress.suffix

theorem progress_disconnectToFork (hsound : selection.Sound rules) :
    Progress rules selection target (selection.disconnectToFork rules target) := by
  refine ⟨.refl _, ?_, ?_, fun _ _ => rfl, fun _ => rfl, fun _ hmem _ => hmem,
    fun _ hmem _ _ => hmem⟩
  · change selection.keptChain target <:+ _
    rw [hsound.keptChain_eq]
    exact dropWhile_suffix _
  · rw [offChain_disconnectToFork hsound]
    rfl

theorem offChain_eq_nil (hsound : node.Sound rules) (htip : target ∈ node.tip) :
    node.offChain target = [] := by
  have hsplit := offChain_append_chain hsound (chain_suffix_tip hsound htip)
  rw [← hsound.tip_branchOf htip] at hsplit
  exact append_left_eq_self.mp hsplit

theorem progress_of_tip (hsound : selection.Sound rules) (htip : target ∈ selection.tip) :
    Progress rules selection target selection := by
  have hprogress : Progress rules selection target (selection.disconnectToFork rules target) :=
    progress_disconnectToFork hsound
  rwa [disconnectToFork_eq_self hsound (chain_suffix_tip hsound htip)] at hprogress

variable {write : SealWrite}

variable {rest : List Uint256}

theorem Progress.next_block (hsound : node.Sound rules)
    (hprogress : Progress rules selection target node)
    (hnext : (node.offChain target).reverse = hash :: rest) :
    rest.reverse ++ (hash :: node.chain) = selection.index.branchOf target := by
  have hsplit := offChain_append_chain hsound hprogress.suffix'
  have hoff : node.offChain target = rest.reverse ++ [hash] := by
    rw [← reverse_reverse (node.offChain target), hnext, reverse_cons]
  rw [hoff, append_assoc, hprogress.branchOf] at hsplit
  exact hsplit

theorem keyOf_congr {first second : BlockMap} (hsame : first[hash]? = second[hash]?) :
    first.keyOf address hash = second.keyOf address hash := by
  simp only [keyOf, entryOf, hsame]

theorem sameLinks_rejectTip (hash : Uint256) (write : Option SealWrite) (mutated : Bool)
    (stores : σ) : SameLinks (node.rejectTip rules hash write mutated stores).index node.index := by
  have hwritten : SameLinks (write.elim node (node.writeSeal rules hash)).index node.index := by
    cases write with
    | none => exact .refl node.index
    | some write => exact sameLinks_writeSeal node.index rules.sealHeight hash write
  cases mutated with
  | true => exact hwritten
  | false =>
    refine SameLinks.trans ?_ hwritten
    apply sameLinks_modifyEntry
    exact fun _ => rfl

section

variable (hsound : node.Sound rules)

include hsound

theorem Progress.connected (hprogress : Progress rules selection target node)
    (hnext : (node.offChain target).reverse = hash :: rest) {stores : σ}
    (hconnect : rules.connectBlock node.stores hash = (.connected write, stores)) :
    Progress rules selection target (node.connected rules hash write stores) ∧
      ((node.connected rules hash write stores).offChain target).reverse = rest := by
  have hbranch := hprogress.next_block hsound hnext
  have hlinks : SameLinks (node.index.writeSeal rules.sealHeight hash write)
      selection.index :=
    (sameLinks_writeSeal node.index rules.sealHeight hash write).trans hprogress.links
  have hnodup : (rest.reverse ++ (hash :: node.chain)).Nodup := by
    rw [hbranch, ← hprogress.branchOf]
    exact nodup_ancestry hsound.ranked target
  have hoff : (node.connected rules hash write stores).offChain target = rest.reverse := by
    rw [offChain, connected_index, connected_chain, hlinks.branchOf, ← hbranch]
    exact takeWhile_notMem_append hnodup
  have hmem : hash ∈ selection.index.branchOf target := by
    rw [← hbranch]
    exact mem_append_right _ mem_cons_self
  have hother : ∀ block ∉ selection.index.branchOf target,
      (node.index.writeSeal rules.sealHeight hash write)[block]? = selection.index[block]? := by
    intro block hblock
    have hne : hash ≠ block := by
      intro heq
      exact hblock (heq ▸ hmem)
    rw [getElem?_writeSeal_of_ne node.index rules.sealHeight write hne]
    exact hprogress.outside block hblock
  refine ⟨⟨hlinks, ?_, ?_, hother, ?_, ?_, ?_⟩, ?_⟩
  · rw [← hbranch, connected_chain]
    exact suffix_append _ _
  · rw [hoff, reverse_reverse]
    have hremaining := hprogress.remaining
    rw [hnext, attemptBlocks] at hremaining
    simp only [hconnect] at hremaining
    exact hremaining
  · intro block
    rw [connected_index, failed_writeSeal]
    exact hprogress.marks block
  · intro block hblock hnot
    rcases mem_writeSeal_candidates (mem_connected_candidates.mp hblock).1 with rfl | hblock
    · exact absurd hmem hnot
    · exact hprogress.selected block hblock hnot
  · intro block hblock hnot habove
    refine mem_connected_candidates.mpr ⟨mem_candidates_writeSeal.mpr (Or.inl ?_), ?_⟩
    · refine hprogress.kept block hblock hnot ?_
      intro other hotherMem
      have hneOther : hash ≠ other := by
        intro heq
        have hsplit := (nodup_append.mp hnodup).2.1
        exact (nodup_cons.mp hsplit).1 (heq ▸ hotherMem)
      have hkey := habove other (mem_cons_of_mem hash hotherMem)
      rwa [connected_index, keyOf_congr rules.address
        (getElem?_writeSeal_of_ne node.index rules.sealHeight write hneOther)] at hkey
    · have hkey := habove hash mem_cons_self
      rwa [connected_index, ← keyOf_congr rules.address (hother block hnot)] at hkey
  · rw [hoff, reverse_reverse]

theorem Progress.extends
    (hprogress : Progress rules selection target node) (htarget : node.index[target]?.isSome)
    (hnext : (node.offChain target).reverse = hash :: rest) :
    IsBranch node.index.parentOf node.index.heightOf (hash :: node.chain) ∧
      node.index[hash]?.isSome := by
  have hbranch := hprogress.next_block hsound hnext
  rw [← hprogress.branchOf] at hbranch
  have hsuffix : (hash :: node.chain) <:+ node.index.branchOf target := by
    rw [← hbranch]
    exact suffix_append _ _
  constructor
  · exact (isBranch_ancestry target).suffix hsound.ranked hsuffix
  · exact isSome_of_mem_branchOf hsound.index.closed htarget
      (hsuffix.subset mem_cons_self)

theorem Progress.attemptBlocks
    (hprogress : Progress rules selection target node) (htarget : node.index[target]?.isSome)
    {blocks : List Uint256} (hblocks : (node.offChain target).reverse = blocks ++ rest) :
    let result := node.attemptBlocks rules blocks
    result.1.Sound rules ∧ SameLinks result.1.index node.index ∧
      (result.2 = false → Progress rules selection target result.1 ∧
        (result.1.offChain target).reverse = rest) ∧
      (result.2 = true → result = selection.attempt rules target) := by
  dsimp only
  induction blocks generalizing node with
  | nil =>
    refine ⟨hsound, .refl node.index, fun _ => ⟨hprogress, hblocks⟩, ?_⟩
    intro habsurd
    cases habsurd
  | cons hash tail ih =>
    obtain ⟨hbranch, hknown⟩ := hprogress.extends hsound htarget hblocks
    have hremaining := hprogress.remaining
    rw [hblocks, cons_append, attemptBlocks] at hremaining
    rw [attemptBlocks]
    split
    · rename_i write mutated stores hconnect
      have hnot : hash ∉ node.chain := (nodup_cons.mp (hbranch.nodup hsound.ranked)).1
      simp only [hconnect] at hremaining
      refine ⟨hsound.rejectTip hnot hknown write mutated stores,
        sameLinks_rejectTip hash write mutated stores, ?_, fun _ => hremaining⟩
      intro hfalse
      cases hfalse
    · rename_i write stores hconnect
      obtain ⟨hnextProgress, hrest⟩ := hprogress.connected hsound hblocks hconnect
      have hlinks := sameLinks_writeSeal node.index rules.sealHeight hash write
      have hnextSound : (node.connected rules hash write stores).Sound rules :=
        (hsound.connectTip hbranch hknown write stores).pruneBlockIndexCandidates
      obtain ⟨hlast, hsame, hvalid, hinvalid⟩ :=
        ih hnextSound hnextProgress ((hlinks.isSome target).trans htarget) hrest
      exact ⟨hlast, hsame.trans hlinks, hvalid, hinvalid⟩

theorem Progress.tip_eq (hprogress : Progress rules selection target node)
    (hnil : node.offChain target = []) : node.tip = some target := by
  have hchain := offChain_append_chain hsound hprogress.suffix'
  rw [hnil, nil_append] at hchain
  rw [tip, hchain]
  exact head?_ancestry target

omit hsound in
/-- A step connects blocks until the tip is better than the old one. -/
theorem connectBlocks_eq (rules : ConnectRules σ) (pindexOldTip : Option Uint256)
    (blocks : List Uint256) (node : ForkNode σ) :
    ∃ front rest, blocks = front ++ rest ∧ (blocks ≠ [] → front ≠ []) ∧
      node.connectBlocks rules pindexOldTip blocks = node.attemptBlocks rules front := by
  induction blocks generalizing node with
  | nil => exact ⟨[], [], rfl, fun hne => hne, rfl⟩
  | cons hash tail ih =>
    rw [connectBlocks]
    split
    · rename_i hconnect
      refine ⟨[hash], tail, rfl, fun _ => cons_ne_nil _ _, ?_⟩
      simp only [attemptBlocks, hconnect]
    · rename_i write stores hconnect
      simp only
      split
      · refine ⟨[hash], tail, rfl, fun _ => cons_ne_nil _ _, ?_⟩
        simp only [attemptBlocks, hconnect]
        rfl
      · obtain ⟨front, rest, hsplit, -, hfront⟩ :=
          ih (node.connected rules hash write stores)
        refine ⟨hash :: front, rest, congrArg (cons hash) hsplit,
          fun _ => cons_ne_nil _ _, ?_⟩
        rw [attemptBlocks, hconnect]
        exact hfront

theorem Progress.activateBestChainStep (htarget : node.index[target]?.isSome)
    (hprogress : node = selection ∨ Progress rules selection target node) :
    let result := node.activateBestChainStep rules target
    result.1.Sound rules ∧
      (result.2 = false → Progress rules selection target result.1 ∧
        (result.1.tip = some target ∨
          (result.1.offChain target).length < (node.offChain target).length)) ∧
      (result.2 = true → result = selection.attempt rules target) := by
  have hbase : Progress rules selection target (node.disconnectToFork rules target) := by
    rcases hprogress with rfl | hprogress
    · exact progress_disconnectToFork hsound
    · rw [disconnectToFork_eq_self hsound hprogress.suffix']
      exact hprogress
  obtain ⟨front, rest, hblocks, hfront, hstep⟩ := connectBlocks_eq rules node.tip
    ((node.disconnectToFork rules target).offChain target).reverse
    (node.disconnectToFork rules target)
  obtain ⟨hlast, -, hvalid, hinvalid⟩ :=
    hbase.attemptBlocks (hsound.disconnectToFork target) htarget hblocks
  dsimp only
  rw [ForkNode.activateBestChainStep, hstep]
  refine ⟨hlast, ?_, hinvalid⟩
  intro hfalse
  obtain ⟨hprogress, hrest⟩ := hvalid hfalse
  refine ⟨hprogress, ?_⟩
  have hlength := congrArg length hrest
  have htotal := congrArg length hblocks
  rw [length_reverse] at hlength
  rw [offChain_disconnectToFork hsound, length_reverse, length_append] at htotal
  rcases Nat.eq_zero_or_pos front.length with hempty | hpos
  · left
    have hnil := not_imp_not.mp hfront (eq_nil_of_length_eq_zero hempty)
    rw [hnil, eq_comm, append_eq_nil_iff] at hblocks
    refine hprogress.tip_eq hlast ?_
    rw [← reverse_eq_nil_iff, hrest]
    exact hblocks.2
  · right
    omega

end

section

variable (hsound : selection.Sound rules) (htarget : selection.index[target]?.isSome)

include hsound htarget

theorem Sound.attempt :
    (selection.attempt rules target).1.Sound rules ∧
      SameLinks (selection.attempt rules target).1.index selection.index := by
  have hbase : Progress rules selection target (selection.disconnectToFork rules target) :=
    progress_disconnectToFork hsound
  have hblocks : ((selection.disconnectToFork rules target).offChain target).reverse =
      (selection.offChain target).reverse ++ [] := by
    rw [offChain_disconnectToFork hsound, append_nil]
  obtain ⟨hlast, hlinks, -⟩ := hbase.attemptBlocks (hsound.disconnectToFork target) htarget hblocks
  exact ⟨hlast, hlinks⟩

theorem progress_attempt (hvalid : (selection.attempt rules target).2 = false) :
    Progress rules selection target (selection.attempt rules target).1 ∧
      target ∈ (selection.attempt rules target).1.tip := by
  have hbase : Progress rules selection target (selection.disconnectToFork rules target) :=
    progress_disconnectToFork hsound
  have hblocks : ((selection.disconnectToFork rules target).offChain target).reverse =
      (selection.offChain target).reverse ++ [] := by
    rw [offChain_disconnectToFork hsound, append_nil]
  obtain ⟨hlast, -, hprogress, -⟩ :=
    hbase.attemptBlocks (hsound.disconnectToFork target) htarget hblocks
  obtain ⟨hprogress, hnil⟩ := hprogress hvalid
  exact ⟨hprogress, hprogress.tip_eq hlast (reverse_eq_nil_iff.mp hnil)⟩

/-- What holds at the fork and is kept by connecting a block holds when the target is reached. -/
theorem attempt_induction {motive : ForkNode σ → Prop}
    (hbase : motive (selection.disconnectToFork rules target))
    (hstep : ∀ (node : ForkNode σ) (hash : Uint256) (write : SealWrite) (stores : σ),
      node.Sound rules → motive node →
      IsBranch node.index.parentOf node.index.heightOf (hash :: node.chain) →
      node.index[hash]?.isSome →
      rules.connectBlock node.stores hash = (.connected write, stores) →
      motive (node.connected rules hash write stores))
    (hvalid : (selection.attempt rules target).2 = false) :
    motive (selection.attempt rules target).1 := by
  have hstart : ∀ (blocks : List Uint256) (node : ForkNode σ), node.Sound rules → motive node →
      Progress rules selection target node → (node.offChain target).reverse = blocks →
      (node.attemptBlocks rules blocks).2 = false →
      motive (node.attemptBlocks rules blocks).1 := by
    intro blocks
    induction blocks with
    | nil => exact fun node _ hmotive _ _ _ => hmotive
    | cons hash rest ih =>
      intro node hsound hmotive hprogress hblocks hfalse
      have hknown := (hprogress.links.isSome target).trans htarget
      obtain ⟨hbranch, hhash⟩ := hprogress.extends hsound hknown hblocks
      rw [attemptBlocks] at hfalse ⊢
      split at hfalse
      · cases hfalse
      · rename_i write stores hconnect
        obtain ⟨hnext, hrest⟩ := hprogress.connected hsound hblocks hconnect
        exact ih _ (hsound.connectTip hbranch hhash write stores).pruneBlockIndexCandidates
          (hstep node hash write stores hsound hmotive hbranch hhash hconnect) hnext hrest hfalse
  exact hstart _ _ (hsound.disconnectToFork target) hbase (progress_disconnectToFork hsound)
    (congrArg reverse (offChain_disconnectToFork hsound)) hvalid

end

theorem attempt_tip (hsound : node.Sound rules) (htip : target ∈ node.tip) :
    node.attempt rules target = (node, false) := by
  have hprogress : Progress rules node target node := progress_of_tip hsound htip
  rw [← hprogress.remaining, offChain_eq_nil hsound htip]
  rfl

/-! ## The loops -/

/-- The node is between the selection of the target and its activation. -/
structure Approaches (rules : ConnectRules σ) (origin : ForkNode σ) (target : Uint256)
    (node : ForkNode σ) : Prop where
  selected : Selected rules.address origin target
  started : ∃ selection : ForkNode σ, selection.Sound rules ∧ selection.GivesUp origin ∧
    (node = selection ∨ Progress rules selection target node)

/-- The call has ended where it settles, with the branch of the tip made active. -/
def Reaches (rules : ConnectRules σ) (origin final : ForkNode σ) : Prop :=
  ∃ selection, Settles rules origin selection final.tip ∧
    ∀ target ∈ final.tip, (selection.attempt rules target).2 = false ∧
      final.GivesUp (selection.attempt rules target).1

section

variable {origin : ForkNode σ}

theorem reaches_of_none (horigin : origin.Sound rules) (hgives : node.GivesUp origin)
    (hnone : node.candidates = []) :
    Reaches rules origin node := by
  refine ⟨origin, ?_, ?_⟩
  · rw [hgives.tip]
    refine .stays ?_
    intro hash hmem husable
    have hlisted := hgives.mem_candidates horigin hmem husable
    rw [hnone] at hlisted
    cases hlisted
  · intro target htip
    rw [hgives.tip] at htip
    rw [attempt_tip horigin htip]
    exact ⟨rfl, hgives⟩

variable (hsound : node.Sound rules)

include hsound

theorem Approaches.reaches (happroaches : Approaches rules origin target node)
    (htip : some target = node.tip) : Reaches rules origin node := by
  obtain ⟨hselected, selection, hselection, hgives, hprogress⟩ := happroaches
  have hprogress : Progress rules selection target node := by
    rcases hprogress with rfl | hprogress
    · exact progress_of_tip hsound htip.symm
    · exact hprogress
  have hremaining := hprogress.remaining
  rw [offChain_eq_nil hsound htip.symm] at hremaining
  obtain ⟨hattempt, hflag⟩ := hgives.attempt rules hselected.usable
  rw [← hremaining] at hattempt hflag
  refine ⟨origin, ?_, ?_⟩
  · rw [← htip]
    exact .reached hselected hflag.symm
  · intro other hother
    rw [← htip] at hother
    cases hother
    exact ⟨hflag.symm, hattempt⟩

theorem Approaches.step (horigin : origin.Sound rules)
    (happroaches : Approaches rules origin target node) :
    let result := node.activateBestChainStep rules target
    result.1.Sound rules ∧
      (result.2 = false → Approaches rules origin target result.1 ∧
        (result.1.tip = some target ∨
          (result.1.offChain target).length < (node.offChain target).length)) ∧
      (result.2 = true → (origin.attempt rules target).2 = true ∧
        result.1.GivesUp (origin.attempt rules target).1) := by
  obtain ⟨hselected, selection, hselection, hgives, hprogress⟩ := happroaches
  have hknown : node.index[target]?.isSome := by
    have hlisted := horigin.listed target hselected.listed
    rw [← hgives.work.links.isSome] at hlisted
    rcases hprogress with rfl | hprogress
    · exact hlisted
    · rw [hprogress.links.isSome]
      exact hlisted
  obtain ⟨hnext, hvalid, hinvalid⟩ := Progress.activateBestChainStep hsound hknown hprogress
  refine ⟨hnext, ?_, ?_⟩
  · intro hfalse
    obtain ⟨hnextProgress, hcloser⟩ := hvalid hfalse
    exact ⟨⟨hselected, selection, hselection, hgives, Or.inr hnextProgress⟩, hcloser⟩
  · intro htrue
    obtain ⟨hattempt, hflag⟩ := hgives.attempt rules hselected.usable
    rw [← hinvalid htrue] at hattempt hflag
    exact ⟨hflag.symm.trans htrue, hattempt⟩

end

namespace Activation

variable {origin : ForkNode σ}

/-- Between the turns: the target is still to be selected, or is being approached. -/
structure Towards (rules : ConnectRules σ) (origin : ForkNode σ) (state : Activation σ) : Prop where
  originSound : origin.Sound rules
  sound : state.node.Sound rules
  fresh : state.pindexMostWork = none → state.node.GivesUp origin
  cached : ∀ target ∈ state.pindexMostWork, Approaches rules origin target state.node

/-- A turn returns where the call settles, or goes on with the same or the next target. -/
def Turn.Keeps (rules : ConnectRules σ) (origin : ForkNode σ) : Turn σ → Prop
  | .returned final => Reaches rules origin final.node
  | .goesOn next => ∃ later, next.Towards rules later ∧
      ∀ final, Reaches rules later final → Reaches rules origin final

variable {state : Activation σ}

theorem Towards.select (htowards : state.Towards rules origin) :
    (state.select rules).node.Sound rules ∧
      ((state.select rules).pindexMostWork = none →
        (state.select rules).node.GivesUp origin ∧ (state.select rules).node.candidates = []) ∧
      ∀ target ∈ (state.select rules).pindexMostWork,
        Approaches rules origin target (state.select rules).node := by
  unfold Activation.select
  cases hcached : state.pindexMostWork with
  | some target =>
    refine ⟨htowards.sound, ?_, htowards.cached⟩
    intro hnone
    rw [hcached] at hnone
    cases hnone
  | none =>
    obtain ⟨hsound, hgives, hselected, hnone⟩ :=
      (htowards.fresh hcached).findMostWorkLoop htowards.sound (Nat.lt_succ_self _)
    refine ⟨hsound, fun htarget => ⟨hgives, hnone htarget⟩, ?_⟩
    intro target htarget
    exact ⟨hgives.selected htowards.originSound (hselected target htarget), _, hsound, hgives,
      Or.inl rfl⟩

/-- After an invalid block the call goes on from what the attempt leaves. -/
theorem towards_advance (horigin : origin.Sound rules) (hsound : state.node.Sound rules)
    (happroaches : Approaches rules origin target state.node) :
    ∃ later, (state.advance rules target).Towards rules later ∧
      ∀ final, Reaches rules later final → Reaches rules origin final := by
  obtain ⟨hnext, hvalid, hinvalid⟩ := happroaches.step hsound horigin
  cases hflag : (state.node.activateBestChainStep rules target).2 with
  | false =>
    refine ⟨origin, ⟨horigin, hnext, ?_, ?_⟩, fun _ hreaches => hreaches⟩
    · intro hnone
      simp only [advance, hflag] at hnone
      cases hnone
    · intro other hother
      simp only [advance, hflag] at hother
      cases hother
      exact (hvalid hflag).1
  | true =>
    obtain ⟨hfailed, hgives⟩ := hinvalid hflag
    have hknown := horigin.listed target happroaches.selected.listed
    refine ⟨(origin.attempt rules target).1,
      ⟨(horigin.attempt hknown).1, hnext, fun _ => hgives, ?_⟩, ?_⟩
    · intro other hother
      simp only [advance, hflag] at hother
      cases hother
    · rintro final ⟨selection, hsettles, hend⟩
      exact ⟨selection, .failed happroaches.selected hfailed hsettles, hend⟩

theorem Towards.leaveInner (htowards : state.Towards rules origin)
    (hnone : state.pindexMostWork = none → state.node.tip = none →
      Reaches rules origin state.node) : state.leaveInner.Keeps rules origin := by
  unfold Activation.leaveInner
  by_cases htip : state.node.tip = state.pindexMostWork
  · rw [if_pos htip]
    cases hcached : state.pindexMostWork with
    | none => exact hnone hcached (htip.trans hcached)
    | some target =>
      rw [hcached] at htip
      exact (htowards.cached target hcached).reaches htowards.sound htip.symm
  · rw [if_neg htip]
    exact ⟨origin, ⟨htowards.originSound, htowards.sound, htowards.fresh, htowards.cached⟩,
      fun _ hreaches => hreaches⟩

theorem Turn.Keeps.mono {later : ForkNode σ} {turn : Turn σ}
    (hleads : ∀ final, Reaches rules later final → Reaches rules origin final)
    (hkeeps : turn.Keeps rules later) : turn.Keeps rules origin := by
  cases turn with
  | returned final => exact hleads final.node hkeeps
  | goesOn next =>
    obtain ⟨last, htowards, hlast⟩ := hkeeps
    exact ⟨last, htowards, fun final hreaches => hleads final (hlast final hreaches)⟩

theorem Towards.turn (htowards : state.Towards rules origin) :
    (state.turn rules).Keeps rules origin := by
  obtain ⟨hsound, hnone, hsome⟩ := htowards.select
  unfold Activation.turn
  simp only
  cases htarget : (state.select rules).pindexMostWork with
  | none =>
    obtain ⟨hgives, hempty⟩ := hnone htarget
    have hreaches := reaches_of_none htowards.originSound hgives hempty
    simp only
    split
    · refine Towards.leaveInner ⟨htowards.originSound, hsound, fun _ => hgives, hsome⟩ ?_
      exact fun _ _ => hreaches
    · exact hreaches
  | some target =>
    have happroaches := hsome target htarget
    simp only
    split
    · rename_i htip
      have hreaches := happroaches.reaches hsound htip
      split
      · refine Towards.leaveInner ⟨htowards.originSound, hsound, ?_, hsome⟩ (fun _ _ => hreaches)
        intro habsurd
        rw [htarget] at habsurd
        cases habsurd
      · exact hreaches
    · obtain ⟨later, hadvanced, hleads⟩ := towards_advance htowards.originSound hsound happroaches
      split
      · exact ⟨later, hadvanced, hleads⟩
      · rename_i hbehind
        refine Turn.Keeps.mono hleads (hadvanced.leaveInner ?_)
        intro _ htip
        rw [fellBehind, htip] at hbehind
        exact absurd rfl hbehind

theorem Towards.loop (htowards : state.Towards rules origin) {fuel : Nat} {final : Activation σ}
    (hfinal : loop rules fuel state = some final) : Reaches rules origin final.node := by
  induction fuel generalizing state origin with
  | zero => cases hfinal
  | succ fuel ih =>
    rw [loop] at hfinal
    have hturn := htowards.turn
    cases hnext : state.turn rules with
    | returned returned =>
      rw [hnext] at hfinal hturn
      cases hfinal
      exact hturn
    | goesOn next =>
      rw [hnext] at hfinal hturn
      obtain ⟨later, hlater, hleads⟩ := hturn
      exact hleads final.node (ih hlater hfinal)

/-- With enough fuel the call returns when the branch of the target has no invalid block. -/
theorem loop_isSome (horigin : origin.Sound rules)
    (hvalid : (origin.attempt rules target).2 = false) {fuel : Nat}
    (hsound : state.node.Sound rules) (happroaches : Approaches rules origin target state.node)
    (hcached : state.pindexMostWork = some target)
    (hfuel : (state.node.tip = some target ∧ 0 < fuel) ∨
      (state.node.offChain target).length + 2 ≤ fuel) :
    (loop rules fuel state).isSome := by
  induction fuel generalizing state with
  | zero => omega
  | succ fuel ih =>
    have hselect : state.select rules = state := by
      unfold select
      rw [hcached]
    rw [loop, turn, hselect, hcached]
    simp only
    by_cases htip : some target = state.node.tip
    · have hleave : state.leaveInner = .returned state := if_pos (htip.symm.trans hcached.symm)
      rw [if_pos htip, hleave]
      split_ifs <;> rfl
    · rw [if_neg htip]
      obtain ⟨hnext, hgoes, hinvalid⟩ := happroaches.step hsound horigin
      cases hflag : (state.node.activateBestChainStep rules target).2 with
      | true =>
        rw [(hinvalid hflag).1] at hvalid
        cases hvalid
      | false =>
        obtain ⟨hcloser, hmeasure⟩ := hgoes hflag
        have hadvanced : (state.advance rules target).pindexMostWork = some target := by
          simp only [advance, hflag]
          rfl
        have hrest : (state.advance rules target).node.tip = some target ∧ 0 < fuel ∨
            ((state.advance rules target).node.offChain target).length + 2 ≤ fuel := by
          rcases hfuel with ⟨heq, -⟩ | hfuel
          · exact absurd heq.symm htip
          · rcases hmeasure with heq | hlt
            · exact Or.inl ⟨heq, by omega⟩
            · have hlt : ((state.advance rules target).node.offChain target).length <
                  (state.node.offChain target).length := hlt
              omega
        unfold leaveInner
        split_ifs with hbehind hreached
        · exact ih hnext hcloser hadvanced hrest
        · rfl
        · exact ih hnext hcloser hadvanced hrest

end Activation

theorem towards_start {start : ForkNode σ} (hsound : start.Sound rules) :
    Towards rules start
      { node := start, pindexMostWork := none, startingTip := start.tip
        blocksConnected := false } := by
  refine ⟨hsound, hsound, fun _ => .refl start, ?_⟩
  intro target htarget
  cases htarget

theorem activateBestChain_isSome {start : ForkNode σ} (hsound : start.Sound rules) {fuel : Nat}
    (hvalid : ∀ target, Selected rules.address start target →
      (start.attempt rules target).2 = false)
    (hfuel : ∀ hash, start.index.heightOf hash + 3 ≤ fuel) :
    (start.activateBestChain rules fuel).isSome := by
  obtain ⟨hfound, -, hsome⟩ := (towards_start hsound).select
  obtain ⟨rest, rfl⟩ : ∃ rest, fuel = rest + 1 := ⟨fuel - 1, by have := hfuel 0; omega⟩
  rw [activateBestChain]
  generalize hstate : Activation.mk start none start.tip false = state at *
  have hconnected : (state.select rules).blocksConnected = false := by
    rw [← hstate]
    rfl
  cases htarget : (state.select rules).pindexMostWork with
  | none =>
    simp only [loop, turn, htarget, hconnected]
    rfl
  | some target =>
    have hidem : (state.select rules).select rules = state.select rules := by
      rw [select, htarget]
    have hsame : loop rules (rest + 1) state =
        loop rules (rest + 1) (state.select rules) := by
      simp only [loop, turn, hidem]
    have happroaches := hsome target htarget
    obtain ⟨selection, -, hgives, hprogress⟩ := happroaches.started
    have hlinks : SameLinks (state.select rules).node.index start.index := by
      rcases hprogress with heq | hprogress
      · rw [heq]
        exact hgives.work.links
      · exact hprogress.links.trans hgives.work.links
    have hlength : ((state.select rules).node.offChain target).length ≤
        (state.select rules).node.index.heightOf target + 1 :=
      ( takeWhile_prefix _).length_le.trans (length_ancestryUpTo_le _ _)
    rw [hlinks.heightOf] at hlength
    have hheight := hfuel target
    rw [hsame]
    exact loop_isSome hsound (hvalid target happroaches.selected) hfound happroaches
      htarget (Or.inr (by omega))

theorem activateBestChain_reaches {start : ForkNode σ} (hsound : start.Sound rules) {fuel : Nat}
    {final : Activation σ} (hfinal : start.activateBestChain rules fuel = some final) :
    Reaches rules start final.node :=
  (towards_start hsound).loop hfinal

/-! ## The final tip -/

theorem Progress.chain_eq (hsound : node.Sound rules)
    (hprogress : Progress rules selection target node) (htip : target ∈ node.tip) :
    node.chain = selection.index.branchOf target := by
  rw [hsound.tip_branchOf htip, hprogress.branchOf]

theorem Progress.usable_iff (hsound : node.Sound rules)
    (hprogress : Progress rules selection target node) (htip : target ∈ node.tip)
    (hash : Uint256) :
    Usable node.index node.chain hash ↔
      Usable selection.index (selection.index.branchOf target) hash := by
  unfold Usable
  rw [hprogress.chain_eq hsound htip, hprogress.links.branchOf]
  refine forall₂_congr ?_
  intro block hblock
  have hnot := mem_takeWhile_imp hblock
  have hsame := hprogress.outside block (by simpa using hnot)
  rw [entryOf, entryOf, hsame]

theorem Progress.hasFailed_iff (hprogress : Progress rules selection target node)
    (chain : List Uint256) : HasFailed node.index chain ↔ HasFailed selection.index chain := by
  unfold HasFailed
  simp only [hprogress.marks]

theorem Sound.not_less (hsound : node.Sound rules) {tip : Uint256} (htip : tip ∈ node.tip)
    (hmem : hash ∈ node.chain) : ¬ node.index.less rules.address tip hash := by
  rw [less_iff]
  exact not_lt_of_ge (hsound.keyOf_le_tip htip hmem)

theorem Progress.mem_candidates (hsound : node.Sound rules)
    (hprogress : Progress rules selection target node) (htip : target ∈ node.tip)
    (hmem : hash ∈ selection.candidates) (hnot : hash ∉ selection.index.branchOf target)
    (habove : node.index.less rules.address target hash) : hash ∈ node.candidates := by
  refine hprogress.kept hash hmem hnot ?_
  intro block hblock hbelow
  rw [less_iff, keyOf_congr rules.address (hprogress.outside hash hnot)] at habove
  exact absurd (hsound.keyOf_le_tip htip hblock) (not_le_of_gt (habove.trans hbelow))

theorem endsHeaviest_attempt_iff {start : ForkNode σ} (hselection : selection.Sound rules)
    (hknown : selection.index[target]?.isSome)
    (hvalid : (selection.attempt rules target).2 = false) :
    EndsHeaviest rules.address start (selection.attempt rules target).1 ↔
      HeaviestOnceWeighed rules start selection target := by
  obtain ⟨hprogress, htip⟩ := progress_attempt hselection hknown hvalid
  have hsound := (hselection.attempt hknown).1
  have hchain := hprogress.chain_eq hsound htip
  unfold EndsHeaviest HeaviestOnceWeighed
  rw [htip]
  simp only [Option.mem_some_iff, forall_eq']
  generalize (selection.attempt rules target).1 = final at *
  have hless : ∀ hash ∉ selection.index.branchOf target,
      (final.index.less rules.address target hash ↔
        final.index.keyOf rules.address target < selection.index.keyOf rules.address hash) := by
    intro hash hnot
    rw [less_iff, keyOf_congr rules.address (hprogress.outside hash hnot)]
  refine and_congr ?_ (or_congr (hprogress.hasFailed_iff start.chain) ?_)
  · constructor
    · intro hends hash hmem hnot husable habove
      rw [← hless hash hnot] at habove
      exact hends hash (hprogress.mem_candidates hsound htip hmem hnot habove)
        ((hprogress.usable_iff hsound htip hash).mpr husable) habove
    · intro hheaviest hash hmem husable
      by_cases hbranch : hash ∈ selection.index.branchOf target
      · rw [← hchain] at hbranch
        exact hsound.not_less htip hbranch
      · rw [hless hash hbranch]
        exact hheaviest hash (hprogress.selected hash hmem hbranch) hbranch
          ((hprogress.usable_iff hsound htip hash).mp husable)
  · refine forall₂_congr ?_
    intro old _
    constructor
    · intro hends hnot
      rwa [← hless old hnot]
    · intro hheaviest
      by_cases hbranch : old ∈ selection.index.branchOf target
      · rw [← hchain] at hbranch
        exact hsound.not_less htip hbranch
      · rw [hless old hbranch]
        exact hheaviest hbranch

theorem GivesUp.endsHeaviest_iff {start origin : ForkNode σ} (hgives : node.GivesUp origin)
    (hsound : origin.Sound rules)
    (hclosed : ∀ block ∈ start.chain, origin.index.branchOf block ⊆ start.chain) :
    EndsHeaviest rules.address start node ↔ EndsHeaviest rules.address start origin := by
  have hfailed : HasFailed node.index start.chain ↔ HasFailed origin.index start.chain := by
    constructor
    · rintro ⟨block, hmem, hfailed⟩
      obtain ⟨bad, hbelow, hbad⟩ := hgives.failedBelow block hfailed
      exact ⟨bad, hclosed block hmem hbelow, hbad⟩
    · rintro ⟨block, hmem, hfailed⟩
      exact ⟨block, hmem, hgives.failed block hfailed⟩
  unfold EndsHeaviest
  simp only [hgives.tip, hgives.less, hgives.usable_iff hsound, hfailed]
  refine forall₂_congr (fun tip _ => and_congr_left (fun _ => ?_))
  constructor
  · intro hends hash hmem husable
    exact hends hash (hgives.mem_candidates hsound hmem husable) husable
  · intro hends hash hmem
    exact hends hash (hgives.listed hmem)

theorem Settles.sound {start : ForkNode σ} {tip : Option Uint256}
    (hsettles : Settles rules start selection tip) (hsound : start.Sound rules) :
    selection.Sound rules ∧ SameLinks selection.index start.index ∧
      ∀ target ∈ tip, selection.index[target]?.isSome := by
  induction hsettles with
  | stays =>
    exact ⟨hsound, .refl _, fun target htip => hsound.known target (mem_of_mem_head? htip)⟩
  | reached hselected =>
    refine ⟨hsound, .refl _, ?_⟩
    intro other hother
    cases hother
    exact hsound.listed _ hselected.listed
  | failed hselected _ _ ih =>
    obtain ⟨hlater, hlinks⟩ := hsound.attempt (hsound.listed _ hselected.listed)
    obtain ⟨hselection, hsame, hknown⟩ := ih hlater
    exact ⟨hselection, hsame.trans hlinks, hknown⟩

instance (index : BlockMap) (chain : List Uint256) : Decidable (HasFailed index chain) :=
  inferInstanceAs (Decidable (∃ _ ∈ chain, _))

instance (address : Uint256 → Nat) (start final : ForkNode σ) :
    Decidable (EndsHeaviest address start final) :=
  inferInstanceAs (Decidable (∀ _ ∈ final.tip, _ ∧ _))

instance (start selection : ForkNode σ) :
    Decidable (HeaviestOnceWeighed rules start selection target) :=
  inferInstanceAs (Decidable (_ ∧ _))

namespace Sample

variable (unsealedWeight : Nat)

/-- A block that extends the genesis block carries a seal; the blocks of the other branch
carry none, so that they weigh the given weight. -/
def forkRules : ConnectRules Unit where
  connectBlock := fun _ hash =>
    (.connected (.weighed (if hash = 2 then 15000 else unsealedWeight)), ())
  disconnectBlock := fun _ _ => ()
  sealHeight := 1
  address := id

def forkEntries : List (Uint256 × CBlockIndex) :=
  [(1, { pprev := none, nHeight := 0, blockProof := 300, nChainWork := 300,
         nChainSealWork := 300, haveData := true }),
   (2, { pprev := some 1, nHeight := 1, blockProof := 300, nChainWork := 600,
         nSealWeight := 15000, nChainSealWork := 750, nSequenceId := 1, haveData := true }),
   (3, { pprev := some 1, nHeight := 1, blockProof := 300, nChainWork := 600,
         nChainSealWork := 600, nSequenceId := 2, haveData := true }),
   (4, { pprev := some 3, nHeight := 2, blockProof := 300, nChainWork := 900,
         nChainSealWork := 900, nSequenceId := 3, haveData := true })]

/-- The sealed block is active; the longer branch without seals has just arrived. -/
def forkNode : ForkNode Unit where
  index := Std.ExtTreeMap.ofList forkEntries
  candidates := [2, 4]
  chain := [2, 1]
  stores := ()

theorem forkNode_sound : forkNode.Sound (forkRules unsealedWeight) := by
  have hentries : ∀ pair ∈ forkNode.index.toList,
      (∀ parent ∈ pair.2.pprev, (forkNode.index[parent]?).map (fun prev => prev.nHeight + 1) =
        some pair.2.nHeight) ∧
      pair.2.nChainWork = forkNode.index.prevChainWork pair.2.pprev + pair.2.blockProof ∧
      0 < pair.2.blockProof ∧ pair.2.nChainWork * 20000 < 2 ^ 256 ∧
      pair.2.nChainSealWork ≤ 2 * pair.2.nChainWork ∧
      (pair.2.nHeight < 1 →
        pair.2.nChainSealWork = forkNode.index.prevSealWork pair.2.pprev + pair.2.blockProof) ∧
      forkNode.index.prevSealWork pair.2.pprev ≤ pair.2.nChainSealWork := by
    decide +kernel
  have hlookup : ∀ (hash : Uint256) entry, forkNode.index[hash]? = some entry →
      (hash, entry) ∈ forkNode.index.toList := by
    intro hash entry hentry
    exact Std.ExtTreeMap.mem_toList_iff_getElem?_eq_some.mpr hentry
  refine ⟨⟨?_, ?_⟩, by decide +kernel, ?_, by decide +kernel, ?_⟩
  · intro hash entry hentry parent hparent
    have hheight := (hentries _ (hlookup hash entry hentry)).1 parent hparent
    obtain ⟨prev, hprev, heq⟩ := Option.map_eq_some_iff.mp hheight
    exact ⟨prev, hprev, heq.symm⟩
  · intro hash entry hentry
    obtain ⟨-, hsummed, hpositive, hbounded, hsealBounded, hlow, -⟩ :=
      hentries _ (hlookup hash entry hentry)
    exact ⟨hsummed, hpositive, hbounded, hsealBounded, hlow⟩
  · intro tip htip
    cases htip
    decide +kernel
  · intro hash _ entry hentry
    exact (hentries _ (hlookup hash entry hentry)).2.2.2.2.2.2

end Sample

open ForkNode.Sample

end ForkNode

end Kerrigan.Validation
