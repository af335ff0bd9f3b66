import Kerrigan.Sapling.State
import Kerrigan.Lib.Run
import Mathlib.Data.List.Nodup

/-!
# The shielded state as a function of the chain

What the store should hold is a function of the blocks of the active chain.  The shielded part
of `ProcessSpecialTxsInBlock` and `UndoSpecialTxsInBlock` is run on a chain: blocks are
connected, tried, disconnected, and the node is restarted.
-/

namespace Kerrigan.Sapling

open Primitives Consensus Lib CSaplingState List

variable {Frontier : Type} (params : SaplingParams) (frontiers : FrontierFunctions Frontier)

/-! ## The shielded part of connecting and disconnecting a block -/

def checkSpecialTxs (isValidAnchor : Uint256 → Bool) (verifySaplingProofs : ProofVerdict)
    (nHeight : Int) : List CTransaction → Except String Unit
  | [] => .ok ()
  | first :: rest => do
      if first.nType ≠ .coinbase then
        checkSpecialTx params isValidAnchor verifySaplingProofs nHeight first
      rest.forM (checkSpecialTx params isValidAnchor verifySaplingProofs nHeight)

/-- The store is at another block than the parent, and this is not tolerated. -/
def RejectsMismatch (state : CSaplingState) (nHeight : Int) (pprev : Uint256) : Prop :=
  params.IsSaplingActive nHeight ∧ state.verifyBestBlock pprev = false ∧
    state.lastFrontierHeight < nHeight ∧ params.nSaplingStrictnessHeight ≤ nHeight

instance (state : CSaplingState) (nHeight : Int) (pprev : Uint256) :
    Decidable (RejectsMismatch params state nHeight pprev) := inferInstanceAs (Decidable (_ ∧ _))

def processSpecialTxsInBlock (verifySaplingProofs : ProofVerdict) (state : CSaplingState)
    (block : CBlock) (nHeight : Int) (pprev : Uint256) (fJustCheck : Bool) :
    Except String Unit × CSaplingState :=
  match checkSpecialTxs params state.isValidAnchor verifySaplingProofs nHeight block.vtx with
  | .error reason => (.error reason, state)
  | .ok () =>
      if RejectsMismatch params state nHeight pprev then
        (.error "bad-sapling-state-inconsistency", state)
      else
        let processed := state.processBlock frontiers params block nHeight fJustCheck
        (if processed.1 then .ok () else .error "bad-sapling-state", processed.2)

def disconnectBlock (state : CSaplingState) (block : CBlock) (nHeight : Int) (pprev : Uint256) :
    Option CSaplingState :=
  if params.IsSaplingActive nHeight ∧ state.verifyBestBlock block.hash = false ∧
      state.lastFrontierHeight ≤ nHeight then none
  else state.undoBlock params block nHeight (some pprev)

/-! ## Functions of the chain -/

def tipHash (genesis : Uint256) : List CBlock → Uint256
  | [] => genesis
  | tip :: _ => tip.hash

def RevealedAt (chain : List CBlock) (nf : Uint256) (nHeight : Int) : Prop :=
  ∃ block rest, block :: rest <:+ chain ∧ nHeight = rest.length + 1 ∧ nf ∈ revealedBy block

def frontierOf : List CBlock → Option Frontier
  | [] => some frontiers.new
  | block :: rest => do
      let frontier ← frontierOf rest
      (committedBy block).foldlM frontiers.append frontier

def FrontierAt (chain : List CBlock) (nHeight : Int) (frontier : Frontier) : Prop :=
  ∃ block rest, block :: rest <:+ chain ∧ nHeight = rest.length + 1 ∧
    params.IsSaplingActive nHeight ∧ frontierOf frontiers (block :: rest) = some frontier

def poolOf (chain : List CBlock) : Int := -(chain.map balanceOf).sum

def TableOf {γ : Type} (chain : List CBlock) (value : Frontier → γ)
    (table : Std.ExtTreeMap Int γ) : Prop :=
  ∀ (nHeight : Int) (entry : γ), table[nHeight]? = some entry ↔
    ∃ frontier, FrontierAt params frontiers chain nHeight frontier ∧ entry = value frontier

structure ReflectsData (chain : List CBlock) (state : CSaplingState) : Prop where
  nullifiers : ∀ (nf : Uint256) (nHeight : Int),
    state.db.nullifiers[nf]? = some nHeight ↔ RevealedAt chain nf nHeight
  appended : (frontierOf frontiers chain).isSome
  treeRoots : TableOf params frontiers chain frontiers.root state.db.treeRoots
  treeData : TableOf params frontiers chain frontiers.serialize state.db.treeData
  anchors : ∀ anchor : Uint256, state.isValidAnchor anchor = true ↔
    ∃ nHeight frontier, FrontierAt params frontiers chain nHeight frontier ∧
      anchor = frontiers.root frontier
  pool : state.nSaplingValuePool = poolOf chain
  pool_nonneg : 0 ≤ poolOf chain

/-- The shielded state is the function of the chain, and the recorded tip is its tip. -/
structure Reflects (genesis : Uint256) (chain : List CBlock) (state : CSaplingState) : Prop
    extends ReflectsData params frontiers chain state where
  tip : state.verifyBestBlock (tipHash genesis chain) = true
  tip_active : chain ≠ [] → params.IsSaplingActive chain.length →
    state.db.bestBlock = some (tipHash genesis chain)

/-! ## The machine -/

structure ShieldedChain where
  chain : List CBlock
  sapling : CSaplingState

def ShieldedChain.initial : ShieldedChain := ⟨[], load {}⟩

inductive ShieldedStep
  | connect (block : CBlock)
  | attempt (block : CBlock) (fJustCheck : Bool)
  | disconnect
  | restart

def shieldedStep (genesis : Uint256) (verifySaplingProofs : ProofVerdict) (node : ShieldedChain) :
    ShieldedStep → ShieldedChain
  | .connect block =>
      match processSpecialTxsInBlock params frontiers verifySaplingProofs node.sapling block
        (node.chain.length + 1) (tipHash genesis node.chain) false with
      | (.ok (), next) => ⟨block :: node.chain, next.commitBlock⟩
      | (.error _, next) => ⟨node.chain, next⟩
  | .attempt block fJustCheck =>
      let attempted := processSpecialTxsInBlock params frontiers verifySaplingProofs node.sapling
        block (node.chain.length + 1) (tipHash genesis node.chain) fJustCheck
      ⟨node.chain, attempted.2.discardPendingBatch⟩
  | .disconnect =>
      match node.chain with
      | [] => node
      | tip :: rest =>
          match disconnectBlock params node.sapling tip (rest.length + 1)
            (tipHash genesis rest) with
          | none => node
          | some next => ⟨rest, next⟩
  | .restart => ⟨node.chain, load node.sapling.db⟩

/-- A disconnected block is one the store knows of, or it has recorded no block. -/
def KeepsTip (node : ShieldedChain) : ShieldedStep → Prop
  | .disconnect => ∀ tip rest, node.chain = tip :: rest →
      params.IsSaplingActive (rest.length + 1) ∨ node.sapling.db.bestBlock = none
  | _ => True

/-! ## The functions of a longer chain -/

variable {params frontiers} {block : CBlock} {chain : List CBlock} {nf : Uint256} {nHeight : Int}
  {frontier : Frontier} {verifySaplingProofs : ProofVerdict}

theorem exists_suffix_cons {property : CBlock → List CBlock → Prop} :
    (∃ other rest, other :: rest <:+ block :: chain ∧ property other rest) ↔
      property block chain ∨ ∃ other rest, other :: rest <:+ chain ∧ property other rest := by
  constructor
  · rintro ⟨other, rest, hsuffix, hother⟩
    rcases suffix_cons_iff.mp hsuffix with heq | hrest
    · obtain ⟨rfl, rfl⟩ := cons.inj heq
      exact Or.inl hother
    · exact Or.inr ⟨other, rest, hrest, hother⟩
  · rintro (hblock | ⟨other, rest, hsuffix, hother⟩)
    · exact ⟨block, chain, suffix_rfl, hblock⟩
    · exact ⟨other, rest, hsuffix.trans (suffix_cons block chain), hother⟩

theorem revealedAt_cons :
    RevealedAt (block :: chain) nf nHeight ↔
      (nHeight = chain.length + 1 ∧ nf ∈ revealedBy block) ∨ RevealedAt chain nf nHeight :=
  exists_suffix_cons

theorem RevealedAt.le (hrevealed : RevealedAt chain nf nHeight) : nHeight ≤ chain.length := by
  obtain ⟨block, rest, hsuffix, hheight, -⟩ := hrevealed
  have hlength := hsuffix.length_le
  rw [length_cons] at hlength
  omega

theorem frontierAt_cons :
    FrontierAt params frontiers (block :: chain) nHeight frontier ↔
      (nHeight = chain.length + 1 ∧ params.IsSaplingActive nHeight ∧
        frontierOf frontiers (block :: chain) = some frontier) ∨
      FrontierAt params frontiers chain nHeight frontier :=
  exists_suffix_cons

theorem FrontierAt.bounds (hfrontier : FrontierAt params frontiers chain nHeight frontier) :
    1 ≤ nHeight ∧ nHeight ≤ chain.length ∧ params.IsSaplingActive nHeight := by
  obtain ⟨other, rest, hsuffix, hheight, hactive, -⟩ := hfrontier
  have hlength := hsuffix.length_le
  rw [length_cons] at hlength
  exact ⟨by omega, by omega, hactive⟩

theorem not_frontierAt_succ :
    ¬ FrontierAt params frontiers chain (chain.length + 1) frontier := by
  intro hfrontier
  have hle := hfrontier.bounds.2.1
  omega

theorem frontierAt_tip (hne : chain ≠ []) (hactive : params.IsSaplingActive chain.length) :
    FrontierAt params frontiers chain chain.length frontier ↔
      frontierOf frontiers chain = some frontier := by
  cases chain with
  | nil => exact absurd rfl hne
  | cons tip rest =>
    rw [frontierAt_cons]
    constructor
    · rintro (⟨-, -, hfrontier⟩ | hbelow)
      · exact hfrontier
      · exact absurd hbelow not_frontierAt_succ
    · intro hfrontier
      exact Or.inl ⟨rfl, hactive, hfrontier⟩

theorem FrontierAt.active (hfrontier : FrontierAt params frontiers chain nHeight frontier) :
    chain ≠ [] ∧ params.IsSaplingActive chain.length := by
  obtain ⟨hpos, hle, hactive⟩ := hfrontier.bounds
  refine ⟨?_, le_trans hactive hle⟩
  rintro rfl
  rw [length_nil] at hle
  omega

variable {γ : Type} {value : Frontier → γ} {table : Std.ExtTreeMap Int γ}

theorem TableOf.cons (htable : TableOf params frontiers chain value table)
    (hactive : params.IsSaplingActive (chain.length + 1))
    (hfrontier : frontierOf frontiers (block :: chain) = some frontier) :
    TableOf params frontiers (block :: chain) value
      (table.insert (chain.length + 1) (value frontier)) := by
  intro nHeight entry
  rw [getElem?_insert_eq]
  by_cases hheight : (chain.length : Int) + 1 = nHeight
  · subst hheight
    rw [if_pos rfl, Option.some.injEq]
    constructor
    · intro hentry
      exact ⟨frontier, frontierAt_cons.mpr (Or.inl ⟨rfl, hactive, hfrontier⟩), hentry.symm⟩
    · rintro ⟨other, hother, rfl⟩
      rcases frontierAt_cons.mp hother with ⟨-, -, hsame⟩ | hbelow
      · rw [hfrontier, Option.some.injEq] at hsame
        rw [hsame]
      · exact absurd hbelow not_frontierAt_succ
  · rw [if_neg hheight, htable nHeight entry]
    constructor
    · rintro ⟨other, hother, hentry⟩
      exact ⟨other, frontierAt_cons.mpr (Or.inr hother), hentry⟩
    · rintro ⟨other, hother, hentry⟩
      rcases frontierAt_cons.mp hother with ⟨heq, -⟩ | hbelow
      · exact absurd heq.symm hheight
      · exact ⟨other, hbelow, hentry⟩

theorem TableOf.tail (htable : TableOf params frontiers (block :: chain) value table) :
    TableOf params frontiers chain value (table.erase (chain.length + 1)) := by
  intro nHeight entry
  rw [getElem?_erase_eq]
  by_cases hheight : (chain.length : Int) + 1 = nHeight
  · subst hheight
    rw [if_pos rfl]
    constructor
    · intro hnone
      cases hnone
    · rintro ⟨other, hother, -⟩
      exact absurd hother not_frontierAt_succ
  · rw [if_neg hheight, htable nHeight entry]
    constructor
    · rintro ⟨other, hother, hentry⟩
      rcases frontierAt_cons.mp hother with ⟨heq, -⟩ | hbelow
      · exact absurd heq.symm hheight
      · exact ⟨other, hbelow, hentry⟩
    · rintro ⟨other, hother, hentry⟩
      exact ⟨other, frontierAt_cons.mpr (Or.inr hother), hentry⟩

def lastActive (params : SaplingParams) (chain : List CBlock) : Int :=
  if chain ≠ [] ∧ params.IsSaplingActive chain.length then chain.length else -1

theorem TableOf.lastHeight (htable : TableOf params frontiers chain value table)
    (happended : (frontierOf frontiers chain).isSome) {heights : List Int}
    (hheights : ∀ nHeight, nHeight ∈ heights ↔ ∃ entry, table[nHeight]? = some entry) :
    Sapling.lastHeight heights = lastActive params chain := by
  have hmem : ∀ nHeight, nHeight ∈ heights ↔
      ∃ frontier, FrontierAt params frontiers chain nHeight frontier := by
    intro nHeight
    rw [hheights]
    constructor
    · rintro ⟨entry, hentry⟩
      obtain ⟨frontier, hfrontier, -⟩ := (htable nHeight entry).mp hentry
      exact ⟨frontier, hfrontier⟩
    · rintro ⟨frontier, hfrontier⟩
      exact ⟨value frontier, (htable nHeight _).mpr ⟨frontier, hfrontier, rfl⟩⟩
  unfold lastActive
  by_cases htip : chain ≠ [] ∧ params.IsSaplingActive chain.length
  · rw [if_pos htip]
    refine lastHeight_eq ?_ (Or.inl ?_) (by omega)
    · intro nHeight hheight
      obtain ⟨frontier, hfrontier⟩ := (hmem nHeight).mp hheight
      exact hfrontier.bounds.2.1
    · obtain ⟨frontier, hfrontier⟩ := Option.isSome_iff_exists.mp happended
      exact (hmem _).mpr ⟨frontier, (frontierAt_tip htip.1 htip.2).mpr hfrontier⟩
  · rw [if_neg htip]
    refine lastHeight_eq ?_ (Or.inr rfl) le_rfl
    intro nHeight hheight
    obtain ⟨frontier, hfrontier⟩ := (hmem nHeight).mp hheight
    exact absurd hfrontier.active htip

theorem frontierOf_of_uncommitted (hnone : ∀ block ∈ chain, committedBy block = []) :
    frontierOf frontiers chain = some frontiers.new := by
  induction chain with
  | nil => rfl
  | cons block rest ih =>
    rw [forall_mem_cons] at hnone
    rw [frontierOf, ih hnone.2, hnone.1]
    rfl

/-! ## Checked blocks -/

variable {isValidAnchor : Uint256 → Bool}

theorem checkSpecialTxs_eq_ok {vtx : List CTransaction}
    (hcheck : checkSpecialTxs params isValidAnchor verifySaplingProofs nHeight vtx = .ok ()) :
    ∀ tx ∈ vtx, tx.nType = .coinbase ∨
      checkSpecialTx params isValidAnchor verifySaplingProofs nHeight tx = .ok () := by
  cases vtx with
  | nil =>
    intro tx htx
    cases htx
  | cons first rest =>
    unfold checkSpecialTxs at hcheck
    rw [forall_mem_cons]
    by_cases htype : first.nType = .coinbase
    · simp only [htype, ne_eq, not_true_eq_false, if_false] at hcheck
      exact ⟨Or.inl htype, fun tx htx => Or.inr (forM_eq_ok_iff.mp hcheck tx htx)⟩
    · simp only [htype, ne_eq, not_false_eq_true, if_true] at hcheck
      obtain ⟨_, hfirst, hrest⟩ := bind_eq_ok_iff.mp hcheck
      exact ⟨Or.inr hfirst, fun tx htx => Or.inr (forM_eq_ok_iff.mp hrest tx htx)⟩

theorem checkSpecialTxs_payloads
    (hcheck : checkSpecialTxs params isValidAnchor verifySaplingProofs nHeight block.vtx = .ok ()) :
    ∀ payload ∈ payloadsOf block, params.IsSaplingActive nHeight ∧ HasShieldedActions payload := by
  intro payload hpayload
  obtain ⟨tx, htx, hsome⟩ := mem_filterMap.mp hpayload
  by_cases htype : tx.nType = .sapling
  · rw [if_pos htype] at hsome
    have hfield : hasExtraPayloadField tx = true := by
      by_contra hno
      simp [saplingPayloadOf, hno] at hsome
    rcases checkSpecialTxs_eq_ok hcheck tx htx with hcoinbase | hspecial
    · rw [htype] at hcoinbase
      cases hcoinbase
    · have hsapling : checkSaplingTx params isValidAnchor verifySaplingProofs nHeight tx =
          .ok () := by
        simpa [checkSpecialTx, hfield, htype] using hspecial
      obtain ⟨hactive, found, hfound, hactions⟩ := checkSaplingTx_eq_ok hsapling
      rw [hsome, Option.some.injEq] at hfound
      exact ⟨hactive, hfound ▸ hactions⟩
  · rw [if_neg htype] at hsome
    cases hsome

theorem payloadsOf_eq_nil (hactions : ∀ payload ∈ payloadsOf block, HasShieldedActions payload)
    (hrevealed : revealedBy block = []) (hcommitted : committedBy block = []) :
    payloadsOf block = [] := by
  rw [eq_nil_iff_forall_not_mem]
  intro payload hpayload
  have hnullifiers := flatMap_eq_nil_iff.mp hrevealed payload hpayload
  have hcommitments := flatMap_eq_nil_iff.mp hcommitted payload hpayload
  rcases hactions payload hpayload with hspends | houtputs
  · exact hspends (map_eq_nil_iff.mp hnullifiers)
  · exact houtputs (map_eq_nil_iff.mp hcommitments)

theorem balanceOf_eq_zero (hempty : payloadsOf block = []) :
    balanceOf block = 0 := by
  rw [balanceOf, hempty, map_nil, sum_nil]

/-- Every shielded transaction of the chain has shielded actions, at an active height. -/
def Checked (params : SaplingParams) (chain : List CBlock) : Prop :=
  ∀ block rest, block :: rest <:+ chain → ∀ payload ∈ payloadsOf block,
    params.IsSaplingActive (rest.length + 1) ∧ HasShieldedActions payload

theorem checked_nil (params : SaplingParams) : Checked params [] := by
  intro block rest hsuffix
  cases suffix_nil.mp hsuffix

theorem Checked.cons (hchecked : Checked params chain) (hnew : ∀ payload ∈ payloadsOf block,
      params.IsSaplingActive (chain.length + 1) ∧ HasShieldedActions payload) :
    Checked params (block :: chain) := by
  intro other rest hsuffix
  rcases suffix_cons_iff.mp hsuffix with heq | hrest
  · obtain ⟨rfl, rfl⟩ := cons.inj heq
    exact hnew
  · exact hchecked other rest hrest

theorem Checked.suffix {rest : List CBlock} (hchecked : Checked params chain)
    (hsuffix : rest <:+ chain) : Checked params rest :=
  fun block below hbelow => hchecked block below (hbelow.trans hsuffix)

theorem Checked.payloadsOf_eq_nil (hchecked : Checked params chain)
    (hactive : ¬ params.IsSaplingActive chain.length) :
    ∀ block ∈ chain, payloadsOf block = [] := by
  intro block hblock
  obtain ⟨before, rest, rfl⟩ := append_of_mem hblock
  have hsuffix : block :: rest <:+ before ++ block :: rest := suffix_append _ _
  rw [eq_nil_iff_forall_not_mem]
  intro payload hpayload
  have hbelow := (hchecked block rest hsuffix payload hpayload).1
  refine hactive (le_trans hbelow ?_)
  have hlength := hsuffix.length_le
  rw [length_cons] at hlength
  omega

/-! ## The invariant -/

def revealedOn (chain : List CBlock) : List Uint256 := chain.flatMap revealedBy

theorem revealedOn_cons (block : CBlock) (chain : List CBlock) :
    revealedOn (block :: chain) = revealedBy block ++ revealedOn chain := flatMap_cons

theorem mem_revealedOn_iff :
    nf ∈ revealedOn chain ↔ ∃ nHeight, RevealedAt chain nf nHeight := by
  induction chain with
  | nil =>
    constructor
    · intro hnf
      cases hnf
    · rintro ⟨nHeight, block, rest, hsuffix, -⟩
      cases suffix_nil.mp hsuffix
  | cons block rest ih =>
    rw [revealedOn_cons, mem_append, ih]
    simp only [revealedAt_cons, exists_or, exists_eq_left]

theorem poolOf_cons (block : CBlock) (chain : List CBlock) :
    poolOf (block :: chain) = poolOf chain + -balanceOf block := by
  unfold poolOf
  rw [map_cons, sum_cons]
  omega

variable (params frontiers) in
/-- The shielded data and the indexes in memory are those of the chain. -/
structure DataOf (chain : List CBlock) (state : CSaplingState) : Prop where
  checked : Checked params chain
  distinct : (revealedOn chain).Nodup
  nullifiers : ∀ (nf : Uint256) (nHeight : Int),
    state.db.nullifiers[nf]? = some nHeight ↔ RevealedAt chain nf nHeight
  appended : (frontierOf frontiers chain).isSome
  treeRoots : TableOf params frontiers chain frontiers.root state.db.treeRoots
  treeData : TableOf params frontiers chain frontiers.serialize state.db.treeData
  index : state.anchorHeights.Indexes
    (fun nHeight root => state.db.treeRoots[nHeight]? = some root)
  last : state.lastFrontierHeight = lastActive params chain
  pool : state.nSaplingValuePool = poolOf chain
  pool_nonneg : 0 ≤ poolOf chain
  storedPool : state.db.valuePool.getD 0 = state.nSaplingValuePool
  pendingBatch : state.pendingBatch = none

variable {state next : CSaplingState}

theorem dataOf_initial : DataOf params frontiers [] (load {}) := by
  have hnone : ∀ nHeight frontier, ¬ FrontierAt params frontiers [] nHeight frontier := by
    rintro nHeight frontier ⟨block, rest, hsuffix, -⟩
    cases suffix_nil.mp hsuffix
  refine ⟨checked_nil params, nodup_nil, ?_, rfl, ?_, ?_, ReverseIndex.indexes_ofMap _, rfl,
    rfl, le_rfl, rfl, rfl⟩
  · intro nf nHeight
    constructor
    · intro hstored
      simp [load] at hstored
    · rintro ⟨block, rest, hsuffix, -⟩
      cases suffix_nil.mp hsuffix
  · intro nHeight entry
    simp [load, hnone]
  · intro nHeight entry
    simp [load, hnone]

theorem not_frontierAt_of_below (hbelow : lastActive params chain = -1) :
    ¬ FrontierAt params frontiers chain nHeight frontier := by
  intro hfrontier
  rw [lastActive, if_pos hfrontier.active] at hbelow
  omega

theorem Checked.payloadsOf_of_below (hchecked : Checked params chain)
    (hbelow : lastActive params chain = -1) : ∀ block ∈ chain, payloadsOf block = [] := by
  intro block hblock
  refine hchecked.payloadsOf_eq_nil ?_ block hblock
  intro hactive
  rw [lastActive, if_pos ⟨ne_nil_of_mem hblock, hactive⟩] at hbelow
  omega

theorem Checked.empty_of_below (hchecked : Checked params chain)
    (hbelow : lastActive params chain = -1) : revealedOn chain = [] ∧ poolOf chain = 0 := by
  have hpayloads := hchecked.payloadsOf_of_below hbelow
  refine ⟨?_, ?_⟩
  · refine flatMap_eq_nil_iff.mpr ?_
    intro block hblock
    rw [revealedBy, hpayloads block hblock, flatMap_nil]
  · rw [poolOf, sum_eq_zero, Int.neg_zero]
    intro balance hbalance
    obtain ⟨block, hblock, rfl⟩ := mem_map.mp hbalance
    exact balanceOf_eq_zero (hpayloads block hblock)

theorem Checked.frontierOf_of_below (hchecked : Checked params chain)
    (hbelow : lastActive params chain = -1) :
    frontierOf frontiers chain = some frontiers.new := by
  refine frontierOf_of_uncommitted ?_
  intro block hblock
  rw [committedBy, hchecked.payloadsOf_of_below hbelow block hblock, flatMap_nil]

section

variable (hdata : DataOf params frontiers chain state)

include hdata

theorem DataOf.reflectsData :
    ReflectsData params frontiers chain state := by
  refine ⟨hdata.nullifiers, hdata.appended, hdata.treeRoots, hdata.treeData, ?_, hdata.pool,
    hdata.pool_nonneg⟩
  intro anchor
  have hcontains := hdata.index.contains_iff anchor
  unfold isValidAnchor
  rw [Bool.and_eq_true, hcontains, decide_eq_true_eq]
  constructor
  · rintro ⟨-, nHeight, hroot⟩
    obtain ⟨frontier, hfrontier, heq⟩ := (hdata.treeRoots nHeight anchor).mp hroot
    exact ⟨nHeight, frontier, hfrontier, heq⟩
  · rintro ⟨nHeight, frontier, hfrontier, rfl⟩
    exact ⟨frontiers.root_ne_null frontier, nHeight,
      (hdata.treeRoots nHeight _).mpr ⟨frontier, hfrontier, rfl⟩⟩

theorem DataOf.of_discard (hsame : next.discardPendingBatch = state.discardPendingBatch)
    (hpending : next.pendingBatch = none) : DataOf params frontiers chain next := by
  have hdiscard : DataOf params frontiers chain state.discardPendingBatch :=
    { hdata with pendingBatch := rfl }
  rw [← hsame] at hdiscard
  exact { hdiscard with pendingBatch := hpending }

theorem DataOf.load :
    DataOf params frontiers chain (load state.db) := by
  refine { hdata with
    index := ReverseIndex.indexes_ofMap _
    last := hdata.treeRoots.lastHeight hdata.appended ?_
    pool := hdata.storedPool.trans hdata.pool
    storedPool := rfl
    pendingBatch := rfl }
  intro nHeight
  rw [Std.ExtTreeMap.mem_keys, Std.ExtTreeMap.mem_iff_isSome_getElem?, Option.isSome_iff_exists]

theorem DataOf.hasFrontier :
    ∃ frontier, frontierOf frontiers chain = some frontier ∧
      state.HasFrontier frontiers frontier := by
  obtain ⟨frontier, hfrontier⟩ := Option.isSome_iff_exists.mp hdata.appended
  refine ⟨frontier, hfrontier, ?_⟩
  unfold HasFrontier
  rw [hdata.last, lastActive]
  by_cases htip : chain ≠ [] ∧ params.IsSaplingActive chain.length
  · have hat := (frontierAt_tip htip.1 htip.2).mpr hfrontier
    rw [if_pos htip, if_pos (by omega)]
    exact ⟨(hdata.treeData _ _).mpr ⟨frontier, hat, rfl⟩,
      (hdata.treeRoots _ _).mpr ⟨frontier, hat, rfl⟩⟩
  · rw [if_neg htip, if_neg (by omega)]
    rw [hdata.checked.frontierOf_of_below (if_neg htip), Option.some.injEq] at hfrontier
    exact hfrontier.symm

theorem DataOf.extends {extended : Frontier}
    {poolDelta : Int} (hactive : params.IsSaplingActive (chain.length + 1))
    (hnew : ∀ payload ∈ payloadsOf block,
      params.IsSaplingActive (chain.length + 1) ∧ HasShieldedActions payload)
    (hfrontier : frontierOf frontiers chain = some frontier)
    (happend : (committedBy block).foldlM frontiers.append frontier = some extended)
    (hextends : Extends frontiers state next block.hash (chain.length + 1)
      (revealedBy block) extended poolDelta) (hnodup : (revealedBy block).Nodup)
    (hfresh : ∀ nf ∈ revealedBy block, state.db.nullifiers[nf]? = none)
    (hdelta : poolDelta = -balanceOf block) (hpool : 0 ≤ state.nSaplingValuePool + poolDelta) :
    DataOf params frontiers (block :: chain) next := by
  have hextended : frontierOf frontiers (block :: chain) = some extended := by
    rw [frontierOf, hfrontier]
    exact happend
  have hpoolOf : poolOf (block :: chain) = state.nSaplingValuePool + poolDelta := by
    rw [poolOf_cons, hdata.pool, hdelta]
  have hunrevealed : ∀ nf ∈ revealedBy block, ∀ nHeight, ¬ RevealedAt chain nf nHeight := by
    intro nf hnf nHeight hrevealed
    have hstored := (hdata.nullifiers nf nHeight).mpr hrevealed
    rw [hfresh nf hnf] at hstored
    cases hstored
  refine ⟨hdata.checked.cons hnew, ?_, ?_, ?_, ?_, ?_, ?_, ?_, ?_, ?_,
    hextends.storedPool hdata.storedPool, hextends.pendingBatch⟩
  · refine hnodup.append hdata.distinct ?_
    intro nf hnf hbelow
    obtain ⟨nHeight, hrevealed⟩ := mem_revealedOn_iff.mp hbelow
    exact hunrevealed nf hnf nHeight hrevealed
  · intro nf nHeight
    rw [hextends.nullifiers, revealedAt_cons]
    by_cases hnf : nf ∈ revealedBy block
    · simp [hnf, hunrevealed nf hnf nHeight, eq_comm]
    · rw [if_neg hnf, hdata.nullifiers]
      simp [hnf]
  · rw [hextended]
    rfl
  · rw [hextends.treeRoots]
    exact hdata.treeRoots.cons hactive hextended
  · rw [hextends.treeData]
    exact hdata.treeData.cons hactive hextended
  · rw [hextends.anchorHeights, hextends.treeRoots]
    refine (hdata.index.add _ _).congr ?_
    intro nHeight root
    rw [getElem?_insert_eq]
    by_cases hheight : (chain.length : Int) + 1 = nHeight
    · subst hheight
      have hnone : ¬ state.db.treeRoots[(chain.length : Int) + 1]? = some root := by
        rw [hdata.treeRoots]
        rintro ⟨other, hother, -⟩
        exact not_frontierAt_succ hother
      simp [hnone, eq_comm]
    · simp [hheight, Ne.symm hheight]
  · rw [hextends.lastFrontierHeight, lastActive, if_pos, length_cons, Int.natCast_succ]
    exact ⟨cons_ne_nil block chain, hactive⟩
  · rw [hextends.pool, hpoolOf]
  · rw [hpoolOf]
    exact hpool

theorem DataOf.below (hbelow : lastActive params chain = -1) {other : List CBlock}
    (hchecked : Checked params other) (hother : lastActive params other = -1) :
    DataOf params frontiers other state := by
  obtain ⟨hrevealed, hpool⟩ := hdata.checked.empty_of_below hbelow
  obtain ⟨hotherRevealed, hotherPool⟩ := hchecked.empty_of_below hother
  have hunrevealed : ∀ {chain : List CBlock} {nf nHeight}, revealedOn chain = [] →
      ¬ RevealedAt chain nf nHeight := by
    intro chain nf nHeight hempty hrevealed
    have hmem := mem_revealedOn_iff.mpr ⟨nHeight, hrevealed⟩
    rw [hempty] at hmem
    cases hmem
  refine ⟨hchecked, ?_, ?_, ?_, ?_, ?_, hdata.index, ?_, ?_, ?_, hdata.storedPool,
    hdata.pendingBatch⟩
  · rw [hotherRevealed]
    exact nodup_nil
  · intro nf nHeight
    rw [hdata.nullifiers]
    exact iff_of_false (hunrevealed hrevealed) (hunrevealed hotherRevealed)
  · rw [hchecked.frontierOf_of_below hother]
    rfl
  · intro nHeight entry
    rw [hdata.treeRoots]
    simp [not_frontierAt_of_below hbelow, not_frontierAt_of_below hother]
  · intro nHeight entry
    rw [hdata.treeData]
    simp [not_frontierAt_of_below hbelow, not_frontierAt_of_below hother]
  · rw [hdata.last, hbelow, hother]
  · rw [hdata.pool, hpool, hotherPool]
  · rw [hotherPool]

end

variable {pprev : Uint256} {fJustCheck : Bool}

theorem processSpecialTxsInBlock_eq_ok
    (hprocess : processSpecialTxsInBlock params frontiers verifySaplingProofs state block nHeight
      pprev fJustCheck = (.ok (), next)) :
    checkSpecialTxs params state.isValidAnchor verifySaplingProofs nHeight block.vtx = .ok () ∧
      ¬ RejectsMismatch params state nHeight pprev ∧
      state.processBlock frontiers params block nHeight fJustCheck = (true, next) := by
  unfold processSpecialTxsInBlock at hprocess
  split at hprocess
  · cases hprocess
  · rename_i hcheck
    split at hprocess
    · cases hprocess
    · rename_i hmismatch
      refine ⟨hcheck, hmismatch, ?_⟩
      obtain ⟨hresult, hnext⟩ := Prod.mk.inj hprocess
      split at hresult
      · rename_i htrue
        exact Prod.ext htrue hnext
      · cases hresult

theorem DataOf.connect (hdata : DataOf params frontiers chain state)
    (hactive : params.IsSaplingActive (chain.length + 1))
    (hprocess : processSpecialTxsInBlock params frontiers verifySaplingProofs state block
      (chain.length + 1) pprev false = (.ok (), next)) :
    DataOf params frontiers (block :: chain) next.commitBlock ∧
      next.commitBlock.db.bestBlock = some block.hash := by
  obtain ⟨hcheck, -, hblock⟩ := processSpecialTxsInBlock_eq_ok hprocess
  have hnew := checkSpecialTxs_payloads hcheck
  obtain ⟨frontier, hfrontier, hhas⟩ := hdata.hasFrontier
  have hlast : state.lastFrontierHeight < chain.length + 1 := by
    rw [hdata.last, lastActive]
    split <;> omega
  obtain ⟨extended, poolDelta, happend, hextends, hnodup, hfresh, hpool⟩ :=
    hhas.processBlock hactive hlast hdata.pendingBatch hblock
  refine ⟨?_, hextends.bestBlock⟩
  rcases hpool with ⟨hdelta, hpool⟩ | ⟨hrevealed, hcommitted, rfl⟩
  · exact hdata.extends hactive hnew hfrontier happend hextends hnodup hfresh hdelta hpool
  · have hempty := payloadsOf_eq_nil (fun payload hpayload => (hnew payload hpayload).2)
      hrevealed hcommitted
    refine hdata.extends hactive hnew hfrontier happend hextends hnodup hfresh ?_ ?_
    · rw [balanceOf_eq_zero hempty, Int.neg_zero]
    · rw [Int.add_zero, hdata.pool]
      exact hdata.pool_nonneg

theorem processSpecialTxsInBlock_skipped (hpending : state.pendingBatch = none)
    (hskip : ¬ params.IsSaplingActive nHeight ∨ nHeight ≤ state.lastFrontierHeight)
    (hprocess : processSpecialTxsInBlock params frontiers verifySaplingProofs state block nHeight
      pprev false = (.ok (), next)) :
    next.commitBlock = state := by
  obtain ⟨-, -, hblock⟩ := processSpecialTxsInBlock_eq_ok hprocess
  have hsame : next = state := by
    unfold processBlock at hblock
    by_cases hactive : params.IsSaplingActive nHeight
    · rw [if_neg (not_not.mpr hactive), if_pos (hskip.resolve_left (not_not.mpr hactive))] at hblock
      exact (Prod.mk.inj hblock).2.symm
    · rw [if_pos hactive] at hblock
      exact (Prod.mk.inj hblock).2.symm
  unfold commitBlock
  rw [hsame, hpending]

theorem DataOf.refused (hdata : DataOf params frontiers chain state) {reason : String}
    (hprocess : processSpecialTxsInBlock params frontiers verifySaplingProofs state block nHeight
      pprev fJustCheck = (.error reason, next)) :
    DataOf params frontiers chain next ∧ next.db = state.db := by
  unfold processSpecialTxsInBlock at hprocess
  split at hprocess
  · obtain ⟨-, rfl⟩ := Prod.mk.inj hprocess
    exact ⟨hdata, rfl⟩
  · split at hprocess
    · obtain ⟨-, rfl⟩ := Prod.mk.inj hprocess
      exact ⟨hdata, rfl⟩
    · obtain ⟨hresult, rfl⟩ := Prod.mk.inj hprocess
      have hfalse : (state.processBlock frontiers params block nHeight fJustCheck).1 = false := by
        by_contra htrue
        rw [Bool.not_eq_false] at htrue
        rw [if_pos htrue] at hresult
        cases hresult
      have hpending := processBlock_pending frontiers state params block nHeight
        fJustCheck
      exact ⟨hdata.of_discard hpending.1 (hpending.2 hdata.pendingBatch (Or.inl hfalse)),
        db_of_discard hpending.1⟩

theorem processSpecialTxsInBlock_discard (verifySaplingProofs : ProofVerdict)
    (state : CSaplingState) (block : CBlock) (nHeight : Int) (pprev : Uint256)
    (fJustCheck : Bool) :
    (processSpecialTxsInBlock params frontiers verifySaplingProofs state block nHeight pprev
      fJustCheck).2.discardPendingBatch = state.discardPendingBatch := by
  unfold processSpecialTxsInBlock
  split
  · rfl
  · split
    · rfl
    · exact (processBlock_pending frontiers state params block nHeight fJustCheck).1

theorem processSpecialTxsInBlock_of_discard (hactive : params.IsSaplingActive nHeight)
    (hlast : state.lastFrontierHeight < nHeight) (hpending : state.pendingBatch.isSome)
    (hprocess : processSpecialTxsInBlock params frontiers verifySaplingProofs state block nHeight
      pprev fJustCheck = (.ok (), next)) :
    processSpecialTxsInBlock params frontiers verifySaplingProofs state.discardPendingBatch block
      nHeight pprev fJustCheck = (.ok (), next) := by
  obtain ⟨hcheck, hmismatch, hblock⟩ := processSpecialTxsInBlock_eq_ok hprocess
  have hsame : state.discardPendingBatch.processBlock frontiers params block nHeight fJustCheck =
      (true, next) := by
    unfold processBlock at hblock ⊢
    rw [if_neg (not_not.mpr hactive), if_neg (not_le.mpr hlast), if_pos hpending] at hblock
    rw [if_neg (not_not.mpr hactive)]
    exact (if_neg (not_le.mpr hlast)).trans hblock
  have hcheck' : checkSpecialTxs params state.discardPendingBatch.isValidAnchor
      verifySaplingProofs nHeight block.vtx = .ok () := hcheck
  have hmismatch' : ¬ RejectsMismatch params state.discardPendingBatch nHeight pprev := hmismatch
  unfold processSpecialTxsInBlock
  rw [hcheck']
  simp only [if_neg hmismatch', hsame, if_true]

theorem DataOf.attempt (hdata : DataOf params frontiers chain state)
    (verifySaplingProofs : ProofVerdict) (block : CBlock) (nHeight : Int) (pprev : Uint256)
    (fJustCheck : Bool) :
    DataOf params frontiers chain (processSpecialTxsInBlock params frontiers
      verifySaplingProofs state block nHeight pprev fJustCheck).2.discardPendingBatch ∧
    (processSpecialTxsInBlock params frontiers verifySaplingProofs state block nHeight pprev
      fJustCheck).2.discardPendingBatch.db = state.db := by
  have hsame := @processSpecialTxsInBlock_discard Frontier params frontiers verifySaplingProofs
    state block nHeight pprev fJustCheck
  refine ⟨hdata.of_discard hsame rfl, ?_⟩
  rw [hsame]
  rfl

theorem disconnectBlock_discard
    (hundo : disconnectBlock params state block nHeight pprev = some next) :
    disconnectBlock params state.discardPendingBatch block nHeight pprev =
        some next.discardPendingBatch ∧
      next.pendingBatch = state.pendingBatch := by
  unfold disconnectBlock undoBlock at hundo ⊢
  split at hundo
  · cases hundo
  · rename_i hmatches
    rw [if_neg]
    · split at hundo
      · rename_i hactive
        obtain rfl := Option.some.inj hundo
        exact ⟨if_pos hactive, rfl⟩
      · rename_i hactive
        rw [if_neg hactive]
        split at hundo
        · cases hundo
        · split at hundo
          · rename_i hempty
            obtain rfl := Option.some.inj hundo
            exact ⟨if_pos hempty, rfl⟩
          · rename_i hempty
            split at hundo
            · cases hundo
            · rename_i hheights
              simp only at hundo
              split at hundo
              · cases hundo
              · rename_i hpool
                obtain rfl := Option.some.inj hundo
                exact ⟨((if_neg hempty).trans (if_neg hheights)).trans (if_neg hpool), rfl⟩
    · exact hmatches

theorem DataOf.erase_revealed (hdata : DataOf params frontiers (block :: chain) state)
    (nf : Uint256) (nHeight : Int) :
    (if nf ∈ revealedBy block then none else state.db.nullifiers[nf]?) = some nHeight ↔
      RevealedAt chain nf nHeight := by
  by_cases hnf : nf ∈ revealedBy block
  · rw [if_pos hnf]
    have hstored := (hdata.nullifiers nf (chain.length + 1)).mpr
      (revealedAt_cons.mpr (Or.inl ⟨rfl, hnf⟩))
    constructor
    · intro hnone
      cases hnone
    · intro hbelow
      have hother := (hdata.nullifiers nf nHeight).mpr (revealedAt_cons.mpr (Or.inr hbelow))
      rw [hstored, Option.some.injEq] at hother
      have hle := hbelow.le
      omega
  · rw [if_neg hnf, hdata.nullifiers, revealedAt_cons]
    simp [hnf]

theorem DataOf.undo (hdata : DataOf params frontiers (block :: chain) state)
    (hactive : params.IsSaplingActive (chain.length + 1))
    (hundo : state.undoBlock params block (chain.length + 1) (some pprev) = some next) :
    DataOf params frontiers chain next ∧ next.db.bestBlock = some pprev := by
  have htip : block :: chain ≠ [] ∧ params.IsSaplingActive (block :: chain).length := by
    exact ⟨cons_ne_nil block chain, hactive⟩
  obtain ⟨frontier, hfrontier⟩ := Option.isSome_iff_exists.mp hdata.appended
  have hat := (frontierAt_tip htip.1 htip.2).mpr hfrontier
  rw [length_cons, Int.natCast_succ] at hat
  have hroot := (hdata.treeRoots _ _).mpr ⟨frontier, hat, rfl⟩
  have hlast : state.lastFrontierHeight ≤ chain.length + 1 := by
    rw [hdata.last, lastActive, if_pos htip, length_cons, Int.natCast_succ]
  obtain ⟨poolDelta, hretracts, hpool⟩ :=
    undoBlock_retracts hactive hroot hlast hundo
  have hnew : ∀ payload ∈ payloadsOf block, HasShieldedActions payload :=
    fun payload hpayload => (hdata.checked block chain suffix_rfl payload hpayload).2
  have hpoolOf : next.nSaplingValuePool = poolOf chain ∧ 0 ≤ next.nSaplingValuePool := by
    have hbefore := hdata.pool
    have hnonneg := hdata.pool_nonneg
    rw [poolOf_cons] at hbefore hnonneg
    rw [hretracts.pool]
    rcases hpool with ⟨hdelta, hpool⟩ | ⟨hrevealed, hcommitted, rfl⟩
    · exact ⟨by omega, hpool⟩
    · have hbalance := balanceOf_eq_zero (payloadsOf_eq_nil hnew hrevealed hcommitted)
      exact ⟨by omega, by omega⟩
  have happended : (frontierOf frontiers chain).isSome := by
    rw [frontierOf, Option.bind_eq_bind, Option.bind_eq_some_iff] at hfrontier
    obtain ⟨below, hbelow, -⟩ := hfrontier
    rw [hbelow]
    rfl
  have hroots : TableOf params frontiers chain frontiers.root next.db.treeRoots := by
    rw [hretracts.treeRoots]
    exact hdata.treeRoots.tail
  have hindex : next.anchorHeights.Indexes
      (fun nHeight root => next.db.treeRoots[nHeight]? = some root) := by
    rw [hretracts.anchorHeights, hretracts.treeRoots]
    refine (hdata.index.remove _ _).congr ?_
    intro nHeight root
    rw [getElem?_erase_eq]
    by_cases hheight : (chain.length : Int) + 1 = nHeight
    · subst hheight
      simp [hroot, eq_comm]
    · simp [hheight, Ne.symm hheight]
  refine ⟨⟨hdata.checked.suffix (suffix_cons block chain), ?_, ?_, happended, hroots, ?_,
    hindex, ?_, hpoolOf.1, ?_, hretracts.storedPool hdata.storedPool, ?_⟩, hretracts.bestBlock⟩
  · have hall := hdata.distinct
    exact hall.of_append_right
  · intro nf nHeight
    rw [hretracts.nullifiers]
    exact hdata.erase_revealed nf nHeight
  · rw [hretracts.treeData]
    exact hdata.treeData.tail
  · rw [hretracts.lastFrontierHeight]
    exact hroots.lastHeight happended hindex.mem_keys_iff
  · rw [← hpoolOf.1]
    exact hpoolOf.2
  · rw [hretracts.pendingBatch]
    exact hdata.pendingBatch

theorem not_active_of_succ (hactive : ¬ params.IsSaplingActive (chain.length + 1)) :
    ¬ params.IsSaplingActive chain.length :=
  fun hchain => hactive (le_trans hchain (by omega))

theorem lastActive_of_inactive (hactive : ¬ params.IsSaplingActive (chain.length + 1)) :
    lastActive params chain = -1 ∧ lastActive params (block :: chain) = -1 :=
  ⟨if_neg (fun htip => not_active_of_succ hactive htip.2), if_neg (fun htip => hactive htip.2)⟩

theorem DataOf.connected (hdata : DataOf params frontiers chain state)
    (hprocess : processSpecialTxsInBlock params frontiers verifySaplingProofs state block
      (chain.length + 1) pprev false = (.ok (), next)) :
    DataOf params frontiers (block :: chain) next.commitBlock := by
  by_cases hactive : params.IsSaplingActive (chain.length + 1)
  · exact (hdata.connect hactive hprocess).1
  · have hcheck := (processSpecialTxsInBlock_eq_ok hprocess).1
    obtain ⟨hbelow, hlonger⟩ := lastActive_of_inactive hactive
    rw [processSpecialTxsInBlock_skipped hdata.pendingBatch (Or.inl hactive) hprocess]
    exact hdata.below hbelow (hdata.checked.cons (checkSpecialTxs_payloads hcheck)) hlonger

theorem DataOf.disconnected (hdata : DataOf params frontiers (block :: chain) state)
    (hundo : disconnectBlock params state block (chain.length + 1) pprev = some next) :
    DataOf params frontiers chain next := by
  unfold disconnectBlock at hundo
  split at hundo
  · cases hundo
  · by_cases hactive : params.IsSaplingActive (chain.length + 1)
    · exact (hdata.undo hactive hundo).1
    · obtain ⟨hbelow, hlonger⟩ := lastActive_of_inactive hactive
      unfold undoBlock at hundo
      rw [if_pos hactive, Option.some.injEq] at hundo
      rw [← hundo]
      exact hdata.below hlonger (hdata.checked.suffix (suffix_cons block chain)) hbelow

/-! ## Runs -/

variable {genesis : Uint256}

variable (params frontiers genesis) in
/-- The store is that of the chain, and its record is the tip. -/
structure StoreOf (chain : List CBlock) (state : CSaplingState) : Prop
    extends DataOf params frontiers chain state where
  tip : ∀ hash, state.db.bestBlock = some hash →
    hash = tipHash genesis chain ∧ params.IsSaplingActive (chain.length + 1)
  tip_active : chain ≠ [] → params.IsSaplingActive chain.length →
    state.db.bestBlock = some (tipHash genesis chain)

theorem storeOf_initial : StoreOf params frontiers genesis [] (load {}) := by
  refine ⟨dataOf_initial, ?_, ?_⟩
  · intro hash hstored
    cases hstored
  · intro hne
    exact absurd rfl hne

theorem StoreOf.reflects (hstore : StoreOf params frontiers genesis chain state) :
    Reflects params frontiers genesis chain state := by
  refine ⟨hstore.reflectsData, ?_, hstore.tip_active⟩
  unfold verifyBestBlock
  cases hbest : state.db.bestBlock with
  | none => rfl
  | some hash => simpa using (hstore.tip hash hbest).1

theorem StoreOf.of_db (hstore : StoreOf params frontiers genesis chain state)
    (hnext : DataOf params frontiers chain next ∧ next.db = state.db) :
    StoreOf params frontiers genesis chain next := by
  refine ⟨hnext.1, ?_, ?_⟩
  · rw [hnext.2]
    exact hstore.tip
  · rw [hnext.2]
    exact hstore.tip_active

theorem storeOf_recorded (hdata : DataOf params frontiers chain state)
    (hbest : state.db.bestBlock = some (tipHash genesis chain))
    (hactive : params.IsSaplingActive (chain.length + 1)) :
    StoreOf params frontiers genesis chain state := by
  refine ⟨hdata, ?_, fun _ _ => hbest⟩
  intro hash hsome
  rw [hbest, Option.some.injEq] at hsome
  exact ⟨hsome.symm, hactive⟩

theorem storeOf_unrecorded (hdata : DataOf params frontiers chain state)
    (hbest : state.db.bestBlock = none) (hactive : ¬ params.IsSaplingActive chain.length) :
    StoreOf params frontiers genesis chain state := by
  refine ⟨hdata, ?_, fun _ htip => absurd htip hactive⟩
  intro hash hsome
  rw [hbest] at hsome
  cases hsome

theorem StoreOf.connect (hstore : StoreOf params frontiers genesis chain state) {pprev : Uint256}
    (hprocess : processSpecialTxsInBlock params frontiers verifySaplingProofs state block
      (chain.length + 1) pprev false = (.ok (), next)) :
    StoreOf params frontiers genesis (block :: chain) next.commitBlock := by
  have hconnected := hstore.toDataOf.connected hprocess
  by_cases hactive : params.IsSaplingActive (chain.length + 1)
  · refine storeOf_recorded hconnected (hstore.toDataOf.connect hactive hprocess).2
      (le_trans hactive ?_)
    rw [length_cons]
    omega
  · have hbest : state.db.bestBlock = none := by
      cases hbest : state.db.bestBlock with
      | none => rfl
      | some hash => exact absurd (hstore.tip hash hbest).2 hactive
    refine storeOf_unrecorded hconnected ?_ hactive
    rw [processSpecialTxsInBlock_skipped hstore.pendingBatch (Or.inl hactive) hprocess]
    exact hbest

theorem StoreOf.disconnect (hstore : StoreOf params frontiers genesis (block :: chain) state)
    (hkeeps : params.IsSaplingActive (chain.length + 1) ∨ state.db.bestBlock = none)
    (hundo : disconnectBlock params state block (chain.length + 1) (tipHash genesis chain) =
      some next) : StoreOf params frontiers genesis chain next := by
  have hdisconnected := hstore.toDataOf.disconnected hundo
  unfold disconnectBlock at hundo
  split at hundo
  · cases hundo
  · by_cases hactive : params.IsSaplingActive (chain.length + 1)
    · exact storeOf_recorded hdisconnected (hstore.toDataOf.undo hactive hundo).2 hactive
    · unfold undoBlock at hundo
      rw [if_pos hactive, Option.some.injEq] at hundo
      refine storeOf_unrecorded hdisconnected ?_ (not_active_of_succ hactive)
      rw [← hundo]
      exact hkeeps.resolve_left hactive

theorem storeOf_shieldedStep {node : ShieldedChain} {step : ShieldedStep}
    (hstore : StoreOf params frontiers genesis node.chain node.sapling)
    (hkeeps : KeepsTip params node step) :
    StoreOf params frontiers genesis
      (shieldedStep params frontiers genesis verifySaplingProofs node step).chain
      (shieldedStep params frontiers genesis verifySaplingProofs node step).sapling := by
  cases step with
  | connect block =>
    simp only [shieldedStep]
    split
    · rename_i next hprocess
      exact hstore.connect hprocess
    · rename_i reason next hprocess
      exact hstore.of_db (hstore.toDataOf.refused hprocess)
  | attempt block fJustCheck =>
    exact hstore.of_db (hstore.toDataOf.attempt verifySaplingProofs block _ _ fJustCheck)
  | disconnect =>
    obtain ⟨chain, sapling⟩ := node
    cases chain with
    | nil => exact hstore
    | cons tip rest =>
      simp only [shieldedStep]
      cases hundo : disconnectBlock params sapling tip (rest.length + 1)
          (tipHash genesis rest) with
      | none => exact hstore
      | some next => exact hstore.disconnect (hkeeps tip rest rfl) hundo
  | restart => exact hstore.of_db ⟨hstore.toDataOf.load, rfl⟩

theorem storeOf_always {steps : List ShieldedStep}
    (hkeeps : Guarded (shieldedStep params frontiers genesis verifySaplingProofs)
      (KeepsTip params) ShieldedChain.initial steps) :
    Always (shieldedStep params frontiers genesis verifySaplingProofs)
      (fun node => StoreOf params frontiers genesis node.chain node.sapling)
      ShieldedChain.initial steps :=
  always_of_guarded (fun _ _ => storeOf_shieldedStep) storeOf_initial hkeeps

/-- Along every run from genesis in which no block below the activation height is disconnected
once the store has recorded a block, the shielded state is the function of the active chain. -/
theorem shielded_state_reflects_chain (params : SaplingParams)
    (frontiers : FrontierFunctions Frontier) (genesis : Uint256)
    (verifySaplingProofs : ProofVerdict) (steps : List ShieldedStep)
    (hkeeps : Guarded (shieldedStep params frontiers genesis verifySaplingProofs)
      (KeepsTip params) ShieldedChain.initial steps) :
    Always (shieldedStep params frontiers genesis verifySaplingProofs)
      (fun node => Reflects params frontiers genesis node.chain node.sapling)
      ShieldedChain.initial steps := by
  intro visited hvisited
  exact (storeOf_always hkeeps visited hvisited).reflects

namespace Sample

def counting : FrontierFunctions Nat where
  new := 0
  append frontier _ := some (frontier + 1)
  root frontier := frontier + 1
  serialize frontier := replicate frontier 0
  deserialize bytes := some bytes.length
  deserialize_serialize frontier := by rw [length_replicate]
  root_ne_null frontier := Nat.succ_ne_zero frontier

def provesAll : ProofVerdict := fun _ _ => none

def devParams : SaplingParams := { SaplingHeight := 2, nSaplingStrictnessHeight := 0 }

def regtestParams : SaplingParams := { SaplingHeight := 0 }

def shieldedTx (hash : Uint256) (payload : SaplingTxPayload) : CTransaction :=
  { hash, nVersion := 3, nType := .sapling, vin := [], vout := [], saplingPayload := some payload }

def shield : CBlock :=
  ⟨11, [shieldedTx 21 { valueBalance := -5, vOutputDescriptions := [⟨7⟩] }]⟩

def unshield : CBlock :=
  ⟨12, [shieldedTx 22
    { valueBalance := 3, vSpendDescriptions := [⟨2, 9⟩], vOutputDescriptions := [⟨8⟩] }]⟩

def steps : List ShieldedStep :=
  [.connect shield, .connect unshield, .connect ⟨13, unshield.vtx⟩, .attempt ⟨14, []⟩ false,
    .disconnect, .connect unshield, .restart, .connect ⟨15, []⟩]

end Sample

open Sample

theorem shielded_state_reflects_chain_steps :
    Guarded (shieldedStep regtestParams counting 1 provesAll)
        (KeepsTip regtestParams) ShieldedChain.initial steps ∧
      Always (shieldedStep regtestParams counting 1 provesAll)
        (fun node => Reflects regtestParams counting 1 node.chain node.sapling)
        ShieldedChain.initial steps ∧
      (run (shieldedStep regtestParams counting 1 provesAll)
        ShieldedChain.initial steps).chain.map CBlock.hash = [15, 12, 11] := by
  have hactive : ∀ rest : List CBlock, regtestParams.IsSaplingActive (rest.length + 1) := by
    intro rest
    show (0 : Int) ≤ rest.length + 1
    omega
  have hkeeps : Guarded (shieldedStep regtestParams counting 1 provesAll)
      (KeepsTip regtestParams) ShieldedChain.initial steps :=
    ⟨trivial, trivial, trivial, trivial, fun _ rest _ => Or.inl (hactive rest), trivial, trivial,
      trivial, trivial⟩
  exact ⟨hkeeps, shielded_state_reflects_chain regtestParams counting 1
    provesAll steps hkeeps, by decide +kernel⟩

/-- After a reorganisation below the activation height the store records a block that is no
longer on the chain, and the branch that a fresh node connects is refused. -/
theorem recorded_tip_left_behind :
    (run (shieldedStep devParams counting 1 provesAll)
        ShieldedChain.initial
        [.connect ⟨2, []⟩, .connect ⟨3, []⟩, .disconnect, .disconnect]).sapling.db.bestBlock =
      some 2 ∧
    ¬ Always (shieldedStep devParams counting 1 provesAll)
      (fun node => Reflects devParams counting 1 node.chain node.sapling)
      ShieldedChain.initial [.connect ⟨2, []⟩, .connect ⟨3, []⟩, .disconnect, .disconnect] ∧
    (run (shieldedStep devParams counting 1 provesAll) ShieldedChain.initial
        [.connect ⟨4, []⟩, .connect ⟨5, []⟩]).chain.map CBlock.hash = [5, 4] ∧
    (run (shieldedStep devParams counting 1 provesAll) ShieldedChain.initial
        [.connect ⟨2, []⟩, .connect ⟨3, []⟩, .disconnect, .disconnect, .connect ⟨4, []⟩,
          .connect ⟨5, []⟩]).chain.map CBlock.hash = [4] := by
  refine ⟨by decide +kernel, ?_, by decide +kernel, by decide +kernel⟩
  intro hreflects
  have htip := hreflects.final.tip
  exact absurd htip (by decide +kernel)

end Kerrigan.Sapling
