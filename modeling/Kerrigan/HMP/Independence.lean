import Kerrigan.HMP.Lookback

/-!
# Weights of a child in two histories

Two histories that end anchored at the same block can weigh a child differently only
through the commitment registry.  The registry keeps what it recorded when blocks arrived,
while a fresh start sees the commitments of the lookback; the weights agree where the chain
leaves no doubt about the signers of the child.
-/

namespace Kerrigan.HMP

open Primitives Consensus Lib CHMPPrivilegeTracker HMPState HMPNode CHMPCommitmentRegistry

/-! ## What a weight reads -/

theorem filterCommitted_congr {first second : CBLSPublicKey → Bool}
    {signers : List CBLSPublicKey} (hsame : ∀ signer ∈ signers, first signer = second signer)
    (algos : List Nat) (proofs : List CBLSSignature) :
    filterCommitted first signers algos proofs = filterCommitted second signers algos proofs := by
  induction signers generalizing algos proofs with
  | nil => rfl
  | cons signer rest ih =>
    simp only [filterCommitted, hsame signer List.mem_cons_self,
      ih (fun other hmem => hsame other (List.mem_cons_of_mem signer hmem))]

section Congruence

variable {params : Params} {oracles : Oracles} {tracker : CHMPPrivilegeTracker}
  {entries : List CHMPExtendedEntry} {first second : CHMPCommitmentRegistry} {block : HMPBlock}
  {parent : Chain}

theorem countedSigners_congr {cbTx : CCbTx}
    (hcommitted : 0 < params.nHMPCommitmentOffset → ∀ signer ∈ cbTx.vSealSigners,
      first.isCommitted params signer (sealedHeight params parent) =
        second.isCommitted params signer (sealedHeight params parent)) :
    countedSigners params oracles first { tracker with extendedWindow := entries } block
        (parent.height + 1) cbTx =
      countedSigners params oracles second tracker block (parent.height + 1) cbTx := by
  have hpass : ∀ given : List CBLSPublicKey × List Nat × List CBLSSignature,
      given.1 = cbTx.vSealSigners → commitmentPass params first (parent.height + 1) given =
        commitmentPass params second (parent.height + 1) given := by
    intro given hgiven
    unfold commitmentPass
    split
    · rename_i henabled
      exact filterCommitted_congr (hgiven ▸ hcommitted henabled.1) _ _
    · rfl
  unfold countedSigners filterSealSigners
  split
  · rw [hpass _ rfl]
    rfl
  · rfl

theorem nSealWeight_congr
    (helders : ∀ algo, getElderSet params { tracker with extendedWindow := entries } algo true =
      getElderSet params tracker algo true)
    (hcommitted : 0 < params.nHMPCommitmentOffset → ∀ cbTx ∈ block.hmpPayload,
      ∀ signer ∈ cbTx.vSealSigners,
        first.isCommitted params signer (sealedHeight params parent) =
          second.isCommitted params signer (sealedHeight params parent)) :
    (blockVerdict params oracles first { tracker with extendedWindow := entries } block
        parent).nSealWeight =
      (blockVerdict params oracles second tracker block parent).nSealWeight := by
  unfold blockVerdict
  split
  · rfl
  · split
    · rfl
    · cases block.coinbase with
      | other => rfl
      | special payload =>
        cases hpayload : block.hmpPayload with
        | none => rfl
        | some cbTx =>
          simp only [payloadVerdict]
          split
          · rfl
          · rw [countedSigners_congr (fun hoffset => hcommitted hoffset cbTx hpayload),
              sealWeight_extended helders]

theorem nSealWeight_congr_registry
    (hcommitted : 0 < params.nHMPCommitmentOffset → ∀ cbTx ∈ block.hmpPayload,
      ∀ signer ∈ cbTx.vSealSigners,
        first.isCommitted params signer (sealedHeight params parent) =
          second.isCommitted params signer (sealedHeight params parent)) :
    (blockVerdict params oracles first tracker block parent).nSealWeight =
      (blockVerdict params oracles second tracker block parent).nSealWeight :=
  nSealWeight_congr (fun _ => rfl) hcommitted

end Congruence

/-! ## Two histories -/

variable {params : Params} {oracles : Oracles}

theorem hmpStep_connect {node : HMPNode} {block : HMPBlock}
    (hcoinbase : checkCoinbase params oracles (node.chain.height + 1) block.coinbase = .ok ())
    (hblock : checkBlock params oracles block node.chain = .ok ()) :
    hmpStep params oracles node (.connect block true) =
      { chain := block :: node.chain
        state := (node.state.prepare params oracles node.chain).apply params block node.chain
          ((node.state.prepare params oracles node.chain).verdict params oracles block
            node.chain) } := by
  simp only [hmpStep, hcoinbase, hblock]

theorem prepare_anchored (hschedule : DeterministicSchedule params) {chain : Chain}
    {state : HMPState} (hheight : params.nHMPDeterministicSealHeight ≤ chain.height)
    (hanchored : state.anchor = chain.tipHash) :
    state.prepare params oracles chain = state := by
  unfold prepare clearAtActivation
  rw [if_pos (hschedule.hmpActive (hheight.trans (by omega))),
    if_pos (hschedule.hmpActive hheight), if_neg (fun h => h.2 hanchored)]

theorem History.followsLookback {node : HMPNode} (hhistory : History params oracles node)
    (hlookback : params.nHMPDeterministicSealHeight + maxLookback params ≤ node.chain.height)
    (hanchored : node.state.anchor = node.chain.tipHash) :
    FollowsEntries params (maxLookback params + 1) node.state.tracker node.chain := by
  rcases hhistory.follows with hnone | hfollows
  · cases hchain : node.chain with
    | nil => exact absurd hchain hhistory.nonempty
    | cons block parent =>
      rw [hnone, hchain] at hanchored
      cases hanchored
  · have hcount : followedCount params node.chain = maxLookback params + 1 := by
      unfold followedCount
      omega
    rw [← hcount]
    exact hfollows.2

theorem isCommitted_congr (hschedule : DeterministicSchedule params) {genesis : HMPBlock}
    {first second : List HMPAction} {top : Int} {key : CBLSPublicKey} {chain : Chain}
    (hchain : (after params oracles genesis first).chain = chain)
    (hchain' : (after params oracles genesis second).chain = chain)
    (hlookback : params.nHMPDeterministicSealHeight + maxLookback params ≤ chain.height)
    (hfirst : (after params oracles genesis first).state.anchor = chain.tipHash)
    (hsecond : (after params oracles genesis second).state.anchor = chain.tipHash)
    (hbelow : StaysBelow params oracles genesis top first)
    (hbelow' : StaysBelow params oracles genesis top second)
    (hoffset : 0 < params.nHMPCommitmentOffset) (hfree : HistoryFree params chain top key) :
    (after params oracles genesis first).state.registry.isCommitted params key
        (sealedHeight params chain) =
      (after params oracles genesis second).state.registry.isCommitted params key
        (sealedHeight params chain) := by
  rcases hfree with hforgotten | ⟨base, hbase, hearly, htop, hsettled⟩
  · have hout := not_isCommitted_of_forgotten hoffset
      (hchain ▸ tracks_after params oracles key genesis first) hforgotten
    have hout' := not_isCommitted_of_forgotten hoffset
      (hchain' ▸ tracks_after params oracles key genesis second) hforgotten
    rw [Bool.not_eq_true] at hout hout'
    rw [hout, hout']
  · have hdeterministic := hsettled.deterministic hlookback
    have hin := isCommitted_of_settled hoffset hchain hfirst
      (entryHistory_after hschedule hsettled hdeterministic htop hbelow) hbase hearly
    have hin' := isCommitted_of_settled hoffset hchain' hsecond
      (entryHistory_after hschedule hsettled hdeterministic htop hbelow') hbase hearly
    rw [hin, hin']

namespace Sample

def committingParams : Params where
  nHMPCommitmentOffset := 10
  nHMPSealAlgoFixHeight := 1
  nHMPDeterministicSealHeight := 1

def longMiner (height : Nat) : CBLSPublicKey :=
  if height = 1 then 1
  else if height < 1002 then 3
  else if height % 2 = 0 then 1
  else 2

def longPayload (height : Nat) : CCbTx where
  nVersion := 5
  minerIdentity := longMiner height
  sealForAncestor := if height = 1100 then 1 else 0
  sealBlockHash := if height = 1100 then 1099 else 0
  vSealSigners := if height = 1100 then [1, 2] else []
  vSealSignerAlgos := if height = 1100 then [0, 0] else []
  vCommitments := if height = 1 then [2] else []

def longBlock (height : Nat) : HMPBlock where
  hash := height + 1
  algo := 0
  coinbase := .special (some (longPayload height))

def longChain : Nat → Chain
  | 0 => [longBlock 0]
  | height + 1 => longBlock (height + 1) :: longChain height

def sealedChild (height : Nat) : HMPBlock where
  hash := height + 1
  algo := 0
  coinbase := .special (some
    { nVersion := 5, minerIdentity := 1, sealForAncestor := 1, sealBlockHash := height - 1
      vSealSigners := [1, 2], vSealSignerAlgos := [0, 0] })

def longActions (height : Nat) : List HMPAction :=
  (List.range height).map (fun index => .connect (longBlock (index + 1)) true)

def inOrder (height : Nat) : HMPNode :=
  .after committingParams trusting (longBlock 0) (longActions height)

def restartedActions (height : Nat) : List HMPAction :=
  longActions height ++ [.restart]

def restarted (height : Nat) : HMPNode :=
  .after committingParams trusting (longBlock 0) (restartedActions height)

def longEntry (height : Nat) : CHMPWindowEntry where
  height := height
  algo := 0
  minerPubKey := longMiner height
  sealSigners := if height = 1100 then [1, 2] else []
  signerAlgos := if height = 1100 then [0, 0] else []
  sealedAlgo := if height = 1100 then some 0 else none

def longTracker (height : Nat) : CHMPPrivilegeTracker where
  window := (List.range' (height + 1 - 100) 100).map longEntry
  sealLong := (List.range' (height + 1 - 400) 400).map (fun height : Nat =>
    ⟨height, 0, (longEntry height).sealedAlgo⟩)
  extendedWindow := (List.range' (height + 1 - 1000) 1000).map (fun height : Nat =>
    ⟨height, 0, longMiner height⟩)
  records := rebuildFromWindow ((List.range' (height + 1 - 100) 100).map longEntry)

theorem committingParams_schedule : DeterministicSchedule committingParams where
  positive := by decide
  hmp_le := by decide
  stage2_le := by decide
  v20_le := by decide
  lookback_pos := by decide
  minBlocks_pos := by decide

theorem longChain_height (height : Nat) : (longChain height).height = height := by
  induction height with
  | zero => rfl
  | succ height ih => rw [longChain, Chain.height_cons, ih, Int.natCast_succ]

variable {height : Nat}

theorem longMiner_valid (height : Nat) : (longMiner height).IsValid := by
  unfold longMiner
  split_ifs <;> decide

theorem longBlock_payload (height : Nat) :
    (longBlock height).hmpPayload = some (longPayload height) := rfl

theorem longBlock_checked (height : Nat) :
    checkCoinbase committingParams trusting (height + 1) (longBlock (height + 1)).coinbase =
      .ok () := by
  have hheight : (0 : Int) ≤ height + 1 := by omega
  change checkCbTx committingParams trusting (height + 1) (longPayload (height + 1)) = .ok ()
  simp only [checkCbTx, longPayload, bind_eq_ok_iff]
  by_cases hsealed : height + 1 = 1100 <;>
    simp [hsealed, hheight, committingParams, Params.IsHMPActive, Params.IsHMPRearmActive,
      Params.scheduledAt, CCbTx.hmpRearm, CCbTx.hmpSeal, numAlgos, require, pure, Except.pure]

theorem longBlock_accepted (height : Nat) :
    checkBlock committingParams trusting (longBlock (height + 1)) (longChain height) = .ok () := by
  by_cases hsealed : height = 1099
  · subst hsealed
    decide +kernel
  · have hunsealed : height + 1 ≠ 1100 := by omega
    have hminer : longMiner (height + 1) ≠ 0 := longMiner_valid (height + 1)
    have hcommitments : (if height = 0 then [2] else []).length ≤ 16 := by
      split <;> decide
    simp only [checkBlock, longBlock_payload]
    split
    · rfl
    · simp [longPayload, checkPayload, checkMinerIdentity, checkSeal, hunsealed, CCbTx.HasSeal,
        CBLSPublicKey.IsValid, CBLSSignature.IsValid, hminer,
        bind_eq_ok_iff, require, pure, Except.pure, committingParams, Params.IsHMPRearmActive,
        Params.scheduledAt, hcommitments]

theorem inOrder_succ (height : Nat) (hchain : (inOrder height).chain = longChain height) :
    inOrder (height + 1) =
      { chain := longBlock (height + 1) :: longChain height
        state := ((inOrder height).state.prepare committingParams trusting
            (longChain height)).apply committingParams (longBlock (height + 1)) (longChain height)
          (((inOrder height).state.prepare committingParams trusting
            (longChain height)).verdict committingParams trusting (longBlock (height + 1))
              (longChain height)) } := by
  have hstep : inOrder (height + 1) = hmpStep committingParams trusting (inOrder height)
      (.connect (longBlock (height + 1)) true) := by
    rw [inOrder, after, longActions, List.range_succ, List.map_append, List.map_singleton, run_concat]
    rfl
  rw [hstep, hmpStep_connect, hchain]
  · rw [hchain, longChain_height]
    exact longBlock_checked height
  · rw [hchain]
    exact longBlock_accepted height

theorem inOrder_chain (height : Nat) : (inOrder height).chain = longChain height := by
  induction height with
  | zero => rfl
  | succ height ih => rw [inOrder_succ height ih, longChain]

theorem inOrder_anchor (hheight : 0 < height) :
    (inOrder height).state.anchor = (longChain height).tipHash := by
  cases height with
  | zero => omega
  | succ height =>
    rw [inOrder_succ height (inOrder_chain height)]
    rfl

variable {key : CBLSPublicKey}

theorem inOrder_commitment (hfound : (inOrder (height + 1)).state.registry.committedAt key = some 1) :
    (inOrder (height + 2)).state.registry.committedAt key =
      if 1100 ≤ height then none else some 1 := by
  have hheight : committingParams.nHMPDeterministicSealHeight ≤ (longChain (height + 1)).height := by
    simp only [longChain_height, committingParams]
    omega
  have hevicts : Evicts committingParams (((height + 1 : Nat) : Int) + 1) 1 ↔ 1100 ≤ height := by
    simp only [Evicts, evictionWindow, committingParams]
    omega
  have hrecorded : (longBlock (height + 2)).Recorded committingParams
      ((longChain (height + 1)).height + 1) :=
    ⟨committingParams_schedule.hmpActive (by omega),
      committingParams_schedule.stage_ne_one (by omega), rfl⟩
  rw [inOrder_succ _ (inOrder_chain _),
    prepare_anchored committingParams_schedule hheight (inOrder_anchor (Nat.succ_pos height)),
    apply_committedAt, nextEntry, if_pos hrecorded, longChain_height, hfound,
    if_neg (fun h => Option.some_ne_none 1 h.2), Option.filter_some]
  simp only [hevicts, decide_not, Bool.not_eq_true', decide_eq_false_iff_not, ite_not]

theorem inOrder_committed (hkey : key = 1 ∨ key = 2) (hpositive : 0 < height)
    (hheight : height ≤ 1101) :
    (inOrder height).state.registry.committedAt key = some 1 := by
  induction height, hpositive using Nat.le_induction with
  | base =>
    rcases hkey with rfl | rfl
    · decide +kernel
    · decide +kernel
  | succ height hpositive ih =>
    cases height with
    | zero => omega
    | succ height => rw [inOrder_commitment (ih (by omega)), if_neg (by omega)]

theorem inOrder_evicted (hkey : key = 1 ∨ key = 2) :
    (inOrder 1102).state.registry.committedAt key = none := by
  have hbefore : (inOrder (1100 + 1)).state.registry.committedAt key = some 1 :=
    inOrder_committed hkey (by omega) (by omega)
  rw [inOrder_commitment hbefore, if_pos (Nat.le_refl 1100)]

theorem rawEntry_longBlock (height : Nat) :
    rawEntry committingParams (longBlock (height + 1)) (longChain height) =
      some (longEntry (height + 1)) := by
  by_cases hsealed : height = 1099
  · subst hsealed
    decide +kernel
  · have hunsealed : height + 1 ≠ 1100 := by omega
    have hstage : ¬ committingParams.getHMPStage ((longChain height).height + 1) < 3 := by
      have hheight : ¬ (height : Int) + 1 < 0 := by omega
      simp [Params.getHMPStage, committingParams, longChain_height, hheight]
    simp only [rawEntry, longBlock_payload, if_neg hstage]
    simp [longBlock, longPayload, longEntry, sealEntry, sealedAlgoOf, CCbTx.HasSeal,
      CBLSSignature.IsValid, hunsealed, longChain_height]

theorem rawEntries_longChain {count : Nat} (hcount : count ≤ height) :
    rawEntries committingParams count (longChain height) =
      (List.range' (height + 1 - count) count).map longEntry := by
  induction count generalizing height with
  | zero => rfl
  | succ count ih =>
    cases height with
    | zero => omega
    | succ height =>
      have hlast : height + 1 + 1 - (count + 1) + 1 * count = height + 1 := by omega
      have hstart : height + 1 - count = height + 1 + 1 - (count + 1) := by omega
      rw [longChain, rawEntries, ih (by omega), rawEntry_longBlock, List.range'_concat,
        List.map_append, hlast, hstart]
      rfl

theorem foldl_pushWindow_lookback {α : Type} (item : Nat → α) {capacity : Nat}
    (hcapacity : capacity ≤ 1101) (hheight : 1101 ≤ height) (window : List α) :
    ((List.range' (height + 1 - 1101) 1101).map item).foldl (pushWindow capacity) window =
      (List.range' (height + 1 - capacity) capacity).map item := by
  have hstart : height + 1 - 1101 + (1101 - capacity) * 1 = height + 1 - capacity := by omega
  have hcount : 1101 - (1101 - capacity) = capacity := by omega
  rw [foldl_pushWindow_of_le window (by simp) (by simpa using hcapacity), List.length_map,
    List.length_range', ← List.map_drop, List.drop_range', hstart, hcount]

theorem extendedEntries_longEntry (heights : List Nat) :
    extendedEntries (heights.map longEntry) =
      heights.map (fun height : Nat => ⟨height, 0, longMiner height⟩) := by
  have hvalid : ∀ entry ∈ heights.map longEntry, entry.minerPubKey.IsValid := by
    intro entry hentry
    obtain ⟨height, -, rfl⟩ := List.mem_map.mp hentry
    exact longMiner_valid height
  rw [extendedEntries, List.filter_eq_self.mpr (fun entry hentry => by
    simpa using hvalid entry hentry), List.map_map]
  rfl

theorem followsEntries_longTracker (hheight : 1101 ≤ height) {tracker : CHMPPrivilegeTracker}
    (hfollows : FollowsEntries committingParams 1101 tracker (longChain height)) :
    tracker = longTracker height := by
  obtain ⟨start, rfl⟩ := hfollows
  rw [rawEntries_longChain hheight]
  have hwindow : (((List.range' (height + 1 - 1101) 1101).map longEntry).foldl
      (blockConnected committingParams) start).window = (longTracker height).window := by
    rw [foldl_blockConnected_window]
    exact foldl_pushWindow_lookback longEntry (by decide) hheight start.window
  refine CHMPPrivilegeTracker.ext hwindow ?_ ?_ ?_
  · rw [foldl_blockConnected_sealLong, List.map_map]
    exact foldl_pushWindow_lookback _ (by decide) hheight start.sealLong
  · rw [foldl_blockConnected_extended, extendedEntries_longEntry]
    exact foldl_pushWindow_lookback _ (by decide) hheight start.extendedWindow
  · rw [foldl_blockConnected_records _ _ _ (by rw [List.length_map, List.length_range']; decide),
      hwindow]
    simp only [longTracker]

theorem inOrder_history (height : Nat) : History committingParams trusting (inOrder height) :=
  history_run committingParams_schedule trusting (longBlock 0) (longActions height)

theorem restarted_eq (height : Nat) :
    restarted height =
      ⟨longChain height, fresh.rebuild committingParams trusting (longChain height)⟩ := by
  have hstep : restarted height = hmpStep committingParams trusting (inOrder height) .restart := by
    rw [restarted, after, restartedActions, run_concat]
    rfl
  rw [hstep, hmpStep, inOrder_chain]

theorem restarted_chain (height : Nat) : (restarted height).chain = longChain height := by
  rw [restarted_eq]

theorem restarted_anchor (height : Nat) :
    (restarted height).state.anchor = (longChain height).tipHash := by
  have hactive : committingParams.IsHMPActive (longChain height).height := by
    rw [longChain_height]
    exact Int.natCast_nonneg height
  simp only [restarted_eq, rebuild, if_pos hactive]

theorem sealedChild_signers {cbTx : CCbTx} (hcbTx : cbTx ∈ (sealedChild height).hmpPayload)
    (hsigner : key ∈ cbTx.vSealSigners) : key = 1 ∨ key = 2 := by
  cases hcbTx
  exact List.mem_pair.mp hsigner

theorem assignedWeight_longChain {node : HMPNode} (hchain : node.chain = longChain 1102)
    (hhistory : History committingParams trusting node)
    (hanchored : node.state.anchor = node.chain.tipHash) (registry : CHMPCommitmentRegistry)
    (hregistry : ∀ key, key = 1 ∨ key = 2 →
      node.state.registry.isCommitted committingParams key 1101 =
        registry.isCommitted committingParams key 1101) :
    assignedWeight committingParams trusting node (sealedChild 1103) =
      .ok (blockVerdict committingParams trusting registry (longTracker 1102) (sealedChild 1103)
        (longChain 1102)).nSealWeight := by
  obtain ⟨chain, state⟩ := node
  obtain rfl : chain = longChain 1102 := hchain
  have hlookback : maxLookback committingParams = 1100 := by decide
  have hfollows := hhistory.followsLookback
    (by rw [longChain_height, hlookback]; decide) hanchored
  have htracker := followsEntries_longTracker (by decide) hfollows
  have hcoinbase : checkCoinbase committingParams trusting ((longChain 1102).height + 1)
      (sealedChild 1103).coinbase = .ok () := by
    decide +kernel
  have hblock : checkBlock committingParams trusting (sealedChild 1103) (longChain 1102) =
      .ok () := by
    decide +kernel
  have hsealed : sealedHeight committingParams (longChain 1102) = 1101 := by decide +kernel
  have hweight : (blockVerdict committingParams trusting state.registry state.tracker
      (sealedChild 1103) (longChain 1102)).nSealWeight =
      (blockVerdict committingParams trusting registry (longTracker 1102) (sealedChild 1103)
        (longChain 1102)).nSealWeight := by
    rw [htracker]
    refine nSealWeight_congr_registry ?_
    intro _ cbTx hcbTx signer hsigner
    rw [hsealed]
    exact hregistry signer (sealedChild_signers hcbTx hsigner)
  simp only [assignedWeight, hcoinbase, hblock, prepare_anchored committingParams_schedule
    (by simp only [longChain_height, committingParams]; decide) hanchored, verdict,
    hweight]
  rfl

theorem longChain_suffix {lower : Nat} (hle : lower ≤ height) :
    longChain lower <:+ longChain height := by
  induction height, hle using Nat.le_induction with
  | base => exact List.suffix_rfl
  | succ height hle ih => exact ih.trans (List.suffix_cons _ _)

theorem longChain_settled (hkey : key = 1 ∨ key = 2) :
    Settled committingParams (longChain 1) key 1101 where
  commits := ⟨longBlock 1, rfl, by rcases hkey with rfl | rfl <;> decide⟩
  known := by
    intro committed block hblock hcommits
    obtain ⟨hnonneg, hle⟩ := Chain.height_of_getAncestor hblock
    rw [longChain_height] at hle
    obtain rfl | rfl : committed = 0 ∨ committed = 1 := by omega
    · cases hblock
      rcases hkey with rfl | rfl
      · exact absurd hcommits (by decide)
      · exact absurd hcommits (by decide)
    · exact Or.inl (by decide)

theorem longChain_historyFree (hheight : height = 1101) (hkey : key = 1 ∨ key = 2) :
    HistoryFree committingParams (longChain height) 1101 key := by
  have hlookback : maxLookback committingParams = 1100 := by decide
  refine Or.inr ⟨longChain 1, longChain_suffix (by omega), ?_, ?_, ?_⟩
  · rw [sealedHeight, longChain_height, longChain_height, hheight]
    decide
  · rw [longChain_height, hlookback]
    decide
  · rw [longChain_height, hheight]
    exact longChain_settled hkey

theorem inOrder_staysBelow {top : Int} (hheight : height ≤ top) :
    StaysBelow committingParams trusting (longBlock 0) top (longActions height) := by
  induction height with
  | zero => trivial
  | succ height ih =>
    rw [longActions, List.range_succ, List.map_append, List.map_singleton]
    refine Guarded.concat (ih (by omega)) ?_
    change (inOrder height).chain.height ≤ top
    rw [inOrder_chain, longChain_height]
    omega

theorem restarted_staysBelow {top : Int} (hheight : height ≤ top) :
    StaysBelow committingParams trusting (longBlock 0) top (restartedActions height) := by
  refine Guarded.concat (inOrder_staysBelow hheight) ?_
  change (inOrder height).chain.height ≤ top
  rw [inOrder_chain, longChain_height]
  exact hheight

theorem inOrder_weight :
    assignedWeight committingParams trusting (inOrder 1102) (sealedChild 1103) =
      .ok (some 1000) := by
  have hanchor : (inOrder 1102).state.anchor = (inOrder 1102).chain.tipHash := by
    rw [inOrder_chain]
    exact inOrder_anchor (by omega)
  rw [assignedWeight_longChain (inOrder_chain 1102) (inOrder_history 1102) hanchor .empty ?_]
  · decide +kernel
  · intro key hkey
    rcases hkey with rfl | rfl
    · rw [Bool.eq_iff_iff, isCommitted_iff (by decide), inOrder_evicted (Or.inl rfl)]
      decide
    · rw [Bool.eq_iff_iff, isCommitted_iff (by decide), inOrder_evicted (Or.inr rfl)]
      decide

theorem restarted_committed (hkey : key = 1 ∨ key = 2) :
    (restarted 1102).state.registry.isCommitted committingParams key 1101 := by
  have hlookback : maxLookback committingParams = 1100 := by decide
  have hwindow : evictionWindow committingParams = 1100 := by decide
  obtain ⟨settled, hlow, hhigh, hcommits⟩ :
      ∃ settled : Nat, 1001 ≤ settled ∧ settled ≤ 1002 ∧ (longBlock (settled + 1)).Commits key := by
    rcases hkey with rfl | rfl
    · exact ⟨1001, by decide⟩
    · exact ⟨1002, by decide⟩
  have hretains := @rebuild_retains committingParams trusting key (longChain 1102) .fresh
    (longChain (settled + 1)) 1102 committingParams_schedule ?_ ?_ ?_ (longChain_suffix (by omega)) ?_
    (tracks_none _ _ _ _) (Or.inr (fun _ hentry => by cases hentry))
  · rw [isCommitted_iff (by decide), restarted_eq]
    rcases hretains with ⟨committed, hentry, hle⟩ | ⟨hpassed, -⟩
    · refine ⟨committed, hentry, ?_⟩
      rw [longChain_height] at hle
      simp only [committingParams]
      omega
    · rw [longChain_height] at hpassed
      omega
  · intro committed hcommitted block _ _
    rw [longChain_height, hlookback] at hcommitted
    rw [hwindow]
    omega
  · refine ⟨longBlock (settled + 1), ?_, hcommits⟩
    rw [longChain, Chain.height_cons]
    exact Chain.getAncestor_tip _ _
  · simp only [longChain_height, committingParams]
    omega
  · rw [longChain_height, longChain_height, hlookback]
    omega

theorem restarted_weight :
    assignedWeight committingParams trusting (restarted 1102) (sealedChild 1103) =
      .ok (some 18000) := by
  have hhistory := history_run committingParams_schedule trusting (longBlock 0)
    (restartedActions 1102)
  have hanchor : (restarted 1102).state.anchor = (restarted 1102).chain.tipHash := by
    rw [restarted_anchor, restarted_chain]
  rw [assignedWeight_longChain (restarted_chain 1102) hhistory hanchor
    ((CHMPCommitmentRegistry.empty.commit 0 1).commit 0 2) ?_]
  · decide +kernel
  · intro key hkey
    rw [restarted_committed hkey]
    rcases hkey with rfl | rfl
    · decide
    · decide

end Sample

open Sample

end Kerrigan.HMP
