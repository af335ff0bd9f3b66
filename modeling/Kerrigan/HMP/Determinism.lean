import Kerrigan.HMP.Solvers

/-!
# Trackers are determined by the chain

From the deterministic height on the privilege window is a fold over block data.  Once the
whole lookback lies above that height, every tracker anchored at a block ends with the same
entries, whatever the node did before, and trackers that end with the same entries have the
same Elders.
-/

namespace Kerrigan.HMP

open Primitives Consensus Lib CHMPPrivilegeTracker HMPState List Chain

/-- The deterministic height lies in the range that the documentation of the parameter asks
for, and the windows are not degenerate. -/
structure DeterministicSchedule (params : Params) : Prop where
  positive : 0 < params.nHMPDeterministicSealHeight
  hmp_le : params.HMPHeight ≤ params.nHMPDeterministicSealHeight
  stage2_le : params.nHMPStage2Height ≤ params.nHMPDeterministicSealHeight
  v20_le : params.V20Height ≤ params.nHMPDeterministicSealHeight
  lookback_pos : 0 < params.nHMPDominanceCatchMaxLookback
  minBlocks_pos : 0 < params.nHMPMinBlocksSolved

variable {params : Params}

section Schedule

variable (hschedule : DeterministicSchedule params) {height : Int}

include hschedule

theorem DeterministicSchedule.active_iff :
    params.IsDeterministicSealActive height ↔ params.nHMPDeterministicSealHeight ≤ height :=
  ⟨fun h => h.2, fun h => ⟨hschedule.positive, h⟩⟩

theorem DeterministicSchedule.hmpActive
    (hheight : params.nHMPDeterministicSealHeight ≤ height) : params.IsHMPActive height :=
  hschedule.hmp_le.trans hheight

theorem DeterministicSchedule.stage_ne_one
    (hheight : params.nHMPDeterministicSealHeight ≤ height) : params.getHMPStage height ≠ 1 := by
  have hstage2 := hschedule.stage2_le
  unfold Params.getHMPStage
  rw [if_neg (by omega)]
  split
  · simp
  · split <;> simp

end Schedule

/-! ## Entries above the deterministic height -/

def rawEntry (params : Params) (block : HMPBlock) (parent : Chain) : Option CHMPWindowEntry :=
  match block.coinbase, block.hmpPayload with
  | .other, _ => some { height := parent.height + 1, algo := block.algo, minerPubKey := 0 }
  | .special _, none => none
  | .special _, some cbTx =>
      if params.getHMPStage (parent.height + 1) < 3 then
        some
          { height := parent.height + 1, algo := block.algo, minerPubKey := cbTx.minerIdentity }
      else some (sealEntry params block parent cbTx ([], []))

def rawEntries (params : Params) : Nat → Chain → List CHMPWindowEntry
  | 0, _ => []
  | _ + 1, [] => []
  | count + 1, block :: parent =>
      rawEntries params count parent ++ (rawEntry params block parent).toList

theorem rawEntries_add (params : Params) (older newer : Nat) (chain : Chain) :
    rawEntries params (older + newer) chain =
      rawEntries params older (chain.drop newer) ++ rawEntries params newer chain := by
  induction newer generalizing chain with
  | zero => simp [rawEntries]
  | succ newer ih =>
    cases chain with
    | nil =>
      cases older with
      | zero => simp [rawEntries]
      | succ older => simp [rawEntries]
    | cons block parent =>
      rw [← Nat.add_assoc, rawEntries, rawEntries, ih, drop_succ_cons,
        append_assoc]

variable {block : HMPBlock} {parent : Chain}

theorem sealEntry_raw (hactive : params.IsDeterministicSealActive (parent.height + 1))
    (cbTx : CCbTx) (counted : List CBLSPublicKey × List Nat) :
    sealEntry params block parent cbTx counted = sealEntry params block parent cbTx ([], []) := by
  simp only [sealEntry, if_pos hactive]

variable {oracles : Oracles} {tracker : CHMPPrivilegeTracker}

theorem blockVerdict_privilege (hschedule : DeterministicSchedule params)
    {registry : CHMPCommitmentRegistry}
    (hheight : params.nHMPDeterministicSealHeight ≤ parent.height + 1) :
    (blockVerdict params oracles registry tracker block parent).privilege =
      rawEntry params block parent := by
  have hactive := hschedule.active_iff.mpr hheight
  unfold blockVerdict rawEntry
  rw [if_neg (not_not.mpr (hschedule.hmpActive hheight)),
    if_neg (hschedule.stage_ne_one hheight)]
  cases block.coinbase with
  | other => rfl
  | special payload =>
    cases block.hmpPayload with
    | none => rfl
    | some cbTx =>
      simp only [payloadVerdict]
      split
      · rfl
      · exact congrArg some (sealEntry_raw hactive cbTx _)

theorem replayBlock_tracker (hschedule : DeterministicSchedule params) {state : HMPState}
    (hheight : params.nHMPDeterministicSealHeight ≤ parent.height + 1) :
    (state.replayBlock params oracles block parent).tracker =
      (rawEntry params block parent).toList.foldl (blockConnected params) state.tracker := by
  have hactive := hschedule.active_iff.mpr hheight
  unfold replayBlock rawEntry
  rw [if_neg (hschedule.stage_ne_one hheight)]
  cases block.coinbase with
  | other => rfl
  | special payload =>
    cases block.hmpPayload with
    | none => rfl
    | some cbTx =>
      simp only [record_tracker, sealEntry_raw hactive]
      rfl

variable {chain : Chain}

theorem replay_tracker (hschedule : DeterministicSchedule params) {state : HMPState}
    {older newer : Nat} (hheight : params.nHMPDeterministicSealHeight + newer ≤ chain.height + 1) :
    (replay params oracles (older + newer) chain state).tracker =
      (rawEntries params newer chain).foldl (blockConnected params)
        (replay params oracles older (chain.drop newer) state).tracker := by
  induction newer generalizing chain with
  | zero => rfl
  | succ newer ih =>
    cases chain with
    | nil =>
      have hpositive := hschedule.positive
      simp only [height, length_nil] at hheight
      omega
    | cons block parent =>
      rw [height_cons] at hheight
      rw [← Nat.add_assoc, replay, replayBlock_tracker hschedule (by omega),
        ih (by push_cast at hheight; omega), rawEntries, foldl_append,
        drop_succ_cons]

/-! ## Trackers that follow a chain -/

def FollowsEntries (params : Params) (count : Nat) (tracker : CHMPPrivilegeTracker)
    (chain : Chain) : Prop :=
  ∃ start, tracker = (rawEntries params count chain).foldl (blockConnected params) start

theorem followsEntries_zero (params : Params) (tracker : CHMPPrivilegeTracker) (chain : Chain) :
    FollowsEntries params 0 tracker chain :=
  ⟨tracker, rfl⟩

variable {count : Nat}

theorem FollowsEntries.shorten {shorter : Nat}
    (hfollows : FollowsEntries params count tracker chain) (hle : shorter ≤ count) :
    FollowsEntries params shorter tracker chain := by
  obtain ⟨start, hstart⟩ := hfollows
  rw [← Nat.sub_add_cancel hle, rawEntries_add, foldl_append] at hstart
  exact ⟨_, hstart⟩

theorem FollowsEntries.extend (hfollows : FollowsEntries params count tracker parent)
    (block : HMPBlock) :
    FollowsEntries params (count + 1)
      ((rawEntry params block parent).toList.foldl (blockConnected params) tracker)
      (block :: parent) := by
  obtain ⟨start, rfl⟩ := hfollows
  exact ⟨start, by rw [rawEntries, foldl_append]⟩

def extendedEntries (entries : List CHMPWindowEntry) : List CHMPExtendedEntry :=
  (entries.filter (fun entry => entry.minerPubKey.IsValid)).map (fun entry =>
    ⟨entry.height, entry.algo, entry.minerPubKey⟩)

section Fold

variable (params : Params) (start : CHMPPrivilegeTracker) (entries : List CHMPWindowEntry)

theorem foldl_blockConnected_window :
    (entries.foldl (blockConnected params) start).window =
      entries.foldl (pushWindow params.nHMPPrivilegeWindow) start.window := by
  induction entries generalizing start with
  | nil => rfl
  | cons entry rest ih => exact ih (start.blockConnected params entry)

theorem foldl_blockConnected_sealLong :
    (entries.foldl (blockConnected params) start).sealLong =
      (entries.map (fun entry => (⟨entry.height, entry.algo, entry.sealedAlgo⟩ :
        CHMPSealLongEntry))).foldl (pushWindow sealLongWindow) start.sealLong := by
  induction entries generalizing start with
  | nil => rfl
  | cons entry rest ih => rw [foldl_cons, ih, map_cons, foldl_cons, blockConnected]

theorem foldl_blockConnected_extended :
    (entries.foldl (blockConnected params) start).extendedWindow =
      (extendedEntries entries).foldl (pushWindow params.nHMPDominanceCatchMaxLookback)
        start.extendedWindow := by
  induction entries generalizing start with
  | nil => rfl
  | cons entry rest ih =>
    rw [foldl_cons, ih]
    by_cases hvalid : entry.minerPubKey.IsValid
    · simp [extendedEntries, blockConnected, hvalid]
    · simp [extendedEntries, blockConnected, hvalid]

theorem foldl_blockConnected_records (hmany : params.nHMPPrivilegeWindow < entries.length) :
    (entries.foldl (blockConnected params) start).records =
      rebuildFromWindow (entries.foldl (blockConnected params) start).window := by
  obtain ⟨front, last, rfl⟩ : ∃ front last, entries = front ++ [last] :=
    ⟨entries.dropLast, entries.getLast (ne_nil_of_length_pos (by omega)),
      (dropLast_append_getLast _).symm⟩
  rw [length_append, length_singleton] at hmany
  rw [foldl_append, foldl_cons, foldl_nil]
  have hfull : params.nHMPPrivilegeWindow <
      (front.foldl (blockConnected params) start).window.length + 1 := by
    rw [foldl_blockConnected_window]
    by_cases hempty : front = []
    · subst hempty
      simp only [length_nil] at hmany
      omega
    · rw [foldl_pushWindow_of_le _ hempty (by omega), length_drop]
      omega
  simp only [blockConnected, if_pos hfull]

end Fold

theorem getElderSet_foldl (hschedule : DeterministicSchedule params)
    {entries : List CHMPWindowEntry} (hmany : params.nHMPPrivilegeWindow < entries.length)
    (hfit : (extendedEntries entries).length < params.nHMPDominanceCatchMaxLookback)
    (start : CHMPPrivilegeTracker) (algo : Nat) (includeBackfill : Bool) :
    getElderSet params (entries.foldl (blockConnected params) start) algo includeBackfill =
      getElderSet params
        { entries.foldl (blockConnected params) start with
          extendedWindow := extendedEntries entries } algo includeBackfill := by
  have hsome : entries ≠ [] := ne_nil_of_length_pos (by omega)
  obtain ⟨older, holder⟩ := foldl_pushWindow_of_lt start.extendedWindow hfit
  rw [← foldl_blockConnected_extended] at holder
  rw [← getElderSet_extended hschedule.minBlocks_pos
    (foldl_blockConnected_records params start entries hmany) hfit ?_, ← holder]
  intro entry hentry hvalid
  rw [foldl_blockConnected_window, foldl_pushWindow_of_le _ hsome (by omega)] at hentry
  refine mem_map.mpr ⟨entry, ?_, rfl⟩
  exact mem_filter.mpr ⟨mem_of_mem_drop hentry, by simpa using hvalid⟩

/-- Trackers that end with the same entries differ at most in the extended window, and not
in their Elders. -/
theorem foldl_blockConnected_agree (hschedule : DeterministicSchedule params)
    {entries : List CHMPWindowEntry} (hmany : params.nHMPPrivilegeWindow < entries.length)
    (hlong : sealLongWindow ≤ entries.length) (first second : CHMPPrivilegeTracker) :
    let tracker := entries.foldl (blockConnected params)
    ∃ extended, tracker second = { tracker first with extendedWindow := extended } ∧
      ∀ algo, getElderSet params (tracker second) algo true =
        getElderSet params (tracker first) algo true := by
  intro tracker
  have hsome : entries ≠ [] := ne_nil_of_length_pos (by omega)
  have hwindow : (tracker second).window = (tracker first).window := by
    rw [foldl_blockConnected_window, foldl_blockConnected_window,
      foldl_pushWindow_of_le _ hsome (by omega), foldl_pushWindow_of_le _ hsome (by omega)]
  have hsealLong : (tracker second).sealLong = (tracker first).sealLong := by
    rw [foldl_blockConnected_sealLong, foldl_blockConnected_sealLong,
      foldl_pushWindow_of_le _ (by simpa using hsome) (by simpa using hlong),
      foldl_pushWindow_of_le _ (by simpa using hsome) (by simpa using hlong)]
  have hrecords : (tracker second).records = (tracker first).records := by
    rw [foldl_blockConnected_records _ _ _ hmany, foldl_blockConnected_records _ _ _ hmany,
      hwindow]
  refine ⟨(tracker second).extendedWindow, CHMPPrivilegeTracker.ext hwindow hsealLong rfl hrecords, ?_⟩
  intro algo
  by_cases hfit : (extendedEntries entries).length < params.nHMPDominanceCatchMaxLookback
  · rw [getElderSet_foldl hschedule hmany hfit, getElderSet_foldl hschedule hmany hfit]
    congr 1
    exact CHMPPrivilegeTracker.ext hwindow hsealLong rfl hrecords
  · have hlookback := hschedule.lookback_pos
    have hfull : extendedEntries entries ≠ [] := ne_nil_of_length_pos (by omega)
    congr 1
    refine CHMPPrivilegeTracker.ext hwindow hsealLong ?_ hrecords
    rw [foldl_blockConnected_extended, foldl_blockConnected_extended,
      foldl_pushWindow_of_le _ hfull (by omega), foldl_pushWindow_of_le _ hfull (by omega)]

/-! ## Histories -/

/-- The number of blocks above the deterministic height within the lookback. -/
def followedCount (params : Params) (chain : Chain) : Nat :=
  min (maxLookback params + 1) (chain.height + 1 - params.nHMPDeterministicSealHeight).toNat

def FollowsTip (params : Params) (chain : Chain) (state : HMPState) : Prop :=
  state.anchor = none ∨ state.anchor = chain.tipHash ∧
    FollowsEntries params (followedCount params chain) state.tracker chain

theorem followsEntries_of_below (hbelow : chain.height < params.nHMPDeterministicSealHeight)
    (tracker : CHMPPrivilegeTracker) :
    FollowsEntries params (followedCount params chain) tracker chain := by
  have hcount : followedCount params chain = 0 := by
    unfold followedCount
    omega
  rw [hcount]
  exact followsEntries_zero params tracker chain

section Steps

variable (hschedule : DeterministicSchedule params) {state : HMPState}

include hschedule

theorem rebuild_followsEntries (hactive : params.IsHMPActive chain.height) :
    FollowsEntries params (followedCount params chain)
      (state.rebuild params oracles chain).tracker chain := by
  by_cases hbelow : chain.height < params.nHMPDeterministicSealHeight
  · exact followsEntries_of_below hbelow _
  · have hle : followedCount params chain ≤
        (chain.height - startHeight params chain.height + 1).toNat := by
      have hpositive := hschedule.positive
      have hhmp := hschedule.hmp_le
      unfold followedCount startHeight
      omega
    have hheight : params.nHMPDeterministicSealHeight + followedCount params chain ≤
        chain.height + 1 := by
      unfold followedCount
      omega
    unfold rebuild
    rw [if_pos hactive, ← Nat.sub_add_cancel hle]
    exact ⟨_, replay_tracker hschedule hheight⟩

section

variable (hfollows : FollowsTip params chain state)

include hfollows

theorem rebuild_followsTip :
    FollowsTip params chain (state.rebuild params oracles chain) := by
  by_cases hactive : params.IsHMPActive chain.height
  · refine Or.inr ⟨?_, rebuild_followsEntries hschedule hactive⟩
    simp only [rebuild, if_pos hactive]
  · simpa only [rebuild, if_neg hactive] using hfollows

theorem clearAtActivation_followsTip :
    FollowsTip params chain (state.clearAtActivation params chain) := by
  unfold clearAtActivation
  split
  · exact hfollows
  · rename_i hinactive
    have hbelow : chain.height < params.nHMPDeterministicSealHeight :=
      lt_of_lt_of_le (not_le.mp hinactive) hschedule.hmp_le
    exact hfollows.imp id (fun hanchored => ⟨hanchored.1, followsEntries_of_below hbelow _⟩)

theorem prepare_followsTip :
    FollowsTip params chain (state.prepare params oracles chain) := by
  have hcleared := clearAtActivation_followsTip hschedule hfollows
  unfold prepare
  split
  · split
    · exact rebuild_followsTip hschedule hcleared
    · exact hcleared
  · exact hfollows

end

theorem prepare_followsEntries (hsome : chain ≠ []) (hfollows : FollowsTip params chain state)
    (hheight : params.nHMPDeterministicSealHeight ≤ chain.height + 1) :
    FollowsEntries params (followedCount params chain)
      (state.prepare params oracles chain).tracker chain := by
  by_cases hbelow : chain.height < params.nHMPDeterministicSealHeight
  · exact followsEntries_of_below hbelow _
  · have hactive := hschedule.hmpActive (not_lt.mp hbelow)
    unfold prepare clearAtActivation
    rw [if_pos (hschedule.hmpActive hheight), if_pos hactive]
    split
    · exact rebuild_followsEntries hschedule hactive
    · rename_i hanchored
      rw [not_and_not_right] at hanchored
      rcases hfollows with hnone | hfollows
      · have htip := hanchored (hschedule.active_iff.mpr hheight)
        rw [hnone] at htip
        cases chain with
        | nil => exact absurd rfl hsome
        | cons block parent => cases htip
      · exact hfollows.2

theorem apply_followsTip (hsome : chain ≠ []) (hfollows : FollowsTip params chain state)
    (block : HMPBlock) :
    FollowsTip params (block :: chain)
      ((state.prepare params oracles chain).apply params block chain
        ((state.prepare params oracles chain).verdict params oracles block chain)) := by
  refine Or.inr ⟨rfl, ?_⟩
  by_cases hbelow : height (block :: chain) < params.nHMPDeterministicSealHeight
  · exact followsEntries_of_below hbelow _
  · rw [height_cons, not_lt] at hbelow
    have hprepared := @prepare_followsEntries params oracles _ hschedule _ hsome hfollows hbelow
    simp only [apply, record_tracker, verdict,
      blockVerdict_privilege hschedule hbelow]
    refine (hprepared.extend block).shorten ?_
    unfold followedCount
    rw [height_cons]
    omega

end Steps

/-- What holds in every state of a node: its blocks above the first passed the checks of
their coinbases, and its trackers follow the tip. -/
structure History (params : Params) (oracles : Oracles) (node : HMPNode) : Prop where
  nonempty : node.chain ≠ []
  checked : ∀ block parent, (block :: parent) <:+ node.chain → parent ≠ [] →
    checkCoinbase params oracles (height parent + 1) block.coinbase = .ok ()
  follows : FollowsTip params node.chain node.state

theorem History.tipHash_ne_none {node : HMPNode} (hhistory : History params oracles node) :
    node.chain.tipHash ≠ none := by
  cases hchain : node.chain with
  | nil => exact absurd hchain hhistory.nonempty
  | cons block parent => exact Option.some_ne_none block.hash

theorem history_start (params : Params) (oracles : Oracles) (genesis : HMPBlock) :
    History params oracles (.start genesis) where
  nonempty := cons_ne_nil genesis []
  checked := by
    intro block parent hsuffix hsome
    rcases suffix_cons_iff.mp hsuffix with hwhole | hnone
    · exact absurd (cons.inj hwhole).2 hsome
    · exact absurd (suffix_nil.mp hnone) (cons_ne_nil block parent)
  follows := Or.inl rfl

theorem history_step (hschedule : DeterministicSchedule params) {node next : HMPNode}
    (hstep : HMPStep params oracles node next) (hhistory : History params oracles node) :
    History params oracles next := by
  cases hstep with
  | unchanged => exact hhistory
  | rejected =>
    exact ⟨hhistory.nonempty, hhistory.checked, prepare_followsTip hschedule hhistory.follows⟩
  | connected block hcoinbase hblock =>
    refine ⟨cons_ne_nil block node.chain, ?_,
      apply_followsTip hschedule hhistory.nonempty hhistory.follows block⟩
    intro other parent hsuffix hsome
    rcases suffix_cons_iff.mp hsuffix with hwhole | hbefore
    · obtain ⟨rfl, rfl⟩ := cons.inj hwhole
      exact hcoinbase
    · exact hhistory.checked other parent hbefore hsome
  | disconnected tip parent older hchain =>
    refine ⟨cons_ne_nil parent older, ?_, Or.inl rfl⟩
    intro block before hsuffix hsome
    refine hhistory.checked block before ?_ hsome
    rw [hchain]
    exact hsuffix.trans (suffix_cons tip (parent :: older))
  | rebuilt =>
    exact ⟨hhistory.nonempty, hhistory.checked, rebuild_followsTip hschedule hhistory.follows⟩
  | restarted =>
    exact ⟨hhistory.nonempty, hhistory.checked, rebuild_followsTip hschedule (Or.inl rfl)⟩

theorem history_run (hschedule : DeterministicSchedule params) (oracles : Oracles)
    (genesis : HMPBlock) (actions : List HMPAction) :
    History params oracles (.after params oracles genesis actions) :=
  (always_of_hmpStep (fun _ _ => history_step hschedule)
    (history_start params oracles genesis) actions).final

/-! ## One entry per block -/

theorem rawEntry_isSome (hschedule : DeterministicSchedule params)
    (hheight : params.nHMPDeterministicSealHeight ≤ parent.height + 1)
    (hchecked : checkCoinbase params oracles (parent.height + 1) block.coinbase = .ok ()) :
    (rawEntry params block parent).isSome := by
  unfold rawEntry HMPBlock.hmpPayload
  cases hcoinbase : block.coinbase with
  | other => rfl
  | special payload =>
    rw [hcoinbase] at hchecked
    cases payload with
    | none => cases hchecked
    | some cbTx =>
      have hversion : CCbTx.hmpSeal ≤ cbTx.nVersion := by
        simp only [checkCoinbase, checkCbTx, bind_eq_ok_iff, require_eq_ok_iff] at hchecked
        obtain ⟨-, -, -, -, -, hseal, -⟩ := hchecked
        exact hseal.mp ⟨hschedule.v20_le.trans hheight, hschedule.hmpActive hheight⟩
      simp only [if_pos hversion]
      split <;> rfl

theorem length_rawEntries (hschedule : DeterministicSchedule params)
    (hchecked : ∀ block parent, (block :: parent) <:+ chain → parent ≠ [] →
      checkCoinbase params oracles (height parent + 1) block.coinbase = .ok ())
    (hheight : params.nHMPDeterministicSealHeight + count ≤ chain.height + 1) :
    (rawEntries params count chain).length = count := by
  have hpositive := hschedule.positive
  induction count generalizing chain with
  | zero => rfl
  | succ count ih =>
    cases chain with
    | nil =>
      simp only [height, length_nil] at hheight
      omega
    | cons block parent =>
      rw [height_cons] at hheight
      have hsome : parent ≠ [] := by
        rintro rfl
        simp only [height, length_nil] at hheight
        omega
      have hentry := rawEntry_isSome hschedule (by omega)
        (hchecked block parent suffix_rfl hsome)
      have hparent : (rawEntries params count parent).length = count := by
        refine ih (fun other before hsuffix =>
          hchecked other before (hsuffix.trans (suffix_cons block parent))) ?_
        omega
      obtain ⟨entry, hentry⟩ := Option.isSome_iff_exists.mp hentry
      rw [rawEntries, length_append, hparent, hentry]
      rfl

end Kerrigan.HMP
