import Kerrigan.HMP.Tracker
import Kerrigan.HMP.Node

/-!
# One notion of Elder

`GetElderSet` scans the records and fills up from the extended window, `GetTier` looks one key up.
From the re-arm height on the fill-up asks for what an organic Elder has to show anyway, so it adds
nobody; the three scans agree, and only the privilege window decides who is an Elder.
-/

namespace Kerrigan.HMP

open Primitives Consensus Lib CHMPPrivilegeTracker TrackedChain HMPState

/-! ## The scan of the records -/

variable {params : Params} {tracker : CHMPPrivilegeTracker} {algo : Nat}

theorem mem_organicElders {key : CBLSPublicKey} :
    key ∈ organicElders params tracker algo ↔
      ∃ rec ∈ (tracker.records algo)[key]?, QualifiesElder params tracker
        (params.getEffectiveMinBlocksSolved tracker.getTipHeight) rec :=
  mem_selectKeys

theorem nodup_organicElders : (organicElders params tracker algo).Nodup :=
  nodup_selectKeys

/-! ## The fill-up -/

theorem backfill_eq_self {minBlocks : Nat} {result : List CBLSPublicKey}
    (hmembers : ∀ pk, (∃ rec ∈ (tracker.records algo)[pk]?,
      QualifiesElder params tracker minBlocks rec) → pk ∈ result)
    (candidates : List CBLSPublicKey) :
    backfill params tracker algo minBlocks result candidates = result := by
  induction candidates with
  | nil => rfl
  | cons pk rest ih =>
    rw [backfill, ih]
    by_cases hmember : pk ∈ result
    · rw [if_pos hmember]
    · rw [if_neg hmember, if_neg (fun hqualifies => hmember (hmembers pk hqualifies)), ite_self]

theorem getElderSet_rearm (hrearm : params.IsHMPRearmActive tracker.getTipHeight)
    (includeBackfill : Bool) :
    tracker.getElderSet params algo includeBackfill =
      if algo < numAlgos then organicElders params tracker algo else [] := by
  unfold getElderSet
  split
  · dsimp only
    rw [backfill_eq_self (fun pk hqualifies => mem_organicElders.mpr hqualifies), ite_self]
  · rfl

theorem getTier_elder_iff (oracles : Oracles) (pindex : Uint256) (key : CBLSPublicKey) :
    (tracker.getTier params oracles key algo pindex = .elder ∨
        tracker.getTier params oracles key algo pindex = .brood) ↔
      algo < numAlgos ∧ key ∈ organicElders params tracker algo := by
  rw [mem_organicElders]
  unfold getTier
  by_cases halgo : algo < numAlgos
  · rw [if_pos halgo]
    cases hfound : (tracker.records algo)[key]? with
    | none => simp
    | some rec =>
      simp only [Option.mem_def, Option.some.injEq, exists_eq_left', QualifiesElder]
      by_cases hwarm : IsWarm params tracker rec
      · rw [if_neg (not_not.mpr hwarm)]
        split
        · rename_i hqualifies
          split <;> simp [halgo, hwarm, hqualifies]
        · rename_i hlacks
          simp [hwarm, hlacks]
      · simp [hwarm]
  · simp [halgo]

/-! ## The privileged keys -/

theorem getTier_ne_unknown_iff {oracles : Oracles} {tracker : CHMPPrivilegeTracker}
    {key : CBLSPublicKey} {algo : Nat} {pindex : Uint256} :
    tracker.getTier params oracles key algo pindex ≠ .unknown ↔
      key ∈ tracker.getPrivilegedSet params algo := by
  unfold getTier getPrivilegedSet
  by_cases halgo : algo < numAlgos
  · rw [if_pos halgo, if_pos halgo, mem_selectKeys]
    cases (tracker.records algo)[key]? with
    | none => simp
    | some rec =>
      simp only [Option.mem_def, Option.some.injEq, exists_eq_left']
      by_cases hwarm : IsWarm params tracker rec
      · rw [if_neg (not_not.mpr hwarm)]
        refine iff_of_true ?_ hwarm
        split
        · split <;> decide
        · decide
      · rw [if_pos hwarm]
        exact iff_of_false (fun htier => htier rfl) hwarm
  · rw [if_neg halgo, if_neg halgo]
    exact iff_of_false (fun htier => htier rfl) List.not_mem_nil

/-! ## Reachable trackers -/

def ReachableTracker (params : Params) (tracker : CHMPPrivilegeTracker) : Prop :=
  ∃ calls, Guarded (trackerStep params) ConnectsAbove start calls ∧
    (run (trackerStep params) start calls).tracker = tracker

theorem represented_of_guarded {calls : List TrackerCall}
    (hcalls : Guarded (trackerStep params) ConnectsAbove start calls) :
    Represented params (run (trackerStep params) start calls) := by
  have hstep : ∀ state call, Represented params state → ConnectsAbove state call →
      Represented params (trackerStep params state call) :=
    fun state call h habove => h.call call habove
  exact (always_of_guarded hstep represented_cleared hcalls).final

theorem ReachableTracker.records {tracker : CHMPPrivilegeTracker}
    (hreach : ReachableTracker params tracker) :
    tracker.records = rebuildFromWindow tracker.window := by
  obtain ⟨calls, hcalls, rfl⟩ := hreach
  exact (represented_of_guarded hcalls).records

theorem organicElders_of_window {first second : CHMPPrivilegeTracker}
    (hfirst : ReachableTracker params first) (hsecond : ReachableTracker params second)
    (hwindow : first.window = second.window) (algo : Nat) :
    organicElders params first algo = organicElders params second algo := by
  have htip : first.getTipHeight = second.getTipHeight := by
    unfold getTipHeight
    rw [hwindow]
  have hrecords : first.records = second.records := by
    rw [hfirst.records, hsecond.records, hwindow]
  have hqualifies : ∀ minBlocks rec, QualifiesElder params first minBlocks rec ↔
      QualifiesElder params second minBlocks rec := by
    intro minBlocks rec
    unfold QualifiesElder IsWarm
    rw [htip]
  simp only [organicElders, hqualifies, htip, hrecords]

/-- From the re-arm height on the Elders of an algorithm are the same with and without the
fill-up, without duplicates, exactly the keys with the tier of an Elder, and decided by the
privilege window alone. -/
theorem elders_one_notion (params : Params) (tracker : CHMPPrivilegeTracker)
    (hreach : ReachableTracker params tracker)
    (hrearm : params.IsHMPRearmActive tracker.getTipHeight) (algo : Nat) :
    tracker.getElderSet params algo true = tracker.getElderSet params algo false ∧
      (tracker.getElderSet params algo true).Nodup ∧
      (∀ (oracles : Oracles) (pindex : Uint256) (key : CBLSPublicKey),
        key ∈ tracker.getElderSet params algo true ↔
          tracker.getTier params oracles key algo pindex = .elder ∨
            tracker.getTier params oracles key algo pindex = .brood) ∧
      ∀ other, ReachableTracker params other → other.window = tracker.window →
        ∀ includeBackfill, other.getElderSet params algo includeBackfill =
          tracker.getElderSet params algo includeBackfill := by
  refine ⟨?_, ?_, ?_, ?_⟩
  · rw [getElderSet_rearm hrearm, getElderSet_rearm hrearm]
  · rw [getElderSet_rearm hrearm]
    split
    · exact nodup_organicElders
    · exact List.nodup_nil
  · intro oracles pindex key
    rw [getElderSet_rearm hrearm, getTier_elder_iff]
    split
    · rename_i halgo
      exact (and_iff_right halgo).symm
    · rename_i halgo
      exact iff_of_false List.not_mem_nil (fun hboth => halgo hboth.1)
  · intro other hother hwindow includeBackfill
    have htip : other.getTipHeight = tracker.getTipHeight := by
      unfold getTipHeight
      rw [hwindow]
    rw [getElderSet_rearm (htip ▸ hrearm), getElderSet_rearm hrearm,
      organicElders_of_window hother hreach hwindow]

/-! ## The trackers of a node -/

def ReachableUpTo (params : Params) (tracker : CHMPPrivilegeTracker) (bound : Int) : Prop :=
  ∃ calls, Guarded (trackerStep params) ConnectsAbove start calls ∧
    (run (trackerStep params) start calls).tracker = tracker ∧
    ∀ height ∈ (run (trackerStep params) start calls).connected, height ≤ bound

variable {bound : Int}

theorem reachableUpTo_cleared : ReachableUpTo params cleared bound :=
  ⟨[], trivial, rfl, fun _ hmem => absurd hmem List.not_mem_nil⟩

section

variable (hreach : ReachableUpTo params tracker bound)

include hreach

theorem ReachableUpTo.reachable :
    ReachableTracker params tracker := by
  obtain ⟨calls, hcalls, htracker, -⟩ := hreach
  exact ⟨calls, hcalls, htracker⟩

theorem ReachableUpTo.mono {more : Int}
    (hmore : bound ≤ more) : ReachableUpTo params tracker more := by
  obtain ⟨calls, hcalls, htracker, hbound⟩ := hreach
  exact ⟨calls, hcalls, htracker, fun height hmem => (hbound height hmem).trans hmore⟩

theorem ReachableUpTo.connect {entry : CHMPWindowEntry} (hentry : bound < entry.height) :
    ReachableUpTo params (tracker.blockConnected params entry) entry.height := by
  obtain ⟨calls, hcalls, rfl, hbound⟩ := hreach
  have hrep := represented_of_guarded hcalls
  have hbelow : ∀ height ∈ (run (trackerStep params) start calls).connected,
      height < entry.height := fun height hmem => (hbound height hmem).trans_lt hentry
  have habove : ConnectsAbove (run (trackerStep params) start calls)
      (.blockConnected entry) :=
    ⟨fun other hmem => hbelow _ (hrep.window.live_of_mem other hmem),
      fun other hmem => hbelow _ (hrep.sealLong.live_of_mem other hmem),
      fun other hmem => hbelow _ (hrep.extendedWindow.live_of_mem other hmem)⟩
  refine ⟨calls ++ [.blockConnected entry], hcalls.concat habove, ?_, ?_⟩
  · rw [run_concat]
    rfl
  · rw [run_concat]
    intro height hmem
    rcases List.mem_append.mp hmem with hold | hnew
    · exact (hbelow height hold).le
    · exact (List.mem_singleton.mp hnew).le

theorem ReachableUpTo.disconnect (height : Int) :
    ReachableUpTo params (tracker.blockDisconnected height) (height - 1) := by
  obtain ⟨calls, hcalls, rfl, -⟩ := hreach
  have habove : ConnectsAbove (run (trackerStep params) start calls)
      (.blockDisconnected height) := trivial
  refine ⟨calls ++ [.blockDisconnected height], hcalls.concat habove, ?_, ?_⟩
  · rw [run_concat]
    rfl
  · rw [run_concat]
    intro other hmem
    have hbelow := of_decide_eq_true (List.mem_filter.mp hmem).2
    omega

end

variable {oracles : Oracles} {state : HMPState} {parent : Chain}

theorem blockVerdict_privilege_height {registry : CHMPCommitmentRegistry}
    {tracker : CHMPPrivilegeTracker} {block : HMPBlock} {entry : CHMPWindowEntry}
    (hentry : (blockVerdict params oracles registry tracker block parent).privilege = some entry) :
    entry.height = parent.height + 1 := by
  unfold blockVerdict at hentry
  split at hentry
  · cases hentry
  · split at hentry
    · cases hentry
    · split at hentry
      · cases hentry
        rfl
      · cases hentry
      · unfold payloadVerdict at hentry
        split at hentry <;> (cases hentry; rfl)

theorem record_reachable (hreach : ReachableUpTo params state.tracker parent.height) (height : Int)
    (commitments : Option (CBLSPublicKey × List CBLSPublicKey)) {privilege : Option CHMPWindowEntry}
    (hprivilege : ∀ entry, privilege = some entry → entry.height = parent.height + 1) :
    ReachableUpTo params (state.record params height commitments privilege).tracker
      (parent.height + 1) := by
  cases privilege with
  | none => exact hreach.mono (by omega)
  | some entry =>
    have hheight := hprivilege entry rfl
    rw [← hheight]
    exact hreach.connect (by omega)

theorem replayBlock_reachable {block : HMPBlock}
    (hreach : ReachableUpTo params state.tracker parent.height) :
    ReachableUpTo params (state.replayBlock params oracles block parent).tracker
      (parent.height + 1) := by
  unfold replayBlock
  split
  · exact hreach.mono (by omega)
  · split
    · exact record_reachable hreach _ _ (fun entry hentry => by cases hentry; rfl)
    · exact hreach.mono (by omega)
    · refine @record_reachable params (state.record params (parent.height + 1) _ none) parent
        hreach _ _ _ ?_
      intro entry hentry
      split at hentry <;> (cases hentry; rfl)

theorem replay_reachable (hcleared : state.tracker = cleared) (count : Nat) (chain : Chain) :
    ReachableUpTo params (replay params oracles count chain state).tracker
      chain.height := by
  induction count generalizing chain with
  | zero =>
    rw [replay, hcleared]
    exact reachableUpTo_cleared
  | succ count ih =>
    cases chain with
    | nil =>
      rw [replay, hcleared]
      exact reachableUpTo_cleared
    | cons block parent =>
      rw [Chain.height_cons]
      exact replayBlock_reachable (ih parent)

theorem rebuild_reachable {chain : Chain}
    (hreach : ReachableUpTo params state.tracker chain.height) :
    ReachableUpTo params (state.rebuild params oracles chain).tracker chain.height := by
  unfold rebuild
  split
  · exact replay_reachable rfl _ chain
  · exact hreach

theorem prepare_reachable (hreach : ReachableUpTo params state.tracker parent.height) :
    ReachableUpTo params (state.prepare params oracles parent).tracker parent.height := by
  have hcurrent : ReachableUpTo params (state.clearAtActivation params parent).tracker
      parent.height := by
    unfold clearAtActivation
    split
    · exact hreach
    · exact reachableUpTo_cleared
  unfold prepare
  split
  · split
    · exact rebuild_reachable hcurrent
    · exact hcurrent
  · exact hreach

theorem hmpStep_reachable {node next : HMPNode} (hstep : HMPStep params oracles node next)
    (hreach : ReachableUpTo params node.state.tracker node.chain.height) :
    ReachableUpTo params next.state.tracker next.chain.height := by
  cases hstep with
  | unchanged => exact hreach
  | rejected => exact prepare_reachable hreach
  | connected block hcoinbase hblock =>
    rw [Chain.height_cons]
    exact record_reachable (prepare_reachable hreach) (node.chain.height + 1) none
      (fun entry hentry => blockVerdict_privilege_height hentry)
  | disconnected tip parent older hchain =>
    have hdropped := hreach.disconnect node.chain.height
    have hbelow : node.chain.height - 1 = Chain.height (parent :: older) := by
      rw [hchain, Chain.height_cons tip, Int.add_sub_cancel]
    rw [hbelow] at hdropped
    exact hdropped
  | rebuilt => exact rebuild_reachable hreach
  | restarted => exact rebuild_reachable reachableUpTo_cleared

/-- Along every run of a node its tracker is one that calls reach: the records are those of the
window, and the windows hold only heights up to the tip, in increasing order. -/
theorem node_tracker_represented (params : Params) (oracles : Oracles) (genesis : HMPBlock)
    (actions : List HMPAction) :
    Always (hmpStep params oracles) (fun node => ReachableTracker params node.state.tracker ∧
      ∃ connected, Represented params ⟨node.state.tracker, connected⟩ ∧
        ∀ height ∈ connected, height ≤ node.chain.height) (.start genesis) actions := by
  have hupTo : Always (hmpStep params oracles)
      (fun node => ReachableUpTo params node.state.tracker node.chain.height)
      (.start genesis) actions :=
    always_of_hmpStep (fun _ _ => hmpStep_reachable) reachableUpTo_cleared actions
  intro visited hvisited
  obtain ⟨calls, hcalls, htracker, hbound⟩ := hupTo visited hvisited
  refine ⟨⟨calls, hcalls, htracker⟩, _, ?_, hbound⟩
  rw [← htracker]
  exact represented_of_guarded hcalls

namespace TrackerSample

def narrowParams : Params where
  nHMPWarmupBlocks := 0
  nHMPPrivilegeWindow := 1
  nHMPRearmHeight := 1

def elderCall : TrackerCall :=
  .blockConnected { height := 2, algo := 0, minerPubKey := 7, sealSigners := [7] }

def longTracker : CHMPPrivilegeTracker :=
  (run (trackerStep narrowParams) start [minedAt 1 5, elderCall]).tracker

def shortTracker : CHMPPrivilegeTracker :=
  (run (trackerStep narrowParams) start [elderCall]).tracker

end TrackerSample

open TrackerSample in
theorem elders_one_notion_narrow :
    longTracker.window = shortTracker.window ∧
      longTracker.extendedWindow ≠ shortTracker.extendedWindow ∧
      7 ∈ longTracker.getElderSet narrowParams 0 true ∧
      longTracker.getElderSet narrowParams 0 true = shortTracker.getElderSet narrowParams 0 true := by
  have hlong : ReachableTracker narrowParams longTracker :=
    ⟨[minedAt 1 5, elderCall], ⟨by decide +kernel, by decide +kernel, trivial⟩, rfl⟩
  have hshort : ReachableTracker narrowParams shortTracker :=
    ⟨[elderCall], ⟨by decide +kernel, trivial⟩, rfl⟩
  have hwindow : longTracker.window = shortTracker.window := by decide +kernel
  have hnotion := elders_one_notion narrowParams shortTracker hshort (by decide +kernel) 0
  exact ⟨hwindow, by decide +kernel, by decide +kernel,
    hnotion.2.2.2 longTracker hlong hwindow true⟩

end Kerrigan.HMP
