import Kerrigan.HMP.Privilege
import Kerrigan.Lib.Run

/-!
# The representation of the privilege tracker

The tracker keeps three windows of different length and the records of the shortest.  Connecting a
block updates the records in place unless it evicts an entry; the other calls compute them again.
Either way they are what the window says, and the windows only hold heights that are connected.
-/

namespace Kerrigan.HMP

open Primitives Consensus Lib CHMPPrivilegeTracker

/-! ## Updating in place -/

theorem solvedNow_eq_solvedInWindow {height : Int} {rec : CPrivilegeRecord}
    (hseen : rec.firstSeenHeight < 0 ∨ rec.firstSeenHeight < height) :
    solvedNow height rec = solvedInWindow height rec := by
  have hfirst : (if rec.firstSeenHeight < 0 then height else rec.firstSeenHeight) =
      if rec.firstSeenHeight < 0 ∨ height < rec.firstSeenHeight then height
      else rec.firstSeenHeight := by
    split <;> split <;> omega
  rw [solvedNow, solvedInWindow, hfirst]

theorem rebuildFromWindow_firstSeen {window : List CHMPWindowEntry} {height : Int}
    (habove : ∀ entry ∈ window, entry.height < height) :
    (rebuildFromWindow window).All (fun _ _ rec =>
      rec.firstSeenHeight < 0 ∨ rec.firstSeenHeight < height) := by
  refine List.foldlRecOn _ _ Records.All.empty ?_
  intro records hrecords entry hmem
  have hentry := habove entry hmem
  have hbefore : ∀ rec : CPrivilegeRecord, rec = {} ∨
      (rec.firstSeenHeight < 0 ∨ rec.firstSeenHeight < height) →
      rec.firstSeenHeight < 0 ∨ rec.firstSeenHeight < height := by
    rintro rec (rfl | hseen)
    · exact Or.inl (by decide)
    · exact hseen
  refine hrecords.creditEntry ?_ ?_
  · intro _ rec hrec
    have hseen := hbefore rec hrec
    simp only [solvedInWindow]
    split
    · exact Or.inr hentry
    · exact hseen
  · intro signer _ rec hrec
    have hseen := hbefore rec hrec
    simp only [participated]
    split
    · exact Or.inr hentry
    · exact hseen

theorem creditEntry_rebuildFromWindow {window : List CHMPWindowEntry} {entry : CHMPWindowEntry}
    (habove : ∀ other ∈ window, other.height < entry.height) :
    creditEntry solvedNow (rebuildFromWindow window) entry =
      rebuildFromWindow (window ++ [entry]) := by
  have hminer : creditMiner solvedNow (rebuildFromWindow window) entry =
      creditMiner solvedInWindow (rebuildFromWindow window) entry := by
    unfold creditMiner Records.credit
    split
    · rw [solvedNow_eq_solvedInWindow]
      cases hrec : (rebuildFromWindow window entry.algo)[entry.minerPubKey]? with
      | none => exact Or.inl (by decide)
      | some rec => exact rebuildFromWindow_firstSeen habove _ _ rec hrec
    · rfl
  have happend : rebuildFromWindow (window ++ [entry]) =
      creditEntry solvedInWindow (rebuildFromWindow window) entry := List.foldl_concat _ _ _ _
  rw [happend, creditEntry, creditEntry, hminer]

/-! ## Calls -/

inductive TrackerCall where
  | blockConnected (entry : CHMPWindowEntry)
  | blockDisconnected (height : Int)
  | clear

/-- The tracker with the heights that are connected and were not disconnected since. -/
structure TrackedChain where
  tracker : CHMPPrivilegeTracker
  connected : List Int

open TrackedChain

def TrackedChain.start : TrackedChain := ⟨cleared, []⟩

def trackerStep (params : Params) (state : TrackedChain) : TrackerCall → TrackedChain
  | .blockConnected entry =>
      ⟨state.tracker.blockConnected params entry, state.connected ++ [entry.height]⟩
  | .blockDisconnected height =>
      ⟨state.tracker.blockDisconnected height,
        state.connected.filter (fun other => other < height)⟩
  | .clear => ⟨cleared, []⟩

def ConnectsAbove (state : TrackedChain) : TrackerCall → Prop
  | .blockConnected entry =>
      (∀ other ∈ state.tracker.window, other.height < entry.height) ∧
      (∀ other ∈ state.tracker.sealLong, other.height < entry.height) ∧
      ∀ other ∈ state.tracker.extendedWindow, other.height < entry.height
  | _ => True

instance (state : TrackedChain) (call : TrackerCall) : Decidable (ConnectsAbove state call) :=
  match call with
  | .blockConnected _ => inferInstanceAs (Decidable (_ ∧ _))
  | .blockDisconnected _ => inferInstanceAs (Decidable True)
  | .clear => inferInstanceAs (Decidable True)

/-- The records are those of the window, and each window is limited, in increasing order and made
of connected heights. -/
structure Represented (params : Params) (state : TrackedChain) : Prop where
  records : state.tracker.records = rebuildFromWindow state.tracker.window
  window : LiveWindow CHMPWindowEntry.height params.nHMPPrivilegeWindow state.connected
    state.tracker.window
  sealLong : LiveWindow CHMPSealLongEntry.height sealLongWindow state.connected
    state.tracker.sealLong
  extendedWindow : LiveWindow CHMPExtendedEntry.height params.nHMPDominanceCatchMaxLookback
    state.connected state.tracker.extendedWindow

section Calls

variable {params : Params} {state : TrackedChain}

theorem represented_cleared : Represented params ⟨cleared, []⟩ :=
  ⟨rfl, LiveWindow.nil, LiveWindow.nil, LiveWindow.nil⟩

theorem Represented.connect (h : Represented params state) {entry : CHMPWindowEntry}
    (habove : ConnectsAbove state (.blockConnected entry)) :
    Represented params (trackerStep params state (.blockConnected entry)) := by
  obtain ⟨hwindow, hlong, hextended⟩ := habove
  have hlongPushed := h.sealLong.push ⟨entry.height, entry.algo, entry.sealedAlgo⟩ hlong
  constructor
  case records =>
    simp only [trackerStep, blockConnected]
    split
    · rfl
    · rw [h.records, creditEntry_rebuildFromWindow hwindow, pushWindow_of_lt (by omega)]
  case window => exact h.window.push entry hwindow
  case sealLong => simpa only [trackerStep, blockConnected] using hlongPushed
  case extendedWindow =>
    simp only [trackerStep, blockConnected]
    split
    · exact h.extendedWindow.push ⟨entry.height, entry.algo, entry.minerPubKey⟩ hextended
    · exact h.extendedWindow.mono _

theorem Represented.disconnect (h : Represented params state) (height : Int) :
    Represented params (trackerStep params state (.blockDisconnected height)) :=
  ⟨rfl, h.window.drop height, h.sealLong.drop height, h.extendedWindow.drop height⟩

theorem Represented.call (h : Represented params state) (call : TrackerCall)
    (habove : ConnectsAbove state call) : Represented params (trackerStep params state call) := by
  cases call with
  | blockConnected entry => exact h.connect habove
  | blockDisconnected height => exact h.disconnect height
  | clear => exact represented_cleared

end Calls

/-- After any calls the records are those of the window; the windows hold at most as many entries
as they may, in increasing order of height, and none of a height that is not connected any more. -/
theorem tracker_representation (params : Params) (calls : List TrackerCall)
    (hcalls : Guarded (trackerStep params) ConnectsAbove start calls) :
    Always (trackerStep params) (fun state =>
      state.tracker.records = rebuildFromWindow state.tracker.window ∧
      (state.tracker.window.length ≤ params.nHMPPrivilegeWindow ∧
        state.tracker.sealLong.length ≤ 400 ∧
        state.tracker.extendedWindow.length ≤ params.nHMPDominanceCatchMaxLookback) ∧
      (state.tracker.window.Pairwise (fun first second => first.height < second.height) ∧
        state.tracker.sealLong.Pairwise (fun first second => first.height < second.height) ∧
        state.tracker.extendedWindow.Pairwise
          (fun first second => first.height < second.height)) ∧
      (∀ entry ∈ state.tracker.window, entry.height ∈ state.connected) ∧
      (∀ entry ∈ state.tracker.sealLong, entry.height ∈ state.connected) ∧
      ∀ entry ∈ state.tracker.extendedWindow, entry.height ∈ state.connected)
      start calls := by
  have hstep : ∀ state call, Represented params state → ConnectsAbove state call →
      Represented params (trackerStep params state call) :=
    fun state call h habove => h.call call habove
  have halways := always_of_guarded hstep represented_cleared hcalls
  intro visited hvisited
  have h := halways visited hvisited
  exact ⟨h.records,
    ⟨h.window.length_le, h.sealLong.length_le, h.extendedWindow.length_le⟩,
    ⟨h.window.increasing, h.sealLong.increasing, h.extendedWindow.increasing⟩,
    h.window.live_of_mem, h.sealLong.live_of_mem, h.extendedWindow.live_of_mem⟩

namespace TrackerSample

def minedAt (height : Int) (minerPubKey : CBLSPublicKey) : TrackerCall :=
  .blockConnected { height := height, algo := 0, minerPubKey := minerPubKey, sealSigners := [7] }

def replacedCalls : List TrackerCall :=
  [minedAt 1 5, minedAt 2 6, .blockDisconnected 2, minedAt 2 5, .clear, minedAt 1 6]

end TrackerSample

open TrackerSample in
theorem tracker_representation_replaced :
    Always (trackerStep {}) (fun state =>
      state.tracker.records = rebuildFromWindow state.tracker.window ∧
        state.tracker.window.length ≤ 100 ∧ state.tracker.sealLong.length ≤ 400 ∧
        state.tracker.extendedWindow.length ≤ 1000) start replacedCalls := by
  have hcalls : Guarded (trackerStep {}) ConnectsAbove start replacedCalls :=
    ⟨by decide +kernel, by decide +kernel, by decide +kernel, by decide +kernel, by decide +kernel,
      by decide +kernel, trivial⟩
  intro visited hvisited
  obtain ⟨hrecords, hlengths, -⟩ := tracker_representation {} replacedCalls hcalls visited hvisited
  exact ⟨hrecords, hlengths⟩

end Kerrigan.HMP
