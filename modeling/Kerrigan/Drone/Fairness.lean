import Kerrigan.Drone.Transition
import Kerrigan.Drone.Refinement
import Kerrigan.Lib.Rotation

/-!
# Payouts go round

The payee of a height is the eligible drone that has waited longest since its last payment or its
registration, and the list after the block marks it as paid.  So the lists of a chain are a
rotation: between two payments of one drone every other that stays is paid.
-/

namespace Kerrigan.Drone

open Primitives Consensus Lib CDroneList

/-! ## Lists and payees by height -/

namespace CBlockIndex

theorem nHeight_nonneg (index : CBlockIndex) : 0 ≤ index.nHeight := by
  induction index with
  | genesis hash => exact le_rfl
  | child pprev block ih =>
    rw [nHeight]
    omega

def getAncestor (nHeight : Int) : CBlockIndex → Option CBlockIndex
  | genesis hash => if nHeight = 0 then some (genesis hash) else none
  | child pprev block =>
      if nHeight = pprev.nHeight + 1 then some (child pprev block)
      else pprev.getAncestor nHeight

theorem getAncestor_self (index : CBlockIndex) :
    index.getAncestor index.nHeight = some index := by
  cases index with
  | genesis hash => rfl
  | child pprev block => exact if_pos rfl

theorem getAncestor_height {height : Int} {index ancestor : CBlockIndex}
    (h : index.getAncestor height = some ancestor) :
    ancestor.nHeight = height ∧ height ≤ index.nHeight := by
  induction index with
  | genesis hash =>
    unfold getAncestor at h
    split at h
    · rename_i hzero
      cases h
      exact ⟨hzero.symm, le_of_eq hzero⟩
    · cases h
  | child pprev block ih =>
    unfold getAncestor at h
    split at h
    · rename_i htop
      cases h
      exact ⟨htop.symm, le_of_eq htop⟩
    · obtain ⟨hheight, hle⟩ := ih h
      rw [nHeight]
      exact ⟨hheight, by omega⟩

theorem getAncestor_pprev {height : Int} {index pprev : CBlockIndex} {block : CBlock}
    (h : index.getAncestor height = some (.child pprev block)) :
    index.getAncestor (height - 1) = some pprev := by
  induction index with
  | genesis hash =>
    unfold getAncestor at h
    split at h <;> cases h
  | child parent top ih =>
    unfold getAncestor at h
    split at h
    · rename_i htop
      cases h
      rw [getAncestor, if_neg (by omega), htop, Int.add_sub_cancel, getAncestor_self]
    · have hle := (getAncestor_height h).2
      rw [getAncestor, if_neg (by omega)]
      exact ih h

end CBlockIndex

variable (params : Params) (index : CBlockIndex) (nHeight : Int)

def listAt : Option CDroneList :=
  (index.getAncestor nHeight).bind (foldList params)

def payeeAt : Option Uint160 :=
  (listAt params index (nHeight - 1)).bind (fun list =>
    (getPayee params list nHeight).map CDroneEntry.blsPubKeyHash)

/-! ## Steps of an entry -/

def EntryFollows (before : CDroneList) (nHeight : Int) (pkh : Uint160) (new : CDroneEntry) : Prop :=
  (∃ old, before.droneMap[pkh]? = some old ∧ new.nRegisteredHeight = old.nRegisteredHeight ∧
    new.nLastPaidHeight = if getPayee params before nHeight = some old then nHeight
      else old.nLastPaidHeight) ∨
  new.nRegisteredHeight = nHeight ∧ new.nLastPaidHeight = 0

section Step

variable {params : Params} {nHeight : Int} {pkh : Uint160} {new : CDroneEntry}

theorem buildListFromBlock_follows {before after : CDroneList} {block : CBlock}
    (hbuild : buildListFromBlock params before block nHeight = some after)
    (hnew : after.droneMap[pkh]? = some new) :
    EntryFollows params before nHeight pkh new := by
  have hchanges := buildListFromBlock_changes hbuild pkh
  rw [hnew] at hchanges
  generalize hmarked : markedEntry params before nHeight pkh = marking at hchanges
  cases hchanges with
  | renewed _ same =>
    cases hold : before.droneMap[pkh]? with
    | none =>
      rw [markedEntry, hold] at hmarked
      cases hmarked
    | some old =>
      obtain ⟨found, hfound, hkept, hpaid⟩ := markedEntry_of_some params nHeight hold
      cases hfound.symm.trans hmarked
      refine Or.inl ⟨old, hold, ?_, ?_⟩
      · rw [same.same, hkept]
      · rw [same.same]
        exact hpaid
  | registered _ entered =>
    obtain ⟨tx, -, hregistered⟩ := entered
    obtain ⟨reg, txout, -, -, rfl⟩ := hregistered.bonded
    exact Or.inr ⟨rfl, rfl⟩

variable {index : CBlockIndex} {list : CDroneList}

theorem listAt_follows (hlist : listAt params index nHeight = some list)
    (hnew : list.droneMap[pkh]? = some new) :
    0 < nHeight ∧ ∃ before, listAt params index (nHeight - 1) = some before ∧
      EntryFollows params before nHeight pkh new := by
  obtain ⟨ancestor, hancestor, hfold⟩ := Option.bind_eq_some_iff.mp hlist
  cases ancestor with
  | genesis hash =>
    rw [foldList_genesis] at hfold
    cases hfold
    simp [CDroneList.empty] at hnew
  | child pprev block =>
    have hheight := (CBlockIndex.getAncestor_height hancestor).1
    rw [CBlockIndex.nHeight] at hheight
    have hnonneg := pprev.nHeight_nonneg
    by_cases hactive : params.isDronePayoutActive (pprev.nHeight + 1) = true
    · rw [foldList_active hactive] at hfold
      obtain ⟨before, hbefore, hnext⟩ := Option.bind_eq_some_iff.mp hfold
      obtain ⟨newList, hbuild, rfl⟩ := Option.map_eq_some_iff.mp hnext
      rw [hheight] at hbuild
      refine ⟨by omega, before, ?_, buildListFromBlock_follows hbuild hnew⟩
      rw [listAt, CBlockIndex.getAncestor_pprev hancestor, Option.bind_some, hbefore]
    · rw [foldList_inactive hactive] at hfold
      cases hfold
      simp [CDroneList.empty] at hnew

theorem lastPaid_le (hlist : listAt params index nHeight = some list) {entry : CDroneEntry}
    (hentry : list.droneMap[pkh]? = some entry) : entry.nLastPaidHeight ≤ nHeight := by
  have hbound : ∀ steps : Nat, ∀ height : Int, height ≤ steps → ∀ list,
      listAt params index height = some list → ∀ entry, list.droneMap[pkh]? = some entry →
        entry.nLastPaidHeight ≤ height := by
    intro steps
    induction steps with
    | zero =>
      intro height hheight list hlist entry hentry
      have hpos := (listAt_follows hlist hentry).1
      omega
    | succ steps ih =>
      intro height hheight list hlist entry hentry
      obtain ⟨hpos, before, hbefore, hfollows⟩ := listAt_follows hlist hentry
      rcases hfollows with ⟨old, hold, -, hpaid⟩ | ⟨-, hunpaid⟩
      · have hearlier := ih (height - 1) (by omega) before hbefore old hold
        split at hpaid <;> omega
      · omega
  exact hbound nHeight.toNat nHeight (Int.self_le_toNat nHeight) list hlist entry hentry

theorem effectiveLastPaidHeight_of_follows {before : CDroneList} (hpos : 0 < nHeight)
    (h : EntryFollows params before nHeight pkh new) :
    effectiveLastPaidHeight new = nHeight ∨
      ∃ old, before.droneMap[pkh]? = some old ∧ getPayee params before nHeight ≠ some old ∧
        effectiveLastPaidHeight new = effectiveLastPaidHeight old := by
  rcases h with ⟨old, hold, hregistered, hpaid⟩ | ⟨hregistered, hunpaid⟩
  · split at hpaid
    · refine Or.inl ?_
      rw [effectiveLastPaidHeight, hpaid, if_neg (by omega)]
    · refine Or.inr ⟨old, hold, ‹_›, ?_⟩
      rw [effectiveLastPaidHeight, effectiveLastPaidHeight, hpaid, hregistered]
  · refine Or.inl ?_
    rw [effectiveLastPaidHeight, hunpaid, if_pos rfl, hregistered]

theorem payeeAt_eq_some_iff (hlist : listAt params index (nHeight - 1) = some list) :
    payeeAt params index nHeight = some pkh ↔
      ∃ entry, list.droneMap[pkh]? = some entry ∧ getPayee params list nHeight = some entry := by
  rw [payeeAt, hlist, Option.bind_some, Option.map_eq_some_iff]
  constructor
  · rintro ⟨payee, hpayee, rfl⟩
    exact ⟨payee, (getPayee_mem hpayee).1, hpayee⟩
  · rintro ⟨entry, hentry, hpayee⟩
    exact ⟨entry, hpayee, list.keyed pkh entry hentry⟩

end Step

/-! ## The rotation of a chain -/

def queueHeight (pkh : Uint160) : Option Int :=
  (listAt params index nHeight).bind (fun list =>
    list.droneMap[pkh]?.map effectiveLastPaidHeight)

theorem queueHeight_eq_some_iff {params : Params} {index : CBlockIndex} {nHeight : Int}
    {pkh : Uint160} {queued : Int} :
    queueHeight params index nHeight pkh = some queued ↔
      ∃ list entry, listAt params index nHeight = some list ∧
        list.droneMap[pkh]? = some entry ∧ effectiveLastPaidHeight entry = queued := by
  simp [queueHeight, Option.bind_eq_some_iff]

def payoutRotation : Rotation Uint160 where
  rank := queueHeight params index
  served := payeeAt params index
  Eligible := fun nHeight pkh => ∃ list entry, listAt params index (nHeight - 1) = some list ∧
    list.droneMap[pkh]? = some entry ∧ isEligible params entry nHeight = true
  rank_served := by
    intro nHeight pkh queued hserved hrank
    obtain ⟨list, entry, hlist, hentry, rfl⟩ := queueHeight_eq_some_iff.mp hrank
    obtain ⟨hpos, before, hbefore, hfollows⟩ := listAt_follows hlist hentry
    rcases effectiveLastPaidHeight_of_follows hpos hfollows with hnow | ⟨old, hold, hother, -⟩
    · exact hnow
    · obtain ⟨payee, hlisted, hpayee⟩ := (payeeAt_eq_some_iff hbefore).mp hserved
      cases hold.symm.trans hlisted
      exact absurd hpayee hother
  rank_other := by
    intro nHeight pkh queued _ hrank
    obtain ⟨list, entry, hlist, hentry, rfl⟩ := queueHeight_eq_some_iff.mp hrank
    obtain ⟨hpos, before, hbefore, hfollows⟩ := listAt_follows hlist hentry
    rcases effectiveLastPaidHeight_of_follows hpos hfollows with hnow | ⟨old, hold, -, hsame⟩
    · exact Or.inr hnow
    · exact Or.inl (queueHeight_eq_some_iff.mpr ⟨before, old, hbefore, hold, hsame.symm⟩)
  longest := by
    rintro nHeight pkh other queued hserved ⟨list, entry, hlist, hentry, heligible⟩ hrank
    obtain ⟨found, waiting, hfound, hwaiting, rfl⟩ := queueHeight_eq_some_iff.mp hrank
    cases hlist.symm.trans hfound
    cases hentry.symm.trans hwaiting
    obtain ⟨payee, hlisted, hpayee⟩ := (payeeAt_eq_some_iff hlist).mp hserved
    obtain ⟨candidate, hcandidate, hle⟩ := getPayee_leads hentry heligible
    cases hpayee.symm.trans hcandidate
    exact ⟨_, hle, queueHeight_eq_some_iff.mpr ⟨list, payee, hlist, hlisted, rfl⟩⟩

/-- Between two payments of one drone every other one that stays eligible, under a registration
from before the first payment, is paid. -/
theorem payeeAt_between {params : Params} {index : CBlockIndex} {first second : Int}
    {pkh other : Uint160} (horder : first < second) (hne : other ≠ pkh)
    (hfirst : payeeAt params index first = some pkh)
    (hsecond : payeeAt params index second = some pkh)
    (hstays : ∀ height, first - 1 ≤ height → height < second →
      ∃ list entry, listAt params index height = some list ∧
        list.droneMap[other]? = some entry ∧ entry.nRegisteredHeight < first ∧
        isEligible params entry (height + 1) = true) :
    ∃ height, first < height ∧ height < second ∧ payeeAt params index height = some other := by
  obtain ⟨list, entry, hlist, hentry, hregistered, -⟩ := hstays (first - 1) le_rfl (by omega)
  have hearly : effectiveLastPaidHeight entry < first := by
    have hpaid := lastPaid_le hlist hentry
    unfold effectiveLastPaidHeight
    split <;> omega
  refine (payoutRotation params index).served_between horder hne hfirst hsecond
    (queueHeight_eq_some_iff.mpr ⟨list, entry, hlist, hentry, rfl⟩) hearly ?_ ?_
  · intro height hlow hhigh hwaits
    obtain ⟨after, new, hafter, hnew, hbefore, -⟩ := hstays height (by omega) hhigh
    obtain ⟨hpos, earlier, hearlier, hfollows⟩ := listAt_follows hafter hnew
    have hrank := queueHeight_eq_some_iff.mpr ⟨after, new, hafter, hnew, rfl⟩
    rcases hfollows with ⟨old, hold, hsame, hpaid⟩ | ⟨hnow, -⟩
    · have hother : getPayee params earlier height ≠ some old := by
        intro hpayee
        exact hwaits ((payeeAt_eq_some_iff hearlier).mpr ⟨old, hold, hpayee⟩)
      rw [if_neg hother] at hpaid
      have hequal : effectiveLastPaidHeight new = effectiveLastPaidHeight old := by
        rw [effectiveLastPaidHeight, effectiveLastPaidHeight, hpaid, hsame]
      exact hrank.trans (queueHeight_eq_some_iff.mpr
        ⟨earlier, old, hearlier, hold, hequal.symm⟩).symm
    · omega
  · obtain ⟨last, lastEntry, hlast, hlastEntry, -, heligible⟩ :=
      hstays (second - 1) (by omega) (by omega)
    rw [Int.sub_add_cancel] at heligible
    exact ⟨last, lastEntry, hlast, hlastEntry, heligible⟩

/-- The payouts of a chain go round.  Between two payments of a drone every other one that stays
in the list, eligible and under a registration from before the first of them, is paid; so while
the list has the same members, all eligible and registered before, as many heights as there are
members pay each of them once. -/
theorem drone_payouts_round_robin (params : Params) (index : CBlockIndex) :
    (∀ (first second : Int) (pkh other : Uint160) (registered : Int) (bond : COutPoint),
      first < second → other ≠ pkh → payeeAt params index first = some pkh →
      payeeAt params index second = some pkh → registered < first →
      (∀ height, first - 1 ≤ height → height < second →
        ∃ list entry, listAt params index height = some list ∧
          list.droneMap[other]? = some entry ∧ entry.nRegisteredHeight = registered ∧
          entry.collateralOutpoint = bond ∧ isEligible params entry (height + 1) = true) →
      ∃ height, first < height ∧ height < second ∧ payeeAt params index height = some other) ∧
    ∀ (start : Int) (members : Finset Uint160),
      (∀ height, start - 1 ≤ height → height < start + members.card - 1 →
        ∃ list, listAt params index height = some list ∧
          (∀ pkh : Uint160, pkh ∈ members ↔ ∃ entry, list.droneMap[pkh]? = some entry) ∧
          ∀ (pkh : Uint160) (entry : CDroneEntry), list.droneMap[pkh]? = some entry →
            entry.nRegisteredHeight < start ∧ isEligible params entry (height + 1) = true) →
      ∀ pkh ∈ members, ∃! height, start ≤ height ∧ height < start + members.card ∧
        payeeAt params index height = some pkh := by
  refine ⟨?_, ?_⟩
  · intro first second pkh other registered bond horder hne hfirst hsecond hregistered hstays
    refine payeeAt_between horder hne hfirst hsecond ?_
    intro height hlow hhigh
    obtain ⟨list, entry, hlist, hentry, hsame, -, heligible⟩ := hstays height hlow hhigh
    exact ⟨list, entry, hlist, hentry, hsame ▸ hregistered, heligible⟩
  · intro start members hgroup pkh hpkh
    refine existsUnique_served ?_ ?_ pkh hpkh
    · intro height hlow hhigh
      obtain ⟨list, hlist, hkeys, hentries⟩ := hgroup (height - 1) (by omega) (by omega)
      obtain ⟨entry, hentry⟩ := (hkeys pkh).mp hpkh
      have heligible := (hentries pkh entry hentry).2
      rw [Int.sub_add_cancel] at heligible
      obtain ⟨payee, hpayee, -⟩ := getPayee_leads hentry heligible
      have hlisted := (getPayee_mem hpayee).1
      exact ⟨payee.blsPubKeyHash, (hkeys _).mpr ⟨payee, hlisted⟩,
        (payeeAt_eq_some_iff hlist).mpr ⟨payee, hlisted, hpayee⟩⟩
    · intro first second key other hlow horder hhigh hother hne hfirst hsecond
      refine payeeAt_between horder hne hfirst hsecond ?_
      intro height hheightLow hheightHigh
      obtain ⟨list, hlist, hkeys, hentries⟩ := hgroup height (by omega) (by omega)
      obtain ⟨entry, hentry⟩ := (hkeys other).mp hother
      obtain ⟨hregistered, heligible⟩ := hentries other entry hentry
      exact ⟨list, entry, hlist, hentry, by omega, heligible⟩

namespace FairnessSample

def roundParams : Params := { nDronePayoutHeight := 1, nDroneCollateralAmount := 5 }

def registrationOf (blsPubKeyHash : Uint160) (hash : Uint256) : CTransaction where
  hash := hash
  nVersion := 3
  nType := .droneRegister
  vin := [⟨⟨hash, 1⟩⟩]
  vout := [⟨5, [1]⟩]
  droneRegPayload := some {
    blsPubKeyHash := blsPubKeyHash, irohNodeId := 0, nHardwareClass := 0, nModelTier := 0
    nCollateralIndex := 0, scriptPayout := [1] }

def pairChain : CBlockIndex :=
  .child (.child (.child (.child (.genesis 100) ⟨101, [registrationOf 7 20, registrationOf 8 30]⟩)
    ⟨102, []⟩) ⟨103, []⟩) ⟨104, []⟩

theorem listAt_pairChain {height : Int} (hlow : 1 ≤ height) (hhigh : height < 4) :
    ∃ list ∈ listAt roundParams pairChain height, list.droneMap.keys = [7, 8] ∧
      ∀ pkh ∈ [7, 8], ∃ entry ∈ list.droneMap[pkh]?, entry.nRegisteredHeight = 1 ∧
        entry.collateralOutpoint = ⟨if pkh = 7 then 20 else 30, 0⟩ ∧
        isEligible roundParams entry (height + 1) = true := by
  have hlists : ∀ height ∈ [(1 : Int), 2, 3], ∃ list ∈ listAt roundParams pairChain height,
      list.droneMap.keys = [7, 8] ∧
        ∀ pkh ∈ [7, 8], ∃ entry ∈ list.droneMap[pkh]?, entry.nRegisteredHeight = 1 ∧
          entry.collateralOutpoint = ⟨if pkh = 7 then 20 else 30, 0⟩ ∧
          isEligible roundParams entry (height + 1) = true := by
    decide +kernel
  refine hlists height ?_
  simp only [List.mem_cons, List.not_mem_nil, or_false]
  omega

end FairnessSample

open FairnessSample in
theorem drone_payouts_round_robin_pair :
    (∃ height, 2 < height ∧ height < 4 ∧ payeeAt roundParams pairChain height = some 8) ∧
      ∀ pkh ∈ ({7, 8} : Finset Uint160), ∃! height, 2 ≤ height ∧
        height < 2 + (({7, 8} : Finset Uint160).card : Int) ∧
        payeeAt roundParams pairChain height = some pkh := by
  obtain ⟨hbetween, honce⟩ := drone_payouts_round_robin roundParams pairChain
  refine ⟨hbetween 2 4 7 8 1 ⟨30, 0⟩ (by decide) (by decide) (by decide +kernel)
    (by decide +kernel) (by decide) ?_, honce 2 {7, 8} ?_⟩
  · intro height hlow hhigh
    obtain ⟨list, hlist, -, hentries⟩ := listAt_pairChain (by omega) hhigh
    obtain ⟨entry, hentry, hregistered, hbond, heligible⟩ := hentries 8 (by decide)
    exact ⟨list, entry, hlist, hentry, hregistered, hbond, heligible⟩
  · intro height hlow hhigh
    have hcard : ({7, 8} : Finset Uint160).card = 2 := by decide
    obtain ⟨list, hlist, hkeys, hentries⟩ := listAt_pairChain (show 1 ≤ height by omega) (by omega)
    have hlisted : ∀ pkh : Uint160, pkh ∈ [7, 8] ↔ ∃ entry, list.droneMap[pkh]? = some entry := by
      intro pkh
      rw [← hkeys, Std.ExtTreeMap.mem_keys, Std.ExtTreeMap.mem_iff_isSome_getElem?,
        Option.isSome_iff_exists]
    refine ⟨list, hlist, fun pkh => by simpa using hlisted pkh, ?_⟩
    intro pkh entry hentry
    obtain ⟨found, hfound, hregistered, -, heligible⟩ :=
      hentries pkh ((hlisted pkh).mpr ⟨entry, hentry⟩)
    cases hentry.symm.trans hfound
    exact ⟨by omega, heligible⟩

end Kerrigan.Drone
