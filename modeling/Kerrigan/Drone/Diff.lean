import Kerrigan.Drone.List
import Mathlib.Data.List.Nodup

/-!
# Differences of drone lists

`BuildDiff` and `ApplyDiff`.  A drone whose immutable fields changed is removed and
added again, so that replaying a difference never updates them.  Applying the
difference of two lists to the first gives the second.
-/

namespace Kerrigan.Drone

open Primitives Lib CDroneList CDroneEntry List

/-- The stored change of one block; the height is only set in memory. -/
structure CDroneListDiff where
  nHeight : Int
  addedDrones : List CDroneEntry
  updatedDrones : List CDroneEntry
  removedDrones : List Uint160

/-- How an entry of the new list arises from the old list. -/
inductive EntryChange where
  | added
  | replaced
  | updated
  | kept
  deriving DecidableEq

def entryChange (old : Option CDroneEntry) (toEntry : CDroneEntry) : EntryChange :=
  match old with
  | none => .added
  | some entry =>
      if entry = toEntry then .kept
      else if SameImmutables entry toEntry then .updated
      else .replaced

def buildDiff (list target : CDroneList) : CDroneListDiff where
  nHeight := -1
  addedDrones := target.droneMap.toList.filterMap (fun item =>
    if entryChange list.droneMap[item.1]? item.2 = .added ∨
        entryChange list.droneMap[item.1]? item.2 = .replaced then some item.2 else none)
  updatedDrones := target.droneMap.toList.filterMap (fun item =>
    if entryChange list.droneMap[item.1]? item.2 = .updated then some item.2 else none)
  removedDrones :=
    target.droneMap.toList.filterMap (fun item =>
      if entryChange list.droneMap[item.1]? item.2 = .replaced then some item.1 else none) ++
    list.droneMap.toList.filterMap (fun item =>
      if target.droneMap[item.1]? = none then some item.1 else none)

def applyDiff (list : CDroneList) (blockHash : Uint256) (nHeight : Int) (diff : CDroneListDiff) :
    Option CDroneList :=
  match forEach removeDrone { list with blockHash := blockHash, nHeight := nHeight }
      diff.removedDrones with
  | none => none
  | some removed =>
      match forEach updateDrone removed diff.updatedDrones with
      | none => none
      | some updated => forEach addDrone updated diff.addedDrones

/-! ## Replaying a difference -/

variable {list : CDroneList}

theorem forEach_removeDrone {keys : List Uint160} (hnodup : keys.Nodup)
    (hpresent : ∀ pkh ∈ keys, ∃ old : CDroneEntry, list.droneMap[pkh]? = some old) :
    ∃ after, forEach removeDrone list keys = some after ∧
      Becomes list after (fun pkh => if pkh ∈ keys then none else list.droneMap[pkh]?) := by
  induction keys generalizing list with
  | nil => exact ⟨list, rfl, rfl, rfl, by simp⟩
  | cons key rest ih =>
    obtain ⟨hfresh, hrest⟩ := nodup_cons.mp hnodup
    obtain ⟨old, hold⟩ := hpresent key mem_cons_self
    obtain ⟨next, hnext⟩ := removeDrone_isSome hold
    have hbecomes := removeDrone_becomes hnext
    have hstill : ∀ pkh ∈ rest, ∃ old : CDroneEntry, next.droneMap[pkh]? = some old := by
      intro pkh hmem
      have hne : key ≠ pkh := by
        rintro rfl
        exact hfresh hmem
      rw [hbecomes.lookup, if_neg hne]
      exact hpresent pkh (mem_cons_of_mem key hmem)
    obtain ⟨after, hafter, hlater⟩ := ih hrest hstill
    refine ⟨after, ?_, hlater.blockHash.trans hbecomes.blockHash,
      hlater.nHeight.trans hbecomes.nHeight, ?_⟩
    · simp only [forEach, hnext, hafter]
    · intro pkh
      rw [hlater.lookup, hbecomes.lookup]
      by_cases hkey : key = pkh
      · simp [hkey]
      · by_cases hmem : pkh ∈ rest
        · simp [hmem]
        · simp [hmem, hkey, Ne.symm hkey]

variable {target : CDroneList}

theorem becomes_written {next after : CDroneList} {entry : CDroneEntry} {rest : List CDroneEntry}
    (hbecomes : Becomes list next (fun pkh =>
      if entry.blsPubKeyHash = pkh then some entry else list.droneMap[pkh]?))
    (hlater : Becomes next after (fun pkh =>
      if pkh ∈ rest.map blsPubKeyHash then target.droneMap[pkh]?
      else next.droneMap[pkh]?)) (hentry : target.droneMap[entry.blsPubKeyHash]? = some entry) :
    Becomes list after (fun pkh =>
      if pkh ∈ (entry :: rest).map blsPubKeyHash then target.droneMap[pkh]?
      else list.droneMap[pkh]?) := by
  refine ⟨hlater.blockHash.trans hbecomes.blockHash, hlater.nHeight.trans hbecomes.nHeight, ?_⟩
  intro pkh
  rw [hlater.lookup, hbecomes.lookup]
  by_cases hkey : entry.blsPubKeyHash = pkh
  · subst hkey
    simp [hentry]
  · simp [hkey, Ne.symm hkey]

theorem forEach_updateDrone {entries : List CDroneEntry}
    (htarget : ∀ entry ∈ entries, target.droneMap[entry.blsPubKeyHash]? = some entry)
    (hpresent : ∀ entry ∈ entries, ∃ old, list.droneMap[entry.blsPubKeyHash]? = some old ∧
      SameImmutables old entry) :
    ∃ after, forEach updateDrone list entries = some after ∧
      Becomes list after (fun pkh =>
        if pkh ∈ entries.map blsPubKeyHash then target.droneMap[pkh]?
        else list.droneMap[pkh]?) := by
  induction entries generalizing list with
  | nil => exact ⟨list, rfl, rfl, rfl, by simp⟩
  | cons entry rest ih =>
    obtain ⟨old, hold, himmutable⟩ := hpresent entry mem_cons_self
    obtain ⟨next, hnext⟩ := updateDrone_isSome hold himmutable
    have hbecomes := updateDrone_becomes hnext
    have hentry := htarget entry mem_cons_self
    have hstill : ∀ other ∈ rest, ∃ old, next.droneMap[other.blsPubKeyHash]? = some old ∧
        SameImmutables old other := by
      intro other hmem
      rw [hbecomes.lookup]
      by_cases hkey : entry.blsPubKeyHash = other.blsPubKeyHash
      · have hother := htarget other (mem_cons_of_mem entry hmem)
        rw [← hkey, hentry, Option.some.injEq] at hother
        rw [if_pos hkey]
        exact ⟨entry, rfl, by rw [hother], by rw [hother]⟩
      · rw [if_neg hkey]
        exact hpresent other (mem_cons_of_mem entry hmem)
    obtain ⟨after, hafter, hlater⟩ :=
      ih (fun other hmem => htarget other (mem_cons_of_mem entry hmem)) hstill
    refine ⟨after, ?_, becomes_written hbecomes hlater hentry⟩
    simp only [forEach, hnext, hafter]

theorem forEach_addDrone {entries : List CDroneEntry}
    (hnodup : (entries.map blsPubKeyHash).Nodup)
    (htarget : ∀ entry ∈ entries, target.droneMap[entry.blsPubKeyHash]? = some entry)
    (habsent : ∀ entry ∈ entries, list.droneMap[entry.blsPubKeyHash]? = none)
    (hcollateral : ∀ entry ∈ entries, ∀ (pkh : Uint160) (other : CDroneEntry),
      list.droneMap[pkh]? = some other → other.collateralOutpoint ≠ entry.collateralOutpoint) :
    ∃ after, forEach addDrone list entries = some after ∧
      Becomes list after (fun pkh =>
        if pkh ∈ entries.map blsPubKeyHash then target.droneMap[pkh]?
        else list.droneMap[pkh]?) := by
  induction entries generalizing list with
  | nil => exact ⟨list, rfl, rfl, rfl, by simp⟩
  | cons entry rest ih =>
    rw [map_cons, nodup_cons] at hnodup
    obtain ⟨hfresh, hrest⟩ := hnodup
    obtain ⟨next, hnext⟩ := addDrone_isSome (habsent entry mem_cons_self)
      (hcollateral entry mem_cons_self)
    have hbecomes := addDrone_becomes hnext
    have hentry := htarget entry mem_cons_self
    have hne : ∀ other ∈ rest, entry.blsPubKeyHash ≠ other.blsPubKeyHash := by
      intro other hmem hsame
      exact hfresh (hsame ▸ mem_map_of_mem hmem)
    have hstillAbsent : ∀ other ∈ rest, next.droneMap[other.blsPubKeyHash]? = none := by
      intro other hmem
      rw [hbecomes.lookup, if_neg (hne other hmem)]
      exact habsent other (mem_cons_of_mem entry hmem)
    have hstillCollateral : ∀ other ∈ rest, ∀ (pkh : Uint160) (found : CDroneEntry),
        next.droneMap[pkh]? = some found →
          found.collateralOutpoint ≠ other.collateralOutpoint := by
      intro other hmem pkh found hfound hsame
      rw [hbecomes.lookup] at hfound
      split at hfound
      · cases hfound
        have hother := htarget other (mem_cons_of_mem entry hmem)
        exact hne other hmem (target.collateral_injective hentry hother hsame)
      · exact hcollateral other (mem_cons_of_mem entry hmem) pkh found hfound hsame
    obtain ⟨after, hafter, hlater⟩ :=
      ih hrest (fun other hmem => htarget other (mem_cons_of_mem entry hmem)) hstillAbsent
        hstillCollateral
    refine ⟨after, ?_, becomes_written hbecomes hlater hentry⟩
    simp only [forEach, hnext, hafter]

/-! ## What a difference holds -/

section Difference

variable {list target : CDroneList} {old : Option CDroneEntry} {entry : CDroneEntry}

theorem entryChange_eq_added_iff :
    entryChange old entry = .added ↔ old = none := by
  unfold entryChange
  split
  · simp
  · split
    · simp
    · split <;> simp

theorem entryChange_eq_replaced_iff :
    entryChange old entry = .replaced ↔
      ∃ found, old = some found ∧ ¬ SameImmutables found entry := by
  unfold entryChange
  split
  · simp
  · split
    · rename_i hsame
      subst hsame
      simp [SameImmutables]
    · split <;> simp [*]

theorem entryChange_eq_updated_iff :
    entryChange old entry = .updated ↔
      ∃ found, old = some found ∧ SameImmutables found entry ∧ found ≠ entry := by
  unfold entryChange
  split
  · simp
  · split
    · simp [*]
    · split <;> simp [*]

theorem mem_addedDrones :
    entry ∈ (buildDiff list target).addedDrones ↔
      target.droneMap[entry.blsPubKeyHash]? = some entry ∧
        ∀ old, list.droneMap[entry.blsPubKeyHash]? = some old → ¬ SameImmutables old entry := by
  rw [buildDiff, mem_filterMap_toList]
  simp only [Option.ite_none_right_eq_some, entryChange_eq_added_iff, entryChange_eq_replaced_iff,
    Option.some.injEq]
  constructor
  · rintro ⟨key, entry, hfound, hchange, rfl⟩
    cases target.keyed key entry hfound
    refine ⟨hfound, ?_⟩
    intro old hold
    rcases hchange with hnone | ⟨found, hsome, himmutable⟩
    · rw [hold] at hnone
      cases hnone
    · rw [hold] at hsome
      cases hsome
      exact himmutable
  · rintro ⟨hfound, hchange⟩
    refine ⟨_, entry, hfound, ?_, rfl⟩
    cases hold : list.droneMap[entry.blsPubKeyHash]? with
    | none => exact Or.inl rfl
    | some old => exact Or.inr ⟨old, rfl, hchange old hold⟩

theorem mem_updatedDrones :
    entry ∈ (buildDiff list target).updatedDrones ↔
      target.droneMap[entry.blsPubKeyHash]? = some entry ∧
        ∃ old, list.droneMap[entry.blsPubKeyHash]? = some old ∧ SameImmutables old entry ∧
          old ≠ entry := by
  rw [buildDiff, mem_filterMap_toList]
  simp only [Option.ite_none_right_eq_some, entryChange_eq_updated_iff, Option.some.injEq]
  constructor
  · rintro ⟨key, entry, hfound, hchange, rfl⟩
    cases target.keyed key entry hfound
    exact ⟨hfound, hchange⟩
  · rintro ⟨hfound, hchange⟩
    exact ⟨_, entry, hfound, hchange, rfl⟩

theorem mem_removedDrones {pkh : Uint160} :
    pkh ∈ (buildDiff list target).removedDrones ↔
      ∃ old, list.droneMap[pkh]? = some old ∧
        ∀ entry, target.droneMap[pkh]? = some entry → ¬ SameImmutables old entry := by
  rw [buildDiff, mem_append, mem_selectKeys, mem_selectKeys]
  simp only [entryChange_eq_replaced_iff]
  constructor
  · rintro (⟨entry, hfound, old, hold, himmutable⟩ | ⟨old, hold, hnone⟩)
    · refine ⟨old, hold, ?_⟩
      intro other hother
      rw [hfound] at hother
      cases hother
      exact himmutable
    · refine ⟨old, hold, ?_⟩
      intro other hother
      rw [hnone] at hother
      cases hother
  · rintro ⟨old, hold, hchange⟩
    cases hfound : target.droneMap[pkh]? with
    | none => exact Or.inr ⟨old, hold, rfl⟩
    | some entry => exact Or.inl ⟨entry, rfl, old, hold, hchange entry hfound⟩

theorem addedDrones_nodup :
    ((buildDiff list target).addedDrones.map blsPubKeyHash).Nodup := by
  refine nodup_filterMap_toList ?_
  intro pkh entry added hfound hselect
  rw [Option.ite_none_right_eq_some] at hselect
  rw [← Option.some.inj hselect.2]
  exact target.keyed pkh entry hfound

theorem removedDrones_nodup : (buildDiff list target).removedDrones.Nodup := by
  refine Nodup.append nodup_selectKeys nodup_selectKeys ?_
  intro pkh hreplaced hremoved
  obtain ⟨entry, hfound, -⟩ := mem_selectKeys.mp hreplaced
  obtain ⟨old, -, hnone⟩ := mem_selectKeys.mp hremoved
  rw [hnone] at hfound
  cases hfound

/-- The drones left after the removals and updates of a difference are those of the target
that were already listed with the same immutable fields. -/
theorem updated_lookup_iff {pkh : Uint160} :
    (if pkh ∈ (buildDiff list target).updatedDrones.map blsPubKeyHash then
        target.droneMap[pkh]?
      else if pkh ∈ (buildDiff list target).removedDrones then none
      else list.droneMap[pkh]?) = some entry ↔
      target.droneMap[pkh]? = some entry ∧
        ∃ old, list.droneMap[pkh]? = some old ∧ SameImmutables old entry := by
  split
  · rename_i hupdated
    obtain ⟨other, hmem, rfl⟩ := mem_map.mp hupdated
    obtain ⟨hother, old, hold, himmutable, _⟩ := mem_updatedDrones.mp hmem
    rw [hother, Option.some.injEq]
    constructor
    · rintro rfl
      exact ⟨rfl, old, hold, himmutable⟩
    · exact fun h => h.1
  · rename_i hupdated
    split
    · rename_i hremoved
      obtain ⟨old, hold, hdiffers⟩ := mem_removedDrones.mp hremoved
      constructor
      · intro hnone
        cases hnone
      · rintro ⟨hentry, found, hfound, himmutable⟩
        rw [hold, Option.some.injEq] at hfound
        exact absurd (hfound ▸ himmutable) (hdiffers entry hentry)
    · rename_i hremoved
      rw [mem_removedDrones] at hremoved
      push Not at hremoved
      have hkept : ∀ old found, list.droneMap[pkh]? = some old →
          target.droneMap[pkh]? = some found → SameImmutables old found → old = found := by
        intro old found hold hfound himmutable
        by_contra hne
        have hkey := target.keyed pkh found hfound
        exact hupdated (mem_map.mpr ⟨found, mem_updatedDrones.mpr
          (hkey.symm ▸ ⟨hfound, old, hold, himmutable, hne⟩), hkey⟩)
      constructor
      · intro hold
        obtain ⟨found, hfound, himmutable⟩ := hremoved entry hold
        have hsame := hkept entry found hold hfound himmutable
        subst hsame
        exact ⟨hfound, entry, hold, himmutable⟩
      · rintro ⟨hentry, old, hold, himmutable⟩
        rw [← hkept old entry hold hentry himmutable]
        exact hold

/-- Replaying the difference of two lists on the first gives the second, with the header
of the block replayed, in whatever order the removals are made. -/
theorem applyDiff_of_perm (list target : CDroneList) (nHeight : Int) {removals : List Uint160}
    (hperm : removals.Perm (buildDiff list target).removedDrones) :
    applyDiff list target.blockHash target.nHeight
      { buildDiff list target with nHeight := nHeight, removedDrones := removals } =
        some target := by
  obtain ⟨removed, hremove, hremoved⟩ :=
    @forEach_removeDrone { list with blockHash := target.blockHash, nHeight := target.nHeight }
      removals (hperm.nodup_iff.mpr removedDrones_nodup) (by
        intro pkh hmem
        obtain ⟨old, hold, _⟩ := mem_removedDrones.mp (hperm.mem_iff.mp hmem)
        exact ⟨old, hold⟩)
  obtain ⟨updated, hupdate, hupdated⟩ :=
    @forEach_updateDrone removed target (buildDiff list target).updatedDrones
      (fun entry hmem => (mem_updatedDrones.mp hmem).1) (by
        intro entry hmem
        obtain ⟨hentry, old, hold, himmutable, _⟩ := mem_updatedDrones.mp hmem
        have hstays : entry.blsPubKeyHash ∉ removals := by
          intro hmem
          obtain ⟨found, hfound, hdiffers⟩ := mem_removedDrones.mp (hperm.mem_iff.mp hmem)
          rw [hold, Option.some.injEq] at hfound
          exact hdiffers entry hentry (hfound ▸ himmutable)
        rw [hremoved.lookup, if_neg hstays]
        exact ⟨old, hold, himmutable⟩)
  have hlookup : ∀ (pkh : Uint160) (entry : CDroneEntry), updated.droneMap[pkh]? = some entry ↔
      target.droneMap[pkh]? = some entry ∧
        ∃ old, list.droneMap[pkh]? = some old ∧ SameImmutables old entry := by
    intro pkh entry
    rw [hupdated.lookup, hremoved.lookup]
    simp only [hperm.mem_iff]
    exact updated_lookup_iff
  have habsent : ∀ entry ∈ (buildDiff list target).addedDrones,
      updated.droneMap[entry.blsPubKeyHash]? = none := by
    intro entry hmem
    obtain ⟨hentry, hdiffers⟩ := mem_addedDrones.mp hmem
    rw [Option.eq_none_iff_forall_ne_some]
    intro other hother
    obtain ⟨hfound, old, hold, himmutable⟩ := (hlookup _ other).mp hother
    rw [hentry, Option.some.injEq] at hfound
    exact hdiffers old hold (hfound ▸ himmutable)
  obtain ⟨added, hadd, hadded⟩ :=
    @forEach_addDrone updated target (buildDiff list target).addedDrones addedDrones_nodup
      (fun entry hmem => (mem_addedDrones.mp hmem).1) habsent (by
        intro entry hmem pkh other hother hsame
        have hkey := target.collateral_injective ((hlookup pkh other).mp hother).1
          (mem_addedDrones.mp hmem).1 hsame
        rw [hkey, habsent entry hmem] at hother
        cases hother)
  have hresult : added = target := by
    refine ext_of_droneMap ?_ ?_ ?_
    · rw [hadded.blockHash, hupdated.blockHash, hremoved.blockHash]
    · rw [hadded.nHeight, hupdated.nHeight, hremoved.nHeight]
    · intro pkh
      rw [hadded.lookup]
      split
      · rfl
      · rename_i hkept
        refine Option.ext ?_
        intro entry
        rw [hlookup]
        refine and_iff_left_of_imp ?_
        intro hentry
        by_contra hdiffers
        push Not at hdiffers
        have hkey := target.keyed pkh entry hentry
        exact hkept (mem_map.mpr
          ⟨entry, mem_addedDrones.mpr (hkey.symm ▸ ⟨hentry, hdiffers⟩), hkey⟩)
  simp only [applyDiff, hremove, hupdate, hadd, hresult]

theorem applyDiff_buildDiff (list target : CDroneList) (nHeight : Int) :
    applyDiff list target.blockHash target.nHeight
      { buildDiff list target with nHeight := nHeight } = some target :=
  applyDiff_of_perm list target nHeight (Perm.refl _)

/-- Differences are exact: for any two lists and any block, the replay does not throw and gives
both maps of the second list. -/
theorem applyDiff_exact (list target : CDroneList) (blockHash : Uint256) (nHeight : Int)
    (removals : List Uint160) (hperm : removals.Perm (buildDiff list target).removedDrones) :
    ∃ result, applyDiff list blockHash nHeight
        { buildDiff list target with removedDrones := removals } = some result ∧
      result.droneMap = target.droneMap ∧ result.collateralIndex = target.collateralIndex :=
  ⟨_, applyDiff_of_perm list { target with blockHash := blockHash, nHeight := nHeight } (-1) hperm,
    rfl, rfl⟩

end Difference

namespace DiffSample

def drone (blsPubKeyHash : Uint160) (bond : Uint256) (payoutScript : Script) : CDroneEntry where
  blsPubKeyHash := blsPubKeyHash
  payoutScript := payoutScript
  collateralOutpoint := ⟨bond, 0⟩
  irohNodeId := 0
  nHardwareClass := 0
  nModelTier := 0
  nRegisteredHeight := 1
  nLastSeenHeight := 1
  nLastPaidHeight := 0

def listOf (entries : List CDroneEntry) : CDroneList :=
  (forEach addDrone (CDroneList.empty 0 1) entries).getD (CDroneList.empty 0 1)

def before : CDroneList := listOf [drone 1 10 [1], drone 2 20 [2], drone 3 30 [3]]

/-- The first two drones have swapped their bonds, and the third has another payout script. -/
def after : CDroneList := listOf [drone 1 20 [1], drone 2 10 [2], drone 3 30 [4]]

end DiffSample

open DiffSample in
theorem applyDiff_exact_swapped :
    (buildDiff before after).removedDrones = [1, 2, 3] ∧
      ∃ result, applyDiff before 7 2
          { buildDiff before after with removedDrones := [3, 1, 2] } = some result ∧
        result.droneMap = after.droneMap ∧ result.collateralIndex = after.collateralIndex := by
  have hremoved : (buildDiff before after).removedDrones = [1, 2, 3] := by decide +kernel
  exact ⟨hremoved, applyDiff_exact before after 7 2 [3, 1, 2] (by rw [hremoved]; decide)⟩

end Kerrigan.Drone
