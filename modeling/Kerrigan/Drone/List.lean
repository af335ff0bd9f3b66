import Kerrigan.Consensus.Params
import Kerrigan.Lib.OrdMap

/-!
# The drone list

`CDroneList` with its two maps.  The collateral index is kept as the inverse of the
drone map by every operation, so the list carries both facts as fields.  An operation
that throws returns `none`.
-/

namespace Kerrigan.Drone

open Primitives Consensus Lib

/-- A registered drone. -/
structure CDroneEntry where
  blsPubKeyHash : Uint160
  payoutScript : Script
  collateralOutpoint : COutPoint
  irohNodeId : Uint256
  nHardwareClass : Nat
  nModelTier : Nat
  nRegisteredHeight : Int
  nLastSeenHeight : Int
  nLastPaidHeight : Int
  deriving DecidableEq, Repr

/-- Two entries share the fields that an update may not change. -/
def SameImmutables (first second : CDroneEntry) : Prop :=
  first.collateralOutpoint = second.collateralOutpoint ∧ first.payoutScript = second.payoutScript

instance (first second : CDroneEntry) : Decidable (SameImmutables first second) :=
  inferInstanceAs (Decidable (_ ∧ _))

/-- The drones by public key hash, with the index of their collaterals. -/
structure CDroneList where
  blockHash : Uint256
  nHeight : Int
  droneMap : Std.ExtTreeMap Uint160 CDroneEntry
  collateralIndex : COutPoint → Option Uint160
  keyed : ∀ (pkh : Uint160) (entry : CDroneEntry), droneMap[pkh]? = some entry →
    entry.blsPubKeyHash = pkh
  indexed : ∀ (outpoint : COutPoint) (pkh : Uint160), collateralIndex outpoint = some pkh ↔
    ∃ entry : CDroneEntry, droneMap[pkh]? = some entry ∧ entry.collateralOutpoint = outpoint

namespace CDroneList

def empty (blockHash : Uint256) (nHeight : Int) : CDroneList where
  blockHash := blockHash
  nHeight := nHeight
  droneMap := ∅
  collateralIndex := fun _ => none
  keyed := by simp
  indexed := by simp

theorem ext_of_droneMap {first second : CDroneList} (hhash : first.blockHash = second.blockHash)
    (hheight : first.nHeight = second.nHeight)
    (hmap : ∀ pkh : Uint160, first.droneMap[pkh]? = second.droneMap[pkh]?) : first = second := by
  have hmaps : first.droneMap = second.droneMap := Std.ExtTreeMap.ext_getElem? hmap
  have hindex : first.collateralIndex = second.collateralIndex := by
    funext outpoint
    refine Option.ext ?_
    intro pkh
    rw [first.indexed, second.indexed, hmaps]
  cases second
  cases hhash
  cases hheight
  cases hmaps
  cases hindex
  rfl

def getDrone (list : CDroneList) (pubKeyHash : Uint160) : Option CDroneEntry :=
  list.droneMap[pubKeyHash]?

def getDroneByCollateral (list : CDroneList) (outpoint : COutPoint) : Option CDroneEntry :=
  match list.collateralIndex outpoint with
  | none => none
  | some pubKeyHash => list.getDrone pubKeyHash

theorem collateral_injective (list : CDroneList) {first second : Uint160}
    {firstEntry secondEntry : CDroneEntry} (hfirst : list.droneMap[first]? = some firstEntry)
    (hsecond : list.droneMap[second]? = some secondEntry)
    (hsame : firstEntry.collateralOutpoint = secondEntry.collateralOutpoint) : first = second := by
  have hone := (list.indexed firstEntry.collateralOutpoint first).mpr ⟨firstEntry, hfirst, rfl⟩
  have htwo := (list.indexed firstEntry.collateralOutpoint second).mpr
    ⟨secondEntry, hsecond, hsame.symm⟩
  rw [hone] at htwo
  exact Option.some.inj htwo

def addDrone (list : CDroneList) (entry : CDroneEntry) : Option CDroneList :=
  if hkey : list.droneMap[entry.blsPubKeyHash]? = none then
    if hcollateral : list.collateralIndex entry.collateralOutpoint = none then
      some
        { blockHash := list.blockHash
          nHeight := list.nHeight
          droneMap := list.droneMap.insert entry.blsPubKeyHash entry
          collateralIndex :=
            Function.update list.collateralIndex entry.collateralOutpoint
              (some entry.blsPubKeyHash)
          keyed := by
            intro pkh found hfound
            rw [getElem?_insert_eq] at hfound
            split at hfound
            · rename_i hsame
              cases hfound
              exact hsame
            · exact list.keyed pkh found hfound
          indexed := by
            intro outpoint pkh
            by_cases hout : outpoint = entry.collateralOutpoint
            · subst hout
              rw [Function.update_self, Option.some.injEq]
              constructor
              · rintro rfl
                exact ⟨entry, by rw [getElem?_insert_eq, if_pos rfl], rfl⟩
              · rintro ⟨found, hfound, hsame⟩
                rw [getElem?_insert_eq] at hfound
                split at hfound
                · assumption
                · have hindexed := (list.indexed entry.collateralOutpoint pkh).mpr
                    ⟨found, hfound, hsame⟩
                  rw [hcollateral] at hindexed
                  cases hindexed
            · rw [Function.update_of_ne hout, list.indexed]
              constructor
              · rintro ⟨found, hfound, hsame⟩
                refine ⟨found, ?_, hsame⟩
                rw [getElem?_insert_eq, if_neg]
                · exact hfound
                · rintro rfl
                  rw [hkey] at hfound
                  cases hfound
              · rintro ⟨found, hfound, hsame⟩
                rw [getElem?_insert_eq] at hfound
                split at hfound
                · cases hfound
                  exact absurd hsame.symm hout
                · exact ⟨found, hfound, hsame⟩ }
    else none
  else none

def updateDrone (list : CDroneList) (entry : CDroneEntry) : Option CDroneList :=
  match hold : list.droneMap[entry.blsPubKeyHash]? with
  | none => none
  | some old =>
      if himmutable : SameImmutables old entry then
        some
          { blockHash := list.blockHash
            nHeight := list.nHeight
            droneMap := list.droneMap.insert entry.blsPubKeyHash entry
            collateralIndex := list.collateralIndex
            keyed := by
              intro pkh found hfound
              rw [getElem?_insert_eq] at hfound
              split at hfound
              · rename_i hsame
                cases hfound
                exact hsame
              · exact list.keyed pkh found hfound
            indexed := by
              intro outpoint pkh
              rw [list.indexed]
              by_cases hkey : entry.blsPubKeyHash = pkh
              · subst hkey
                simp [hold, himmutable.1]
              · simp [getElem?_insert_eq, hkey] }
      else none

def removeDrone (list : CDroneList) (pubKeyHash : Uint160) : Option CDroneList :=
  match hold : list.droneMap[pubKeyHash]? with
  | none => none
  | some old =>
      some
        { blockHash := list.blockHash
          nHeight := list.nHeight
          droneMap := list.droneMap.erase pubKeyHash
          collateralIndex := Function.update list.collateralIndex old.collateralOutpoint none
          keyed := by
            intro pkh found hfound
            rw [getElem?_erase_eq] at hfound
            split at hfound
            · cases hfound
            · exact list.keyed pkh found hfound
          indexed := by
            intro outpoint pkh
            by_cases hout : outpoint = old.collateralOutpoint
            · subst hout
              rw [Function.update_self]
              constructor
              · intro hnone
                cases hnone
              · rintro ⟨found, hfound, hsame⟩
                rw [getElem?_erase_eq] at hfound
                split at hfound
                · cases hfound
                · rename_i hne
                  exact absurd (list.collateral_injective hold hfound hsame.symm) hne
            · rw [Function.update_of_ne hout, list.indexed]
              constructor
              · rintro ⟨found, hfound, hsame⟩
                refine ⟨found, ?_, hsame⟩
                rw [getElem?_erase_eq, if_neg]
                · exact hfound
                · rintro rfl
                  rw [hold] at hfound
                  cases hfound
                  exact hout hsame.symm
              · rintro ⟨found, hfound, hsame⟩
                rw [getElem?_erase_eq] at hfound
                split at hfound
                · cases hfound
                · exact ⟨found, hfound, hsame⟩ }

/-! ## What the operations do to the map -/

structure Becomes (before after : CDroneList) (lookup : Uint160 → Option CDroneEntry) : Prop where
  blockHash : after.blockHash = before.blockHash
  nHeight : after.nHeight = before.nHeight
  lookup : ∀ pkh : Uint160, after.droneMap[pkh]? = lookup pkh

variable {list : CDroneList} {entry : CDroneEntry}

theorem addDrone_becomes {added : CDroneList} (hadd : list.addDrone entry = some added) :
    Becomes list added (fun pkh =>
      if entry.blsPubKeyHash = pkh then some entry else list.droneMap[pkh]?) := by
  unfold addDrone at hadd
  split at hadd
  · split at hadd
    · cases hadd
      exact ⟨rfl, rfl, fun pkh => getElem?_insert_eq list.droneMap _ pkh entry⟩
    · cases hadd
  · cases hadd

theorem addDrone_isSome (hkey : list.droneMap[entry.blsPubKeyHash]? = none)
    (hcollateral : ∀ (pkh : Uint160) (other : CDroneEntry), list.droneMap[pkh]? = some other →
      other.collateralOutpoint ≠ entry.collateralOutpoint) :
    ∃ added, list.addDrone entry = some added := by
  have hindex : list.collateralIndex entry.collateralOutpoint = none := by
    cases hfound : list.collateralIndex entry.collateralOutpoint with
    | none => rfl
    | some pkh =>
      obtain ⟨other, hother, hsame⟩ := (list.indexed _ _).mp hfound
      exact absurd hsame (hcollateral pkh other hother)
  unfold addDrone
  rw [dif_pos hkey, dif_pos hindex]
  exact ⟨_, rfl⟩

theorem updateDrone_becomes {updated : CDroneList} (hupdate : list.updateDrone entry = some updated) :
    Becomes list updated (fun pkh =>
      if entry.blsPubKeyHash = pkh then some entry else list.droneMap[pkh]?) := by
  unfold updateDrone at hupdate
  split at hupdate
  · cases hupdate
  · split at hupdate
    · cases hupdate
      exact ⟨rfl, rfl, fun pkh => getElem?_insert_eq list.droneMap _ pkh entry⟩
    · cases hupdate

theorem updateDrone_isSome {old : CDroneEntry}
    (hold : list.droneMap[entry.blsPubKeyHash]? = some old) (himmutable : SameImmutables old entry) :
    ∃ updated, list.updateDrone entry = some updated := by
  unfold updateDrone
  split
  · rename_i hnone
    rw [hold] at hnone
    cases hnone
  · rename_i found hfound
    rw [hold] at hfound
    cases hfound
    rw [dif_pos himmutable]
    exact ⟨_, rfl⟩

theorem removeDrone_becomes {removed : CDroneList} {pubKeyHash : Uint160}
    (hremove : list.removeDrone pubKeyHash = some removed) :
    Becomes list removed (fun pkh =>
      if pubKeyHash = pkh then none else list.droneMap[pkh]?) := by
  unfold removeDrone at hremove
  split at hremove
  · cases hremove
  · cases hremove
    exact ⟨rfl, rfl, fun pkh => getElem?_erase_eq list.droneMap pubKeyHash pkh⟩

theorem removeDrone_isSome {pubKeyHash : Uint160} {old : CDroneEntry}
    (hold : list.droneMap[pubKeyHash]? = some old) :
    ∃ removed, list.removeDrone pubKeyHash = some removed := by
  unfold removeDrone
  split
  · rename_i hnone
    rw [hold] at hnone
    cases hnone
  · exact ⟨_, rfl⟩

def forEach {α : Type} (operation : CDroneList → α → Option CDroneList) (list : CDroneList) :
    List α → Option CDroneList
  | [] => some list
  | item :: rest =>
      match operation list item with
      | none => none
      | some next => forEach operation next rest

theorem forEach_preserves {α : Type} {operation : CDroneList → α → Option CDroneList}
    {property : CDroneList → Prop}
    (preserved : ∀ list item next, property list → operation list item = some next →
      property next) {after : CDroneList} {items : List α} (hlist : property list)
    (hloop : forEach operation list items = some after) : property after := by
  induction items generalizing list with
  | nil =>
    cases hloop
    exact hlist
  | cons item rest ih =>
    simp only [forEach] at hloop
    split at hloop
    · cases hloop
    · rename_i next hnext
      exact ih (preserved list item next hlist hnext) hloop

end CDroneList

end Kerrigan.Drone
