import Kerrigan.Drone.Diff
import Kerrigan.Lib.Stream

/-!
# The drone store

The stored forms of a drone list and of a difference.  Both are read into an object that may hold
something else; the collateral index is not stored but rebuilt entry by entry.
-/

namespace Kerrigan.Drone

open Primitives Lib CDroneList List CDroneEntry

/-! ## Entries -/

def FitsInt (value : Int) : Prop := (Int32.ofInt value).toInt = value

instance (value : Int) : Decidable (FitsInt value) := inferInstanceAs (Decidable (_ = _))

def writeInt (value : Int) : List UInt8 := writeInt32 (Int32.ofInt value)

def readInt : Reader Int := do
  let value ← readInt32
  pure value.toInt

theorem reads_readInt {value : Int} (hfits : FitsInt value) :
    Reads readInt (writeInt value) value :=
  (reads_readInt32 (Int32.ofInt value)).map_eq hfits

namespace CDroneEntry

def serialize (entry : CDroneEntry) : List UInt8 :=
  writeNumber 20 entry.blsPubKeyHash ++ (writeVector entry.payoutScript ++
    (writeNumber 32 entry.collateralOutpoint.hash ++ (writeNumber 4 entry.collateralOutpoint.n ++
    (writeNumber 32 entry.irohNodeId ++ (writeNumber 1 entry.nHardwareClass ++
    (writeNumber 1 entry.nModelTier ++ (writeInt entry.nRegisteredHeight ++
    (writeInt entry.nLastSeenHeight ++ writeInt entry.nLastPaidHeight))))))))

def unserialize : Reader CDroneEntry := do
  let blsPubKeyHash ← readNumber 20
  let payoutScript ← readVector maxSize
  let hash ← readNumber 32
  let n ← readNumber 4
  let irohNodeId ← readNumber 32
  let nHardwareClass ← readNumber 1
  let nModelTier ← readNumber 1
  let nRegisteredHeight ← readInt
  let nLastSeenHeight ← readInt
  let nLastPaidHeight ← readInt
  pure { blsPubKeyHash, payoutScript, collateralOutpoint := ⟨hash, n⟩, irohNodeId, nHardwareClass,
         nModelTier, nRegisteredHeight, nLastSeenHeight, nLastPaidHeight }

/-- The fields have their widths, and the script the length of one that was received. -/
structure Fits (entry : CDroneEntry) : Prop where
  blsPubKeyHash : entry.blsPubKeyHash < 256 ^ 20
  payoutScript : entry.payoutScript.length ≤ maxSize
  hash : entry.collateralOutpoint.hash < 256 ^ 32
  n : entry.collateralOutpoint.n < 256 ^ 4
  irohNodeId : entry.irohNodeId < 256 ^ 32
  nHardwareClass : entry.nHardwareClass < 256 ^ 1
  nModelTier : entry.nModelTier < 256 ^ 1
  nRegisteredHeight : FitsInt entry.nRegisteredHeight
  nLastSeenHeight : FitsInt entry.nLastSeenHeight
  nLastPaidHeight : FitsInt entry.nLastPaidHeight

theorem reads_unserialize {entry : CDroneEntry} (hfits : entry.Fits) :
    Reads unserialize entry.serialize entry := by
  refine (reads_readNumber hfits.blsPubKeyHash).bind ?_
  refine (reads_readVector hfits.payoutScript hfits.payoutScript).bind ?_
  refine (reads_readNumber hfits.hash).bind ?_
  refine (reads_readNumber hfits.n).bind ?_
  refine (reads_readNumber hfits.irohNodeId).bind ?_
  refine (reads_readNumber hfits.nHardwareClass).bind ?_
  refine (reads_readNumber hfits.nModelTier).bind ?_
  refine (reads_readInt hfits.nRegisteredHeight).bind ?_
  refine (reads_readInt hfits.nLastSeenHeight).bind ?_
  exact (reads_readInt hfits.nLastPaidHeight).map _

end CDroneEntry

def maxDroneListEntries : Nat := 100000

def readCount (failure : String) : Reader Nat := do
  let size ← readCompactSize
  ensure (size ≤ maxDroneListEntries) failure
  pure size

theorem reads_readCount {size : Nat} (hlimit : size ≤ maxDroneListEntries) (failure : String) :
    Reads (readCount failure) (writeCompactSize size) size := by
  have hmax : maxDroneListEntries ≤ maxSize := by decide
  refine Reads.bind_last (reads_readCompactSize (hlimit.trans hmax)) ?_
  exact (reads_ensure hlimit failure).bind_nil (Reads.pure size)

/-! ## Lists -/

def entriesOf (map : Std.ExtTreeMap Uint160 CDroneEntry) : List CDroneEntry :=
  map.toList.map Prod.snd

def Keyed (map : Std.ExtTreeMap Uint160 CDroneEntry) : Prop :=
  ∀ (pkh : Uint160) (entry : CDroneEntry), map[pkh]? = some entry → entry.blsPubKeyHash = pkh

variable {map : Std.ExtTreeMap Uint160 CDroneEntry}

theorem mem_entriesOf (hkeyed : Keyed map) {entry : CDroneEntry} :
    entry ∈ entriesOf map ↔ map[entry.blsPubKeyHash]? = some entry := by
  unfold entriesOf
  rw [← filterMap_eq_map, mem_filterMap_toList]
  constructor
  · rintro ⟨pkh, found, hfound, hsame⟩
    cases hsame
    rw [hkeyed pkh found hfound]
    exact hfound
  · intro hfound
    exact ⟨entry.blsPubKeyHash, entry, hfound, rfl⟩

theorem nodup_entriesOf (hkeyed : Keyed map) :
    ((entriesOf map).map blsPubKeyHash).Nodup := by
  have hkeys : ∀ (pkh : Uint160) (entry found : CDroneEntry), map[pkh]? = some entry →
      (some ∘ Prod.snd) (pkh, entry) = some found → found.blsPubKeyHash = pkh := by
    intro pkh entry found hfound hsame
    cases hsame
    exact hkeyed pkh entry hfound
  have hnodup := nodup_filterMap_toList hkeys
  rw [filterMap_eq_map] at hnodup
  exact hnodup

namespace CDroneList

def serialize (list : CDroneList) : List UInt8 :=
  writeNumber 32 list.blockHash ++ (writeInt list.nHeight ++
    writeElements CDroneEntry.serialize (entriesOf list.droneMap))

/-- The entries of the stream, added one by one; adding a known one throws. -/
def readDrones : Nat → CDroneList → Reader CDroneList
  | 0, list => pure list
  | count + 1, list => do
      let entry ← unserialize
      match list.addDrone entry with
      | none => throw "can't add a duplicate drone"
      | some next => readDrones count next

def unserialize (prior : CDroneList) : Reader CDroneList := do
  let cleared := empty prior.blockHash prior.nHeight
  let blockHash ← readNumber 32
  let nHeight ← readInt
  let size ← readCount "CDroneList::droneMap size exceeds limit"
  readDrones size { cleared with blockHash, nHeight }

/-- The members and all entries have their widths. -/
structure Fits (list : CDroneList) : Prop where
  blockHash : list.blockHash < 256 ^ 32
  nHeight : FitsInt list.nHeight
  entries : ∀ (pkh : Uint160) (entry : CDroneEntry), list.droneMap[pkh]? = some entry → entry.Fits

variable {list : CDroneList}

theorem Fits.of_mem (hfits : list.Fits) {entry : CDroneEntry}
    (hmem : entry ∈ entriesOf list.droneMap) : entry.Fits :=
  hfits.entries _ entry ((mem_entriesOf list.keyed).mp hmem)

theorem reads_readDrones {entries : List CDroneEntry} {after : CDroneList}
    (hfits : ∀ entry ∈ entries, entry.Fits) (hadd : forEach addDrone list entries = some after) :
    Reads (readDrones entries.length list) (entries.flatMap CDroneEntry.serialize) after := by
  induction entries generalizing list with
  | nil =>
    cases hadd
    exact Reads.pure _
  | cons entry rest ih =>
    obtain ⟨hentry, hrest⟩ := forall_mem_cons.mp hfits
    have hstep : ∃ next, list.addDrone entry = some next ∧
        forEach addDrone next rest = some after := by
      simp only [forEach] at hadd
      split at hadd
      next => cases hadd
      next next hnext => exact ⟨next, hnext, hadd⟩
    obtain ⟨next, hnext, hadd⟩ := hstep
    refine (reads_unserialize hentry).bind ?_
    rw [hnext]
    exact ih hrest hadd

theorem forEach_addDrone_entriesOf (list : CDroneList) :
    forEach addDrone (empty list.blockHash list.nHeight) (entriesOf list.droneMap) = some list := by
  have hempty : ∀ pkh : Uint160, (empty list.blockHash list.nHeight).droneMap[pkh]? = none := by
    simp [empty]
  have htarget : ∀ entry ∈ entriesOf list.droneMap,
      list.droneMap[entry.blsPubKeyHash]? = some entry :=
    fun entry hmem => (mem_entriesOf list.keyed).mp hmem
  have hcollateral : ∀ entry ∈ entriesOf list.droneMap, ∀ (pkh : Uint160) (other : CDroneEntry),
      (empty list.blockHash list.nHeight).droneMap[pkh]? = some other →
        other.collateralOutpoint ≠ entry.collateralOutpoint := by
    intro entry _ pkh other hfound
    cases hfound
  obtain ⟨after, hadd, hbecomes⟩ := forEach_addDrone (nodup_entriesOf list.keyed) htarget
    (fun entry _ => hempty entry.blsPubKeyHash) hcollateral
  rw [hadd]
  refine congrArg some (ext_of_droneMap hbecomes.blockHash hbecomes.nHeight ?_)
  intro pkh
  rw [hbecomes.lookup]
  split
  next => rfl
  next habsent =>
    cases hfound : list.droneMap[pkh]? with
    | none => exact hempty pkh
    | some entry =>
      have hkey := list.keyed pkh entry hfound
      have hmem : entry ∈ entriesOf list.droneMap := by
        rw [mem_entriesOf list.keyed, hkey, hfound]
      exact absurd (mem_map.mpr ⟨entry, hmem, hkey⟩) habsent

theorem reads_unserialize (hfits : list.Fits)
    (hlimit : (entriesOf list.droneMap).length ≤ maxDroneListEntries) (prior : CDroneList) :
    Reads (unserialize prior) list.serialize list := by
  refine (reads_readNumber hfits.blockHash).bind ?_
  refine (reads_readInt hfits.nHeight).bind ?_
  refine (reads_readCount hlimit _).bind ?_
  exact reads_readDrones (fun _ hmem => hfits.of_mem hmem) (forEach_addDrone_entriesOf list)

end CDroneList

/-! ## Differences -/

def emplaceDrone (map : Std.ExtTreeMap Uint160 CDroneEntry) (entry : CDroneEntry) :
    Std.ExtTreeMap Uint160 CDroneEntry :=
  map.insertIfNew entry.blsPubKeyHash entry

/-- The members of a difference in their containers. -/
structure StoredDiff where
  nHeight : Int
  addedDrones : List CDroneEntry
  updatedDrones : Std.ExtTreeMap Uint160 CDroneEntry
  removedDrones : Std.ExtTreeSet Uint160

/-- The difference with its updated and removed drones put into a map and a set. -/
def CDroneListDiff.stored (diff : CDroneListDiff) : StoredDiff where
  nHeight := diff.nHeight
  addedDrones := diff.addedDrones
  updatedDrones := diff.updatedDrones.foldl emplaceDrone ∅
  removedDrones := diff.removedDrones.foldl (fun set pkh => set.insert pkh) ∅

namespace StoredDiff

def serialize (diff : StoredDiff) : List UInt8 :=
  writeElements CDroneEntry.serialize diff.addedDrones ++
    (writeElements CDroneEntry.serialize (entriesOf diff.updatedDrones) ++
    writeElements (writeNumber 20) diff.removedDrones.toList)

def unserialize (prior : StoredDiff) : Reader StoredDiff := do
  let nAdded ← readCount "CDroneListDiff::addedDrones size exceeds limit"
  let addedDrones ← readElements CDroneEntry.unserialize nAdded
  let nUpdated ← readCount "CDroneListDiff::updatedDrones size exceeds limit"
  let updated ← readElements CDroneEntry.unserialize nUpdated
  let nRemoved ← readCount "CDroneListDiff::removedDrones size exceeds limit"
  let removed ← readElements (readNumber 20) nRemoved
  pure { prior with
    addedDrones
    updatedDrones := updated.foldl emplaceDrone ∅
    removedDrones := removed.foldl (fun set pkh => set.insert pkh) ∅ }

end StoredDiff

theorem getElem?_foldl_emplaceDrone (entries : List CDroneEntry)
    (map : Std.ExtTreeMap Uint160 CDroneEntry) (pkh : Uint160) :
    (entries.foldl emplaceDrone map)[pkh]? =
      map[pkh]?.or (entries.find? (fun entry => entry.blsPubKeyHash = pkh)) := by
  induction entries generalizing map with
  | nil => simp
  | cons entry rest ih =>
    rw [foldl_cons, ih, emplaceDrone, Std.ExtTreeMap.getElem?_insertIfNew, find?_cons]
    by_cases hkey : entry.blsPubKeyHash = pkh
    · subst hkey
      by_cases hmem : entry.blsPubKeyHash ∈ map
      · simp [hmem]
      · simp [hmem]
    · simp [hkey]

theorem keyed_foldl_emplaceDrone (entries : List CDroneEntry) :
    Keyed (entries.foldl emplaceDrone ∅) := by
  intro pkh entry hfound
  rw [getElem?_foldl_emplaceDrone, Std.ExtTreeMap.getElem?_empty, Option.none_or] at hfound
  have hkey := find?_some hfound
  exact of_decide_eq_true hkey

theorem foldl_emplaceDrone_entriesOf (hkeyed : Keyed map) :
    (entriesOf map).foldl emplaceDrone ∅ = map := by
  refine Std.ExtTreeMap.ext_getElem? (fun pkh => ?_)
  rw [getElem?_foldl_emplaceDrone, Std.ExtTreeMap.getElem?_empty, Option.none_or]
  cases hfound : map[pkh]? with
  | none =>
    rw [find?_eq_none]
    intro entry hmem hkey
    rw [mem_entriesOf hkeyed, of_decide_eq_true hkey, hfound] at hmem
    cases hmem
  | some entry =>
    have hkey := hkeyed pkh entry hfound
    cases hfind : (entriesOf map).find? (fun entry => entry.blsPubKeyHash = pkh) with
    | none =>
      have hmem : entry ∈ entriesOf map := by rw [mem_entriesOf hkeyed, hkey, hfound]
      exact absurd (decide_eq_true hkey) (find?_eq_none.mp hfind entry hmem)
    | some other =>
      have hother := (mem_entriesOf hkeyed).mp (mem_of_find?_eq_some hfind)
      have hsame := find?_some hfind
      rw [of_decide_eq_true hsame, hfound] at hother
      exact hother.symm

theorem foldl_insert_toList (set : Std.ExtTreeSet Uint160) :
    set.toList.foldl (fun set pkh => set.insert pkh) ∅ = set := by
  refine Std.ExtTreeSet.ext_mem (fun pkh => ?_)
  rw [mem_foldl_insert, Std.ExtTreeSet.mem_toList]
  simp

theorem reads_counted {α : Type} {element : Reader α} {write : α → List UInt8} {values : List α}
    (hreads : ∀ value ∈ values, Reads element (write value) value)
    (hlimit : values.length ≤ maxDroneListEntries) {β : Type} {next : List α → Reader β}
    {more : List UInt8} {result : β} (failure : String) (hnext : Reads (next values) more result) :
    Reads (readCount failure >>= fun count => readElements element count >>= next)
      (writeElements write values ++ more) result := by
  rw [writeElements, append_assoc]
  exact (reads_readCount hlimit failure).bind ((reads_readElements hreads).bind hnext)

/-- What a difference must satisfy to be read back. -/
structure StoredDiff.Fits (diff : StoredDiff) : Prop where
  added : ∀ entry ∈ diff.addedDrones, entry.Fits
  updated : ∀ entry ∈ entriesOf diff.updatedDrones, entry.Fits
  removed : ∀ pkh ∈ diff.removedDrones, pkh < 256 ^ 20
  keyed : Keyed diff.updatedDrones

/-- No container of the difference has more entries than a list may have. -/
def StoredDiff.WithinLimit (diff : StoredDiff) : Prop :=
  diff.addedDrones.length ≤ maxDroneListEntries ∧
    (entriesOf diff.updatedDrones).length ≤ maxDroneListEntries ∧
    diff.removedDrones.toList.length ≤ maxDroneListEntries

theorem StoredDiff.reads_unserialize {diff : StoredDiff} (hfits : diff.Fits)
    (hlimit : diff.WithinLimit) (prior : StoredDiff) :
    Reads (unserialize prior) diff.serialize { diff with nHeight := prior.nHeight } := by
  obtain ⟨hadded, hupdated, hremoved⟩ := hlimit
  have hkeys : ∀ pkh ∈ diff.removedDrones.toList, Reads (readNumber 20) (writeNumber 20 pkh) pkh :=
    fun pkh hmem => reads_readNumber (hfits.removed pkh (Std.ExtTreeSet.mem_toList.mp hmem))
  have hread : Reads (unserialize prior) diff.serialize
      { prior with
        addedDrones := diff.addedDrones
        updatedDrones := (entriesOf diff.updatedDrones).foldl emplaceDrone ∅
        removedDrones := diff.removedDrones.toList.foldl (fun set pkh => set.insert pkh) ∅ } := by
    refine reads_counted (fun entry hmem => CDroneEntry.reads_unserialize (hfits.added entry hmem))
      hadded _ ?_
    refine reads_counted
      (fun entry hmem => CDroneEntry.reads_unserialize (hfits.updated entry hmem)) hupdated _ ?_
    refine (reads_readCount hremoved _).bind ?_
    exact (reads_readElements hkeys).map _
  rw [foldl_emplaceDrone_entriesOf hfits.keyed, foldl_insert_toList] at hread
  exact hread

theorem fits_buildDiff {list target : CDroneList} (hlist : list.Fits) (htarget : target.Fits) :
    (buildDiff list target).stored.Fits := by
  have hkey : ∀ {source : CDroneList}, source.Fits → ∀ (pkh : Uint160) (entry : CDroneEntry),
      source.droneMap[pkh]? = some entry → pkh < 256 ^ 20 := by
    intro source hfits pkh entry hfound
    rw [← source.keyed pkh entry hfound]
    exact (hfits.entries pkh entry hfound).blsPubKeyHash
  refine ⟨?_, ?_, ?_, keyed_foldl_emplaceDrone _⟩
  · intro entry hmem
    obtain ⟨pkh, found, hfound, hselect⟩ := mem_filterMap_toList.mp hmem
    obtain ⟨-, hsame⟩ := Option.ite_none_right_eq_some.mp hselect
    cases hsame
    exact htarget.entries pkh found hfound
  · intro entry hmem
    have hstored := (mem_entriesOf (keyed_foldl_emplaceDrone _)).mp hmem
    rw [getElem?_foldl_emplaceDrone, Std.ExtTreeMap.getElem?_empty, Option.none_or] at hstored
    obtain ⟨pkh, found, hfound, hselect⟩ :=
      mem_filterMap_toList.mp (mem_of_find?_eq_some hstored)
    obtain ⟨-, hsame⟩ := Option.ite_none_right_eq_some.mp hselect
    cases hsame
    exact htarget.entries pkh found hfound
  · intro pkh hmem
    rcases (mem_foldl_insert _ _ _).mp hmem with hmem | hmem
    · rcases mem_append.mp hmem with hmem | hmem
      · obtain ⟨entry, hfound, -⟩ := mem_selectKeys.mp hmem
        exact hkey htarget pkh entry hfound
      · obtain ⟨entry, hfound, -⟩ := mem_selectKeys.mp hmem
        exact hkey hlist pkh entry hfound
    · simp at hmem

/-- A list and the difference of two lists are read back from what was stored, whatever the object
held; the height of a difference is not stored. -/
theorem drone_store_round_trip {list target : CDroneList} (hlist : list.Fits)
    (htarget : target.Fits) :
    ((entriesOf list.droneMap).length ≤ maxDroneListEntries →
      ∀ prior, (CDroneList.unserialize prior).run list.serialize = .ok (list, [])) ∧
    let diff := (buildDiff list target).stored
    diff.WithinLimit → ∀ prior, (StoredDiff.unserialize prior).run diff.serialize =
      .ok ({ diff with nHeight := prior.nHeight }, []) := by
  refine ⟨fun hlimit prior => ?_, fun hlimit prior => ?_⟩
  · have hread := reads_unserialize hlist hlimit prior []
    rw [append_nil] at hread
    exact hread
  · have hread := StoredDiff.reads_unserialize (fits_buildDiff hlist htarget) hlimit prior []
    rw [append_nil] at hread
    exact hread

namespace Sample

def storedDrone : CDroneEntry := ⟨1, [0x51], ⟨2, 0⟩, 3, 4, 0, 100, 100, 0⟩

theorem fits_storedDrone : storedDrone.Fits :=
  ⟨by decide, by decide, by decide, by decide, by decide, by decide, by decide, by decide,
    by decide, by decide⟩

theorem fits_empty : (empty 5 100).Fits :=
  ⟨by decide, by decide, by simp [empty]⟩

def oneDrone : CDroneList :=
  ((empty 5 100).addDrone storedDrone).getD (empty 5 100)

theorem fits_oneDrone : oneDrone.Fits := by
  have hempty : ∀ pkh : Uint160, (empty 5 100).droneMap[pkh]? = none := by
    simp [empty]
  obtain ⟨list, hadd⟩ := addDrone_isSome (hempty storedDrone.blsPubKeyHash)
    (fun pkh other hfound => by simp [hempty] at hfound)
  have hbecomes := addDrone_becomes hadd
  have hlist : oneDrone = list := by rw [oneDrone, hadd, Option.getD_some]
  rw [hlist]
  refine ⟨?_, ?_, ?_⟩
  · rw [hbecomes.blockHash]
    exact fits_empty.blockHash
  · rw [hbecomes.nHeight]
    exact fits_empty.nHeight
  · intro pkh entry hfound
    rw [hbecomes.lookup] at hfound
    split at hfound
    next =>
      cases hfound
      exact fits_storedDrone
    next => exact fits_empty.entries pkh entry hfound

end Sample

theorem drone_store_round_trip_one :
    (unserialize (empty 8 9)).run Sample.oneDrone.serialize =
        .ok (Sample.oneDrone, []) ∧
      (entriesOf Sample.oneDrone.droneMap).length = 1 :=
  have hone : (entriesOf Sample.oneDrone.droneMap).length = 1 := by decide +kernel
  ⟨(drone_store_round_trip Sample.fits_oneDrone Sample.fits_empty).1
    (hone.trans_le (by decide)) _, hone⟩

/-- A difference that is read into another keeps the height that the other had. -/
theorem read_diff_keeps_height :
    let diff := (buildDiff (empty 5 100) (empty 6 101)).stored
    ((StoredDiff.unserialize { diff with nHeight := 7 }).run diff.serialize).map
        (fun read => (read.1.nHeight, read.2)) = .ok (7, []) ∧ diff.nHeight = -1 :=
  ⟨by decide +kernel, rfl⟩

end Kerrigan.Drone
