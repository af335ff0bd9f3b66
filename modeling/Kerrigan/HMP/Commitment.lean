import Kerrigan.HMP.Block
import Kerrigan.Lib.OrdMap

/-!
# The commitment registry

`CHMPCommitmentRegistry` records the height at which a key was first committed, by mining
a block or by an explicit commitment, and forgets commitments that are too old.  Its height
index is kept as the inverse of the commitments by every operation, so the registry
carries that fact as a field.
-/

namespace Kerrigan.HMP

open Primitives Consensus Lib

structure CHMPCommitmentRegistry where
  commitments : Std.ExtTreeMap CBLSPublicKey Int
  heightIndex : Std.ExtTreeMap Int (List CBLSPublicKey)
  indexed : ∀ (pk : CBLSPublicKey) (height : Int),
    commitments[pk]? = some height ↔ pk ∈ heightIndex[height]?.getD []

namespace CHMPCommitmentRegistry

def empty : CHMPCommitmentRegistry where
  commitments := ∅
  heightIndex := ∅
  indexed := by simp

variable (params : Params) (registry : CHMPCommitmentRegistry) (height : Int) (drop : Int → Bool)
  (minerPubKey : CBLSPublicKey) (explicitCommitments : List CBLSPublicKey)
  (pk found : CBLSPublicKey)

def commit : CHMPCommitmentRegistry :=
  if hfresh : pk.IsValid ∧ registry.commitments[pk]? = none then
    { commitments := registry.commitments.insert pk height
      heightIndex := registry.heightIndex.insert height
        (registry.heightIndex[height]?.getD [] ++ [pk])
      indexed := by
        intro other found
        have hindexed := registry.indexed other found
        rw [getElem?_insert_eq, getElem?_insert_eq]
        by_cases hkey : pk = other
        · subst hkey
          rw [if_pos rfl, Option.some.injEq]
          by_cases hheight : height = found
          · simp [hheight]
          · rw [if_neg hheight, ← hindexed, hfresh.2]
            simp [hheight]
        · rw [if_neg hkey]
          by_cases hheight : height = found
          · subst hheight
            simp [hindexed, Ne.symm hkey]
          · rw [if_neg hheight, hindexed] }
  else registry

def heightsAt : List Int :=
  (registry.heightIndex.toList.map Prod.fst).filter drop

def keysAt : List CBLSPublicKey :=
  (registry.heightsAt drop).flatMap (fun height => registry.heightIndex[height]?.getD [])

theorem mem_heightsAt {registry : CHMPCommitmentRegistry} {drop : Int → Bool} {height : Int} :
    height ∈ registry.heightsAt drop ↔
      (∃ keys, registry.heightIndex[height]? = some keys) ∧ drop height := by
  simp only [heightsAt, List.mem_filter, List.mem_map, Prod.exists, exists_eq_right,
    exists_and_right, Std.ExtTreeMap.mem_toList_iff_getElem?_eq_some]

theorem mem_keysAt {registry : CHMPCommitmentRegistry} {drop : Int → Bool} {pk : CBLSPublicKey} :
    pk ∈ registry.keysAt drop ↔
      ∃ height, registry.commitments[pk]? = some height ∧ drop height := by
  simp only [keysAt, List.mem_flatMap, mem_heightsAt, registry.indexed]
  constructor
  · rintro ⟨height, ⟨_, hdrop⟩, hmem⟩
    exact ⟨height, hmem, hdrop⟩
  · rintro ⟨height, hmem, hdrop⟩
    refine ⟨height, ⟨?_, hdrop⟩, hmem⟩
    cases hkeys : registry.heightIndex[height]? with
    | none =>
      rw [hkeys] at hmem
      cases hmem
    | some keys => exact ⟨keys, rfl⟩

def eraseWhere : CHMPCommitmentRegistry where
  commitments := (registry.keysAt drop).foldl (fun map pk => map.erase pk) registry.commitments
  heightIndex := (registry.heightsAt drop).foldl (fun map height => map.erase height)
    registry.heightIndex
  indexed := by
    intro pk height
    rw [getElem?_foldl_erase, getElem?_foldl_erase]
    by_cases hheight : height ∈ registry.heightsAt drop
    · rw [if_pos hheight]
      split
      · simp
      · rename_i hkept
        rw [mem_keysAt] at hkept
        push Not at hkept
        constructor
        · intro hfound
          exact absurd (mem_heightsAt.mp hheight).2 (hkept height hfound)
        · intro hmem
          cases hmem
    · rw [if_neg hheight, ← registry.indexed pk height]
      split
      · rename_i hdropped
        obtain ⟨found, hfound, hdrop⟩ := mem_keysAt.mp hdropped
        constructor
        · intro hnone
          cases hnone
        · intro hsame
          refine absurd (mem_heightsAt.mpr ⟨?_, ?_⟩) hheight
          · have hmem := (registry.indexed pk height).mp hsame
            cases hkeys : registry.heightIndex[height]? with
            | none =>
                rw [hkeys] at hmem
                cases hmem
            | some keys => exact ⟨keys, rfl⟩
          · rw [hfound, Option.some.injEq] at hsame
            exact hsame ▸ hdrop
      · rfl

def evictOld (currentHeight maxAge : Int) : CHMPCommitmentRegistry :=
  let cutoff := currentHeight - maxAge
  if cutoff ≤ 0 then registry else registry.eraseWhere (fun height => height < cutoff)

def evictionWindow : Int :=
  params.nHMPDominanceCatchMaxLookback + params.nHMPPrivilegeWindow

def blockConnected : CHMPCommitmentRegistry :=
  let committed := explicitCommitments.foldl (fun registry pk => registry.commit height pk)
    (registry.commit height minerPubKey)
  if evictionWindow params < height then committed.evictOld height (evictionWindow params)
  else committed

def blockDisconnected : CHMPCommitmentRegistry :=
  registry.eraseWhere (fun committed => height ≤ committed)

def isCommitted (pubkey : CBLSPublicKey) (atHeight : Int) : Bool :=
  if params.nHMPCommitmentOffset = 0 then true
  else
    match registry.commitments[pubkey]? with
    | none => false
    | some height => params.nHMPCommitmentOffset ≤ atHeight - height

/-! ## Lookups -/

def committedAt : Option Int :=
  registry.commitments[pk]?

theorem commit_committedAt : (registry.commit height pk).committedAt found =
      if pk.IsValid ∧ pk = found ∧ registry.committedAt found = none then some height
      else registry.committedAt found := by
  unfold commit
  split
  · rename_i hfresh
    rw [committedAt, getElem?_insert_eq]
    by_cases hkey : pk = found
    · subst hkey
      rw [if_pos rfl, if_pos ⟨hfresh.1, rfl, hfresh.2⟩]
    · rw [if_neg hkey, if_neg (fun h => hkey h.2.1)]
      rfl
  · rename_i hknown
    rw [if_neg]
    rintro ⟨hvalid, rfl, hnone⟩
    exact hknown ⟨hvalid, hnone⟩

theorem foldl_commit_committedAt (keys : List CBLSPublicKey) (found : CBLSPublicKey) :
    (keys.foldl (fun registry pk => registry.commit height pk) registry).committedAt found =
      if found ∈ keys ∧ found.IsValid ∧ registry.committedAt found = none then some height
      else registry.committedAt found := by
  induction keys generalizing registry with
  | nil => simp
  | cons pk rest ih =>
    rw [List.foldl_cons, ih, commit_committedAt]
    by_cases hkey : pk = found
    · subst hkey
      by_cases hnone : registry.committedAt pk = none
      · by_cases hvalid : pk.IsValid
        · simp [hnone, hvalid]
        · simp [hvalid]
      · simp [hnone]
    · simp [hkey, Ne.symm hkey]

theorem eraseWhere_committedAt : (registry.eraseWhere drop).committedAt found =
      (registry.committedAt found).filter (fun height => !drop height) := by
  rw [committedAt, eraseWhere, getElem?_foldl_erase]
  change (if found ∈ registry.keysAt drop then none else registry.committedAt found) = _
  cases hfound : registry.committedAt found with
  | none => simp
  | some height =>
    have hmem : found ∈ registry.keysAt drop ↔ drop height := by
      rw [mem_keysAt]
      constructor
      · rintro ⟨other, hother, hdrop⟩
        have hsame : some height = some other := hfound.symm.trans hother
        exact Option.some.inj hsame ▸ hdrop
      · exact fun hdrop => ⟨height, hfound, hdrop⟩
    by_cases hdrop : drop height
    · rw [if_pos (hmem.mpr hdrop), Option.filter_some, if_neg (by simp [hdrop])]
    · rw [if_neg (fun h => hdrop (hmem.mp h)), Option.filter_some, if_pos (by simp [hdrop])]

def CommitsKey : Prop :=
  pk.IsValid ∧ (pk = minerPubKey ∨ pk ∈ explicitCommitments)

instance (minerPubKey : CBLSPublicKey) (explicitCommitments : List CBLSPublicKey)
    (pk : CBLSPublicKey) : Decidable (CommitsKey minerPubKey explicitCommitments pk) :=
  inferInstanceAs (Decidable (_ ∧ _))

/-- A block at the height forgets a commitment made at the earlier height. -/
def Evicts (committed : Int) : Prop :=
  evictionWindow params < height ∧ committed < height - evictionWindow params

instance (params : Params) (height committed : Int) : Decidable (Evicts params height committed) :=
  inferInstanceAs (Decidable (_ ∧ _))

/-- A connected block commits its keys that are not committed yet, and then forgets what is
older than the eviction window. -/
theorem blockConnected_committedAt :
    (registry.blockConnected params height minerPubKey explicitCommitments).committedAt found =
      (if CommitsKey minerPubKey explicitCommitments found ∧ registry.committedAt found = none
        then some height else registry.committedAt found).filter (fun committed =>
          ¬ Evicts params height committed) := by
  have hcommitted : (explicitCommitments.foldl (fun registry pk => registry.commit height pk)
      (registry.commit height minerPubKey)).committedAt found =
      if CommitsKey minerPubKey explicitCommitments found ∧ registry.committedAt found = none
        then some height else registry.committedAt found := by
    rw [foldl_commit_committedAt, commit_committedAt]
    by_cases hnone : registry.committedAt found = none
    · by_cases hvalid : found.IsValid
      · by_cases hminer : found = minerPubKey
        · subst hminer
          simp [CommitsKey, hnone, hvalid]
        · simp [CommitsKey, hnone, hvalid, hminer, Ne.symm hminer]
      · by_cases hminer : found = minerPubKey
        · subst hminer
          simp [CommitsKey, hvalid]
        · simp [CommitsKey, hvalid, Ne.symm hminer]
    · simp [hnone]
  unfold blockConnected
  split
  · rename_i hold
    rw [evictOld, if_neg (by omega), eraseWhere_committedAt, hcommitted]
    have hsame : ∀ committed, (committed < height - evictionWindow params) =
        Evicts params height committed := by
      intro committed
      exact propext ⟨fun h => ⟨hold, h⟩, fun h => h.2⟩
    simp only [hsame, decide_not]
  · rename_i hyoung
    rw [hcommitted]
    cases hresult : (if CommitsKey minerPubKey explicitCommitments found ∧
      registry.committedAt found = none then some height else registry.committedAt found) with
    | none => rfl
    | some committed =>
      have hkept : ¬ Evicts params height committed := fun h => hyoung h.1
      rw [Option.filter_some, if_pos (by simpa using hkept)]

end CHMPCommitmentRegistry

end Kerrigan.HMP
