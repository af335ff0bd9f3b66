import Kerrigan.HMP.Commitment
import Kerrigan.Lib.Run

/-!
# The maps of the commitment registry

The two maps of `CHMPCommitmentRegistry` as the code keeps them: a key is recorded in both when it
is committed, a disconnected block erases the end of the height index and an old block its
beginning, each key by key.
-/

namespace Kerrigan.HMP

open Primitives Consensus Lib List

/-- `m_commitments` and `m_heightIndex`. -/
@[ext] structure CommitmentMaps where
  commitments : Std.ExtTreeMap CBLSPublicKey Int
  heightIndex : Std.ExtTreeMap Int (List CBLSPublicKey)

namespace CommitmentMaps

def empty : CommitmentMaps := ⟨∅, ∅⟩

variable (maps : CommitmentMaps) (height currentHeight maxAge : Int) (minerPubKey : CBLSPublicKey)
  (explicitCommitments : List CBLSPublicKey)

def keysUnder : List CBLSPublicKey :=
  maps.heightIndex[height]?.getD []

/-! ## Operations -/

def commit (height : Int) (maps : CommitmentMaps) (pk : CBLSPublicKey) : CommitmentMaps :=
  if pk.IsValid ∧ maps.commitments[pk]? = none then
    { commitments := maps.commitments.insert pk height
      heightIndex := maps.heightIndex.insert height (maps.keysUnder height ++ [pk]) }
  else maps

def commitBlock : CommitmentMaps :=
  explicitCommitments.foldl (commit height) (maps.commit height minerPubKey)

def eraseEntry (forget : Std.ExtTreeMap CBLSPublicKey Int → CBLSPublicKey →
      Std.ExtTreeMap CBLSPublicKey Int)
    (maps : CommitmentMaps) (entry : Int × List CBLSPublicKey) : CommitmentMaps where
  commitments := entry.2.foldl forget maps.commitments
  heightIndex := maps.heightIndex.erase entry.1

def evictOld : CommitmentMaps :=
  let cutoff := currentHeight - maxAge
  if cutoff ≤ 0 then maps
  else (maps.heightIndex.toList.takeWhile (fun entry => entry.1 < cutoff)).foldl
    (eraseEntry (fun commitments pk => commitments.erase pk)) maps

def blockConnected (window : Int) (maps : CommitmentMaps) (height : Int)
    (minerPubKey : CBLSPublicKey) (explicitCommitments : List CBLSPublicKey) : CommitmentMaps :=
  let committed := maps.commitBlock height minerPubKey explicitCommitments
  if window < height then committed.evictOld height window else committed

def forgetFrom (height : Int) (commitments : Std.ExtTreeMap CBLSPublicKey Int)
    (pk : CBLSPublicKey) : Std.ExtTreeMap CBLSPublicKey Int :=
  if ∃ committed ∈ commitments[pk]?, height ≤ committed then commitments.erase pk else commitments

def blockDisconnected : CommitmentMaps :=
  (maps.heightIndex.toList.dropWhile (fun entry => entry.1 < height)).foldl
    (eraseEntry (forgetFrom height)) maps

/-! ## Lookups -/

section Erase

variable {forget : Std.ExtTreeMap CBLSPublicKey Int → CBLSPublicKey →
  Std.ExtTreeMap CBLSPublicKey Int} (maps : CommitmentMaps)

theorem foldl_eraseEntry (entries : List (Int × List CBLSPublicKey)) :
    entries.foldl (eraseEntry forget) maps =
      { commitments := (entries.flatMap Prod.snd).foldl forget maps.commitments
        heightIndex := (entries.map Prod.fst).foldl (fun index height => index.erase height)
          maps.heightIndex } := by
  induction entries generalizing maps with
  | nil => rfl
  | cons entry rest ih =>
    rw [foldl_cons, ih, flatMap_cons, foldl_append, map_cons,
      foldl_cons]
    rfl

theorem mem_flatMap_filter (select : Int → Bool) (pk : CBLSPublicKey) :
    pk ∈ (maps.heightIndex.toList.filter (fun entry => select entry.1)).flatMap Prod.snd ↔
      ∃ height, pk ∈ maps.keysUnder height ∧ select height := by
  unfold keysUnder
  simp only [mem_flatMap, mem_filter, Prod.exists,
    Std.ExtTreeMap.mem_toList_iff_getElem?_eq_some]
  constructor
  · rintro ⟨height, keys, ⟨hfound, hselect⟩, hmem⟩
    exact ⟨height, by rwa [hfound], hselect⟩
  · rintro ⟨height, hmem, hselect⟩
    cases hfound : maps.heightIndex[height]? with
    | none =>
      rw [hfound] at hmem
      cases hmem
    | some keys =>
      rw [hfound] at hmem
      exact ⟨height, keys, ⟨hfound, hselect⟩, hmem⟩

theorem getElem?_erase_selected (select : Int → Bool) (height : Int) :
    (((maps.heightIndex.toList.filter (fun entry => select entry.1)).map Prod.fst).foldl
        (fun index height => index.erase height) maps.heightIndex)[height]? =
      if select height then none else maps.heightIndex[height]? := by
  have hkeys : (maps.heightIndex.toList.filter (fun entry => select entry.1)).map Prod.fst =
      maps.heightIndex.keys.filter select := by
    rw [← Std.ExtTreeMap.map_fst_toList_eq_keys, filter_map]
    rfl
  rw [hkeys, getElem?_foldl_erase_filter]

end Erase

theorem ordered_heightIndex :
    maps.heightIndex.toList.Pairwise (fun first second => first.1 < second.1) :=
  maps.heightIndex.ordered_keys_toList.imp (fun hless => by simpa [compare_lt_iff_lt] using hless)

theorem getElem?_forgetFrom (height : Int) (commitments : Std.ExtTreeMap CBLSPublicKey Int)
    (key pk : CBLSPublicKey) :
    (forgetFrom height commitments key)[pk]? =
      if key = pk then commitments[pk]?.filter (fun committed => committed < height)
      else commitments[pk]? := by
  unfold forgetFrom
  split
  · rename_i hlate
    rw [getElem?_erase_eq]
    split
    · rename_i hkey
      subst hkey
      obtain ⟨committed, hfound, hheight⟩ := hlate
      rw [hfound, Option.filter_some, if_neg (by simpa using hheight)]
    · rfl
  · rename_i hearly
    split
    · rename_i hkey
      subst hkey
      cases hfound : commitments[key]? with
      | none => rfl
      | some committed =>
        have hbelow : committed < height := by
          by_contra hlate
          exact hearly ⟨committed, hfound, Int.not_lt.mp hlate⟩
        rw [Option.filter_some, if_pos (by simpa using hbelow)]
    · rfl

theorem getElem?_foldl_forgetFrom (height : Int) (commitments : Std.ExtTreeMap CBLSPublicKey Int)
    (keys : List CBLSPublicKey) (pk : CBLSPublicKey) :
    (keys.foldl (forgetFrom height) commitments)[pk]? =
      if pk ∈ keys then commitments[pk]?.filter (fun committed => committed < height)
      else commitments[pk]? := by
  induction keys generalizing commitments with
  | nil => simp
  | cons key rest ih =>
    rw [foldl_cons, ih, getElem?_forgetFrom]
    by_cases hkey : key = pk
    · subst hkey
      by_cases hrest : key ∈ rest
      · simp [hrest, Option.filter_filter]
      · simp [hrest]
    · by_cases hrest : pk ∈ rest
      · simp [hkey, hrest]
      · simp [hkey, hrest, Ne.symm hkey]

/-- A disconnected height takes out of the commitments the keys that are recorded and listed from it
on, and out of the index the entries from it on. -/
theorem blockDisconnected_lookup :
    (∀ pk committed, (maps.blockDisconnected height).commitments[pk]? = some committed ↔
      maps.commitments[pk]? = some committed ∧
        (height ≤ committed → ∀ listed, pk ∈ maps.keysUnder listed → listed < height)) ∧
    ∀ listed, (maps.blockDisconnected height).heightIndex[listed]? =
      if height ≤ listed then none else maps.heightIndex[listed]? := by
  have hscan : maps.heightIndex.toList.dropWhile (fun entry => entry.1 < height) =
      maps.heightIndex.toList.filter (fun entry => decide (height ≤ entry.1)) := by
    rw [dropWhile_eq_filter_of_pairwise maps.ordered_heightIndex]
    · simp only [← decide_not, Int.not_lt]
    · intro first second hless hsecond
      simp only [decide_eq_true_eq] at hsecond ⊢
      omega
  unfold blockDisconnected
  rw [hscan, foldl_eraseEntry]
  constructor
  · intro pk committed
    have hlisted := maps.mem_flatMap_filter (fun listed => decide (height ≤ listed)) pk
    simp only [decide_eq_true_eq] at hlisted
    rw [getElem?_foldl_forgetFrom]
    split
    · rename_i hmem
      obtain ⟨listed, hunder, hlate⟩ := hlisted.mp hmem
      rw [Option.filter_eq_some_iff, decide_eq_true_eq]
      constructor
      · rintro ⟨hfound, hbelow⟩
        exact ⟨hfound, fun habove => absurd hbelow (Int.not_lt.mpr habove)⟩
      · rintro ⟨hfound, hlisted⟩
        refine ⟨hfound, Int.not_le.mp (fun habove => ?_)⟩
        exact absurd (hlisted habove listed hunder) (Int.not_lt.mpr hlate)
    · rename_i habsent
      refine (and_iff_left ?_).symm
      intro _ listed hunder
      exact Int.not_le.mp (fun hlate => habsent (hlisted.mpr ⟨listed, hunder, hlate⟩))
  · intro listed
    rw [maps.getElem?_erase_selected (fun listed => decide (height ≤ listed))]
    simp only [decide_eq_true_eq]

/-- An eviction takes out of the commitments the keys that are listed below the cutoff, and out of the
index the entries below it. -/
theorem evictOld_lookup :
    (∀ pk committed, (maps.evictOld currentHeight maxAge).commitments[pk]? = some committed ↔
      maps.commitments[pk]? = some committed ∧
        (0 < currentHeight - maxAge →
          ∀ listed, pk ∈ maps.keysUnder listed → currentHeight - maxAge ≤ listed)) ∧
    ∀ listed, (maps.evictOld currentHeight maxAge).heightIndex[listed]? =
      if 0 < currentHeight - maxAge ∧ listed < currentHeight - maxAge then none
      else maps.heightIndex[listed]? := by
  unfold evictOld
  by_cases hyoung : currentHeight - maxAge ≤ 0
  · rw [if_pos hyoung]
    refine ⟨fun pk committed => (and_iff_left (fun hold => ?_)).symm, fun listed => ?_⟩
    · exact absurd hold (Int.not_lt.mpr hyoung)
    · rw [if_neg (fun hold => absurd hold.1 (Int.not_lt.mpr hyoung))]
  · have hold : 0 < currentHeight - maxAge := Int.not_le.mp hyoung
    have hscan : maps.heightIndex.toList.takeWhile
          (fun entry => entry.1 < currentHeight - maxAge) =
        maps.heightIndex.toList.filter
          (fun entry => decide (entry.1 < currentHeight - maxAge)) := by
      apply takeWhile_eq_filter_of_pairwise maps.ordered_heightIndex
      intro first second hless hsecond
      simp only [decide_eq_true_eq] at hsecond ⊢
      omega
    rw [if_neg hyoung, hscan, foldl_eraseEntry]
    constructor
    · intro pk committed
      have hlisted := maps.mem_flatMap_filter
        (fun listed => decide (listed < currentHeight - maxAge)) pk
      simp only [decide_eq_true_eq] at hlisted
      rw [getElem?_foldl_erase]
      split
      · rename_i hmem
        obtain ⟨listed, hunder, hearly⟩ := hlisted.mp hmem
        refine iff_of_false (fun hnone => by cases hnone) ?_
        rintro ⟨-, hkept⟩
        exact absurd (hkept hold listed hunder) (Int.not_le.mpr hearly)
      · rename_i habsent
        refine (and_iff_left ?_).symm
        intro _ listed hunder
        exact Int.not_lt.mp (fun hearly => habsent (hlisted.mpr ⟨listed, hunder, hearly⟩))
    · intro listed
      rw [maps.getElem?_erase_selected (fun listed => decide (listed < currentHeight - maxAge))]
      simp only [decide_eq_true_eq, hold, true_and]

/-! ## The index is exact -/

/-- Every recorded key is listed once under its height, and no other key is listed. -/
def Exact : Prop :=
  ∀ (pk : CBLSPublicKey) (height : Int),
    (maps.keysUnder height).count pk = if maps.commitments[pk]? = some height then 1 else 0

variable {maps}

variable {height} in
theorem Exact.mem_iff (hexact : maps.Exact) {pk : CBLSPublicKey} :
    pk ∈ maps.keysUnder height ↔ maps.commitments[pk]? = some height := by
  have hcount := hexact pk height
  rw [← count_pos_iff, hcount]
  split <;> simp [*]

theorem exact_empty : empty.Exact := by
  intro pk height
  simp [empty, keysUnder]

variable {next : CommitmentMaps}

section

variable (hexact : maps.Exact)

include hexact

theorem Exact.restrict {drop : Int → Prop} [DecidablePred drop]
    (hcommitments : ∀ (pk : CBLSPublicKey) (committed : Int),
      next.commitments[pk]? = some committed ↔
        maps.commitments[pk]? = some committed ∧ ¬ drop committed)
    (hindex : ∀ listed : Int, next.heightIndex[listed]? =
      if drop listed then none else maps.heightIndex[listed]?) : next.Exact := by
  intro pk height
  have hcount := hexact pk height
  unfold keysUnder at hcount ⊢
  rw [hindex]
  simp only [hcommitments]
  by_cases hdrop : drop height
  · simp [hdrop]
  · simp [hdrop, hcount]

theorem Exact.commit (pk : CBLSPublicKey) :
    (maps.commit height pk).Exact := by
  unfold CommitmentMaps.commit
  split
  · rename_i hfresh
    intro other listed
    have hcount := hexact other listed
    unfold keysUnder at hcount ⊢
    rw [getElem?_insert_eq, getElem?_insert_eq]
    by_cases hheight : height = listed
    · subst hheight
      by_cases hkey : pk = other
      · subst hkey
        rw [hfresh.2] at hcount
        simpa [keysUnder] using hcount
      · simpa [keysUnder, hkey, count_append, count_singleton] using hcount
    · by_cases hkey : pk = other
      · subst hkey
        rw [hfresh.2] at hcount
        simpa [hheight] using hcount
      · simpa [hheight, hkey] using hcount
  · exact hexact

theorem Exact.commitBlock :
    (maps.commitBlock height minerPubKey explicitCommitments).Exact := by
  refine foldlRecOn _ _ (hexact.commit height minerPubKey) ?_
  intro next hnext pk _
  exact hnext.commit height pk

theorem Exact.evictOld : (maps.evictOld currentHeight maxAge).Exact := by
  obtain ⟨hcommitments, hindex⟩ := maps.evictOld_lookup currentHeight maxAge
  refine hexact.restrict ?_ hindex
  intro pk committed
  rw [hcommitments]
  refine and_congr_right (fun hfound => ?_)
  simp only [hexact.mem_iff, hfound, Option.some.injEq, forall_eq', not_and, Int.not_lt]

theorem Exact.blockConnected (window height : Int)
    (minerPubKey : CBLSPublicKey) (explicitCommitments : List CBLSPublicKey) :
    (maps.blockConnected window height minerPubKey explicitCommitments).Exact := by
  have hcommitted := hexact.commitBlock height minerPubKey explicitCommitments
  unfold CommitmentMaps.blockConnected
  split
  · exact hcommitted.evictOld height window
  · exact hcommitted

theorem Exact.blockDisconnected : (maps.blockDisconnected height).Exact := by
  obtain ⟨hcommitments, hindex⟩ := maps.blockDisconnected_lookup height
  refine hexact.restrict ?_ hindex
  intro pk committed
  rw [hcommitments]
  refine and_congr_right (fun hfound => ?_)
  simp only [hexact.mem_iff, hfound, Option.some.injEq, forall_eq', Int.not_le]
  omega

end

/-! ## Undoing a block -/

structure RecordsAt (height : Int) (maps next : CommitmentMaps) : Prop where
  kept : ∀ (pk : CBLSPublicKey) (committed : Int), maps.commitments[pk]? = some committed →
    next.commitments[pk]? = some committed
  origin : ∀ (pk : CBLSPublicKey) (committed : Int), next.commitments[pk]? = some committed →
    maps.commitments[pk]? = some committed ∨
      committed = height ∧ pk ∈ next.keysUnder height
  others : ∀ listed, listed ≠ height → next.heightIndex[listed]? = maps.heightIndex[listed]?

theorem RecordsAt.refl (maps : CommitmentMaps) : RecordsAt height maps maps :=
  ⟨fun _ _ hfound => hfound, fun _ _ hfound => Or.inl hfound, fun _ _ => rfl⟩

variable {height} in
theorem RecordsAt.commit (hrecords : RecordsAt height maps next) (pk : CBLSPublicKey) :
    RecordsAt height maps (next.commit height pk) := by
  unfold CommitmentMaps.commit
  split
  · rename_i hfresh
    refine ⟨?_, ?_, ?_⟩
    · intro other committed hfound
      have hbefore := hrecords.kept other committed hfound
      have hkey : pk ≠ other := by
        rintro rfl
        rw [hfresh.2] at hbefore
        cases hbefore
      rw [getElem?_insert_eq, if_neg hkey]
      exact hbefore
    · intro other committed hfound
      rw [keysUnder, getElem?_insert_eq, if_pos rfl, Option.getD_some]
      rcases getElem?_insert_cases hfound with ⟨rfl, rfl⟩ | ⟨-, hbefore⟩
      · exact Or.inr ⟨rfl, by simp⟩
      · rcases hrecords.origin other committed hbefore with hold | ⟨hheight, hlisted⟩
        · exact Or.inl hold
        · exact Or.inr ⟨hheight, mem_append_left _ hlisted⟩
    · intro listed hother
      rw [getElem?_insert_eq, if_neg (Ne.symm hother)]
      exact hrecords.others listed hother
  · exact hrecords

variable (maps) in
theorem commitBlock_recordsAt :
    RecordsAt height maps (maps.commitBlock height minerPubKey explicitCommitments) := by
  refine foldlRecOn _ _ ((RecordsAt.refl height maps).commit minerPubKey) ?_
  intro next hnext pk _
  exact hnext.commit pk

variable {height} in
theorem RecordsAt.undo (hrecords : RecordsAt height maps next)
    (hcommitted : ∀ (pk : CBLSPublicKey) (committed : Int),
      maps.commitments[pk]? = some committed → committed < height)
    (hlisted : ∀ (listed : Int) (keys : List CBLSPublicKey),
      maps.heightIndex[listed]? = some keys → listed < height) :
    next.blockDisconnected height = maps := by
  obtain ⟨hcommitments, hindex⟩ := next.blockDisconnected_lookup height
  apply CommitmentMaps.ext
  · apply Std.ExtTreeMap.ext_getElem?
    intro pk
    apply Option.ext
    intro committed
    rw [hcommitments]
    constructor
    · rintro ⟨hfound, hkept⟩
      rcases hrecords.origin pk committed hfound with hold | ⟨rfl, hunder⟩
      · exact hold
      · exact absurd (hkept le_rfl _ hunder) (Int.lt_irrefl _)
    · intro hold
      refine ⟨hrecords.kept pk committed hold, ?_⟩
      intro hlate
      exact absurd (hcommitted pk committed hold) (Int.not_lt.mpr hlate)
  · apply Std.ExtTreeMap.ext_getElem?
    intro listed
    rw [hindex]
    split
    · rename_i hlate
      cases hfound : maps.heightIndex[listed]? with
      | none => rfl
      | some keys => exact absurd (hlisted listed keys hfound) (Int.not_lt.mpr hlate)
    · exact hrecords.others listed (by omega)

end CommitmentMaps

/-! ## Calls -/

inductive RegistryCall where
  | blockConnected (height : Int) (minerPubKey : CBLSPublicKey)
      (explicitCommitments : List CBLSPublicKey)
  | blockDisconnected (height : Int)

def registryStep (window : Int) (maps : CommitmentMaps) : RegistryCall → CommitmentMaps
  | .blockConnected height minerPubKey explicitCommitments =>
      maps.blockConnected window height minerPubKey explicitCommitments
  | .blockDisconnected height => maps.blockDisconnected height

theorem CommitmentMaps.Exact.call {maps : CommitmentMaps} (hexact : maps.Exact) (window : Int)
    (call : RegistryCall) : (registryStep window maps call).Exact := by
  cases call with
  | blockConnected height minerPubKey explicitCommitments =>
    exact hexact.blockConnected window height minerPubKey explicitCommitments
  | blockDisconnected height => exact hexact.blockDisconnected height

/-- After any calls, whatever their heights, the index lists every committed key once under its height
and no other key; and disconnecting a block above everything recorded, whose connection evicted
nothing, restores both maps. -/
theorem registry_maps_exact (window : Int) (calls : List RegistryCall) :
    Always (registryStep window) (fun maps => ∀ (pk : CBLSPublicKey) (height : Int),
        (maps.heightIndex[height]?.getD []).count pk =
          if maps.commitments[pk]? = some height then 1 else 0) CommitmentMaps.empty calls ∧
      ∀ (maps : CommitmentMaps) (height : Int) (minerPubKey : CBLSPublicKey)
        (explicitCommitments : List CBLSPublicKey),
        (∀ (pk : CBLSPublicKey) (committed : Int),
          maps.commitments[pk]? = some committed → committed < height) →
        (∀ (listed : Int) (keys : List CBLSPublicKey),
          maps.heightIndex[listed]? = some keys → listed < height) →
        maps.blockConnected window height minerPubKey explicitCommitments =
          maps.commitBlock height minerPubKey explicitCommitments →
        (maps.blockConnected window height minerPubKey explicitCommitments).blockDisconnected
          height = maps := by
  constructor
  · have hstep : ∀ (maps : CommitmentMaps) call, maps.Exact → (registryStep window maps call).Exact :=
      fun _ call hexact => hexact.call window call
    exact always_of_preserved hstep CommitmentMaps.exact_empty calls
  · intro maps height minerPubKey explicitCommitments hcommitted hlisted hkept
    rw [hkept]
    exact (maps.commitBlock_recordsAt height minerPubKey explicitCommitments).undo hcommitted hlisted

/-- A key is committed at height 5, evicted at height 9, committed again by an older block and twice
in one block. -/
def RegistryCall.replayed : List RegistryCall :=
  [.blockConnected 5 1 [2], .blockConnected 9 3 [], .blockConnected 7 1 [2, 2],
    .blockDisconnected 9]

theorem registry_maps_exact_replayed :
    (run (registryStep 3) CommitmentMaps.empty RegistryCall.replayed).heightIndex[(7 : Int)]? =
        some [1, 2] ∧
      let maps : CommitmentMaps := ⟨{(9, 1)}, {(1, [9])}⟩
      (maps.blockConnected 3 2 1 [2, 9]).blockDisconnected 2 = maps := by
  refine ⟨by decide +kernel, ?_⟩
  have hregistry := registry_maps_exact 3 RegistryCall.replayed
  refine hregistry.2 _ 2 1 [2, 9] ?_ ?_ rfl
  · intro pk committed hfound
    simp [Std.ExtTreeMap.getElem?_insert] at hfound
    omega
  · intro listed keys hfound
    simp [Std.ExtTreeMap.getElem?_insert] at hfound
    omega

/-! ## The registry with its index -/

namespace CHMPCommitmentRegistry

variable (params : Params) (registry : CHMPCommitmentRegistry) (height : Int)

def maps : CommitmentMaps :=
  ⟨registry.commitments, registry.heightIndex⟩

theorem maps_commit (pk : CBLSPublicKey) :
    (registry.commit height pk).maps = registry.maps.commit height pk := by
  unfold commit CommitmentMaps.commit
  by_cases hfresh : pk.IsValid ∧ registry.maps.commitments[pk]? = none
  · rw [if_pos hfresh]
    exact congrArg maps (dif_pos hfresh)
  · rw [if_neg hfresh]
    exact congrArg maps (dif_neg hfresh)

theorem maps_eraseWhere {registry : CHMPCommitmentRegistry} {drop : Int → Bool}
    {next : CommitmentMaps}
    (hcommitments : ∀ (pk : CBLSPublicKey) (committed : Int),
      next.commitments[pk]? = some committed ↔
        registry.commitments[pk]? = some committed ∧ ¬ drop committed)
    (hindex : ∀ listed : Int, next.heightIndex[listed]? =
      if drop listed then none else registry.heightIndex[listed]?) :
    (registry.eraseWhere drop).maps = next := by
  apply CommitmentMaps.ext
  · apply Std.ExtTreeMap.ext_getElem?
    intro pk
    apply Option.ext
    intro committed
    have hforgotten := eraseWhere_committedAt registry drop pk
    rw [hcommitments]
    change (registry.eraseWhere drop).committedAt pk = some committed ↔ _
    rw [hforgotten, Option.filter_eq_some_iff]
    simp [committedAt]
  · apply Std.ExtTreeMap.ext_getElem?
    intro listed
    have hheights : registry.heightsAt drop =
        (registry.maps.heightIndex.toList.filter (fun entry => drop entry.1)).map Prod.fst :=
      filter_map
    have herased := registry.maps.getElem?_erase_selected drop listed
    rw [← hheights] at herased
    rw [hindex]
    exact herased

theorem mem_keysUnder {pk : CBLSPublicKey} {height : Int} :
    pk ∈ registry.maps.keysUnder height ↔ registry.commitments[pk]? = some height :=
  (registry.indexed pk height).symm

theorem maps_evictOld (currentHeight maxAge : Int) :
    (registry.evictOld currentHeight maxAge).maps = registry.maps.evictOld currentHeight maxAge := by
  obtain ⟨hcommitments, hindex⟩ := registry.maps.evictOld_lookup currentHeight maxAge
  unfold evictOld
  dsimp only
  split
  · rename_i hyoung
    unfold CommitmentMaps.evictOld
    rw [if_pos hyoung]
  · rename_i hold
    have hcutoff : 0 < currentHeight - maxAge := Int.not_le.mp hold
    refine maps_eraseWhere ?_ ?_
    · intro pk committed
      rw [hcommitments]
      refine and_congr_right (fun hfound => ?_)
      have hrecorded : registry.commitments[pk]? = some committed := hfound
      simp only [mem_keysUnder, hrecorded, Option.some.injEq, forall_eq', hcutoff, true_imp_iff,
        decide_eq_true_eq, Int.not_lt]
    · intro listed
      rw [hindex]
      simp only [hcutoff, true_and, decide_eq_true_eq]
      rfl

theorem maps_blockConnected (minerPubKey : CBLSPublicKey) (explicitCommitments : List CBLSPublicKey) :
    (registry.blockConnected params height minerPubKey explicitCommitments).maps =
      registry.maps.blockConnected (evictionWindow params) height minerPubKey
        explicitCommitments := by
  have hcommitted : (explicitCommitments.foldl (fun registry pk => registry.commit height pk)
      (registry.commit height minerPubKey)).maps =
      registry.maps.commitBlock height minerPubKey explicitCommitments := by
    unfold CommitmentMaps.commitBlock
    rw [← maps_commit]
    generalize registry.commit height minerPubKey = start
    induction explicitCommitments generalizing start with
    | nil => rfl
    | cons pk rest ih => rw [foldl_cons, ih, maps_commit, foldl_cons]
  unfold blockConnected CommitmentMaps.blockConnected
  rw [← hcommitted]
  split
  · exact maps_evictOld _ _ _
  · rfl

theorem maps_blockDisconnected :
    (registry.blockDisconnected height).maps = registry.maps.blockDisconnected height := by
  obtain ⟨hcommitments, hindex⟩ := registry.maps.blockDisconnected_lookup height
  refine maps_eraseWhere ?_ ?_
  · intro pk committed
    rw [hcommitments]
    refine and_congr_right (fun hfound => ?_)
    have hrecorded : registry.commitments[pk]? = some committed := hfound
    simp only [mem_keysUnder, hrecorded, Option.some.injEq, forall_eq', decide_eq_true_eq,
      Int.not_le]
    omega
  · intro listed
    rw [hindex]
    simp only [decide_eq_true_eq]
    rfl

def step : RegistryCall → CHMPCommitmentRegistry
  | .blockConnected height minerPubKey explicitCommitments =>
      registry.blockConnected params height minerPubKey explicitCommitments
  | .blockDisconnected height => registry.blockDisconnected height

/-- Along any calls the maps of the code are those of the registry. -/
theorem maps_run (calls : List RegistryCall) : (run (step params) registry calls).maps =
      run (registryStep (evictionWindow params)) registry.maps calls := by
  induction calls generalizing registry with
  | nil => rfl
  | cons call rest ih =>
    rw [run_cons, run_cons, ih]
    cases call with
    | blockConnected height minerPubKey explicitCommitments =>
      exact congrArg (fun next => run _ next rest)
        (maps_blockConnected params registry height minerPubKey explicitCommitments)
    | blockDisconnected height =>
      exact congrArg (fun next => run _ next rest) (maps_blockDisconnected registry height)

end CHMPCommitmentRegistry

end Kerrigan.HMP
