import Kerrigan.HMP.SealManager

/-!
# The store of seals

What the operations of the manager do to the stored seals, the order of their insertion and the
index of heights, and which of them leave the seal of a block where the template finds it.
-/

namespace Kerrigan.HMP

open Primitives Consensus Lib CSealManager List CAssembledSeal

/-- The seals that a round of the worker assembles. -/
def assembledNow (context : SealContext) (manager : CSealManager) (now : Int) :
    List CAssembledSeal :=
  manager.sessions.toList.filterMap (fun item => readySeal context now item.2)

/-! ## What the operations do to the store -/

def SameStore (first second : CSealManager) : Prop :=
  first.assembledSeals = second.assembledSeals ∧
    first.sealInsertionOrder = second.sealInsertionOrder ∧
    first.heightToHash = second.heightToHash

variable {manager : CSealManager}

theorem insertShare_sameStore {next : CSealManager} {share : CSealShare}
    (hinsert : manager.insertShare share = .ok next) : SameStore next manager := by
  obtain ⟨session, -, -, rfl⟩ := insertShare_eq_ok hinsert
  exact ⟨rfl, rfl, rfl⟩

theorem withShare_sameStore (manager : CSealManager) (share : CSealShare) :
    SameStore (manager.withShare share) manager := by
  rcases withShare_cases manager share with hsame | ⟨session, -, hnext⟩
  · rw [hsame]
    exact ⟨rfl, rfl, rfl⟩
  · rw [hnext]
    exact ⟨rfl, rfl, rfl⟩

theorem signBlock_sameStore (context : SealContext) (view : TrackerView)
    (manager : CSealManager) (blockHash : Uint256) (algo : Nat) :
    SameStore (manager.signBlock context view blockHash algo).2 manager := by
  rcases signBlock_cases context view manager blockHash algo with
    ⟨⟨hsame, -⟩, -⟩ | ⟨identity, -, -, hsign⟩
  · rw [hsame]
    exact ⟨rfl, rfl, rfl⟩
  · rw [hsign]
    exact ⟨rfl, rfl, rfl⟩

def insertSeals (seals : Std.ExtTreeMap Uint256 CAssembledSeal) (added : List CAssembledSeal) :
    Std.ExtTreeMap Uint256 CAssembledSeal :=
  added.foldl (fun map assembled => map.insert assembled.blockHash assembled) seals

variable {context : SealContext} {now : Int}

theorem foldl_assembleSession (manager : CSealManager) (items : List (Uint256 × CSealSession)) :
    (items.foldl (assembleSession context now) manager).assembledSeals =
        insertSeals manager.assembledSeals
          (items.filterMap (fun item => readySeal context now item.2)) ∧
      (items.foldl (assembleSession context now) manager).sealInsertionOrder =
        manager.sealInsertionOrder ++
          (items.filterMap (fun item => readySeal context now item.2)).map
            blockHash ∧
      (items.foldl (assembleSession context now) manager).heightToHash =
        manager.heightToHash := by
  induction items generalizing manager with
  | nil => simp [insertSeals]
  | cons item rest ih =>
    obtain ⟨hseals, horder, hheights⟩ := ih (assembleSession context now manager item)
    rw [foldl_cons, hseals, horder, hheights]
    cases hready : readySeal context now item.2 with
    | none => simp [assembleSession, hready]
    | some assembled => simp [assembleSession, hready, insertSeals]

variable {seals : Std.ExtTreeMap Uint256 CAssembledSeal} {added : List CAssembledSeal}
  {blockHash : Uint256}

theorem getElem?_insertSeals {found : CAssembledSeal}
    (hfound : (insertSeals seals added)[blockHash]? = some found) :
    (found ∈ added ∧ found.blockHash = blockHash) ∨
      (seals[blockHash]? = some found ∧ ∀ assembled ∈ added, assembled.blockHash ≠ blockHash) := by
  induction added generalizing seals with
  | nil => exact Or.inr ⟨hfound, by simp⟩
  | cons assembled rest ih =>
    rcases ih hfound with ⟨hrest, hhash⟩ | ⟨hbefore, hnone⟩
    · exact Or.inl ⟨mem_cons_of_mem assembled hrest, hhash⟩
    · rw [getElem?_insert_eq] at hbefore
      split at hbefore
      · rename_i hhash
        cases hbefore
        exact Or.inl ⟨mem_cons_self, hhash⟩
      · rename_i hhash
        refine Or.inr ⟨hbefore, ?_⟩
        intro other hother
        rcases mem_cons.mp hother with rfl | hlater
        · exact hhash
        · exact hnone other hlater

theorem isSome_insertSeals
    (hpresent : seals[blockHash]?.isSome ∨ ∃ assembled ∈ added, assembled.blockHash = blockHash) :
    (insertSeals seals added)[blockHash]?.isSome := by
  induction added generalizing seals with
  | nil =>
    rcases hpresent with hseals | ⟨assembled, hmem, -⟩
    · exact hseals
    · cases hmem
  | cons assembled rest ih =>
    refine ih ?_
    rw [getElem?_insert_eq]
    rcases hpresent with hseals | ⟨other, hother, hhash⟩
    · left
      split
      · rfl
      · exact hseals
    · rcases mem_cons.mp hother with rfl | hlater
      · left
        rw [if_pos hhash]
        rfl
      · exact Or.inr ⟨other, hlater, hhash⟩

variable {assembled : CAssembledSeal}

theorem tryAssemble_carriesProofs {session : CSealSession}
    (hassembled : tryAssemble context session = some assembled) :
    assembled.CarriesProofs := by
  unfold tryAssemble at hassembled
  dsimp only at hassembled
  split at hassembled
  · cases hassembled
    simp [CarriesProofs]
  · cases hassembled

theorem assembledNow_carriesProofs (hmem : assembled ∈ assembledNow context manager now) :
    assembled.CarriesProofs := by
  obtain ⟨item, -, hitem⟩ := mem_filterMap.mp hmem
  unfold readySeal at hitem
  split at hitem
  · cases hitem
  · exact tryAssemble_carriesProofs hitem

theorem addAssembledSeal_cases (context : SealContext) (manager : CSealManager)
    (assembled : CAssembledSeal) (height : Int) :
    (manager.addAssembledSeal context assembled height).2 = manager ∨
      (¬ assembled.IsNull ∧ manager.betterKnown assembled height = none ∧
        assembled.signers.Nodup ∧ assembled.Verify context.oracles ∧
        (manager.addAssembledSeal context assembled height).2 =
          manager.storeRelayed assembled height) := by
  unfold addAssembledSeal
  split
  · exact Or.inl rfl
  · rename_i hnull
    cases hbetter : manager.betterKnown assembled height with
    | some result => exact Or.inl rfl
    | none =>
      dsimp only
      split
      · rename_i hverified
        exact Or.inr ⟨hnull, rfl, hverified.2.1, hverified.2.2, rfl⟩
      · exact Or.inl rfl

/-! ## Bookkeeping of the store -/

/-- Heights are mapped to blocks of that height, and every seal is in the insertion order. -/
structure Indexed (heightOf : Uint256 → Int) (manager : CSealManager) : Prop where
  heights : ∀ height hash, manager.heightToHash[height]? = some hash → heightOf hash = height
  recorded : ∀ hash assembled, manager.assembledSeals[hash]? = some assembled →
    hash ∈ manager.sealInsertionOrder

variable {heightOf : Uint256 → Int}

theorem indexed_empty (heightOf : Uint256 → Int) : Indexed heightOf .empty where
  heights := by
    intro height hash hfound
    simp [empty] at hfound
  recorded := by
    intro hash assembled hfound
    simp [empty] at hfound

theorem Indexed.of_sameStore (hindexed : Indexed heightOf manager) {next : CSealManager}
    (hsame : SameStore next manager) : Indexed heightOf next := by
  obtain ⟨hseals, horder, hheights⟩ := hsame
  refine ⟨?_, ?_⟩
  · rw [hheights]
    exact hindexed.heights
  · rw [hseals, horder]
    exact hindexed.recorded

variable {height found : Int} {hash other : Uint256}

section

variable (hindexed : Indexed heightOf manager)

include hindexed

theorem Indexed.insertHeight (hheight : heightOf hash = height)
    (hfound : (manager.heightToHash.insert height hash)[found]? = some other) :
    heightOf other = found := by
  rw [getElem?_insert_eq] at hfound
  split at hfound
  · rename_i hsame
    cases hfound
    rw [hheight, hsame]
  · exact hindexed.heights found other hfound

theorem Indexed.onNewBlock (hheight : heightOf hash = height) (prevSealHash : Uint256) (now : Int) :
    Indexed heightOf (manager.onNewBlock hash height prevSealHash now) := by
  unfold CSealManager.onNewBlock
  split
  · exact hindexed
  · exact ⟨fun _ _ hfound => hindexed.insertHeight hheight hfound, hindexed.recorded⟩

theorem Indexed.blockDisconnected (hash : Uint256)
    (height : Int) : Indexed heightOf (manager.blockDisconnected hash height) := by
  refine ⟨?_, ?_⟩
  · intro found other hfound
    simp only [CSealManager.blockDisconnected] at hfound
    rw [getElem?_erase_eq] at hfound
    split at hfound
    · cases hfound
    · exact hindexed.heights found other hfound
  · intro other assembled hfound
    simp only [CSealManager.blockDisconnected] at hfound ⊢
    rw [getElem?_erase_eq] at hfound
    split at hfound
    · cases hfound
    · rename_i hother
      exact mem_filter.mpr ⟨hindexed.recorded other assembled hfound,
        by simpa using Ne.symm hother⟩

theorem Indexed.cleanupStaleSessions (context : SealContext) (now : Int) :
    Indexed heightOf (manager.cleanupStaleSessions context now) := by
  refine ⟨?_, ?_⟩
  · intro found other hfound
    simp only [CSealManager.cleanupStaleSessions] at hfound
    rw [getElem?_trimLowest] at hfound
    split at hfound
    · cases hfound
    · exact hindexed.heights found other hfound
  · intro other assembled hfound
    exact mem_drop_of_evicted hindexed.recorded hfound

theorem Indexed.assemble (context : SealContext) (now : Int) :
    Indexed heightOf (manager.sessions.toList.foldl (assembleSession context now) manager) := by
  obtain ⟨hseals, horder, hheights⟩ := @foldl_assembleSession context now manager
    manager.sessions.toList
  refine ⟨?_, ?_⟩
  · rw [hheights]
    exact hindexed.heights
  · intro hash assembled hfound
    rw [hseals] at hfound
    rw [horder, mem_append]
    rcases getElem?_insertSeals hfound with ⟨hnew, rfl⟩ | ⟨hbefore, -⟩
    · exact Or.inr (mem_map.mpr ⟨assembled, hnew, rfl⟩)
    · exact Or.inl (hindexed.recorded hash assembled hbefore)

theorem Indexed.workerRound (context : SealContext)
    (now : Int) : Indexed heightOf (manager.workerRound context now) :=
  (hindexed.assemble context now).cleanupStaleSessions context now

end

variable {heights : Std.ExtTreeMap Int Uint256}

theorem forgetHeight_lookup (hfound : (forgetHeight heights hash)[found]? = some other) :
    heights[found]? = some other := by
  unfold forgetHeight at hfound
  split at hfound
  · exact hfound
  · rw [getElem?_erase_eq] at hfound
    split at hfound
    · cases hfound
    · exact hfound

theorem foldl_forgetHeight_lookup {hashes : List Uint256}
    (hfound : (hashes.foldl forgetHeight heights)[found]? = some other) :
    heights[found]? = some other := by
  induction hashes generalizing heights with
  | nil => exact hfound
  | cons hash rest ih => exact forgetHeight_lookup (ih hfound)

variable {assembled : CAssembledSeal}

theorem mem_orderWith (hrecorded : ∀ (hash : Uint256) (found : CAssembledSeal),
      manager.assembledSeals[hash]? = some found → hash ∈ manager.sealInsertionOrder)
    {found : CAssembledSeal} (hfound : (manager.sealsWith assembled height)[hash]? = some found) :
    hash ∈ manager.orderWith assembled height := by
  unfold sealsWith at hfound
  unfold orderWith
  rw [getElem?_insert_eq] at hfound
  rw [mem_append]
  split at hfound
  · rename_i hnew
    exact Or.inr (mem_singleton.mpr hnew.symm)
  · rename_i hother
    rw [getElem?_foldl_erase] at hfound
    split at hfound
    · cases hfound
    · rename_i hkept
      refine Or.inl (mem_filter.mpr ⟨hrecorded hash found hfound, ?_⟩)
      simpa using ⟨hkept, Ne.symm hother⟩

theorem Indexed.storeRelayed (hindexed : Indexed heightOf manager)
    (hheight : heightOf assembled.blockHash = height) :
    Indexed heightOf (manager.storeRelayed assembled height) := by
  refine ⟨?_, ?_⟩
  · intro found other hfound
    exact hindexed.insertHeight hheight (foldl_forgetHeight_lookup hfound)
  · intro hash found hfound
    exact mem_drop_of_evicted (fun _ _ hpresent => mem_orderWith hindexed.recorded hpresent) hfound

/-! ## A seal that stays -/

/-- The template finds the seal of the block with its proofs, and at most the given number of
seals of other blocks were stored after it. -/
structure Kept (blockHash : Uint256) (height : Int) (count : Nat) (manager : CSealManager) :
    Prop where
  mapped : manager.heightToHash[height]? = some blockHash
  carried : ∃ assembled, manager.assembledSeals[blockHash]? = some assembled ∧
    assembled.CarriesProofs
  recent : RecordedWithin blockHash count manager.sealInsertionOrder

def heightsAbove (manager : CSealManager) (height : Int) : List Int :=
  manager.heightToHash.keys.filter (fun other => height < other)

variable {count : Nat}

theorem Kept.getSealForTemplate (hkept : Kept blockHash height count manager)
    (context : SealContext) :
    ∃ assembled ∈ manager.getSealForTemplate context
        (height + context.params.nHMPSealTrailingDepth), assembled.CarriesProofs := by
  obtain ⟨assembled, hassembled, hproofs⟩ := hkept.carried
  refine ⟨assembled, ?_, hproofs⟩
  unfold CSealManager.getSealForTemplate
  rw [Int.add_sub_cancel, hkept.mapped]
  exact hassembled

theorem Kept.mono {larger : Nat} (hkept : Kept blockHash height count manager)
    (hle : count ≤ larger) : Kept blockHash height larger manager :=
  ⟨hkept.mapped, hkept.carried, hkept.recent.mono hle⟩

theorem Kept.of_sameStore (hkept : Kept blockHash height count manager) {next : CSealManager}
    (hsame : SameStore next manager) : Kept blockHash height count next := by
  obtain ⟨hseals, horder, hheights⟩ := hsame
  exact ⟨hheights ▸ hkept.mapped, hseals ▸ hkept.carried, horder ▸ hkept.recent⟩

variable {newHeight : Int} {newHash : Uint256}

section

variable (hkept : Kept blockHash height count manager)

include hkept

theorem Kept.onNewBlock
    (hother : newHeight = height → newHash = blockHash) (prevSealHash : Uint256) (now : Int) :
    Kept blockHash height count (manager.onNewBlock newHash newHeight prevSealHash now) := by
  unfold CSealManager.onNewBlock
  split
  · exact hkept
  · refine ⟨?_, hkept.carried, hkept.recent⟩
    rw [getElem?_insert_eq]
    split
    · rename_i hsame
      rw [hother hsame]
    · exact hkept.mapped

theorem Kept.blockDisconnected (hhash : newHash ≠ blockHash) (hheight : newHeight ≠ height) :
    Kept blockHash height count (manager.blockDisconnected newHash newHeight) := by
  refine ⟨?_, ?_, hkept.recent.filter (by simpa using Ne.symm hhash)⟩
  · simp only [CSealManager.blockDisconnected]
    rw [getElem?_erase_eq, if_neg hheight]
    exact hkept.mapped
  · simp only [CSealManager.blockDisconnected]
    rw [getElem?_erase_eq, if_neg hhash]
    exact hkept.carried

theorem Kept.cleanupStaleSessions
    (hindexed : Indexed heightOf manager) (context : SealContext) (now : Int)
    (hheights : (heightsAbove manager height).length < maxKept) (hcount : count < maxKept) :
    Kept blockHash height count (manager.cleanupStaleSessions context now) := by
  obtain ⟨hstays, hrecent⟩ := hkept.recent.evict hindexed.recorded hcount
  refine ⟨?_, ?_, hrecent⟩
  · simp only [CSealManager.cleanupStaleSessions]
    rw [getElem?_trimLowest_of_few]
    · exact hkept.mapped
    · simpa only [heightsAbove, compare_lt_iff_lt] using hheights
  · simp only [CSealManager.cleanupStaleSessions]
    rw [getElem?_foldl_erase, if_neg hstays]
    exact hkept.carried

end

variable {context : SealContext} {now : Int}

theorem assemble_carried
    (hcarried : (∃ assembled, manager.assembledSeals[blockHash]? = some assembled ∧
        assembled.CarriesProofs) ∨
      ∃ assembled ∈ assembledNow context manager now, assembled.blockHash = blockHash) :
    ∃ assembled, (manager.sessions.toList.foldl (assembleSession context now)
      manager).assembledSeals[blockHash]? = some assembled ∧ assembled.CarriesProofs := by
  obtain ⟨hseals, -, -⟩ := @foldl_assembleSession context now manager manager.sessions.toList
  rw [hseals]
  have hpresent : (insertSeals manager.assembledSeals
      (assembledNow context manager now))[blockHash]?.isSome := by
    refine isSome_insertSeals (hcarried.imp ?_ id)
    rintro ⟨assembled, hassembled, -⟩
    rw [hassembled]
    rfl
  obtain ⟨found, hfound⟩ := Option.isSome_iff_exists.mp hpresent
  refine ⟨found, hfound, ?_⟩
  rcases getElem?_insertSeals hfound with ⟨hnew, -⟩ | ⟨hbefore, hnone⟩
  · exact assembledNow_carriesProofs hnew
  · rcases hcarried with ⟨assembled, hassembled, hproofs⟩ | ⟨assembled, hnew, hhash⟩
    · rw [hassembled] at hbefore
      cases hbefore
      exact hproofs
    · exact absurd hhash (hnone assembled hnew)

theorem kept_workerRound (hindexed : Indexed heightOf manager)
    (hmapped : manager.heightToHash[height]? = some blockHash)
    (hkept : Kept blockHash height count manager ∨
      (newerThan blockHash manager.sealInsertionOrder ≤ count ∧
        ∃ assembled ∈ assembledNow context manager now, assembled.blockHash = blockHash))
    (hheights : (heightsAbove manager height).length < maxKept)
    (hcount : count + (((assembledNow context manager now).map CAssembledSeal.blockHash).filter
      (fun stored => stored ≠ blockHash)).length < maxKept) :
    Kept blockHash height (count + (((assembledNow context manager now).map
      CAssembledSeal.blockHash).filter (fun stored => stored ≠ blockHash)).length)
      (manager.workerRound context now) := by
  obtain ⟨-, horder, htracked⟩ := @foldl_assembleSession context now manager
    manager.sessions.toList
  refine Kept.cleanupStaleSessions ?_ (hindexed.assemble context now) context now ?_ hcount
  · refine ⟨by rw [htracked]; exact hmapped,
      assemble_carried (hkept.imp Kept.carried And.right), ?_⟩
    rw [horder]
    rcases hkept with hkept | ⟨hbefore, assembled, hnew, hhash⟩
    · exact hkept.recent.append _
    · exact (recordedWithin_push (mem_map.mpr ⟨assembled, hnew, hhash⟩)).mono
        (Nat.add_le_add_right hbefore _)
  · simpa only [heightsAbove, htracked] using hheights

theorem foldl_forgetHeight_kept {heights : Std.ExtTreeMap Int Uint256} {hashes : List Uint256}
    (hmapped : heights[height]? = some blockHash) (hother : blockHash ∉ hashes) :
    (hashes.foldl forgetHeight heights)[height]? = some blockHash := by
  induction hashes generalizing heights with
  | nil => exact hmapped
  | cons hash rest ih =>
    rw [mem_cons, not_or] at hother
    refine ih ?_ hother.2
    unfold forgetHeight
    split
    · exact hmapped
    · rename_i found other hfound
      have hother' : other = hash := by simpa using find?_some hfound
      have hmem := Std.ExtTreeMap.mem_toList_iff_getElem?_eq_some.mp
        (mem_of_find?_eq_some hfound)
      rw [getElem?_erase_eq, if_neg]
      · exact hmapped
      · rintro rfl
        rw [hmapped] at hmem
        cases hmem
        exact hother.1 hother'

theorem Kept.storeRelayed (hkept : Kept blockHash height count manager)
    (hindexed : Indexed heightOf manager) {assembled : CAssembledSeal}
    (hhash : assembled.blockHash ≠ blockHash) (hheight : newHeight ≠ height)
    (hcount : count + 1 < maxKept) :
    Kept blockHash height (count + 1) (manager.storeRelayed assembled newHeight) := by
  have hdisplaced : blockHash ∉ manager.displaced assembled newHeight := by
    intro hmem
    rw [displaced, mem_filter, Option.mem_toList] at hmem
    have hfirst := hindexed.heights newHeight blockHash hmem.1
    exact hheight (hfirst.symm.trans (hindexed.heights height blockHash hkept.mapped))
  have hrecent : RecordedWithin blockHash (count + 1) (manager.orderWith assembled newHeight) := by
    have hfiltered : RecordedWithin blockHash count (manager.sealInsertionOrder.filter
        (fun hash => hash ∉ manager.displaced assembled newHeight ∧
          hash ≠ assembled.blockHash)) :=
      hkept.recent.filter (by simpa using ⟨hdisplaced, Ne.symm hhash⟩)
    have hpushed := hfiltered.append [assembled.blockHash]
    rw [filter_cons_of_pos (by simpa using hhash), filter_nil,
      length_singleton] at hpushed
    exact hpushed
  obtain ⟨hstays, hlater⟩ := hrecent.evict
    (fun _ _ hpresent => mem_orderWith hindexed.recorded hpresent) hcount
  refine ⟨?_, ?_, hlater⟩
  · refine foldl_forgetHeight_kept ?_ hstays
    rw [getElem?_insert_eq, if_neg hheight]
    exact hkept.mapped
  · simp only [CSealManager.storeRelayed]
    rw [getElem?_foldl_erase, if_neg hstays, sealsWith, getElem?_insert_eq, if_neg hhash,
      getElem?_foldl_erase, if_neg hdisplaced]
    exact hkept.carried

namespace Sample

def sealBlock (hash : Uint256) : HMPBlock where
  hash := hash
  algo := 0
  coinbase := .other

def openView : TrackerView where
  tierOf := fun _ _ => .elder
  isCommitted := fun _ _ => true

end Sample

end Kerrigan.HMP
