import Kerrigan.HMP.Node

/-!
# What the extended window contributes

The extended window only serves the dominance catch, and a solver joins through it only
with a block in the privilege window.  So entries older than the privilege window change
nothing, and a weight does not depend on how far back the extended window reaches.
-/

namespace Kerrigan.HMP

open Primitives Consensus Lib CHMPPrivilegeTracker List

/-! ## The walk over the extended window -/

section Walk

variable {algo count : Nat}

theorem extendedSolvers_eq_append (solvers : List CBLSPublicKey)
    (entries : List CHMPExtendedEntry) :
    ∃ extra, extendedSolvers algo count solvers entries = solvers ++ extra ∧
      ∀ key ∈ extra, key ∉ solvers ∧
        ∃ entry ∈ entries, entry.algo = algo ∧ entry.minerPubKey = key := by
  induction entries generalizing solvers with
  | nil => exact ⟨[], by simp [extendedSolvers]⟩
  | cons entry rest ih =>
    simp only [extendedSolvers]
    split
    · rename_i hnew
      split
      · refine ⟨[entry.minerPubKey], rfl, ?_⟩
        intro key hkey
        rw [mem_singleton.mp hkey]
        exact ⟨hnew.2.2, entry, mem_cons_self, hnew.1, rfl⟩
      · obtain ⟨extra, hextra, horigin⟩ := ih (solvers ++ [entry.minerPubKey])
        refine ⟨entry.minerPubKey :: extra, by rw [hextra]; simp, ?_⟩
        intro key hkey
        rcases mem_cons.mp hkey with rfl | hlater
        · exact ⟨hnew.2.2, entry, mem_cons_self, hnew.1, rfl⟩
        · obtain ⟨hfresh, found, hfound, hsame⟩ := horigin key hlater
          exact ⟨fun hmem => hfresh (mem_append_left _ hmem), found,
            mem_cons_of_mem entry hfound, hsame⟩
    · obtain ⟨extra, hextra, horigin⟩ := ih solvers
      refine ⟨extra, hextra, ?_⟩
      intro key hkey
      obtain ⟨hfresh, found, hfound, hsame⟩ := horigin key hkey
      exact ⟨hfresh, found, mem_cons_of_mem entry hfound, hsame⟩

theorem extendedSolvers_append {solvers : List CBLSPublicKey}
    {newer older : List CHMPExtendedEntry} (hroom : solvers.length + newer.length < count) :
    extendedSolvers algo count solvers (newer ++ older) =
      extendedSolvers algo count (extendedSolvers algo count solvers newer) older := by
  induction newer generalizing solvers with
  | nil => rfl
  | cons entry rest ih =>
    rw [length_cons] at hroom
    simp only [cons_append, extendedSolvers]
    split
    · rw [if_neg (by omega), if_neg (by omega)]
      exact ih (by rw [length_append, length_singleton]; omega)
    · exact ih (by omega)

theorem mem_extendedSolvers {solvers : List CBLSPublicKey} {entries : List CHMPExtendedEntry}
    (hroom : solvers.length + entries.length < count) {entry : CHMPExtendedEntry}
    (hmem : entry ∈ entries) (halgo : entry.algo = algo) (hvalid : entry.minerPubKey.IsValid) :
    entry.minerPubKey ∈ extendedSolvers algo count solvers entries := by
  induction entries generalizing solvers with
  | nil => cases hmem
  | cons first rest ih =>
    rw [length_cons] at hroom
    simp only [extendedSolvers]
    rcases mem_cons.mp hmem with rfl | hlater
    · by_cases hknown : entry.minerPubKey ∈ solvers
      · rw [if_neg (fun h => h.2.2 hknown)]
        obtain ⟨extra, hextra, -⟩ := @extendedSolvers_eq_append algo count solvers rest
        rw [hextra]
        exact mem_append_left _ hknown
      · rw [if_pos ⟨halgo, hvalid, hknown⟩, if_neg (by omega)]
        obtain ⟨extra, hextra, -⟩ := @extendedSolvers_eq_append algo count
          (solvers ++ [entry.minerPubKey]) rest
        rw [hextra]
        simp
    · split
      · rw [if_neg (by omega)]
        exact ih (by rw [length_append, length_singleton]; omega) hlater
      · exact ih (by omega) hlater

end Walk

/-! ## The dominance catch -/

section Backfill

variable {params : Params} {tracker : CHMPPrivilegeTracker} {algo minBlocks : Nat}

theorem backfill_append {result candidates others : List CBLSPublicKey}
    (hothers : ∀ pk ∈ others, ¬ ∃ rec ∈ (tracker.records algo)[pk]?,
      QualifiesElder params tracker minBlocks rec) :
    backfill params tracker algo minBlocks result (candidates ++ others) =
      backfill params tracker algo minBlocks result candidates := by
  induction candidates generalizing result with
  | nil =>
    rw [nil_append]
    induction others with
    | nil => rfl
    | cons pk rest ih =>
      have hrest : backfill params tracker algo minBlocks result rest = result :=
        ih (fun other hmem => hothers other (mem_cons_of_mem pk hmem))
      simp only [backfill, if_neg (hothers pk mem_cons_self), hrest, ite_self]
  | cons pk rest ih =>
    simp only [cons_append, backfill, ih]

theorem backfill_extended (entries : List CHMPExtendedEntry)
    (result candidates : List CBLSPublicKey) :
    backfill params { tracker with extendedWindow := entries } algo minBlocks result candidates =
      backfill params tracker algo minBlocks result candidates := by
  induction candidates generalizing result with
  | nil => rfl
  | cons pk rest ih =>
    simp only [backfill, ih]
    rfl

end Backfill

/-! ## Solved blocks in the window -/

theorem rebuildFromWindow_solved {window : List CHMPWindowEntry} {algo : Nat}
    {key : CBLSPublicKey} {rec : CPrivilegeRecord}
    (hrecord : (rebuildFromWindow window algo)[key]? = some rec) (hsolved : 0 < rec.blocksSolved) :
    ∃ entry ∈ window, entry.algo = algo ∧ entry.minerPubKey = key ∧ key.IsValid := by
  have hall : (rebuildFromWindow window).All (fun algo key rec => 0 < rec.blocksSolved →
      ∃ entry ∈ window, entry.algo = algo ∧ entry.minerPubKey = key ∧ key.IsValid) := by
    refine foldlRecOn _ _ Records.All.empty ?_
    intro records hrecords entry hmem
    refine hrecords.creditEntry ?_ ?_
    · intro hvalid rec _ _
      exact ⟨entry, hmem, rfl, rfl, hvalid⟩
    · intro signer _ rec hbefore hparticipated
      rcases hbefore with rfl | hcounted
      · exact absurd hparticipated (by simp [participated])
      · exact hcounted hparticipated
  exact hall algo key rec hrecord hsolved

/-- The Elder set does not depend on entries of the extended window below those that cover
the privilege window. -/
theorem getElderSet_extended {params : Params} {tracker : CHMPPrivilegeTracker}
    (hmin : 0 < params.nHMPMinBlocksSolved)
    (hrecords : tracker.records = rebuildFromWindow tracker.window)
    {covering older : List CHMPExtendedEntry}
    (hroom : covering.length < params.nHMPDominanceCatchMaxLookback)
    (hcovering : ∀ entry ∈ tracker.window, entry.minerPubKey.IsValid →
      ⟨entry.height, entry.algo, entry.minerPubKey⟩ ∈ covering)
    (algo : Nat) (includeBackfill : Bool) :
    getElderSet params { tracker with extendedWindow := older ++ covering } algo includeBackfill =
      getElderSet params { tracker with extendedWindow := covering } algo includeBackfill := by
  have hwalk : ∃ others, extendedSolvers algo params.nHMPDominanceCatchMaxLookback []
        (older ++ covering).reverse =
      extendedSolvers algo params.nHMPDominanceCatchMaxLookback [] covering.reverse ++ others ∧
      ∀ pk ∈ others, pk ∉ extendedSolvers algo params.nHMPDominanceCatchMaxLookback []
        covering.reverse := by
    rw [reverse_append, extendedSolvers_append (by simpa using hroom)]
    obtain ⟨others, hothers, horigin⟩ := @extendedSolvers_eq_append algo
      params.nHMPDominanceCatchMaxLookback
      (extendedSolvers algo params.nHMPDominanceCatchMaxLookback [] covering.reverse)
      older.reverse
    exact ⟨others, hothers, fun pk hpk => (horigin pk hpk).1⟩
  obtain ⟨others, hsplit, hothers⟩ := hwalk
  unfold getElderSet
  split
  · simp only [backfill_extended, hsplit]
    rw [backfill_append]
    · rfl
    · rintro pk hpk ⟨rec, hrec, hqualifies⟩
      refine hothers pk hpk ?_
      have hminBlocks : 0 < rec.blocksSolved := by
        refine Nat.lt_of_lt_of_le ?_ hqualifies.2.1
        split
        · exact Params.getEffectiveMinBlocksSolved_pos hmin _
        · omega
      rw [hrecords] at hrec
      obtain ⟨entry, hentry, halgo, hkey, hvalid⟩ := rebuildFromWindow_solved hrec hminBlocks
      subst hkey
      exact mem_extendedSolvers (by simpa using hroom)
        (mem_reverse.mpr (hcovering entry hentry hvalid)) halgo hvalid
  · rfl

/-! ## Weights -/

section Weights

variable {params : Params} {oracles : Oracles} {tracker : CHMPPrivilegeTracker}
  {entries : List CHMPExtendedEntry}

theorem sealWeight_extended
    (helders : ∀ algo, getElderSet params { tracker with extendedWindow := entries } algo true =
      getElderSet params tracker algo true)
    (block : HMPBlock) (parent : Chain) (cbTx : CCbTx) (counted : List CBLSPublicKey × List Nat) :
    sealWeight params oracles { tracker with extendedWindow := entries } block parent cbTx
        counted =
      sealWeight params oracles tracker block parent cbTx counted := by
  have hmultiplier : ∀ (signers : List CBLSPublicKey) (algos : List Nat) (algo : Nat)
      (pindex : Uint256),
      computeSealMultiplier params oracles { tracker with extendedWindow := entries } signers algos
        algo pindex =
      computeSealMultiplier params oracles tracker signers algos algo pindex := by
    intro signers algos algo pindex
    simp only [computeSealMultiplier, helders]
    rfl
  have hnegative : ∀ (signers : List CBLSPublicKey) (algos : List Nat) (algo : Nat),
      evaluateNegativeProof params { tracker with extendedWindow := entries } signers algos algo =
      evaluateNegativeProof params tracker signers algos algo := by
    intro signers algos algo
    simp only [evaluateNegativeProof, helders]
    rfl
  simp only [sealWeight, rearmWeight, legacyWeight, hmultiplier, hnegative]
  rfl

end Weights

end Kerrigan.HMP
