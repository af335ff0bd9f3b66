import Kerrigan.Pow.Range

/-!
# Steps of the weighted average

On mainnet the average of `LwmaPerAlgo` stays between a twentieth and six times the mean of its window,
up to the truncation of the division, and a later time of the newest block of the algorithm never
makes the next target harder.
-/

namespace Kerrigan.Pow

open Lib Consensus Lib.Width PowParams List PowBlock PowIndex

/-! ## The window -/

def sameAlgo (algo : Algo) (index : PowIndex) : List (PowBlock × Int) :=
  collectSameAlgo algo (61 * 4 * 8) 61 index

def lwmaWindow (algo : Algo) (index : PowIndex) : List PowBlock :=
  ((sameAlgo algo index).map Prod.fst).reverse

def GapReset (params : PowParams) (algo : Algo) (index : PowIndex) : Prop :=
  params.IsHMPRearmActive (index.nHeight + 1) ∧
    ∃ newest ∈ (sameAlgo algo index).head?, numAlgos * 10 ≤ index.nHeight - newest.2

instance (params : PowParams) (algo : Algo) (index : PowIndex) :
    Decidable (GapReset params algo index) :=
  inferInstanceAs (Decidable (_ ∧ ∃ newest ∈ (sameAlgo algo index).head?, _))

def meanTarget (blocks : List PowBlock) : Nat :=
  (blocks.map target).sum / blocks.length

/-- The next target before it is capped.  The oldest block of the window only dates the one after
it. -/
def uncappedTarget (width : Width) (params : PowParams) : List PowBlock → Nat
  | [] => 0
  | oldest :: window =>
      let spacing := width.int64 (params.nPowTargetSpacing * numAlgos)
      lwmaTarget width spacing window.length (windowSums width spacing 1 oldest window (0, 0))

def cappedTarget (params : PowParams) (algo : Algo) (nNextHeight : Int) (bnNew : Nat) : Nat :=
  if capTarget params algo nNextHeight bnNew = 0 then params.powLimitFloorAlgo algo
  else capTarget params algo nNextHeight bnNew

def RangeChecked (params : PowParams) (index : PowIndex) : Prop :=
  ∀ block ∈ index, ∀ algo, block.algo = some algo →
    checkProofOfWorkRange params algo block.nBits.toNat = true

variable {params : PowParams}

theorem targetsInRange_of_checked {index : PowIndex} (hchecked : RangeChecked params index)
    (htargets : ∀ block ∈ index, 2 ^ 24 ≤ block.target) :
    TargetsInRange params index := by
  intro block hblock algo halgo
  have hrange := hchecked block hblock algo halgo
  simp only [checkProofOfWorkRange, Bool.not_eq_true', Bool.or_eq_false_iff, decide_eq_false_iff_not,
    not_lt] at hrange
  exact ⟨htargets block hblock, hrange.2⟩

variable {algo : Algo}

theorem lwmaPerAlgo_eq_average {pindexLast : PowIndex} (hlength : pindexLast.length < 2 ^ 31)
    (htwo : 2 ≤ (sameAlgo algo pindexLast).length) (hgap : ¬ GapReset params algo pindexLast) :
    lwmaPerAlgo machine params pindexLast algo =
      getCompact machine (cappedTarget params algo pindexLast.length
        (uncappedTarget machine params (lwmaWindow algo pindexLast))) := by
  have hnext := pindexLast.nextHeight_machine hlength
  have hwindow : lwmaAverage machine params algo pindexLast.length (lwmaWindow algo pindexLast) =
      getCompact machine (cappedTarget params algo pindexLast.length
        (uncappedTarget machine params (lwmaWindow algo pindexLast))) := by
    have hlong : 2 ≤ (lwmaWindow algo pindexLast).length := by
      simpa [lwmaWindow] using htwo
    cases hblocks : lwmaWindow algo pindexLast with
    | nil => simp [hblocks] at hlong
    | cons oldest window =>
      cases window with
      | nil => simp [hblocks] at hlong
      | cons first rest => rfl
  rw [← hwindow]
  unfold lwmaPerAlgo GapReset at *
  cases hfound : sameAlgo algo pindexLast with
  | nil => simp [hfound] at htwo
  | cons newest others =>
    obtain ⟨-, -, hlow, hhigh⟩ :=
      collectSameAlgo_spec (hfound ▸ mem_cons_self : newest ∈ sameAlgo algo pindexLast)
    have hdistance : machine.int32 (pindexLast.nHeight - newest.2) =
        pindexLast.nHeight - newest.2 := by
      unfold nHeight at hhigh ⊢
      exact machine_int32 (by omega) (by omega)
    have hnear : ¬ (params.IsHMPRearmActive pindexLast.length ∧
        numAlgos * 10 ≤ pindexLast.nHeight - newest.2) := by
      rintro ⟨hactive, hfar⟩
      refine hgap ⟨?_, newest, by simp [hfound], hfar⟩
      rw [show pindexLast.nHeight + 1 = pindexLast.length by unfold nHeight; omega]
      exact hactive
    unfold lwmaWindow
    unfold sameAlgo at hfound ⊢
    simp only [hfound, hnext, hdistance, if_neg hnear]

/-! ## Bounds -/

theorem windowSums_targets (spacing : Int) (window : List PowBlock) (weight : Nat)
    (prev : PowBlock) (sums : Int × Nat) :
    (windowSums unbounded spacing weight prev window sums).2 =
      sums.2 + (window.map target).sum := by
  induction window generalizing weight prev sums with
  | nil => simp [windowSums]
  | cons cur rest ih =>
    rw [windowSums, ih, map_cons, sum_cons]
    simp only [unbounded_big]
    omega

/-- What the bounds need of a window. -/
structure WindowInRange (window : List PowBlock) : Prop where
  two : 2 ≤ window.length
  short : window.length ≤ 61
  low : ∀ block ∈ window, 2 ^ 24 ≤ block.target
  high : ∀ block ∈ window, block.target ≤ 2 ^ 244

theorem windowInRange {pindexLast : PowIndex} (hrange : TargetsInRange main pindexLast)
    (htwo : 2 ≤ (sameAlgo algo pindexLast).length) :
    WindowInRange (lwmaWindow algo pindexLast) := by
  have hblocks : ∀ block ∈ lwmaWindow algo pindexLast,
      2 ^ 24 ≤ block.target ∧ block.target ≤ 2 ^ 244 := by
    intro block hblock
    obtain ⟨entry, hentry, rfl⟩ := mem_map.mp (mem_reverse.mp hblock)
    obtain ⟨hmem, halgo, -, -⟩ := collectSameAlgo_spec hentry
    obtain ⟨hlow, hhigh⟩ := hrange entry.1 hmem algo halgo
    exact ⟨hlow, hhigh.trans (main_powLimitAlgo_le algo)⟩
  constructor
  · simpa [lwmaWindow] using htwo
  · rw [lwmaWindow, length_reverse, length_map]
    exact length_collectSameAlgo_le _ _ _ _
  · exact fun block hblock => (hblocks block hblock).1
  · exact fun block hblock => (hblocks block hblock).2

section Window

variable {oldest : PowBlock} {window : List PowBlock}

theorem uncappedTarget_eq (hrange : WindowInRange (oldest :: window)) :
    uncappedTarget machine main (oldest :: window) =
      meanTarget window / weightSum window.length *
        (boundedSolvetimes window.length
          (windowSums unbounded 480 1 oldest window (0, 0)).1).toNat := by
  have hspacing : machine.int64 (main.nPowTargetSpacing * numAlgos) = 480 := by decide
  have hshort := hrange.short
  rw [length_cons] at hshort
  have hmachine := (window_machine le_rfl oldest (by omega)
    (fun block hblock => hrange.high block (mem_cons_of_mem oldest hblock))).1
  unfold uncappedTarget
  dsimp only
  rw [hspacing, hmachine, lwmaTarget_unbounded, windowSums_targets, Nat.zero_add]
  rfl

theorem uncappedTarget_bounds (hrange : WindowInRange (oldest :: window)) :
    meanTarget window / weightSum window.length * (weightSum window.length / 20) ≤
        uncappedTarget machine main (oldest :: window) ∧
      uncappedTarget machine main (oldest :: window) ≤ 6 * meanTarget window := by
  have hshort := hrange.short
  rw [length_cons] at hshort
  have hsolved := (window_machine le_rfl oldest (by omega)
    (fun block hblock => hrange.high block (mem_cons_of_mem oldest hblock))).2
  have hmost := lwmaTarget_le hsolved
  rw [lwmaTarget_unbounded, windowSums_targets, Nat.zero_add] at hmost
  rw [uncappedTarget_eq hrange]
  refine ⟨Nat.mul_le_mul_left _ ?_, hmost⟩
  have hleast : ((weightSum window.length / 20 : Nat) : Int) ≤ boundedSolvetimes window.length
      (windowSums unbounded 480 1 oldest window (0, 0)).1 := le_max_left _ _
  omega

theorem le_meanTarget (hsome : window ≠ []) {bound : Nat}
    (hbound : ∀ block ∈ window, bound ≤ block.target) : bound ≤ meanTarget window := by
  have hsum := card_nsmul_le_sum (window.map target) bound
    (forall_mem_map.mpr hbound)
  rw [length_map, nsmul_eq_mul, Nat.cast_id, Nat.mul_comm] at hsum
  unfold meanTarget
  rwa [Nat.le_div_iff_mul_le (length_pos_iff.mpr hsome)]

theorem uncappedTarget_pos (hrange : WindowInRange (oldest :: window)) :
    0 < uncappedTarget machine main (oldest :: window) := by
  have htwo := hrange.two
  have hshort := hrange.short
  rw [length_cons] at htwo hshort
  have hsome : window ≠ [] := length_pos_iff.mp (by omega)
  have hmean : 2 ^ 24 ≤ meanTarget window := le_meanTarget hsome
    (fun block hblock => hrange.low block (mem_cons_of_mem oldest hblock))
  have hweights := weightSum_le (show window.length ≤ 60 by omega)
  have hdouble := two_mul_weightSum window.length
  have hproduct := Nat.mul_le_mul (show 1 ≤ window.length by omega)
    (show 2 ≤ window.length + 1 by omega)
  refine lt_of_lt_of_le (Nat.mul_pos ?_ ?_) (uncappedTarget_bounds hrange).1
  · exact Nat.div_pos (by omega) (by omega)
  · omega

end Window

/-! ## A later newest block -/

theorem clamp_mono (low high : Int) {value larger : Int} (hle : value ≤ larger) :
    let capped := if high < value then high else value
    let capped' := if high < larger then high else larger
    (if capped < low then low else capped) ≤ (if capped' < low then low else capped') := by
  intro capped capped'
  have hcapped : capped ≤ capped' := by
    change (if high < value then high else value) ≤ if high < larger then high else larger
    split <;> split <;> omega
  split <;> split <;> omega

variable {cur later : PowBlock}

theorem solvetime_mono (prev : PowBlock) (hlater : cur.nTime ≤ later.nTime) :
    solvetime unbounded 480 prev cur ≤ solvetime unbounded 480 prev later := by
  have htimes : cur.getBlockTime ≤ later.getBlockTime := by
    exact Int.ofNat_le.mpr (UInt32.le_iff_toNat_le.mp hlater)
  exact clamp_mono _ _ (Int.sub_le_sub_right htimes prev.getBlockTime)

theorem windowSums_newest_mono (window : List PowBlock) (hlater : cur.nTime ≤ later.nTime)
    (weight : Nat) (prev : PowBlock) (sums : Int × Nat) :
    (windowSums unbounded 480 weight prev (window ++ [cur]) sums).1 ≤
      (windowSums unbounded 480 weight prev (window ++ [later]) sums).1 := by
  induction window generalizing weight prev sums with
  | nil =>
    have hsolve := solvetime_mono prev hlater
    exact Int.add_le_add_left (Int.mul_le_mul_of_nonneg_right hsolve (by omega)) _
  | cons block rest ih =>
    exact ih _ _ _

variable {above : PowIndex}

theorem collectSameAlgo_append (habove : ∀ other ∈ above, other.algo ≠ some algo)
    (maxDepth wanted : Nat) (rest : PowIndex) :
    collectSameAlgo algo maxDepth wanted (above ++ rest) =
      collectSameAlgo algo (maxDepth - above.length) wanted rest := by
  induction above generalizing maxDepth with
  | nil => rfl
  | cons other above ih =>
    rw [forall_mem_cons] at habove
    cases maxDepth with
    | zero => simp [collectSameAlgo]
    | succ maxDepth =>
      rw [cons_append, collectSameAlgo, if_neg habove.1, ih habove.2, length_cons,
        Nat.add_sub_add_right]
      split
      · rename_i hnone
        subst hnone
        cases maxDepth - above.length with
        | zero => rfl
        | succ depth =>
          cases rest with
          | nil => rfl
          | cons first later => simp [collectSameAlgo]
      · rfl

variable {block : PowBlock}

theorem sameAlgo_newest {below : PowIndex} (habove : ∀ other ∈ above, other.algo ≠ some algo)
    (halgo : block.algo = some algo) :
    sameAlgo algo (above ++ block :: below) =
      if above.length < 61 * 4 * 8 then
        (block, (below.length : Int)) ::
          collectSameAlgo algo (61 * 4 * 8 - above.length - 1) 60 below
      else [] := by
  unfold sameAlgo
  rw [collectSameAlgo_append habove]
  split
  · obtain ⟨depth, hdepth⟩ : ∃ depth, 61 * 4 * 8 - above.length = depth + 1 :=
      ⟨61 * 4 * 8 - above.length - 1, by omega⟩
    rw [hdepth, collectSameAlgo, if_neg (by decide), if_pos halgo]
    simp [nHeight]
  · rw [show 61 * 4 * 8 - above.length = 0 by omega, collectSameAlgo]

theorem lwmaWindow_newest (below : PowIndex) (habove : ∀ other ∈ above, other.algo ≠ some algo)
    (hnear : above.length < 61 * 4 * 8) (halgo : block.algo = some algo) :
    lwmaWindow algo (above ++ block :: below) =
      ((collectSameAlgo algo (61 * 4 * 8 - above.length - 1) 60 below).map Prod.fst).reverse ++
        [block] := by
  unfold lwmaWindow
  rw [sameAlgo_newest habove halgo, if_pos hnear, map_cons, reverse_cons]

theorem gapReset_newest {below : PowIndex} (habove : ∀ other ∈ above, other.algo ≠ some algo)
    (halgo : block.algo = some algo) (halgo' : later.algo = some algo)
    (hreset : GapReset params algo (above ++ later :: below)) :
    GapReset params algo (above ++ block :: below) := by
  have hheight : nHeight (above ++ later :: below) =
      nHeight (above ++ block :: below) := by
    simp [nHeight]
  obtain ⟨hactive, newest, hnewest, hfar⟩ := hreset
  rw [hheight] at hactive hfar
  rw [sameAlgo_newest habove halgo'] at hnewest
  split at hnewest
  · rename_i hnear
    cases hnewest
    refine ⟨hactive, (block, below.length), ?_, hfar⟩
    rw [sameAlgo_newest habove halgo, if_pos hnear]
    rfl
  · cases hnewest

theorem WindowInRange.retime {window : List PowBlock} (hrange : WindowInRange (window ++ [cur]))
    (htarget : later.target = cur.target) :
    WindowInRange (window ++ [later]) := by
  obtain ⟨htwo, hshort, hlow, hhigh⟩ := hrange
  rw [length_append, length_singleton] at htwo hshort
  constructor
  · rwa [length_append, length_singleton]
  · rwa [length_append, length_singleton]
  · rw [forall_mem_append, forall_mem_singleton] at hlow ⊢
    rwa [htarget]
  · rw [forall_mem_append, forall_mem_singleton] at hhigh ⊢
    rwa [htarget]

theorem uncappedTarget_newest_mono {oldest : PowBlock} {window : List PowBlock}
    (hlater : cur.nTime ≤ later.nTime) (hbits : cur.nBits = later.nBits)
    (hrange : WindowInRange (oldest :: (window ++ [cur])))
    (hrange' : WindowInRange (oldest :: (window ++ [later]))) :
    uncappedTarget machine main (oldest :: (window ++ [cur])) ≤
      uncappedTarget machine main (oldest :: (window ++ [later])) := by
  have htarget : cur.target = later.target := by
    unfold target
    rw [hbits]
  have hmean : meanTarget (window ++ [cur]) = meanTarget (window ++ [later]) := by
    simp [meanTarget, htarget]
  have hlength : (window ++ [cur]).length = (window ++ [later]).length := by
    simp
  have hsolved := windowSums_newest_mono window hlater 1 oldest (0, 0)
  rw [uncappedTarget_eq hrange, uncappedTarget_eq hrange', hmean, hlength]
  refine Nat.mul_le_mul_left _ (Int.toNat_le_toNat ?_)
  exact max_le_max le_rfl hsolved

theorem capTarget_mono (params : PowParams) (algo : Algo) (nNextHeight : Int) {value larger : Nat}
    (hle : value ≤ larger) :
    capTarget params algo nNextHeight value ≤ capTarget params algo nNextHeight larger := by
  have hcap : ∀ (limit : Nat) {value larger : Nat}, value ≤ larger →
      (if limit < value then limit else value) ≤ (if limit < larger then limit else larger) := by
    intro limit value larger hle
    split <;> split <;> omega
  unfold capTarget
  by_cases hactive : Params.scheduledAt params.nDiffFloorHeight nNextHeight
  · rw [if_pos hactive, if_pos hactive]
    exact hcap _ (hcap _ hle)
  · rw [if_neg hactive, if_neg hactive]
    exact hcap _ hle

theorem returned_mono (algo : Algo) (nNextHeight : Int) {value larger : Nat} (hpos : 0 < value)
    (hle : value ≤ larger) :
    (setCompact (getCompact machine (cappedTarget main algo nNextHeight value))).target ≤
      (setCompact
        (getCompact machine (cappedTarget main algo nNextHeight larger))).target := by
  have hcapped := capTarget_pos algo nNextHeight hpos
  have hmono := capTarget_mono main algo nNextHeight hle
  have hlimit := lt_of_le_of_lt (capTarget_le algo nNextHeight larger)
    (main_effectivePowLimit_lt algo nNextHeight)
  unfold cappedTarget
  rw [if_neg (by omega), if_neg (by omega), getCompact_machine (by omega),
    getCompact_machine hlimit]
  exact setCompact_getCompact_mono hcapped hmono hlimit

/-- On mainnet, outside the reset and with two blocks of the algorithm in reach, the average before the
caps is between a twentieth and six times the mean target of the window, up to the truncation of the
division; and a later time of the newest block of the algorithm never lowers the returned target. -/
theorem lwma_step_bounds (algo : Algo) (pindexLast : PowIndex)
    (hchecked : RangeChecked main pindexLast)
    (htargets : ∀ block ∈ pindexLast, 2 ^ 24 ≤ block.target)
    (hlength : pindexLast.length < 2 ^ 31) (htwo : 2 ≤ (sameAlgo algo pindexLast).length)
    (hgap : ¬ GapReset main algo pindexLast) :
    let window := lwmaWindow algo pindexLast
    let avg := meanTarget window.tail
    let k := weightSum window.tail.length
    let uncapped := uncappedTarget machine main window
    (lwmaPerAlgo machine main pindexLast algo =
        getCompact machine (cappedTarget main algo pindexLast.length uncapped) ∧
      avg / k * (k / 20) ≤ uncapped ∧ uncapped ≤ 6 * avg) ∧
    ∀ (above below : PowIndex) (block : PowBlock) (later : UInt32),
      pindexLast = above ++ block :: below → block.algo = some algo →
      (∀ other ∈ above, other.algo ≠ some algo) → block.nTime ≤ later →
      (setCompact (lwmaPerAlgo machine main pindexLast algo)).target ≤
        (setCompact (lwmaPerAlgo machine main
          (above ++ { block with nTime := later } :: below) algo)).target := by
  intro window avg k uncapped
  have hrange := windowInRange (targetsInRange_of_checked hchecked htargets) htwo
  have haverage := lwmaPerAlgo_eq_average hlength htwo hgap
  constructor
  · refine ⟨haverage, ?_⟩
    cases hwindow : lwmaWindow algo pindexLast with
    | nil =>
      have hempty := hrange.two
      simp [hwindow] at hempty
    | cons oldest rest =>
      rw [hwindow] at hrange
      simp only [avg, k, uncapped, window, hwindow, tail_cons]
      exact uncappedTarget_bounds hrange
  · rintro above below block later rfl halgo habove hlater
    obtain ⟨moved, hmoved⟩ : ∃ moved : PowBlock, moved = { block with nTime := later } := ⟨_, rfl⟩
    have halgo' : moved.algo = some algo := by
      rw [hmoved]
      exact halgo
    have hnear : above.length < 61 * 4 * 8 := by
      by_contra hfar
      rw [sameAlgo_newest habove halgo, if_neg hfar] at htwo
      simp at htwo
    have hwindow := lwmaWindow_newest below habove hnear halgo
    have hwindow' := lwmaWindow_newest below habove hnear halgo'
    have htwo' : 2 ≤ (sameAlgo algo (above ++ moved :: below)).length := by
      rw [sameAlgo_newest habove halgo, if_pos hnear] at htwo
      rw [sameAlgo_newest habove halgo', if_pos hnear]
      exact htwo
    have haverage' := lwmaPerAlgo_eq_average (by simpa using hlength) htwo'
      (mt (gapReset_newest habove halgo halgo') hgap)
    have hsame : (above ++ moved :: below).length = (above ++ block :: below).length := by
      simp
    rw [← hmoved, haverage, haverage', hsame, hwindow, hwindow']
    rw [hwindow] at hrange
    have hrange' : WindowInRange (_ ++ [moved]) := hrange.retime (by rw [hmoved]; rfl)
    cases hearlier : ((collectSameAlgo algo (61 * 4 * 8 - above.length - 1) 60 below).map
        Prod.fst).reverse with
    | nil =>
      have hempty := hrange.two
      simp [hearlier] at hempty
    | cons oldest between =>
      rw [hearlier] at hrange hrange'
      refine returned_mono algo _ (uncappedTarget_pos hrange)
        (uncappedTarget_newest_mono ?_ ?_ hrange hrange')
      · rw [hmoved]
        exact hlater
      · rw [hmoved]

def earlierBlocks : PowIndex := [⟨1480, 0x1c0ffff0, some .x11⟩, ⟨1000, 0x1c0ffff0, some .x11⟩]

def threeBlocks : PowIndex :=
  [⟨2100, 0x1c010000, some .kawpow⟩] ++ ⟨1960, 0x1c0ffff0, some .x11⟩ :: earlierBlocks

theorem lwma_step_bounds_three :
    uncappedTarget machine main (lwmaWindow .x11 threeBlocks) ≤
        6 * meanTarget (lwmaWindow .x11 threeBlocks).tail ∧
      (setCompact (lwmaPerAlgo machine main threeBlocks .x11)).target ≤
        (setCompact (lwmaPerAlgo machine main
          ([⟨2100, 0x1c010000, some .kawpow⟩] ++ ⟨2900, 0x1c0ffff0, some .x11⟩ :: earlierBlocks)
          .x11)).target := by
  have hchecked : RangeChecked main threeBlocks := by
    intro block hblock algo halgo
    simp only [threeBlocks, earlierBlocks, cons_append, nil_append, mem_cons,
      not_mem_nil, or_false] at hblock
    rcases hblock with rfl | rfl | rfl | rfl <;> cases halgo <;> decide
  have hbounds := lwma_step_bounds .x11 threeBlocks hchecked (by decide) (by decide) (by decide)
    (by decide)
  exact ⟨hbounds.1.2.2, hbounds.2 [⟨2100, 0x1c010000, some .kawpow⟩] earlierBlocks
    ⟨1960, 0x1c0ffff0, some .x11⟩ 2900 rfl rfl (by decide) (by decide)⟩

end Kerrigan.Pow
