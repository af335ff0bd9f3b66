import Kerrigan.Pow.StepBounds

/-!
# The bounded reset of a stalled algorithm

The loop that eases the last target of a stalled algorithm, in `Hivemind` and in `LwmaPerAlgo`, is the
exact minimum of the limit and of a power of four times the target: it settles at the limit one step
before the shift would pass it, so no shift leaves the 256 bits.
-/

namespace Kerrigan.Pow

open Lib Consensus Lib.Width

/-! ## The loop -/

def resetSteps (algoGap nGapThreshold : Int) : Nat := (1 + (algoGap - nGapThreshold) / numAlgos).toNat

variable (params : PowParams) (algo : Algo) (nNextHeight : Int) (width : Width)

def easedTarget (bnLimit bnLast : Nat) (algoGap nGapThreshold : Int) : Nat :=
  let nSteps := width.int32 (1 + (width.int32 (algoGap - nGapThreshold)).tdiv numAlgos)
  let bnEased := easeTowards width bnLimit nSteps.toNat bnLast
  if bnLimit < bnEased then bnLimit else bnEased

theorem boundedReset_eq (last : PowBlock) (nResetLimit : Nat) (algoGap nGapThreshold : Int) :
    boundedReset width last nResetLimit algoGap nGapThreshold =
      getCompact width (easedTarget width (setCompact nResetLimit).target last.target algoGap
        nGapThreshold) := rfl

theorem resetSteps_mono {algoGap algoGap' : Int} (nGapThreshold : Int) (hle : algoGap ≤ algoGap') :
    resetSteps algoGap nGapThreshold ≤ resetSteps algoGap' nGapThreshold := by
  have hquotient : (algoGap - nGapThreshold) / numAlgos ≤ (algoGap' - nGapThreshold) / numAlgos :=
    Int.ediv_le_ediv (by decide) (by omega)
  unfold resetSteps
  omega

/-- The early settlement agrees with the exact minimum: a target above a quarter of the limit passes
it with the next step. -/
theorem easeTowards_unbounded {bnLimit : Nat} (steps : Nat) {bnEased : Nat}
    (hle : bnEased ≤ bnLimit) :
    easeTowards unbounded bnLimit steps bnEased = min bnLimit (bnEased * 4 ^ steps) := by
  induction steps generalizing bnEased with
  | zero =>
    rw [easeTowards, Nat.pow_zero, Nat.mul_one, Nat.min_eq_right hle]
  | succ steps ih =>
    have hgrows : bnEased * 4 ≤ bnEased * 4 ^ (steps + 1) := by
      rw [Nat.pow_succ']
      exact Nat.mul_le_mul_left _ (Nat.le_mul_of_pos_right 4 (Nat.pow_pos (by decide)))
    rw [easeTowards]
    split
    case isTrue hbelow =>
      split
      case isTrue hnear =>
        have hpasses : bnLimit ≤ bnEased * 4 ^ (steps + 1) := by omega
        exact (Nat.min_eq_left hpasses).symm
      case isFalse hfar =>
        have hstep : bnEased * 2 ^ 2 * 4 ^ steps = bnEased * 4 ^ (steps + 1) := by ring
        rw [unbounded_big, ih (by omega), hstep]
    case isFalse hlimit =>
      have hsame : bnEased = bnLimit := by omega
      subst hsame
      exact (Nat.min_eq_left (by omega)).symm

theorem nSteps_machine {algoGap nGapThreshold : Int} (hgap : nGapThreshold ≤ algoGap)
    (hfits : algoGap - nGapThreshold < 2 ^ 31) :
    (machine.int32 (1 + (machine.int32 (algoGap - nGapThreshold)).tdiv numAlgos)).toNat =
      resetSteps algoGap nGapThreshold := by
  rw [machine_int32 (by omega) hfits, Int.tdiv_eq_ediv_of_nonneg (by omega)]
  unfold resetSteps numAlgos
  rw [machine_int32 (by omega) (by omega)]

theorem nSteps_unbounded {algoGap nGapThreshold : Int} (hgap : nGapThreshold ≤ algoGap) :
    (unbounded.int32 (1 + (unbounded.int32 (algoGap - nGapThreshold)).tdiv numAlgos)).toNat =
      resetSteps algoGap nGapThreshold := by
  rw [unbounded_int32, unbounded_int32, Int.tdiv_eq_ediv_of_nonneg (by omega)]
  rfl

section Eased

variable {bnLimit bnLast : Nat} {algoGap nGapThreshold : Int}

theorem easedTarget_unbounded (hlast : bnLast ≤ bnLimit) (hgap : nGapThreshold ≤ algoGap) :
    easedTarget unbounded bnLimit bnLast algoGap nGapThreshold =
      min bnLimit (bnLast * 4 ^ resetSteps algoGap nGapThreshold) := by
  unfold easedTarget
  simp only [nSteps_unbounded hgap, easeTowards_unbounded _ hlast]
  rw [if_neg (Nat.not_lt.mpr (Nat.min_le_left _ _))]

theorem easedTarget_machine (hpos : 0 < bnLast) (hlast : bnLast ≤ bnLimit)
    (hlimit : bnLimit < 2 ^ 256) (hgap : nGapThreshold ≤ algoGap)
    (hfits : algoGap - nGapThreshold < 2 ^ 31) :
    easedTarget machine bnLimit bnLast algoGap nGapThreshold =
      min bnLimit (bnLast * 4 ^ resetSteps algoGap nGapThreshold) := by
  rw [← easedTarget_unbounded hlast hgap]
  unfold easedTarget
  simp only [nSteps_machine hgap hfits, nSteps_unbounded hgap,
    (easeTowards_spec hlimit _ hpos).1]

end Eased

theorem min_eased_range {bnLimit bnLast : Nat} (hpos : 0 < bnLast) (hlast : bnLast ≤ bnLimit)
    (hlimit : bnLimit < 2 ^ 256) (steps : Nat) :
    0 < min bnLimit (bnLast * 4 ^ steps) ∧ min bnLimit (bnLast * 4 ^ steps) < 2 ^ 256 := by
  have hproduct : 0 < bnLast * 4 ^ steps := Nat.mul_pos hpos (Nat.pow_pos (by decide))
  exact ⟨Nat.lt_min.mpr ⟨by omega, hproduct⟩, lt_of_le_of_lt (Nat.min_le_left _ _) hlimit⟩

/-! ## The two functions that reset -/

def resetLimit : Nat :=
  (setCompact (params.effectivePowLimitForAlgo machine algo nNextHeight)).target

theorem resetLimit_lt : resetLimit params algo nNextHeight < 2 ^ 256 :=
  setCompact_lt _

/-- `Hivemind` resets: after the retarget fix, with enough history, the last block of the algorithm is
`algoGap` blocks back, and that is the threshold or more. -/
structure HivemindResets (params : PowParams) (pindexLast : PowIndex) (algo : Algo)
    (gapThresholdOverride : Int) (last : PowBlock) (algoGap : Int) : Prop where
  active : params.IsDaaRetargetFixActive pindexLast.length
  history : pindexLast.drop 40 ≠ []
  found : ∃ pindexPrevAlgo : PowIndex,
    getLastBlockIndexForAlgo params algo 240 pindexLast = some (last, pindexPrevAlgo) ∧
      algoGap = pindexLast.nHeight - pindexPrevAlgo.nHeight
  stalled : gapThreshold params pindexLast.length gapThresholdOverride ≤ algoGap

structure LwmaResets (params : PowParams) (pindexLast : PowIndex) (algo : Algo) (last : PowBlock)
    (algoGap : Int) : Prop where
  active : params.IsHMPRearmActive pindexLast.length
  found : ∃ newestHeight : Int, (sameAlgo algo pindexLast).head? = some (last, newestHeight) ∧
    algoGap = pindexLast.nHeight - newestHeight
  stalled : numAlgos * 10 ≤ algoGap

section Resets

variable {params : PowParams} {pindexLast : PowIndex} {algo : Algo} {last : PowBlock}
  {gapThresholdOverride algoGap : Int}

section

variable (hlength : pindexLast.length < 2 ^ 31)

include hlength

theorem HivemindResets.algoGap_lt
    (hresets : HivemindResets params pindexLast algo gapThresholdOverride last algoGap) :
    algoGap < 2 ^ 31 := by
  obtain ⟨pindexPrevAlgo, hfound, rfl⟩ := hresets.found
  obtain ⟨-, -, hpos, -⟩ := getLastBlockIndexForAlgo_spec hfound
  unfold PowIndex.nHeight
  omega

theorem LwmaResets.algoGap_lt
    (hresets : LwmaResets params pindexLast algo last algoGap) : algoGap < 2 ^ 31 := by
  obtain ⟨newestHeight, hfound, rfl⟩ := hresets.found
  obtain ⟨-, -, hlow, -⟩ := collectSameAlgo_spec (List.mem_of_head? hfound)
  unfold PowIndex.nHeight
  omega

theorem HivemindResets.hivemind
    (hresets : HivemindResets params pindexLast algo gapThresholdOverride last algoGap) :
    hivemind machine params pindexLast algo gapThresholdOverride =
      getCompact machine (easedTarget machine (resetLimit params algo pindexLast.length) last.target
        algoGap (gapThreshold params pindexLast.length gapThresholdOverride)) := by
  have hlt := hresets.algoGap_lt hlength
  have hthreshold := gapThreshold_pos params pindexLast.length gapThresholdOverride
  have hstalled := hresets.stalled
  obtain ⟨pindexPrevAlgo, hfound, hgap⟩ := hresets.found
  have hdistance : machine.int32 (pindexLast.nHeight - pindexPrevAlgo.nHeight) = algoGap := by
    rw [← hgap]
    exact machine_int32 (by omega) hlt
  rw [hivemind_eq gapThresholdOverride (pindexLast.nextHeight_machine hlength) hfound hdistance,
    if_neg hresets.history, if_pos hstalled, if_neg (not_not.mpr hresets.active)]
  exact boundedReset_eq _ _ _ _ _

theorem LwmaResets.lwmaPerAlgo (hresets : LwmaResets params pindexLast algo last algoGap) :
    lwmaPerAlgo machine params pindexLast algo =
      getCompact machine (easedTarget machine (resetLimit params algo pindexLast.length) last.target
        algoGap (numAlgos * 10)) := by
  have hlt := hresets.algoGap_lt hlength
  have hstalled := hresets.stalled
  have hactive := hresets.active
  obtain ⟨newestHeight, hhead, hgap⟩ := hresets.found
  obtain ⟨others, hfound⟩ := List.head?_eq_some_iff.mp hhead
  have hdistance : machine.int32 (pindexLast.nHeight - newestHeight) = algoGap := by
    rw [← hgap]
    exact machine_int32 (by unfold numAlgos at hstalled; omega) hlt
  unfold sameAlgo at hfound
  unfold Pow.lwmaPerAlgo
  simp only [hfound, pindexLast.nextHeight_machine hlength, hdistance,
    if_pos (And.intro hactive hstalled)]
  exact boundedReset_eq _ _ _ _ _

end

end Resets

/-! ## The reset -/

/-- The loop gives the exact minimum of the limit and of the target times four to the number of missed
rounds, over machine integers as over unbounded ones.  Before and after it is encoded, the result is
within the limit and does not decrease with the gap.  Both functions return it where they reset. -/
theorem bounded_gap_reset :
    (∀ (bnLimit bnLast : Nat) (algoGap nGapThreshold : Int), 1 ≤ bnLast → bnLast ≤ bnLimit →
      bnLimit < 2 ^ 256 → nGapThreshold ≤ algoGap → algoGap - nGapThreshold < 2 ^ 31 →
      let eased := easedTarget machine bnLimit bnLast algoGap nGapThreshold
      let minimum := min bnLimit (bnLast * 4 ^ resetSteps algoGap nGapThreshold)
      let nBits := getCompact machine eased
      eased = minimum ∧ eased = easedTarget unbounded bnLimit bnLast algoGap nGapThreshold ∧
        nBits = getCompact unbounded minimum ∧
        eased ≤ bnLimit ∧ DecodesWithin (setCompact nBits) bnLimit ∧
        ∀ algoGap', algoGap ≤ algoGap' → algoGap' - nGapThreshold < 2 ^ 31 →
          eased ≤ easedTarget machine bnLimit bnLast algoGap' nGapThreshold ∧
          (setCompact nBits).target ≤ (setCompact (getCompact machine
            (easedTarget machine bnLimit bnLast algoGap' nGapThreshold))).target) ∧
    (∀ (params : PowParams) (pindexLast : PowIndex) (algo : Algo) (gapThresholdOverride : Int)
        (last : PowBlock) (algoGap : Int), pindexLast.length < 2 ^ 31 →
      HivemindResets params pindexLast algo gapThresholdOverride last algoGap →
      1 ≤ last.target → last.target ≤ resetLimit params algo pindexLast.length →
      hivemind machine params pindexLast algo gapThresholdOverride =
        getCompact unbounded (min (resetLimit params algo pindexLast.length) (last.target *
          4 ^ resetSteps algoGap (gapThreshold params pindexLast.length gapThresholdOverride)))) ∧
    (∀ (params : PowParams) (pindexLast : PowIndex) (algo : Algo) (last : PowBlock) (algoGap : Int),
      pindexLast.length < 2 ^ 31 → LwmaResets params pindexLast algo last algoGap →
      1 ≤ last.target → last.target ≤ resetLimit params algo pindexLast.length →
      lwmaPerAlgo machine params pindexLast algo =
        getCompact unbounded (min (resetLimit params algo pindexLast.length)
          (last.target * 4 ^ resetSteps algoGap (numAlgos * 10)))) ∧
    (∀ (params params' : PowParams) (pindexLast pindexLast' : PowIndex) (algo algo' : Algo)
        (gapThresholdOverride : Int) (last last' : PowBlock) (algoGap : Int),
      pindexLast.length < 2 ^ 31 → pindexLast'.length < 2 ^ 31 →
      HivemindResets params pindexLast algo gapThresholdOverride last algoGap →
      LwmaResets params' pindexLast' algo' last' algoGap →
      last.target = last'.target →
      resetLimit params algo pindexLast.length = resetLimit params' algo' pindexLast'.length →
      gapThreshold params pindexLast.length gapThresholdOverride = numAlgos * 10 →
      hivemind machine params pindexLast algo gapThresholdOverride =
        lwmaPerAlgo machine params' pindexLast' algo') := by
  have hencoded : ∀ {bnLimit bnLast : Nat} {algoGap nGapThreshold : Int}, 0 < bnLast →
      bnLast ≤ bnLimit → bnLimit < 2 ^ 256 → nGapThreshold ≤ algoGap →
      algoGap - nGapThreshold < 2 ^ 31 →
      getCompact machine (easedTarget machine bnLimit bnLast algoGap nGapThreshold) =
        getCompact unbounded (min bnLimit (bnLast * 4 ^ resetSteps algoGap nGapThreshold)) := by
    intro bnLimit bnLast algoGap nGapThreshold hpos hlast hlimit hgap hfits
    rw [easedTarget_machine hpos hlast hlimit hgap hfits]
    exact getCompact_machine (min_eased_range hpos hlast hlimit _).2
  refine ⟨?_, ?_, ?_, ?_⟩
  · intro bnLimit bnLast algoGap nGapThreshold hpos hlast hlimit hgap hfits eased minimum nBits
    have hexact : eased = minimum := easedTarget_machine hpos hlast hlimit hgap hfits
    have hbits : nBits = getCompact unbounded minimum := hencoded hpos hlast hlimit hgap hfits
    obtain ⟨hexactPos, hexactLt⟩ := min_eased_range hpos hlast hlimit (resetSteps algoGap nGapThreshold)
    have hexactLe : minimum ≤ bnLimit := Nat.min_le_left _ _
    refine ⟨hexact, ?_, hbits, hexact ▸ hexactLe, ?_, ?_⟩
    · rw [hexact, easedTarget_unbounded hlast hgap]
    · rw [hbits]
      exact (decodesWithin_getCompact hexactPos hexactLt).mono hexactLe
    · intro algoGap' hlater hfits'
      have hgap' : nGapThreshold ≤ algoGap' := by omega
      have hgrows : minimum ≤ min bnLimit (bnLast * 4 ^ resetSteps algoGap' nGapThreshold) := by
        refine min_le_min_left bnLimit (Nat.mul_le_mul_left bnLast ?_)
        exact Nat.pow_le_pow_right (by decide) (resetSteps_mono nGapThreshold hlater)
      have hexactLt' := (min_eased_range hpos hlast hlimit (resetSteps algoGap' nGapThreshold)).2
      refine ⟨?_, ?_⟩
      · rw [hexact, easedTarget_machine hpos hlast hlimit hgap' hfits']
        exact hgrows
      · rw [hbits, hencoded hpos hlast hlimit hgap' hfits']
        exact setCompact_getCompact_mono hexactPos hgrows hexactLt'
  · intro params pindexLast algo gapThresholdOverride last algoGap hlength hresets hpos hlast
    have hlt := hresets.algoGap_lt hlength
    have hthreshold := gapThreshold_pos params pindexLast.length gapThresholdOverride
    rw [hresets.hivemind hlength]
    exact hencoded hpos hlast (resetLimit_lt params algo _) hresets.stalled (by omega)
  · intro params pindexLast algo last algoGap hlength hresets hpos hlast
    have hlt := hresets.algoGap_lt hlength
    rw [hresets.lwmaPerAlgo hlength]
    exact hencoded hpos hlast (resetLimit_lt params algo _) hresets.stalled
      (by unfold numAlgos; omega)
  · intro params params' pindexLast pindexLast' algo algo' gapThresholdOverride last last' algoGap
      hlength hlength' hresets hresets' hlast hlimit hthreshold
    rw [hresets.hivemind hlength, hresets'.lwmaPerAlgo hlength', hlast, hlimit, hthreshold]

def resetParams : PowParams :=
  { PowParams.main with nDiffFloorHeight := 1, nDaaRetargetFixHeight := 1, nHMPRearmHeight := 1 }

def stalledIndex : PowIndex :=
  List.replicate 45 ⟨1700000000, 0x1f100000, some .equihash192⟩ ++
    [⟨1600000000, 0x1b010000, some .x11⟩]

theorem bounded_gap_reset_stalled :
    hivemind machine resetParams stalledIndex .x11 0 =
        getCompact unbounded (min (0x2717 * 2 ^ 200) (2 ^ 208 * 4 ^ 2)) ∧
      lwmaPerAlgo machine resetParams stalledIndex .x11 =
        getCompact unbounded (min (0x2717 * 2 ^ 200) (2 ^ 208 * 4 ^ 2)) ∧
      hivemind machine resetParams stalledIndex .x11 0 =
        lwmaPerAlgo machine resetParams stalledIndex .x11 := by
  obtain ⟨-, hhivemind, hlwma, hsame⟩ := bounded_gap_reset
  have hfound : getLastBlockIndexForAlgo resetParams .x11 240 stalledIndex =
      some (⟨1600000000, 0x1b010000, some .x11⟩, [⟨1600000000, 0x1b010000, some .x11⟩]) := by
    decide +kernel
  have hnewest : (sameAlgo .x11 stalledIndex).head? =
      some (⟨1600000000, 0x1b010000, some .x11⟩, 0) := by
    decide +kernel
  have hresets : HivemindResets resetParams stalledIndex .x11 0
      ⟨1600000000, 0x1b010000, some .x11⟩ 45 :=
    ⟨by decide +kernel, by decide +kernel, ⟨_, hfound, by decide +kernel⟩, by decide +kernel⟩
  have hresets' : LwmaResets resetParams stalledIndex .x11 ⟨1600000000, 0x1b010000, some .x11⟩ 45 :=
    ⟨by decide +kernel, ⟨0, hnewest, by decide +kernel⟩, by decide +kernel⟩
  have hlimit : resetLimit resetParams .x11 stalledIndex.length = 0x2717 * 2 ^ 200 := by
    decide +kernel
  have htarget : PowBlock.target ⟨1600000000, 0x1b010000, some .x11⟩ = 2 ^ 208 := by
    decide +kernel
  have hleft := hhivemind resetParams stalledIndex .x11 0 _ 45 (by decide) hresets
    (by decide +kernel) (by decide +kernel)
  have hright := hlwma resetParams stalledIndex .x11 _ 45 (by decide) hresets' (by decide +kernel)
    (by decide +kernel)
  exact ⟨hleft, hright, hsame _ _ _ _ _ _ _ _ _ 45 (by decide) (by decide) hresets hresets' rfl rfl
    (by decide +kernel)⟩

end Kerrigan.Pow
