import Kerrigan.Pow.Difficulty

/-!
# The range of the difficulty arithmetic

With the mainnet parameters and targets in range, nothing in `Hivemind` or `LwmaPerAlgo` wraps, and
what they return decodes to a target within the limit of the algorithm.
-/

namespace Kerrigan.Pow

open Lib Consensus Lib.Width PowIndex PowParams List

/-! ## Limits -/

variable {limit : Nat}

theorem DecodesWithin.mono {decoded : Decoded} {limit' : Nat} (h : DecodesWithin decoded limit)
    (hle : limit ≤ limit') : DecodesWithin decoded limit' :=
  ⟨h.1, h.2.1, h.2.2.1, h.2.2.2.trans hle⟩

def ComputesWithin (compute : Width → Nat) (limit : Nat) : Prop :=
  compute machine = compute unbounded ∧ DecodesWithin (setCompact (compute machine)) limit

variable {compute : Width → Nat}

theorem ComputesWithin.congr {compute' : Width → Nat} (h : ComputesWithin compute' limit)
    (hmachine : compute machine = compute' machine)
    (hunbounded : compute unbounded = compute' unbounded) : ComputesWithin compute limit := by
  unfold ComputesWithin
  rw [hmachine, hunbounded]
  exact h

theorem ComputesWithin.getCompact (heq : compute machine = compute unbounded)
    (hpos : 0 < compute unbounded) (hle : compute unbounded ≤ limit) (hlimit : limit < 2 ^ 256) :
    ComputesWithin (fun width => getCompact width (compute width)) limit := by
  have hlt : compute unbounded < 2 ^ 256 := lt_of_le_of_lt hle hlimit
  have hencoded : Pow.getCompact machine (compute machine) =
      Pow.getCompact unbounded (compute unbounded) := by
    rw [heq, getCompact_machine hlt]
  refine ⟨hencoded, ?_⟩
  simp only [hencoded]
  exact (decodesWithin_getCompact hpos hlt).mono hle

namespace PowParams

theorem main_powLimitAlgo_le (algo : Algo) : main.powLimitAlgo algo ≤ 2 ^ 244 := by
  cases algo <;> decide

theorem main_powLimitFloorAlgo_le (algo : Algo) :
    main.powLimitFloorAlgo algo ≤ main.powLimitAlgo algo := by
  cases algo <;> decide

theorem main_powLimitFloorAlgo_pos (algo : Algo) : 0 < main.powLimitFloorAlgo algo := by
  cases algo <;> decide

theorem main_powLimitFloorAlgo_le_effective (algo : Algo) (nHeight : Int) :
    main.powLimitFloorAlgo algo ≤ main.effectivePowLimit algo nHeight := by
  unfold effectivePowLimit
  split
  · exact le_rfl
  · exact main_powLimitFloorAlgo_le algo

theorem main_effectivePowLimit_pos (algo : Algo) (nHeight : Int) :
    0 < main.effectivePowLimit algo nHeight :=
  lt_of_lt_of_le (main_powLimitFloorAlgo_pos algo) (main_powLimitFloorAlgo_le_effective algo _)

theorem main_effectivePowLimit_le (algo : Algo) (nHeight : Int) :
    main.effectivePowLimit algo nHeight ≤ main.powLimitAlgo algo := by
  unfold effectivePowLimit
  split
  · exact main_powLimitFloorAlgo_le algo
  · exact le_rfl

theorem main_effectivePowLimit_lt (algo : Algo) (nHeight : Int) :
    main.effectivePowLimit algo nHeight < 2 ^ 256 := by
  have hle := (main_effectivePowLimit_le algo nHeight).trans (main_powLimitAlgo_le algo)
  omega

theorem computesWithin_effectivePowLimitForAlgo (algo : Algo) (nHeight : Int) :
    ComputesWithin (fun width => main.effectivePowLimitForAlgo width algo nHeight)
      (main.effectivePowLimit algo nHeight) :=
  ComputesWithin.getCompact rfl (main_effectivePowLimit_pos algo nHeight) le_rfl
    (main_effectivePowLimit_lt algo nHeight)

end PowParams

/-! ## Blocks of an index -/

/-- The targets of the blocks are at least a bound and within the limits of their algorithms. -/
def TargetsInRange (params : PowParams) (index : PowIndex) : Prop :=
  ∀ block ∈ index, ∀ algo, block.algo = some algo →
    2 ^ 24 ≤ block.target ∧ block.target ≤ params.powLimitAlgo algo

namespace PowBlock

theorem getBlockTime_bounds (block : PowBlock) :
    0 ≤ block.getBlockTime ∧ block.getBlockTime < 2 ^ 32 := by
  have hlt := block.nTime.toNat_lt
  unfold getBlockTime
  omega

end PowBlock

namespace PowIndex

theorem nextHeight_machine {index : PowIndex} (hlength : index.length < 2 ^ 31) :
    machine.int32 (index.nHeight + 1) = index.length := by
  have hheight : index.nHeight + 1 = index.length := by
    unfold nHeight
    omega
  rw [hheight, machine_int32 (by omega) (by omega)]

theorem nextHeight_unbounded (index : PowIndex) :
    unbounded.int32 (index.nHeight + 1) = index.length := by
  rw [unbounded_int32]
  unfold nHeight
  omega

theorem getMedianTimePast_bounds (index : PowIndex) :
    0 ≤ index.getMedianTimePast ∧ index.getMedianTimePast < 2 ^ 32 := by
  unfold getMedianTimePast
  rw [getD_eq_getElem?_getD]
  cases hmedian : (((index.take 11).map PowBlock.getBlockTime).insertionSort (· ≤ ·))[
      (((index.take 11).map PowBlock.getBlockTime).insertionSort (· ≤ ·)).length / 2]? with
  | none => exact ⟨le_rfl, by decide⟩
  | some time =>
    have hmem := (mem_insertionSort _).mp (mem_of_getElem? hmedian)
    obtain ⟨block, -, rfl⟩ := mem_map.mp hmem
    exact block.getBlockTime_bounds

end PowIndex

variable {algo : Algo} {params : PowParams} {maxDepth : Nat} {index : PowIndex}

theorem getLastBlockIndexForAlgo_spec {found : PowIndex} {block : PowBlock}
    (h : getLastBlockIndexForAlgo params algo maxDepth index = some (block, found)) :
    block ∈ index ∧ block.algo = some algo ∧ 0 < found.length ∧ found.length ≤ index.length := by
  induction maxDepth generalizing index with
  | zero => simp [getLastBlockIndexForAlgo] at h
  | succ maxDepth ih =>
    cases index with
    | nil => simp [getLastBlockIndexForAlgo] at h
    | cons pindex pprev =>
      rw [getLastBlockIndexForAlgo] at h
      have hlater : getLastBlockIndexForAlgo params algo maxDepth pprev = some (block, found) →
          block ∈ pindex :: pprev ∧ block.algo = some algo ∧ 0 < found.length ∧
            found.length ≤ (pindex :: pprev).length := by
        intro hfound
        obtain ⟨hmem, halgo, hpos, hle⟩ := ih hfound
        exact ⟨mem_cons_of_mem _ hmem, halgo, hpos, hle.trans (by simp)⟩
      split at h
      · exact hlater h
      · rename_i halgo
        split at h
        · exact hlater h
        · cases h
          exact ⟨mem_cons_self, not_not.mp halgo, by simp, le_rfl⟩

/-! ## The bounded reset -/

variable {bnLimit : Nat}

theorem easeTowards_spec (hlimit : bnLimit < 2 ^ 256) (steps : Nat) {bnEased : Nat}
    (hpos : 0 < bnEased) :
    easeTowards machine bnLimit steps bnEased = easeTowards unbounded bnLimit steps bnEased ∧
      (0 < bnLimit → 0 < easeTowards unbounded bnLimit steps bnEased) := by
  induction steps generalizing bnEased with
  | zero => exact ⟨rfl, fun _ => hpos⟩
  | succ steps ih =>
    unfold easeTowards
    split
    case isTrue hbelow =>
      split
      case isTrue hnear => exact ⟨rfl, id⟩
      case isFalse hfar =>
        have hfits : bnEased * 2 ^ 2 < 2 ^ 256 := by omega
        rw [machine_big hfits, unbounded_big]
        exact ih (by omega)
    case isFalse => exact ⟨rfl, fun _ => hpos⟩

variable {algoGap : Int}

theorem computesWithin_boundedReset {last : PowBlock} {nGapThreshold : Int}
    {nResetLimit : Width → Nat} (hlimit : limit < 2 ^ 256)
    (hreset : ComputesWithin nResetLimit limit) (hlast : 0 < last.target) (hpos : 0 < nGapThreshold)
    (hgap : nGapThreshold ≤ algoGap) (hlt : algoGap < 2 ^ 31) :
    ComputesWithin (fun width =>
      boundedReset width last (nResetLimit width) algoGap nGapThreshold) limit := by
  obtain ⟨hsame, -, -, hresetPos, hresetLe⟩ := hreset
  have hdiv : (algoGap - nGapThreshold).tdiv numAlgos = (algoGap - nGapThreshold) / numAlgos :=
    Int.tdiv_eq_ediv_of_nonneg (by omega)
  have hdiff : machine.int32 (algoGap - nGapThreshold) = algoGap - nGapThreshold :=
    machine_int32 (by omega) (by omega)
  have hsteps : machine.int32 (1 + (machine.int32 (algoGap - nGapThreshold)).tdiv numAlgos) =
      1 + (algoGap - nGapThreshold).tdiv numAlgos := by
    rw [hdiff, hdiv]
    unfold numAlgos
    rw [machine_int32 (by omega) (by omega)]
  have hlimitLt := lt_of_le_of_lt hresetLe hlimit
  obtain ⟨heased, heasedPos⟩ := easeTowards_spec hlimitLt
    (1 + (algoGap - nGapThreshold).tdiv numAlgos).toNat hlast
  refine ComputesWithin.getCompact ?_ ?_ ?_ hlimit
  · simp only [hsteps, unbounded_int32, heased, ← hsame]
  · simp only [unbounded_int32, ← hsame]
    split
    · exact hresetPos
    · exact heasedPos hresetPos
  · simp only [unbounded_int32, ← hsame]
    split <;> omega

/-! ## `Hivemind` -/

theorem actualTimespan_machine (nNextHeight : Int) (pindexLast pindexFirst : PowIndex) :
    actualTimespan machine main nNextHeight pindexLast pindexFirst =
      actualTimespan unbounded main nNextHeight pindexLast pindexFirst := by
  obtain ⟨hlastLow, hlastHigh⟩ := pindexLast.getMedianTimePast_bounds
  obtain ⟨hfirstLow, hfirstHigh⟩ := pindexFirst.getMedianTimePast_bounds
  unfold actualTimespan
  generalize pindexLast.getMedianTimePast = last at *
  generalize pindexFirst.getMedianTimePast = first at *
  have haverage : averagingTargetTimespan machine main = 4800 := by decide
  have haverage' : averagingTargetTimespan unbounded main = 4800 := by decide
  have hbetween : machine.int64 (last - first) = last - first :=
    machine_int64 (by omega) (by omega)
  have hshifted : machine.int64 (last - first - 4800) = last - first - 4800 :=
    machine_int64 (by omega) (by omega)
  have hquarter := Int.natAbs_tdiv_le_natAbs (last - first - 4800) 4
  have hdamped : machine.int64 (4800 + (last - first - 4800).tdiv 4) =
      4800 + (last - first - 4800).tdiv 4 := machine_int64 (by omega) (by omega)
  have hmax : machine.int64 (4800 * (100 + 16)) = 4800 * (100 + 16) := by decide
  simp only [haverage, haverage', hbetween, hshifted, hdamped, hmax, unbounded_int64]
  split
  · have hmin : machine.int64 (4800 * (100 - 16)) = 4800 * (100 - 16) := by decide
    simp only [hmin]
  · have hmin : machine.int64 (4800 * (100 - 8)) = 4800 * (100 - 8) := by decide
    simp only [hmin]

theorem actualTimespan_bounds (nNextHeight : Int) (pindexLast pindexFirst : PowIndex) :
    4032 ≤ actualTimespan unbounded main nNextHeight pindexLast pindexFirst ∧
      actualTimespan unbounded main nNextHeight pindexLast pindexFirst ≤ 5568 := by
  have haverage : averagingTargetTimespan unbounded main = 4800 := by decide
  have hmax : (4800 * (100 + 16) : Int).tdiv 100 = 5568 := by decide
  have hmin : (4800 * (100 - 16) : Int).tdiv 100 = 4032 := by decide
  have hmin' : (4800 * (100 - 8) : Int).tdiv 100 = 4416 := by decide
  unfold actualTimespan
  simp only [haverage, unbounded_int64, hmax]
  split <;> split <;> split <;> omega

theorem globalRetarget_spec {nActualTimespan : Int} {bnTarget : Nat}
    (hlow : 4032 ≤ nActualTimespan) (hhigh : nActualTimespan ≤ 5568)
    (htarget : 2 ^ 24 ≤ bnTarget) :
    globalRetarget machine main nActualTimespan bnTarget =
        globalRetarget unbounded main nActualTimespan bnTarget ∧
      2 ^ 23 ≤ globalRetarget unbounded main nActualTimespan bnTarget ∧
      globalRetarget unbounded main nActualTimespan bnTarget < 2 ^ 244 := by
  have haverage : machine.uint64 (averagingTargetTimespan machine main) = 4800 := by
    decide
  have haverage' : unbounded.uint64 (averagingTargetTimespan unbounded main) = 4800 := by
    decide
  obtain ⟨span, rfl⟩ := Int.eq_ofNat_of_zero_le (show 0 ≤ nActualTimespan by omega)
  unfold globalRetarget
  dsimp only
  rw [haverage, haverage', machine_uint64 (show 0 ≤ (span : Int) by omega) (by omega),
    machine_uint32 (show 0 ≤ (span : Int) by omega) (by omega), unbounded_big, unbounded_uint32,
    unbounded_uint64, Int.toNat_natCast]
  have hspan : 0 < span := by omega
  have hguard : (2 ^ 256 - 1) / span * span ≤ 2 ^ 256 - 1 := Nat.div_mul_le_self _ _
  have hguardLow : 2 ^ 24 ≤ (2 ^ 256 - 1) / span := by
    rw [Nat.le_div_iff_mul_le hspan]
    omega
  generalize (2 ^ 256 - 1) / span = guard at hguard hguardLow
  generalize hbn : (if guard < bnTarget then guard else bnTarget) = bnNew
  have hbnLow : 2 ^ 24 ≤ bnNew := by
    rw [← hbn]
    split <;> omega
  have hbnHigh : bnNew ≤ guard := by
    rw [← hbn]
    split <;> omega
  have hproduct : bnNew * span ≤ 2 ^ 256 - 1 := (Nat.mul_le_mul_right span hbnHigh).trans hguard
  have hproductLow : 2 ^ 24 * 4032 ≤ bnNew * span := Nat.mul_le_mul hbnLow (by omega)
  refine ⟨?_, ?_, ?_⟩
  · rw [machine_big (by omega)]
  · omega
  · omega

variable {bnNew : Nat}

theorem tightenLocal_spec (steps : Nat) (hlow : 2 ^ steps ≤ bnNew) (hhigh : bnNew < 2 ^ 244) :
    tightenLocal machine steps bnNew = tightenLocal unbounded steps bnNew ∧
      0 < tightenLocal unbounded steps bnNew := by
  induction steps generalizing bnNew with
  | zero => exact ⟨rfl, Nat.lt_of_lt_of_le Nat.zero_lt_one hlow⟩
  | succ steps ih =>
    unfold tightenLocal
    rw [machine_big (by omega), unbounded_big]
    refine ih ?_ (by omega)
    omega

theorem easeLocal_spec (hlimit : bnLimit ≤ 2 ^ 244) (hlimitPos : 0 < bnLimit) (steps : Nat)
    (hpos : 0 < bnNew) (hhigh : bnNew ≤ 2 ^ 244) :
    easeLocal machine bnLimit steps bnNew = easeLocal unbounded bnLimit steps bnNew ∧
      0 < easeLocal unbounded bnLimit steps bnNew := by
  induction steps generalizing bnNew with
  | zero => exact ⟨rfl, hpos⟩
  | succ steps ih =>
    unfold easeLocal
    dsimp only
    rw [machine_big (show bnNew * 104 < 2 ^ 256 by omega), unbounded_big]
    split
    case isTrue => exact ⟨rfl, hlimitPos⟩
    case isFalse hbelow => exact ih (by omega) (by omega)

theorem localRetarget_spec (hlimit : bnLimit ≤ 2 ^ 244) (hlimitPos : 0 < bnLimit)
    {prevAlgoHeight lastHeight : Int} (hle : prevAlgoHeight ≤ lastHeight)
    (hnear : lastHeight < prevAlgoHeight + 2 ^ 31) (hlow : 2 ^ 23 ≤ bnNew) (hhigh : bnNew < 2 ^ 244) :
    localRetarget machine bnLimit prevAlgoHeight lastHeight bnNew =
        localRetarget unbounded bnLimit prevAlgoHeight lastHeight bnNew ∧
      0 < localRetarget unbounded bnLimit prevAlgoHeight lastHeight bnNew := by
  have hadjustments : machine.int32
      (machine.int32 (machine.int32 (prevAlgoHeight + numAlgos) - 1) - lastHeight) =
      prevAlgoHeight + numAlgos - 1 - lastHeight := by
    rw [machine_int32_sub, sub_sub, machine_int32_sub, ← sub_sub]
    unfold numAlgos
    exact machine_int32 (by omega) (by omega)
  have hmost : prevAlgoHeight + numAlgos - 1 - lastHeight ≤ 3 := by
    unfold numAlgos
    omega
  unfold localRetarget
  dsimp only
  rw [hadjustments, unbounded_int32, unbounded_int32, unbounded_int32]
  generalize prevAlgoHeight + numAlgos - 1 - lastHeight = raw at hmost
  generalize hcapped : (if 100 < raw then 100 else raw) = capped
  generalize hclamped : (if capped < -100 then -100 else capped) = nAdjustments
  have hatMost : nAdjustments ≤ 3 := by
    rw [← hclamped, ← hcapped]
    split <;> split <;> omega
  split
  · refine tightenLocal_spec nAdjustments.toNat ?_ hhigh
    exact (Nat.pow_le_pow_right (by decide) (show nAdjustments.toNat ≤ 23 by omega)).trans hlow
  · split
    · exact easeLocal_spec hlimit hlimitPos _ (by omega) (by omega)
    · exact ⟨rfl, by omega⟩

theorem cap_le (limit value : Nat) : (if limit < value then limit else value) ≤ limit := by
  split <;> omega

theorem cap_pos {value : Nat} (hlimit : 0 < limit) (hvalue : 0 < value) :
    0 < if limit < value then limit else value := by
  split <;> assumption

theorem capTarget_pos (algo : Algo) (nNextHeight : Int) (hpos : 0 < bnNew) :
    0 < capTarget main algo nNextHeight bnNew := by
  have hfloor := main_powLimitFloorAlgo_pos algo
  have hlimit := lt_of_lt_of_le hfloor (main_powLimitFloorAlgo_le algo)
  unfold capTarget
  by_cases hactive : Params.scheduledAt main.nDiffFloorHeight nNextHeight
  · rw [if_pos hactive]
    exact cap_pos hfloor (cap_pos hlimit hpos)
  · rw [if_neg hactive]
    exact cap_pos hlimit hpos

theorem capTarget_le (algo : Algo) (nNextHeight : Int) (bnNew : Nat) :
    capTarget main algo nNextHeight bnNew ≤
      main.effectivePowLimit algo nNextHeight := by
  unfold capTarget effectivePowLimit
  by_cases hactive : Params.scheduledAt main.nDiffFloorHeight nNextHeight
  · rw [if_pos hactive, if_pos hactive]
    exact cap_le _ _
  · rw [if_neg hactive, if_neg hactive]
    exact cap_le _ _

variable {pindexLast : PowIndex} {prevAlgo : PowBlock} {pindexPrevAlgo : PowIndex}

theorem computesWithin_retarget {pindexFirst : PowIndex} (nNextHeight : Int)
    (htarget : 2 ^ 24 ≤ prevAlgo.target) (hlength : pindexLast.length < 2 ^ 31)
    (hpos : 0 < pindexPrevAlgo.length) (hle : pindexPrevAlgo.length ≤ pindexLast.length) :
    ComputesWithin (fun width => getCompact width (capTarget main algo nNextHeight
      (localRetarget width (main.powLimitAlgo algo) pindexPrevAlgo.nHeight
        pindexLast.nHeight (globalRetarget width main
          (actualTimespan width main nNextHeight pindexLast pindexFirst)
          prevAlgo.target))))
      (main.effectivePowLimit algo nNextHeight) := by
  obtain ⟨hspanLow, hspanHigh⟩ := actualTimespan_bounds nNextHeight pindexLast pindexFirst
  obtain ⟨hglobal, hglobalLow, hglobalHigh⟩ := globalRetarget_spec hspanLow hspanHigh htarget
  have hlimitPos := lt_of_lt_of_le (main_powLimitFloorAlgo_pos algo)
    (main_powLimitFloorAlgo_le algo)
  have hheights : pindexPrevAlgo.nHeight ≤ pindexLast.nHeight ∧
      pindexLast.nHeight < pindexPrevAlgo.nHeight + 2 ^ 31 := by
    unfold nHeight
    omega
  obtain ⟨hlocal, hlocalPos⟩ := localRetarget_spec (main_powLimitAlgo_le algo) hlimitPos
    hheights.1 hheights.2 hglobalLow hglobalHigh
  refine ComputesWithin.getCompact ?_ (capTarget_pos algo nNextHeight hlocalPos)
    (capTarget_le algo nNextHeight _) (main_effectivePowLimit_lt algo nNextHeight)
  rw [actualTimespan_machine, hglobal, hlocal]

theorem gapThreshold_pos (params : PowParams) (nNextHeight gapThresholdOverride : Int) :
    0 < gapThreshold params nNextHeight gapThresholdOverride := by
  unfold gapThreshold numAlgos
  split
  · assumption
  · split <;> decide

variable {nNextHeight : Int}

theorem hivemind_eq {width : Width} (gapThresholdOverride : Int)
    (hnext : width.int32 (pindexLast.nHeight + 1) = nNextHeight)
    (hfound : getLastBlockIndexForAlgo params algo 240 pindexLast =
      some (prevAlgo, pindexPrevAlgo))
    (hgap : width.int32 (pindexLast.nHeight - pindexPrevAlgo.nHeight) = algoGap) :
    hivemind width params pindexLast algo gapThresholdOverride =
      if pindexLast.drop 40 = [] then params.effectivePowLimitForAlgo width algo nNextHeight
      else if gapThreshold params nNextHeight gapThresholdOverride ≤ algoGap then
        if ¬ params.IsDaaRetargetFixActive nNextHeight then
          params.effectivePowLimitForAlgo width algo nNextHeight
        else boundedReset width prevAlgo (params.effectivePowLimitForAlgo width algo nNextHeight)
          algoGap (gapThreshold params nNextHeight gapThresholdOverride)
      else getCompact width (capTarget params algo nNextHeight
        (localRetarget width (params.powLimitAlgo algo) pindexPrevAlgo.nHeight pindexLast.nHeight
          (globalRetarget width params
            (actualTimespan width params nNextHeight pindexLast (pindexLast.drop 40))
            prevAlgo.target))) := by
  subst hnext hgap
  unfold hivemind
  rw [hfound]

theorem computesWithin_hivemind (hrange : TargetsInRange main pindexLast)
    (hlength : pindexLast.length < 2 ^ 31) (algo : Algo) (gapThresholdOverride : Int) :
    ComputesWithin (fun width =>
      hivemind width main pindexLast algo gapThresholdOverride)
      (main.effectivePowLimit algo pindexLast.length) := by
  have hlimit := computesWithin_effectivePowLimitForAlgo algo pindexLast.length
  have hnext := pindexLast.nextHeight_machine hlength
  have hnext' := pindexLast.nextHeight_unbounded
  cases hfound : getLastBlockIndexForAlgo main algo 240 pindexLast with
  | none =>
    refine hlimit.congr ?_ ?_
    · simp only [hivemind, hfound, hnext]
    · simp only [hivemind, hfound, hnext']
  | some found =>
    obtain ⟨prevAlgo, pindexPrevAlgo⟩ := found
    obtain ⟨hmem, halgo, hpos, hle⟩ := getLastBlockIndexForAlgo_spec hfound
    have htarget := (hrange prevAlgo hmem algo halgo).1
    have hgap : machine.int32 (pindexLast.nHeight - pindexPrevAlgo.nHeight) =
        pindexLast.nHeight - pindexPrevAlgo.nHeight := by
      unfold nHeight
      exact machine_int32 (by omega) (by omega)
    have hgapLt : pindexLast.nHeight - pindexPrevAlgo.nHeight < 2 ^ 31 := by
      unfold nHeight
      omega
    have hmachine := hivemind_eq gapThresholdOverride hnext hfound hgap
    have hunbounded := hivemind_eq gapThresholdOverride hnext' hfound (unbounded_int32 _)
    by_cases hfirst : pindexLast.drop 40 = []
    · exact hlimit.congr (by rw [hmachine, if_pos hfirst]) (by rw [hunbounded, if_pos hfirst])
    rw [if_neg hfirst] at hmachine hunbounded
    by_cases hstalled : gapThreshold main pindexLast.length gapThresholdOverride ≤
        pindexLast.nHeight - pindexPrevAlgo.nHeight
    · rw [if_pos hstalled] at hmachine hunbounded
      by_cases hfix : main.IsDaaRetargetFixActive pindexLast.length
      · rw [if_neg (not_not.mpr hfix)] at hmachine hunbounded
        have hreset := computesWithin_boundedReset
          (main_effectivePowLimit_lt algo pindexLast.length) hlimit
          (lt_of_lt_of_le (by decide) htarget) (gapThreshold_pos _ _ _) hstalled hgapLt
        exact hreset.congr hmachine hunbounded
      · rw [if_pos hfix] at hmachine hunbounded
        exact hlimit.congr hmachine hunbounded
    · rw [if_neg hstalled] at hmachine hunbounded
      exact (computesWithin_retarget pindexLast.length htarget hlength hpos hle).congr
        hmachine hunbounded

/-! ## `LwmaPerAlgo` -/

theorem collectSameAlgo_spec {wanted : Nat} {entry : PowBlock × Int}
    (h : entry ∈ collectSameAlgo algo maxDepth wanted index) :
    entry.1 ∈ index ∧ entry.1.algo = some algo ∧ 0 ≤ entry.2 ∧ entry.2 ≤ index.nHeight := by
  induction maxDepth generalizing wanted index with
  | zero => simp [collectSameAlgo] at h
  | succ maxDepth ih =>
    cases index with
    | nil => simp [collectSameAlgo] at h
    | cons block pprev =>
      have hheight : nHeight (block :: pprev) = pprev.length := by
        simp [nHeight]
      have hlater : ∀ wanted', entry ∈ collectSameAlgo algo maxDepth wanted' pprev →
          entry.1 ∈ block :: pprev ∧ entry.1.algo = some algo ∧ 0 ≤ entry.2 ∧
            entry.2 ≤ nHeight (block :: pprev) := by
        intro wanted' hentry
        obtain ⟨hmem, halgo, hlow, hhigh⟩ := ih hentry
        refine ⟨mem_cons_of_mem _ hmem, halgo, hlow, ?_⟩
        unfold nHeight at hhigh
        omega
      rw [collectSameAlgo] at h
      split at h
      · cases h
      · split at h
        case isTrue halgo =>
          rcases mem_cons.mp h with rfl | hentry
          · exact ⟨mem_cons_self, halgo, by omega, le_rfl⟩
          · exact hlater _ hentry
        case isFalse => exact hlater _ h

theorem length_collectSameAlgo_le (algo : Algo) (maxDepth wanted : Nat) (index : PowIndex) :
    (collectSameAlgo algo maxDepth wanted index).length ≤ wanted := by
  induction maxDepth generalizing wanted index with
  | zero => simp [collectSameAlgo]
  | succ maxDepth ih =>
    cases index with
    | nil => simp [collectSameAlgo]
    | cons block pprev =>
      rw [collectSameAlgo]
      split
      · simp
      · split
        · have hrest := ih (wanted - 1) pprev
          simp only [length_cons]
          omega
        · exact ih wanted pprev

theorem clamp_bounds {low high : Int} (hle : low ≤ high) (value : Int) :
    let capped := if high < value then high else value
    low ≤ (if capped < low then low else capped) ∧
      (if capped < low then low else capped) ≤ high := by
  intro capped
  have hcapped : capped ≤ high := by
    change (if high < value then high else value) ≤ high
    split <;> omega
  constructor
  · split <;> omega
  · split <;> omega

theorem solvetime_spec (prev cur : PowBlock) :
    solvetime machine 480 prev cur = solvetime unbounded 480 prev cur ∧
      -2880 ≤ solvetime unbounded 480 prev cur ∧ solvetime unbounded 480 prev cur ≤ 2880 := by
  obtain ⟨hprevLow, hprevHigh⟩ := prev.getBlockTime_bounds
  obtain ⟨hcurLow, hcurHigh⟩ := cur.getBlockTime_bounds
  have hbetween : machine.int64 (cur.getBlockTime - prev.getBlockTime) =
      cur.getBlockTime - prev.getBlockTime := machine_int64 (by omega) (by omega)
  have hmost : machine.int64 (6 * 480) = 6 * 480 := by decide
  have hleast : machine.int64 (-5 * 480) = -5 * 480 := by decide
  obtain ⟨hlow, hhigh⟩ := clamp_bounds (show (-5 * 480 : Int) ≤ 6 * 480 by decide)
    (cur.getBlockTime - prev.getBlockTime)
  refine ⟨?_, le_trans (by decide) hlow, hhigh⟩
  unfold solvetime
  rw [hbetween, hmost, hleast]
  rfl

theorem windowSums_spec (hlimit : limit ≤ 2 ^ 244) (window : List PowBlock) :
    ∀ (weight : Nat) (prev : PowBlock) (solved : Int) (targets : Nat),
      weight + window.length ≤ 61 → (∀ block ∈ window, block.target ≤ limit) →
      -(2880 * (weight * (weight - 1 : Int))) ≤ 2 * solved →
      2 * solved ≤ 2880 * (weight * (weight - 1 : Int)) → targets ≤ weight * limit →
      let sums := windowSums unbounded 480 weight prev window (solved, targets)
      windowSums machine 480 weight prev window (solved, targets) = sums ∧
        2 * sums.1 ≤ 2880 * ((weight + window.length : Nat) *
          ((weight + window.length : Nat) - 1 : Int)) ∧
        sums.2 ≤ (weight + window.length) * limit := by
  induction window with
  | nil =>
    intro weight prev solved targets _ _ _ hhigh htargets
    exact ⟨rfl, by simpa [windowSums] using hhigh, by simpa [windowSums] using htargets⟩
  | cons cur rest ih =>
    intro weight prev solved targets hlength hwindow hlow hhigh htargets
    obtain ⟨hsolve, hsolveLow, hsolveHigh⟩ := solvetime_spec prev cur
    rw [windowSums, windowSums, hsolve]
    generalize solvetime unbounded 480 prev cur = solve at *
    have htarget := hwindow cur mem_cons_self
    rw [length_cons] at hlength
    have hnext : ((weight + 1 : Nat) : Int) * ((weight + 1 : Nat) - 1 : Int) =
        weight * (weight - 1) + 2 * weight := by
      push_cast
      ring
    have hterm : -(2880 * weight) ≤ solve * weight ∧ solve * weight ≤ 2880 * weight := by
      constructor
      · exact Int.mul_le_mul_of_nonneg_right hsolveLow (by omega)
      · exact Int.mul_le_mul_of_nonneg_right hsolveHigh (by omega)
    have hsquare : (weight : Int) * (weight - 1) ≤ 61 * 61 := by
      rcases Nat.eq_zero_or_pos weight with rfl | hpos
      · decide
      · exact Int.mul_le_mul (by omega) (by omega) (by omega) (by decide)
    have htargetsNext : targets + cur.target ≤ (weight + 1) * limit := by
      rw [Nat.succ_mul]
      exact Nat.add_le_add htargets htarget
    have hfits : (weight + 1) * limit ≤ 62 * 2 ^ 244 := Nat.mul_le_mul (by omega) hlimit
    have hweighted : machine.int64 (solve * weight) = solve * weight :=
      machine_int64 (by omega) (by omega)
    have hsolved : machine.int64 (solved + solve * weight) = solved + solve * weight :=
      machine_int64 (by omega) (by omega)
    rw [hweighted, hsolved, machine_big (by omega)]
    have hrest := ih (weight + 1) cur (solved + solve * weight) (targets + cur.target) (by omega)
      (fun block hblock => hwindow block (mem_cons_of_mem _ hblock)) (by omega) (by omega)
      htargetsNext
    rw [Nat.add_assoc, Nat.add_comm 1] at hrest
    exact hrest

def weightSum (neff : Nat) : Nat := neff * (neff + 1) / 2 * 480

theorem two_mul_weightSum (neff : Nat) : 2 * weightSum neff = 480 * (neff * (neff + 1)) := by
  have heven := Nat.div_two_mul_two_of_even (Nat.even_mul_succ_self neff)
  unfold weightSum
  omega

variable {neff : Nat}

theorem weightSum_le (hneff : neff ≤ 60) : weightSum neff ≤ 878400 := by
  have hdouble := two_mul_weightSum neff
  have hproduct := Nat.mul_le_mul hneff (show neff + 1 ≤ 61 by omega)
  omega

def boundedSolvetimes (neff : Nat) (solved : Int) : Int := max (weightSum neff / 20 : Nat) solved

theorem boundedSolvetimes_nonneg (neff : Nat) (solved : Int) : 0 ≤ boundedSolvetimes neff solved :=
  le_max_of_le_left (Int.natCast_nonneg _)

theorem boundedSolvetimes_le {solved : Int}
    (hsolved : 2 * solved ≤ 2880 * ((neff + 1 : Nat) * ((neff + 1 : Nat) - 1 : Int))) :
    boundedSolvetimes neff solved ≤ (6 * weightSum neff : Nat) := by
  have hdouble := congrArg (fun value : Nat => (value : Int)) (two_mul_weightSum neff)
  push_cast at hsolved hdouble
  rw [Int.add_sub_cancel, Int.mul_comm ((neff : Int) + 1)] at hsolved
  refine max_le ?_ ?_
  · omega
  · omega

theorem weightSum_cast (neff : Nat) :
    ((neff : Int) * (neff + 1)).tdiv 2 * 480 = weightSum neff ∧
      (weightSum neff : Int).tdiv 20 = (weightSum neff / 20 : Nat) := by
  constructor
  · rfl
  · rfl

theorem boundedSolvetimes_eq (neff : Nat) (solved : Int) :
    (if solved < (weightSum neff / 20 : Nat) then ((weightSum neff / 20 : Nat) : Int) else solved) =
      boundedSolvetimes neff solved := by
  unfold boundedSolvetimes
  split <;> omega

theorem lwmaTarget_unbounded (neff : Nat) (sums : Int × Nat) :
    lwmaTarget unbounded 480 neff sums =
      sums.2 / neff / weightSum neff * (boundedSolvetimes neff sums.1).toNat := by
  obtain ⟨hk, hk20⟩ := weightSum_cast neff
  unfold lwmaTarget
  dsimp only
  rw [unbounded_int64, unbounded_int64, hk, hk20, boundedSolvetimes_eq, unbounded_big,
    unbounded_uint32, unbounded_uint32, unbounded_uint32, Int.toNat_natCast, Int.toNat_natCast]

variable {sums : Int × Nat}

theorem lwmaTarget_le
    (hsolved : 2 * sums.1 ≤ 2880 * ((neff + 1 : Nat) * ((neff + 1 : Nat) - 1 : Int))) :
    lwmaTarget unbounded 480 neff sums ≤ 6 * (sums.2 / neff) := by
  have hweighted := boundedSolvetimes_le hsolved
  rw [lwmaTarget_unbounded]
  calc sums.2 / neff / weightSum neff * (boundedSolvetimes neff sums.1).toNat
      ≤ sums.2 / neff / weightSum neff * (6 * weightSum neff) :=
        Nat.mul_le_mul_left _ (by omega)
    _ = 6 * (sums.2 / neff / weightSum neff * weightSum neff) := by ring
    _ ≤ 6 * (sums.2 / neff) := Nat.mul_le_mul_left 6 (Nat.div_mul_le_self _ _)

theorem lwmaTarget_machine (hneff : neff ≤ 60)
    (hsolved : 2 * sums.1 ≤ 2880 * ((neff + 1 : Nat) * ((neff + 1 : Nat) - 1 : Int)))
    (htargets : sums.2 ≤ 61 * 2 ^ 244) :
    lwmaTarget machine 480 neff sums = lwmaTarget unbounded 480 neff sums := by
  obtain ⟨hk, hk20⟩ := weightSum_cast neff
  have hweights := weightSum_le hneff
  have hdouble := two_mul_weightSum neff
  have hproduct : machine.int64 ((neff : Int) * (neff + 1)) = (neff : Int) * (neff + 1) := by
    have hcast : (neff : Int) * (neff + 1) = (neff * (neff + 1) : Nat) := by
      rfl
    exact machine_int64 (by omega) (by omega)
  have hweighted := boundedSolvetimes_le hsolved
  have hmost := lwmaTarget_le hsolved
  have hmean := Nat.div_le_self sums.2 neff
  rw [lwmaTarget_unbounded] at hmost ⊢
  unfold lwmaTarget
  dsimp only
  rw [hproduct, hk, machine_int64 (by omega) (by omega), hk20, boundedSolvetimes_eq,
    machine_uint32 (by omega) (by omega), machine_uint32 (by omega) (by omega),
    machine_uint32 (boundedSolvetimes_nonneg _ _) (by omega), Int.toNat_natCast,
    Int.toNat_natCast]
  exact machine_big (by omega)

variable {window : List PowBlock}

theorem window_machine (hlimit : limit ≤ 2 ^ 244) (oldest : PowBlock) (hlength : window.length ≤ 60)
    (hwindow : ∀ block ∈ window, block.target ≤ limit) :
    let sums := windowSums unbounded 480 1 oldest window (0, 0)
    lwmaTarget machine 480 window.length (windowSums machine 480 1 oldest window (0, 0)) =
        lwmaTarget unbounded 480 window.length sums ∧
      2 * sums.1 ≤ 2880 * ((window.length + 1 : Nat) * ((window.length + 1 : Nat) - 1 : Int)) := by
  intro sums
  obtain ⟨hsums, hsolved, htargets⟩ := windowSums_spec hlimit window 1 oldest 0 0 (by omega)
    hwindow (by decide) (by decide) (Nat.zero_le _)
  rw [Nat.add_comm 1] at hsolved htargets
  refine ⟨?_, hsolved⟩
  rw [hsums]
  exact lwmaTarget_machine hlength hsolved (htargets.trans (Nat.mul_le_mul (by omega) hlimit))

theorem computesWithin_lwmaAverage (hlength : window.length ≤ 61)
    (hwindow : ∀ block ∈ window, block.target ≤ main.powLimitAlgo algo) :
    ComputesWithin (fun width => lwmaAverage width main algo nNextHeight window)
      (main.effectivePowLimit algo nNextHeight) := by
  have hlimit := computesWithin_effectivePowLimitForAlgo algo nNextHeight
  match window, hlength, hwindow with
  | [], _, _ => exact hlimit
  | [_], _, _ => exact hlimit
  | oldest :: first :: rest, hlength, hwindow =>
    simp only [length_cons] at hlength
    have hspacing : machine.int64 (main.nPowTargetSpacing * numAlgos) = 480 := by
      decide
    have hspacing' : unbounded.int64 (main.nPowTargetSpacing * numAlgos) = 480 := by
      decide
    have htarget := (window_machine (main_powLimitAlgo_le algo) oldest
      (by simp only [length_cons]; omega)
      (fun block hblock => hwindow block (mem_cons_of_mem oldest hblock))).1
    rw [length_cons] at htarget
    refine ComputesWithin.getCompact ?_ ?_ ?_
      (main_effectivePowLimit_lt algo nNextHeight)
    · rw [hspacing, hspacing', htarget]
    · split
      · exact main_powLimitFloorAlgo_pos algo
      · omega
    · split
      · exact main_powLimitFloorAlgo_le_effective algo nNextHeight
      · exact capTarget_le algo nNextHeight _

/-- `LwmaPerAlgo` does not wrap, and what it returns decodes within the limit of the next
block. -/
theorem computesWithin_lwmaPerAlgo (hrange : TargetsInRange main pindexLast)
    (hlength : pindexLast.length < 2 ^ 31) (algo : Algo) :
    ComputesWithin (fun width => lwmaPerAlgo width main pindexLast algo)
      (main.effectivePowLimit algo pindexLast.length) := by
  have hlimit := computesWithin_effectivePowLimitForAlgo algo pindexLast.length
  have hnext := pindexLast.nextHeight_machine hlength
  have hnext' := pindexLast.nextHeight_unbounded
  have haverage : ComputesWithin (fun width => lwmaAverage width main algo
      pindexLast.length ((collectSameAlgo algo (61 * 4 * 8) 61 pindexLast).map Prod.fst).reverse)
      (main.effectivePowLimit algo pindexLast.length) := by
    refine computesWithin_lwmaAverage ?_ ?_
    · rw [length_reverse, length_map]
      exact length_collectSameAlgo_le _ _ _ _
    · intro block hblock
      obtain ⟨entry, hentry, rfl⟩ := mem_map.mp (mem_reverse.mp hblock)
      obtain ⟨hmem, halgo, -, -⟩ := collectSameAlgo_spec hentry
      exact (hrange entry.1 hmem algo halgo).2
  cases hfound : collectSameAlgo algo (61 * 4 * 8) 61 pindexLast with
  | nil =>
    refine haverage.congr ?_ ?_
    · simp only [lwmaPerAlgo, hfound, hnext]
    · simp only [lwmaPerAlgo, hfound, hnext']
  | cons newest others =>
    obtain ⟨hmem, halgo, hlow, hhigh⟩ :=
      collectSameAlgo_spec (hfound ▸ mem_cons_self : newest ∈ _)
    have htarget := (hrange newest.1 hmem algo halgo).1
    have hheight : pindexLast.nHeight < 2 ^ 31 := by
      unfold nHeight
      omega
    have hgap : machine.int32 (pindexLast.nHeight - newest.2) = pindexLast.nHeight - newest.2 :=
      machine_int32 (by omega) (by omega)
    by_cases hstalled : main.IsHMPRearmActive pindexLast.length ∧
        numAlgos * 10 ≤ pindexLast.nHeight - newest.2
    · have hreset := computesWithin_boundedReset
        (main_effectivePowLimit_lt algo pindexLast.length) hlimit
        (lt_of_lt_of_le (by decide) htarget) (by decide) hstalled.2 (by omega)
      refine hreset.congr ?_ ?_
      · simp only [lwmaPerAlgo, hfound, hnext, hgap, if_pos hstalled]
      · simp only [lwmaPerAlgo, hfound, hnext', unbounded_int32, if_pos hstalled]
    · refine haverage.congr ?_ ?_
      · simp only [lwmaPerAlgo, hfound, hnext, hgap, if_neg hstalled]
      · simp only [lwmaPerAlgo, hfound, hnext', unbounded_int32, if_neg hstalled]

/-! ## Both adjustments -/

theorem checkProofOfWorkRange_of_decodesWithin {nBits : Nat} {nHeight : Int}
    (h : DecodesWithin (setCompact nBits) (main.effectivePowLimit algo nHeight)) :
    checkProofOfWorkRange main algo nBits = true := by
  obtain ⟨hnegative, hoverflow, hpos, hle⟩ := h
  have hlimit := hle.trans (main_effectivePowLimit_le algo nHeight)
  simp [checkProofOfWorkRange, hnegative, hoverflow, Nat.pos_iff_ne_zero.mp hpos, hlimit]

/-- On mainnet, for every index whose targets are in range, both adjustments give the value of
the same formula over unbounded integers, and it decodes to a target within the limit that the
next block has. -/
theorem difficulty_never_wraps (pindexLast : PowIndex)
    (hrange : TargetsInRange main pindexLast) (hlength : pindexLast.length < 2 ^ 31)
    (algo : Algo) (gapThresholdOverride : Int) :
    let limit := main.effectivePowLimit algo pindexLast.length
    let nBits := hivemind machine main pindexLast algo gapThresholdOverride
    let nBitsLwma := lwmaPerAlgo machine main pindexLast algo
    (nBits = hivemind unbounded main pindexLast algo gapThresholdOverride ∧
      DecodesWithin (setCompact nBits) limit ∧
      checkProofOfWorkRange main algo nBits = true) ∧
    (nBitsLwma = lwmaPerAlgo unbounded main pindexLast algo ∧
      DecodesWithin (setCompact nBitsLwma) limit ∧
      checkProofOfWorkRange main algo nBitsLwma = true) := by
  intro limit nBits nBitsLwma
  obtain ⟨hsame, hdecodes⟩ := computesWithin_hivemind hrange hlength algo gapThresholdOverride
  obtain ⟨hsame', hdecodes'⟩ := computesWithin_lwmaPerAlgo hrange hlength algo
  exact ⟨⟨hsame, hdecodes, checkProofOfWorkRange_of_decodesWithin hdecodes⟩,
    ⟨hsame', hdecodes', checkProofOfWorkRange_of_decodesWithin hdecodes'⟩⟩

def mixedIndex : PowIndex :=
  replicate 30 ⟨1700000000, 0x1f100000, some .equihash192⟩ ++
    [⟨1600000000, 0x04010000, some .x11⟩] ++
    replicate 30 ⟨1500000000, 0x1f100000, some .equihash192⟩

theorem difficulty_never_wraps_mixed :
    TargetsInRange main mixedIndex ∧
    hivemind machine main mixedIndex .equihash192 0 =
      hivemind unbounded main mixedIndex .equihash192 0 ∧
    lwmaPerAlgo machine main mixedIndex .equihash192 =
      lwmaPerAlgo unbounded main mixedIndex .equihash192 := by
  have hrange : TargetsInRange main mixedIndex := by
    intro block hblock algo halgo
    simp only [mixedIndex, mem_append, mem_replicate, mem_singleton] at hblock
    rcases hblock with (⟨-, rfl⟩ | rfl) | ⟨-, rfl⟩ <;> cases halgo <;> decide
  have hranged := difficulty_never_wraps mixedIndex hrange (by decide) .equihash192 0
  exact ⟨hrange, hranged.1.1, hranged.2.1⟩

end Kerrigan.Pow
