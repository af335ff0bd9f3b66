import Kerrigan.Pow.Compact
import Kerrigan.Consensus.Params
import Mathlib.Data.List.Sort

/-!
# Difficulty adjustment

The target of the next block of an algorithm, by `Hivemind` and by `LwmaPerAlgo`.  Both are
written over an interface of integer widths, so that the same formula can be read with the
types of the source and over unbounded integers.  A block index is the list of the blocks from
it down to genesis; its height is one less than the length.
-/

namespace Kerrigan.Pow

open Lib Consensus Params

/-! ## Blocks and parameters -/

inductive Algo
  | x11
  | kawpow
  | equihash200
  | equihash192
  deriving DecidableEq

def numAlgos : Int := 4

/-- What the adjustment reads of a block. -/
structure PowBlock where
  nTime : UInt32
  nBits : UInt32
  algo : Option Algo
  deriving DecidableEq

namespace PowBlock

def getBlockTime (block : PowBlock) : Int := block.nTime.toNat

def target (block : PowBlock) : Nat := (setCompact block.nBits.toNat).target

end PowBlock

abbrev PowIndex := List PowBlock

namespace PowIndex

def nHeight (index : PowIndex) : Int := index.length - 1

def getMedianTimePast (index : PowIndex) : Int :=
  let times := ((index.take 11).map PowBlock.getBlockTime).insertionSort (· ≤ ·)
  times.getD (times.length / 2) 0

end PowIndex

/-- The parameters of the difficulty adjustment. -/
structure PowParams extends Params where
  nPowTargetSpacing : Int
  fPowAllowMinDifficultyBlocks : Bool
  powLimitAlgo : Algo → Nat
  powLimitFloorAlgo : Algo → Nat
  nDiffFloorHeight : Int := 0
  nDaaRetargetFixHeight : Int := 0

variable (params : PowParams) (algo : Algo) (width : Width)

namespace PowParams

def IsDaaRetargetFixActive (height : Int) : Prop :=
  scheduledAt params.nDaaRetargetFixHeight height

instance (params : PowParams) (height : Int) : Decidable (params.IsDaaRetargetFixActive height) :=
  inferInstanceAs (Decidable (scheduledAt _ _))

def effectivePowLimit (nHeight : Int) : Nat :=
  if scheduledAt params.nDiffFloorHeight nHeight then params.powLimitFloorAlgo algo
  else params.powLimitAlgo algo

def effectivePowLimitForAlgo (params : PowParams) (algo : Algo) (nHeight : Int) :
    Nat :=
  getCompact width (params.effectivePowLimit algo nHeight)

def main : PowParams where
  nPowTargetSpacing := 120
  fPowAllowMinDifficultyBlocks := false
  powLimitAlgo
    | .x11 => 0xffff0 * 2 ^ 216
    | .kawpow => 2 ^ 224
    | .equihash200 => 2 ^ 233
    | .equihash192 => 2 ^ 244
  powLimitFloorAlgo
    | .x11 => 0x2717 * 2 ^ 200
    | .kawpow => 0x7f42 * 2 ^ 208
    | .equihash200 => 2 ^ 233
    | .equihash192 => 0x48d1 * 2 ^ 228
  nDiffFloorHeight := 14000
  nDaaRetargetFixHeight := 130000
  nHMPRearmHeight := 148000

end PowParams

def getLastBlockIndexForAlgo (params : PowParams) (algo : Algo) :
    Nat → PowIndex → Option (PowBlock × PowIndex)
  | 0, _ => none
  | _ + 1, [] => none
  | maxDepth + 1, pindex :: pprev =>
      if pindex.algo ≠ some algo then getLastBlockIndexForAlgo params algo maxDepth pprev
      else if params.fPowAllowMinDifficultyBlocks ∧ pprev.head?.any (fun prev =>
          prev.getBlockTime + params.nPowTargetSpacing * 2 < pindex.getBlockTime) then
        getLastBlockIndexForAlgo params algo maxDepth pprev
      else some (pindex, pindex :: pprev)

/-! ## Bounded reset -/

/-- Four times easier with every step, up to the limit. -/
def easeTowards (width : Width) (bnLimit : Nat) : Nat → Nat → Nat
  | 0, bnEased => bnEased
  | steps + 1, bnEased =>
      if bnEased < bnLimit then
        if bnLimit / 2 ^ 2 < bnEased then bnLimit
        else easeTowards width bnLimit steps (width.big (bnEased * 2 ^ 2))
      else bnEased

def boundedReset (width : Width) (last : PowBlock) (nResetLimit : Nat)
    (algoGap nGapThreshold : Int) : Nat :=
  let bnLimit := (setCompact nResetLimit).target
  let nSteps := width.int32 (1 + (width.int32 (algoGap - nGapThreshold)).tdiv numAlgos)
  let bnEased := easeTowards width bnLimit nSteps.toNat last.target
  getCompact width (if bnLimit < bnEased then bnLimit else bnEased)

/-! ## `Hivemind` -/

def averagingTargetTimespan (params : PowParams) : Int :=
  width.int64 (10 * width.int64 (params.nPowTargetSpacing * numAlgos))

/-- The timespan between two medians, damped and clamped. -/
def actualTimespan (params : PowParams) (nNextHeight : Int) (pindexLast pindexFirst : PowIndex) :
    Int :=
  let nMaxAdjustUp : Int := if params.IsDaaRetargetFixActive nNextHeight then 16 else 8
  let nAveragingTargetTimespan := averagingTargetTimespan width params
  let nMinActualTimespan :=
    (width.int64 (nAveragingTargetTimespan * (100 - nMaxAdjustUp))).tdiv 100
  let nMaxActualTimespan := (width.int64 (nAveragingTargetTimespan * (100 + 16))).tdiv 100
  let nActualTimespan :=
    width.int64 (pindexLast.getMedianTimePast - pindexFirst.getMedianTimePast)
  let nActualTimespan := width.int64 (nAveragingTargetTimespan +
    (width.int64 (nActualTimespan - nAveragingTargetTimespan)).tdiv 4)
  let nActualTimespan :=
    if nActualTimespan < nMinActualTimespan then nMinActualTimespan else nActualTimespan
  if nMaxActualTimespan < nActualTimespan then nMaxActualTimespan else nActualTimespan

def globalRetarget (params : PowParams) (nActualTimespan : Int) (bnTarget : Nat) :
    Nat :=
  let bnOverflowGuard := (2 ^ 256 - 1) / width.uint64 nActualTimespan
  let bnNew := if bnOverflowGuard < bnTarget then bnOverflowGuard else bnTarget
  width.big (bnNew * width.uint32 nActualTimespan) /
    width.uint64 (averagingTargetTimespan width params)

/-- Harder by 4 percent with every step. -/
def tightenLocal (width : Width) : Nat → Nat → Nat
  | 0, bnNew => bnNew
  | steps + 1, bnNew => tightenLocal width steps (width.big (bnNew * 100) / 104)

/-- Easier by 4 percent with every step, up to the limit. -/
def easeLocal (width : Width) (bnLimit : Nat) : Nat → Nat → Nat
  | 0, bnNew => bnNew
  | steps + 1, bnNew =>
      let bnEased := width.big (bnNew * 104) / 100
      if bnLimit < bnEased then bnLimit else easeLocal width bnLimit steps bnEased

def localRetarget (width : Width) (bnLimit : Nat) (prevAlgoHeight lastHeight : Int) (bnNew : Nat) :
    Nat :=
  let nAdjustments :=
    width.int32 (width.int32 (width.int32 (prevAlgoHeight + numAlgos) - 1) - lastHeight)
  let nAdjustments := if 100 < nAdjustments then 100 else nAdjustments
  let nAdjustments := if nAdjustments < -100 then -100 else nAdjustments
  if 0 < nAdjustments then tightenLocal width nAdjustments.toNat bnNew
  else if nAdjustments < 0 then easeLocal width bnLimit (-nAdjustments).toNat bnNew
  else bnNew

def capTarget (nNextHeight : Int) (bnNew : Nat) : Nat :=
  let bnNew := if params.powLimitAlgo algo < bnNew then params.powLimitAlgo algo else bnNew
  if scheduledAt params.nDiffFloorHeight nNextHeight then
    if params.powLimitFloorAlgo algo < bnNew then params.powLimitFloorAlgo algo else bnNew
  else bnNew

def gapThreshold (nNextHeight gapThresholdOverride : Int) : Int :=
  if 0 < gapThresholdOverride then gapThresholdOverride
  else if scheduledAt params.nDiffFloorHeight nNextHeight then numAlgos * 10
  else numAlgos * 10 * 6

def hivemind (params : PowParams) (pindexLast : PowIndex) (algo : Algo) (gapThresholdOverride : Int)
    : Nat :=
  let nNextHeight := width.int32 (pindexLast.nHeight + 1)
  let pindexFirst := pindexLast.drop 40
  match getLastBlockIndexForAlgo params algo 240 pindexLast with
  | none => params.effectivePowLimitForAlgo width algo nNextHeight
  | some (prevAlgo, pindexPrevAlgo) =>
      if pindexFirst = [] then params.effectivePowLimitForAlgo width algo nNextHeight
      else
        let nGapThreshold := gapThreshold params nNextHeight gapThresholdOverride
        let algoGap := width.int32 (pindexLast.nHeight - pindexPrevAlgo.nHeight)
        if nGapThreshold ≤ algoGap then
          let nResetLimit := params.effectivePowLimitForAlgo width algo nNextHeight
          if ¬ params.IsDaaRetargetFixActive nNextHeight then nResetLimit
          else boundedReset width prevAlgo nResetLimit algoGap nGapThreshold
        else
          let nActualTimespan := actualTimespan width params nNextHeight pindexLast pindexFirst
          let bnNew := globalRetarget width params nActualTimespan prevAlgo.target
          let bnNew := localRetarget width (params.powLimitAlgo algo) pindexPrevAlgo.nHeight
            pindexLast.nHeight bnNew
          getCompact width (capTarget params algo nNextHeight bnNew)

/-! ## `LwmaPerAlgo` -/

/-- The newest blocks of the algorithm with their heights, newest first: at most `wanted`, and
none further back than `maxDepth`. -/
def collectSameAlgo (algo : Algo) : Nat → Nat → PowIndex → List (PowBlock × Int)
  | 0, _, _ => []
  | _ + 1, _, [] => []
  | maxDepth + 1, wanted, block :: pprev =>
      if wanted = 0 then []
      else if block.algo = some algo then
        (block, PowIndex.nHeight (block :: pprev)) ::
          collectSameAlgo algo maxDepth (wanted - 1) pprev
      else collectSameAlgo algo maxDepth wanted pprev

def solvetime (spacing : Int) (prev cur : PowBlock) : Int :=
  let st := width.int64 (cur.getBlockTime - prev.getBlockTime)
  let st := if width.int64 (6 * spacing) < st then width.int64 (6 * spacing) else st
  if st < width.int64 (-5 * spacing) then width.int64 (-5 * spacing) else st

/-- The weighted solve times and the sum of the targets over a window, oldest first, from the
block before it; `weight` is the weight of the first block. -/
def windowSums (width : Width) (spacing : Int) :
    Nat → PowBlock → List PowBlock → Int × Nat → Int × Nat
  | _, _, [], sums => sums
  | weight, prev, cur :: rest, sums =>
      windowSums width spacing (weight + 1) cur rest
        (width.int64 (sums.1 + width.int64 (solvetime width spacing prev cur * weight)),
          width.big (sums.2 + cur.target))

def lwmaTarget (spacing : Int) (neff : Nat) (sums : Int × Nat) : Nat :=
  let k := width.int64 ((width.int64 ((neff : Int) * (neff + 1))).tdiv 2 * spacing)
  let weightedSolvetimes := if sums.1 < k.tdiv 20 then k.tdiv 20 else sums.1
  width.big (sums.2 / width.uint32 neff / width.uint32 k * width.uint32 weightedSolvetimes)

def lwmaAverage (width : Width) (params : PowParams) (algo : Algo) (nNextHeight : Int) :
    List PowBlock → Nat
  | oldest :: first :: rest =>
      let spacing := width.int64 (params.nPowTargetSpacing * numAlgos)
      let sums := windowSums width spacing 1 oldest (first :: rest) (0, 0)
      let bnNew := capTarget params algo nNextHeight
        (lwmaTarget width spacing (rest.length + 1) sums)
      getCompact width (if bnNew = 0 then params.powLimitFloorAlgo algo else bnNew)
  | _ => params.effectivePowLimitForAlgo width algo nNextHeight

def lwmaPerAlgo (params : PowParams) (pindexLast : PowIndex) (algo : Algo) : Nat :=
  let nNextHeight := width.int32 (pindexLast.nHeight + 1)
  let found := collectSameAlgo algo (61 * 4 * 8) 61 pindexLast
  let window := (found.map Prod.fst).reverse
  match found with
  | [] => lwmaAverage width params algo nNextHeight window
  | (newest, newestHeight) :: _ =>
      let algoGap := width.int32 (pindexLast.nHeight - newestHeight)
      if params.IsHMPRearmActive nNextHeight ∧ numAlgos * 10 ≤ algoGap then
        boundedReset width newest (params.effectivePowLimitForAlgo width algo nNextHeight)
          algoGap (numAlgos * 10)
      else lwmaAverage width params algo nNextHeight window

/-! ## `CheckProofOfWork` -/

def checkProofOfWorkRange (nBits : Nat) : Bool :=
  let bnTarget := setCompact nBits
  !(bnTarget.fNegative || bnTarget.target = 0 || bnTarget.fOverflow ||
    params.powLimitAlgo algo < bnTarget.target)

end Kerrigan.Pow
