import Kerrigan.Pow.StepBounds

/-!
# Isolated algorithms

Under `LwmaPerAlgo` the next target of an algorithm is a function of the next height, of the number of
blocks since its last one, and of the times and targets of its own recent blocks.  The blocks of the
other algorithms enter by their number only.
-/

namespace Kerrigan.Pow

open Lib Consensus List

/-! ## `GetNextWorkRequired` -/

/-- The parameters that choose the adjustment. -/
structure RetargetParams extends PowParams where
  fPowNoRetargeting : Bool := false
  nDaaLwmaHeight : Int := 0

namespace RetargetParams

def IsDaaLwmaActive (params : RetargetParams) (height : Int) : Prop :=
  Params.scheduledAt params.nDaaLwmaHeight height

instance (params : RetargetParams) (height : Int) : Decidable (params.IsDaaLwmaActive height) :=
  inferInstanceAs (Decidable (Params.scheduledAt _ _))

end RetargetParams

variable (width : Width) (params : PowParams) (algo : Algo)

def powLimitForAlgo : Nat :=
  getCompact width (params.powLimitAlgo algo)

def getNextWorkRequired (params : RetargetParams) (pindexLast : PowIndex) (nTime : UInt32)
    (algo : Algo) : Nat :=
  match pindexLast with
  | [] => powLimitForAlgo width params.toPowParams algo
  | tip :: _ =>
      let nNextHeight := width.int32 (pindexLast.nHeight + 1)
      if params.fPowAllowMinDifficultyBlocks ∧
          width.int64 (tip.getBlockTime + width.int64 (params.nPowTargetSpacing * 2)) <
            nTime.toNat then
        params.effectivePowLimitForAlgo width algo nNextHeight
      else if params.fPowNoRetargeting then powLimitForAlgo width params.toPowParams algo
      else if params.IsDaaLwmaActive nNextHeight then
        lwmaPerAlgo width params.toPowParams pindexLast algo
      else hivemind width params.toPowParams pindexLast algo 0

/-! ## The view of an algorithm -/

variable (index : PowIndex)

def blocksSince : Nat :=
  (index.takeWhile (fun block => block.algo ≠ some algo)).length

def recentBlocks : List (UInt32 × UInt32) :=
  (sameAlgo algo index).map (fun entry => (entry.1.nTime, entry.1.nBits))

/-- What an algorithm sees of a chain. -/
structure AlgoView where
  nNextHeight : Int
  since : Nat
  recent : List (UInt32 × UInt32)
  deriving DecidableEq

def viewOf : AlgoView where
  nNextHeight := index.nHeight + 1
  since := blocksSince algo index
  recent := recentBlocks algo index

def lwmaOfView (view : AlgoView) : Nat :=
  let nNextHeight := width.int32 view.nNextHeight
  let blocks := view.recent.map (fun entry => (⟨entry.1, entry.2, some algo⟩ : PowBlock))
  match blocks with
  | [] => lwmaAverage width params algo nNextHeight []
  | newest :: _ =>
      let algoGap := width.int32 view.since
      if params.IsHMPRearmActive nNextHeight ∧ numAlgos * 10 ≤ algoGap then
        boundedReset width newest (params.effectivePowLimitForAlgo width algo nNextHeight)
          algoGap (numAlgos * 10)
      else lwmaAverage width params algo nNextHeight blocks.reverse

theorem sameAlgo_blocks : (sameAlgo algo index).map Prod.fst =
      (recentBlocks algo index).map (fun entry => (⟨entry.1, entry.2, some algo⟩ : PowBlock)) := by
  unfold recentBlocks
  rw [map_map]
  refine map_congr_left ?_
  intro entry hentry
  have halgo := (collectSameAlgo_spec hentry).2.1
  rw [Function.comp_apply, ← halgo]

theorem collectSameAlgo_height {algo : Algo} {maxDepth wanted : Nat} {index : PowIndex}
    {newest : PowBlock × Int} {others : List (PowBlock × Int)}
    (hfound : collectSameAlgo algo maxDepth wanted index = newest :: others) :
    index.nHeight - newest.2 = blocksSince algo index := by
  induction maxDepth generalizing index with
  | zero => cases hfound
  | succ maxDepth ih =>
    cases index with
    | nil => cases hfound
    | cons block pprev =>
      rw [collectSameAlgo] at hfound
      unfold blocksSince
      split at hfound
      · cases hfound
      · split at hfound
        · rename_i halgo
          cases hfound
          simp [halgo]
        · rename_i halgo
          have hbelow := ih hfound
          unfold blocksSince at hbelow
          rw [takeWhile_cons_of_pos (by simpa using halgo), length_cons]
          unfold PowIndex.nHeight at hbelow ⊢
          rw [length_cons]
          omega

theorem lwmaPerAlgo_eq_lwmaOfView (algo : Algo) :
    lwmaPerAlgo width params index algo = lwmaOfView width params algo (viewOf algo index) := by
  have hblocks := sameAlgo_blocks algo index
  unfold lwmaPerAlgo lwmaOfView viewOf
  rw [← hblocks]
  cases hfound : sameAlgo algo index with
  | nil =>
    unfold sameAlgo at hfound
    rw [hfound]
    rfl
  | cons newest others =>
    unfold sameAlgo at hfound
    have hgap := collectSameAlgo_height hfound
    rw [hfound]
    dsimp only
    rw [hgap]
    rfl

/-- Where `LwmaPerAlgo` is active and the other rules are off, two chains of one height in which the
algorithm has the same recent blocks, the last of them equally far back, ask for the same work. -/
theorem algorithms_isolated (width : Width) (params : RetargetParams) (algo : Algo)
    (first second : PowIndex) (firstTime secondTime : UInt32)
    (hmin : params.fPowAllowMinDifficultyBlocks = false)
    (hretarget : params.fPowNoRetargeting = false)
    (hactive : params.IsDaaLwmaActive (width.int32 (first.nHeight + 1)))
    (hheight : first.nHeight = second.nHeight)
    (hsince : blocksSince algo first = blocksSince algo second)
    (hrecent : recentBlocks algo first = recentBlocks algo second) :
    getNextWorkRequired width params first firstTime algo =
      getNextWorkRequired width params second secondTime algo := by
  have hview : viewOf algo first = viewOf algo second := by
    unfold viewOf
    rw [hheight, hsince, hrecent]
  have hwork : ∀ (index : PowIndex) (nTime : UInt32), index ≠ [] → index.nHeight = first.nHeight →
      getNextWorkRequired width params index nTime algo =
        lwmaOfView width params.toPowParams algo (viewOf algo index) := by
    intro index nTime hsome hsame
    cases index with
    | nil => exact absurd rfl hsome
    | cons tip below =>
      simp only [getNextWorkRequired, hmin, hretarget, hsame, if_pos hactive,
        Bool.false_eq_true, false_and, if_false]
      exact lwmaPerAlgo_eq_lwmaOfView width params.toPowParams (tip :: below) algo
  cases first with
  | nil =>
    cases second with
    | nil => rfl
    | cons tip below =>
      unfold PowIndex.nHeight at hheight
      rw [length_cons, length_nil] at hheight
      omega
  | cons tip below =>
    cases second with
    | nil =>
      unfold PowIndex.nHeight at hheight
      rw [length_cons, length_nil] at hheight
      omega
    | cons tip' below' =>
      rw [hwork _ _ (cons_ne_nil _ _) rfl, hwork _ _ (cons_ne_nil _ _) hheight.symm,
        hview]

/-- The same blocks of X11 among different blocks of other algorithms. -/
theorem algorithms_isolated_other_blocks :
    getNextWorkRequired Width.machine { PowParams.main with nDaaLwmaHeight := 1 }
        [⟨2100, 0x1c010000, some .kawpow⟩, ⟨1960, 0x1c0ffff0, some .x11⟩,
          ⟨1500, 0x1c010000, some .kawpow⟩, ⟨1000, 0x1c0ffff0, some .x11⟩] 2200 .x11 =
      getNextWorkRequired Width.machine { PowParams.main with nDaaLwmaHeight := 1 }
        [⟨9000, 0x1f100000, some .equihash192⟩, ⟨1960, 0x1c0ffff0, some .x11⟩,
          ⟨1000, 0x1c0ffff0, some .x11⟩, ⟨10, 0x1b010000, some .equihash200⟩] 9100 .x11 :=
  algorithms_isolated Width.machine { PowParams.main with nDaaLwmaHeight := 1 } .x11 _ _ 2200 9100
    rfl rfl (by decide) rfl (by decide) (by decide)

end Kerrigan.Pow
