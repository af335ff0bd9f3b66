import Kerrigan.HMP.SealPhases

/-!
# One share per height

`SignBlock` remembers the block it signed at each height and refuses another one there until the height
is disconnected.  It finds the height of a block in the session of the block, or else among the heights
that are mapped to blocks.  A block that is in neither is signed without being remembered or compared.
-/

namespace Kerrigan.HMP

open Primitives Consensus Lib CSealManager List Chain Sample

/-! ## The height that is found -/

def CSealManager.Knows (manager : CSealManager) (hash : Uint256) : Prop :=
  manager.sessions[hash]?.isSome ∨ ∃ item ∈ manager.heightToHash.toList, item.2 = hash

instance (manager : CSealManager) (hash : Uint256) : Decidable (manager.Knows hash) :=
  inferInstanceAs (Decidable (_ ∨ _))

variable {context : SealContext} {heightOf : Uint256 → Int} {manager : CSealManager}

theorem signingTarget_of_knows (hplaced : ManagerPlaced context heightOf manager)
    {hash : Uint256} {height : Int} (hheight : heightOf hash = height) (hnonneg : 0 ≤ height)
    (hknows : manager.Knows hash) : (manager.signingTarget hash).1 = height := by
  unfold signingTarget sessionTarget
  cases hsession : manager.sessions[hash]? with
  | some session =>
    have hblock : session.blockHeight = height :=
      (hplaced.sessions hash session hsession).trans hheight
    dsimp only
    rw [if_neg (by omega)]
    exact hblock
  | none =>
    cases hfound : manager.heightToHash.toList.find? (fun item => item.2 = hash) with
    | some item =>
      have hmem := Std.ExtTreeMap.mem_toList_iff_getElem?_eq_some.mp
        (mem_of_find?_eq_some hfound)
      have hhash := find?_some hfound
      simp only [decide_eq_true_eq] at hhash
      rw [← hheight, ← hhash]
      exact (hplaced.indexed.heights item.1 item.2 hmem).symm
    | none =>
      rcases hknows with hsome | ⟨item, hmem, hhash⟩
      · rw [hsession] at hsome
        cases hsome
      · have hother := find?_eq_none.mp hfound item hmem
        exact absurd (decide_eq_true hhash) hother

theorem workerRound_signedBlocks (context : SealContext) (manager : CSealManager) (now : Int) :
    (manager.workerRound context now).signedBlocks = manager.signedBlocks := by
  have hassembled : ∀ (items : List (Uint256 × CSealSession)) (manager : CSealManager),
      (items.foldl (assembleSession context now) manager).signedBlocks = manager.signedBlocks := by
    intro items
    induction items with
    | nil => exact fun _ => rfl
    | cons item rest ih =>
      intro manager
      rw [foldl_cons, ih]
      unfold assembleSession
      split
      · rfl
      · rfl
  exact hassembled _ manager

theorem withShare_signedBlocks (manager : CSealManager) (share : CSealShare) :
    (manager.withShare share).signedBlocks = manager.signedBlocks := by
  rcases withShare_cases manager share with hsame | ⟨session, -, hnext⟩
  · rw [hsame]
  · rw [hnext]

theorem onNewBlock_signedBlocks (manager : CSealManager) (hash : Uint256) (height : Int)
    (prevSealHash : Uint256) (now : Int) :
    (manager.onNewBlock hash height prevSealHash now).signedBlocks = manager.signedBlocks := by
  unfold onNewBlock
  split
  · rfl
  · rfl

theorem addAssembledSeal_signedBlocks (context : SealContext) (manager : CSealManager)
    (assembled : CAssembledSeal) (height : Int) :
    (manager.addAssembledSeal context assembled height).2.signedBlocks =
      manager.signedBlocks := by
  rcases addAssembledSeal_cases context manager assembled height with hsame | ⟨-, -, -, -, hstored⟩
  · rw [hsame]
  · rw [hstored]
    rfl

/-! ## Runs -/

def OneShare (state : SealPhases) : Prop :=
  ∀ first ∈ state.signed, ∀ second ∈ state.signed, first.1 = second.1 → first.2 = second.2

instance (state : SealPhases) : Decidable (OneShare state) :=
  inferInstanceAs (Decidable (∀ first ∈ state.signed, _))

def SignsKnown (state : SealPhases) : PhaseAction → Prop
  | .sign _ => ∀ block ∈ state.connecting, state.manager.Knows block.hash
  | _ => True

/-- Outstanding shares of one height are for one block, and those above the tip are remembered. -/
structure Remembered (state : SealPhases) : Prop where
  agree : OneShare state
  recorded : ∀ share ∈ state.signed,
    share.1 ≤ state.chain.height ∨ state.manager.signedBlocks[share.1]? = some share.2

variable {state : SealPhases}

section

variable (hremembered : Remembered state)

include hremembered

theorem Remembered.of_record {next : SealPhases} (hsigned : next.signed = state.signed)
    (hrecord : next.manager.signedBlocks = state.manager.signedBlocks)
    (hchain : state.chain.height ≤ next.chain.height) : Remembered next := by
  obtain ⟨hagree, hrecorded⟩ := hremembered
  constructor
  · unfold OneShare
    rw [hsigned]
    exact hagree
  · rw [hsigned, hrecord]
    intro share hmem
    rcases hrecorded share hmem with hlow | hfound
    · exact Or.inl (hlow.trans hchain)
    · exact Or.inr hfound

theorem Remembered.record {hash : Uint256}
    (hfree : ∀ signed ∈ state.manager.signedBlocks[state.chain.height + 1]?, signed = hash) :
    Remembered
      { state with
        manager := state.manager.recordSigned (state.chain.height + 1) hash
        signed := (state.chain.height + 1, hash) :: state.signed } := by
  have hnonneg : 0 ≤ state.chain.height + 1 := by
    unfold height
    omega
  have hsame : ∀ share ∈ state.signed, share.1 = state.chain.height + 1 → share.2 = hash := by
    intro share hmem hheight
    rcases hremembered.recorded share hmem with hlow | hfound
    · omega
    · rw [hheight] at hfound
      exact hfree share.2 hfound
  constructor
  · intro first hfirst second hsecond hheights
    rcases mem_cons.mp hfirst with rfl | hfirst
    · rcases mem_cons.mp hsecond with rfl | hsecond
      · rfl
      · exact (hsame second hsecond hheights.symm).symm
    · rcases mem_cons.mp hsecond with rfl | hsecond
      · exact hsame first hfirst hheights
      · exact hremembered.agree first hfirst second hsecond hheights
  · intro share hmem
    dsimp only
    rcases mem_cons.mp hmem with rfl | hold
    · refine Or.inr ?_
      rw [getElem?_recordSigned, if_pos ⟨hnonneg, rfl⟩]
    · rcases hremembered.recorded share hold with hlow | hfound
      · exact Or.inl hlow
      · rw [getElem?_recordSigned]
        split
        · rename_i hheight
          rw [hsame share hold hheight.2.symm]
          exact Or.inr rfl
        · split
          · exact Or.inl (by omega)
          · exact Or.inr hfound

theorem Remembered.mono {signed : List (Int × Uint256)}
    (hsubset : signed ⊆ state.signed) : Remembered { state with signed := signed } where
  agree := fun first hfirst second hsecond =>
    hremembered.agree first (hsubset hfirst) second (hsubset hsecond)
  recorded := fun share hmem => hremembered.recorded share (hsubset hmem)

theorem Remembered.disconnect {tip : HMPBlock} {parent : Chain}
    (hchain : state.chain = tip :: parent) : Remembered (state.withoutTip tip parent) := by
  constructor
  · intro first hfirst second hsecond
    exact hremembered.agree first (mem_of_mem_filter hfirst) second
      (mem_of_mem_filter hsecond)
  · intro share hmem
    obtain ⟨hold, hkept⟩ := mem_filter.mp hmem
    have hother : share.1 ≠ height parent + 1 := of_decide_eq_true hkept
    rcases hremembered.recorded share hold with hlow | hfound
    · rw [hchain, height_cons] at hlow
      exact Or.inl (by simp only [SealPhases.withoutTip]; omega)
    · refine Or.inr ?_
      simp only [SealPhases.withoutTip, blockDisconnected]
      rw [getElem?_erase_eq, if_neg (Ne.symm hother)]
      exact hfound

theorem Remembered.sign (hplaced : Placed context heightOf state)
    {block : HMPBlock} (hconnecting : state.connecting = some block)
    (hknows : state.manager.Knows block.hash) (view : TrackerView) :
    ((state.manager.signBlock context view block.hash block.algo).2 = state.manager ∧
        ∃ reason, (state.manager.signBlock context view block.hash block.algo).1 =
          .error reason) ∨
      Remembered
        { state with
          manager := (state.manager.signBlock context view block.hash block.algo).2
          signed := (state.chain.height + 1, block.hash) :: state.signed } := by
  have hnonneg : 0 ≤ state.chain.height + 1 := by
    unfold height
    omega
  have htarget : (state.manager.signingTarget block.hash).1 = state.chain.height + 1 :=
    signingTarget_of_knows hplaced.manager (hplaced.connecting block hconnecting) hnonneg hknows
  rcases signBlock_cases context view state.manager block.hash block.algo with
    ⟨hrefused, -⟩ | ⟨identity, -, hfree, hsign⟩
  · exact Or.inl hrefused
  · rw [htarget] at hfree hsign
    rw [hsign]
    refine Or.inr (hremembered.record ?_)
    intro signed hsigned
    by_contra hother
    exact hfree ⟨hnonneg, signed, hsigned, hother⟩

theorem Remembered.step (hplaced : Placed context heightOf state)
    {action : PhaseAction} (hknown : SignsKnown state action) {next : SealPhases}
    (hstep : PhaseStep context heightOf state action next) : Remembered next := by
  cases hstep with
  | unchanged => exact hremembered
  | connected block hextends =>
    refine hremembered.of_record rfl rfl ?_
    rw [height_cons]
    omega
  | announced block prevSealHash now hextends =>
    exact hremembered.of_record rfl (onNewBlock_signedBlocks _ _ _ _ _) le_rfl
  | shareReturned view block share hconnecting hshare =>
    rcases hremembered.sign hplaced hconnecting (hknown block hconnecting) view with
      ⟨-, reason, hrefused⟩ | hrecorded
    · rw [hrefused] at hshare
      cases hshare
    · exact hrecorded
  | noShare view block hconnecting =>
    rcases hremembered.sign hplaced hconnecting (hknown block hconnecting) view with
      ⟨hsame, -⟩ | hrecorded
    · rw [hsame]
      exact hremembered
    · exact hrecorded.mono (subset_cons_self _ _)
  | accepted block hconnecting =>
    refine hremembered.of_record rfl rfl ?_
    rw [height_cons]
    omega
  | rejected block hconnecting => exact hremembered.of_record rfl rfl le_rfl
  | disconnected tip parent hchain => exact hremembered.disconnect hchain
  | reannounced height prevSealHash now block hblock =>
    exact hremembered.of_record rfl (onNewBlock_signedBlocks _ _ _ _ _) le_rfl
  | worked now => exact hremembered.of_record rfl (workerRound_signedBlocks _ _ _) le_rfl
  | verified view share now => exact hremembered.of_record rfl rfl le_rfl
  | inserted share => exact hremembered.of_record rfl (withShare_signedBlocks _ share) le_rfl
  | checked assembled height haccepts => exact hremembered.of_record rfl rfl le_rfl
  | committed assembled height hpending =>
    exact hremembered.of_record rfl (addAssembledSeal_signedBlocks _ _ _ _) le_rfl

end

theorem remembered_start : Remembered .start := by
  constructor
  · intro first hfirst
    cases hfirst
  · intro share hmem
    cases hmem

/-- In every run in which the manager knows each block that it is asked to sign, the shares of one
height that were returned since the height was last disconnected are for one block. -/
theorem no_self_equivocation (context : SealContext) (heightOf : Uint256 → Int)
    (actions : List PhaseAction)
    (hknown : Guarded (phaseStep context heightOf) SignsKnown .start actions) :
    Always (phaseStep context heightOf) OneShare .start actions := by
  have halways : Always (phaseStep context heightOf)
      (fun state => Placed context heightOf state ∧ Remembered state) .start actions := by
    refine always_of_guarded ?_ ⟨placed_start context heightOf, remembered_start⟩ hknown
    rintro state action ⟨hplaced, hremembered⟩ hadmits
    have hstep := phaseStep_cases context heightOf state action
    exact ⟨hplaced.step hstep, hremembered.step hplaced hadmits hstep⟩
  intro visited hvisited
  exact (halways visited hvisited).2.agree

namespace Sample

def signingContext : SealContext where
  params := {}
  oracles := trusting
  schemes := acceptingSchemes
  identity := some ⟨1, fun _ _ => 1, fun _ _ => 1, fun _ _ => ([], 0)⟩

/-- The block 201 is announced and not signed; the block 101 is announced and signed.  Both are
rejected, and the block 201 is announced once more. -/
def rejectedForks : List PhaseAction :=
  [.connect (sealBlock 100),
    .announce (sealBlock 201) 100 0, .finish false,
    .announce (sealBlock 101) 100 20000, .sign openView, .finish false,
    .announce (sealBlock 201) 100 30001]

end Sample

open Sample in
theorem no_self_equivocation_two_forks :
    (run (phaseStep signingContext twoForks) .start
        (rejectedForks ++ [.sign openView])).signed = [(1, 101)] ∧
      OneShare (run (phaseStep signingContext twoForks) .start
        (rejectedForks ++ [.sign openView])) := by
  have hknown : Guarded (phaseStep signingContext twoForks) SignsKnown .start
      (rejectedForks ++ [.sign openView]) := by
    simp only [rejectedForks, cons_append, nil_append, Guarded, SignsKnown, true_and,
      and_true]
    constructor <;> decide +kernel
  have halways := no_self_equivocation signingContext twoForks _ hknown
  exact ⟨by decide +kernel, halways.final⟩

/-- A round of the worker between `OnNewBlock` and `SignBlock` drops the old session of the block, whose
height is mapped to the block that was signed: both blocks are signed. -/
theorem cleanup_before_signing_equivocates :
    (run (phaseStep signingContext twoForks) .start
        (rejectedForks ++ [.worker 30001, .sign openView])).signed =
      [(1, 201), (1, 101)] ∧
    ¬ OneShare (run (phaseStep signingContext twoForks) .start
        (rejectedForks ++ [.worker 30001, .sign openView])) := by
  decide +kernel

end Kerrigan.HMP
