import Kerrigan.HMP.Determinism

/-!
# Commitments along histories

The registry keeps the first height at which it saw a key, and forgets it with the first block that
is more than the eviction window above it, even if blocks in between commit the key again.  Where a
history saw the key first depends on its restarts.  A commitment is sure in every history when no
earlier one is forgotten between it and the tip.
-/

namespace Kerrigan.HMP

open Primitives Consensus Lib CHMPPrivilegeTracker HMPState Chain CHMPCommitmentRegistry

def sealedHeight (params : Params) (parent : Chain) : Int :=
  max (parent.height + 1 - params.nHMPSealTrailingDepth) 0

namespace HMPBlock

def Commits (block : HMPBlock) (pk : CBLSPublicKey) : Prop :=
  ∃ cbTx ∈ block.hmpPayload, CommitsKey cbTx.minerIdentity cbTx.vCommitments pk

instance (block : HMPBlock) (pk : CBLSPublicKey) : Decidable (block.Commits pk) :=
  inferInstanceAs (Decidable (∃ cbTx ∈ block.hmpPayload, _))

/-- The registry is told of the block when it is at the height. -/
def Recorded (params : Params) (block : HMPBlock) (height : Int) : Prop :=
  params.IsHMPActive height ∧ params.getHMPStage height ≠ 1 ∧ block.hmpPayload.isSome

instance (params : Params) (block : HMPBlock) (height : Int) :
    Decidable (block.Recorded params height) :=
  inferInstanceAs (Decidable (_ ∧ _))

end HMPBlock

/-! ## The condition on the chain -/

/-- A block that the registry is told of, below the given height, is more than the eviction window
above the commitment. -/
def Forgotten (params : Params) (chain : Chain) (before committed : Int) : Prop :=
  ∃ height < before, committed + evictionWindow params < height ∧
    ∃ block ∈ chain.getAncestor height, block.Recorded params height

/-- The last block of the chain commits the key, and what the chain committed up to then was
forgotten before that block or is still known at the given height. -/
structure Settled (params : Params) (base : Chain) (key : CBLSPublicKey) (last : Int) : Prop where
  commits : ∃ block ∈ base.getAncestor base.height, block.Commits key
  known : ∀ committed, ∀ block ∈ base.getAncestor committed, block.Commits key →
    last ≤ committed + evictionWindow params ∨ Forgotten params base base.height committed

/-- Histories that stay below the given height agree on whether the key is committed for a child of
the chain: every commitment that is old enough for the sealed block is forgotten, or one of them is
settled, and within the lookback of everything that the histories replay. -/
def HistoryFree (params : Params) (chain : Chain) (top : Int) (key : CBLSPublicKey) : Prop :=
  (∀ committed, committed + params.nHMPCommitmentOffset ≤ sealedHeight params chain →
    ∀ block ∈ chain.getAncestor committed, block.Commits key →
      Forgotten params chain (chain.height + 1) committed) ∨
  ∃ base : Chain, base <:+ chain ∧
    base.height + params.nHMPCommitmentOffset ≤ sealedHeight params chain ∧
    top ≤ base.height + maxLookback params ∧ Settled params base key chain.height

/-! ## One block -/

theorem evictionWindow_nonneg (params : Params) : 0 ≤ evictionWindow params := by
  unfold evictionWindow
  omega

theorem evictionWindow_le_maxLookback (params : Params) :
    evictionWindow params ≤ maxLookback params := by
  unfold evictionWindow maxLookback
  omega

variable {params : Params} {oracles : Oracles} {key : CBLSPublicKey} {block : HMPBlock}
  {parent chain : Chain} {height : Int} {entry : Option Int} {state : HMPState}

/-- What the registry holds of a key after the block at the height. -/
def nextEntry (params : Params) (key : CBLSPublicKey) (block : HMPBlock) (height : Int)
    (entry : Option Int) : Option Int :=
  if block.Recorded params height then
    (if block.Commits key ∧ entry = none then some height else entry).filter (fun committed =>
      ¬ Evicts params height committed)
  else entry

theorem nextEntry_cases (params : Params) (key : CBLSPublicKey) (block : HMPBlock) (height : Int)
    (entry : Option Int) :
    (nextEntry params key block height entry = entry ∧
      (block.Recorded params height → ∀ committed ∈ entry, ¬ Evicts params height committed) ∧
      (block.Recorded params height → block.Commits key → entry ≠ none)) ∨
    (entry = none ∧ block.Commits key ∧ nextEntry params key block height entry = some height) ∨
    (∃ committed ∈ entry, block.Recorded params height ∧ Evicts params height committed ∧
      nextEntry params key block height entry = none) := by
  unfold nextEntry
  by_cases hrecorded : block.Recorded params height
  · rw [if_pos hrecorded]
    cases entry with
    | none =>
      by_cases hcommits : block.Commits key
      · have hyoung : ¬ Evicts params height height := by
          have hwindow := evictionWindow_nonneg params
          rintro ⟨-, hold⟩
          omega
        refine Or.inr (Or.inl ⟨rfl, hcommits, ?_⟩)
        rw [if_pos ⟨hcommits, rfl⟩, Option.filter_some, if_pos (by simpa using hyoung)]
      · rw [if_neg (fun hnew => hcommits hnew.1)]
        exact Or.inl ⟨rfl, by simp, fun _ hcommitted => absurd hcommitted hcommits⟩
    | some committed =>
      rw [if_neg (by simp), Option.filter_some]
      by_cases hevicts : Evicts params height committed
      · refine Or.inr (Or.inr ⟨committed, rfl, hrecorded, hevicts, ?_⟩)
        rw [if_neg (by simpa using hevicts)]
      · refine Or.inl ⟨by rw [if_pos (by simpa using hevicts)], ?_, by simp⟩
        intro _ other hother
        rwa [← Option.some.inj hother]
  · rw [if_neg hrecorded]
    exact Or.inl ⟨rfl, fun h => absurd h hrecorded, fun h => absurd h hrecorded⟩

theorem blockConnected_nextEntry {cbTx : CCbTx} (hcbTx : block.hmpPayload = some cbTx)
    (hactive : params.IsHMPActive height) (hstage : params.getHMPStage height ≠ 1)
    (registry : CHMPCommitmentRegistry) :
    (registry.blockConnected params height cbTx.minerIdentity cbTx.vCommitments).committedAt key =
      nextEntry params key block height (registry.committedAt key) := by
  have hrecorded : block.Recorded params height := ⟨hactive, hstage, by rw [hcbTx]; rfl⟩
  have hcommits : block.Commits key ↔ CommitsKey cbTx.minerIdentity cbTx.vCommitments key := by
    simp only [HMPBlock.Commits, hcbTx, Option.mem_some_iff, exists_eq_left']
  rw [blockConnected_committedAt, nextEntry, if_pos hrecorded]
  simp only [hcommits]

theorem nextEntry_of_not_recorded (hrecorded : ¬ block.Recorded params height) :
    nextEntry params key block height entry = entry := if_neg hrecorded

theorem replayBlock_committedAt (hactive : params.IsHMPActive (parent.height + 1)) :
    (state.replayBlock params oracles block parent).registry.committedAt key =
      nextEntry params key block (parent.height + 1) (state.registry.committedAt key) := by
  unfold replayBlock
  split
  · rename_i hstage
    rw [nextEntry_of_not_recorded (fun h => h.2.1 hstage)]
  · rename_i hstage
    cases hpayload : block.hmpPayload with
    | none =>
      rw [nextEntry_of_not_recorded (by simp [HMPBlock.Recorded, hpayload])]
      cases block.coinbase <;> rfl
    | some cbTx =>
      cases hcoinbase : block.coinbase with
      | other => simp [HMPBlock.hmpPayload, hcoinbase] at hpayload
      | special payload => exact blockConnected_nextEntry hpayload hactive hstage state.registry

theorem apply_committedAt :
    (state.apply params block parent (state.verdict params oracles block
      parent)).registry.committedAt key =
      nextEntry params key block (parent.height + 1) (state.registry.committedAt key) := by
  unfold apply verdict blockVerdict
  split
  · rename_i hinactive
    rw [nextEntry_of_not_recorded (fun h => hinactive h.1)]
    rfl
  · rename_i hactive
    split
    · rename_i hstage
      rw [nextEntry_of_not_recorded (fun h => h.2.1 hstage)]
      rfl
    · rename_i hstage
      cases hpayload : block.hmpPayload with
      | none =>
        rw [nextEntry_of_not_recorded (by simp [HMPBlock.Recorded, hpayload])]
        cases block.coinbase <;> rfl
      | some cbTx =>
        cases hcoinbase : block.coinbase with
        | other => simp [HMPBlock.hmpPayload, hcoinbase] at hpayload
        | special payload =>
          have hentry := @blockConnected_nextEntry params key block (parent.height + 1) cbTx hpayload
            (not_not.mp hactive) hstage state.registry
          simp only [payloadVerdict]
          split <;> exact hentry

/-- The entry of a key is a height at which the chain commits it, and no recorded block up to the
given height is more than the eviction window above it. -/
structure Tracks (params : Params) (key : CBLSPublicKey) (chain : Chain) (upTo : Int)
    (entry : Option Int) : Prop where
  sound : ∀ committed ∈ entry, ∃ block ∈ chain.getAncestor committed, block.Commits key
  young : ∀ committed ∈ entry, ∀ height ≤ upTo, ∀ block ∈ chain.getAncestor height,
    block.Recorded params height → height ≤ committed + evictionWindow params

theorem tracks_none (params : Params) (key : CBLSPublicKey) (chain : Chain) (upTo : Int) :
    Tracks params key chain upTo none where
  sound := by simp
  young := by simp

theorem Tracks.mono {upTo lower : Int} (htracks : Tracks params key chain upTo entry)
    (hle : lower ≤ upTo) : Tracks params key chain lower entry where
  sound := htracks.sound
  young := fun committed hentry height hheight =>
    htracks.young committed hentry height (hheight.trans hle)

theorem Tracks.next (htracks : Tracks params key chain (height - 1) entry)
    (hblock : block ∈ chain.getAncestor height) :
    Tracks params key chain height (nextEntry params key block height entry) := by
  rcases nextEntry_cases params key block height entry with
    ⟨hsame, hyoung, -⟩ | ⟨-, hcommits, hnew⟩ | ⟨committed, -, -, -, hnone⟩
  · rw [hsame]
    refine ⟨htracks.sound, ?_⟩
    intro committed hentry found hfound other hother hrecorded
    by_cases htip : found = height
    · subst htip
      rw [Option.mem_unique hother hblock] at hrecorded
      have hkept := hyoung hrecorded committed hentry
      obtain ⟨_, hancestor, -⟩ := htracks.sound committed hentry
      have hnonneg := (height_of_getAncestor hancestor).1
      unfold Evicts at hkept
      omega
    · exact htracks.young committed hentry found (by omega) other hother hrecorded
  · rw [hnew]
    refine ⟨?_, ?_⟩
    · rintro committed ⟨⟩
      exact ⟨block, hblock, hcommits⟩
    · rintro committed ⟨⟩ found hfound _ _ _
      have hwindow := evictionWindow_nonneg params
      omega
  · rw [hnone]
    exact tracks_none params key chain height

theorem Tracks.extend (htracks : Tracks params key parent parent.height entry)
    (block : HMPBlock) : Tracks params key (block :: parent) parent.height entry where
  sound := by
    intro committed hentry
    obtain ⟨found, hfound, hcommits⟩ := htracks.sound committed hentry
    exact ⟨found, getAncestor_of_parent hfound, hcommits⟩
  young := by
    intro committed hentry height hheight found hfound
    rw [getAncestor_cons, if_neg (by omega)] at hfound
    exact htracks.young committed hentry height hheight found hfound

theorem mem_blockDisconnected {registry : CHMPCommitmentRegistry} {committed : Int} :
    committed ∈ (registry.blockDisconnected height).committedAt key ↔
      committed ∈ registry.committedAt key ∧ committed < height := by
  rw [CHMPCommitmentRegistry.blockDisconnected, eraseWhere_committedAt, Option.mem_def,
    Option.filter_eq_some_iff]
  simp [Option.mem_def]

theorem Tracks.disconnect {tip : HMPBlock} {registry : CHMPCommitmentRegistry}
    (htracks : Tracks params key (tip :: parent) (Chain.height (tip :: parent))
      (registry.committedAt key)) :
    Tracks params key parent parent.height
      ((registry.blockDisconnected (Chain.height (tip :: parent))).committedAt key) where
  sound := by
    intro committed hentry
    rw [mem_blockDisconnected, Chain.height_cons] at hentry
    obtain ⟨found, hfound, hcommits⟩ := htracks.sound committed hentry.1
    rw [Chain.getAncestor_cons, if_neg hentry.2.ne] at hfound
    exact ⟨found, hfound, hcommits⟩
  young := by
    intro committed hentry height hheight found hfound
    refine htracks.young committed (mem_blockDisconnected.mp hentry).1 height ?_ found
      (Chain.getAncestor_of_parent hfound)
    rw [Chain.height_cons]
    omega

/-! ## Replays -/

variable {full : Chain} {count : Nat}

/-- Every height of the replay is active. -/
def ReplaysActive (params : Params) (count : Nat) (chain : Chain) : Prop :=
  params.IsHMPActive (chain.height + 1 - count)

theorem replaysActive_rebuild (hactive : params.IsHMPActive chain.height) :
    ReplaysActive params (chain.height - startHeight params chain.height + 1).toNat chain := by
  unfold Params.IsHMPActive at hactive
  unfold ReplaysActive Params.IsHMPActive startHeight
  omega

theorem replay_succ (oracles : Oracles) (key : CBLSPublicKey) (state : HMPState)
    (hsuffix : (block :: parent) <:+ full)
    (hactive : ReplaysActive params (count + 1) (block :: parent)) :
    (replay params oracles (count + 1) (block :: parent) state).registry.committedAt key =
        nextEntry params key block (parent.height + 1)
          ((replay params oracles count parent state).registry.committedAt key) ∧
      ReplaysActive params count parent ∧ parent <:+ full ∧
      block ∈ full.getAncestor (parent.height + 1) := by
  have hle : params.HMPHeight ≤ parent.height + 1 + 1 - (count + 1 : Nat) := by
    simpa only [ReplaysActive, Params.IsHMPActive, height_cons] using hactive
  refine ⟨replayBlock_committedAt ?_, ?_, (List.suffix_cons block parent).trans hsuffix, ?_⟩
  · unfold Params.IsHMPActive
    omega
  · unfold ReplaysActive Params.IsHMPActive
    omega
  · rw [getAncestor_suffix hsuffix (by rw [height_cons])]
    exact getAncestor_tip block parent

theorem Tracks.replay (hsuffix : chain <:+ full) (hactive : ReplaysActive params count chain)
    (htracks : Tracks params key full full.height (state.registry.committedAt key)) :
    Tracks params key full chain.height
      ((replay params oracles count chain state).registry.committedAt key) := by
  have hheight : chain.height ≤ full.height := height_suffix hsuffix
  induction count generalizing chain with
  | zero => exact htracks.mono hheight
  | succ count ih =>
    cases chain with
    | nil => exact htracks.mono hheight
    | cons block parent =>
      rw [height_cons] at hheight
      obtain ⟨hentry, hparentActive, hparent, hblock⟩ :=
        replay_succ oracles key state hsuffix hactive
      rw [hentry, height_cons]
      refine Tracks.next ?_ hblock
      rw [Int.add_sub_cancel]
      exact ih hparent hparentActive (by omega)

/-- A replay leaves the entry of a key as it is. -/
theorem replay_of_some {committed : Int} (hsuffix : chain <:+ full)
    (hactive : ReplaysActive params count chain)
    (htracks : Tracks params key full full.height (state.registry.committedAt key))
    (hentry : state.registry.committedAt key = some committed) :
    (replay params oracles count chain state).registry.committedAt key = some committed := by
  induction count generalizing chain with
  | zero => exact hentry
  | succ count ih =>
    cases chain with
    | nil => exact hentry
    | cons block parent =>
      obtain ⟨hnext, hparentActive, hparent, hblock⟩ :=
        replay_succ oracles key state hsuffix hactive
      rw [hnext, ih hparent hparentActive]
      rcases nextEntry_cases params key block (height parent + 1) (some committed) with
        ⟨hsame, -, -⟩ | ⟨hnone, -, -⟩ | ⟨_, ⟨⟩, hrecorded, hevicts, -⟩
      · exact hsame
      · cases hnone
      · have hle := height_suffix hsuffix
        rw [height_cons] at hle
        have hyoung := htracks.young committed hentry _ hle block hblock hrecorded
        have hold := hevicts.2
        omega

/-! ## What a settled commitment leaves -/

/-- The registry has a commitment from up to the last block of the chain, unless the given height
is passed. -/
def Retains (base : Chain) (last height : Int) (entry : Option Int) : Prop :=
  (∃ committed ∈ entry, committed ≤ base.height) ∨
    last < height ∧ ∀ committed ∈ entry, last < committed

section Settled

variable {base : Chain} {last lowest : Int}
  (hknown : ∀ committed ≥ lowest, ∀ block ∈ base.getAncestor committed, block.Commits key →
    last ≤ committed + evictionWindow params ∨ Forgotten params base base.height committed)
  (hbase : base <:+ chain)

include hknown hbase

/-- A commitment from up to the settled one is evicted by a block above the given height only. -/
theorem lt_of_evicts (htracks : Tracks params key chain (height - 1) entry)
    (hheight : base.height ≤ height) {committed : Int} (hentry : committed ∈ entry)
    (hlowest : lowest ≤ committed) (hle : committed ≤ base.height)
    (hevicts : Evicts params height committed) : last < height := by
  obtain ⟨block, hblock, hcommits⟩ := htracks.sound committed hentry
  rw [getAncestor_suffix hbase hle] at hblock
  rcases hknown committed hlowest block hblock hcommits with
    hlast | ⟨found, hfound, hold, other, hother, hrecorded⟩
  · have hevicted := hevicts.2
    omega
  · rw [← getAncestor_suffix hbase (by omega)] at hother
    have hyoung := htracks.young committed hentry found (by omega) other hother hrecorded
    omega

theorem retains_arrive (htracks : Tracks params key chain (base.height - 1) entry)
    (hrange : ∀ committed ∈ entry, lowest ≤ committed ∧ committed ≤ base.height)
    (hcommits : block.Commits key) (hrecorded : block.Recorded params base.height) :
    Retains base last base.height (nextEntry params key block base.height entry) := by
  rcases nextEntry_cases params key block base.height entry with
    ⟨hsame, -, hsome⟩ | ⟨-, -, hnew⟩ | ⟨committed, hentry, -, hevicts, hnone⟩
  · rw [hsame]
    obtain ⟨committed, hentry⟩ := Option.ne_none_iff_exists'.mp (hsome hrecorded hcommits)
    exact Or.inl ⟨committed, hentry, (hrange committed hentry).2⟩
  · rw [hnew]
    exact Or.inl ⟨base.height, rfl, le_rfl⟩
  · rw [hnone]
    obtain ⟨hlowest, hle⟩ := hrange committed hentry
    exact Or.inr ⟨lt_of_evicts hknown hbase htracks le_rfl hentry hlowest hle hevicts, by simp⟩

theorem retains_stay (htracks : Tracks params key chain (height - 1) entry)
    (hheight : base.height < height) (hrange : ∀ committed ∈ entry, lowest ≤ committed)
    (hretains : Retains base last (height - 1) entry) :
    Retains base last height (nextEntry params key block height entry) := by
  rcases nextEntry_cases params key block height entry with
    ⟨hsame, -, -⟩ | ⟨hnone, -, hnew⟩ | ⟨committed, hentry, -, hevicts, hnone⟩
  · rw [hsame]
    exact hretains.imp id (fun hpassed => ⟨by omega, hpassed.2⟩)
  · rw [hnew]
    rcases hretains with ⟨committed, hentry, -⟩ | ⟨hpassed, -⟩
    · rw [hnone] at hentry
      cases hentry
    · refine Or.inr ⟨by omega, ?_⟩
      rintro _ ⟨⟩
      omega
  · rw [hnone]
    refine Or.inr ⟨?_, by simp⟩
    rcases hretains with ⟨early, hearly, hle⟩ | ⟨hpassed, -⟩
    · obtain rfl := Option.mem_unique hentry hearly
      exact lt_of_evicts hknown hbase htracks hheight.le hentry (hrange committed hentry) hle
        hevicts
    · omega

theorem retains_next (htracks : Tracks params key chain (height - 1) entry)
    (hblock : block ∈ chain.getAncestor height)
    (hcommits : ∃ block ∈ base.getAncestor base.height, block.Commits key)
    (hactive : params.IsHMPActive base.height) (hstage : params.getHMPStage base.height ≠ 1)
    (hrange : ∀ committed ∈ entry, lowest ≤ committed ∧ committed < height)
    (hretains : base.height < height → Retains base last (height - 1) entry)
    (hheight : base.height ≤ height) :
    Retains base last height (nextEntry params key block height entry) := by
  rcases hheight.eq_or_lt with rfl | hbelow
  · obtain ⟨other, hother, hcommits⟩ := hcommits
    rw [← getAncestor_suffix hbase le_rfl] at hother
    obtain rfl := Option.mem_unique hblock hother
    refine retains_arrive hknown hbase htracks (fun committed hentry => ?_) hcommits
      ⟨hactive, hstage, ?_⟩
    · exact ⟨(hrange committed hentry).1, (hrange committed hentry).2.le⟩
    · obtain ⟨cbTx, hcbTx, -⟩ := hcommits
      rw [hcbTx]
      rfl
  · exact retains_stay hknown hbase htracks hbelow
      (fun committed hentry => (hrange committed hentry).1) (hretains hbelow)

end Settled

theorem replay_range (hsuffix : chain <:+ full) (hactive : ReplaysActive params count chain)
    (hnone : state.registry.committedAt key = none) {committed : Int}
    (hentry : committed ∈ (replay params oracles count chain state).registry.committedAt key) :
    chain.height + 1 - count ≤ committed ∧ committed ≤ chain.height := by
  induction count generalizing chain with
  | zero =>
    rw [replay, hnone] at hentry
    cases hentry
  | succ count ih =>
    cases chain with
    | nil =>
      rw [replay, hnone] at hentry
      cases hentry
    | cons block parent =>
      obtain ⟨hnext, hparentActive, hparent, -⟩ := replay_succ oracles key state hsuffix hactive
      rw [hnext] at hentry
      rw [height_cons]
      push_cast
      rcases nextEntry_cases params key block (height parent + 1)
          ((replay params oracles count parent state).registry.committedAt key) with
        ⟨hsame, -, -⟩ | ⟨-, -, hnew⟩ | ⟨_, -, -, -, hgone⟩
      · rw [hsame] at hentry
        have hbefore := ih hparent hparentActive hentry
        omega
      · rw [hnew] at hentry
        cases hentry
        omega
      · rw [hgone] at hentry
        cases hentry

/-- A replay from before the settled commitment, of a registry that does not know the key. -/
theorem replay_retains {base : Chain} {last : Int}
    (hknown : ∀ committed ≥ full.height - maxLookback params, ∀ block ∈ base.getAncestor committed,
      block.Commits key → last ≤ committed + evictionWindow params ∨
        Forgotten params base base.height committed)
    (hcommits : ∃ block ∈ base.getAncestor base.height, block.Commits key)
    (hbaseActive : params.IsHMPActive base.height) (hstage : params.getHMPStage base.height ≠ 1)
    (hbase : base <:+ full) (hsuffix : chain <:+ full)
    (hactive : ReplaysActive params count chain)
    (hnone : state.registry.committedAt key = none)
    (hlowest : full.height - maxLookback params ≤ chain.height + 1 - count)
    (hreached : chain.height + 1 - count ≤ base.height) (hle : base.height ≤ chain.height) :
    Retains base last chain.height
      ((replay params oracles count chain state).registry.committedAt key) := by
  induction count generalizing chain with
  | zero => omega
  | succ count ih =>
    cases chain with
    | nil =>
      obtain ⟨block, hblock, -⟩ := hcommits
      have hnonneg := (height_of_getAncestor hblock).1
      simp only [height, List.length_nil] at hle hnonneg
      omega
    | cons block parent =>
      obtain ⟨hentry, hparentActive, hparent, hblock⟩ :=
        replay_succ oracles key state hsuffix hactive
      rw [height_cons] at hlowest hreached hle ⊢
      push_cast at hlowest hreached
      have htracks : Tracks params key full (height parent + 1 - 1)
          ((replay params oracles count parent state).registry.committedAt key) := by
        rw [Int.add_sub_cancel]
        refine Tracks.replay hparent hparentActive ?_
        rw [hnone]
        exact tracks_none params key full full.height
      rw [hentry]
      refine retains_next hknown hbase htracks hblock hcommits hbaseActive hstage ?_ ?_ hle
      · intro committed hcommitted
        have hrange := replay_range hparent hparentActive hnone hcommitted
        omega
      · intro hbelow
        rw [Int.add_sub_cancel]
        exact ih hparent hparentActive (by omega) (by omega) (by omega)

theorem Settled.deterministic {base : Chain} {last : Int} (hsettled : Settled params base key last)
    (hlookback : params.nHMPDeterministicSealHeight + maxLookback params ≤ last) :
    params.nHMPDeterministicSealHeight ≤ base.height := by
  have hwindow := evictionWindow_nonneg params
  have hwithin := evictionWindow_le_maxLookback params
  obtain ⟨block, hblock, hcommits⟩ := hsettled.commits
  rcases hsettled.known base.height block hblock hcommits with hlast | ⟨height, hbefore, hold, -⟩
  · omega
  · omega

/-! ## Histories -/

section Histories

variable {base : Chain} {last top : Int} {node next : HMPNode}

theorem Tracks.rebuild
    (htracks : Tracks params key chain chain.height (state.registry.committedAt key)) :
    Tracks params key chain chain.height
      ((state.rebuild params oracles chain).registry.committedAt key) := by
  unfold HMPState.rebuild
  split
  · rename_i hactive
    exact Tracks.replay List.suffix_rfl (replaysActive_rebuild hactive) htracks
  · exact htracks

theorem clearAtActivation_registry :
    (state.clearAtActivation params chain).registry = state.registry := by
  unfold clearAtActivation
  split <;> rfl

theorem Tracks.prepare
    (htracks : Tracks params key chain chain.height (state.registry.committedAt key)) :
    Tracks params key chain chain.height
      ((state.prepare params oracles chain).registry.committedAt key) := by
  have hcleared : Tracks params key chain chain.height
      ((state.clearAtActivation params chain).registry.committedAt key) := by
    rwa [clearAtActivation_registry]
  unfold HMPState.prepare
  split
  · split
    · exact hcleared.rebuild
    · exact hcleared
  · exact htracks

theorem Tracks.step (hstep : HMPStep params oracles node next)
    (htracks : Tracks params key node.chain node.chain.height
      (node.state.registry.committedAt key)) :
    Tracks params key next.chain next.chain.height (next.state.registry.committedAt key) := by
  cases hstep with
  | unchanged => exact htracks
  | rejected => exact htracks.prepare
  | connected block hcoinbase hblock =>
    rw [apply_committedAt, height_cons]
    refine Tracks.next ?_ (getAncestor_tip block node.chain)
    rw [Int.add_sub_cancel]
    exact htracks.prepare.extend block
  | disconnected tip parent older hchain =>
    rw [hchain] at htracks ⊢
    exact htracks.disconnect
  | rebuilt => exact htracks.rebuild
  | restarted =>
    have hfresh : Tracks params key node.chain node.chain.height
        (fresh.registry.committedAt key) :=
      tracks_none params key node.chain node.chain.height
    exact hfresh.rebuild

theorem rebuild_retains (hschedule : DeterministicSchedule params)
    (hknown : ∀ committed ≥ chain.height - maxLookback params, ∀ block ∈ base.getAncestor committed,
      block.Commits key → last ≤ committed + evictionWindow params ∨
        Forgotten params base base.height committed)
    (hcommits : ∃ block ∈ base.getAncestor base.height, block.Commits key)
    (hdeterministic : params.nHMPDeterministicSealHeight ≤ base.height) (hbase : base <:+ chain)
    (htop : chain.height ≤ base.height + maxLookback params)
    (htracks : Tracks params key chain chain.height (state.registry.committedAt key))
    (hentry : (∃ committed ∈ state.registry.committedAt key, committed ≤ base.height) ∨
      ∀ committed ∈ state.registry.committedAt key, last < committed) :
    Retains base last chain.height
      ((state.rebuild params oracles chain).registry.committedAt key) := by
  have hle := height_suffix hbase
  have hactive : params.IsHMPActive chain.height :=
    hschedule.hmpActive (hdeterministic.trans hle)
  have hreplays := replaysActive_rebuild hactive
  have hpositive := hschedule.positive
  have hhmp := hschedule.hmp_le
  unfold rebuild
  rw [if_pos hactive]
  cases hfound : state.registry.committedAt key with
  | none =>
    refine replay_retains hknown hcommits (hschedule.hmpActive hdeterministic)
      (hschedule.stage_ne_one hdeterministic) hbase List.suffix_rfl hreplays hfound ?_ ?_ hle
    · unfold startHeight
      omega
    · unfold startHeight
      omega
  | some committed =>
    have hsame := @replay_of_some params oracles key chain { state with tracker := cleared } chain
      _ committed List.suffix_rfl hreplays htracks hfound
    rw [hsame]
    obtain ⟨block, hblock, -⟩ := htracks.sound committed hfound
    have hbelow := (height_of_getAncestor hblock).2
    rw [hfound] at hentry
    exact hentry.imp id (fun hlast => ⟨(hlast committed rfl).trans_le hbelow, hlast⟩)

/-- What holds of the entry of a key in every state of a node, for a settled commitment. -/
structure EntryHistory (params : Params) (oracles : Oracles) (key : CBLSPublicKey) (base : Chain)
    (last : Int) (node : HMPNode) : Prop where
  history : History params oracles node
  tracks : Tracks params key node.chain node.chain.height (node.state.registry.committedAt key)
  retained : base <:+ node.chain →
    (∃ committed ∈ node.state.registry.committedAt key, committed ≤ base.height) ∨
      (node.state.anchor = none ∨ last < node.chain.height) ∧
        ∀ committed ∈ node.state.registry.committedAt key, last < committed

theorem Retains.retained (hretains : Retains base last height entry) (anchor : Option Uint256) :
    (∃ committed ∈ entry, committed ≤ base.height) ∨
      (anchor = none ∨ last < height) ∧ ∀ committed ∈ entry, last < committed :=
  hretains.imp id (fun hpassed => ⟨Or.inr hpassed.1, hpassed.2⟩)

theorem entryHistory_start (params : Params) (oracles : Oracles) (key : CBLSPublicKey)
    (base : Chain) (last : Int) (genesis : HMPBlock) :
    EntryHistory params oracles key base last (.start genesis) where
  history := history_start params oracles genesis
  tracks := tracks_none params key [genesis] _
  retained := fun _ => Or.inr ⟨Or.inl rfl, fun _ hentry => by cases hentry⟩

section Step

variable (hschedule : DeterministicSchedule params) (hsettled : Settled params base key last)
  (hdeterministic : params.nHMPDeterministicSealHeight ≤ base.height)
  (hhistory : EntryHistory params oracles key base last node)
  (htop : node.chain.height ≤ base.height + maxLookback params)

include hschedule hsettled hdeterministic hhistory htop

theorem EntryHistory.rebuild (hbase : base <:+ node.chain) :
    Retains base last node.chain.height
      ((node.state.rebuild params oracles node.chain).registry.committedAt key) :=
  rebuild_retains hschedule (fun committed _ => hsettled.known committed) hsettled.commits
    hdeterministic hbase htop hhistory.tracks ((hhistory.retained hbase).imp id And.right)

theorem EntryHistory.prepare (hbase : base <:+ node.chain) :
    Retains base last node.chain.height
      ((node.state.prepare params oracles node.chain).registry.committedAt key) := by
  have hheight : params.nHMPDeterministicSealHeight ≤ node.chain.height :=
    hdeterministic.trans (height_suffix hbase)
  have hnext : params.nHMPDeterministicSealHeight ≤ node.chain.height + 1 := by omega
  unfold HMPState.prepare HMPState.clearAtActivation
  rw [if_pos (hschedule.hmpActive hnext), if_pos (hschedule.hmpActive hheight)]
  split
  · exact hhistory.rebuild hschedule hsettled hdeterministic htop hbase
  · rename_i hanchored
    rw [not_and_not_right] at hanchored
    have htip := hanchored (hschedule.active_iff.mpr hnext)
    refine (hhistory.retained hbase).imp id (fun hpassed => ⟨?_, hpassed.2⟩)
    refine hpassed.1.resolve_left (fun hnone => ?_)
    exact hhistory.history.tipHash_ne_none (htip.symm.trans hnone)

theorem EntryHistory.connect (block : HMPBlock) (hbase : base <:+ block :: node.chain) :
    Retains base last (node.chain.height + 1) (nextEntry params key block (node.chain.height + 1)
      ((node.state.prepare params oracles node.chain).registry.committedAt key)) := by
  have hprepared : Tracks params key node.chain node.chain.height
      ((node.state.prepare params oracles node.chain).registry.committedAt key) :=
    hhistory.tracks.prepare
  have htracks := hprepared.extend block
  rw [← Int.add_sub_cancel node.chain.height 1] at htracks
  refine retains_next (fun committed (_ : committed ≥ 0) => hsettled.known committed) hbase htracks
    (getAncestor_tip block node.chain) hsettled.commits (hschedule.hmpActive hdeterministic)
    (hschedule.stage_ne_one hdeterministic) ?_ ?_
    (by simpa only [height_cons] using height_suffix hbase)
  · intro committed hcommitted
    obtain ⟨_, hfound, -⟩ := hprepared.sound committed hcommitted
    have hrange := height_of_getAncestor hfound
    omega
  · intro hbelow
    rw [Int.add_sub_cancel]
    refine hhistory.prepare hschedule hsettled hdeterministic htop ?_
    rcases List.suffix_cons_iff.mp hbase with rfl | holder
    · rw [height_cons] at hbelow
      omega
    · exact holder

theorem EntryHistory.step (hstep : HMPStep params oracles node next) :
    EntryHistory params oracles key base last next := by
  refine ⟨history_step hschedule hstep hhistory.history, hhistory.tracks.step hstep, fun hbase => ?_⟩
  cases hstep with
  | unchanged => exact hhistory.retained hbase
  | rejected =>
    exact (hhistory.prepare hschedule hsettled hdeterministic htop hbase).retained _
  | connected block hcoinbase hblock =>
    rw [apply_committedAt, height_cons]
    exact (hhistory.connect hschedule hsettled hdeterministic htop block hbase).retained _
  | disconnected tip parent older hchain =>
    have hwhole : base <:+ node.chain := by
      rw [hchain]
      exact hbase.trans (List.suffix_cons tip (parent :: older))
    have hheight : base.height < node.chain.height := by
      rw [hchain, height_cons]
      exact Int.lt_add_one_iff.mpr (height_suffix hbase)
    rcases hhistory.retained hwhole with ⟨committed, hentry, hle⟩ | ⟨-, hlast⟩
    · exact Or.inl ⟨committed, mem_blockDisconnected.mpr ⟨hentry, hle.trans_lt hheight⟩, hle⟩
    · exact Or.inr ⟨Or.inl rfl, fun committed hentry =>
        hlast committed (mem_blockDisconnected.mp hentry).1⟩
  | rebuilt =>
    exact (hhistory.rebuild hschedule hsettled hdeterministic htop hbase).retained _
  | restarted =>
    refine (rebuild_retains hschedule (fun committed _ => hsettled.known committed) hsettled.commits
      hdeterministic hbase htop (tracks_none params key node.chain _) (Or.inr ?_)).retained _
    intro committed hentry
    cases hentry

end Step

end Histories

/-! ## What the final registry says -/

variable {registry : CHMPCommitmentRegistry} {genesis : HMPBlock} {actions : List HMPAction}

theorem isCommitted_iff (hoffset : 0 < params.nHMPCommitmentOffset) {atHeight : Int} :
    registry.isCommitted params key atHeight ↔
      ∃ height ∈ registry.committedAt key, height + params.nHMPCommitmentOffset ≤ atHeight := by
  unfold isCommitted committedAt
  rw [if_neg (by omega)]
  cases registry.commitments[key]? with
  | none => simp
  | some height =>
    simp only [decide_eq_true_eq, Option.mem_some_iff, exists_eq_left']
    omega

/-- Every state of the history before its last has at most the given height. -/
def StaysBelow (params : Params) (oracles : Oracles) (genesis : HMPBlock) (top : Int)
    (actions : List HMPAction) : Prop :=
  Guarded (hmpStep params oracles) (fun node _ => node.chain.height ≤ top) (.start genesis) actions

theorem entryHistory_after (hschedule : DeterministicSchedule params) {base : Chain}
    {last top : Int} (hsettled : Settled params base key last)
    (hdeterministic : params.nHMPDeterministicSealHeight ≤ base.height)
    (htop : top ≤ base.height + maxLookback params)
    (hbelow : StaysBelow params oracles genesis top actions) :
    EntryHistory params oracles key base last (.after params oracles genesis actions) :=
  (always_of_guarded (fun node action hhistory hheight =>
    EntryHistory.step hschedule hsettled hdeterministic hhistory (le_trans hheight htop)
      (hmpStep_cases params oracles node action))
    (entryHistory_start params oracles key base last genesis) hbelow).final

theorem tracks_after (params : Params) (oracles : Oracles) (key : CBLSPublicKey)
    (genesis : HMPBlock) (actions : List HMPAction) :
    Tracks params key (HMPNode.after params oracles genesis actions).chain
      (HMPNode.after params oracles genesis actions).chain.height
      ((HMPNode.after params oracles genesis actions).state.registry.committedAt key) :=
  (always_of_hmpStep (fun _ _ hstep htracks => Tracks.step hstep htracks)
    (tracks_none params key [genesis] _) actions).final

theorem not_isCommitted_of_forgotten (hoffset : 0 < params.nHMPCommitmentOffset)
    (htracks : Tracks params key chain chain.height (registry.committedAt key))
    (hforgotten : ∀ committed,
      committed + params.nHMPCommitmentOffset ≤ sealedHeight params chain →
      ∀ block ∈ chain.getAncestor committed, block.Commits key →
        Forgotten params chain (chain.height + 1) committed) :
    ¬ registry.isCommitted params key (sealedHeight params chain) := by
  rw [isCommitted_iff hoffset]
  rintro ⟨committed, hentry, hearly⟩
  obtain ⟨block, hblock, hcommits⟩ := htracks.sound committed hentry
  obtain ⟨height, hheight, hold, later, hlater, hrecorded⟩ :=
    hforgotten committed hearly block hblock hcommits
  have hyoung := htracks.young committed hentry height (by omega) later hlater hrecorded
  omega

theorem isCommitted_of_settled (hoffset : 0 < params.nHMPCommitmentOffset) {base : Chain}
    {node : HMPNode} (hchain : node.chain = chain) (hanchored : node.state.anchor = chain.tipHash)
    (hhistory : EntryHistory params oracles key base chain.height node) (hbase : base <:+ chain)
    (hearly : base.height + params.nHMPCommitmentOffset ≤ sealedHeight params chain) :
    node.state.registry.isCommitted params key (sealedHeight params chain) := by
  subst hchain
  rw [isCommitted_iff hoffset]
  rcases hhistory.retained hbase with ⟨committed, hentry, hle⟩ | ⟨hnone | hpassed, -⟩
  · exact ⟨committed, hentry, by omega⟩
  · exact absurd (hanchored.symm.trans hnone) hhistory.history.tipHash_ne_none
  · omega

end Kerrigan.HMP
