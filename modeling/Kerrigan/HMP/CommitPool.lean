import Kerrigan.HMP.ConnectBlock

/-!
# The pool of pending commitments

Signed commitments wait for a block.  `Add` verifies a signature between two critical sections, so
other calls come in between.  A template of the re-armed rules embeds commitments of the pool.
-/

namespace Kerrigan.HMP

open Primitives Consensus Lib CPubKeyCommit List CHMPCommitPool

def CPubKeyCommit.Verify (oracles : Oracles) (commit : CPubKeyCommit) : Prop :=
  commit.pubKey.IsValid ∧ commit.signature.IsValid ∧
    oracles.verifyCommitment commit.pubKey commit.signature

instance (oracles : Oracles) (commit : CPubKeyCommit) : Decidable (commit.Verify oracles) :=
  inferInstanceAs (Decidable (_ ∧ _))

namespace CHMPCommitPool

def maxPending : Nat := 256

def commitTtlSecs : Int := 3600

def maxCommitmentsPerBlock : Nat := 16

variable (oracles : Oracles) (registry : CHMPCommitmentRegistry) (pool : CHMPCommitPool)
  (commit : CPubKeyCommit) (nNow : Int)

/-- `Add` up to the verification, which runs outside the lock. -/
def checkCommit : Except HMPAcceptResult Unit := do
  require (commit.pubKey.IsValid ∧ commit.signature.IsValid) .rejectedInvalid
  require (registry.committedAt commit.pubKey = none) .rejectedBenign
  require (pool.pending[commit.pubKey]? = none) .rejectedBenign
  require (pool.pending.size < maxPending) .rejectedBenign
  require (commit.Verify oracles) .rejectedInvalid

def evictExpired : CHMPCommitPool where
  pending := pool.pending.filter (fun _ held => nNow - held.nTimestamp ≤ commitTtlSecs)

/-- The second critical section of `Add`. -/
def insertCommit : HMPAcceptResult × CHMPCommitPool :=
  if pool.pending[commit.pubKey]?.isSome then (.rejectedBenign, pool)
  else
    let evicted := pool.evictExpired nNow
    if nNow + 300 < commit.nTimestamp ∨ maxPending ≤ evicted.pending.size then
      (.rejectedBenign, evicted)
    else (.accepted, ⟨evicted.pending.insert commit.pubKey commit⟩)

def addFromReorg : HMPAcceptResult × CHMPCommitPool :=
  if ¬ commit.signature.IsValid then (.accepted, pool)
  else if pool.pending[commit.pubKey]?.isSome ∨ maxPending ≤ pool.pending.size then
    (.rejectedBenign, pool)
  else (.accepted, ⟨pool.pending.insert commit.pubKey commit⟩)

def getPendingCommits (maxCount : Nat) : List CPubKeyCommit :=
  ((pool.pending.toList.map Prod.snd).filter (fun held => held.signature.IsValid)).take maxCount

/-- What `CreateNewBlock` embeds from the re-arm height on. -/
def templateCommitments : List CPubKeyCommit :=
  ((pool.getPendingCommits (maxCommitmentsPerBlock * 2)).filter (fun held =>
    registry.committedAt held.pubKey = none ∧ held.Verify oracles)).take maxCommitmentsPerBlock

end CHMPCommitPool

def CCbTx.embed (cbTx : CCbTx) (template : List CPubKeyCommit) : CCbTx :=
  { cbTx with
    vCommitments := template.map pubKey
    vCommitmentSigs := template.map signature }

open CHMPCommitmentRegistry

/-! ## Calls -/

structure PoolNode where
  pool : CHMPCommitPool
  /-- The commitments that calls of `Add` have verified and not inserted yet. -/
  verified : List CPubKeyCommit

inductive PoolAction where
  | check (registry : CHMPCommitmentRegistry) (commit : CPubKeyCommit)
  | insert (position : Nat) (nNow : Int)
  /-- `DisconnectTip` restores the keys of the block without their signatures. -/
  | disconnect (minerIdentity : CBLSPublicKey) (keys : List CBLSPublicKey) (nNow : Int)
  | connect (minerIdentity : CBLSPublicKey) (keys : List CBLSPublicKey)

def PoolNode.start : PoolNode := ⟨⟨∅⟩, []⟩

variable (oracles : Oracles)

def poolStep (node : PoolNode) : PoolAction → PoolNode
  | .check registry commit =>
      match node.pool.checkCommit oracles registry commit with
      | .error _ => node
      | .ok () => { node with verified := commit :: node.verified }
  | .insert position nNow =>
      match node.verified[position]? with
      | none => node
      | some commit => ⟨(node.pool.insertCommit commit nNow).2, node.verified.eraseIdx position⟩
  | .disconnect minerIdentity keys nNow =>
      { node with
        pool := (if minerIdentity.IsValid then keys ++ [minerIdentity] else keys).foldl
          (fun pool pk => (pool.addFromReorg ⟨pk, 0, nNow⟩).2) node.pool }
  | .connect minerIdentity keys => { node with pool := node.pool.cleanup minerIdentity keys }

/-! ## What the pool holds -/

structure SoundPool (pool : CHMPCommitPool) : Prop where
  size : pool.pending.size ≤ maxPending
  pending : ∀ (pk : CBLSPublicKey) held, pool.pending[pk]? = some held →
    held.pubKey = pk ∧ held.Verify oracles

variable {oracles} {pool smaller : CHMPCommitPool}

theorem SoundPool.shrink (hsound : SoundPool oracles pool)
    (hsize : smaller.pending.size ≤ pool.pending.size)
    (hpending : ∀ (pk : CBLSPublicKey) held, smaller.pending[pk]? = some held →
      pool.pending[pk]? = some held) : SoundPool oracles smaller :=
  ⟨hsize.trans hsound.size, fun pk held hheld => hsound.pending pk held (hpending pk held hheld)⟩

theorem pending_cleanup (minerIdentity : CBLSPublicKey) (keys : List CBLSPublicKey) :
    (pool.cleanup minerIdentity keys).pending =
      (if minerIdentity.IsValid then minerIdentity :: keys else keys).foldl
        (fun map key => map.erase key) pool.pending := by
  have hfold : ∀ start : CHMPCommitPool, (keys.foldl remove start).pending =
      keys.foldl (fun map key => map.erase key) start.pending := by
    induction keys with
    | nil => exact fun _ => rfl
    | cons key rest ih => exact fun start => ih _
  rw [cleanup, hfold]
  split <;> rfl

theorem SoundPool.cleanup (hsound : SoundPool oracles pool) (minerIdentity : CBLSPublicKey)
    (keys : List CBLSPublicKey) : SoundPool oracles (pool.cleanup minerIdentity keys) := by
  refine hsound.shrink ?_ ?_ <;> rw [pending_cleanup]
  · generalize pool.pending = map
    induction (if minerIdentity.IsValid then minerIdentity :: keys else keys) generalizing map with
    | nil => exact le_rfl
    | cons key rest ih => exact (ih _).trans Std.ExtTreeMap.size_erase_le
  · intro pk held hheld
    rw [getElem?_foldl_erase, Option.ite_none_left_eq_some] at hheld
    exact hheld.2

theorem SoundPool.insertCommit (hsound : SoundPool oracles pool) {commit : CPubKeyCommit}
    (hverify : commit.Verify oracles) (nNow : Int) :
    SoundPool oracles (pool.insertCommit commit nNow).2 := by
  have hevicted : SoundPool oracles (pool.evictExpired nNow) := by
    refine hsound.shrink Std.ExtTreeMap.size_filter_le_size ?_
    intro pk held hheld
    rw [evictExpired, Std.ExtTreeMap.getElem?_filter] at hheld
    obtain ⟨hfound, -⟩ := Option.pfilter_eq_some_iff.mp hheld
    exact hfound
  unfold CHMPCommitPool.insertCommit
  split
  · exact hsound
  · dsimp only
    split
    · exact hevicted
    · rename_i hroom
      refine ⟨Std.ExtTreeMap.size_insert_le.trans (by omega), ?_⟩
      intro pk held hheld
      rcases getElem?_insert_cases hheld with ⟨rfl, rfl⟩ | ⟨-, hheld⟩
      · exact ⟨rfl, hverify⟩
      · exact hevicted.pending pk held hheld

structure SoundNode (oracles : Oracles) (node : PoolNode) : Prop where
  pool : SoundPool oracles node.pool
  verified : ∀ commit ∈ node.verified, commit.Verify oracles

theorem SoundNode.poolStep {node : PoolNode} (hsound : SoundNode oracles node)
    (action : PoolAction) : SoundNode oracles (poolStep oracles node action) := by
  cases action with
  | check registry commit =>
    simp only [HMP.poolStep]
    split
    · exact hsound
    · rename_i hcheck
      simp only [checkCommit, bind_eq_ok_iff, require_eq_ok_iff] at hcheck
      obtain ⟨-, -, -, -, -, -, -, -, hverify⟩ := hcheck
      exact ⟨hsound.pool, forall_mem_cons.mpr ⟨hverify, hsound.verified⟩⟩
  | insert position nNow =>
    simp only [HMP.poolStep]
    split
    · exact hsound
    · rename_i commit hcommit
      have hverify := hsound.verified commit (mem_of_getElem? hcommit)
      exact ⟨hsound.pool.insertCommit hverify nNow, fun other hother =>
        hsound.verified other (mem_of_mem_eraseIdx hother)⟩
  | disconnect minerIdentity keys nNow =>
    have hsame : ∀ keys : List CBLSPublicKey, keys.foldl
        (fun pool pk => (pool.addFromReorg ⟨pk, 0, nNow⟩).2) node.pool = node.pool := by
      intro keys
      induction keys with
      | nil => rfl
      | cons pk rest ih => exact ih
    refine ⟨?_, hsound.verified⟩
    rw [HMP.poolStep, hsame]
    exact hsound.pool
  | connect minerIdentity keys => exact ⟨hsound.pool.cleanup minerIdentity keys, hsound.verified⟩

/-! ## Templates -/

variable {registry : CHMPCommitmentRegistry}

theorem mem_templateCommitments {held : CPubKeyCommit}
    (hmem : held ∈ pool.templateCommitments oracles registry) :
    registry.committedAt held.pubKey = none ∧ held.Verify oracles :=
  of_decide_eq_true (mem_filter.mp (mem_of_mem_take hmem)).2

theorem checkCbTx_embed {params : Params} {height : Int} {cbTx : CCbTx}
    {template : List CPubKeyCommit} (hverify : ∀ held ∈ template, held.Verify oracles)
    (hcheck : checkCbTx params oracles height cbTx = .ok ()) :
    checkCbTx params oracles height (cbTx.embed template) = .ok () := by
  have hsigned : ∀ commitment ∈ (template.map pubKey).zip
      (template.map signature), commitment.1.IsValid ∧ commitment.2.IsValid ∧
        oracles.verifyCommitment commitment.1 commitment.2 := by
    rw [zip_map', forall_mem_map]
    exact hverify
  simp only [checkCbTx, bind_eq_ok_iff, require_eq_ok_iff] at hcheck ⊢
  obtain ⟨_, hversion, _, hv20, _, hactive, _, hrearm, _, hparity, _, halgos, hcheck⟩ := hcheck
  refine ⟨(), hversion, (), hv20, (), hactive, (), hrearm, (), hparity, (), halgos, ?_⟩
  split at hcheck
  · obtain ⟨_, hproofs, -⟩ := bind_eq_ok_iff.mp hcheck
    refine (if_pos ‹_›).trans (bind_eq_ok_iff.mpr ⟨(), hproofs, bind_eq_ok_iff.mpr ⟨(), ?_, ?_⟩⟩)
    · exact require_eq_ok_iff.mpr (by simp [CCbTx.embed])
    · exact require_eq_ok_iff.mpr hsigned
  · exact if_neg ‹_›

theorem SoundPool.nodup_template (hsound : SoundPool oracles pool) :
    ((pool.templateCommitments oracles registry).map pubKey).Nodup := by
  have hall : ((pool.pending.toList.map Prod.snd).map pubKey).Nodup := by
    rw [← filterMap_eq_map (f := Prod.snd)]
    apply nodup_filterMap_toList
    rintro pk held item hheld ⟨⟩
    exact (hsound.pending pk held hheld).1
  have hsublist : (pool.templateCommitments oracles registry).Sublist
      (pool.pending.toList.map Prod.snd) :=
    (take_sublist _ _).trans (filter_sublist.trans
      ((take_sublist _ _).trans filter_sublist))
  exact (hsublist.map _).nodup hall

/-- In every state that interleaved calls reach, the pool holds verified commitments only.  A
template may embed its choice in any payload, and its block records their keys and takes them out of
the pool. -/
theorem pool_templates_accepted (oracles : Oracles) (actions : List PoolAction) :
    Always (poolStep oracles) (fun node => SoundPool oracles node.pool ∧
      ∀ registry, let template := node.pool.templateCommitments oracles registry
        let keys := template.map pubKey
        template.length ≤ maxCommitmentsPerBlock ∧ keys.Nodup ∧
        ∀ params height, (∀ cbTx, checkCbTx params oracles height cbTx = .ok () →
          checkCbTx params oracles height (cbTx.embed template) = .ok ()) ∧
        ∀ minerIdentity, ∀ pk ∈ keys,
          (registry.blockConnected params height minerIdentity keys).committedAt pk = some height ∧
          (node.pool.cleanup minerIdentity keys).pending[pk]? = none) .start actions := by
  have hsound : Always (poolStep oracles) (SoundNode oracles) .start actions :=
    always_of_preserved (fun _ action hnode => hnode.poolStep action)
      ⟨⟨by simp [PoolNode.start], by simp [PoolNode.start]⟩, by simp [PoolNode.start]⟩ actions
  intro visited hvisited
  have hpool := (hsound visited hvisited).pool
  refine ⟨hpool, fun registry => ⟨length_take_le _ _, hpool.nodup_template, ?_⟩⟩
  refine fun params height => ⟨fun cbTx hcheck =>
    checkCbTx_embed (fun _ hheld => (mem_templateCommitments hheld).2) hcheck, ?_⟩
  intro minerIdentity pk hpk
  obtain ⟨held, hheld, rfl⟩ := mem_map.mp hpk
  obtain ⟨hnew, hverify⟩ := mem_templateCommitments hheld
  have hwindow : ¬ Evicts params height height := by
    unfold Evicts evictionWindow
    omega
  refine ⟨?_, ?_⟩
  · rw [blockConnected_committedAt, if_pos ⟨⟨hverify.1, Or.inr hpk⟩, hnew⟩, Option.filter_some,
      if_pos (decide_eq_true hwindow)]
  · rw [pending_cleanup, getElem?_foldl_erase, if_pos (by split <;> simp [hpk])]

end Kerrigan.HMP
