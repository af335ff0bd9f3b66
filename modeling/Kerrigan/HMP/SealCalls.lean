import Kerrigan.HMP.SealStore
import Kerrigan.Lib.Run

/-!
# Calls of the seal manager

Every critical section of the manager as one call, in any order and with any arguments.
`AddAssembledSeal` takes the lock twice, so other calls come between its checks and its commit.  The
loops that evict seals are run as they are written: a state is missing where a loop would read the
front of an empty queue.
-/

namespace Kerrigan.HMP

open Primitives Consensus Lib CSealManager List

/-! ## Calls -/

namespace CSealManager

variable (context : SealContext) (manager : CSealManager)

def cleanupLoop (now : Int) : Option CSealManager :=
  (evictLoop maxKept (fun (side : Unit) _ => side) manager.sealInsertionOrder
      manager.assembledSeals ()).map (fun left =>
    { manager with
      sessions := (manager.staleSessions context now).foldl (fun map hash => map.erase hash)
        manager.sessions
      assembledSeals := left.2.1
      sealInsertionOrder := left.1
      heightToHash := trimLowest maxKept manager.heightToHash })

def assembleCall (blockHash : Uint256) : CSealManager :=
  match manager.sessions[blockHash]? with
  | none => manager
  | some session =>
      match tryAssemble context session with
      | none => manager
      | some assembled =>
          { manager with
            sessions := manager.sessions.insert blockHash { session with assembled := true }
            assembledSeals := manager.assembledSeals.insert assembled.blockHash assembled
            sealInsertionOrder := manager.sealInsertionOrder ++ [assembled.blockHash] }

def mayCommit (assembled : CAssembledSeal) (height : Int) : Bool :=
  ¬ assembled.IsNull ∧ manager.betterKnown assembled height = none ∧
    assembled.signers.length ≤ maxSealSigners ∧ assembled.signers.Nodup ∧
    assembled.Verify context.oracles

def commitSeal (assembled : CAssembledSeal) (height : Int) : Option CSealManager :=
  match manager.betterKnown assembled height with
  | some _ => some manager
  | none =>
      (evictLoop maxKept forgetHeight (manager.orderWith assembled height)
          (manager.sealsWith assembled height)
          (manager.heightToHash.insert height assembled.blockHash)).map (fun left =>
        { manager with
          assembledSeals := left.2.1
          sealInsertionOrder := left.1
          heightToHash := left.2.2 })

end CSealManager

/-- The manager, and the seals that calls of `AddAssembledSeal` have verified and not committed
yet. -/
structure SealCustody where
  manager : CSealManager
  pending : List (CAssembledSeal × Int)

inductive SealCall where
  | onNewBlock (blockHash : Uint256) (height : Int) (prevSealHash : Uint256) (now : Int)
  | insertShare (share : CSealShare)
  | tryAssemble (blockHash : Uint256)
  | cleanupStaleSessions (now : Int)
  | checkAssembledSeal (assembled : CAssembledSeal) (height : Int)
  | commitAssembledSeal (assembled : CAssembledSeal) (height : Int)
  | signBlock (view : TrackerView) (blockHash : Uint256) (algo : Nat)
  | blockDisconnected (blockHash : Uint256) (height : Int)

variable (context : SealContext)

def sealCall (custody : SealCustody) : SealCall → Option SealCustody
  | .onNewBlock blockHash height prevSealHash now =>
      some { custody with
        manager := custody.manager.onNewBlock blockHash height prevSealHash now }
  | .insertShare share =>
      match custody.manager.insertShare share with
      | .error _ => some custody
      | .ok next => some { custody with manager := next }
  | .tryAssemble blockHash =>
      some { custody with manager := custody.manager.assembleCall context blockHash }
  | .cleanupStaleSessions now =>
      (custody.manager.cleanupLoop context now).map (fun next => { custody with manager := next })
  | .checkAssembledSeal assembled height =>
      if custody.manager.mayCommit context assembled height then
        some { custody with pending := custody.pending ++ [(assembled, height)] }
      else some custody
  | .commitAssembledSeal assembled height =>
      if (assembled, height) ∈ custody.pending then
        (custody.manager.commitSeal assembled height).map (fun next =>
          ⟨next, custody.pending.erase (assembled, height)⟩)
      else some custody
  | .signBlock view blockHash algo =>
      some { custody with manager := (custody.manager.signBlock context view blockHash algo).2 }
  | .blockDisconnected blockHash height =>
      some { custody with manager := custody.manager.blockDisconnected blockHash height }

def sealCallStep (state : Option SealCustody) (call : SealCall) : Option SealCustody :=
  state.bind (fun custody => sealCall context custody call)

def SealCustody.start : SealCustody := ⟨.empty, []⟩

/-! ## The invariant -/

/-- Every stored seal is in the insertion order, under its own block, and verifies. -/
structure SoundStore (context : SealContext) (manager : CSealManager) : Prop where
  recorded : ∀ (hash : Uint256) (assembled : CAssembledSeal),
    manager.assembledSeals[hash]? = some assembled → hash ∈ manager.sealInsertionOrder
  sound : ∀ (hash : Uint256) (assembled : CAssembledSeal),
    manager.assembledSeals[hash]? = some assembled →
      assembled.blockHash = hash ∧ assembled.Verify context.oracles

section SoundStore

variable {context : SealContext} {manager : CSealManager}

theorem soundStore_empty : SoundStore context .empty := by
  constructor <;> simp [empty]

theorem SoundStore.keys (hstore : SoundStore context manager) :
    ∀ hash ∈ manager.assembledSeals, hash ∈ manager.sealInsertionOrder := by
  intro hash hmem
  obtain ⟨assembled, hfound⟩ := Option.isSome_iff_exists.mp
    (Std.ExtTreeMap.mem_iff_isSome_getElem?.mp hmem)
  exact hstore.recorded hash assembled hfound

variable {next : CSealManager}

theorem SoundStore.of_sameStore (hstore : SoundStore context manager)
    (hsame : SameStore next manager) : SoundStore context next := by
  obtain ⟨hseals, horder, -⟩ := hsame
  constructor
  · rw [hseals, horder]
    exact hstore.recorded
  · rw [hseals]
    exact hstore.sound

variable {assembled : CAssembledSeal}

theorem SoundStore.push (hstore : SoundStore context manager)
    (hverify : assembled.Verify context.oracles)
    (hseals : next.assembledSeals = manager.assembledSeals.insert assembled.blockHash assembled)
    (hnew : assembled.blockHash ∈ next.sealInsertionOrder)
    (hothers : ∀ hash ∈ manager.sealInsertionOrder, hash ≠ assembled.blockHash →
      hash ∈ next.sealInsertionOrder) : SoundStore context next := by
  constructor
  · intro hash found hfound
    rw [hseals] at hfound
    rcases getElem?_insert_cases hfound with ⟨rfl, -⟩ | ⟨hother, hbefore⟩
    · exact hnew
    · exact hothers hash (hstore.recorded hash found hbefore) hother
  · intro hash found hfound
    rw [hseals] at hfound
    rcases getElem?_insert_cases hfound with ⟨rfl, rfl⟩ | ⟨-, hbefore⟩
    · exact ⟨rfl, hverify⟩
    · exact hstore.sound hash found hbefore

theorem SoundStore.forget (hstore : SoundStore context manager) (gone : List Uint256)
    (hseals : next.assembledSeals = gone.foldl (fun map hash => map.erase hash)
      manager.assembledSeals)
    (horder : ∀ hash ∈ manager.sealInsertionOrder, hash ∉ gone → hash ∈ next.sealInsertionOrder) :
    SoundStore context next := by
  have hbefore : ∀ (hash : Uint256) (assembled : CAssembledSeal),
      next.assembledSeals[hash]? = some assembled →
        hash ∉ gone ∧ manager.assembledSeals[hash]? = some assembled := by
    intro hash assembled hfound
    rw [hseals, getElem?_foldl_erase] at hfound
    split at hfound
    · cases hfound
    · rename_i hstays
      exact ⟨hstays, hfound⟩
  constructor
  · intro hash assembled hfound
    obtain ⟨hstays, hold⟩ := hbefore hash assembled hfound
    exact horder hash (hstore.recorded hash assembled hold) hstays
  · intro hash assembled hfound
    exact hstore.sound hash assembled (hbefore hash assembled hfound).2

theorem tryAssemble_verify {session : CSealSession}
    (hassembled : tryAssemble context session = some assembled) :
    assembled.Verify context.oracles := by
  unfold tryAssemble at hassembled
  dsimp only at hassembled
  split at hassembled
  · rename_i hready
    cases hassembled
    exact hready.2.2
  · cases hassembled

section

variable (hstore : SoundStore context manager)

include hstore

theorem SoundStore.assembleCall (blockHash : Uint256) :
    SoundStore context (manager.assembleCall context blockHash) := by
  unfold CSealManager.assembleCall
  split
  · exact hstore
  · split
    · exact hstore
    · rename_i assembled hassembled
      refine hstore.push (tryAssemble_verify hassembled) rfl (by simp) ?_
      exact fun hash hmem _ => mem_append_left _ hmem

theorem SoundStore.blockDisconnected (blockHash : Uint256)
    (height : Int) : SoundStore context (manager.blockDisconnected blockHash height) := by
  refine hstore.forget [blockHash] rfl ?_
  intro hash hmem hstays
  refine mem_filter.mpr ⟨hmem, ?_⟩
  simpa using hstays

theorem SoundStore.evict {σ : Type} {drop : σ → Uint256 → σ} {side last : σ}
    (hloop : evictLoop maxKept drop manager.sealInsertionOrder manager.assembledSeals side =
      some (next.sealInsertionOrder, next.assembledSeals, last)) :
    SoundStore context next ∧ next.assembledSeals.size ≤ maxKept := by
  obtain ⟨⟨horder, hseals, -⟩, hsize⟩ := evictLoop_eq_some hloop
  refine ⟨⟨?_, ?_⟩, hsize⟩
  · intro hash assembled hfound
    rw [hseals] at hfound
    rw [horder]
    exact mem_drop_of_evicted hstore.recorded hfound
  · intro hash assembled hfound
    rw [hseals, getElem?_foldl_erase] at hfound
    split at hfound
    · cases hfound
    · exact hstore.sound hash assembled hfound

theorem SoundStore.cleanup (now : Int) :
    manager.cleanupLoop context now = some (manager.cleanupStaleSessions context now) ∧
      SoundStore context (manager.cleanupStaleSessions context now) ∧
      (manager.cleanupStaleSessions context now).assembledSeals.size ≤ maxKept := by
  obtain ⟨⟨order, seals, side⟩, hloop⟩ := Option.isSome_iff_exists.mp
    (isSome_evictLoop maxKept (fun (side : Unit) _ => side) hstore.keys ())
  obtain ⟨⟨rfl, rfl, -⟩, -⟩ := evictLoop_eq_some hloop
  refine ⟨?_, hstore.evict hloop⟩
  rw [cleanupLoop, hloop]
  rfl

theorem SoundStore.sealsWith (hverify : assembled.Verify context.oracles) (height : Int) :
    SoundStore context
      { manager with
        assembledSeals := manager.sealsWith assembled height
        sealInsertionOrder := manager.orderWith assembled height } := by
  constructor
  · exact fun hash found hfound => mem_orderWith hstore.recorded hfound
  · intro hash found hfound
    rcases getElem?_insert_cases hfound with ⟨rfl, rfl⟩ | ⟨-, hbefore⟩
    · exact ⟨rfl, hverify⟩
    · rw [getElem?_foldl_erase] at hbefore
      split at hbefore
      · cases hbefore
      · exact hstore.sound hash found hbefore

theorem SoundStore.commit (hverify : assembled.Verify context.oracles) {height : Int}
    (hbetter : manager.betterKnown assembled height = none) :
    manager.commitSeal assembled height = some (manager.storeRelayed assembled height) ∧
      SoundStore context (manager.storeRelayed assembled height) ∧
      (manager.storeRelayed assembled height).assembledSeals.size ≤ maxKept := by
  have hwith := hstore.sealsWith hverify height
  obtain ⟨⟨order, seals, heights⟩, hloop⟩ := Option.isSome_iff_exists.mp
    (isSome_evictLoop maxKept forgetHeight hwith.keys
      (manager.heightToHash.insert height assembled.blockHash))
  obtain ⟨⟨rfl, rfl, rfl⟩, -⟩ := evictLoop_eq_some hloop
  refine ⟨?_, hwith.evict hloop⟩
  unfold commitSeal
  rw [hbetter]
  rw [hloop]
  rfl

end

end SoundStore

/-! ## Runs of calls -/

/-- The store is sound, and what waits for the second lock verifies. -/
structure SoundCustody (context : SealContext) (custody : SealCustody) : Prop where
  store : SoundStore context custody.manager
  pending : ∀ entry ∈ custody.pending, entry.1.Verify context.oracles

theorem soundCustody_start : SoundCustody context .start :=
  ⟨soundStore_empty, fun _ hmem => absurd hmem not_mem_nil⟩

def Evicting (custody : SealCustody) : SealCall → Prop
  | .cleanupStaleSessions _ => True
  | .commitAssembledSeal assembled height =>
      (assembled, height) ∈ custody.pending ∧ custody.manager.betterKnown assembled height = none
  | _ => False

/-- A call of a sound manager has a next state, which is sound, and holds at most as many seals as are
kept when the call ends with an eviction. -/
theorem SoundCustody.call {context : SealContext} {custody : SealCustody}
    (hsound : SoundCustody context custody) (call : SealCall) :
    ∃ next, sealCall context custody call = some next ∧ SoundCustody context next ∧
      (Evicting custody call → next.manager.assembledSeals.size ≤ maxKept) := by
  have hstore := hsound.store
  cases call with
  | onNewBlock blockHash height prevSealHash now =>
    refine ⟨_, rfl, ⟨?_, hsound.pending⟩, False.elim⟩
    unfold onNewBlock
    split
    · exact hstore
    · exact ⟨hstore.recorded, hstore.sound⟩
  | insertShare share =>
    simp only [sealCall]
    cases hinsert : custody.manager.insertShare share with
    | error result => exact ⟨custody, rfl, hsound, False.elim⟩
    | ok next =>
      exact ⟨_, rfl, ⟨hstore.of_sameStore (insertShare_sameStore hinsert), hsound.pending⟩,
        False.elim⟩
  | tryAssemble blockHash =>
    exact ⟨_, rfl, ⟨hstore.assembleCall blockHash, hsound.pending⟩, False.elim⟩
  | cleanupStaleSessions now =>
    obtain ⟨hloop, hclean, hsize⟩ := hstore.cleanup now
    refine ⟨⟨_, custody.pending⟩, ?_, ⟨hclean, hsound.pending⟩, fun _ => hsize⟩
    rw [sealCall, hloop]
    rfl
  | checkAssembledSeal assembled height =>
    simp only [sealCall]
    split
    · rename_i hmay
      refine ⟨_, rfl, ⟨hstore, ?_⟩, False.elim⟩
      intro entry hmem
      rcases mem_append.mp hmem with hold | hnew
      · exact hsound.pending entry hold
      · rw [mem_singleton.mp hnew]
        exact (of_decide_eq_true hmay).2.2.2.2
    · exact ⟨custody, rfl, hsound, False.elim⟩
  | commitAssembledSeal assembled height =>
    simp only [sealCall]
    by_cases hmem : (assembled, height) ∈ custody.pending
    · rw [if_pos hmem]
      have hpending : ∀ entry ∈ custody.pending.erase (assembled, height),
          entry.1.Verify context.oracles :=
        fun entry hentry => hsound.pending entry (mem_of_mem_erase hentry)
      cases hbetter : custody.manager.betterKnown assembled height with
      | some result =>
        refine ⟨⟨custody.manager, custody.pending.erase (assembled, height)⟩, ?_,
          ⟨hstore, hpending⟩, ?_⟩
        · rw [commitSeal, hbetter]
          rfl
        · intro hevicting
          rw [hevicting.2] at hbetter
          cases hbetter
      | none =>
        obtain ⟨hloop, hcommitted, hsize⟩ := hstore.commit (hsound.pending _ hmem) hbetter
        refine ⟨⟨_, custody.pending.erase (assembled, height)⟩, ?_,
          ⟨hcommitted, hpending⟩, fun _ => hsize⟩
        rw [hloop]
        rfl
    · rw [if_neg hmem]
      exact ⟨custody, rfl, hsound, fun hevicting => absurd hevicting.1 hmem⟩
  | signBlock view blockHash algo =>
    exact ⟨_, rfl, ⟨hstore.of_sameStore (signBlock_sameStore context view _ blockHash algo),
      hsound.pending⟩, False.elim⟩
  | blockDisconnected blockHash height =>
    exact ⟨_, rfl, ⟨hstore.blockDisconnected blockHash height, hsound.pending⟩, False.elim⟩

theorem run_sealCallStep (calls : List SealCall) : Always (sealCallStep context)
      (fun state => ∃ custody, state = some custody ∧ SoundCustody context custody)
      (some .start) calls := by
  refine always_of_preserved ?_ ⟨_, rfl, soundCustody_start context⟩ calls
  rintro state call ⟨custody, rfl, hsound⟩
  obtain ⟨next, hnext, hsoundNext, -⟩ := hsound.call call
  exact ⟨next, hnext, hsoundNext⟩

/-- In every state that calls of the manager reach, no eviction reads from an empty queue, every stored
seal is in the insertion order, under its own block, verifies and has between 1 and 200 distinct
signers; and at most 20 seals are stored after a clean-up and after a commit that stores a seal. -/
theorem seal_store_bookkeeping (context : SealContext) (calls : List SealCall) :
    Always (sealCallStep context)
        (fun state => ∃ custody, state = some custody ∧
          ∀ (hash : Uint256) (assembled : CAssembledSeal),
            custody.manager.assembledSeals[hash]? = some assembled →
            hash ∈ custody.manager.sealInsertionOrder ∧ assembled.blockHash = hash ∧
              assembled.Verify context.oracles ∧ 1 ≤ assembled.signers.length ∧
              assembled.signers.length ≤ 200 ∧ assembled.signers.Nodup)
        (some .start) calls ∧
      ∀ visited call, visited ++ [call] <+: calls → ∀ before after,
        run (sealCallStep context) (some .start) visited = some before →
        run (sealCallStep context) (some .start) (visited ++ [call]) = some after →
        Evicting before call → after.manager.assembledSeals.size ≤ 20 := by
  have hruns := run_sealCallStep context calls
  constructor
  · intro visited hvisited
    obtain ⟨custody, hstate, hsound⟩ := hruns visited hvisited
    refine ⟨custody, hstate, ?_⟩
    intro hash assembled hfound
    obtain ⟨hkeyed, hverify⟩ := hsound.store.sound hash assembled hfound
    obtain ⟨⟨-, hsome, -⟩, -, hdistinct, hcap, -⟩ := id hverify
    exact ⟨hsound.store.recorded hash assembled hfound, hkeyed, hverify,
      length_pos_iff.mpr hsome, hcap, hdistinct⟩
  · intro visited call hprefix before after hbefore hafter hevicting
    obtain ⟨custody, hstate, hsound⟩ := hruns visited
      ((prefix_append visited [call]).trans hprefix)
    rw [hbefore] at hstate
    obtain rfl := Option.some.inj hstate
    obtain ⟨next, hnext, -, hsize⟩ := hsound.call call
    have hsame : some after = some next := by
      rw [← hafter, run_concat, hbefore]
      exact hnext
    obtain rfl := Option.some.inj hsame
    exact hsize hevicting

namespace Sample

def custodyContext : SealContext := ⟨{}, trusting, acceptingSchemes, none⟩

def custodySeal (blockHash : Uint256) : CAssembledSeal := ⟨blockHash, 1, [1], [0], []⟩

def custodyCalls : List SealCall :=
  (range' 1 21).map (fun height => .checkAssembledSeal (custodySeal height) height) ++
    (range' 1 21).map (fun height => .commitAssembledSeal (custodySeal height) height)

end Sample

open Sample in
theorem seal_store_bookkeeping_full :
    ∃ custody, run (sealCallStep custodyContext) (some .start) custodyCalls = some custody ∧
      custody.manager.assembledSeals.size = 20 ∧
      custody.manager.assembledSeals[(21 : Uint256)]? = some (custodySeal 21) ∧
      (21 : Uint256) ∈ custody.manager.sealInsertionOrder := by
  obtain ⟨custody, hcustody, hstored⟩ :=
    (seal_store_bookkeeping custodyContext custodyCalls).1.final
  have hevaluated : ∃ custody ∈ run (sealCallStep custodyContext) (some .start) custodyCalls,
      custody.manager.assembledSeals.size = 20 ∧
        custody.manager.assembledSeals[(21 : Uint256)]? = some (custodySeal 21) := by
    decide +kernel
  obtain ⟨same, hsame, hsize, hfound⟩ := hevaluated
  rw [hcustody] at hsame
  obtain rfl := Option.some.inj hsame
  exact ⟨custody, hcustody, hsize, hfound, (hstored 21 (custodySeal 21) hfound).1⟩

end Kerrigan.HMP
