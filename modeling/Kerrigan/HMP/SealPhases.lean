import Kerrigan.HMP.SealCalls

/-!
# Sealing in phases

`ConnectBlock` announces a block to the seal manager, signs it and only then finishes its checks; a
relayed seal is checked against the active chain before the manager takes its own lock, and a share is
verified between two locks of the manager.  Here these are steps of their own, so that rounds of the
worker and messages of peers come between them.  The chain lock keeps connects, disconnects and checks
of relayed seals apart.
-/

namespace Kerrigan.HMP

open Primitives Consensus Lib CSealManager Chain

/-! ## Phases -/

structure SealPhases where
  chain : Chain
  manager : CSealManager
  /-- The block that `ConnectBlock` has announced and not decided about. -/
  connecting : Option HMPBlock
  /-- The relayed seals that passed the check of the active chain. -/
  pending : List (CAssembledSeal × Int)
  /-- The shares that `AddSealShare` has verified and not inserted yet. -/
  verified : List CSealShare
  /-- The shares that `SignBlock` returned, by height and block, since the height was last
  disconnected. -/
  signed : List (Int × Uint256)

inductive PhaseAction where
  | connect (block : HMPBlock)
  | announce (block : HMPBlock) (prevSealHash : Uint256) (now : Int)
  | sign (view : TrackerView)
  | finish (accepted : Bool)
  | disconnect
  | reannounce (height : Int) (prevSealHash : Uint256) (now : Int)
  | worker (now : Int)
  | checkShare (view : TrackerView) (share : CSealShare) (now : Int)
  | insertShare (share : CSealShare)
  | checkRelay (assembled : CAssembledSeal) (height : Int)
  | commitRelay (assembled : CAssembledSeal) (height : Int)

namespace SealPhases

def start : SealPhases where
  chain := []
  manager := .empty
  connecting := none
  pending := []
  verified := []
  signed := []

/-- The block may be connected next: its hash belongs to the height above the tip, and no other block
is being connected. -/
def Extends (heightOf : Uint256 → Int) (state : SealPhases) (block : HMPBlock) : Prop :=
  state.connecting = none ∧ heightOf block.hash = state.chain.height + 1

instance (heightOf : Uint256 → Int) (state : SealPhases) (block : HMPBlock) :
    Decidable (state.Extends heightOf block) :=
  inferInstanceAs (Decidable (_ ∧ _))

def OnChain (state : SealPhases) (blockHash : Uint256) (height : Int) : Prop :=
  ∃ block ∈ state.chain.getAncestor height, block.hash = blockHash

instance (state : SealPhases) (blockHash : Uint256) (height : Int) :
    Decidable (state.OnChain blockHash height) :=
  inferInstanceAs (Decidable (∃ block ∈ state.chain.getAncestor height, _))

def AcceptsRelay (state : SealPhases) (assembled : CAssembledSeal) (height : Int) : Prop :=
  state.connecting = none ∧ assembled.signers.length ≤ maxSealSigners ∧
    state.OnChain assembled.blockHash height

instance (state : SealPhases) (assembled : CAssembledSeal) (height : Int) :
    Decidable (state.AcceptsRelay assembled height) :=
  inferInstanceAs (Decidable (_ ∧ _))

/-- `AddSealShare` up to its second lock. -/
def VerifiesShare (context : SealContext) (state : SealPhases) (view : TrackerView)
    (share : CSealShare) (now : Int) : Bool :=
  match state.manager.sessionFor context share now with
  | .error _ => false
  | .ok session => (checkShare context view share session).toBool

def withoutTip (state : SealPhases) (tip : HMPBlock) (parent : Chain) : SealPhases where
  chain := parent
  manager := state.manager.blockDisconnected tip.hash (height parent + 1)
  connecting := none
  pending := state.pending
  verified := state.verified
  signed := state.signed.filter (fun share => share.1 ≠ height parent + 1)

end SealPhases

variable (context : SealContext) (heightOf : Uint256 → Int)

def phaseStep (state : SealPhases) : PhaseAction → SealPhases
  | .connect block =>
      if state.Extends heightOf block then { state with chain := block :: state.chain } else state
  | .announce block prevSealHash now =>
      if state.Extends heightOf block then
        { state with
          connecting := some block
          manager := state.manager.onNewBlock block.hash (state.chain.height + 1) prevSealHash now }
      else state
  | .sign view =>
      match state.connecting with
      | none => state
      | some block =>
          { state with
            manager := (state.manager.signBlock context view block.hash block.algo).2
            signed :=
              match (state.manager.signBlock context view block.hash block.algo).1 with
              | .ok _ => (state.chain.height + 1, block.hash) :: state.signed
              | .error _ => state.signed }
  | .finish accepted =>
      match state.connecting with
      | none => state
      | some block =>
          { state with
            chain := if accepted then block :: state.chain else state.chain
            connecting := none }
  | .disconnect =>
      match state.connecting, state.chain with
      | none, tip :: parent => state.withoutTip tip parent
      | _, _ => state
  | .reannounce height prevSealHash now =>
      match state.chain.getAncestor height with
      | none => state
      | some block =>
          { state with manager := state.manager.onNewBlock block.hash height prevSealHash now }
  | .worker now => { state with manager := state.manager.workerRound context now }
  | .checkShare view share now =>
      if state.VerifiesShare context view share now then
        { state with verified := state.verified ++ [share] }
      else state
  | .insertShare share =>
      if state.verified.contains share then
        { state with
          manager := state.manager.withShare share
          verified := state.verified.erase share }
      else state
  | .checkRelay assembled height =>
      if state.AcceptsRelay assembled.onWire height then
        { state with pending := state.pending ++ [(assembled.onWire, height)] }
      else state
  | .commitRelay assembled height =>
      if state.pending.contains (assembled, height) then
        { state with
          manager := (state.manager.addAssembledSeal context assembled height).2
          pending := state.pending.erase (assembled, height) }
      else state

inductive PhaseStep (state : SealPhases) : PhaseAction → SealPhases → Prop
  | unchanged (action : PhaseAction) : PhaseStep state action state
  | connected (block : HMPBlock) (hextends : state.Extends heightOf block) :
      PhaseStep state (.connect block) { state with chain := block :: state.chain }
  | announced (block : HMPBlock) (prevSealHash : Uint256) (now : Int)
      (hextends : state.Extends heightOf block) :
      PhaseStep state (.announce block prevSealHash now)
        { state with
          connecting := some block
          manager := state.manager.onNewBlock block.hash (state.chain.height + 1) prevSealHash now }
  | shareReturned (view : TrackerView) (block : HMPBlock) (share : CSealShare)
      (hconnecting : state.connecting = some block)
      (hshare : (state.manager.signBlock context view block.hash block.algo).1 = .ok share) :
      PhaseStep state (.sign view)
        { state with
          manager := (state.manager.signBlock context view block.hash block.algo).2
          signed := (state.chain.height + 1, block.hash) :: state.signed }
  | noShare (view : TrackerView) (block : HMPBlock) (hconnecting : state.connecting = some block) :
      PhaseStep state (.sign view)
        { state with manager := (state.manager.signBlock context view block.hash block.algo).2 }
  | accepted (block : HMPBlock) (hconnecting : state.connecting = some block) :
      PhaseStep state (.finish true)
        { state with chain := block :: state.chain, connecting := none }
  | rejected (block : HMPBlock) (hconnecting : state.connecting = some block) :
      PhaseStep state (.finish false) { state with connecting := none }
  | disconnected (tip : HMPBlock) (parent : Chain) (hchain : state.chain = tip :: parent) :
      PhaseStep state .disconnect (state.withoutTip tip parent)
  | reannounced (height : Int) (prevSealHash : Uint256) (now : Int) (block : HMPBlock)
      (hblock : block ∈ state.chain.getAncestor height) :
      PhaseStep state (.reannounce height prevSealHash now)
        { state with manager := state.manager.onNewBlock block.hash height prevSealHash now }
  | worked (now : Int) :
      PhaseStep state (.worker now)
        { state with manager := state.manager.workerRound context now }
  | verified (view : TrackerView) (share : CSealShare) (now : Int) :
      PhaseStep state (.checkShare view share now)
        { state with verified := state.verified ++ [share] }
  | inserted (share : CSealShare) :
      PhaseStep state (.insertShare share)
        { state with
          manager := state.manager.withShare share
          verified := state.verified.erase share }
  | checked (assembled : CAssembledSeal) (height : Int)
      (haccepts : state.AcceptsRelay assembled.onWire height) :
      PhaseStep state (.checkRelay assembled height)
        { state with pending := state.pending ++ [(assembled.onWire, height)] }
  | committed (assembled : CAssembledSeal) (height : Int)
      (hpending : (assembled, height) ∈ state.pending) :
      PhaseStep state (.commitRelay assembled height)
        { state with
          manager := (state.manager.addAssembledSeal context assembled height).2
          pending := state.pending.erase (assembled, height) }

theorem phaseStep_cases (state : SealPhases) (action : PhaseAction) :
    PhaseStep context heightOf state action (phaseStep context heightOf state action) := by
  cases action with
  | connect block =>
    simp only [phaseStep]
    split
    · rename_i hextends
      exact .connected block hextends
    · exact .unchanged _
  | announce block prevSealHash now =>
    simp only [phaseStep]
    split
    · rename_i hextends
      exact .announced block prevSealHash now hextends
    · exact .unchanged _
  | sign view =>
    simp only [phaseStep]
    split
    · exact .unchanged _
    · rename_i block hconnecting
      cases hshare : (state.manager.signBlock context view block.hash block.algo).1 with
      | ok share => exact .shareReturned view block share hconnecting hshare
      | error reason => exact .noShare view block hconnecting
  | finish accepted =>
    simp only [phaseStep]
    split
    · exact .unchanged _
    · rename_i block hconnecting
      cases accepted with
      | true => exact .accepted block hconnecting
      | false => exact .rejected block hconnecting
  | disconnect =>
    simp only [phaseStep]
    split
    · rename_i tip parent _ hchain
      exact .disconnected tip parent hchain
    · exact .unchanged _
  | reannounce height prevSealHash now =>
    simp only [phaseStep]
    split
    · exact .unchanged _
    · rename_i block hblock
      exact .reannounced height prevSealHash now block hblock
  | worker now => exact .worked now
  | checkShare view share now =>
    simp only [phaseStep]
    split
    · exact .verified view share now
    · exact .unchanged _
  | insertShare share =>
    simp only [phaseStep]
    split
    · exact .inserted share
    · exact .unchanged _
  | checkRelay assembled height =>
    simp only [phaseStep]
    split
    · rename_i haccepts
      exact .checked assembled height haccepts
    · exact .unchanged _
  | commitRelay assembled height =>
    simp only [phaseStep]
    split
    · rename_i hpending
      exact .committed assembled height (List.contains_iff_mem.mp hpending)
    · exact .unchanged _

/-! ## Heights of blocks -/

variable {context heightOf} {manager : CSealManager}

theorem SoundStore.onNewBlock (hstore : SoundStore context manager) (hash : Uint256)
    (height : Int) (prevSealHash : Uint256) (now : Int) :
    SoundStore context (manager.onNewBlock hash height prevSealHash now) := by
  unfold CSealManager.onNewBlock
  split
  · exact hstore
  · exact ⟨hstore.recorded, hstore.sound⟩

theorem SoundStore.assembleSession (hstore : SoundStore context manager) (now : Int)
    (item : Uint256 × CSealSession) :
    SoundStore context (manager.assembleSession context now item) := by
  unfold CSealManager.assembleSession
  split
  · exact hstore
  · rename_i assembled hready
    unfold readySeal at hready
    split at hready
    · cases hready
    · refine hstore.push (tryAssemble_verify hready) rfl (by simp) ?_
      exact fun hash hmem _ => List.mem_append_left _ hmem

theorem SoundStore.workerRound (hstore : SoundStore context manager) (now : Int) :
    SoundStore context (manager.workerRound context now) := by
  have hassembled : ∀ (items : List (Uint256 × CSealSession)) (manager : CSealManager),
      SoundStore context manager →
      SoundStore context (items.foldl (CSealManager.assembleSession context now) manager) := by
    intro items
    induction items with
    | nil => exact fun _ hsound => hsound
    | cons item rest ih => exact fun manager hsound => ih _ (hsound.assembleSession now item)
  exact ((hassembled _ manager hstore).cleanup now).2.1

def SessionsPlaced (heightOf : Uint256 → Int)
    (sessions : Std.ExtTreeMap Uint256 CSealSession) : Prop :=
  ∀ (hash : Uint256) (session : CSealSession),
    sessions[hash]? = some session → session.blockHeight = heightOf hash

variable {sessions : Std.ExtTreeMap Uint256 CSealSession} {hash : Uint256}

theorem SessionsPlaced.insert (hplaced : SessionsPlaced heightOf sessions) {session : CSealSession}
    (hheight : session.blockHeight = heightOf hash) :
    SessionsPlaced heightOf (sessions.insert hash session) := by
  intro other found hfound
  rcases getElem?_insert_cases hfound with ⟨rfl, rfl⟩ | ⟨-, hbefore⟩
  · exact hheight
  · exact hplaced other found hbefore

theorem SessionsPlaced.foldl_erase (hplaced : SessionsPlaced heightOf sessions)
    (gone : List Uint256) :
    SessionsPlaced heightOf (gone.foldl (fun map hash => map.erase hash) sessions) := by
  intro other found hfound
  rw [getElem?_foldl_erase] at hfound
  split at hfound
  · cases hfound
  · exact hplaced other found hfound

theorem SessionsPlaced.assemble {items : List (Uint256 × CSealSession)}
    (hitems : ∀ item ∈ items, item.2.blockHeight = heightOf item.1) (now : Int)
    (hplaced : SessionsPlaced heightOf manager.sessions) :
    SessionsPlaced heightOf
      (items.foldl (assembleSession context now) manager).sessions := by
  induction items generalizing manager with
  | nil => exact hplaced
  | cons item rest ih =>
    rw [List.forall_mem_cons] at hitems
    refine ih hitems.2 ?_
    unfold assembleSession
    split
    · exact hplaced
    · exact hplaced.insert hitems.1

theorem SessionsPlaced.workerRound (hplaced : SessionsPlaced heightOf manager.sessions)
    (now : Int) : SessionsPlaced heightOf (manager.workerRound context now).sessions := by
  refine SessionsPlaced.foldl_erase (SessionsPlaced.assemble ?_ now hplaced) _
  rintro ⟨hash, session⟩ hmem
  exact hplaced hash session (Std.ExtTreeMap.mem_toList_iff_getElem?_eq_some.mp hmem)

theorem SessionsPlaced.withShare (hplaced : SessionsPlaced heightOf manager.sessions)
    (share : CSealShare) : SessionsPlaced heightOf (manager.withShare share).sessions := by
  rcases withShare_cases manager share with hsame | ⟨session, hsession, hnext⟩
  · rw [hsame]
    exact hplaced
  · rw [hnext]
    exact hplaced.insert (hplaced share.blockHash session hsession)

theorem signBlock_sessions (context : SealContext) (view : TrackerView) (manager : CSealManager)
    (hash : Uint256) (algo : Nat) :
    (manager.signBlock context view hash algo).2.sessions = manager.sessions := by
  rcases signBlock_cases context view manager hash algo with
    ⟨⟨hsame, -⟩, -⟩ | ⟨identity, -, -, hsign⟩
  · rw [hsame]
  · rw [hsign]
    rfl

/-- Heights and sessions belong to their blocks, and stored seals are under their own block. -/
structure ManagerPlaced (context : SealContext) (heightOf : Uint256 → Int)
    (manager : CSealManager) : Prop where
  indexed : Indexed heightOf manager
  sessions : SessionsPlaced heightOf manager.sessions
  store : SoundStore context manager

theorem managerPlaced_empty : ManagerPlaced context heightOf .empty where
  indexed := indexed_empty heightOf
  sessions := by
    intro hash session hfound
    simp [empty] at hfound
  store := soundStore_empty

variable {height : Int}

section

variable (hplaced : ManagerPlaced context heightOf manager)

include hplaced

theorem ManagerPlaced.onNewBlock
    (hheight : heightOf hash = height) (prevSealHash : Uint256) (now : Int) :
    ManagerPlaced context heightOf (manager.onNewBlock hash height prevSealHash now) where
  indexed := hplaced.indexed.onNewBlock hheight prevSealHash now
  sessions := by
    unfold CSealManager.onNewBlock
    split
    · exact hplaced.sessions
    · exact hplaced.sessions.insert hheight.symm
  store := hplaced.store.onNewBlock hash height prevSealHash now

theorem ManagerPlaced.signBlock (view : TrackerView) (hash : Uint256) (algo : Nat) :
    ManagerPlaced context heightOf (manager.signBlock context view hash algo).2 where
  indexed := hplaced.indexed.of_sameStore (signBlock_sameStore context view manager hash algo)
  sessions := by
    rw [signBlock_sessions]
    exact hplaced.sessions
  store := hplaced.store.of_sameStore (signBlock_sameStore context view manager hash algo)

theorem ManagerPlaced.withShare (share : CSealShare) :
    ManagerPlaced context heightOf (manager.withShare share) where
  indexed := hplaced.indexed.of_sameStore (withShare_sameStore manager share)
  sessions := hplaced.sessions.withShare share
  store := hplaced.store.of_sameStore (withShare_sameStore manager share)

theorem ManagerPlaced.blockDisconnected (hash : Uint256) (height : Int) :
    ManagerPlaced context heightOf (manager.blockDisconnected hash height) where
  indexed := hplaced.indexed.blockDisconnected hash height
  sessions := hplaced.sessions.foldl_erase [hash]
  store := hplaced.store.blockDisconnected hash height

theorem ManagerPlaced.workerRound (now : Int) :
    ManagerPlaced context heightOf (manager.workerRound context now) where
  indexed := hplaced.indexed.workerRound context now
  sessions := hplaced.sessions.workerRound now
  store := hplaced.store.workerRound now

theorem ManagerPlaced.addAssembledSeal
    {assembled : CAssembledSeal} (hheight : heightOf assembled.blockHash = height) :
    ManagerPlaced context heightOf (manager.addAssembledSeal context assembled height).2 := by
  rcases addAssembledSeal_cases context manager assembled height with
    hsame | ⟨-, hbetter, -, hverify, hstored⟩
  · rw [hsame]
    exact hplaced
  · rw [hstored]
    exact ⟨hplaced.indexed.storeRelayed hheight, hplaced.sessions,
      (hplaced.store.commit hverify hbetter).2.1⟩

end

/-- Every block that a state knows is at its own height. -/
structure Placed (context : SealContext) (heightOf : Uint256 → Int) (state : SealPhases) :
    Prop where
  chain : ∀ height block, block ∈ state.chain.getAncestor height → heightOf block.hash = height
  manager : ManagerPlaced context heightOf state.manager
  connecting : ∀ block ∈ state.connecting, heightOf block.hash = state.chain.height + 1
  pending : ∀ entry ∈ state.pending, heightOf entry.1.blockHash = entry.2

variable {state : SealPhases}

theorem placed_start (context : SealContext) (heightOf : Uint256 → Int) :
    Placed context heightOf .start where
  chain := by
    intro height block hblock
    obtain ⟨hlow, hhigh⟩ := height_of_getAncestor hblock
    simp only [SealPhases.start, Chain.height, List.length_nil] at hhigh
    omega
  manager := managerPlaced_empty
  connecting := by simp [SealPhases.start]
  pending := by simp [SealPhases.start]

theorem Placed.extend (hplaced : Placed context heightOf state) {block : HMPBlock}
    (hheight : heightOf block.hash = state.chain.height + 1) (height : Int) (found : HMPBlock)
    (hfound : found ∈ getAncestor (block :: state.chain) height) :
    heightOf found.hash = height := by
  rw [getAncestor_cons] at hfound
  split at hfound
  · rename_i htip
    cases hfound
    rw [hheight, htip]
  · exact hplaced.chain height found hfound

theorem Placed.step (hplaced : Placed context heightOf state) {action : PhaseAction}
    {next : SealPhases} (hstep : PhaseStep context heightOf state action next) :
    Placed context heightOf next := by
  cases hstep with
  | unchanged => exact hplaced
  | connected block hextends =>
    refine ⟨hplaced.extend hextends.2, hplaced.manager, ?_, hplaced.pending⟩
    intro other hother
    simp [hextends.1] at hother
  | announced block prevSealHash now hextends =>
    refine ⟨hplaced.chain, hplaced.manager.onNewBlock hextends.2 prevSealHash now, ?_,
      hplaced.pending⟩
    intro other hother
    cases hother
    exact hextends.2
  | shareReturned view block share hconnecting hshare =>
    exact { hplaced with manager := hplaced.manager.signBlock view block.hash block.algo }
  | noShare view block hconnecting =>
    exact { hplaced with manager := hplaced.manager.signBlock view block.hash block.algo }
  | accepted block hconnecting =>
    refine ⟨hplaced.extend (hplaced.connecting block hconnecting), hplaced.manager, ?_,
      hplaced.pending⟩
    intro other hother
    cases hother
  | rejected block hconnecting =>
    refine { hplaced with connecting := ?_ }
    intro other hother
    cases hother
  | disconnected tip parent hchain =>
    refine ⟨?_, hplaced.manager.blockDisconnected tip.hash _, ?_, hplaced.pending⟩
    · intro height block hblock
      refine hplaced.chain height block ?_
      rw [hchain]
      exact getAncestor_of_parent hblock
    · intro other hother
      cases hother
  | reannounced height prevSealHash now block hblock =>
    have hheight := hplaced.chain height block hblock
    exact { hplaced with manager := hplaced.manager.onNewBlock hheight prevSealHash now }
  | worked now => exact { hplaced with manager := hplaced.manager.workerRound now }
  | verified view share now => exact { hplaced with }
  | inserted share => exact { hplaced with manager := hplaced.manager.withShare share }
  | checked assembled height haccepts =>
    refine { hplaced with pending := ?_ }
    obtain ⟨-, -, block, hblock, hhash⟩ := haccepts
    intro entry hmem
    rcases List.mem_append.mp hmem with hold | hnew
    · exact hplaced.pending entry hold
    · rw [List.mem_singleton.mp hnew, ← hhash]
      exact hplaced.chain height block hblock
  | committed assembled height hpending =>
    refine ⟨hplaced.chain,
      hplaced.manager.addAssembledSeal (hplaced.pending (assembled, height) hpending),
      hplaced.connecting, ?_⟩
    intro entry hmem
    exact hplaced.pending entry (List.mem_of_mem_erase hmem)

namespace Sample

/-- Blocks with the hashes 101 and 201 are at height 1, those with 102 and 202 at height 2. -/
def twoForks (hash : Uint256) : Int := (hash : Int) % 100

end Sample

end Kerrigan.HMP
