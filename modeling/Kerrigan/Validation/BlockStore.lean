import Kerrigan.Pow.Header
import Kerrigan.Lib.Run
import Std.Data.ExtTreeMap
import Mathlib.Data.Nat.Pairing

/-!
# Accepting headers and storing blocks

`AcceptBlockHeader` checks the whole proof of work of a header, at the height after its parent,
when the hash is new, and nothing when the hash is known.  `AcceptBlock` then checks the header of
the body without the chain and writes the body to disk.  The rules that are not about the proof of
work are verdicts that come with each delivery.
-/

namespace Kerrigan.Validation

open Primitives Kerrigan.Pow Lib

/-! ## The store -/

/-- An entry of the block index. -/
structure StoreEntry where
  header : CBlockHeader
  nHeight : Nat
  failed : Bool := false
  conflicting : Bool := false
  haveData : Bool := false

/-- A block body written by `SaveBlockToDisk`. -/
structure StoredBlock where
  header : CBlockHeader
  nHeight : Nat

structure BlockStore where
  index : Std.ExtTreeMap Uint256 StoreEntry
  disk : List StoredBlock

/-- The functions and parameters of a network. -/
structure HeaderRules where
  functions : PowFunctions
  params : PowParams
  devnet : PowFunctions.DevnetRule

/-- What the rules apart from the proof of work say about a delivered header. -/
structure HeaderVerdicts where
  /-- The other rules of `ContextualCheckBlockHeader`. -/
  contextual : Except String Unit := .ok ()
  /-- The parent descends from a block in `m_failed_blocks`. -/
  failedAncestor : Bool := false
  hasConflictingChainLock : Bool := false

/-- What the rules apart from the proof of work say about a delivered block.  A check of the body
fails with the flag of a mutated block. -/
structure BlockVerdicts extends HeaderVerdicts where
  /-- The block was requested, or is new, with enough work and not too far ahead. -/
  processed : Bool := true
  checkBody : Except Bool Unit := .ok ()
  contextualCheckBlock : Except Bool Unit := .ok ()

variable (verdicts : BlockVerdicts)

namespace HeaderRules

variable (rules : HeaderRules)

def getHash (header : CBlockHeader) : Uint256 := rules.functions.getHash header

def hashGenesisBlock : Uint256 := rules.devnet.hashGenesisBlock

def checkBlockHeader (header : CBlockHeader) : Except String Unit :=
  rules.functions.checkBlockHeader rules.params rules.devnet header

def Verified (nHeight : Nat) (header : CBlockHeader) : Prop :=
  rules.functions.Verified rules.params rules.devnet nHeight header

def addToBlockIndex (store : BlockStore) (header : CBlockHeader) (conflicting : Bool) :
    BlockStore :=
  { store with
    index := store.index.insertIfNew (rules.getHash header)
      { header := header
        nHeight := (store.index[header.hashPrevBlock]?).elim 0 (fun prev => prev.nHeight + 1)
        conflicting := conflicting } }

def checkNewHeader (verdicts : HeaderVerdicts) (store : BlockStore) (header : CBlockHeader) :
    Except String Unit := do
  rules.checkBlockHeader header
  match store.index[header.hashPrevBlock]? with
  | none => .error "prev-blk-not-found"
  | some prev => do
      require (prev.failed = false) "bad-prevblk"
      require (prev.conflicting = false) "bad-prevblk-chainlock"
      rules.functions.contextualCheckWork (prev.nHeight + 1) header
      verdicts.contextual
      require (verdicts.failedAncestor = false) "bad-prevblk"

def acceptBlockHeader (verdicts : HeaderVerdicts) (store : BlockStore) (header : CBlockHeader) :
    BlockStore × Except String Unit :=
  if rules.getHash header = rules.hashGenesisBlock then
    (rules.addToBlockIndex store header false, .ok ())
  else
    match store.index[rules.getHash header]? with
    | some entry =>
        if entry.failed || entry.conflicting then (store, .error "duplicate") else (store, .ok ())
    | none =>
        match rules.checkNewHeader verdicts store header with
        | .error reason => (store, .error reason)
        | .ok _ =>
            if verdicts.hasConflictingChainLock then
              (rules.addToBlockIndex store header true, .error "bad-chainlock")
            else (rules.addToBlockIndex store header false, .ok ())

def checkBlock (header : CBlockHeader) : Except Bool Unit :=
  match rules.checkBlockHeader header with
  | .error _ => .error false
  | .ok _ => verdicts.checkBody

def checkWholeBlock (header : CBlockHeader) : Except Bool Unit := do
  rules.checkBlock verdicts header
  verdicts.contextualCheckBlock

def storeBlock (store : BlockStore) (entry : StoreEntry) (header : CBlockHeader) :
    BlockStore × Bool :=
  if entry.haveData then (store, true)
  else if verdicts.processed = false then (store, true)
  else
    match rules.checkWholeBlock verdicts header with
    | .error true => (store, false)
    | .error false =>
        ({ store with
           index := store.index.insert (rules.getHash header) { entry with failed := true } }, false)
    | .ok _ =>
        ({ index := store.index.insert (rules.getHash header) { entry with haveData := true }
           disk := store.disk ++ [{ header := header, nHeight := entry.nHeight }] }, true)

def acceptBlock (store : BlockStore) (header : CBlockHeader) :
    BlockStore × Bool :=
  match rules.acceptBlockHeader verdicts.toHeaderVerdicts store header with
  | (accepted, .error _) => (accepted, false)
  | (accepted, .ok _) =>
      match accepted.index[rules.getHash header]? with
      | none => (accepted, false)
      | some entry => rules.storeBlock verdicts accepted entry header

def processNewBlock (store : BlockStore) (header : CBlockHeader) :
    BlockStore :=
  match rules.checkBlock verdicts header with
  | .error _ => store
  | .ok _ => (rules.acceptBlock verdicts store header).1

end HeaderRules

/-! ## Deliveries -/

inductive StoreAction
  | header (verdicts : HeaderVerdicts) (header : CBlockHeader)
  | block (verdicts : BlockVerdicts) (header : CBlockHeader)
  | load (verdicts : BlockVerdicts) (header : CBlockHeader)
  /-- Any other code changes the flags of an entry: a failed connection, a chain lock, pruning. -/
  | status (hash : Uint256) (failed conflicting haveData : Bool)

namespace HeaderRules

variable (rules : HeaderRules)

def storeStep (store : BlockStore) : StoreAction → BlockStore
  | .header verdicts header => (rules.acceptBlockHeader verdicts store header).1
  | .block verdicts header => rules.processNewBlock verdicts store header
  | .load verdicts header => (rules.acceptBlock verdicts store header).1
  | .status hash failed conflicting haveData =>
      { store with
        index := store.index.modify hash (fun entry =>
          { entry with failed := failed, conflicting := conflicting, haveData := haveData }) }

def genesisStore (genesis : CBlockHeader) : BlockStore where
  index := (∅ : Std.ExtTreeMap Uint256 StoreEntry).insert rules.hashGenesisBlock
    { header := genesis, nHeight := 0, haveData := true }
  disk := [{ header := genesis, nHeight := 0 }]

/-- A KawPoW body for an entry that has no data carries the height of the entry and a solution
that passes `CheckKawPowSolution`. -/
def CarriesWork (store : BlockStore) (header : CBlockHeader) : Prop :=
  ∀ entry, store.index[rules.getHash header]? = some entry → entry.haveData = false →
    header.getAlgo = some .kawpow → rules.functions.contextualCheckWork entry.nHeight header = .ok ()

def DeliversWork (store : BlockStore) : StoreAction → Prop
  | .block _ header | .load _ header => rules.CarriesWork store header
  | .header _ _ | .status _ _ _ _ => True

/-! ## Heights -/

/-- The height of a block hash, counted along the parents that the hashes commit to. -/
inductive HeightOf : Uint256 → Nat → Prop
  | genesis : HeightOf rules.hashGenesisBlock 0
  | child (header : CBlockHeader) {nHeight : Nat}
      (hnew : rules.getHash header ≠ rules.hashGenesisBlock)
      (hparent : HeightOf header.hashPrevBlock nHeight) :
      HeightOf (rules.getHash header) (nHeight + 1)

def CollisionFree : Prop := Function.Injective rules.functions.hashX11

variable {rules}

theorem hashInput_eq (hcollision : rules.CollisionFree) {first second : CBlockHeader}
    (hsame : rules.getHash first = rules.getHash second) : first.hashInput = second.hashInput :=
  hcollision hsame

variable {hash : Uint256}

theorem HeightOf.unique (hcollision : rules.CollisionFree) {first second : Nat}
    (hfirst : rules.HeightOf hash first) (hsecond : rules.HeightOf hash second) :
    first = second := by
  induction hfirst generalizing second with
  | genesis =>
    generalize htarget : rules.hashGenesisBlock = target at hsecond
    cases hsecond with
    | genesis => rfl
    | child header hnew hparent => exact absurd htarget.symm hnew
  | child header hnew hparent ih =>
    generalize htarget : rules.getHash header = target at hsecond
    cases hsecond with
    | genesis => exact absurd htarget hnew
    | child other hother hotherParent =>
      have hprev := CBlockHeader.hashPrevBlock_eq (hashInput_eq hcollision htarget)
      rw [← hprev] at hotherParent
      rw [ih hotherParent]

/-! ## The index holds verified headers -/

variable (rules) in
/-- Every entry has the height of its hash and, apart from genesis, a header that was verified. -/
structure SoundEntry (hash : Uint256) (entry : StoreEntry) : Prop where
  height : rules.HeightOf hash entry.nHeight
  header : hash ≠ rules.hashGenesisBlock →
    rules.getHash entry.header = hash ∧ rules.Verified entry.nHeight entry.header

variable (rules) in
structure SoundIndex (store : BlockStore) : Prop where
  genesis : ∃ entry, store.index[rules.hashGenesisBlock]? = some entry
  entries : ∀ (hash : Uint256) (entry : StoreEntry), store.index[hash]? = some entry →
    rules.SoundEntry hash entry

variable {entry : StoreEntry}

theorem SoundEntry.flags (hentry : rules.SoundEntry hash entry) (failed conflicting haveData : Bool) :
    rules.SoundEntry hash
      { entry with failed := failed, conflicting := conflicting, haveData := haveData } :=
  ⟨hentry.height, hentry.header⟩

variable {store : BlockStore} {header : CBlockHeader}

theorem checkNewHeader_eq_ok {verdicts : HeaderVerdicts} {result : Unit}
    (hcheck : rules.checkNewHeader verdicts store header = .ok result) :
    ∃ prev, store.index[header.hashPrevBlock]? = some prev ∧
      rules.Verified (prev.nHeight + 1) header := by
  obtain ⟨_, hfree, hrest⟩ := bind_eq_ok_iff.mp hcheck
  cases hprev : store.index[header.hashPrevBlock]? with
  | none =>
    rw [hprev] at hrest
    cases hrest
  | some prev =>
    rw [hprev] at hrest
    obtain ⟨_, -, hrest⟩ := bind_eq_ok_iff.mp hrest
    obtain ⟨_, -, hrest⟩ := bind_eq_ok_iff.mp hrest
    obtain ⟨_, hwork, -⟩ := bind_eq_ok_iff.mp hrest
    exact ⟨prev, rfl, hfree, hwork⟩

theorem checkNewHeader_of_verified {verdicts : HeaderVerdicts} {prev : StoreEntry}
    (hprev : store.index[header.hashPrevBlock]? = some prev) (hfailed : prev.failed = false)
    (hconflicting : prev.conflicting = false) (hverified : rules.Verified (prev.nHeight + 1) header)
    (hcontextual : verdicts.contextual = .ok ()) (hancestor : verdicts.failedAncestor = false) :
    rules.checkNewHeader verdicts store header = .ok () := by
  refine bind_eq_ok_iff.mpr ⟨(), hverified.contextFree, ?_⟩
  rw [hprev]
  refine bind_eq_ok_iff.mpr ⟨(), require_eq_ok_iff.mpr hfailed, ?_⟩
  refine bind_eq_ok_iff.mpr ⟨(), require_eq_ok_iff.mpr hconflicting, ?_⟩
  refine bind_eq_ok_iff.mpr ⟨(), hverified.contextual, ?_⟩
  rw [hcontextual]
  exact require_eq_ok_iff.mpr hancestor

/-- What `AcceptBlockHeader` does to the index: nothing, or a new entry for a verified header. -/
inductive HeaderEffect (rules : HeaderRules) (store : BlockStore) (header : CBlockHeader) :
    BlockStore → Prop
  | unchanged : HeaderEffect rules store header store
  | added (conflicting : Bool) {prev : StoreEntry}
      (hnew : rules.getHash header ≠ rules.hashGenesisBlock)
      (hunknown : store.index[rules.getHash header]? = none)
      (hprev : store.index[header.hashPrevBlock]? = some prev)
      (hverified : rules.Verified (prev.nHeight + 1) header) :
      HeaderEffect rules store header
        { store with
          index := store.index.insert (rules.getHash header)
            { header := header, nHeight := prev.nHeight + 1, conflicting := conflicting } }

theorem addToBlockIndex_known (hentry : store.index[rules.getHash header]? = some entry)
    (conflicting : Bool) :
    rules.addToBlockIndex store header conflicting = store := by
  have hcontains : rules.getHash header ∈ store.index :=
    Std.ExtTreeMap.isSome_getElem?_iff_mem.mp (by rw [hentry]; rfl)
  unfold addToBlockIndex
  congr 1
  refine Std.ExtTreeMap.ext_getElem? (fun hash => ?_)
  rw [Std.ExtTreeMap.getElem?_insertIfNew]
  split
  next hsame => exact absurd hcontains hsame.2
  next => rfl

theorem addToBlockIndex_unknown {prev : StoreEntry}
    (hunknown : store.index[rules.getHash header]? = none)
    (hprev : store.index[header.hashPrevBlock]? = some prev) (conflicting : Bool) :
    rules.addToBlockIndex store header conflicting =
      { store with
        index := store.index.insert (rules.getHash header)
          { header := header, nHeight := prev.nHeight + 1, conflicting := conflicting } } := by
  have hnot : rules.getHash header ∉ store.index := by
    intro hmem
    have hsome := Std.ExtTreeMap.isSome_getElem?_iff_mem.mpr hmem
    rw [hunknown] at hsome
    cases hsome
  unfold addToBlockIndex
  congr 1
  refine Std.ExtTreeMap.ext_getElem? (fun hash => ?_)
  rw [Std.ExtTreeMap.getElem?_insertIfNew, Std.ExtTreeMap.getElem?_insert, hprev]
  by_cases hsame : compare (rules.getHash header) hash = .eq
  · rw [if_pos ⟨hsame, hnot⟩, if_pos hsame]
    rfl
  · rw [if_neg (fun hboth => hsame hboth.1), if_neg hsame]

theorem SoundIndex.acceptBlockHeader_effect (hsound : rules.SoundIndex store)
    (verdicts : HeaderVerdicts) (header : CBlockHeader) :
    HeaderEffect rules store header (rules.acceptBlockHeader verdicts store header).1 := by
  unfold acceptBlockHeader
  by_cases hgenesis : rules.getHash header = rules.hashGenesisBlock
  · rw [if_pos hgenesis]
    obtain ⟨entry, hentry⟩ := hsound.genesis
    rw [← hgenesis] at hentry
    rw [addToBlockIndex_known hentry]
    exact .unchanged
  · rw [if_neg hgenesis]
    cases hknown : store.index[rules.getHash header]? with
    | some entry =>
      dsimp only
      split <;> exact .unchanged
    | none =>
      cases hcheck : rules.checkNewHeader verdicts store header with
      | error reason => exact .unchanged
      | ok _ =>
        obtain ⟨prev, hprev, hverified⟩ := checkNewHeader_eq_ok hcheck
        dsimp only
        split
        · rw [addToBlockIndex_unknown hknown hprev]
          exact .added true hgenesis hknown hprev hverified
        · rw [addToBlockIndex_unknown hknown hprev]
          exact .added false hgenesis hknown hprev hverified

theorem HeaderEffect.disk {next : BlockStore} (heffect : HeaderEffect rules store header next) :
    next.disk = store.disk := by
  cases heffect <;> rfl

theorem SoundIndex.insert (hsound : rules.SoundIndex store) (hentry : rules.SoundEntry hash entry)
    (disk : List StoredBlock) :
    rules.SoundIndex { index := store.index.insert hash entry, disk := disk } := by
  refine ⟨?_, ?_⟩
  · obtain ⟨genesis, hgenesis⟩ := hsound.genesis
    rw [Std.ExtTreeMap.getElem?_insert]
    split
    · exact ⟨entry, rfl⟩
    · exact ⟨genesis, hgenesis⟩
  · intro other found hfound
    rw [Std.ExtTreeMap.getElem?_insert] at hfound
    split at hfound
    next hsame =>
        obtain rfl : hash = other := by simpa using hsame
        cases hfound
        exact hentry
    next => exact hsound.entries other found hfound

theorem SoundIndex.headerEffect {next : BlockStore} (hsound : rules.SoundIndex store)
    (heffect : HeaderEffect rules store header next) :
    rules.SoundIndex next := by
  cases heffect with
  | unchanged => exact hsound
  | @added conflicting prev hnew hunknown hprev hverified =>
    have hparent := (hsound.entries _ _ hprev).height
    have hentry : rules.SoundEntry (rules.getHash header)
        { header := header, nHeight := prev.nHeight + 1, conflicting := conflicting } :=
      ⟨.child header hnew hparent, fun _ => ⟨rfl, hverified⟩⟩
    exact hsound.insert hentry store.disk

theorem storeBlock_disk (store : BlockStore) (entry : StoreEntry) (header : CBlockHeader) :
    (rules.storeBlock verdicts store entry header).1.disk = store.disk ∨
      entry.haveData = false ∧ rules.checkBlockHeader header = .ok () ∧
        (rules.storeBlock verdicts store entry header).1.disk =
          store.disk ++ [{ header := header, nHeight := entry.nHeight }] := by
  unfold storeBlock
  cases hdata : entry.haveData with
  | true => exact Or.inl rfl
  | false =>
    rw [if_neg Bool.false_ne_true]
    split
    · exact Or.inl rfl
    · cases hchecks : rules.checkWholeBlock verdicts header with
      | error mutated =>
        cases mutated with
        | true => exact Or.inl rfl
        | false => exact Or.inl rfl
      | ok _ =>
        obtain ⟨_, hcheck, -⟩ := bind_eq_ok_iff.mp hchecks
        refine Or.inr ⟨rfl, ?_, rfl⟩
        unfold checkBlock at hcheck
        cases hheader : rules.checkBlockHeader header with
        | error reason =>
          rw [hheader] at hcheck
          cases hcheck
        | ok _ => rfl

theorem SoundIndex.storeBlock (hsound : rules.SoundIndex store) (verdicts : BlockVerdicts)
    (hentry : store.index[rules.getHash header]? = some entry) :
    rules.SoundIndex (rules.storeBlock verdicts store entry header).1 := by
  have hsoundEntry := hsound.entries _ _ hentry
  unfold HeaderRules.storeBlock
  split
  · exact hsound
  · split
    · exact hsound
    · cases rules.checkWholeBlock verdicts header with
      | error mutated =>
        cases mutated with
        | true => exact hsound
        | false =>
          exact hsound.insert (hsoundEntry.flags true entry.conflicting entry.haveData) _
      | ok _ => exact hsound.insert (hsoundEntry.flags entry.failed entry.conflicting true) _

theorem acceptBlock_cases (rules : HeaderRules) (verdicts : BlockVerdicts) (store : BlockStore)
    (header : CBlockHeader) :
    let accepted := (rules.acceptBlockHeader verdicts.toHeaderVerdicts store header).1
    (rules.acceptBlock verdicts store header).1 = accepted ∨
      ∃ entry, accepted.index[rules.getHash header]? = some entry ∧
        (rules.acceptBlock verdicts store header).1 =
          (rules.storeBlock verdicts accepted entry header).1 := by
  unfold acceptBlock
  cases rules.acceptBlockHeader verdicts.toHeaderVerdicts store header with
  | mk accepted outcome =>
    cases outcome with
    | error reason => exact Or.inl rfl
    | ok _ =>
      dsimp only
      cases hentry : accepted.index[rules.getHash header]? with
      | none => exact Or.inl rfl
      | some entry => exact Or.inr ⟨entry, rfl, rfl⟩

theorem SoundIndex.acceptBlock (hsound : rules.SoundIndex store) (verdicts : BlockVerdicts)
    (header : CBlockHeader) :
    rules.SoundIndex (rules.acceptBlock verdicts store header).1 := by
  have haccepted :=
    hsound.headerEffect (hsound.acceptBlockHeader_effect verdicts.toHeaderVerdicts header)
  rcases acceptBlock_cases rules verdicts store header with heq | ⟨entry, hentry, heq⟩
  · rw [heq]
    exact haccepted
  · rw [heq]
    exact haccepted.storeBlock verdicts hentry

theorem processNewBlock_cases (rules : HeaderRules) (verdicts : BlockVerdicts) (store : BlockStore)
    (header : CBlockHeader) :
    rules.processNewBlock verdicts store header = store ∨
      rules.processNewBlock verdicts store header =
        (rules.acceptBlock verdicts store header).1 := by
  unfold processNewBlock
  cases rules.checkBlock verdicts header with
  | error mutated => exact Or.inl rfl
  | ok _ => exact Or.inr rfl

theorem SoundIndex.storeStep (hsound : rules.SoundIndex store) (action : StoreAction) :
    rules.SoundIndex (rules.storeStep store action) := by
  cases action with
  | header verdicts header =>
    exact hsound.headerEffect (hsound.acceptBlockHeader_effect verdicts header)
  | block verdicts header =>
    rcases processNewBlock_cases rules verdicts store header with heq | heq
    · rw [HeaderRules.storeStep, heq]
      exact hsound
    · rw [HeaderRules.storeStep, heq]
      exact hsound.acceptBlock verdicts header
  | load verdicts header => exact hsound.acceptBlock verdicts header
  | status hash failed conflicting haveData =>
    refine ⟨?_, ?_⟩
    · obtain ⟨genesis, hgenesis⟩ := hsound.genesis
      dsimp only [HeaderRules.storeStep]
      rw [Std.ExtTreeMap.getElem?_modify]
      split
      next hsame =>
          obtain rfl : hash = rules.hashGenesisBlock := by simpa using hsame
          rw [hgenesis]
          exact ⟨_, rfl⟩
      next => exact ⟨genesis, hgenesis⟩
    · intro other found hfound
      dsimp only [HeaderRules.storeStep] at hfound
      rw [Std.ExtTreeMap.getElem?_modify] at hfound
      split at hfound
      next hsame =>
          obtain rfl : hash = other := by simpa using hsame
          obtain ⟨entry, hentry, rfl⟩ := Option.map_eq_some_iff.mp hfound
          exact (hsound.entries _ _ hentry).flags failed conflicting haveData
      next => exact hsound.entries other found hfound

theorem soundIndex_genesisStore (rules : HeaderRules) (genesis : CBlockHeader) :
    rules.SoundIndex (rules.genesisStore genesis) := by
  refine ⟨⟨_, Std.ExtTreeMap.getElem?_insert_self⟩, ?_⟩
  intro hash entry hentry
  dsimp only [genesisStore] at hentry
  rw [Std.ExtTreeMap.getElem?_insert] at hentry
  split at hentry
  next hsame =>
      obtain rfl : rules.hashGenesisBlock = hash := by simpa using hsame
      cases hentry
      exact ⟨.genesis, fun hnew => absurd rfl hnew⟩
  next => simp at hentry

theorem soundIndex_run (rules : HeaderRules) (genesis : CBlockHeader) (actions : List StoreAction) :
    rules.SoundIndex (run rules.storeStep (rules.genesisStore genesis) actions) := by
  have halways : Always rules.storeStep rules.SoundIndex (rules.genesisStore genesis) actions :=
    always_of_preserved (fun _ action hsound => hsound.storeStep action)
      (soundIndex_genesisStore rules genesis) actions
  exact halways.final

/-- A body with the height, the mix hash and the nonce of the header in the index carries its
work. -/
theorem SoundIndex.carriesWork_of_sameKawPow (hsound : rules.SoundIndex store)
    (hcollision : rules.CollisionFree) (hnew : rules.getHash header ≠ rules.hashGenesisBlock)
    (hsame : ∀ entry, store.index[rules.getHash header]? = some entry →
      header.nHeight = entry.header.nHeight ∧ header.mixHash = entry.header.mixHash ∧
        header.nNonce64 = entry.header.nNonce64) : rules.CarriesWork store header := by
  intro entry hentry _ _
  obtain ⟨hhash, hverified⟩ := (hsound.entries _ _ hentry).header hnew
  obtain ⟨hheight, hmix, hnonce⟩ := hsame entry hentry
  have hinput := hashInput_eq hcollision hhash
  have halgo : entry.header.getAlgo = header.getAlgo := CBlockHeader.getAlgo_eq hinput
  have hwork := hverified.contextual
  unfold PowFunctions.contextualCheckWork PowFunctions.checkKawPowSolution at hwork ⊢
  rw [hheight, hmix, hnonce, ← hinput, ← halgo]
  exact hwork

/-! ## The disk holds verified bodies -/

variable (rules) in
/-- The body has the height of its hash and, apart from genesis, its proof of work passes the
whole check. -/
structure SoundBlock (stored : StoredBlock) : Prop where
  height : rules.HeightOf (rules.getHash stored.header) stored.nHeight
  verified : rules.getHash stored.header ≠ rules.hashGenesisBlock →
    rules.Verified stored.nHeight stored.header

theorem CarriesWork.soundBlock {accepted : BlockStore} (hcarries : rules.CarriesWork store header)
    (hsound : rules.SoundIndex store) (heffect : HeaderEffect rules store header accepted)
    (hentry : accepted.index[rules.getHash header]? = some entry) (hdata : entry.haveData = false)
    (hcheck : rules.checkBlockHeader header = .ok ()) :
    rules.SoundBlock { header := header, nHeight := entry.nHeight } := by
  refine ⟨((hsound.headerEffect heffect).entries _ _ hentry).height, ?_⟩
  intro hnew
  refine ⟨hcheck, ?_⟩
  cases heffect with
  | unchanged =>
    by_cases halgo : header.getAlgo = some .kawpow
    · exact hcarries entry hentry hdata halgo
    · exact PowFunctions.contextualCheckWork_of_ne halgo
  | added conflicting hnew hunknown hprev hverified =>
    rw [Std.ExtTreeMap.getElem?_insert_self] at hentry
    cases hentry
    exact hverified.contextual

theorem CarriesWork.acceptBlock (hcarries : rules.CarriesWork store header)
    (hsound : rules.SoundIndex store) (hdisk : ∀ stored ∈ store.disk, rules.SoundBlock stored)
    (verdicts : BlockVerdicts) :
    ∀ stored ∈ (rules.acceptBlock verdicts store header).1.disk, rules.SoundBlock stored := by
  have heffect := hsound.acceptBlockHeader_effect verdicts.toHeaderVerdicts header
  have hsame := heffect.disk
  rcases acceptBlock_cases rules verdicts store header with heq | ⟨entry, hentry, heq⟩
  · rw [heq, hsame]
    exact hdisk
  · rw [heq]
    rcases storeBlock_disk verdicts _ entry header with hkept | ⟨hdata, hcheck, hwritten⟩
    · rw [hkept, hsame]
      exact hdisk
    · rw [hwritten, hsame]
      intro stored hstored
      rcases List.mem_append.mp hstored with hold | hnew
      · exact hdisk stored hold
      · rw [List.mem_singleton.mp hnew]
        exact hcarries.soundBlock hsound heffect hentry hdata hcheck

variable (rules) in
/-- Index and disk are sound. -/
structure SoundStore (store : BlockStore) : Prop where
  index : rules.SoundIndex store
  disk : ∀ stored ∈ store.disk, rules.SoundBlock stored

theorem SoundStore.storeStep (hsound : rules.SoundStore store) {action : StoreAction}
    (hdelivers : rules.DeliversWork store action) :
    rules.SoundStore (rules.storeStep store action) := by
  refine ⟨hsound.index.storeStep action, ?_⟩
  cases action with
  | header verdicts header =>
    rw [HeaderRules.storeStep, (hsound.index.acceptBlockHeader_effect verdicts header).disk]
    exact hsound.disk
  | block verdicts header =>
    rcases processNewBlock_cases rules verdicts store header with heq | heq
    · rw [HeaderRules.storeStep, heq]
      exact hsound.disk
    · rw [HeaderRules.storeStep, heq]
      exact CarriesWork.acceptBlock hdelivers hsound.index hsound.disk verdicts
  | load verdicts header =>
    exact CarriesWork.acceptBlock hdelivers hsound.index hsound.disk verdicts
  | status hash failed conflicting haveData => exact hsound.disk

theorem soundStore_genesisStore {genesis : CBlockHeader}
    (hgenesis : rules.getHash genesis = rules.hashGenesisBlock) :
    rules.SoundStore (rules.genesisStore genesis) := by
  refine ⟨soundIndex_genesisStore rules genesis, ?_⟩
  intro stored hstored
  rw [List.mem_singleton.mp hstored]
  refine ⟨?_, fun hnew => absurd hgenesis hnew⟩
  rw [hgenesis]
  exact .genesis

/-! ## Reading the disk again -/

variable (rules) in
def StoredAgain (genesis : CBlockHeader) (stored : StoredBlock) : Prop :=
  ∀ (loaded : List StoreAction) (verdicts : BlockVerdicts) (prev : StoreEntry),
    let node := run rules.storeStep (rules.genesisStore genesis) loaded
    node.index[rules.getHash stored.header]? = none →
    node.index[stored.header.hashPrevBlock]? = some prev →
    prev.failed = false → prev.conflicting = false →
    verdicts.contextual = .ok () → verdicts.failedAncestor = false →
    verdicts.hasConflictingChainLock = false → verdicts.processed = true →
    verdicts.checkBody = .ok () → verdicts.contextualCheckBlock = .ok () →
    (rules.acceptBlock verdicts node stored.header).1.disk = node.disk ++ [stored]

theorem storeBlock_of_checked {verdicts : BlockVerdicts} (hdata : entry.haveData = false)
    (hprocessed : verdicts.processed = true) (hheader : rules.checkBlockHeader header = .ok ())
    (hbody : verdicts.checkBody = .ok ()) (hcontextual : verdicts.contextualCheckBlock = .ok ()) :
    (rules.storeBlock verdicts store entry header).1.disk =
      store.disk ++ [{ header := header, nHeight := entry.nHeight }] := by
  have hcheck : rules.checkBlock verdicts header = .ok () := by
    unfold checkBlock
    rw [hheader]
    exact hbody
  have hwhole : rules.checkWholeBlock verdicts header = .ok () :=
    bind_eq_ok_iff.mpr ⟨(), hcheck, hcontextual⟩
  unfold storeBlock
  rw [hdata, hprocessed, hwhole]
  rfl

theorem SoundBlock.storedAgain (hcollision : rules.CollisionFree) (genesis : CBlockHeader)
    {stored : StoredBlock} (hsound : rules.SoundBlock stored)
    (hnew : rules.getHash stored.header ≠ rules.hashGenesisBlock) :
    rules.StoredAgain genesis stored := by
  intro loaded verdicts prev node hunknown hprev hfailed hconflicting hcontextual hancestor
    hchainLock hprocessed hbody hcheck
  have hindex := soundIndex_run rules genesis loaded
  have hparent := (hindex.entries _ _ hprev).height
  have hheight : prev.nHeight + 1 = stored.nHeight :=
    HeightOf.unique hcollision (.child stored.header hnew hparent) hsound.height
  have hverified : rules.Verified (prev.nHeight + 1) stored.header := by
    rw [hheight]
    exact hsound.verified hnew
  have hchecked := checkNewHeader_of_verified hprev hfailed hconflicting hverified hcontextual
    hancestor
  have haccepted : rules.acceptBlockHeader verdicts.toHeaderVerdicts node stored.header =
      (rules.addToBlockIndex node stored.header false, .ok ()) := by
    unfold acceptBlockHeader
    rw [if_neg hnew, hunknown]
    rw [hchecked]
    rw [hchainLock]
    rfl
  unfold acceptBlock
  rw [haccepted, addToBlockIndex_unknown hunknown hprev]
  dsimp only
  rw [Std.ExtTreeMap.getElem?_insert_self]
  rw [storeBlock_of_checked rfl hprocessed hverified.contextFree hbody hcheck, hheight]

/-! ## Stored proof of work -/

variable (rules) in
/-- Every body on disk passes the whole check of its proof of work at its height, and is stored
again when the files are read by a node that starts over. -/
def WorkOnDisk (genesis : CBlockHeader) (store : BlockStore) : Prop :=
  ∀ stored ∈ store.disk, rules.getHash stored.header ≠ rules.hashGenesisBlock →
    rules.HeightOf (rules.getHash stored.header) stored.nHeight ∧
      rules.Verified stored.nHeight stored.header ∧ rules.StoredAgain genesis stored

/-- If every delivered KawPoW body for a known header carries its own proof of work, then what is
on disk is always what was verified. -/
theorem work_on_disk_verified (rules : HeaderRules) (hcollision : rules.CollisionFree)
    (genesis : CBlockHeader) (hgenesis : rules.getHash genesis = rules.hashGenesisBlock)
    (actions : List StoreAction)
    (hdelivers : Guarded rules.storeStep rules.DeliversWork (rules.genesisStore genesis) actions) :
    Always rules.storeStep (rules.WorkOnDisk genesis) (rules.genesisStore genesis) actions := by
  have hsound : Always rules.storeStep rules.SoundStore (rules.genesisStore genesis) actions :=
    always_of_guarded (fun _ _ hstore hadmits => hstore.storeStep hadmits)
      (soundStore_genesisStore hgenesis) hdelivers
  intro visited hvisited stored hstored hnew
  have hblock := (hsound visited hvisited).disk stored hstored
  exact ⟨hblock.height, hblock.verified hnew, hblock.storedAgain hcollision genesis hnew⟩

namespace Sample

def encode : HashInput → Nat
  | .standard nVersion hashPrevBlock hashMerkleRoot nTime nBits nNonce =>
      2 * Nat.pair hashPrevBlock (Nat.pair hashMerkleRoot (Nat.pair nVersion.toNat
        (Nat.pair nTime.toNat (Nat.pair nBits.toNat nNonce.toNat))))
  | .equihash nVersion hashPrevBlock hashMerkleRoot hashReserved nTime nBits nNonce256 =>
      2 * Nat.pair hashPrevBlock (Nat.pair hashMerkleRoot (Nat.pair nVersion.toNat
        (Nat.pair nTime.toNat (Nat.pair nBits.toNat (Nat.pair hashReserved nNonce256))))) + 1

theorem encode_injective : Function.Injective encode := by
  intro first second hsame
  cases first <;> cases second <;> simp only [encode] at hsame
  case standard.equihash => omega
  case equihash.standard => omega
  case standard.standard =>
      have hpair := Nat.eq_of_mul_eq_mul_left Nat.two_pos hsame
      simp only [Nat.pair_eq_pair, UInt32.toNat_inj] at hpair
      obtain ⟨rfl, rfl, rfl, rfl, rfl, rfl⟩ := hpair
      rfl
  case equihash.equihash =>
      have hpair := Nat.eq_of_mul_eq_mul_left Nat.two_pos (Nat.add_right_cancel hsame)
      simp only [Nat.pair_eq_pair, UInt32.toNat_inj] at hpair
      obtain ⟨rfl, rfl, rfl, rfl, rfl, rfl, rfl⟩ := hpair
      rfl

def genesis : CBlockHeader where
  nVersion := 0
  hashPrevBlock := 0
  hashMerkleRoot := 1
  nTime := 0
  nBits := 0

def network : HeaderRules where
  functions :=
    { hashX11 := encode
      sha256d := fun _ _ => 0
      ehIsValidSolution := fun _ _ => true
      hashNoVerify := fun _ _ _ _ => 0
      verify := fun _ _ mixHash _ => mixHash == 7 }
  params := PowParams.main
  devnet := { hashGenesisBlock := encode genesis.hashInput }

def mined : CBlockHeader where
  nVersion := 0x0200
  hashPrevBlock := encode genesis.hashInput
  hashMerkleRoot := 5
  nTime := 1
  nBits := 0x1b00ffff
  nHeight := 1
  nNonce64 := 3
  mixHash := 7

def forged : CBlockHeader := { mined with mixHash := 8 }

def delivers (header : CBlockHeader) : List StoreAction := [.header {} mined, .block {} header]

theorem carriesWork_mined :
    network.CarriesWork (network.storeStep (network.genesisStore genesis) (.header {} mined))
      mined := by
  refine (soundIndex_run network genesis [.header {} mined]).carriesWork_of_sameKawPow
    encode_injective (by decide +kernel) ?_
  intro entry hentry
  have hheader : ((run network.storeStep (network.genesisStore genesis) [.header {} mined]).index[
      network.getHash mined]?).map StoreEntry.header = some mined := by decide +kernel
  rw [hentry] at hheader
  rw [show entry.header = mined from Option.some.inj hheader]
  exact ⟨rfl, rfl, rfl⟩

end Sample

open Sample in
theorem work_on_disk_verified_mined :
    Guarded network.storeStep network.DeliversWork (network.genesisStore genesis)
        (delivers mined) ∧
      Always network.storeStep (network.WorkOnDisk genesis) (network.genesisStore genesis)
        (delivers mined) ∧
      (run network.storeStep (network.genesisStore genesis) (delivers mined)).disk.length = 2 := by
  have hdelivers : Guarded network.storeStep network.DeliversWork (network.genesisStore genesis)
      (delivers mined) := ⟨trivial, carriesWork_mined, trivial⟩
  refine ⟨hdelivers, ?_, by decide +kernel⟩
  exact work_on_disk_verified network encode_injective genesis rfl _ hdelivers

open Sample in
/-- The header of a block arrives first, then its body with another mix hash: the body is
written, and a node that reads the file refuses it. -/
theorem unverified_body_stored :
    ((run network.storeStep (network.genesisStore genesis) (delivers forged)).disk.map
        StoredBlock.header = [genesis, forged]) ∧
      (network.acceptBlockHeader {} (network.genesisStore genesis) forged).2 = .error "bad-kawpow" ∧
      ¬ Always network.storeStep (network.WorkOnDisk genesis) (network.genesisStore genesis)
        (delivers forged) := by
  have hdisk : (run network.storeStep (network.genesisStore genesis) (delivers forged)).disk.map
      StoredBlock.header = [genesis, forged] := by
    decide +kernel
  refine ⟨hdisk, by decide +kernel, ?_⟩
  intro halways
  have hforged : forged ∈ [genesis, forged] := List.mem_cons_of_mem genesis List.mem_cons_self
  rw [← hdisk] at hforged
  obtain ⟨stored, hstored, hheader⟩ := List.mem_map.mp hforged
  obtain ⟨-, hverified, -⟩ := halways.final stored hstored (by rw [hheader]; decide +kernel)
  have hwork := hverified.contextual
  rw [hheader] at hwork
  unfold PowFunctions.contextualCheckWork at hwork
  obtain ⟨_, -, hsolution⟩ := bind_eq_ok_iff.mp hwork
  exact absurd hsolution (by decide +kernel)

end HeaderRules

end Kerrigan.Validation
