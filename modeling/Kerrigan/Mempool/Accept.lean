import Kerrigan.Mempool.NullifierIndex

/-!
# Acceptance to the memory pool

`MemPoolAccept`: a transaction on its own, and a package of a child with its parents.  The order
of the checks is that of the source.  Checks that neither the pool nor the shielded store decides
are given as verdicts, and so are the entries that the size limit evicts.
-/

namespace Kerrigan.Mempool

open Primitives Sapling Lib CTxMemPool CTxMemPool.Shrinks

inductive TxValidationResult where
  | consensus
  | recentConsensusChange
  | inputsNotStandard
  | notStandard
  | missingInputs
  | prematureSpend
  | badSpecial
  | conflict
  | conflictLock
  | mempoolPolicy
  | noMempool
  deriving DecidableEq, Repr

structure TxReject where
  result : TxValidationResult
  reason : String
  deriving DecidableEq, Repr

/-- The verdicts on a transaction, in the order in which they are asked for. -/
structure AcceptChecks where
  /-- From `CheckTransaction` to finality. -/
  contextual : Option TxReject := none
  conflictingISLock : Bool := false
  isInstantSendWaitingForTx : Bool := false
  proTx : ProTxConflicts := {}
  inputs : Option TxReject := none
  modifiedFees : Int := 0
  ancestors : Option TxReject := none
  specialTx : Option TxReject := none
  existsProviderTxConflict : Bool := false
  policyScripts : Option TxReject := none
  consensusScripts : Option TxReject := none
  evicted : List Uint256 := []

def verdict : Option TxReject → Except TxReject Unit
  | some reject => .error reject
  | none => .ok ()

def calculateSaplingFee (nSpends nOutputs : Nat) : Int := 10000 + nSpends * 5000 + nOutputs * 5000

structure ATMPArgs where
  bypassLimits : Bool := false
  testAccept : Bool := false
  packageSubmission : Bool := false

section Accept

variable (params : SaplingParams) (verifySaplingProofs : ProofVerdict) (sapling : CSaplingState)
  (nHeight : Int)

/-! ## `PreChecks` -/

def checkConflicts (checks : AcceptChecks) (pool : CTxMemPool) (tx : CTransaction) :
    Except TxReject Unit := do
  verdict checks.contextual
  require (pool.existsTx tx.hash = false) ⟨.conflict, "txn-already-in-mempool"⟩
  require (checks.conflictingISLock = false) ⟨.conflictLock, "tx-txlock-conflict"⟩
  require (checks.isInstantSendWaitingForTx = true ∨
    ∀ txin ∈ tx.vin, pool.getConflictTx txin.prevout = none) ⟨.conflict, "txn-mempool-conflict"⟩

def displaceConflicts (checks : AcceptChecks) (pool : CTxMemPool) (tx : CTransaction) :
    CTxMemPool :=
  if checks.isInstantSendWaitingForTx then
    ((pool.removeConflicts checks.proTx tx).removeSaplingNullifierConflicts tx).removeEntries
      (checks.proTx.conflicts tx)
  else pool

def checkSaplingFee (args : ATMPArgs) (checks : AcceptChecks) (tx : CTransaction) :
    Except TxReject Unit :=
  if tx.nType = .sapling ∧ args.bypassLimits = false then
    match saplingPayloadOf tx with
    | none => .error ⟨.consensus, "bad-sapling-payload"⟩
    | some payload =>
        require (calculateSaplingFee payload.vSpendDescriptions.length
            payload.vOutputDescriptions.length ≤ checks.modifiedFees)
          ⟨.mempoolPolicy, "sapling-fee-too-low"⟩
  else .ok ()

def checkDoubleSpend (pool : CTxMemPool) (tx : CTransaction) : Except TxReject Unit := do
  require (∀ nf ∈ nullifiersRevealed tx, sapling.hasNullifier nf = false)
    ⟨.conflict, "sapling-nullifier-already-spent"⟩
  require (pool.checkSaplingNullifiers tx = true)
    ⟨.conflict, "sapling-nullifier-already-in-mempool"⟩

def checkAgainstPool (args : ATMPArgs) (checks : AcceptChecks) (pool : CTxMemPool)
    (tx : CTransaction) : Except TxReject Unit := do
  verdict checks.inputs
  checkSaplingFee args checks tx
  checkDoubleSpend sapling pool tx
  verdict checks.ancestors
  (checkSpecialTx params sapling.isValidAnchor verifySaplingProofs nHeight tx).mapError
    (fun reason => ⟨.consensus, reason⟩)
  verdict checks.specialTx
  require (checks.existsProviderTxConflict = false) ⟨.conflict, "protx-dup"⟩

def preChecks (args : ATMPArgs) (checks : AcceptChecks) (pool : CTxMemPool) (tx : CTransaction) :
    Except TxReject Unit × CTxMemPool :=
  match checkConflicts checks pool tx with
  | .error reject => (.error reject, pool)
  | .ok () =>
      let left := displaceConflicts checks pool tx
      (checkAgainstPool params verifySaplingProofs sapling nHeight args checks left tx, left)

/-! ## One transaction -/

def finalize (args : ATMPArgs) (checks : AcceptChecks) (pool : CTxMemPool) (tx : CTransaction) :
    Except TxReject Unit × CTxMemPool :=
  let added := pool.addUnchecked tx
  if args.packageSubmission = false ∧ args.bypassLimits = false then
    let limited := added.limitMempoolSize checks.evicted
    (require (limited.existsTx tx.hash = true) ⟨.mempoolPolicy, "mempool full"⟩, limited)
  else (.ok (), added)

def acceptSingleTransaction (args : ATMPArgs) (checks : AcceptChecks) (pool : CTxMemPool)
    (tx : CTransaction) : Except TxReject Unit × CTxMemPool :=
  match preChecks params verifySaplingProofs sapling nHeight args checks pool tx with
  | (.error reject, left) => (.error reject, left)
  | (.ok (), left) =>
      match verdict checks.policyScripts >>= fun _ => verdict checks.consensusScripts with
      | .error reject => (.error reject, left)
      | .ok () => if args.testAccept then (.ok (), left) else finalize args checks left tx

/-! ## Packages -/

def maxPackageCount : Nat := 25

/-- No transaction spends an output of itself or of a later one. -/
def isSorted : List Uint256 → List CTransaction → Bool
  | _, [] => true
  | laterTxids, tx :: rest =>
      tx.vin.all (fun txin => txin.prevout.hash ∉ laterTxids) &&
        isSorted (laterTxids.filter (fun hash => hash ≠ tx.hash)) rest

def noSharedInputs : List COutPoint → List CTransaction → Bool
  | _, [] => true
  | inputsSeen, tx :: rest =>
      tx.vin.all (fun txin => txin.prevout ∉ inputsSeen) &&
        noSharedInputs (tx.vin.map CTxIn.prevout ++ inputsSeen) rest

def checkPackage (tooLarge : Bool) (txns : List CTransaction) : Except String Unit := do
  require (txns.length ≤ maxPackageCount) "package-too-many-transactions"
  require (¬ (1 < txns.length ∧ tooLarge = true)) "package-too-large"
  require (isSorted (txns.map CTransaction.hash) txns = true) "package-not-sorted"
  require (noSharedInputs [] txns = true) "conflict-in-package"
  require (txns.flatMap nullifiersRevealed).Nodup "sapling-nullifier-conflict-in-package"

def isChildWithParents (package : List CTransaction) : Bool :=
  match package.reverse with
  | [] => false
  | child :: parents =>
      !parents.isEmpty &&
        parents.all (fun parent => parent.hash ∈ child.vin.map (fun txin => txin.prevout.hash))

/-- The verdicts on a package: those on its members alone and as members, and those on the
whole. -/
structure PackageChecks where
  tooLarge : Bool := false
  packageOrConfirmed : Bool := true
  singles : CTransaction → AcceptChecks := fun _ => {}
  members : CTransaction → AcceptChecks := fun _ => {}
  feeRate : Bool := true
  limits : Bool := true
  evicted : List Uint256 := []

def preCheckMembers (args : ATMPArgs) (members : CTransaction → AcceptChecks) :
    CTxMemPool → List CTransaction → Except TxReject Unit × CTxMemPool
  | pool, [] => (.ok (), pool)
  | pool, tx :: rest =>
      match preChecks params verifySaplingProofs sapling nHeight args (members tx) pool tx with
      | (.error reject, left) => (.error reject, left)
      | (.ok (), left) => preCheckMembers args members left rest

def submitPackage (checks : PackageChecks) (pool : CTxMemPool) (txns : List CTransaction) :
    CTxMemPool :=
  (txns.foldl addUnchecked pool).limitMempoolSize checks.evicted

def acceptMultipleTransactions (args : ATMPArgs) (checks : PackageChecks) (pool : CTxMemPool)
    (txns : List CTransaction) : Except String Unit × CTxMemPool :=
  match checkPackage checks.tooLarge txns with
  | .error reason => (.error reason, pool)
  | .ok () =>
      match preCheckMembers params verifySaplingProofs sapling nHeight args checks.members pool
        txns with
      | (.error _, left) => (.error "transaction failed", left)
      | (.ok (), left) =>
          if args.packageSubmission = true ∧ checks.feeRate = false then
            (.error "package-fee-too-low", left)
          else if 1 < txns.length ∧ checks.limits = false then
            (.error "package-mempool-limits", left)
          else if txns.any (fun tx => (checks.members tx).policyScripts.isSome) then
            (.error "transaction failed", left)
          else if args.testAccept then (.ok (), left)
          else (.ok (), submitPackage checks left txns)

/-- What the loop of `AcceptPackage` keeps. -/
structure SinglesState where
  pool : CTxMemPool
  quitEarly : Bool := false
  txnsNew : List CTransaction := []

/-- One round of the loop of `AcceptPackage`: a transaction that is not in the pool is tried on its
own. -/
def submitSingle (checks : PackageChecks) (state : SinglesState) (tx : CTransaction) :
    SinglesState :=
  if state.pool.existsTx tx.hash then state
  else
    match acceptSingleTransaction params verifySaplingProofs sapling nHeight {}
      (checks.singles tx) state.pool tx with
    | (.ok (), left) => { state with pool := left }
    | (.error reject, left) =>
        if reject.result ≠ .mempoolPolicy ∧ reject.result ≠ .missingInputs then
          { state with pool := left, quitEarly := true }
        else { state with pool := left, txnsNew := state.txnsNew ++ [tx] }

def acceptPackage (checks : PackageChecks) (pool : CTxMemPool) (package : List CTransaction) :
    Except String Unit × CTxMemPool :=
  match checkPackage checks.tooLarge package with
  | .error reason => (.error reason, pool)
  | .ok () =>
      if isChildWithParents package = false then
        (.error "package-not-child-with-parents", pool)
      else if checks.packageOrConfirmed = false then
        (.error "package-not-child-with-unconfirmed-parents", pool)
      else
        let state := package.foldl
          (submitSingle params verifySaplingProofs sapling nHeight checks) { pool := pool }
        if state.quitEarly || state.txnsNew.isEmpty then (.ok (), state.pool)
        else
          acceptMultipleTransactions params verifySaplingProofs sapling nHeight
            { packageSubmission := true } checks state.pool state.txnsNew

def processNewPackage (testAccept : Bool) (checks : PackageChecks) (pool : CTxMemPool)
    (package : List CTransaction) : Except String Unit × CTxMemPool :=
  if testAccept then
    acceptMultipleTransactions params verifySaplingProofs sapling nHeight { testAccept := true }
      checks pool package
  else acceptPackage params verifySaplingProofs sapling nHeight checks pool package

/-! ## What acceptance adds -/

/-- The store has none of the nullifiers of the transaction, and knows its anchors. -/
structure Acceptable (tx : CTransaction) : Prop where
  unspent : ∀ nf ∈ nullifiersRevealed tx, sapling.hasNullifier nf = false
  anchors : ∀ anchor ∈ anchorsUsed tx, sapling.isValidAnchor anchor = true

/-- The indexes stay exact, and what is added is acceptable. -/
structure Admits (before after : CTxMemPool) : Prop where
  indexed : before.Indexed → after.Indexed
  get : ∀ hash tx, after.get hash = some tx →
    before.get hash = some tx ∨ Acceptable sapling tx

variable {params verifySaplingProofs sapling nHeight} {args : ATMPArgs} {checks : AcceptChecks}
  {pool left : CTxMemPool} {tx : CTransaction} {txns : List CTransaction}

theorem CTxMemPool.Shrinks.admits (hshrinks : pool.Shrinks left) : Admits sapling pool left :=
  ⟨hshrinks.indexed, fun hash tx hfound => Or.inl (hshrinks.get hash tx hfound)⟩

theorem Admits.trans {first second third : CTxMemPool} (hfirst : Admits sapling first second)
    (hsecond : Admits sapling second third) : Admits sapling first third := by
  refine ⟨fun hindexed => hsecond.indexed (hfirst.indexed hindexed), ?_⟩
  intro hash tx hfound
  rcases hsecond.get hash tx hfound with hbefore | hnew
  · exact hfirst.get hash tx hbefore
  · exact Or.inr hnew

theorem shrinks_displaceConflicts (checks : AcceptChecks) (pool : CTxMemPool)
    (tx : CTransaction) : pool.Shrinks (displaceConflicts checks pool tx) := by
  unfold displaceConflicts
  split
  · exact ((shrinks_removeConflicts checks.proTx pool tx).trans
      (shrinks_removeSaplingNullifierConflicts _ tx)).trans
      (shrinks_removeEntries _ _)
  · exact refl pool

theorem anchors_of_checkSpecialTx {isValidAnchor : Uint256 → Bool}
    (hcheck : checkSpecialTx params isValidAnchor verifySaplingProofs nHeight tx = .ok ()) :
    ∀ anchor ∈ anchorsUsed tx, isValidAnchor anchor = true := by
  intro anchor hanchor
  unfold anchorsUsed at hanchor
  cases hpayload : shieldedPayload tx with
  | none =>
    rw [hpayload] at hanchor
    cases hanchor
  | some payload =>
    rw [hpayload] at hanchor
    obtain ⟨spend, hspend, rfl⟩ := List.mem_map.mp hanchor
    unfold shieldedPayload at hpayload
    split at hpayload
    · rename_i htype
      have hfield : hasExtraPayloadField tx = true := by
        unfold saplingPayloadOf at hpayload
        split at hpayload
        · assumption
        · cases hpayload
      unfold checkSpecialTx at hcheck
      rw [hfield, htype, if_pos (by decide)] at hcheck
      exact checkSaplingTx_anchors hcheck hpayload spend hspend
    · cases hpayload

theorem checkAgainstPool_eq_ok
    (hcheck : checkAgainstPool params verifySaplingProofs sapling nHeight args checks pool tx =
      .ok ()) :
    Acceptable sapling tx ∧ pool.checkSaplingNullifiers tx = true := by
  obtain ⟨_, -, hcheck⟩ := bind_eq_ok_iff.mp hcheck
  obtain ⟨_, -, hcheck⟩ := bind_eq_ok_iff.mp hcheck
  obtain ⟨_, hspend, hcheck⟩ := bind_eq_ok_iff.mp hcheck
  obtain ⟨_, -, hcheck⟩ := bind_eq_ok_iff.mp hcheck
  obtain ⟨_, hspecial, -⟩ := bind_eq_ok_iff.mp hcheck
  obtain ⟨_, hunspent, hpool⟩ := bind_eq_ok_iff.mp hspend
  have hchecked : checkSpecialTx params sapling.isValidAnchor verifySaplingProofs nHeight tx =
      .ok () := by
    cases hresult : checkSpecialTx params sapling.isValidAnchor verifySaplingProofs nHeight tx with
    | error reason =>
      rw [hresult] at hspecial
      cases hspecial
    | ok _ => rfl
  exact ⟨⟨require_eq_ok_iff.mp hunspent, anchors_of_checkSpecialTx hchecked⟩,
    require_eq_ok_iff.mp hpool⟩

theorem shrinks_preChecks (args : ATMPArgs) (checks : AcceptChecks) (pool : CTxMemPool)
    (tx : CTransaction) :
    pool.Shrinks (preChecks params verifySaplingProofs sapling nHeight args checks pool tx).2 := by
  unfold preChecks
  split
  · exact refl pool
  · exact shrinks_displaceConflicts checks pool tx

theorem preChecks_eq_ok
    (hcheck : preChecks params verifySaplingProofs sapling nHeight args checks pool tx =
      (.ok (), left)) :
    Acceptable sapling tx ∧ left.checkSaplingNullifiers tx = true := by
  unfold preChecks at hcheck
  split at hcheck
  · cases hcheck
  · obtain ⟨hresult, rfl⟩ := Prod.mk.inj hcheck
    exact checkAgainstPool_eq_ok hresult

/-! ## One transaction -/

theorem admits_addUnchecked (htx : Acceptable sapling tx)
    (hfree : pool.checkSaplingNullifiers tx = true) :
    Admits sapling pool (pool.addUnchecked tx) := by
  refine ⟨fun hpool => hpool.addUnchecked (hpool.checkSaplingNullifiers_iff.mp hfree), ?_⟩
  intro hash found hfound
  rcases get_addUnchecked_cases hfound with hbefore | rfl
  · exact Or.inl hbefore
  · exact Or.inr htx

theorem admits_finalize (htx : Acceptable sapling tx)
    (hfree : pool.checkSaplingNullifiers tx = true) :
    Admits sapling pool (finalize args checks pool tx).2 := by
  unfold finalize
  split
  · exact (admits_addUnchecked htx hfree).trans (shrinks_removeEntries _ _).admits
  · exact admits_addUnchecked htx hfree

theorem admits_acceptSingleTransaction (args : ATMPArgs) (checks : AcceptChecks)
    (pool : CTxMemPool) (tx : CTransaction) :
    Admits sapling pool
      (acceptSingleTransaction params verifySaplingProofs sapling nHeight args checks pool tx).2 := by
  have hshrinks : pool.Shrinks
      (preChecks params verifySaplingProofs sapling nHeight args checks pool tx).2 :=
    shrinks_preChecks args checks pool tx
  unfold acceptSingleTransaction
  split
  · rename_i hcheck
    rw [hcheck] at hshrinks
    exact hshrinks.admits
  · rename_i left hcheck
    rw [hcheck] at hshrinks
    obtain ⟨htx, hfree⟩ := preChecks_eq_ok hcheck
    split
    · exact hshrinks.admits
    · split
      · exact hshrinks.admits
      · exact hshrinks.admits.trans (admits_finalize htx hfree)

/-! ## Packages -/

theorem shrinks_preCheckMembers (args : ATMPArgs) (members : CTransaction → AcceptChecks)
    (pool : CTxMemPool) (txns : List CTransaction) :
    pool.Shrinks (preCheckMembers params verifySaplingProofs sapling nHeight args members pool
      txns).2 := by
  induction txns generalizing pool with
  | nil => exact refl pool
  | cons tx rest ih =>
    have hshrinks : pool.Shrinks (preChecks params verifySaplingProofs sapling nHeight args
        (members tx) pool tx).2 := shrinks_preChecks args (members tx) pool tx
    unfold preCheckMembers
    split
    · rename_i hcheck
      rw [hcheck] at hshrinks
      exact hshrinks
    · rename_i left hcheck
      rw [hcheck] at hshrinks
      exact hshrinks.trans (ih left)

/-- Every checked member is acceptable, and what the pool still has conceals its nullifiers:
checks of later members only remove entries. -/
theorem preCheckMembers_eq_ok {members : CTransaction → AcceptChecks} (hpool : pool.Indexed)
    (hcheck : preCheckMembers params verifySaplingProofs sapling nHeight args members pool txns =
      (.ok (), left)) :
    ∀ tx ∈ txns, Acceptable sapling tx ∧ ∀ nf ∈ nullifiersRevealed tx, left.Conceals nf := by
  induction txns generalizing pool with
  | nil =>
    intro tx hmem
    cases hmem
  | cons first rest ih =>
    have hshrinks : pool.Shrinks (preChecks params verifySaplingProofs sapling nHeight args
        (members first) pool first).2 := shrinks_preChecks args (members first) pool first
    unfold preCheckMembers at hcheck
    split at hcheck
    · cases hcheck
    · rename_i checked hfirst
      rw [hfirst] at hshrinks
      have hindexed := hshrinks.indexed hpool
      have hrest : checked.Shrinks (preCheckMembers params verifySaplingProofs sapling nHeight
          args members checked rest).2 := shrinks_preCheckMembers args members checked rest
      rw [hcheck] at hrest
      intro tx hmem
      rcases List.mem_cons.mp hmem with rfl | hmem
      · obtain ⟨htx, hfree⟩ := preChecks_eq_ok hfirst
        refine ⟨htx, ?_⟩
        intro nf hnf
        exact (hindexed.checkSaplingNullifiers_iff.mp hfree nf hnf).shrinks hrest
      · exact ih hindexed hcheck tx hmem

theorem conceals_addUnchecked {nf : Uint256} (hpool : pool.Conceals nf)
    (hnf : nf ∉ nullifiersRevealed tx) : (pool.addUnchecked tx).Conceals nf := by
  intro hash found hfound
  rcases get_addUnchecked_cases hfound with hbefore | rfl
  · exact hpool hash found hbefore
  · exact hnf

theorem indexed_foldl_addUnchecked (hpool : pool.Indexed)
    (hdistinct : (txns.flatMap nullifiersRevealed).Nodup)
    (hfree : ∀ tx ∈ txns, ∀ nf ∈ nullifiersRevealed tx, pool.Conceals nf) :
    (txns.foldl addUnchecked pool).Indexed := by
  induction txns generalizing pool with
  | nil => exact hpool
  | cons first rest ih =>
    rw [List.flatMap_cons, List.nodup_append] at hdistinct
    obtain ⟨-, hrest, hdisjoint⟩ := hdistinct
    obtain ⟨hfirst, hothers⟩ := List.forall_mem_cons.mp hfree
    refine ih (hpool.addUnchecked hfirst) hrest ?_
    intro tx htx nf hnf
    refine conceals_addUnchecked (hothers tx htx nf hnf) ?_
    intro hshared
    exact hdisjoint nf hshared nf (List.mem_flatMap.mpr ⟨tx, htx, hnf⟩) rfl

theorem get_foldl_addUnchecked {hash : Uint256} {found : CTransaction}
    (hfound : (txns.foldl addUnchecked pool).get hash = some found) :
    pool.get hash = some found ∨ found ∈ txns := by
  induction txns generalizing pool with
  | nil => exact Or.inl hfound
  | cons first rest ih =>
    rcases ih hfound with hadded | hmem
    · rcases get_addUnchecked_cases hadded with hbefore | rfl
      · exact Or.inl hbefore
      · exact Or.inr List.mem_cons_self
    · exact Or.inr (List.mem_cons_of_mem first hmem)

theorem checkPackage_eq_ok {tooLarge : Bool} (hcheck : checkPackage tooLarge txns = .ok ()) :
    (txns.flatMap nullifiersRevealed).Nodup := by
  obtain ⟨_, -, hcheck⟩ := bind_eq_ok_iff.mp hcheck
  obtain ⟨_, -, hcheck⟩ := bind_eq_ok_iff.mp hcheck
  obtain ⟨_, -, hcheck⟩ := bind_eq_ok_iff.mp hcheck
  obtain ⟨_, -, hcheck⟩ := bind_eq_ok_iff.mp hcheck
  exact require_eq_ok_iff.mp hcheck

theorem admits_acceptMultipleTransactions (args : ATMPArgs) (checks : PackageChecks)
    (hpool : pool.Indexed) (txns : List CTransaction) :
    Admits sapling pool (acceptMultipleTransactions params verifySaplingProofs sapling nHeight
      args checks pool txns).2 := by
  have hshrinks : pool.Shrinks (preCheckMembers params verifySaplingProofs sapling nHeight args
      checks.members pool txns).2 := shrinks_preCheckMembers args checks.members pool txns
  unfold acceptMultipleTransactions
  split
  · exact (refl pool).admits
  · rename_i hpackage
    split
    · rename_i hcheck
      rw [hcheck] at hshrinks
      exact hshrinks.admits
    · rename_i left hcheck
      rw [hcheck] at hshrinks
      have hmembers := preCheckMembers_eq_ok hpool hcheck
      have hadded : Admits sapling left (txns.foldl addUnchecked left) := by
        refine ⟨?_, ?_⟩
        · intro hleft
          exact indexed_foldl_addUnchecked hleft (checkPackage_eq_ok hpackage)
            (fun tx htx => (hmembers tx htx).2)
        · intro hash found hfound
          exact (get_foldl_addUnchecked hfound).imp_right (fun hmem => (hmembers found hmem).1)
      have hsubmitted : Admits sapling pool (submitPackage checks left txns) :=
        (hshrinks.admits.trans hadded).trans (shrinks_removeEntries _ _).admits
      repeat' split
      · exact hshrinks.admits
      · exact hshrinks.admits
      · exact hshrinks.admits
      · exact hshrinks.admits
      · exact hsubmitted

theorem admits_submitSingle (checks : PackageChecks) (state : SinglesState) (tx : CTransaction) :
    Admits sapling state.pool
      (submitSingle params verifySaplingProofs sapling nHeight checks state tx).pool := by
  have hsingle : Admits sapling state.pool (acceptSingleTransaction params verifySaplingProofs
      sapling nHeight {} (checks.singles tx) state.pool tx).2 :=
    admits_acceptSingleTransaction {} (checks.singles tx) state.pool tx
  unfold submitSingle
  split
  · exact (refl state.pool).admits
  · split
    · rename_i haccept
      rw [haccept] at hsingle
      exact hsingle
    · rename_i haccept
      rw [haccept] at hsingle
      split
      · exact hsingle
      · exact hsingle

theorem admits_foldl_submitSingle (checks : PackageChecks) (package : List CTransaction)
    (state : SinglesState) :
    Admits sapling state.pool (package.foldl
      (submitSingle params verifySaplingProofs sapling nHeight checks) state).pool := by
  induction package generalizing state with
  | nil => exact (refl state.pool).admits
  | cons tx rest ih => exact (admits_submitSingle checks state tx).trans (ih _)

theorem admits_acceptPackage (checks : PackageChecks) (hpool : pool.Indexed)
    (package : List CTransaction) :
    Admits sapling pool
      (acceptPackage params verifySaplingProofs sapling nHeight checks pool package).2 := by
  have hsingles : Admits sapling pool (package.foldl (submitSingle params verifySaplingProofs
      sapling nHeight checks) { pool := pool }).pool :=
    admits_foldl_submitSingle checks package { pool := pool }
  unfold acceptPackage
  split
  · exact (refl pool).admits
  · split
    · exact (refl pool).admits
    · split
      · exact (refl pool).admits
      · simp only
        split
        · exact hsingles
        · exact hsingles.trans
            (admits_acceptMultipleTransactions _ checks (hsingles.indexed hpool) _)

theorem admits_processNewPackage (testAccept : Bool) (checks : PackageChecks)
    (hpool : pool.Indexed) (package : List CTransaction) :
    Admits sapling pool (processNewPackage params verifySaplingProofs sapling nHeight testAccept
      checks pool package).2 := by
  unfold processNewPackage
  split
  · exact admits_acceptMultipleTransactions _ checks hpool package
  · exact admits_acceptPackage checks hpool package

end Accept

end Kerrigan.Mempool
