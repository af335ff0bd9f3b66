import Kerrigan.Escrow.ChainState
import Mathlib.Data.List.Nodup

/-!
# The verdict on a block against the governance store

Two nodes with the same chain, coins and execution records may hold different governance stores.  An
object is identified by its hash, so their stores agree on the data of an object both hold; which
objects a node holds, and which of them it counts as funded, is local.
-/

namespace Kerrigan.Escrow

open Primitives Consensus Lib Sample List

/-! ## The two parts of the transaction loop -/

section Parts

variable (params : Params) (checks : OtherChecks) (nHeight : Int)

def otherTxs (view : CCoinsView) (nFees : Int) : List CTransaction → Option Int
  | [] => some nFees
  | tx :: rest =>
      match checkTxInputs tx view nHeight with
      | .error _ => none
      | .ok txfee =>
          if !moneyRange (nFees + txfee) then none
          else if (checks.perTx nHeight view tx (isEscrowBurn params nHeight view tx)).isSome then
            none
          else
            match view.updateCoins tx nHeight with
            | none => none
            | some (next, _) => otherTxs next (nFees + txfee) rest

/-- The transactions of the loop that spend an escrow coin and are not burns, each
with the escrow script the gate matches for it. -/
def gatedTxs (view : CCoinsView) : List CTransaction → List (Script × CTransaction)
  | [] => []
  | tx :: rest =>
      let later :=
        match view.updateCoins tx nHeight with
        | none => []
        | some (next, _) => gatedTxs next rest
      match matchedEscrowScript params view tx with
      | none => later
      | some escrowScript =>
          if isEscrowBurn params nHeight view tx then later else (escrowScript, tx) :: later

def passesOtherChecks (block : CBlock) (view : CCoinsView) : Bool :=
  match block.vtx with
  | [] => false
  | coinbase :: rest =>
      if !coinbase.isCoinBase then false
      else if rest.any CTransaction.isCoinBase then false
      else if (checks.early block nHeight view).isSome then false
      else
        match view.updateCoins coinbase nHeight with
        | none => false
        | some (withCoinbase, _) =>
            match otherTxs params checks nHeight withCoinbase 0 rest with
            | none => false
            | some nFees => (checks.late block nHeight nFees).isNone

def gatedReleases (block : CBlock) (view : CCoinsView) : List (Script × CTransaction) :=
  match block.vtx with
  | [] => []
  | coinbase :: rest =>
      match view.updateCoins coinbase nHeight with
      | none => []
      | some (withCoinbase, _) => gatedTxs params nHeight withCoinbase rest

end Parts

def namedBy (releases : List (Script × CTransaction)) : List Uint256 :=
  releases.filterMap (fun release => findMarker release.2)

theorem namedBy_cons {escrowScript : Script} {tx : CTransaction} {hash : Uint256}
    {rest : List (Script × CTransaction)} (hmarker : findMarker tx = some hash) :
    namedBy ((escrowScript, tx) :: rest) = hash :: namedBy rest := by
  simp [namedBy, hmarker]

theorem mem_namedBy {releases : List (Script × CTransaction)} {hash : Uint256} :
    hash ∈ namedBy releases ↔ ∃ release ∈ releases, findMarker release.2 = some hash :=
  mem_filterMap

/-- The conditions the gate puts on a list of releases, for a given way of looking up
what a release may pay. -/
structure ReleasesAdmitted (params : Params) (nHeight : Int) (evodb : CEvoDB)
    (approve : CTransaction → Option (Int × Script)) (releases : List (Script × CTransaction)) :
    Prop where
  unlocked : releases ≠ [] → ¬(0 < params.nEscrowUnlockHeight ∧ nHeight < params.nEscrowUnlockHeight)
  named : ∀ release ∈ releases, (findMarker release.2).isSome = true
  fresh : ∀ release ∈ releases, ∀ hash, findMarker release.2 = some hash →
    isEscrowReleaseExecuted evodb hash = false
  distinct : (namedBy releases).Nodup
  approved : ∀ release ∈ releases, ∃ approvedAmount approvedScript,
    approve release.2 = some (approvedAmount, approvedScript) ∧
      ReleaseOutputs release.2 release.1 approvedAmount approvedScript

theorem ReleasesAdmitted.nil (params : Params) (nHeight : Int) (evodb : CEvoDB)
    (approve : CTransaction → Option (Int × Script)) :
    ReleasesAdmitted params nHeight evodb approve [] where
  unlocked := fun hne => absurd rfl hne
  named := by simp
  fresh := by simp
  distinct := nodup_nil
  approved := by simp

/-- A first release is checked on the records before it, the others on the records
that include it. -/
theorem releasesAdmitted_cons_iff {params : Params} {nHeight : Int} {evodb : CEvoDB}
    {approve : CTransaction → Option (Int × Script)} {escrowScript : Script} {tx : CTransaction}
    {rest : List (Script × CTransaction)} :
    ReleasesAdmitted params nHeight evodb approve ((escrowScript, tx) :: rest) ↔
      ¬(0 < params.nEscrowUnlockHeight ∧ nHeight < params.nEscrowUnlockHeight) ∧
      ∃ hash approvedAmount approvedScript, findMarker tx = some hash ∧
        isEscrowReleaseExecuted evodb hash = false ∧
        approve tx = some (approvedAmount, approvedScript) ∧
        ReleaseOutputs tx escrowScript approvedAmount approvedScript ∧
        ReleasesAdmitted params nHeight (markEscrowReleaseExecuted evodb hash nHeight) approve
          rest := by
  constructor
  · intro hadmitted
    obtain ⟨hash, hmarker⟩ := Option.isSome_iff_exists.mp (hadmitted.named (escrowScript, tx) (by simp))
    obtain ⟨amount, script, happrove, houtputs⟩ := hadmitted.approved (escrowScript, tx) (by simp)
    have hdistinct := hadmitted.distinct
    rw [namedBy_cons hmarker, nodup_cons] at hdistinct
    refine ⟨hadmitted.unlocked (by simp), hash, amount, script, hmarker,
      hadmitted.fresh (escrowScript, tx) (by simp) hash hmarker, happrove, houtputs, ?_⟩
    refine ⟨fun _ => hadmitted.unlocked (by simp), ?_, ?_, hdistinct.2, ?_⟩
    · intro release hmem
      exact hadmitted.named release (mem_cons_of_mem _ hmem)
    · intro release hmem other hother
      have hne : other ≠ hash := by
        rintro rfl
        exact hdistinct.1 (mem_namedBy.mpr ⟨release, hmem, hother⟩)
      have hold := hadmitted.fresh release (mem_cons_of_mem _ hmem) other hother
      by_contra hrecorded
      rcases isEscrowReleaseExecuted_mark.mp (Bool.not_eq_false _ ▸ hrecorded) with hsame | hbefore
      · exact hne hsame
      · rw [hold] at hbefore
        cases hbefore
    · intro release hmem
      exact hadmitted.approved release (mem_cons_of_mem _ hmem)
  · rintro ⟨hfloor, hash, amount, script, hmarker, hfresh, happrove, houtputs, hrest⟩
    refine ⟨fun _ => hfloor, ?_, ?_, ?_, ?_⟩
    · intro release hmem
      rcases mem_cons.mp hmem with rfl | htail
      · simp [hmarker]
      · exact hrest.named release htail
    · intro release hmem other hother
      rcases mem_cons.mp hmem with rfl | htail
      · rw [hmarker, Option.some.injEq] at hother
        rw [← hother]
        exact hfresh
      · have hlater := hrest.fresh release htail other hother
        by_contra hrecorded
        rw [Bool.not_eq_false] at hrecorded
        rw [isEscrowReleaseExecuted_mark.mpr (Or.inr hrecorded)] at hlater
        cases hlater
    · rw [namedBy_cons hmarker, nodup_cons]
      refine ⟨?_, hrest.distinct⟩
      intro hmem
      obtain ⟨release, htail, hother⟩ := mem_namedBy.mp hmem
      have hlater := hrest.fresh release htail hash hother
      rw [isEscrowReleaseExecuted_mark.mpr (Or.inl rfl)] at hlater
      cases hlater
    · intro release hmem
      rcases mem_cons.mp hmem with rfl | htail
      · exact ⟨amount, script, happrove, houtputs⟩
      · exact hrest.approved release htail

/-! ## The verdict -/

section Verdict

variable {params : Params} {decodeDestination : String → Option Script} {checks : OtherChecks}
  {nHeight : Int} {view : CCoinsView} {tx : CTransaction} {rest : List CTransaction}

theorem otherTxs_cons_eq_some_iff {nFees total : Int} :
    otherTxs params checks nHeight view nFees (tx :: rest) = some total ↔
      ∃ txfee next undo, checkTxInputs tx view nHeight = .ok txfee ∧
        moneyRange (nFees + txfee) = true ∧
        checks.perTx nHeight view tx (isEscrowBurn params nHeight view tx) = none ∧
        view.updateCoins tx nHeight = some (next, undo) ∧
        otherTxs params checks nHeight next (nFees + txfee) rest = some total := by
  rw [otherTxs]
  cases hinputs : checkTxInputs tx view nHeight with
  | error reason => simp
  | ok txfee =>
    cases hrange : moneyRange (nFees + txfee) with
    | false => simp [hrange]
    | true =>
      cases hperTx : checks.perTx nHeight view tx (isEscrowBurn params nHeight view tx) with
      | some reason => simp [hrange]
      | none =>
        cases hupdate : view.updateCoins tx nHeight with
        | none => simp [hrange]
        | some result =>
          obtain ⟨next, undo⟩ := result
          simp [hrange]

theorem gatedTxs_cons {next : CCoinsView} {undo : CTxUndo}
    (hupdate : view.updateCoins tx nHeight = some (next, undo)) :
    gatedTxs params nHeight view (tx :: rest) =
      match matchedEscrowScript params view tx with
      | none => gatedTxs params nHeight next rest
      | some escrowScript =>
        if isEscrowBurn params nHeight view tx then gatedTxs params nHeight next rest
        else (escrowScript, tx) :: gatedTxs params nHeight next rest := by
  rw [gatedTxs, hupdate]

variable {store : GovernanceStore}

theorem escrowGate_and_admitted_iff {next : CCoinsView} {evodb : CEvoDB} {undo : CTxUndo}
    (hupdate : view.updateCoins tx nHeight = some (next, undo)) :
    (∃ evodb', escrowGate params decodeDestination nHeight view evodb (some store) tx =
        .ok evodb' ∧
      ReleasesAdmitted params nHeight evodb' (approvedRelease decodeDestination store)
        (gatedTxs params nHeight next rest)) ↔
      ReleasesAdmitted params nHeight evodb (approvedRelease decodeDestination store)
        (gatedTxs params nHeight view (tx :: rest)) := by
  rw [gatedTxs_cons hupdate]
  unfold escrowGate
  cases hmatched : matchedEscrowScript params view tx with
  | none => simp
  | some escrowScript =>
    by_cases hburn : isEscrowBurn params nHeight view tx = true
    · simp [hburn]
    · simp only [hburn, if_false, Bool.false_eq_true, releasesAdmitted_cons_iff,
        checkGovernanceEscrowSpend_eq_ok_iff]
      constructor
      · rintro ⟨evodb', ⟨hfloor, hash, found, amount, script, hmarker, hfresh, hstore, happroved,
          houtputs, rfl⟩, hrest⟩
        cases hstore
        exact ⟨hfloor, hash, amount, script, hmarker, hfresh, happroved, houtputs, hrest⟩
      · rintro ⟨hfloor, hash, amount, script, hmarker, hfresh, happroved, houtputs, hrest⟩
        exact ⟨_, ⟨hfloor, hash, store, amount, script, hmarker, hfresh, rfl, happroved,
          houtputs, rfl⟩, hrest⟩

theorem connectTxs_cons_eq_ok_iff {pGovMan : Option GovernanceStore} {loop final : TxLoop} :
    (∃ undos, connectTxs params decodeDestination checks nHeight pGovMan loop (tx :: rest) =
        .ok (final, undos)) ↔
      ∃ next undo, connectTx params decodeDestination checks nHeight pGovMan loop tx =
          .ok (next, undo) ∧
        ∃ undos, connectTxs params decodeDestination checks nHeight pGovMan next rest =
          .ok (final, undos) := by
  constructor
  · rintro ⟨undos, hconnect⟩
    obtain ⟨⟨next, undo⟩, hfirst, hconnect⟩ := bind_eq_ok_iff.mp hconnect
    obtain ⟨⟨last, later⟩, hrest, hconnect⟩ := bind_eq_ok_iff.mp hconnect
    obtain ⟨rfl, -⟩ := hconnect
    exact ⟨next, undo, hfirst, later, hrest⟩
  · rintro ⟨next, undo, hfirst, later, hrest⟩
    refine ⟨undo :: later, ?_⟩
    refine bind_eq_ok_iff.mpr ⟨(next, undo), hfirst, ?_⟩
    exact bind_eq_ok_iff.mpr ⟨(final, later), hrest, rfl⟩

/-- The transaction loop succeeds exactly when the other checks pass and the gate's
conditions hold of the releases among the transactions. -/
theorem connectTxs_ok_iff {loop : TxLoop} {txs : List CTransaction} {total : Int} :
    (∃ final, final.nFees = total ∧ ∃ undos,
        connectTxs params decodeDestination checks nHeight (some store) loop txs =
          .ok (final, undos)) ↔
      otherTxs params checks nHeight loop.view loop.nFees txs = some total ∧
        ReleasesAdmitted params nHeight loop.evodb (approvedRelease decodeDestination store)
          (gatedTxs params nHeight loop.view txs) := by
  induction txs generalizing loop with
  | nil =>
    simp only [connectTxs, otherTxs, gatedTxs, ReleasesAdmitted.nil, and_true, Except.ok.injEq,
      Prod.mk.injEq, Option.some.injEq]
    constructor
    · rintro ⟨final, hfees, -, rfl, -⟩
      exact hfees
    · intro hfees
      exact ⟨loop, hfees, [], rfl, rfl⟩
  | cons tx rest ih =>
    simp only [connectTxs_cons_eq_ok_iff, otherTxs_cons_eq_some_iff]
    constructor
    · rintro ⟨final, hfees, next, undo, hfirst, hrest⟩
      obtain ⟨txfee, hinputs, hrange, hgate, hperTx, hupdate, hnext⟩ :=
        connectTx_eq_ok_iff.mp hfirst
      obtain ⟨hother, hadmitted⟩ := ih.mp ⟨final, hfees, hrest⟩
      rw [hnext] at hother
      exact ⟨⟨txfee, next.view, undo, hinputs, hrange, hperTx, hupdate, hother⟩,
        (escrowGate_and_admitted_iff hupdate).mp ⟨next.evodb, hgate, hadmitted⟩⟩
    · rintro ⟨⟨txfee, view, undo, hinputs, hrange, hperTx, hupdate, hother⟩, hadmitted⟩
      obtain ⟨evodb, hgate, hrest⟩ := (escrowGate_and_admitted_iff hupdate).mpr hadmitted
      obtain ⟨final, hfees, hfinal⟩ :=
        (@ih ⟨view, evodb, loop.nFees + txfee⟩).mpr ⟨hother, hrest⟩
      refine ⟨final, hfees, ⟨view, evodb, loop.nFees + txfee⟩, undo, ?_, hfinal⟩
      exact connectTx_eq_ok_iff.mpr ⟨txfee, hinputs, hrange, hgate, hperTx, hupdate, rfl⟩

/-- `ConnectBlock` accepts a block exactly when the other checks pass and the gate's
conditions hold of its releases. -/
theorem connectBlock_ok_iff {block : CBlock} {evodb : CEvoDB} :
    (∃ result, connectBlock params decodeDestination checks nHeight (some store) block view evodb =
        .ok result) ↔
      passesOtherChecks params checks nHeight block view = true ∧
        ReleasesAdmitted params nHeight evodb (approvedRelease decodeDestination store)
          (gatedReleases params nHeight block view) := by
  unfold connectBlock passesOtherChecks gatedReleases
  cases block.vtx with
  | nil => simp
  | cons coinbase rest =>
    cases hcoinbase : coinbase.isCoinBase with
    | false => simp [hcoinbase]
    | true =>
      cases hothers : rest.any CTransaction.isCoinBase with
      | true => simp [hcoinbase, hothers]
      | false =>
        simp only [hcoinbase, hothers, Bool.not_true, Bool.false_eq_true, if_false,
          bind_eq_ok_iff, pass_eq_ok_iff]
        cases hearly : checks.early block nHeight view with
        | some reason => simp
        | none =>
          cases hupdate : view.updateCoins coinbase nHeight with
          | none => simp
          | some start =>
            simp only [true_and, exists_const, Option.isSome_none, Bool.false_eq_true,
              if_false, bind_eq_ok_iff]
            constructor
            · rintro ⟨result, ⟨final, undos⟩, htxs, done, hlate, -⟩
              obtain ⟨hother, hadmitted⟩ :=
                connectTxs_ok_iff.mp ⟨final, rfl, undos, htxs⟩
              simp only [hother, pass_eq_ok_iff.mp hlate, Option.isNone_none, true_and]
              exact hadmitted
            · rintro ⟨hpasses, hadmitted⟩
              cases hother : otherTxs params checks nHeight start.1 0 rest with
              | none => simp [hother] at hpasses
              | some total =>
                simp only [hother, Option.isNone_iff_eq_none] at hpasses
                obtain ⟨final, hfees, undos, htxs⟩ :=
                  (@connectTxs_ok_iff params decodeDestination checks nHeight store
                    ⟨start.1, evodb, 0⟩ rest total).mpr ⟨hother, hadmitted⟩
                refine ⟨(final, undos), (final, undos), htxs, ?_⟩
                refine ⟨(), pass_eq_ok_iff.mpr ?_, rfl⟩
                rw [hfees]
                exact hpasses

/-! ## Dependence on the store -/

variable (objects : Uint256 → Option GovernanceData)

def HoldsObjects (store : GovernanceStore) : Prop :=
  ∀ hash object, store hash = some object → objects hash = some object.data

/-- The store of a node that holds every object and counts each as funded. -/
def fullStore : GovernanceStore := fun hash =>
  (objects hash).map (fun data => ⟨data, true⟩)

theorem holdsObjects_fullStore : HoldsObjects objects (fullStore objects) := by
  intro hash object hobject
  obtain ⟨data, hdata, rfl⟩ := Option.map_eq_some_iff.mp hobject
  exact hdata

theorem holdsObjects_empty : HoldsObjects objects (fun _ => none) := by
  intro hash object hobject
  cases hobject

theorem approvedRelease_fullStore {objects : Uint256 → Option GovernanceData}
    {payment : Int × Script} (hholds : HoldsObjects objects store)
    (happroved : approvedRelease decodeDestination store tx = some payment) :
    approvedRelease decodeDestination (fullStore objects) tx = some payment := by
  unfold approvedRelease findFundedEscrowRelease at happroved ⊢
  cases hmarker : findMarker tx with
  | none => simp [hmarker] at happroved
  | some hash =>
    simp only [hmarker] at happroved ⊢
    cases hobject : store hash with
    | none => simp [hobject] at happroved
    | some object =>
      have hfull : fullStore objects hash = some ⟨object.data, true⟩ := by
        unfold fullStore
        rw [hholds hash object hobject]
        rfl
      by_cases htype : object.data.objectType = .escrowRelease
      · by_cases hfunded : object.cachedFunding = true
        · simp only [hobject, htype, hfunded] at happroved
          simpa [hfull, htype] using happroved
        · simp [hobject, htype, hfunded] at happroved
      · simp [hobject, htype] at happroved

theorem approvedRelease_empty (tx : CTransaction) :
    approvedRelease decodeDestination (fun _ => none) tx = none := by
  unfold approvedRelease findFundedEscrowRelease
  cases findMarker tx <;> rfl

/-- The verdict of `ConnectBlock` on a block is the same on all nodes, whatever their
governance stores, exactly when the block holds no governance-gated release or fails
for a reason no store can repair: another check, or a condition of the gate that stays
violated when every referenced object is held and funded. -/
theorem verdict_independent_of_store_iff (objects : Uint256 → Option GovernanceData)
    (block : CBlock) (view : CCoinsView) (evodb : CEvoDB) :
    (∀ first second, HoldsObjects objects first → HoldsObjects objects second →
      ((∃ result, connectBlock params decodeDestination checks nHeight (some first) block view
          evodb = .ok result) ↔
        ∃ result, connectBlock params decodeDestination checks nHeight (some second) block view
          evodb = .ok result)) ↔
      gatedReleases params nHeight block view = [] ∨
        passesOtherChecks params checks nHeight block view = false ∨
        ¬ReleasesAdmitted params nHeight evodb
          (approvedRelease decodeDestination (fullStore objects))
          (gatedReleases params nHeight block view) := by
  simp only [connectBlock_ok_iff]
  constructor
  · intro hsame
    by_contra hrepairable
    simp only [not_or, not_not, Bool.not_eq_false] at hrepairable
    obtain ⟨hgated, hother, hadmitted⟩ := hrepairable
    obtain ⟨release, hmem⟩ := exists_mem_of_ne_nil _ hgated
    have hempty := (hsame (fullStore objects) (fun _ => none) (holdsObjects_fullStore objects)
      (holdsObjects_empty objects)).mp ⟨hother, hadmitted⟩
    obtain ⟨amount, script, happroved, -⟩ := hempty.2.approved release hmem
    rw [approvedRelease_empty] at happroved
    cases happroved
  · intro hfixed first second hfirst hsecond
    rcases hfixed with hnone | hother | hbad
    · rw [hnone]
      simp only [ReleasesAdmitted.nil]
    · rw [hother]
      simp
    · have hreject : ∀ store, HoldsObjects objects store →
          ¬ReleasesAdmitted params nHeight evodb (approvedRelease decodeDestination store)
            (gatedReleases params nHeight block view) := by
        intro store hholds hadmitted
        refine hbad ⟨hadmitted.unlocked, hadmitted.named, hadmitted.fresh, hadmitted.distinct, ?_⟩
        intro release hmem
        obtain ⟨amount, script, happroved, houtputs⟩ := hadmitted.approved release hmem
        exact ⟨amount, script, approvedRelease_fullStore hholds happroved, houtputs⟩
      simp [hreject first hfirst, hreject second hsecond]

end Verdict

/-- At the unlock height a node that holds the funded proposal accepts the block with
its release; a node with an empty governance store rejects it. -/
theorem verdict_depends_on_store :
    HoldsObjects (fun hash => (store hash).map CGovernanceObject.data) store ∧
    (∃ result, connectBlock params decodeDestination passing 60000
      (some store) releaseBlock view ∅ = .ok result) ∧
    ¬∃ result, connectBlock params decodeDestination passing 60000
      (some (fun _ => none)) releaseBlock view ∅ = .ok result := by
  refine ⟨?_, ⟨_, rfl⟩, ?_⟩
  · intro hash object hobject
    exact Option.map_eq_some_iff.mpr ⟨object, hobject, rfl⟩
  · rintro ⟨result, hconnect⟩
    have hreject : connectBlock params decodeDestination passing 60000
        (some (fun _ => none)) releaseBlock view ∅ =
          .error "bad-escrow-not-funded" := rfl
    cases hconnect

end Kerrigan.Escrow
