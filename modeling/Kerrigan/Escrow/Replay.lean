import Kerrigan.Escrow.ChainState
import Mathlib.Data.List.Nodup

/-!
# Anti-replay records against the active chain

The proposals released on the active chain are read off the blocks and their undo
records.  The execution records of EvoDB are compared with them along whole runs of
connects, disconnects and crash recovery.
-/

namespace Kerrigan.Escrow

open Primitives Consensus Lib ChainState List CCoinsView

/-! ## Released proposals -/

/-- The proposal a transaction releases on the given coins: the one it names, when it
spends an escrow coin and is not a burn. -/
def releaseOf (params : Params) (nHeight : Int) (view : CCoinsView) (tx : CTransaction) :
    Option Uint256 :=
  match matchedEscrowScript params view tx with
  | none => none
  | some _ => if isEscrowBurn params nHeight view tx then none else findMarker tx

def spentView (tx : CTransaction) (undo : CTxUndo) : CCoinsView := fun outpoint =>
  ((tx.vin.zip undo).find? (fun spent => spent.1.prevout = outpoint)).map Prod.snd

def releasedByTx (params : Params) (nHeight : Int) (spent : CTransaction × CTxUndo) :
    Option Uint256 :=
  releaseOf params nHeight (spentView spent.1 spent.2) spent.1

def releasedByBlock (params : Params) (entry : ChainEntry) : List Uint256 :=
  (entry.block.vtx.tail.zip entry.blockUndo).filterMap (releasedByTx params entry.nHeight)

def releasedOnChain (params : Params) (chain : List ChainEntry) : List Uint256 :=
  chain.flatMap (releasedByBlock params)

@[simp] theorem releasedOnChain_cons (params : Params) (entry : ChainEntry)
    (chain : List ChainEntry) :
    releasedOnChain params (entry :: chain) =
      releasedByBlock params entry ++ releasedOnChain params chain := by
  simp [releasedOnChain]

def namedByBlock (block : CBlock) : List Uint256 :=
  block.vtx.filterMap findMarker

section Records

variable {params : Params} {decodeDestination : String → Option Script} {checks : OtherChecks}
  {nHeight : Int} {pGovMan : Option GovernanceStore} {view : CCoinsView} {tx : CTransaction}

theorem findMarker_of_releaseOf {hash : Uint256}
    (hrelease : releaseOf params nHeight view tx = some hash) :
    findMarker tx = some hash := by
  unfold releaseOf at hrelease
  split at hrelease
  · cases hrelease
  · split at hrelease
    · cases hrelease
    · exact hrelease

theorem namedByBlock_of_releasedByBlock {entry : ChainEntry} {hash : Uint256}
    (hreleased : hash ∈ releasedByBlock params entry) : hash ∈ namedByBlock entry.block := by
  obtain ⟨⟨tx, undo⟩, hmem, hrelease⟩ := mem_filterMap.mp hreleased
  have htx : tx ∈ entry.block.vtx := mem_of_mem_tail (of_mem_zip hmem).1
  exact mem_filterMap.mpr ⟨tx, htx, findMarker_of_releaseOf hrelease⟩

/-! ## The gate reads only the coins of the inputs -/

def SameInputs (tx : CTransaction) (first second : CCoinsView) : Prop :=
  ∀ txin ∈ tx.vin, first txin.prevout = second txin.prevout

variable {first second : CCoinsView}

theorem sumEscrowInputs_congr {vin : List CTxIn} {inSum : Int}
    (hsame : ∀ txin ∈ vin, first txin.prevout = second txin.prevout) :
    sumEscrowInputs params first inSum vin = sumEscrowInputs params second inSum vin := by
  induction vin generalizing inSum with
  | nil => rfl
  | cons txin rest ih =>
    have hrest : ∀ other ∈ rest, first other.prevout = second other.prevout :=
      fun other hother => hsame other (mem_cons_of_mem txin hother)
    simp only [sumEscrowInputs, hsame txin mem_cons_self]
    cases second txin.prevout with
    | none => rfl
    | some coin => simp only [ih hrest]

theorem matchedEscrowScript_congr (hsame : SameInputs tx first second) :
    matchedEscrowScript params first tx = matchedEscrowScript params second tx := by
  refine findSome?_congr ?_
  intro txin hmem
  rw [hsame txin hmem]

theorem isEscrowBurn_congr (hsame : SameInputs tx first second) :
    isEscrowBurn params nHeight first tx = isEscrowBurn params nHeight second tx := by
  unfold isEscrowBurn isPureEscrowBurn
  rw [sumEscrowInputs_congr hsame]

theorem releaseOf_congr (hsame : SameInputs tx first second) :
    releaseOf params nHeight first tx = releaseOf params nHeight second tx := by
  unfold releaseOf
  rw [matchedEscrowScript_congr hsame, isEscrowBurn_congr hsame]

theorem find?_spentCoins {view final : CCoinsView} {vin : List CTxIn} {undo : CTxUndo}
    (hspend : spendInputs view vin = some (final, undo)) :
    ∀ txin ∈ vin, ((vin.zip undo).find? (fun spent => spent.1.prevout = txin.prevout)).map
      Prod.snd = view txin.prevout := by
  induction vin generalizing view final undo with
  | nil => simp
  | cons first rest ih =>
    obtain ⟨coin, later, hcoin, hrest, rfl⟩ := spendInputs_cons_eq_some_iff.mp hspend
    intro txin hmem
    by_cases hhead : first.prevout = txin.prevout
    · rw [← hhead]
      simp [hcoin]
    · have htail : txin ∈ rest := by
        rcases mem_cons.mp hmem with rfl | htail
        · exact absurd rfl hhead
        · exact htail
      rw [zip_cons_cons, find?_cons_of_neg (by simpa using hhead),
        ih hrest txin htail, spendCoin, Function.update_of_ne (Ne.symm hhead)]

theorem releasedByTx_of_updateCoins {final : CCoinsView} {undo : CTxUndo}
    (hcoinbase : tx.isCoinBase = false)
    (hupdate : view.updateCoins tx nHeight = some (final, undo)) :
    releasedByTx params nHeight (tx, undo) = releaseOf params nHeight view tx := by
  obtain ⟨spent, hspend, -⟩ := updateCoins_spend hcoinbase hupdate
  exact releaseOf_congr (find?_spentCoins hspend)

/-! ## One block -/

/-- What the gate does to the execution records: nothing, unless the transaction
releases a proposal, which was not recorded before and is recorded after. -/
theorem escrowGate_eq_ok {evodb evodb' : CEvoDB}
    (hgate : escrowGate params decodeDestination nHeight view evodb pGovMan tx = .ok evodb') :
    (releaseOf params nHeight view tx = none ∧ evodb' = evodb) ∨
      ∃ hash, releaseOf params nHeight view tx = some hash ∧
        isEscrowReleaseExecuted evodb hash = false ∧
        evodb' = markEscrowReleaseExecuted evodb hash nHeight := by
  unfold escrowGate at hgate
  unfold releaseOf
  cases hmatched : matchedEscrowScript params view tx with
  | none =>
    simp only [hmatched, Except.ok.injEq] at hgate
    exact Or.inl ⟨rfl, hgate.symm⟩
  | some escrowScript =>
    simp only [hmatched] at hgate
    split at hgate
    · rename_i hburn
      simp only [Except.ok.injEq] at hgate
      exact Or.inl ⟨by simp [hburn], hgate.symm⟩
    · rename_i hburn
      obtain ⟨-, hash, -, -, -, hmarker, hfresh, -, -, -, hmarked⟩ :=
        checkGovernanceEscrowSpend_eq_ok_iff.mp hgate
      exact Or.inr ⟨hash, by simp [hburn, hmarker], hfresh, hmarked⟩

variable {block : CBlock}

/-- Execution records after a list of releases: the new ones are distinct, were not
recorded before, and are recorded after together with the old ones. -/
structure RecordsReleases (before after : CEvoDB) (released : List Uint256) : Prop where
  nodup : released.Nodup
  fresh : ∀ hash ∈ released, isEscrowReleaseExecuted before hash = false
  executed : ∀ hash, isEscrowReleaseExecuted after hash = true ↔
    hash ∈ released ∨ isEscrowReleaseExecuted before hash = true

theorem RecordsReleases.refl (evodb : CEvoDB) : RecordsReleases evodb evodb [] where
  nodup := nodup_nil
  fresh := by simp
  executed := by simp

theorem RecordsReleases.append {first second third : CEvoDB} {earlier later : List Uint256}
    (hfirst : RecordsReleases first second earlier)
    (hsecond : RecordsReleases second third later) :
    RecordsReleases first third (earlier ++ later) where
  nodup := by
    refine hfirst.nodup.append hsecond.nodup ?_
    intro hash hearlier hlater
    have hrecorded := (hfirst.executed hash).mpr (Or.inl hearlier)
    rw [hsecond.fresh hash hlater] at hrecorded
    cases hrecorded
  fresh := by
    intro hash hmem
    rcases mem_append.mp hmem with hearlier | hlater
    · exact hfirst.fresh hash hearlier
    · have hsecondFresh := hsecond.fresh hash hlater
      by_contra hrecorded
      have hkept := (hfirst.executed hash).mpr (Or.inr (by simpa using hrecorded))
      rw [hsecondFresh] at hkept
      cases hkept
  executed := by
    intro hash
    rw [hsecond.executed, hfirst.executed, mem_append]
    tauto

theorem connectTx_records {loop next : TxLoop} {undo : CTxUndo} (hcoinbase : tx.isCoinBase = false)
    (hconnect : connectTx params decodeDestination checks nHeight pGovMan loop tx =
      .ok (next, undo)) :
    RecordsReleases loop.evodb next.evodb (releasedByTx params nHeight (tx, undo)).toList := by
  obtain ⟨-, -, -, hgate, -, hupdate, -⟩ := connectTx_eq_ok_iff.mp hconnect
  rw [releasedByTx_of_updateCoins hcoinbase hupdate]
  rcases escrowGate_eq_ok hgate with ⟨hnone, hsame⟩ | ⟨hash, hsome, hfresh, hmarked⟩
  · rw [hnone, hsame]
    exact RecordsReleases.refl loop.evodb
  · rw [hsome, hmarked]
    refine ⟨by simp, by simpa using hfresh, ?_⟩
    intro other
    rw [isEscrowReleaseExecuted_mark]
    simp

theorem connectTxs_records {loop final : TxLoop} {txs : List CTransaction} {undos : CBlockUndo}
    (hcoinbase : ∀ tx ∈ txs, tx.isCoinBase = false)
    (hconnect : connectTxs params decodeDestination checks nHeight pGovMan loop txs =
      .ok (final, undos)) :
    RecordsReleases loop.evodb final.evodb
      ((txs.zip undos).filterMap (releasedByTx params nHeight)) := by
  induction txs generalizing loop undos with
  | nil =>
    simp only [connectTxs, Except.ok.injEq, Prod.mk.injEq] at hconnect
    obtain ⟨rfl, rfl⟩ := hconnect
    exact RecordsReleases.refl loop.evodb
  | cons tx rest ih =>
    obtain ⟨⟨next, undo⟩, hfirst, hconnect⟩ := bind_eq_ok_iff.mp hconnect
    obtain ⟨⟨last, later⟩, hrest, hconnect⟩ := bind_eq_ok_iff.mp hconnect
    obtain ⟨rfl, rfl⟩ := hconnect
    have hhead := connectTx_records (hcoinbase tx mem_cons_self) hfirst
    have htail := ih (fun other hother => hcoinbase other (mem_cons_of_mem tx hother)) hrest
    have hboth := hhead.append htail
    cases hreleased : releasedByTx params nHeight (tx, undo) with
    | none => simpa [hreleased] using hboth
    | some hash => simpa [hreleased] using hboth

theorem connectBlock_records {evodb : CEvoDB} {loop : TxLoop} {blockUndo : CBlockUndo}
    (hconnect : connectBlock params decodeDestination checks nHeight pGovMan block view evodb =
      .ok (loop, blockUndo)) :
    RecordsReleases evodb loop.evodb (releasedByBlock params ⟨block, nHeight, blockUndo⟩) := by
  obtain ⟨coinbase, rest, withCoinbase, hvtx, -, hothers, -, htxs⟩ := connectBlock_eq_ok hconnect
  have hrecords := connectTxs_records hothers htxs
  simpa [releasedByBlock, hvtx] using hrecords

/-- Undoing a transaction erases the record of the proposal it names, whatever the
transaction spends. -/
theorem disconnectTx_executed {loop final : UndoLoop} {undo : Option CTxUndo}
    (hundo : disconnectTx nHeight loop tx undo = some final) (hash : Uint256) :
    isEscrowReleaseExecuted final.evodb hash = true ↔
      findMarker tx ≠ some hash ∧ isEscrowReleaseExecuted loop.evodb hash = true := by
  unfold disconnectTx at hundo
  dsimp only at hundo
  split at hundo
  · cases hundo
  · cases hmarker : findMarker tx with
    | none =>
      simp only [hmarker, Option.some.injEq] at hundo
      subst hundo
      simp
    | some named =>
      simp only [hmarker, Option.some.injEq] at hundo
      subst hundo
      rw [isEscrowReleaseExecuted_unmark, ne_eq (some named), Option.some.injEq]
      exact and_congr_left' ne_comm

theorem disconnectTxs_executed {loop final : UndoLoop} {txs : List (CTransaction × CTxUndo)}
    (hundo : disconnectTxs nHeight loop txs = some final) (hash : Uint256) :
    isEscrowReleaseExecuted final.evodb hash = true ↔
      (∀ spent ∈ txs, findMarker spent.1 ≠ some hash) ∧
        isEscrowReleaseExecuted loop.evodb hash = true := by
  induction txs generalizing final with
  | nil =>
    simp only [disconnectTxs, Option.some.injEq] at hundo
    subst hundo
    simp
  | cons spent rest ih =>
    obtain ⟨tx, undo⟩ := spent
    simp only [disconnectTxs] at hundo
    cases hrest : disconnectTxs nHeight loop rest with
    | none => simp [hrest] at hundo
    | some later =>
      simp only [hrest] at hundo
      rw [disconnectTx_executed hundo, ih hrest, forall_mem_cons, and_assoc]

theorem disconnectBlock_executed {blockUndo : CBlockUndo} {evodb : CEvoDB} {final : UndoLoop}
    (hundo : disconnectBlock nHeight block blockUndo view evodb = some final) (hash : Uint256) :
    isEscrowReleaseExecuted final.evodb hash = true ↔
      hash ∉ namedByBlock block ∧ isEscrowReleaseExecuted evodb hash = true := by
  unfold disconnectBlock at hundo
  split at hundo
  · cases hundo
  · rename_i hlength
    cases hvtx : block.vtx with
    | nil => simp [hvtx] at hundo
    | cons coinbase rest =>
      rw [not_not, hvtx, length_cons, Nat.add_right_cancel_iff] at hlength
      simp only [hvtx] at hundo
      cases hrest : disconnectTxs nHeight ⟨view, evodb, true⟩ (rest.zip blockUndo) with
      | none => simp [hrest] at hundo
      | some later =>
        simp only [hrest] at hundo
        have hzip : (rest.zip blockUndo).map Prod.fst = rest :=
          map_fst_zip (Nat.le_of_eq hlength.symm)
        have hnames : (∀ spent ∈ rest.zip blockUndo, findMarker spent.1 ≠ some hash) ↔
            ∀ tx ∈ rest, findMarker tx ≠ some hash := by
          conv_rhs => rw [← hzip]
          simp only [forall_mem_map]
        rw [disconnectTx_executed hundo, disconnectTxs_executed hrest, hnames]
        simp only [namedByBlock, hvtx, mem_filterMap, mem_cons, not_exists, not_and]
        constructor
        · rintro ⟨hfirst, hothers, hrecorded⟩
          refine ⟨?_, hrecorded⟩
          rintro tx (rfl | htx)
          · exact hfirst
          · exact hothers tx htx
        · rintro ⟨hall, hrecorded⟩
          exact ⟨hall coinbase (Or.inl rfl), fun tx htx => hall tx (Or.inr htx), hrecorded⟩

/-! ## Whole runs -/

/-- The execution records are exact: they hold the proposals released on the active
chain, and none of these is released twice. -/
structure RecordsExact (params : Params) (state : ChainState) : Prop where
  executed_iff : ∀ hash, isEscrowReleaseExecuted state.evodb hash = true ↔
    hash ∈ releasedOnChain params state.activeChain
  nodup : (releasedOnChain params state.activeChain).Nodup

/-- The condition on a step: a disconnect that goes through does not remove a block
that names a proposal released below it, and a block rolled forward releases nothing. -/
def StepKeepsRecords (params : Params) (state : ChainState) : ChainStep → Prop
  | .connect _ _ _ => True
  | .disconnect acceptUnclean => (disconnectTip state acceptUnclean).isSome = true →
      ∀ tip rest, state.activeChain = tip :: rest →
        ∀ hash ∈ namedByBlock tip.block, hash ∉ releasedOnChain params rest
  | .rollforward block blockUndo =>
      (rollforwardBlock state.nextHeight state.coins block.vtx).isSome = true →
        releasedByBlock params ⟨block, state.nextHeight, blockUndo⟩ = []

theorem recordsExact_genesis (params : Params) : RecordsExact params genesis where
  executed_iff := by
    intro hash
    simp [genesis, releasedOnChain, isEscrowReleaseExecuted]
  nodup := nodup_nil

variable {state : ChainState}

theorem recordsExact_connect (hexact : RecordsExact params state) :
    RecordsExact params
      (chainStep params decodeDestination state (.connect block checks pGovMan)) := by
  unfold chainStep
  cases hconnect : connectBlock params decodeDestination checks state.nextHeight pGovMan block
      state.coins state.evodb with
  | error reason => simpa [hconnect] using hexact
  | ok result =>
    obtain ⟨loop, blockUndo⟩ := result
    have hrecords := connectBlock_records hconnect
    simp only [hconnect]
    refine ⟨?_, ?_⟩
    · intro hash
      rw [hrecords.executed, hexact.executed_iff, releasedOnChain_cons, mem_append]
    · refine hrecords.nodup.append hexact.nodup ?_
      intro hash hnew hold
      have hrecorded := (hexact.executed_iff hash).mpr hold
      rw [hrecords.fresh hash hnew] at hrecorded
      cases hrecorded

/-- A disconnect keeps the records exact if and only if the removed block names no
proposal released below it. -/
theorem recordsExact_disconnect_iff {acceptUnclean : Bool} (hexact : RecordsExact params state) :
    RecordsExact params (chainStep params decodeDestination state (.disconnect acceptUnclean)) ↔
      StepKeepsRecords params state (.disconnect acceptUnclean) := by
  simp only [chainStep, StepKeepsRecords]
  cases htip : disconnectTip state acceptUnclean with
  | none => simpa using hexact
  | some next =>
    obtain ⟨tip, rest, loop, hchain, hundo, rfl⟩ := disconnectTip_eq_some htip
    have hafter := disconnectBlock_executed hundo
    have hbefore : ∀ hash, isEscrowReleaseExecuted state.evodb hash = true ↔
        hash ∈ releasedByBlock params tip ∨ hash ∈ releasedOnChain params rest := by
      intro hash
      rw [hexact.executed_iff, hchain, releasedOnChain_cons, mem_append]
    have hnodup : (releasedOnChain params rest).Nodup := by
      have hall := hexact.nodup
      rw [hchain, releasedOnChain_cons] at hall
      exact hall.of_append_right
    rw [Option.getD_some]
    constructor
    · rintro ⟨hkept, -⟩ - other later heq hash hnamed hreleased
      rw [hchain, cons.injEq] at heq
      obtain ⟨rfl, rfl⟩ := heq
      have hrecorded := (hkept hash).mpr hreleased
      exact ((hafter hash).mp hrecorded).1 hnamed
    · intro hcondition
      have hdistinct := hcondition rfl tip rest hchain
      refine ⟨?_, hnodup⟩
      intro hash
      rw [hafter hash, hbefore hash]
      constructor
      · rintro ⟨hunnamed, hblock | hrest⟩
        · exact absurd (namedByBlock_of_releasedByBlock hblock) hunnamed
        · exact hrest
      · intro hrest
        exact ⟨fun hnamed => hdistinct hash hnamed hrest, Or.inr hrest⟩

theorem recordsExact_rollforward_iff {blockUndo : CBlockUndo} (hexact : RecordsExact params state) :
    RecordsExact params
        (chainStep params decodeDestination state (.rollforward block blockUndo)) ↔
      StepKeepsRecords params state (.rollforward block blockUndo) := by
  simp only [chainStep, StepKeepsRecords]
  cases hcoins : rollforwardBlock state.nextHeight state.coins block.vtx with
  | none => simpa using hexact
  | some coins =>
    simp only [Option.isSome_some, true_implies]
    constructor
    · rintro ⟨hexecuted, hnodup⟩
      rw [eq_nil_iff_forall_not_mem]
      intro hash hnew
      have hold : hash ∈ releasedOnChain params state.activeChain := by
        rw [← hexact.executed_iff, hexecuted, releasedOnChain_cons]
        exact mem_append_left _ hnew
      exact (disjoint_of_nodup_append hnodup) hnew hold
    · intro hnothing
      refine ⟨?_, ?_⟩
      · intro hash
        rw [releasedOnChain_cons, hnothing, nil_append]
        exact hexact.executed_iff hash
      · rw [releasedOnChain_cons, hnothing, nil_append]
        exact hexact.nodup

/-- Along every run from genesis the execution records are exact at every state
visited if and only if every step meets the condition on steps. -/
theorem recordsExact_always_iff (params : Params) (decodeDestination : String → Option Script)
    (steps : List ChainStep) :
    Always (chainStep params decodeDestination) (RecordsExact params) genesis steps ↔
      Guarded (chainStep params decodeDestination) (StepKeepsRecords params) genesis
        steps := by
  refine always_iff_guarded ?_ (recordsExact_genesis params)
  intro state step hexact
  cases step with
  | connect block checks pGovMan =>
    exact ⟨fun _ => trivial, fun _ => recordsExact_connect hexact⟩
  | disconnect acceptUnclean => exact recordsExact_disconnect_iff hexact
  | rollforward block blockUndo => exact recordsExact_rollforward_iff hexact

/-! ## A record erased by an ordinary transaction -/

end Records

namespace Sample

def openParams : Params := { params with nEscrowUnlockHeight := 0 }

def funding : CTransaction :=
  { hash := 7, nVersion := 3, nType := .sapling, vin := []
    vout := [⟨1000 * coinValue, params.growthEscrowScript⟩]
    saplingPayload := some { valueBalance := 1000 * coinValue } }

def bystander : CTransaction :=
  { hash := 9, nVersion := 2, nType := .normal, vin := [⟨⟨8, 0⟩⟩]
    vout := [⟨coinValue, payeeScript⟩, ⟨0, markerScript⟩] }

def secondRelease : CTransaction :=
  { hash := 10, nVersion := 2, nType := .normal, vin := [⟨⟨8, 2⟩⟩]
    vout := [⟨coinValue, payeeScript⟩, ⟨0, markerScript⟩,
      ⟨998 * coinValue, params.growthEscrowScript⟩] }

variable (hash : Uint256)

def connect (tx : CTransaction) : ChainStep :=
  .connect ⟨hash, [coinbase (100 + hash), tx]⟩ passing (some store)

def eraseSteps : List ChainStep :=
  [connect 1 funding, connect 2 (release [changeOutput]), connect 3 bystander, .disconnect false]

def recoverySteps : List ChainStep :=
  [connect 1 funding, .rollforward releaseBlock
    [[⟨⟨1000 * coinValue, params.growthEscrowScript⟩, 1, false⟩]]]

end Sample

open Sample

/-- Disconnecting a block with an ordinary transaction that carries the marker erases
the record of a release that stays on the chain, and the release can be repeated;
after crash recovery a release on the chain has no record at all. -/
theorem release_record_erased :
    ¬RecordsExact openParams
      (run (chainStep openParams decodeDestination) genesis
        eraseSteps) ∧
    releasedOnChain openParams
      (run (chainStep openParams decodeDestination) genesis
        (eraseSteps ++ [connect 4 secondRelease])).activeChain = [1, 1] ∧
    ¬RecordsExact openParams
      (run (chainStep openParams decodeDestination) genesis
        recoverySteps) := by
  refine ⟨?_, by decide, ?_⟩
  · intro hexact
    have hrecorded := (hexact.executed_iff 1).mpr (by decide)
    exact absurd hrecorded (by decide)
  · intro hexact
    have hrecorded := (hexact.executed_iff 1).mpr (by decide)
    exact absurd hrecorded (by decide)

end Kerrigan.Escrow
