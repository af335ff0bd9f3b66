import Kerrigan.Escrow.ChainState
import Kerrigan.Lib.Total
import Kerrigan.Masternode.Payments
import Kerrigan.Sapling.ChainState

/-!
# The money supply

A chain of connected blocks with its coins and its shielded pool.  Three rules keep the sum of
the two below the sum of the subsidies: the value equation of `CheckTxInputs`, the pool of
`ProcessBlock`, and the limit on the coinbase of `IsBlockValueValid`.
-/

namespace Kerrigan.Validation

open Primitives Consensus Lib Sapling Escrow CCoinsView Sapling.Sample List

/-! ## Connecting a block -/

structure LedgerParams extends SaplingParams where
  DIP0003Height : Int
  nSubsidyHalvingInterval : Int := 1051200

variable (params : LedgerParams) (block : CBlock) (view : CCoinsView)

def getBlockSubsidyInner (nPrevHeight : Int) : Int :=
  let halvings := nPrevHeight / params.nSubsidyHalvingInterval
  if 64 ≤ halvings then 0 else 25 * coinValue / 2 ^ halvings.toNat

def subsidies (nHeight : Nat) : Int :=
  ((range nHeight).map (fun nPrevHeight => getBlockSubsidyInner params nPrevHeight)).sum

variable (outpoint : COutPoint) (fDronePayoutActive : Bool) (hash : Uint256) (nHeight : Int)
  (tx : CTransaction)

def isKnownType : TxType → Bool
  | .unknown _ => false
  | .droneRegister => fDronePayoutActive
  | _ => true

def contextualCheckTransaction : Except String Unit :=
  if params.DIP0003Height ≤ nHeight then
    if tx.isSpecialTxVersion then do
      require (isKnownType fDronePayoutActive tx.nType = true) "bad-txns-type"
      require (tx.isCoinBase = true → tx.nType = .coinbase) "bad-txns-cb-type"
    else require (tx.nType = .normal) "bad-txns-type"
  else .ok ()

/-- A block as it is read: only a transaction with the field has a payload. -/
structure WireBlock extends CBlock where
  decoded : ∀ tx ∈ vtx, tx.saplingPayload.isSome → hasExtraPayloadField tx = true

/-- The chain above genesis, tip first, with its coins and its shielded state. -/
structure LedgerState where
  chain : List CBlock
  coins : CCoinsView
  evodb : CEvoDB
  sapling : CSaplingState

def LedgerState.genesis : LedgerState := ⟨[], fun _ => none, ∅, CSaplingState.load {}⟩

/-- A block with what the node knows when it arrives. -/
structure ConnectStep where
  block : WireBlock
  checks : OtherChecks
  pGovMan : Option GovernanceStore
  fDronePayoutActive : Bool

def checkBlockValue (nFees : Int) : Except String Unit :=
  match block.vtx with
  | [] => .error "bad-cb-missing"
  | coinbase :: _ =>
      match Masternode.isBlockValueValid coinbase nHeight
        (getBlockSubsidyInner params (nHeight - 1) + nFees) with
      | some (.ok ()) => .ok ()
      | _ => .error "bad-cb-amount"

variable {Frontier : Type} (frontiers : FrontierFunctions Frontier) (genesis : Uint256)
  (verifySaplingProofs : ProofVerdict) (decodeDestination : String → Option Script)
  (state : LedgerState) (step : ConnectStep)

def connectLedger : Except String LedgerState := do
  let block := step.block.toCBlock
  let nHeight : Int := state.chain.length + 1
  block.vtx.forM (contextualCheckTransaction params step.fDronePayoutActive nHeight)
  let processed := processSpecialTxsInBlock params.toSaplingParams frontiers verifySaplingProofs
    state.sapling block nHeight (tipHash genesis state.chain) false
  processed.1
  let connected ← connectBlock params.toParams decodeDestination step.checks nHeight step.pGovMan
    block state.coins state.evodb
  checkBlockValue params block nHeight connected.1.nFees
  .ok ⟨block :: state.chain, connected.1.view, connected.1.evodb, processed.2.commitBlock⟩

def ledgerStep : LedgerState :=
  match connectLedger params frontiers genesis verifySaplingProofs decodeDestination state step with
  | .error _ => state
  | .ok next => next

def ShieldsInCoinbase : Prop :=
  ∃ coinbase ∈ block.vtx.head?, balanceOf ⟨block.hash, [coinbase]⟩ < 0

def WithoutAssets : Prop :=
  ∀ tx ∈ block.vtx, tx.nType ≠ .assetLock ∧ tx.nType ≠ .assetUnlock

/-- What the transactions leave over, each with the coins of those before it. -/
def feesOf (nHeight : Int) : CCoinsView → List CTransaction → Int
  | _, [] => 0
  | view, tx :: rest =>
      coinsValue (view.inputCoins tx) + balanceOf ⟨tx.hash, [tx]⟩ - totalValue tx.vout +
        (view.updateCoins tx nHeight).elim 0 (fun next => feesOf nHeight next.1 rest)

/-- What the coinbase pays and shields is at most the subsidy and the fees. -/
def WithinReward : Prop :=
  match block.vtx with
  | [] => True
  | coinbase :: rest =>
      ∀ next ∈ state.coins.updateCoins coinbase (state.chain.length + 1),
        totalValue coinbase.vout - balanceOf ⟨block.hash, [coinbase]⟩ ≤
          getBlockSubsidyInner params state.chain.length +
            feesOf (state.chain.length + 1) next.1 rest

/-! ## The value of the coins -/

def valueAt : Int :=
  (view outpoint).elim 0 (fun coin => coin.out.nValue)

noncomputable def utxoTotal : Int := finsum (valueAt view)

/-- There are finitely many coins with a value, and no value is negative. -/
structure SoundCoins (view : CCoinsView) : Prop where
  finite : (Function.support (valueAt view)).Finite
  nonneg : ∀ outpoint, 0 ≤ valueAt view outpoint

theorem valueAt_update (coin : Option Coin) : valueAt (Function.update view outpoint coin) =
      Function.update (valueAt view) outpoint (coin.elim 0 (fun coin => coin.out.nValue)) := by
  funext other
  by_cases hother : other = outpoint
  · rw [hother, valueAt, Function.update_self, Function.update_self]
  · rw [valueAt, Function.update_of_ne hother, Function.update_of_ne hother, valueAt]

theorem soundCoins_none : SoundCoins (fun _ => none) := by
  have hzero : valueAt (fun _ => none) = 0 := rfl
  refine ⟨?_, fun _ => le_rfl⟩
  rw [hzero, Function.support_zero]
  exact Set.finite_empty

theorem utxoTotal_none : utxoTotal (fun _ => none) = 0 := finsum_zero

theorem finite_valueAt_update {view : CCoinsView}
    (hfinite : (Function.support (valueAt view)).Finite) (outpoint : COutPoint)
    (coin : Option Coin) :
    (Function.support (valueAt (Function.update view outpoint coin))).Finite := by
  rw [valueAt_update]
  exact finite_support_update hfinite outpoint _

theorem utxoTotal_update {view : CCoinsView} (hfinite : (Function.support (valueAt view)).Finite)
    (outpoint : COutPoint) (coin : Option Coin) :
    utxoTotal (Function.update view outpoint coin) =
      utxoTotal view - valueAt view outpoint + coin.elim 0 (fun coin => coin.out.nValue) := by
  unfold utxoTotal
  rw [valueAt_update, finsum_update hfinite]

variable {undo : CTxUndo}

theorem utxoTotal_spendInputs {view final : CCoinsView} {vin : List CTxIn}
    (hfinite : (Function.support (valueAt view)).Finite)
    (hspend : view.spendInputs vin = some (final, undo)) :
    (Function.support (valueAt final)).Finite ∧
      utxoTotal final = utxoTotal view - coinsValue undo := by
  induction vin generalizing view undo with
  | nil =>
    obtain ⟨rfl, rfl⟩ := hspend
    exact ⟨hfinite, by rw [coinsValue_nil, Int.sub_zero]⟩
  | cons txin rest ih =>
    obtain ⟨coin, later, hcoin, hrest, rfl⟩ := spendInputs_cons_eq_some_iff.mp hspend
    have hspent : (Function.support (valueAt (view.spendCoin txin.prevout))).Finite :=
      finite_valueAt_update hfinite txin.prevout none
    obtain ⟨hfinal, htotal⟩ := ih hspent hrest
    have hfirst := utxoTotal_update hfinite txin.prevout none
    have hvalue : valueAt view txin.prevout = coin.out.nValue := by
      rw [valueAt, hcoin, Option.elim_some]
    refine ⟨hfinal, ?_⟩
    rw [htotal, spendCoin, hfirst, hvalue, coinsValue_cons, Option.elim_none]
    omega

namespace SoundCoins

variable {view : CCoinsView}

section

variable (hsound : SoundCoins view)

include hsound

theorem update (outpoint : COutPoint) {coin : Option Coin}
    (hcoin : ∀ found ∈ coin, 0 ≤ found.out.nValue) :
    SoundCoins (Function.update view outpoint coin) := by
  refine ⟨finite_valueAt_update hsound.finite outpoint coin, ?_⟩
  intro other
  rw [valueAt_update]
  by_cases hother : other = outpoint
  · rw [hother, Function.update_self]
    cases coin with
    | none => exact le_rfl
    | some found => exact hcoin found rfl
  · rw [Function.update_of_ne hother]
    exact hsound.nonneg other

theorem spendInputs {final : CCoinsView} {vin : List CTxIn}
    (hspend : view.spendInputs vin = some (final, undo)) :
    SoundCoins final ∧ utxoTotal final = utxoTotal view - coinsValue undo := by
  obtain ⟨hfinite, htotal⟩ := utxoTotal_spendInputs hsound.finite hspend
  refine ⟨⟨hfinite, ?_⟩, htotal⟩
  intro outpoint
  rw [valueAt, spendInputs_apply hspend]
  split
  · exact le_rfl
  · exact hsound.nonneg outpoint

theorem addCoin {next : CCoinsView} {outpoint : COutPoint}
    {coin : Coin} {possibleOverwrite : Bool} (hcoin : 0 ≤ coin.out.nValue)
    (hadd : view.addCoin outpoint coin possibleOverwrite = some next) :
    SoundCoins next ∧ utxoTotal next ≤ utxoTotal view + coin.out.nValue := by
  unfold CCoinsView.addCoin at hadd
  split at hadd
  · obtain rfl := Option.some.inj hadd
    exact ⟨hsound, by omega⟩
  · split at hadd
    · cases hadd
    · obtain rfl := Option.some.inj hadd
      refine ⟨hsound.update outpoint ?_, ?_⟩
      · intro found hfound
        obtain rfl := Option.some.inj hfound
        exact hcoin
      · rw [utxoTotal_update hsound.finite, Option.elim_some]
        have hold := hsound.nonneg outpoint
        omega

theorem addCoinsFrom {final : CCoinsView} {txid : Uint256}
    {fCoinbase checkForOverwrite : Bool} {nHeight : Int} {i : Nat} {outs : List CTxOut}
    (houts : ∀ txout ∈ outs, 0 ≤ txout.nValue)
    (hadd : view.addCoinsFrom txid fCoinbase nHeight checkForOverwrite i outs = some final) :
    SoundCoins final ∧ utxoTotal final ≤ utxoTotal view + totalValue outs := by
  induction outs generalizing view i with
  | nil =>
    simp only [addCoinsFrom, Option.some.injEq] at hadd
    rw [← hadd, totalValue_nil, Int.add_zero]
    exact ⟨hsound, le_rfl⟩
  | cons txout rest ih =>
    rw [forall_mem_cons] at houts
    simp only [addCoinsFrom] at hadd
    split at hadd
    · cases hadd
    · rename_i next hnext
      obtain ⟨hcoins, hfirst⟩ := hsound.addCoin houts.1 hnext
      obtain ⟨hfinal, htotal⟩ := ih hcoins houts.2 hadd
      refine ⟨hfinal, ?_⟩
      dsimp only at hfirst
      rw [totalValue_cons]
      omega

theorem updateCoins {final : CCoinsView} {tx : CTransaction} {nHeight : Int}
    (houts : ∀ txout ∈ tx.vout, 0 ≤ txout.nValue)
    (hupdate : view.updateCoins tx nHeight = some (final, undo)) :
    SoundCoins final ∧ utxoTotal final ≤ utxoTotal view - coinsValue undo + totalValue tx.vout := by
  unfold CCoinsView.updateCoins at hupdate
  split at hupdate
  · obtain ⟨added, hadd, heq⟩ := Option.map_eq_some_iff.mp hupdate
    obtain ⟨rfl, rfl⟩ := Prod.mk.inj heq
    obtain ⟨hfinal, htotal⟩ := hsound.addCoinsFrom houts hadd
    refine ⟨hfinal, ?_⟩
    rw [coinsValue_nil, Int.sub_zero]
    exact htotal
  · split at hupdate
    · cases hupdate
    · rename_i spent coins hspend
      obtain ⟨added, hadd, heq⟩ := Option.map_eq_some_iff.mp hupdate
      obtain ⟨rfl, rfl⟩ := Prod.mk.inj heq
      obtain ⟨hspent, hless⟩ := hsound.spendInputs hspend
      obtain ⟨hfinal, htotal⟩ := hspent.addCoinsFrom houts hadd
      exact ⟨hfinal, by omega⟩

end

end SoundCoins

/-! ## The balance of a block -/

theorem balanceOf_cons (rest : List CTransaction) :
    balanceOf ⟨hash, tx :: rest⟩ = balanceOf ⟨hash, [tx]⟩ + balanceOf ⟨hash, rest⟩ := by
  unfold balanceOf
  rw [payloadsOf_cons, map_append, sum_append]

theorem saplingValueBalance_eq {tx : CTransaction} {balance : Int}
    (hdecoded : tx.saplingPayload.isSome → hasExtraPayloadField tx = true)
    (hbalance : saplingValueBalance tx = .ok balance) : balanceOf ⟨hash, [tx]⟩ = balance := by
  unfold saplingValueBalance at hbalance
  by_cases htype : tx.nType = .sapling
  · cases hpayload : tx.saplingPayload with
    | none => simp [htype, hpayload] at hbalance
    | some payload =>
      have hfield := hdecoded (by rw [hpayload]; rfl)
      simp only [htype, beq_self_eq_true, if_true, hpayload] at hbalance
      split at hbalance
      · cases hbalance
      · simp only [Except.ok.injEq] at hbalance
        simp [balanceOf, payloadsOf, saplingPayloadOf, htype, hfield, hpayload, hbalance]
  · have hzero : balance = 0 := by
      rw [if_neg (by simpa using htype), Except.ok.injEq] at hbalance
      exact hbalance.symm
    simp [balanceOf, payloadsOf, htype, hzero]

section Loop

variable {params : Params} {decodeDestination nHeight} {checks : OtherChecks}
  {pGovMan : Option GovernanceStore}

theorem connectTx_value {loop next : TxLoop} {tx : CTransaction} (hsound : SoundCoins loop.view)
    (hcoinbase : tx.isCoinBase = false) (hassets : tx.nType ≠ .assetUnlock)
    (hdecoded : tx.saplingPayload.isSome → hasExtraPayloadField tx = true) (hash : Uint256)
    (hconnect : connectTx params decodeDestination checks nHeight pGovMan loop tx =
      .ok (next, undo)) :
    SoundCoins next.view ∧
      utxoTotal next.view + next.nFees ≤
        utxoTotal loop.view + loop.nFees + balanceOf ⟨hash, [tx]⟩ ∧
      next.nFees = loop.nFees + (coinsValue (loop.view.inputCoins tx) + balanceOf ⟨hash, [tx]⟩ -
        totalValue tx.vout) := by
  obtain ⟨txfee, hinputs, -, -, -, hupdate, hfees⟩ := connectTx_eq_ok_iff.mp hconnect
  have hplain : (tx.isSpecialTxVersion && tx.nType == .assetUnlock) = false := by
    simp [hassets]
  obtain ⟨balance, hbalance, hvalue, -, houts⟩ := checkTxInputs_value hplain hinputs
  obtain ⟨hnext, htotal⟩ := hsound.updateCoins houts hupdate
  rw [updateCoins_undo hcoinbase hupdate] at htotal
  rw [saplingValueBalance_eq hash hdecoded hbalance, hfees]
  exact ⟨hnext, by omega, by omega⟩

theorem connectTxs_value {loop final : TxLoop} {txs : List CTransaction} {undos : CBlockUndo}
    (hsound : SoundCoins loop.view) (hcoinbase : ∀ tx ∈ txs, tx.isCoinBase = false)
    (hassets : ∀ tx ∈ txs, tx.nType ≠ .assetUnlock)
    (hdecoded : ∀ tx ∈ txs, tx.saplingPayload.isSome → hasExtraPayloadField tx = true)
    (hash : Uint256)
    (hconnect : connectTxs params decodeDestination checks nHeight pGovMan loop txs =
      .ok (final, undos)) :
    SoundCoins final.view ∧
      utxoTotal final.view + final.nFees ≤
        utxoTotal loop.view + loop.nFees + balanceOf ⟨hash, txs⟩ ∧
      final.nFees = loop.nFees + feesOf nHeight loop.view txs := by
  induction txs generalizing loop undos with
  | nil =>
    obtain ⟨rfl, -⟩ := hconnect
    exact ⟨hsound, by simp [balanceOf, payloadsOf], (Int.add_zero _).symm⟩
  | cons tx rest ih =>
    rw [forall_mem_cons] at hcoinbase hassets hdecoded
    obtain ⟨⟨next, undo⟩, hfirst, hconnect⟩ := bind_eq_ok_iff.mp hconnect
    obtain ⟨⟨last, later⟩, hrest, hconnect⟩ := bind_eq_ok_iff.mp hconnect
    obtain ⟨rfl, -⟩ := hconnect
    obtain ⟨hnext, hone, hfee⟩ :=
      connectTx_value hsound hcoinbase.1 hassets.1 hdecoded.1 hash hfirst
    obtain ⟨hfinal, hlater, hfees⟩ := ih hnext hcoinbase.2 hassets.2 hdecoded.2 hrest
    obtain ⟨-, -, -, -, -, hupdate, -⟩ := connectTx_eq_ok_iff.mp hfirst
    have hbalance : balanceOf ⟨tx.hash, [tx]⟩ = balanceOf ⟨hash, [tx]⟩ := rfl
    rw [balanceOf_cons, feesOf, hupdate, Option.elim_some, hbalance]
    dsimp only
    exact ⟨hfinal, by omega, by omega⟩

end Loop

/-! ## The supply -/

/-- The coins and the pool are at most what the subsidies brought, and the pool is not
negative. -/
structure SupplyBounded (params : LedgerParams) (state : LedgerState) : Prop where
  total : utxoTotal state.coins + state.sapling.nSaplingValuePool ≤
    subsidies params state.chain.length
  pool : 0 ≤ state.sapling.nSaplingValuePool

variable {params frontiers genesis verifySaplingProofs decodeDestination state step}
  {next : LedgerState}

variable (params frontiers genesis state) in
/-- The supply is bounded, and the shielded state is that of the chain. -/
structure SupplyInvariant : Prop where
  store : StoreOf params.toSaplingParams frontiers genesis state.chain state.sapling
  coins : SoundCoins state.coins
  total : utxoTotal state.coins + poolOf state.chain ≤ subsidies params state.chain.length

theorem SupplyInvariant.bounded (hinvariant : SupplyInvariant params frontiers genesis state) :
    SupplyBounded params state := by
  refine ⟨?_, ?_⟩
  · rw [hinvariant.store.pool]
    exact hinvariant.total
  · rw [hinvariant.store.pool]
    exact hinvariant.store.pool_nonneg

theorem supplyInvariant_genesis :
    SupplyInvariant params frontiers genesis LedgerState.genesis :=
  ⟨storeOf_initial, soundCoins_none, by
    rw [LedgerState.genesis, utxoTotal_none]
    exact le_rfl⟩

theorem subsidies_succ (params : LedgerParams) (nHeight : Nat) :
    subsidies params (nHeight + 1) =
      subsidies params nHeight + getBlockSubsidyInner params nHeight := by
  simp [subsidies, range_succ]

theorem connectLedger_eq_ok
    (hconnect : connectLedger params frontiers genesis verifySaplingProofs decodeDestination state
      step = .ok next) :
    ∃ sapling loop undos,
      (∀ tx ∈ step.block.vtx, contextualCheckTransaction params step.fDronePayoutActive
        (state.chain.length + 1) tx = .ok ()) ∧
      processSpecialTxsInBlock params.toSaplingParams frontiers verifySaplingProofs state.sapling
        step.block.toCBlock (state.chain.length + 1) (tipHash genesis state.chain) false =
          (.ok (), sapling) ∧
      connectBlock params.toParams decodeDestination step.checks (state.chain.length + 1)
        step.pGovMan step.block.toCBlock state.coins state.evodb = .ok (loop, undos) ∧
      checkBlockValue params step.block.toCBlock (state.chain.length + 1) loop.nFees = .ok () ∧
      next = ⟨step.block.toCBlock :: state.chain, loop.view, loop.evodb, sapling.commitBlock⟩ := by
  obtain ⟨⟨⟩, hcontext, hconnect⟩ := bind_eq_ok_iff.mp hconnect
  obtain ⟨⟨⟩, hspecial, hconnect⟩ := bind_eq_ok_iff.mp hconnect
  obtain ⟨⟨loop, undos⟩, hblock, hconnect⟩ := bind_eq_ok_iff.mp hconnect
  obtain ⟨⟨⟩, hvalue, hconnect⟩ := bind_eq_ok_iff.mp hconnect
  exact ⟨_, loop, undos, forM_eq_ok_iff.mp hcontext, Prod.ext hspecial rfl, hblock, hvalue,
    (Except.ok.inj hconnect).symm⟩

theorem checkBlockValue_eq_ok {block : CBlock} {coinbase : CTransaction}
    {rest : List CTransaction} {nHeight nFees : Int} (hvtx : block.vtx = coinbase :: rest)
    (hvalue : checkBlockValue params block nHeight nFees = .ok ()) :
    (∀ txout ∈ coinbase.vout, 0 ≤ txout.nValue) ∧
      totalValue coinbase.vout ≤ getBlockSubsidyInner params (nHeight - 1) + nFees := by
  unfold checkBlockValue at hvalue
  rw [hvtx] at hvalue
  dsimp only at hvalue
  split at hvalue
  · rename_i hvalid
    obtain ⟨actual, hactual, hlimit⟩ := Option.map_eq_some_iff.mp hvalid
    obtain ⟨htotal, houts⟩ := CTransaction.getValueOut_eq_some hactual
    refine ⟨houts, ?_⟩
    rw [← htotal]
    exact require_eq_ok_iff.mp hlimit
  · cases hvalue

theorem SupplyInvariant.connect (hinvariant : SupplyInvariant params frontiers genesis state)
    (hassets : WithoutAssets step.block.toCBlock)
    (hcoinbase : ShieldsInCoinbase step.block.toCBlock →
      WithinReward params step.block.toCBlock state)
    (hconnect : connectLedger params frontiers genesis verifySaplingProofs decodeDestination state
      step = .ok next) : SupplyInvariant params frontiers genesis next := by
  obtain ⟨sapling, loop, undos, -, hspecial, hblock, hvalue, rfl⟩ := connectLedger_eq_ok hconnect
  obtain ⟨coinbase, rest, withCoinbase, hvtx, hiscoinbase, hothers, hfirst, htxs⟩ :=
    connectBlock_eq_ok hblock
  obtain ⟨houts, hlimit⟩ := checkBlockValue_eq_ok hvtx hvalue
  have hrest : ∀ tx ∈ rest, tx ∈ step.block.vtx := by
    intro tx htx
    rw [hvtx]
    exact mem_cons_of_mem coinbase htx
  obtain ⟨hcoins, hpaid⟩ := hinvariant.coins.updateCoins houts hfirst
  obtain ⟨hfinal, hloop, hfees⟩ := connectTxs_value hcoins hothers
    (fun tx htx => (hassets tx (hrest tx htx)).2)
    (fun tx htx => step.block.decoded tx (hrest tx htx)) step.block.hash htxs
  have hunspent : withCoinbase.2 = [] := by
    unfold updateCoins at hfirst
    rw [if_pos hiscoinbase] at hfirst
    obtain ⟨added, -, heq⟩ := Option.map_eq_some_iff.mp hfirst
    rw [← heq]
  have hsplit : balanceOf step.block.toCBlock =
      balanceOf ⟨step.block.hash, [coinbase]⟩ + balanceOf ⟨step.block.hash, rest⟩ := by
    rw [← balanceOf_cons, ← hvtx]
  rw [show (state.chain.length : Int) + 1 - 1 = state.chain.length by omega] at hlimit
  dsimp only at hloop hfees
  have hreward : totalValue coinbase.vout - balanceOf ⟨step.block.hash, [coinbase]⟩ ≤
      getBlockSubsidyInner params state.chain.length + loop.nFees := by
    by_cases hshields : balanceOf ⟨step.block.hash, [coinbase]⟩ < 0
    · have hwithin := hcoinbase ⟨coinbase, by rw [hvtx]; rfl, hshields⟩
      unfold WithinReward at hwithin
      rw [hvtx] at hwithin
      have hpays := hwithin withCoinbase hfirst
      omega
    · omega
  refine ⟨hinvariant.store.connect hspecial, hfinal, ?_⟩
  have hbefore := hinvariant.total
  rw [hunspent, coinsValue_nil] at hpaid
  rw [length_cons, subsidies_succ, poolOf_cons]
  dsimp only
  omega

theorem checkTxInputs_fee_nonneg {tx : CTransaction} {inputs : CCoinsView}
    {nSpendHeight txfee : Int} (hcheck : checkTxInputs tx inputs nSpendHeight = .ok txfee) :
    0 ≤ txfee := by
  by_cases hunlock : (tx.isSpecialTxVersion && tx.nType == .assetUnlock) = true
  · rw [checkTxInputs, if_pos hunlock] at hcheck
    unfold getAssetUnlockFee at hcheck
    split at hcheck
    · cases hcheck
    · split at hcheck
      · cases hcheck
      · rename_i hrange
        simp only [Except.ok.injEq] at hcheck
        simp only [Bool.or_eq_true, not_or, Bool.not_eq_true', Bool.not_eq_false] at hrange
        rw [← hcheck]
        exact (moneyRange_iff.mp hrange.2).1
  · obtain ⟨-, -, -, hfee, -⟩ := checkTxInputs_value (by simpa using hunlock) hcheck
    exact hfee

theorem supplyInvariant_ledgerStep (hinvariant : SupplyInvariant params frontiers genesis state)
    (hassets : WithoutAssets step.block.toCBlock)
    (hcoinbase : ∀ next, connectLedger params frontiers genesis verifySaplingProofs
      decodeDestination state step = .ok next → ShieldsInCoinbase step.block.toCBlock →
        WithinReward params step.block.toCBlock state) :
    SupplyInvariant params frontiers genesis
      (ledgerStep params frontiers genesis verifySaplingProofs decodeDestination state step) := by
  unfold ledgerStep
  cases hconnect : connectLedger params frontiers genesis verifySaplingProofs decodeDestination
      state step with
  | error reason => exact hinvariant
  | ok next => exact hinvariant.connect hassets (hcoinbase next hconnect) hconnect

/-- Along every chain of blocks without asset locks and unlocks whose coinbases, where they shield
anything, pay and shield at most the subsidy and the fees, the coins and the shielded pool together
are at most the subsidies, the pool is not negative, and neither is the fee of any transaction. -/
theorem supply_bounded (params : LedgerParams) (frontiers : FrontierFunctions Frontier)
    (genesis : Uint256) (verifySaplingProofs : ProofVerdict)
    (decodeDestination : String → Option Script) (steps : List ConnectStep)
    (hguarded : Guarded
      (ledgerStep params frontiers genesis verifySaplingProofs decodeDestination)
      (fun state step => WithoutAssets step.block.toCBlock ∧
        (ShieldsInCoinbase step.block.toCBlock →
          WithinReward params step.block.toCBlock state)) LedgerState.genesis steps) :
    Always (ledgerStep params frontiers genesis verifySaplingProofs decodeDestination)
        (SupplyBounded params) LedgerState.genesis steps ∧
      ∀ tx inputs nSpendHeight txfee, checkTxInputs tx inputs nSpendHeight = .ok txfee →
        0 ≤ txfee := by
  refine ⟨?_, fun _ _ _ _ => checkTxInputs_fee_nonneg⟩
  have hinvariant : Always
      (ledgerStep params frontiers genesis verifySaplingProofs decodeDestination)
      (SupplyInvariant params frontiers genesis) LedgerState.genesis steps :=
    always_of_guarded (fun _ _ hstate hstep =>
      supplyInvariant_ledgerStep hstate hstep.1 (fun _ _ => hstep.2)) supplyInvariant_genesis
      hguarded
  intro visited hvisited
  exact (hinvariant visited hvisited).bounded

/-- Where the type of the coinbase is fixed before the pool is active, no accepted coinbase
shields anything. -/
theorem not_shieldsInCoinbase (hheights : params.DIP0003Height ≤ params.SaplingHeight)
    (hconnect : connectLedger params frontiers genesis verifySaplingProofs decodeDestination state
      step = .ok next) : ¬ ShieldsInCoinbase step.block.toCBlock := by
  obtain ⟨sapling, loop, undos, hcontext, hspecial, hblock, -, -⟩ := connectLedger_eq_ok hconnect
  obtain ⟨coinbase, rest, -, hvtx, hiscoinbase, -, -, -⟩ := connectBlock_eq_ok hblock
  rintro ⟨found, hfound, hnegative⟩
  have hsame : found = coinbase := by
    rw [hvtx, head?_cons] at hfound
    exact (Option.some.inj hfound).symm
  rw [hsame] at hnegative
  have hpayload : ∃ payload, payload ∈ payloadsOf ⟨step.block.hash, [coinbase]⟩ := by
    by_contra hnone
    rw [balanceOf_eq_zero (eq_nil_iff_forall_not_mem.mpr (not_exists.mp hnone))] at hnegative
    exact lt_irrefl 0 hnegative
  obtain ⟨payload, hpayload⟩ := hpayload
  have hactive : params.IsSaplingActive (state.chain.length + 1) := by
    have hcheck := (processSpecialTxsInBlock_eq_ok hspecial).1
    refine (checkSpecialTxs_payloads hcheck payload ?_).1
    have hblockVtx : step.block.toCBlock = ⟨step.block.hash, coinbase :: rest⟩ := by
      rw [← hvtx]
    rw [hblockVtx, payloadsOf_cons]
    exact mem_append_left _ hpayload
  obtain ⟨tx, htx, hsome⟩ := mem_filterMap.mp hpayload
  obtain rfl := mem_singleton.mp htx
  by_cases htype : tx.nType = .sapling
  · rw [if_pos htype] at hsome
    have hversion : tx.isSpecialTxVersion = true := by
      by_contra hplain
      simp [saplingPayloadOf, hasExtraPayloadField, hplain] at hsome
    have hchecked := hcontext tx (by rw [hvtx]; exact mem_cons_self)
    unfold contextualCheckTransaction at hchecked
    rw [if_pos (le_trans hheights hactive), if_pos hversion] at hchecked
    obtain ⟨-, -, hcbtype⟩ := bind_eq_ok_iff.mp hchecked
    have hcoinbase := require_eq_ok_iff.mp hcbtype hiscoinbase
    rw [htype] at hcoinbase
    cases hcoinbase
  · rw [if_neg htype] at hsome
    cases hsome

theorem supplyInvariant_of_heights (hheights : params.DIP0003Height ≤ params.SaplingHeight)
    {steps : List ConnectStep} (hassets : ∀ step ∈ steps, WithoutAssets step.block.toCBlock) :
    Always (ledgerStep params frontiers genesis verifySaplingProofs decodeDestination)
      (SupplyInvariant params frontiers genesis) LedgerState.genesis steps := by
  have hguarded : Guarded
      (ledgerStep params frontiers genesis verifySaplingProofs decodeDestination)
      (fun _ step => WithoutAssets step.block.toCBlock) LedgerState.genesis steps :=
    guarded_of_forall (fun step hstep _ => hassets step hstep) _
  exact always_of_guarded (fun _ _ hstate hstep =>
    supplyInvariant_ledgerStep hstate hstep
      (fun _ hconnect hshields => absurd hshields (not_shieldsInCoinbase hheights hconnect)))
    supplyInvariant_genesis hguarded

namespace Sample

/-- The height at which coinbases get their type comes after that of the pool. -/
def supplyParams : LedgerParams :=
  { SaplingHeight := 0, DIP0003Height := 432, growthEscrowScript := [1] }

/-- A coinbase with the three required outputs, which leave ten coins to the miner. -/
def minerTx (nType : TxType) (payload : Option SaplingTxPayload) : CTransaction :=
  { hash := 21, nVersion := 3, nType := nType, vin := [⟨⟨0, COutPoint.nullIndex⟩⟩]
    vout := [⟨10 * coinValue, [1]⟩, ⟨375000000, [2]⟩, ⟨125000000, [3]⟩], saplingPayload := payload }

def connectOf (vtx : List CTransaction)
    (decoded : ∀ tx ∈ vtx, tx.saplingPayload.isSome → hasExtraPayloadField tx = true) :
    ConnectStep :=
  ⟨⟨⟨11, vtx⟩, decoded⟩, Escrow.Sample.passing, none, false⟩

def shieldingTx (coins : Int) : CTransaction :=
  minerTx .sapling (some { valueBalance := -(coins * coinValue), vOutputDescriptions := [⟨7⟩] })

def shieldingStep (coins : Int) : ConnectStep :=
  connectOf [shieldingTx coins] (fun tx htx _ => by rw [mem_singleton.mp htx]; rfl)

def shielded (coins : Int) : LedgerState :=
  run (ledgerStep supplyParams counting 1 provesAll (fun _ => none)) .genesis [shieldingStep coins]

end Sample

open Sample

/-- A coinbase may move into the pool what is left to its miner. -/
theorem supply_bounded_shielding :
    ShieldsInCoinbase (shieldingStep 10).block.toCBlock ∧
      (shielded 10).chain.length = 1 ∧
      SupplyBounded supplyParams (shielded 10) := by
  have hassets : WithoutAssets (shieldingStep 10).block.toCBlock := by
    unfold WithoutAssets
    decide
  have hreward : WithinReward supplyParams (shieldingStep 10).block.toCBlock .genesis := by
    rintro next -
    rw [feesOf]
    decide
  refine ⟨by unfold ShieldsInCoinbase; decide, by decide +kernel, ?_⟩
  exact (supply_bounded supplyParams counting 1 provesAll (fun _ => none) [shieldingStep 10]
    ⟨⟨hassets, fun _ => hreward⟩, trivial⟩).1.final

/-- A coinbase that pays what is required and moves eleven coins into the pool. -/
theorem shielding_coinbase_inflates :
    let paid := { supplyParams.toParams with
      devFundPaymentScript := [2], foundersPaymentScript := [3] }
    Masternode.isTransactionValid paid ⟨1, false, .empty 0 0, ⟨0, []⟩, false, false⟩
        (shieldingTx 11) (getBlockSubsidyInner supplyParams 0) 0 = some true ∧
      WithoutAssets (shieldingStep 11).block.toCBlock ∧
      ¬ SupplyBounded supplyParams (shielded 11) := by
  refine ⟨by decide, by unfold WithoutAssets; decide, ?_⟩
  intro hbounded
  have hcoins : (shielded 11).coins =
      Function.update (Function.update (Function.update (fun _ => none)
        ⟨21, 0⟩ (some ⟨⟨10 * coinValue, [1]⟩, 1, true⟩))
        ⟨21, 1⟩ (some ⟨⟨375000000, [2]⟩, 1, true⟩))
        ⟨21, 2⟩ (some ⟨⟨125000000, [3]⟩, 1, true⟩) := by
    rfl
  have hpool : (shielded 11).sapling.nSaplingValuePool = 11 * coinValue := by
    decide +kernel
  have hsubsidies : subsidies supplyParams (shielded 11).chain.length = 25 * coinValue := by
    decide +kernel
  have htotal := hbounded.total
  have hnone := soundCoins_none.finite
  have hfirst := finite_valueAt_update hnone ⟨21, 0⟩
  rw [hcoins, hpool, hsubsidies, utxoTotal_update (finite_valueAt_update (hfirst _) _ _),
    utxoTotal_update (hfirst _), utxoTotal_update hnone, utxoTotal_none] at htotal
  revert htotal
  decide

end Kerrigan.Validation
