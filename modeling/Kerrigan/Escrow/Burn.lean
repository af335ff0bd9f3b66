import Kerrigan.Validation.CoinOrigin
import Kerrigan.Validation.Supply

/-!
# Keyless burns of the escrow

A pure burn of escrow coins needs no signature and no proposal.
-/

namespace Kerrigan.Escrow

open Primitives Consensus Lib CCoinsView List
open Validation (EveryCoin EveryOutput EveryBlockUndo spendInputs_zip valueAt utxoTotal
  utxoTotal_spendInputs)

/-! ## Overwritten outpoints -/

/-- The rule that no transaction of a block may create an outpoint that is still unspent. -/
def checkBIP30 (block : CBlock) (view : CCoinsView) : Option String :=
  if block.vtx.any (fun tx => (range tx.vout.length).any (fun o => view.haveCoin ⟨tx.hash, o⟩))
  then some "bad-txns-BIP30"
  else none

/-- The block from which the rule need not be checked; no network sets its hash. -/
structure BIP34Params where
  BIP34Height : Nat := 1
  BIP34Hash : Uint256 := 0
  hashGenesisBlock : Uint256

def ancestorHash (genesis : Uint256) (chain : List ChainEntry) (height : Nat) : Option Uint256 :=
  (genesis :: (chain.map (fun entry => entry.block.hash)).reverse)[height]?

def BIP34Params.enforceBIP30 (bip34 : BIP34Params) (chain : List ChainEntry) : Bool :=
  match ancestorHash bip34.hashGenesisBlock chain bip34.BIP34Height with
  | none => true
  | some hash => decide (hash ≠ bip34.BIP34Hash)

theorem enforceBIP30_of_ne {bip34 : BIP34Params} {chain : List ChainEntry}
    (hancestor : ancestorHash bip34.hashGenesisBlock chain bip34.BIP34Height ≠
      some bip34.BIP34Hash) : bip34.enforceBIP30 chain = true := by
  unfold BIP34Params.enforceBIP30
  cases hhash : ancestorHash bip34.hashGenesisBlock chain bip34.BIP34Height with
  | none => rfl
  | some hash =>
    rw [hhash] at hancestor
    exact decide_eq_true (fun hsame => hancestor (congrArg some hsame))

/-- The checks of `ConnectBlock` with the rule among the early ones. -/
def BIP34Params.withBIP30 (bip34 : BIP34Params) (chain : List ChainEntry) (checks : OtherChecks) :
    OtherChecks :=
  { checks with
    early := fun block nHeight view =>
      (if bip34.enforceBIP30 chain then checkBIP30 block view else none).orElse
        (fun _ => checks.early block nHeight view) }

/-! ## Rounds of the transaction loop -/

structure Round where
  before : TxLoop
  tx : CTransaction
  after : TxLoop
  undo : CTxUndo

section Rounds

variable (params : Params) (decodeDestination : String → Option Script) (checks : OtherChecks)
  (nHeight : Int) (pGovMan : Option GovernanceStore)

def connectRounds (loop : TxLoop) : List CTransaction → List Round
  | [] => []
  | tx :: rest =>
      match connectTx params decodeDestination checks nHeight pGovMan loop tx with
      | .error _ => []
      | .ok (next, undo) => ⟨loop, tx, next, undo⟩ :: connectRounds next rest

def blockRounds (block : CBlock) (view : CCoinsView) (evodb : CEvoDB) : List Round :=
  match block.vtx with
  | [] => []
  | coinbase :: rest =>
      match view.updateCoins coinbase nHeight with
      | none => []
      | some (withCoinbase, _) =>
          connectRounds params decodeDestination checks nHeight pGovMan ⟨withCoinbase, evodb, 0⟩ rest

variable {params decodeDestination checks nHeight pGovMan}

theorem connectTx_of_mem_connectRounds {loop : TxLoop} {txs : List CTransaction} {round : Round}
    (hround : round ∈ connectRounds params decodeDestination checks nHeight pGovMan loop txs) :
    round.tx ∈ txs ∧ connectTx params decodeDestination checks nHeight pGovMan round.before
      round.tx = .ok (round.after, round.undo) := by
  induction txs generalizing loop with
  | nil => cases hround
  | cons tx rest ih =>
    simp only [connectRounds] at hround
    split at hround
    · cases hround
    · rename_i next undo hconnect
      rcases mem_cons.mp hround with rfl | hlater
      · exact ⟨mem_cons_self, hconnect⟩
      · obtain ⟨hmem, hok⟩ := ih hlater
        exact ⟨mem_cons_of_mem tx hmem, hok⟩

theorem connectRounds_eq {loop final : TxLoop} {txs : List CTransaction} {undos : CBlockUndo}
    (hconnect : connectTxs params decodeDestination checks nHeight pGovMan loop txs =
      .ok (final, undos)) :
    (connectRounds params decodeDestination checks nHeight pGovMan loop txs).map Round.tx = txs ∧
      (connectRounds params decodeDestination checks nHeight pGovMan loop txs).map Round.undo =
        undos := by
  induction txs generalizing loop undos with
  | nil =>
    simp only [connectTxs, Except.ok.injEq, Prod.mk.injEq] at hconnect
    exact ⟨rfl, hconnect.2⟩
  | cons tx rest ih =>
    obtain ⟨⟨next, undo⟩, hfirst, hrest⟩ := bind_eq_ok_iff.mp hconnect
    obtain ⟨⟨last, later⟩, htxs, hdone⟩ := bind_eq_ok_iff.mp hrest
    obtain ⟨rfl, rfl⟩ := hdone
    obtain ⟨hsame, hundos⟩ := ih htxs
    simp only [connectRounds, hfirst, map_cons, hsame, hundos]
    exact ⟨trivial, trivial⟩

theorem exists_round_of_leaves {loop final : TxLoop} {txs : List CTransaction}
    {undos : CBlockUndo} {outpoint : COutPoint} {coin : Coin}
    (hconnect : connectTxs params decodeDestination checks nHeight pGovMan loop txs =
      .ok (final, undos))
    (hcoin : loop.view outpoint = some coin) (hleaves : final.view outpoint ≠ some coin) :
    ∃ round ∈ connectRounds params decodeDestination checks nHeight pGovMan loop txs,
      round.before.view outpoint = some coin ∧ round.after.view outpoint ≠ some coin := by
  induction txs generalizing loop undos with
  | nil =>
    simp only [connectTxs, Except.ok.injEq, Prod.mk.injEq] at hconnect
    rw [← hconnect.1] at hleaves
    exact absurd hcoin hleaves
  | cons tx rest ih =>
    obtain ⟨⟨next, undo⟩, hfirst, hrest⟩ := bind_eq_ok_iff.mp hconnect
    obtain ⟨⟨last, later⟩, htxs, hdone⟩ := bind_eq_ok_iff.mp hrest
    obtain ⟨rfl, rfl⟩ := hdone
    simp only [connectRounds, hfirst]
    by_cases hstays : next.view outpoint = some coin
    · obtain ⟨round, hround, htaken⟩ := ih htxs hstays
      exact ⟨round, mem_cons_of_mem _ hround, htaken⟩
    · exact ⟨_, mem_cons_self, hcoin, hstays⟩

/-! ## What a burn is -/

theorem sumEscrowInputs_eq_some {params : Params} {view : CCoinsView} {inSum total : Int}
    {vin : List CTxIn} (hsum : sumEscrowInputs params view inSum vin = some total) :
    (∀ txin ∈ vin, ∃ coin, view txin.prevout = some coin ∧
      params.isGrowthEscrowScript coin.out.scriptPubKey = true) ∧
      total = inSum + coinsValue (vin.filterMap (fun txin => view txin.prevout)) := by
  induction vin generalizing inSum with
  | nil =>
    obtain rfl := Option.some.inj hsum
    exact ⟨fun txin htxin => absurd htxin not_mem_nil, by simp [coinsValue]⟩
  | cons txin rest ih =>
    simp only [sumEscrowInputs] at hsum
    cases hcoin : view txin.prevout with
    | none => simp [hcoin] at hsum
    | some coin =>
      simp only [hcoin] at hsum
      split at hsum
      · cases hsum
      · rename_i hescrow
        split at hsum
        · cases hsum
        · obtain ⟨hrest, htotal⟩ := ih hsum
          refine ⟨forall_mem_cons.mpr ⟨⟨coin, hcoin, by simpa using hescrow⟩, hrest⟩, ?_⟩
          rw [filterMap_cons, hcoin, coinsValue_cons, htotal, Int.add_assoc]

theorem sumBurnOutputs_eq_some {outSum total : Int} {vout : List CTxOut}
    (hsum : sumBurnOutputs outSum vout = some total) :
    (∀ txout ∈ vout, isUnspendable txout.scriptPubKey = true) ∧
      total = outSum + totalValue vout := by
  induction vout generalizing outSum with
  | nil =>
    obtain rfl := Option.some.inj hsum
    exact ⟨fun txout htxout => absurd htxout not_mem_nil, by simp [totalValue]⟩
  | cons txout rest ih =>
    simp only [sumBurnOutputs] at hsum
    split at hsum
    · cases hsum
    · rename_i hreturn
      split at hsum
      · cases hsum
      · split at hsum
        · cases hsum
        · obtain ⟨hrest, htotal⟩ := ih hsum
          refine ⟨forall_mem_cons.mpr ⟨?_, hrest⟩, ?_⟩
          · simp [isUnspendable, not_not.mp hreturn]
          · rw [totalValue_cons, htotal, Int.add_assoc]

/-- A pure burn is a plain transaction of escrow inputs and unspendable outputs of the same
value. -/
theorem isPureEscrowBurn_eq_true {params : Params} {view : CCoinsView} {tx : CTransaction}
    (hburn : isPureEscrowBurn params view tx = true) :
    tx.isCoinBase = false ∧ tx.nType = .normal ∧
      (∀ txin ∈ tx.vin, ∃ coin, view txin.prevout = some coin ∧
        params.isGrowthEscrowScript coin.out.scriptPubKey = true) ∧
      (∀ txout ∈ tx.vout, isUnspendable txout.scriptPubKey = true) ∧
      coinsValue (view.inputCoins tx) = totalValue tx.vout := by
  unfold isPureEscrowBurn at hburn
  split at hburn
  · cases hburn
  · rename_i hcoinbase
    split at hburn
    · cases hburn
    · split at hburn
      · cases hburn
      · rename_i htype
        split at hburn
        · rename_i inSum outSum hin hout
          obtain ⟨hescrow, hinputs⟩ := sumEscrowInputs_eq_some hin
          obtain ⟨hunspendable, houtputs⟩ := sumBurnOutputs_eq_some hout
          have hequal : inSum = outSum := by simpa using hburn
          refine ⟨by simpa using hcoinbase, not_not.mp htype, hescrow, hunspendable, ?_⟩
          rw [inputCoins]
          omega
        · cases hburn

/-- What a burn does to the coins and to the fees. -/
structure Destroys (params : Params) (round : Round) : Prop where
  inputs : ∀ coin ∈ round.undo, params.isGrowthEscrowScript coin.out.scriptPubKey = true
  coins : ∀ outpoint coin, round.after.view outpoint = some coin →
    round.before.view outpoint = some coin
  fees : round.after.nFees = round.before.nFees
  total : utxoTotal round.after.view = utxoTotal round.before.view - coinsValue round.undo

variable {round : Round}

theorem destroys_of_isEscrowBurn (hfinite : (Function.support (valueAt round.before.view)).Finite)
    (hburn : isEscrowBurn params nHeight round.before.view round.tx = true)
    (hconnect : connectTx params decodeDestination checks nHeight pGovMan round.before round.tx =
      .ok (round.after, round.undo)) : Destroys params round := by
  have hpure : isPureEscrowBurn params round.before.view round.tx = true := by
    exact (Bool.and_eq_true_iff.mp hburn).2
  obtain ⟨hcoinbase, htype, hescrow, hunspendable, hvalue⟩ := isPureEscrowBurn_eq_true hpure
  obtain ⟨txfee, hcheck, -, -, -, hupdate, hfees⟩ := connectTx_eq_ok_iff.mp hconnect
  obtain ⟨spent, hspend, hadd⟩ := updateCoins_spend hcoinbase hupdate
  have hafter : round.after.view = spent := by
    rw [addCoins, addCoinsFrom_of_unspendable hunspendable] at hadd
    exact (Option.some.inj hadd).symm
  have hfee : txfee = 0 := by
    have hplain : (round.tx.isSpecialTxVersion && round.tx.nType == .assetUnlock) = false := by
      simp [htype]
    obtain ⟨balance, hbalance, hequation, -, -⟩ := checkTxInputs_value hplain hcheck
    have hzero : balance = 0 := by
      simp only [saplingValueBalance, htype] at hbalance
      exact (Except.ok.inj hbalance).symm
    omega
  refine ⟨?_, ?_, ?_, ?_⟩
  · intro coin hcoin
    rw [spendInputs_undo hspend] at hcoin
    obtain ⟨txin, htxin, hfound⟩ := mem_filterMap.mp hcoin
    obtain ⟨other, hother, hscript⟩ := hescrow txin htxin
    rw [hfound] at hother
    rw [Option.some.inj hother]
    exact hscript
  · intro outpoint coin hcoin
    rw [hafter, spendInputs_apply hspend] at hcoin
    split at hcoin
    · cases hcoin
    · exact hcoin
  · rw [hfees, hfee, Int.add_zero]
  · rw [hafter]
    exact (utxoTotal_spendInputs hfinite hspend).2

theorem burn_or_release_of_leaves {outpoint : COutPoint} {coin : Coin}
    (hcoinbase : round.tx.isCoinBase = false)
    (hconnect : connectTx params decodeDestination checks nHeight pGovMan round.before round.tx =
      .ok (round.after, round.undo))
    (hcoin : round.before.view outpoint = some coin)
    (hescrow : params.isGrowthEscrowScript coin.out.scriptPubKey = true)
    (hleaves : round.after.view outpoint ≠ some coin) :
    isEscrowBurn params nHeight round.before.view round.tx = true ∨
      ∃ escrowScript, checkGovernanceEscrowSpend decodeDestination round.tx escrowScript nHeight
        params.nEscrowUnlockHeight round.before.evodb pGovMan = .ok round.after.evodb := by
  obtain ⟨txfee, -, -, hgate, -, hupdate, -⟩ := connectTx_eq_ok_iff.mp hconnect
  obtain ⟨spent, hspend, hadd⟩ := updateCoins_spend hcoinbase hupdate
  have hinput : outpoint ∈ round.tx.vin.map CTxIn.prevout := by
    by_contra hother
    have hstays : spent outpoint = some coin := by
      rw [spendInputs_apply hspend, if_neg hother]
      exact hcoin
    rw [addCoins, hcoinbase] at hadd
    exact hleaves (addCoinsFrom_keeps hadd hstays)
  obtain ⟨txin, htxin, hprevout⟩ := mem_map.mp hinput
  have hmatched : matchedEscrowScript params round.before.view round.tx ≠ none := by
    rw [matchedEscrowScript, Ne, findSome?_eq_none_iff]
    intro hnone
    have hfound := hnone txin htxin
    rw [hprevout, hcoin] at hfound
    simp [hescrow] at hfound
  unfold escrowGate at hgate
  split at hgate
  · rename_i hnone
    exact absurd hnone hmatched
  · rename_i escrowScript _
    split at hgate
    · rename_i hburn
      exact Or.inl hburn
    · exact Or.inr ⟨escrowScript, hgate⟩

/-! ## Finitely many coins -/

def FiniteCoins (view : CCoinsView) : Prop := {outpoint | view outpoint ≠ none}.Finite

/-- The outpoints that the transactions create or spend. -/
def touched (txs : List CTransaction) : List COutPoint :=
  txs.flatMap (fun tx => tx.vin.map CTxIn.prevout ++
    (range tx.vout.length).map (fun n => ⟨tx.hash, n⟩))

def KnownOutpoint (view : CCoinsView) (txs : List CTransaction) (outpoint : COutPoint)
    (_ : CTxOut) : Prop :=
  view outpoint ≠ none ∨ outpoint ∈ touched txs

section Finite

variable {view : CCoinsView} {txs : List CTransaction}

theorem everyCoin_known : EveryCoin (KnownOutpoint view txs) view := by
  intro outpoint coin hcoin
  left
  rw [hcoin]
  exact Option.some_ne_none coin

theorem everyOutput_known {tx : CTransaction} (htx : tx ∈ txs) :
    EveryOutput (KnownOutpoint view txs) tx := by
  intro n txout hout
  refine Or.inr (mem_flatMap.mpr ⟨tx, htx, mem_append_right _ ?_⟩)
  exact List.mem_map.mpr ⟨n, List.mem_range.mpr (List.getElem?_eq_some_iff.mp hout).1, rfl⟩

theorem everyBlockUndo_known {block : CBlock} (blockUndo : CBlockUndo) :
    EveryBlockUndo (KnownOutpoint view block.vtx) block blockUndo := by
  intro pair hpair spent hspent
  refine Or.inr (mem_flatMap.mpr ⟨pair.1, ?_, mem_append_left _ ?_⟩)
  · exact mem_of_mem_tail (of_mem_zip hpair).1
  · exact mem_map_of_mem (of_mem_zip hspent).1

theorem FiniteCoins.of_known (hfinite : FiniteCoins view) {final : CCoinsView}
    (hfinal : EveryCoin (KnownOutpoint view txs) final) : FiniteCoins final := by
  refine (hfinite.union (touched txs).toFinset.finite_toSet).subset ?_
  intro outpoint hunspent
  obtain ⟨coin, hcoin⟩ := Option.ne_none_iff_exists'.mp hunspent
  rcases hfinal outpoint coin hcoin with hbefore | htouched
  · exact Or.inl hbefore
  · exact Or.inr (mem_toFinset.mpr htouched)

theorem FiniteCoins.support (hfinite : FiniteCoins view) :
    (Function.support (valueAt view)).Finite := by
  refine hfinite.subset ?_
  intro outpoint hvalue hnone
  refine hvalue ?_
  rw [valueAt, hnone, Option.elim_none]

end Finite

theorem finiteCoins_step {params : Params} {decodeDestination : String → Option Script}
    {state : ChainState} (hstate : FiniteCoins state.coins) (step : ChainStep) :
    FiniteCoins (chainStep params decodeDestination state step).coins := by
  cases step with
  | connect block checks pGovMan =>
    unfold chainStep
    dsimp only
    cases hconnect : connectBlock params decodeDestination checks state.nextHeight pGovMan block
        state.coins state.evodb with
    | error reason => exact hstate
    | ok result =>
      exact hstate.of_known (everyCoin_known.connectBlock
        (fun tx htx => everyOutput_known htx) hconnect).1
  | disconnect acceptUnclean =>
    unfold chainStep
    dsimp only
    cases htip : disconnectTip state acceptUnclean with
    | none => exact hstate
    | some next =>
      obtain ⟨tip, rest, loop, hchain, hloop, rfl⟩ := disconnectTip_eq_some htip
      exact hstate.of_known
        (everyCoin_known.disconnectBlock (everyBlockUndo_known tip.blockUndo) hloop)
  | rollforward block blockUndo =>
    unfold chainStep
    dsimp only
    cases hroll : rollforwardBlock state.nextHeight state.coins block.vtx with
    | none => exact hstate
    | some coins =>
      exact hstate.of_known (everyCoin_known.rollforwardBlock
        (fun tx htx => everyOutput_known htx) hroll)

/-! ## Accepted blocks -/

/-- In the rounds of a block, burns only destroy escrow coins, and every escrow coin that the
block takes away leaves in a round that is a burn or an accepted release. -/
structure KeepsEscrow (params : Params) (decodeDestination : String → Option Script)
    (nHeight : Int) (pGovMan : Option GovernanceStore) (block : CBlock) (view : CCoinsView)
    (loop : TxLoop) (rounds : List Round) : Prop where
  transactions : rounds.map Round.tx = block.vtx.tail
  burns : ∀ round ∈ rounds, isEscrowBurn params nHeight round.before.view round.tx = true →
    Destroys params round
  leaves : ∀ outpoint coin, view outpoint = some coin →
    params.isGrowthEscrowScript coin.out.scriptPubKey = true → loop.view outpoint ≠ some coin →
    ∃ round ∈ rounds, round.before.view outpoint = some coin ∧
      round.after.view outpoint ≠ some coin
  rounds : ∀ round ∈ rounds, ∀ outpoint coin, round.before.view outpoint = some coin →
    params.isGrowthEscrowScript coin.out.scriptPubKey = true →
    round.after.view outpoint ≠ some coin →
    isEscrowBurn params nHeight round.before.view round.tx = true ∨
      ∃ escrowScript, checkGovernanceEscrowSpend decodeDestination round.tx escrowScript nHeight
        params.nEscrowUnlockHeight round.before.evodb pGovMan = .ok round.after.evodb

theorem everyCoin_before {property : COutPoint → CTxOut → Prop} {loop : TxLoop}
    {txs : List CTransaction} {round : Round} (hloop : EveryCoin property loop.view)
    (houts : ∀ tx ∈ txs, EveryOutput property tx)
    (hround : round ∈ connectRounds params decodeDestination checks nHeight pGovMan loop txs) :
    EveryCoin property round.before.view := by
  induction txs generalizing loop with
  | nil => cases hround
  | cons tx rest ih =>
    rw [forall_mem_cons] at houts
    simp only [connectRounds] at hround
    split at hround
    · cases hround
    · rename_i next undo hconnect
      rcases mem_cons.mp hround with rfl | hlater
      · exact hloop
      · exact ih (EveryCoin.connectTx hloop houts.1 hconnect).1 houts.2 hlater

theorem checkBIP30_eq_none {block : CBlock} {view : CCoinsView}
    (hcheck : checkBIP30 block view = none) {tx : CTransaction} (htx : tx ∈ block.vtx) {n : Nat}
    (hn : n < tx.vout.length) : view ⟨tx.hash, n⟩ = none := by
  unfold checkBIP30 at hcheck
  split at hcheck
  · cases hcheck
  · rename_i hfresh
    by_contra hunspent
    refine hfresh (any_eq_true.mpr ⟨tx, htx, ?_⟩)
    refine any_eq_true.mpr ⟨n, mem_range.mpr hn, ?_⟩
    exact Option.isSome_iff_ne_none.mpr hunspent

theorem keepsEscrow_connectBlock {bip34 : BIP34Params} {chain : List ChainEntry} {block : CBlock}
    {view : CCoinsView} {evodb : CEvoDB} {loop : TxLoop} {undos : CBlockUndo}
    (hfinite : FiniteCoins view) (henforce : bip34.enforceBIP30 chain = true)
    (hconnect : connectBlock params decodeDestination (bip34.withBIP30 chain checks) nHeight pGovMan
      block view evodb = .ok (loop, undos)) :
    KeepsEscrow params decodeDestination nHeight pGovMan block view loop
      (blockRounds params decodeDestination (bip34.withBIP30 chain checks) nHeight pGovMan block
        view evodb) := by
  have hearly := connectBlock_early hconnect
  have hbip30 : checkBIP30 block view = none := by
    have hfirst := ((Option.orElse_eq_none _ _).mp hearly).1
    rwa [if_pos henforce] at hfirst
  obtain ⟨coinbase, rest, withCoinbase, hvtx, hiscoinbase, hothers, hupdate, htxs⟩ :=
    connectBlock_eq_ok hconnect
  have hrounds : blockRounds params decodeDestination (bip34.withBIP30 chain checks) nHeight pGovMan
      block view evodb = connectRounds params decodeDestination (bip34.withBIP30 chain checks)
        nHeight pGovMan ⟨withCoinbase.1, evodb, 0⟩ rest := by
    simp only [blockRounds, hvtx, hupdate]
  have hkept : ∀ outpoint coin, view outpoint = some coin →
      withCoinbase.1 outpoint = some coin := by
    intro outpoint coin hcoin
    rw [updateCoins, if_pos hiscoinbase] at hupdate
    obtain ⟨added, hadd, heq⟩ := Option.map_eq_some_iff.mp hupdate
    have hfresh : ∀ n < coinbase.vout.length, outpoint ≠ ⟨coinbase.hash, 0 + n⟩ := by
      rintro n hn rfl
      rw [Nat.zero_add, checkBIP30_eq_none hbip30 (by rw [hvtx]; exact mem_cons_self) hn]
        at hcoin
      cases hcoin
    rw [← heq]
    exact (addCoinsFrom_of_ne hadd hfresh).trans hcoin
  rw [hrounds]
  refine ⟨?_, ?_, ?_, ?_⟩
  · rw [hvtx, tail_cons]
    exact (connectRounds_eq htxs).1
  · intro round hround hburn
    obtain ⟨-, hok⟩ := connectTx_of_mem_connectRounds hround
    have hstart : EveryCoin (KnownOutpoint view block.vtx) withCoinbase.1 := by
      refine (everyCoin_known.updateCoins (everyOutput_known ?_) hupdate).1
      rw [hvtx]
      exact mem_cons_self
    have hbefore : EveryCoin (KnownOutpoint view block.vtx) round.before.view := by
      refine everyCoin_before hstart ?_ hround
      intro tx htx
      refine everyOutput_known ?_
      rw [hvtx]
      exact mem_cons_of_mem coinbase htx
    exact destroys_of_isEscrowBurn (hfinite.of_known hbefore).support hburn hok
  · intro outpoint coin hcoin _ hleaves
    exact exists_round_of_leaves htxs (hkept outpoint coin hcoin) hleaves
  · intro round hround outpoint coin hcoin hescrow hleaves
    obtain ⟨hmem, hok⟩ := connectTx_of_mem_connectRounds hround
    exact burn_or_release_of_leaves (hothers round.tx hmem) hok hcoin hescrow hleaves

end Rounds

/-- Over every run of the node: where the block at the height of BIP34 does not have the hash that
lifts the rule against overwritten outpoints, every block that the node accepts burns escrow coins
only by destroying them, and takes away no escrow coin other than by a burn or an accepted
release. -/
theorem burns_only_destroy (params : Params) (decodeDestination : String → Option Script)
    (bip34 : BIP34Params) (steps : List ChainStep) :
    Always (chainStep params decodeDestination)
      (fun state => ∀ block checks pGovMan loop undos,
        ancestorHash bip34.hashGenesisBlock state.activeChain bip34.BIP34Height ≠
          some bip34.BIP34Hash →
        connectBlock params decodeDestination (bip34.withBIP30 state.activeChain checks)
          state.nextHeight pGovMan block state.coins state.evodb = .ok (loop, undos) →
        KeepsEscrow params decodeDestination state.nextHeight pGovMan block state.coins loop
          (blockRounds params decodeDestination (bip34.withBIP30 state.activeChain checks)
            state.nextHeight pGovMan block state.coins state.evodb))
      ChainState.genesis steps := by
  have hstep : ∀ state step, FiniteCoins state.coins →
      FiniteCoins (chainStep params decodeDestination state step).coins :=
    fun _ step hstate => finiteCoins_step hstate step
  have hgenesis : FiniteCoins ChainState.genesis.coins := by
    refine Set.finite_empty.subset ?_
    intro outpoint hunspent
    exact hunspent rfl
  have hfinite := always_of_preserved hstep hgenesis steps
  intro visited hvisited block checks pGovMan loop undos hancestor hconnect
  exact keepsEscrow_connectBlock (hfinite visited hvisited) (enforceBIP30_of_ne hancestor) hconnect

namespace Sample

def burnParams : Params := { params with nEscrowBurnHeight := 2 }

def bip34 : BIP34Params where
  hashGenesisBlock := 50

def fundEscrow : CTransaction :=
  { hash := 11, nVersion := 3, nType := .sapling, vin := []
    vout := [⟨10 * coinValue, burnParams.growthEscrowScript⟩]
    saplingPayload := some { valueBalance := 10 * coinValue } }

def burn : CTransaction :=
  { hash := 12, nVersion := 2, nType := .normal, vin := [⟨⟨11, 0⟩⟩]
    vout := [⟨10 * coinValue, [opReturn]⟩] }

def fundBlock : CBlock := ⟨1, [coinbase 101, fundEscrow]⟩

def burnBlock : CBlock := ⟨2, [coinbase 102, burn]⟩

def funded : ChainState :=
  run (chainStep burnParams decodeDestination) ChainState.genesis [.connect fundBlock passing none]

def connectsBurn : Except String (TxLoop × CBlockUndo) :=
  connectBlock burnParams decodeDestination (bip34.withBIP30 funded.activeChain passing)
    funded.nextHeight none burnBlock funded.coins funded.evodb

end Sample

open Sample

/-- A burn is accepted with no proposal, and what it spends leaves the coins. -/
theorem burns_only_destroy_burn :
    ∃ loop undos, connectsBurn = .ok (loop, undos) ∧
      KeepsEscrow burnParams decodeDestination funded.nextHeight none burnBlock funded.coins loop
        (blockRounds burnParams decodeDestination (bip34.withBIP30 funded.activeChain passing)
          funded.nextHeight none burnBlock funded.coins funded.evodb) ∧
      isEscrowBurn burnParams funded.nextHeight funded.coins burn = true ∧
      (funded.coins ⟨11, 0⟩).isSome = true ∧ loop.view ⟨11, 0⟩ = none := by
  have hok : connectsBurn.toOption.any
      (fun result => (result.1.view ⟨11, 0⟩).isNone) = true := by
    decide +kernel
  cases hconnect : connectsBurn with
  | error reason =>
    rw [hconnect] at hok
    cases hok
  | ok result =>
    rw [hconnect] at hok
    refine ⟨result.1, result.2, rfl, ?_, by decide +kernel, by decide +kernel, ?_⟩
    · exact burns_only_destroy burnParams decodeDestination bip34
        [.connect fundBlock passing none] _ (prefix_refl _) burnBlock
        passing none result.1 result.2 (by decide +kernel) hconnect
    · exact Option.isNone_iff_eq_none.mp hok

end Kerrigan.Escrow
