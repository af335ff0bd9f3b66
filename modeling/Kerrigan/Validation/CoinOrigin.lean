import Kerrigan.Escrow.ChainState

/-!
# What every coin satisfies

A property of an outpoint and its output that holds for the outputs of every transaction holds
for every coin, through connecting, disconnecting and rolling forward blocks, as long as the undo
records are those that were written.
-/

namespace Kerrigan.Validation

open Primitives Consensus Escrow Lib CCoinsView List

variable {property : COutPoint → CTxOut → Prop}

def EveryCoin (property : COutPoint → CTxOut → Prop) (view : CCoinsView) : Prop :=
  ∀ outpoint coin, view outpoint = some coin → property outpoint coin.out

def EveryOutput (property : COutPoint → CTxOut → Prop) (tx : CTransaction) : Prop :=
  ∀ n txout, tx.vout[n]? = some txout → property ⟨tx.hash, n⟩ txout

def EveryUndo (property : COutPoint → CTxOut → Prop) (tx : CTransaction) (undo : CTxUndo) : Prop :=
  ∀ pair ∈ tx.vin.zip undo, property pair.1.prevout pair.2.out

def EveryBlockUndo (property : COutPoint → CTxOut → Prop) (block : CBlock)
    (blockUndo : CBlockUndo) : Prop :=
  ∀ pair ∈ block.vtx.tail.zip blockUndo, EveryUndo property pair.1 pair.2

/-! ## Single coins -/

variable {undo : CTxUndo}

theorem spendInputs_zip {view final : CCoinsView} {vin : List CTxIn}
    (hspend : view.spendInputs vin = some (final, undo)) :
    vin.length = undo.length ∧ ∀ pair ∈ vin.zip undo, view pair.1.prevout = some pair.2 := by
  induction vin generalizing view undo with
  | nil =>
    obtain ⟨-, rfl⟩ := hspend
    exact ⟨rfl, fun pair hpair => absurd hpair not_mem_nil⟩
  | cons txin rest ih =>
    obtain ⟨coin, later, hcoin, hrest, rfl⟩ := spendInputs_cons_eq_some_iff.mp hspend
    obtain ⟨hlength, hlater⟩ := ih hrest
    refine ⟨by rw [length_cons, length_cons, hlength], ?_⟩
    intro pair hpair
    rcases mem_cons.mp hpair with rfl | hmem
    · exact hcoin
    · have hcoinLater := hlater pair hmem
      unfold spendCoin at hcoinLater
      by_cases hsame : pair.1.prevout = txin.prevout
      · rw [hsame, Function.update_self] at hcoinLater
        cases hcoinLater
      · rwa [Function.update_of_ne hsame] at hcoinLater

namespace EveryCoin

variable {view : CCoinsView}

theorem none : EveryCoin property (fun _ => none) := by
  intro outpoint coin hcoin
  cases hcoin

theorem spendCoin (hview : EveryCoin property view) (spent : COutPoint) :
    EveryCoin property (view.spendCoin spent) := by
  intro outpoint coin hcoin
  unfold CCoinsView.spendCoin at hcoin
  by_cases hsame : outpoint = spent
  · rw [hsame, Function.update_self] at hcoin
    cases hcoin
  · rw [Function.update_of_ne hsame] at hcoin
    exact hview outpoint coin hcoin

theorem addCoin (hview : EveryCoin property view) {added : COutPoint} {new : Coin}
    {possibleOverwrite : Bool} {next : CCoinsView} (hnew : property added new.out)
    (hadd : view.addCoin added new possibleOverwrite = some next) : EveryCoin property next := by
  unfold CCoinsView.addCoin at hadd
  split at hadd
  · obtain rfl := Option.some.inj hadd
    exact hview
  · split at hadd
    · cases hadd
    · obtain rfl := Option.some.inj hadd
      intro outpoint coin hcoin
      by_cases hsame : outpoint = added
      · rw [hsame, Function.update_self] at hcoin
        obtain rfl := Option.some.inj hcoin
        rw [hsame]
        exact hnew
      · rw [Function.update_of_ne hsame] at hcoin
        exact hview outpoint coin hcoin

variable {nHeight : Int} {final : CCoinsView}

theorem addCoinsFrom (hview : EveryCoin property view) {txid : Uint256}
    {fCoinbase checkForOverwrite : Bool} {i : Nat} {outs : List CTxOut}
    (houts : ∀ (n : Nat) txout, outs[n]? = some txout → property ⟨txid, i + n⟩ txout)
    (hadd : view.addCoinsFrom txid fCoinbase nHeight checkForOverwrite i outs = some final) :
    EveryCoin property final := by
  induction outs generalizing view i with
  | nil =>
    obtain rfl := Option.some.inj hadd
    exact hview
  | cons txout rest ih =>
    simp only [addCoinsFrom] at hadd
    split at hadd
    · cases hadd
    · rename_i next hnext
      refine ih (hview.addCoin (houts 0 txout rfl) hnext) ?_ hadd
      intro n other hother
      have hlater := houts (n + 1) other hother
      rwa [← Nat.add_assoc, Nat.add_right_comm] at hlater

variable {tx : CTransaction}

section

variable (hview : EveryCoin property view)

include hview

theorem addCoins {checkForOverwrite : Bool} (houts : EveryOutput property tx)
    (hadd : view.addCoins tx nHeight checkForOverwrite = some final) :
    EveryCoin property final := by
  refine hview.addCoinsFrom ?_ hadd
  intro n txout hout
  rw [Nat.zero_add]
  exact houts n txout hout

theorem spendInputs {vin : List CTxIn} (hspend : view.spendInputs vin = some (final, undo)) :
    EveryCoin property final := by
  induction vin generalizing view undo with
  | nil =>
    simp only [spendInputs, Option.some.injEq, Prod.mk.injEq] at hspend
    rw [← hspend.1]
    exact hview
  | cons txin rest ih =>
    obtain ⟨coin, later, -, hrest, -⟩ := spendInputs_cons_eq_some_iff.mp hspend
    exact ih (hview.spendCoin txin.prevout) hrest

theorem updateCoins (houts : EveryOutput property tx)
    (hupdate : view.updateCoins tx nHeight = some (final, undo)) :
    EveryCoin property final ∧ EveryUndo property tx undo := by
  unfold CCoinsView.updateCoins at hupdate
  split at hupdate
  · obtain ⟨added, hadd, heq⟩ := Option.map_eq_some_iff.mp hupdate
    obtain ⟨rfl, rfl⟩ := Prod.mk.inj heq
    refine ⟨hview.addCoins houts hadd, ?_⟩
    intro pair hpair
    rw [zip_nil_right] at hpair
    cases hpair
  · split at hupdate
    · cases hupdate
    · rename_i spent coins hspend
      obtain ⟨added, hadd, heq⟩ := Option.map_eq_some_iff.mp hupdate
      obtain ⟨rfl, rfl⟩ := Prod.mk.inj heq
      refine ⟨(hview.spendInputs hspend).addCoins houts hadd, ?_⟩
      intro pair hpair
      exact hview _ _ ((spendInputs_zip hspend).2 pair hpair)

theorem removeOutputs (clean : Bool) (txid : Uint256)
    (fCoinbase : Bool) (nHeight : Int) (i : Nat) (outs : List CTxOut) :
    EveryCoin property (view.removeOutputs clean txid fCoinbase nHeight i outs).1 := by
  induction outs generalizing view clean i with
  | nil => exact hview
  | cons txout rest ih =>
    unfold removeOutputs
    split
    · exact ih hview clean (i + 1)
    · exact ih (hview.spendCoin _) _ (i + 1)

theorem applyTxInUndo {outpoint : COutPoint} {undo : Coin}
    {clean : Bool} (hundo : property outpoint undo.out)
    (happly : view.applyTxInUndo outpoint undo = some (final, clean)) :
    EveryCoin property final := by
  unfold CCoinsView.applyTxInUndo at happly
  dsimp only at happly
  split at happly
  · cases happly
  · rename_i coin hcoin
    have hout : coin.out = undo.out := by
      split at hcoin
      · obtain ⟨alternate, -, rfl⟩ := Option.map_eq_some_iff.mp hcoin
        rfl
      · rw [← Option.some.inj hcoin]
    obtain ⟨added, hadd, heq⟩ := Option.map_eq_some_iff.mp happly
    obtain ⟨rfl, -⟩ := Prod.mk.inj heq
    rw [← hout] at hundo
    exact hview.addCoin hundo hadd

theorem restoreInputs {clean finalClean : Bool}
    {pairs : List (CTxIn × Coin)} (hpairs : ∀ pair ∈ pairs, property pair.1.prevout pair.2.out)
    (hrestore : view.restoreInputs clean pairs = some (final, finalClean)) :
    EveryCoin property final := by
  induction pairs generalizing final finalClean with
  | nil =>
    simp only [restoreInputs, Option.some.injEq, Prod.mk.injEq] at hrestore
    rw [← hrestore.1]
    exact hview
  | cons pair rest ih =>
    rw [forall_mem_cons] at hpairs
    simp only [restoreInputs] at hrestore
    split at hrestore
    · cases hrestore
    · rename_i later laterClean hlater
      obtain ⟨⟨restored, restoredClean⟩, happly, heq⟩ := Option.map_eq_some_iff.mp hrestore
      obtain ⟨rfl, -⟩ := Prod.mk.inj heq
      exact (ih hpairs.2 hlater).applyTxInUndo hpairs.1 happly

theorem rollforwardCoins (houts : EveryOutput property tx)
    (hroll : view.rollforwardCoins tx nHeight = some final) : EveryCoin property final := by
  have hspent : ∀ (vin : List CTxIn) (start : CCoinsView), EveryCoin property start →
      EveryCoin property (vin.foldl (fun current txin => current.spendCoin txin.prevout) start) := by
    intro vin
    induction vin with
    | nil => exact fun _ hstart => hstart
    | cons txin rest ih => exact fun start hstart => ih _ (hstart.spendCoin txin.prevout)
  unfold CCoinsView.rollforwardCoins at hroll
  split at hroll
  · exact hview.addCoins houts hroll
  · exact (hspent tx.vin view hview).addCoins houts hroll

end

/-! ## Blocks -/

theorem disconnectTx {loop final : UndoLoop} {undo : Option CTxUndo}
    (hloop : EveryCoin property loop.view) (hundo : ∀ coins ∈ undo, EveryUndo property tx coins)
    (hdisconnect : disconnectTx nHeight loop tx undo = some final) :
    EveryCoin property final.view := by
  have hremoved := hloop.removeOutputs loop.fClean tx.hash tx.isCoinBase nHeight 0 tx.vout
  unfold Escrow.disconnectTx at hdisconnect
  dsimp only at hdisconnect
  split at hdisconnect
  · cases hdisconnect
  · rename_i restored clean hrestored
    have hview : EveryCoin property restored := by
      cases undo with
      | none =>
        have hsame := congrArg Prod.fst (Option.some.inj hrestored)
        dsimp only at hsame
        rw [← hsame]
        exact hremoved
      | some coins =>
        dsimp only at hrestored
        split at hrestored
        · cases hrestored
        · exact hremoved.restoreInputs (hundo coins rfl) hrestored
    split at hdisconnect <;> obtain rfl := Option.some.inj hdisconnect <;> exact hview

theorem disconnectTxs {loop final : UndoLoop} {pairs : List (CTransaction × CTxUndo)}
    (hloop : EveryCoin property loop.view)
    (hundo : ∀ pair ∈ pairs, EveryUndo property pair.1 pair.2)
    (hdisconnect : disconnectTxs nHeight loop pairs = some final) :
    EveryCoin property final.view := by
  induction pairs generalizing final with
  | nil =>
    obtain rfl := Option.some.inj hdisconnect
    exact hloop
  | cons pair rest ih =>
    rw [forall_mem_cons] at hundo
    simp only [Escrow.disconnectTxs] at hdisconnect
    split at hdisconnect
    · cases hdisconnect
    · rename_i later hlater
      refine (ih hundo.2 hlater).disconnectTx ?_ hdisconnect
      intro coins hcoins
      obtain rfl := Option.some.inj hcoins
      exact hundo.1

theorem disconnectBlock {block : CBlock} {blockUndo : CBlockUndo} {evodb : CEvoDB}
    {final : UndoLoop} (hview : EveryCoin property view)
    (hundo : EveryBlockUndo property block blockUndo)
    (hdisconnect : disconnectBlock nHeight block blockUndo view evodb = some final) :
    EveryCoin property final.view := by
  unfold Escrow.disconnectBlock at hdisconnect
  split at hdisconnect
  · cases hdisconnect
  · split at hdisconnect
    · cases hdisconnect
    · rename_i coinbase rest hvtx
      split at hdisconnect
      · cases hdisconnect
      · rename_i later hlater
        unfold EveryBlockUndo at hundo
        rw [hvtx, tail_cons] at hundo
        have hstart : EveryCoin property (UndoLoop.mk view evodb true).view := hview
        have hlaterCoins := hstart.disconnectTxs hundo hlater
        exact hlaterCoins.disconnectTx (fun coins hcoins => by cases hcoins) hdisconnect

theorem rollforwardBlock {txs : List CTransaction} (hview : EveryCoin property view)
    (houts : ∀ tx ∈ txs, EveryOutput property tx)
    (hroll : rollforwardBlock nHeight view txs = some final) :
    EveryCoin property final := by
  induction txs generalizing view with
  | nil =>
    obtain rfl := Option.some.inj hroll
    exact hview
  | cons tx rest ih =>
    rw [forall_mem_cons] at houts
    simp only [rollforwardBlock] at hroll
    split at hroll
    · cases hroll
    · rename_i next hnext
      exact ih (hview.rollforwardCoins houts.1 hnext) houts.2 hroll

section Connect

variable {params : Params} {decodeDestination : String → Option Script} {checks : OtherChecks}
  {nHeight : Int} {pGovMan : Option GovernanceStore}

theorem connectTx {before after : TxLoop} {tx : CTransaction}
    (hbefore : EveryCoin property before.view) (houts : EveryOutput property tx)
    (hconnect : connectTx params decodeDestination checks nHeight pGovMan before tx =
      .ok (after, undo)) :
    EveryCoin property after.view ∧ EveryUndo property tx undo := by
  obtain ⟨txfee, -, -, -, -, hupdate, -⟩ := connectTx_eq_ok_iff.mp hconnect
  exact hbefore.updateCoins houts hupdate

/-- An accepted block keeps the property and records coins that have it, and each of its
transactions after the coinbase was connected on coins that have it. -/
theorem connectBlock {block : CBlock} {evodb : CEvoDB} {loop : TxLoop} {blockUndo : CBlockUndo}
    (hview : EveryCoin property view) (houts : ∀ tx ∈ block.vtx, EveryOutput property tx)
    (hconnect : connectBlock params decodeDestination checks nHeight pGovMan block view
      evodb = .ok (loop, blockUndo)) :
    EveryCoin property loop.view ∧ EveryBlockUndo property block blockUndo ∧
      ∀ tx ∈ block.vtx.tail, tx.isCoinBase = false ∧ ∃ before after undo,
        EveryCoin property before.view ∧
        Escrow.connectTx params decodeDestination checks nHeight pGovMan before tx =
          .ok (after, undo) := by
  obtain ⟨coinbase, rest, withCoinbase, hvtx, -, hothers, hcoinbase, htxs⟩ :=
    connectBlock_eq_ok hconnect
  rw [hvtx, forall_mem_cons] at houts
  have hstart : EveryCoin property withCoinbase.1 := (hview.updateCoins houts.1 hcoinbase).1
  obtain ⟨hfinal, hlength, hrounds⟩ := connectTxs_rounds
    (fun tx htx before after undo hbefore hround =>
      (EveryCoin.connectTx hbefore (houts.2 tx htx) hround).1) hstart htxs
  unfold EveryBlockUndo
  rw [hvtx, tail_cons]
  refine ⟨hfinal, ?_, ?_⟩
  · intro pair hpair
    obtain ⟨before, after, hbefore, hround⟩ := hrounds pair hpair
    have htx := (of_mem_zip hpair).1
    exact (hbefore.connectTx (houts.2 pair.1 htx) hround).2
  · intro tx htx
    refine ⟨hothers tx htx, ?_⟩
    have hmap : (rest.zip blockUndo).map Prod.fst = rest := map_fst_zip (Nat.le_of_eq hlength)
    rw [← hmap] at htx
    obtain ⟨pair, hpair, rfl⟩ := mem_map.mp htx
    obtain ⟨before, after, hbefore, hround⟩ := hrounds pair hpair
    exact ⟨before, after, pair.2, hbefore, hround⟩

end Connect

end EveryCoin

end Kerrigan.Validation
