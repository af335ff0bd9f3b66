import Kerrigan.Escrow.Release
import Kerrigan.Lib.Run

/-!
# Connecting, disconnecting and rolling forward blocks

The chain state as far as the escrow is concerned: the active chain with the undo
record of each block, the coins, and the execution records of EvoDB.  A failed
connect rolls its EvoDB transaction back and leaves everything unchanged.
-/

namespace Kerrigan.Escrow

open Primitives Consensus Lib

/-- The checks of `ConnectBlock` that do not concern the escrow.  Each returns a
reject reason or `none`. -/
structure OtherChecks where
  /-- Checks before the transaction loop. -/
  early : CBlock → Int → CCoinsView → Option String
  /-- Freeze, blacklist, Plan X, sequence lock, sigop and script checks; the flag is
  the burn carve-out. -/
  perTx : Int → CCoinsView → CTransaction → Bool → Option String
  /-- Checks after the transaction loop, given the collected fees. -/
  late : CBlock → Int → Int → Option String

def pass : Option String → Except String Unit
  | none => .ok ()
  | some reason => .error reason

/-- State of the transaction loop of `ConnectBlock`. -/
structure TxLoop where
  view : CCoinsView
  evodb : CEvoDB
  nFees : Int

section Connect

variable (params : Params) (decodeDestination : String → Option Script) (checks : OtherChecks)
  (nHeight : Int) (pGovMan : Option GovernanceStore)

def connectTx (loop : TxLoop) (tx : CTransaction) : Except String (TxLoop × CTxUndo) := do
  let txfee ← checkTxInputs tx loop.view nHeight
  pass (if moneyRange (loop.nFees + txfee) then none
    else some "bad-txns-accumulated-fee-outofrange")
  let evodb ← escrowGate params decodeDestination nHeight loop.view loop.evodb pGovMan tx
  pass (checks.perTx nHeight loop.view tx (isEscrowBurn params nHeight loop.view tx))
  match loop.view.updateCoins tx nHeight with
  | none => .error "assert(is_spent)"
  | some (view, undo) => .ok (⟨view, evodb, loop.nFees + txfee⟩, undo)

def connectTxs (loop : TxLoop) : List CTransaction → Except String (TxLoop × CBlockUndo)
  | [] => .ok (loop, [])
  | tx :: rest => do
      let (next, undo) ← connectTx params decodeDestination checks nHeight pGovMan loop tx
      let (final, undos) ← connectTxs next rest
      .ok (final, undo :: undos)

def connectBlock (block : CBlock) (view : CCoinsView) (evodb : CEvoDB) :
    Except String (TxLoop × CBlockUndo) :=
  match block.vtx with
  | [] => .error "bad-cb-missing"
  | coinbase :: rest => do
      if !coinbase.isCoinBase then .error "bad-cb-missing"
      else if rest.any CTransaction.isCoinBase then .error "bad-cb-multiple"
      else
        pass (checks.early block nHeight view)
        match view.updateCoins coinbase nHeight with
        | none => .error "Attempted to overwrite an unspent coin"
        | some (withCoinbase, _) =>
            let (loop, undos) ← connectTxs params decodeDestination checks nHeight pGovMan
              ⟨withCoinbase, evodb, 0⟩ rest
            pass (checks.late block nHeight loop.nFees)
            .ok (loop, undos)

end Connect

/-- State of the transaction loop of `DisconnectBlock`. -/
structure UndoLoop where
  view : CCoinsView
  evodb : CEvoDB
  fClean : Bool

def disconnectTx (nHeight : Int) (loop : UndoLoop) (tx : CTransaction) (undo : Option CTxUndo) :
    Option UndoLoop :=
  let removed := CCoinsView.removeOutputs loop.view loop.fClean tx.hash tx.isCoinBase nHeight 0
    tx.vout
  let restored : Option (CCoinsView × Bool) :=
    match undo with
    | none => some removed
    | some coins =>
        if coins.length ≠ tx.vin.length then none
        else CCoinsView.restoreInputs removed.1 removed.2 (tx.vin.zip coins)
  match restored with
  | none => none
  | some (view, clean) =>
      match findMarker tx with
      | none => some ⟨view, loop.evodb, clean⟩
      | some proposalHash =>
          some ⟨view, unmarkEscrowReleaseExecuted loop.evodb proposalHash, clean⟩

def disconnectTxs (nHeight : Int) (loop : UndoLoop) :
    List (CTransaction × CTxUndo) → Option UndoLoop
  | [] => some loop
  | (tx, undo) :: rest =>
      match disconnectTxs nHeight loop rest with
      | none => none
      | some later => disconnectTx nHeight later tx (some undo)

def disconnectBlock (nHeight : Int) (block : CBlock) (blockUndo : CBlockUndo)
    (view : CCoinsView) (evodb : CEvoDB) : Option UndoLoop :=
  if blockUndo.length + 1 ≠ block.vtx.length then none
  else
    match block.vtx with
    | [] => none
    | coinbase :: rest =>
        match disconnectTxs nHeight ⟨view, evodb, true⟩ (rest.zip blockUndo) with
        | none => none
        | some later => disconnectTx nHeight later coinbase none

def rollforwardBlock (nHeight : Int) (view : CCoinsView) : List CTransaction → Option CCoinsView
  | [] => some view
  | tx :: rest =>
      match view.rollforwardCoins tx nHeight with
      | none => none
      | some next => rollforwardBlock nHeight next rest

/-! ## The machine -/

/-- A block of the active chain with its height and the undo record on disk. -/
structure ChainEntry where
  block : CBlock
  nHeight : Int
  blockUndo : CBlockUndo

/-- The active chain above genesis, tip first, with the stores that follow it. -/
structure ChainState where
  activeChain : List ChainEntry
  coins : CCoinsView
  evodb : CEvoDB

def ChainState.genesis : ChainState := ⟨[], fun _ => none, ∅⟩

def ChainState.nextHeight (state : ChainState) : Int := state.activeChain.length + 1

inductive ChainStep where
  | connect (block : CBlock) (checks : OtherChecks) (pGovMan : Option GovernanceStore)
  | disconnect (acceptUnclean : Bool)
  | rollforward (block : CBlock) (blockUndo : CBlockUndo)

def disconnectTip (state : ChainState) (acceptUnclean : Bool) : Option ChainState :=
  match state.activeChain with
  | [] => none
  | tip :: rest =>
      match disconnectBlock tip.nHeight tip.block tip.blockUndo state.coins state.evodb with
      | none => none
      | some loop =>
          if loop.fClean || acceptUnclean then some ⟨rest, loop.view, loop.evodb⟩ else none

def chainStep (params : Params) (decodeDestination : String → Option Script)
    (state : ChainState) : ChainStep → ChainState
  | .connect block checks pGovMan =>
      match connectBlock params decodeDestination checks state.nextHeight pGovMan block
          state.coins state.evodb with
      | .error _ => state
      | .ok (loop, blockUndo) =>
          ⟨⟨block, state.nextHeight, blockUndo⟩ :: state.activeChain, loop.view, loop.evodb⟩
  | .disconnect acceptUnclean => (disconnectTip state acceptUnclean).getD state
  | .rollforward block blockUndo =>
      match rollforwardBlock state.nextHeight state.coins block.vtx with
      | none => state
      | some coins =>
          ⟨⟨block, state.nextHeight, blockUndo⟩ :: state.activeChain, coins, state.evodb⟩

/-! ## What an accepted block is -/

theorem pass_eq_ok_iff {outcome : Option String} {done : Unit} :
    pass outcome = .ok done ↔ outcome = none := by
  cases outcome <;> simp [pass]

section Accepted

variable {params : Params} {decodeDestination : String → Option Script} {checks : OtherChecks}
  {nHeight : Int} {pGovMan : Option GovernanceStore} {loop : TxLoop}

theorem connectTx_eq_ok_iff {next : TxLoop} {tx : CTransaction} {undo : CTxUndo} :
    connectTx params decodeDestination checks nHeight pGovMan loop tx = .ok (next, undo) ↔
      ∃ txfee, checkTxInputs tx loop.view nHeight = .ok txfee ∧
        moneyRange (loop.nFees + txfee) = true ∧
        escrowGate params decodeDestination nHeight loop.view loop.evodb pGovMan tx =
          .ok next.evodb ∧
        checks.perTx nHeight loop.view tx (isEscrowBurn params nHeight loop.view tx) = none ∧
        loop.view.updateCoins tx nHeight = some (next.view, undo) ∧
        next.nFees = loop.nFees + txfee := by
  unfold connectTx
  simp only [bind_eq_ok_iff, pass_eq_ok_iff, exists_and_left, exists_const]
  constructor
  · rintro ⟨txfee, hinputs, hrange, evodb, hgate, hperTx, hupdate⟩
    cases hcoins : loop.view.updateCoins tx nHeight with
    | none => simp [hcoins] at hupdate
    | some result =>
      simp only [hcoins, Except.ok.injEq, Prod.mk.injEq] at hupdate
      obtain ⟨rfl, rfl⟩ := hupdate
      refine ⟨txfee, hinputs, ?_, hgate, hperTx, rfl, rfl⟩
      by_contra hbad
      simp [hbad] at hrange
  · rintro ⟨txfee, hinputs, hrange, hgate, hperTx, hupdate, hfees⟩
    refine ⟨txfee, hinputs, by simp [hrange], next.evodb, hgate, hperTx, ?_⟩
    simp only [hupdate, ← hfees]

variable {block : CBlock} {view : CCoinsView} {evodb : CEvoDB} {blockUndo : CBlockUndo}

section

variable (hconnect : connectBlock params decodeDestination checks nHeight pGovMan block view evodb =
  .ok (loop, blockUndo))

include hconnect

theorem connectBlock_eq_ok :
    ∃ coinbase rest withCoinbase, block.vtx = coinbase :: rest ∧ coinbase.isCoinBase = true ∧
      (∀ tx ∈ rest, tx.isCoinBase = false) ∧
      view.updateCoins coinbase nHeight = some withCoinbase ∧
      connectTxs params decodeDestination checks nHeight pGovMan ⟨withCoinbase.1, evodb, 0⟩ rest =
        .ok (loop, blockUndo) := by
  unfold connectBlock at hconnect
  cases hvtx : block.vtx with
  | nil => simp [hvtx] at hconnect
  | cons coinbase rest =>
    simp only [hvtx] at hconnect
    split at hconnect
    · cases hconnect
    · rename_i hcoinbase
      split at hconnect
      · cases hconnect
      · rename_i hothers
        obtain ⟨-, -, hconnect⟩ := bind_eq_ok_iff.mp hconnect
        cases hupdate : view.updateCoins coinbase nHeight with
        | none => simp [hupdate] at hconnect
        | some withCoinbase =>
          simp only [hupdate] at hconnect
          obtain ⟨⟨final, undos⟩, htxs, hconnect⟩ := bind_eq_ok_iff.mp hconnect
          obtain ⟨-, -, hconnect⟩ := bind_eq_ok_iff.mp hconnect
          obtain ⟨rfl, rfl⟩ := hconnect
          refine ⟨coinbase, rest, withCoinbase, rfl, by simpa using hcoinbase, ?_, hupdate, htxs⟩
          simpa using hothers

theorem connectBlock_early : checks.early block nHeight view = none := by
  unfold connectBlock at hconnect
  cases hvtx : block.vtx with
  | nil => simp [hvtx] at hconnect
  | cons coinbase rest =>
    simp only [hvtx] at hconnect
    split at hconnect
    · cases hconnect
    · split at hconnect
      · cases hconnect
      · obtain ⟨_, hearly, _⟩ := bind_eq_ok_iff.mp hconnect
        exact pass_eq_ok_iff.mp hearly

end

/-- What every round of the loop keeps holds after the loop, and every transaction of the loop was
connected in a state in which it held. -/
theorem connectTxs_rounds {holds : TxLoop → Prop} {final : TxLoop} {txs : List CTransaction}
    {undos : CBlockUndo} (hround : ∀ tx ∈ txs, ∀ before after undo, holds before →
      connectTx params decodeDestination checks nHeight pGovMan before tx = .ok (after, undo) →
      holds after) (hloop : holds loop)
    (hconnect : connectTxs params decodeDestination checks nHeight pGovMan loop txs =
      .ok (final, undos)) :
    holds final ∧ txs.length = undos.length ∧ ∀ pair ∈ txs.zip undos, ∃ before after,
      holds before ∧
      connectTx params decodeDestination checks nHeight pGovMan before pair.1 =
        .ok (after, pair.2) := by
  induction txs generalizing loop undos with
  | nil =>
    obtain ⟨rfl, rfl⟩ := hconnect
    exact ⟨hloop, rfl, fun pair hpair => absurd hpair List.not_mem_nil⟩
  | cons tx rest ih =>
    obtain ⟨⟨next, undo⟩, hfirst, hrest⟩ := bind_eq_ok_iff.mp hconnect
    obtain ⟨⟨last, later⟩, htxs, hdone⟩ := bind_eq_ok_iff.mp hrest
    obtain ⟨rfl, rfl⟩ := hdone
    have hnext := hround tx List.mem_cons_self loop next undo hloop hfirst
    obtain ⟨hlast, hlength, hrounds⟩ :=
      ih (fun other hother => hround other (List.mem_cons_of_mem tx hother)) hnext htxs
    refine ⟨hlast, by rw [List.length_cons, List.length_cons, hlength], ?_⟩
    intro pair hpair
    rcases List.mem_cons.mp hpair with rfl | hlater
    · exact ⟨loop, next, hloop, hfirst⟩
    · exact hrounds pair hlater

end Accepted

theorem disconnectTip_eq_some {state next : ChainState} {acceptUnclean : Bool}
    (htip : disconnectTip state acceptUnclean = some next) :
    ∃ tip rest loop, state.activeChain = tip :: rest ∧
      disconnectBlock tip.nHeight tip.block tip.blockUndo state.coins state.evodb = some loop ∧
      next = ⟨rest, loop.view, loop.evodb⟩ := by
  unfold disconnectTip at htip
  cases hchain : state.activeChain with
  | nil => simp [hchain] at htip
  | cons tip rest =>
    simp only [hchain] at htip
    cases hundo : disconnectBlock tip.nHeight tip.block tip.blockUndo state.coins
        state.evodb with
    | none => simp [hundo] at htip
    | some loop =>
      simp only [hundo, Option.ite_none_right_eq_some, Option.some.injEq] at htip
      exact ⟨tip, rest, loop, rfl, hundo, htip.2.symm⟩

namespace Sample

def passing : OtherChecks := ⟨fun _ _ _ => none, fun _ _ _ _ => none, fun _ _ _ => none⟩

def coinbase (hash : Uint256) : CTransaction :=
  { hash := hash, nVersion := 3, nType := .coinbase, vin := [⟨⟨0, COutPoint.nullIndex⟩⟩]
    vout := [⟨0, payeeScript⟩] }

def releaseBlock : CBlock := ⟨2, [coinbase 102, release [changeOutput]]⟩

end Sample

end Kerrigan.Escrow
