import Kerrigan.Primitives.Transaction
import Mathlib.Logic.Function.Basic

/-!
# The coin view

`CCoinsViewCache` as a map from outpoints to unspent coins, with the operations
that connecting, disconnecting and rolling forward a block perform on it.  A
thrown exception or a failed assertion is the result `none`.
-/

namespace Kerrigan.Primitives

/-- The unspent coins; a spent or unknown outpoint maps to `none`. -/
abbrev CCoinsView := COutPoint → Option Coin

abbrev CTxUndo := List Coin

abbrev CBlockUndo := List CTxUndo

namespace CCoinsView

variable (view : CCoinsView) (outpoint : COutPoint) (tx : CTransaction)

def haveCoin : Bool :=
  (view outpoint).isSome

def haveInputs : Bool :=
  tx.isCoinBase || tx.vin.all (fun txin => haveCoin view txin.prevout)

def spendCoin : CCoinsView :=
  Function.update view outpoint none

def addCoin (coin : Coin) (possibleOverwrite : Bool) : Option CCoinsView :=
  if isUnspendable coin.out.scriptPubKey then some view
  else if !possibleOverwrite && haveCoin view outpoint then none
  else some (Function.update view outpoint (some coin))

def addCoinsFrom (view : CCoinsView) (txid : Uint256) (fCoinbase : Bool) (nHeight : Int)
    (checkForOverwrite : Bool) (i : Nat) : List CTxOut → Option CCoinsView
  | [] => some view
  | txout :: rest =>
      let overwrite := if checkForOverwrite then haveCoin view ⟨txid, i⟩ else fCoinbase
      match addCoin view ⟨txid, i⟩ ⟨txout, nHeight, fCoinbase⟩ overwrite with
      | none => none
      | some next => addCoinsFrom next txid fCoinbase nHeight checkForOverwrite (i + 1) rest

def addCoins (nHeight : Int) (checkForOverwrite : Bool) : Option CCoinsView :=
  addCoinsFrom view tx.hash tx.isCoinBase nHeight checkForOverwrite 0 tx.vout

def spendInputs (view : CCoinsView) : List CTxIn → Option (CCoinsView × CTxUndo)
  | [] => some (view, [])
  | txin :: rest =>
      match view txin.prevout with
      | none => none
      | some coin =>
          match spendInputs (spendCoin view txin.prevout) rest with
          | none => none
          | some (final, undo) => some (final, coin :: undo)

def updateCoins (nHeight : Int) : Option (CCoinsView × CTxUndo) :=
  if tx.isCoinBase then
    (addCoins view tx nHeight false).map (fun final => (final, []))
  else
    match spendInputs view tx.vin with
    | none => none
    | some (spent, undo) =>
        (addCoins spent tx nHeight false).map (fun final => (final, undo))

/-! ## Undoing a transaction -/

/-- Bound of the search of `AccessByTxid`: the maximal block size over the size of
an empty output. -/
def maxOutputsPerBlock : Nat := 2000000 / 9

def accessByTxid (txid : Uint256) : Option Coin :=
  (List.range maxOutputsPerBlock).findSome? (fun n => view ⟨txid, n⟩)

def applyTxInUndo (undo : Coin) :
    Option (CCoinsView × Bool) :=
  let clean := !haveCoin view outpoint
  let restored : Option Coin :=
    if undo.nHeight = 0 then
      (accessByTxid view outpoint.hash).map (fun alternate =>
        { undo with nHeight := alternate.nHeight, fCoinBase := alternate.fCoinBase })
    else some undo
  match restored with
  | none => none
  | some coin => (addCoin view outpoint coin (!clean)).map (fun final => (final, clean))

def restoreInputs (view : CCoinsView) (clean : Bool) :
    List (CTxIn × Coin) → Option (CCoinsView × Bool)
  | [] => some (view, clean)
  | (txin, undo) :: rest =>
      match restoreInputs view clean rest with
      | none => none
      | some (later, laterClean) =>
          (applyTxInUndo later txin.prevout undo).map
            (fun result => (result.1, laterClean && result.2))

def removeOutputs (view : CCoinsView) (clean : Bool) (txid : Uint256) (fCoinbase : Bool)
    (nHeight : Int) (i : Nat) : List CTxOut → CCoinsView × Bool
  | [] => (view, clean)
  | txout :: rest =>
      if isUnspendable txout.scriptPubKey then
        removeOutputs view clean txid fCoinbase nHeight (i + 1) rest
      else
        let matching := view ⟨txid, i⟩ == some ⟨txout, nHeight, fCoinbase⟩
        removeOutputs (spendCoin view ⟨txid, i⟩) (clean && matching) txid fCoinbase nHeight
          (i + 1) rest

/-- The effect of `RollforwardBlock` on the coins for one transaction: spend what is
still there and add the outputs, overwriting allowed. -/
def rollforwardCoins (nHeight : Int) :
    Option CCoinsView :=
  let spent :=
    if tx.isCoinBase then view
    else tx.vin.foldl (fun current txin => spendCoin current txin.prevout) view
  addCoins spent tx nHeight true

/-! ## The recorded coins -/

def inputCoins : List Coin :=
  tx.vin.filterMap (fun txin => view txin.prevout)

variable {view final : CCoinsView} {undo : CTxUndo}

theorem spendInputs_cons_eq_some_iff {txin : CTxIn} {rest : List CTxIn} :
    spendInputs view (txin :: rest) = some (final, undo) ↔
      ∃ coin later, view txin.prevout = some coin ∧
        spendInputs (spendCoin view txin.prevout) rest = some (final, later) ∧
        undo = coin :: later := by
  simp only [spendInputs]
  cases view txin.prevout with
  | none => simp
  | some coin =>
    cases spendInputs (spendCoin view txin.prevout) rest with
    | none => simp
    | some result => simp [Prod.ext_iff, eq_comm, and_comm]

variable {outpoint : COutPoint} {vin : List CTxIn}

theorem prevout_ne_of_spendInputs (hmissing : view outpoint = none)
    (hspend : spendInputs view vin = some (final, undo)) :
    ∀ txin ∈ vin, txin.prevout ≠ outpoint := by
  induction vin generalizing view final undo with
  | nil => simp
  | cons txin rest ih =>
    obtain ⟨coin, later, hcoin, hrest, -⟩ := spendInputs_cons_eq_some_iff.mp hspend
    have hne : txin.prevout ≠ outpoint := by
      intro heq
      rw [heq, hmissing] at hcoin
      cases hcoin
    have hmissing' : spendCoin view txin.prevout outpoint = none := by
      rw [spendCoin, Function.update_of_ne hne.symm, hmissing]
    intro other hother
    rcases List.mem_cons.mp hother with rfl | htail
    · exact hne
    · exact ih hmissing' hrest other htail

theorem spendInputs_undo (hspend : spendInputs view vin = some (final, undo)) :
    undo = vin.filterMap (fun txin => view txin.prevout) := by
  induction vin generalizing view final undo with
  | nil =>
    simp only [spendInputs, Option.some.injEq, Prod.mk.injEq] at hspend
    exact hspend.2.symm
  | cons txin rest ih =>
    obtain ⟨coin, later, hcoin, hrest, rfl⟩ := spendInputs_cons_eq_some_iff.mp hspend
    have hgone : spendCoin view txin.prevout txin.prevout = none := by
      rw [spendCoin, Function.update_self]
    have hdistinct := prevout_ne_of_spendInputs hgone hrest
    rw [List.filterMap_cons, hcoin, ih hrest]
    congr 1
    refine List.filterMap_congr ?_
    intro other hother
    rw [spendCoin, Function.update_of_ne (hdistinct other hother)]

theorem spendInputs_apply (hspend : spendInputs view vin = some (final, undo))
    (outpoint : COutPoint) :
    final outpoint = if outpoint ∈ vin.map CTxIn.prevout then none else view outpoint := by
  induction vin generalizing view undo with
  | nil =>
    simp only [spendInputs, Option.some.injEq, Prod.mk.injEq] at hspend
    rw [← hspend.1]
    rfl
  | cons txin rest ih =>
    obtain ⟨coin, later, -, hrest, -⟩ := spendInputs_cons_eq_some_iff.mp hspend
    rw [ih hrest, List.map_cons]
    by_cases hrestInput : outpoint ∈ rest.map CTxIn.prevout
    · rw [if_pos hrestInput, if_pos (List.mem_cons_of_mem _ hrestInput)]
    · rw [if_neg hrestInput, spendCoin]
      by_cases hsame : outpoint = txin.prevout
      · rw [hsame, Function.update_self, if_pos List.mem_cons_self]
      · rw [Function.update_of_ne hsame, if_neg]
        rw [List.mem_cons, not_or]
        exact ⟨hsame, hrestInput⟩

variable {nHeight : Int}

theorem updateCoins_spend {tx : CTransaction} (hcoinbase : tx.isCoinBase = false)
    (hupdate : updateCoins view tx nHeight = some (final, undo)) :
    ∃ spent, spendInputs view tx.vin = some (spent, undo) ∧
      addCoins spent tx nHeight false = some final := by
  rw [updateCoins, if_neg (by simp [hcoinbase])] at hupdate
  cases hspend : spendInputs view tx.vin with
  | none => simp [hspend] at hupdate
  | some result =>
    obtain ⟨spent, coins⟩ := result
    simp only [hspend, Option.map_eq_some_iff, Prod.mk.injEq] at hupdate
    obtain ⟨added, hadd, rfl, rfl⟩ := hupdate
    exact ⟨spent, rfl, hadd⟩

theorem updateCoins_undo {tx : CTransaction} (hcoinbase : tx.isCoinBase = false)
    (hupdate : updateCoins view tx nHeight = some (final, undo)) :
    undo = inputCoins view tx := by
  obtain ⟨spent, hspend, -⟩ := updateCoins_spend hcoinbase hupdate
  exact spendInputs_undo hspend

variable {txid : Uint256} {i : Nat} {outs : List CTxOut}

theorem addCoinsFrom_keeps (hadd : addCoinsFrom view txid false nHeight false i outs = some final)
    {coin : Coin} (hcoin : view outpoint = some coin) :
    final outpoint = some coin := by
  induction outs generalizing view i with
  | nil =>
    obtain rfl := Option.some.inj hadd
    exact hcoin
  | cons txout rest ih =>
    simp only [addCoinsFrom, Bool.false_eq_true, if_false] at hadd
    split at hadd
    · cases hadd
    · rename_i next hnext
      refine ih hadd ?_
      unfold addCoin at hnext
      split at hnext
      · rw [← Option.some.inj hnext]
        exact hcoin
      · split at hnext
        · cases hnext
        · rename_i hfree
          rw [← Option.some.inj hnext, Function.update_of_ne]
          · exact hcoin
          · rintro rfl
            simp [haveCoin, hcoin] at hfree

theorem addCoin_of_ne {next : CCoinsView} {added : COutPoint} {coin : Coin}
    {possibleOverwrite : Bool} (hadd : addCoin view added coin possibleOverwrite = some next)
    (hne : outpoint ≠ added) : next outpoint = view outpoint := by
  unfold addCoin at hadd
  split at hadd
  · rw [← Option.some.inj hadd]
  · split at hadd
    · cases hadd
    · rw [← Option.some.inj hadd, Function.update_of_ne hne]

theorem addCoinsFrom_of_ne {fCoinbase checkForOverwrite : Bool}
    (hadd : addCoinsFrom view txid fCoinbase nHeight checkForOverwrite i outs = some final)
    (hne : ∀ n < outs.length, outpoint ≠ ⟨txid, i + n⟩) :
    final outpoint = view outpoint := by
  induction outs generalizing view i with
  | nil =>
    obtain rfl := Option.some.inj hadd
    rfl
  | cons txout rest ih =>
    simp only [addCoinsFrom] at hadd
    split at hadd
    · cases hadd
    · rename_i next hnext
      have hlater : ∀ n < rest.length, outpoint ≠ ⟨txid, i + 1 + n⟩ := by
        intro n hn
        rw [Nat.add_right_comm, Nat.add_assoc]
        exact hne (n + 1) (Nat.succ_lt_succ hn)
      rw [ih hadd hlater, addCoin_of_ne hnext (hne 0 (Nat.succ_pos _))]

theorem addCoinsFrom_of_unspendable {fCoinbase checkForOverwrite : Bool}
    (houts : ∀ txout ∈ outs, isUnspendable txout.scriptPubKey = true) :
    addCoinsFrom view txid fCoinbase nHeight checkForOverwrite i outs = some view := by
  induction outs generalizing i with
  | nil => rfl
  | cons txout rest ih =>
    rw [List.forall_mem_cons] at houts
    simp only [addCoinsFrom, addCoin, houts.1, if_true]
    exact ih houts.2

end CCoinsView

end Kerrigan.Primitives
