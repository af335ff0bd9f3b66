import Kerrigan.Primitives.Coins
import Kerrigan.Lib.Outcome

/-!
# Input checks of a transaction

`Consensus::CheckTxInputs` with its value equation.  The balance of a Sapling
payload enters the equation on the input side; an asset-unlock transaction is
not subject to it at all and only has its declared fee checked.
-/

namespace Kerrigan.Consensus

open Primitives Lib

def coinbaseMaturity : Int := 100

def getAssetUnlockFee (tx : CTransaction) : Except String Int :=
  match tx.assetUnlockPayload with
  | none => .error "bad-assetunlocktx-payload"
  | some payload =>
      if payload.fee == 0 || !moneyRange payload.fee then
        .error "bad-txns-assetunlock-fee-outofrange"
      else .ok payload.fee

def sumInputs (inputs : CCoinsView) (nSpendHeight : Int) (nValueIn : Int) :
    List CTxIn → Except String Int
  | [] => .ok nValueIn
  | txin :: rest =>
      match inputs txin.prevout with
      | none => .error "assert(!coin.IsSpent())"
      | some coin =>
          if coin.fCoinBase && decide (nSpendHeight - coin.nHeight < coinbaseMaturity) then
            .error "bad-txns-premature-spend-of-coinbase"
          else if !moneyRange coin.out.nValue || !moneyRange (nValueIn + coin.out.nValue) then
            .error "bad-txns-inputvalues-outofrange"
          else sumInputs inputs nSpendHeight (nValueIn + coin.out.nValue) rest

def saplingValueBalance (tx : CTransaction) : Except String Int :=
  if tx.nType == .sapling then
    match tx.saplingPayload with
    | none => .error "bad-sapling-payload"
    | some payload =>
        if decide (payload.valueBalance < -maxMoney) || decide (payload.valueBalance > maxMoney) then
          .error "bad-sapling-valuebalance-outofrange"
        else .ok payload.valueBalance
  else .ok 0

def checkTxInputs (tx : CTransaction) (inputs : CCoinsView) (nSpendHeight : Int) :
    Except String Int :=
  if tx.isSpecialTxVersion && tx.nType == .assetUnlock then getAssetUnlockFee tx
  else if !inputs.haveInputs tx then .error "bad-txns-inputs-missingorspent"
  else do
    let nValueIn ← sumInputs inputs nSpendHeight 0 tx.vin
    let valueOut ← match tx.getValueOut with
      | none => .error "GetValueOut: value out of range"
      | some total => .ok total
    let balance ← saplingValueBalance tx
    let effectiveValueIn := nValueIn + balance
    if decide (effectiveValueIn < 0) || !moneyRange effectiveValueIn then
      .error "bad-txns-inputvalues-outofrange"
    else if effectiveValueIn < valueOut then .error "bad-txns-in-belowout"
    else if !moneyRange (effectiveValueIn - valueOut) then .error "bad-txns-fee-outofrange"
    else .ok (effectiveValueIn - valueOut)

variable {inputs : CCoinsView} {nSpendHeight start total : Int}

theorem sumInputs_cons_eq_ok {txin : CTxIn} {rest : List CTxIn}
    (hsum : sumInputs inputs nSpendHeight start (txin :: rest) = .ok total) :
    ∃ coin, inputs txin.prevout = some coin ∧ moneyRange coin.out.nValue = true ∧
      moneyRange (start + coin.out.nValue) = true ∧
      sumInputs inputs nSpendHeight (start + coin.out.nValue) rest = .ok total := by
  simp only [sumInputs] at hsum
  cases hcoin : inputs txin.prevout with
  | none => simp [hcoin] at hsum
  | some coin =>
    simp only [hcoin] at hsum
    split at hsum
    · cases hsum
    · split at hsum
      · cases hsum
      · rename_i hrange
        simp only [Bool.or_eq_true, Bool.not_eq_true', not_or, Bool.not_eq_false] at hrange
        exact ⟨coin, rfl, hrange.1, hrange.2, hsum⟩

theorem sumInputs_eq_ok {vin : List CTxIn}
    (hsum : sumInputs inputs nSpendHeight start vin = .ok total) :
    total = start + coinsValue (vin.filterMap (fun txin => inputs txin.prevout)) := by
  induction vin generalizing start with
  | nil =>
    simp only [sumInputs, Except.ok.injEq] at hsum
    simp [hsum]
  | cons txin rest ih =>
    obtain ⟨coin, hcoin, -, -, hrest⟩ := sumInputs_cons_eq_ok hsum
    rw [ih hrest, List.filterMap_cons, hcoin, coinsValue_cons]
    omega

theorem sumInputs_range {vin : List CTxIn} (hstart : start ≤ maxMoney)
    (hsum : sumInputs inputs nSpendHeight start vin = .ok total) :
    total ≤ maxMoney ∧ ∀ txin ∈ vin, ∃ coin, inputs txin.prevout = some coin ∧
      moneyRange coin.out.nValue = true := by
  induction vin generalizing start with
  | nil =>
    simp only [sumInputs, Except.ok.injEq] at hsum
    exact ⟨by omega, fun txin htxin => absurd htxin List.not_mem_nil⟩
  | cons txin rest ih =>
    obtain ⟨coin, hcoin, hrange, hnext, hlater⟩ := sumInputs_cons_eq_ok hsum
    obtain ⟨htotal, hrest⟩ := ih (moneyRange_iff.mp hnext).2 hlater
    exact ⟨htotal, List.forall_mem_cons.mpr ⟨⟨coin, hcoin, hrange⟩, hrest⟩⟩

/-- The coins and the outputs of an accepted transaction that is not an asset unlock are in range,
and so are their sums. -/
theorem checkTxInputs_range {tx : CTransaction} {fee : Int}
    (hplain : (tx.isSpecialTxVersion && tx.nType == .assetUnlock) = false)
    (hcheck : checkTxInputs tx inputs nSpendHeight = .ok fee) :
    coinsValue (inputs.inputCoins tx) ≤ maxMoney ∧
      (∀ txin ∈ tx.vin, ∃ coin, inputs txin.prevout = some coin ∧
        moneyRange coin.out.nValue = true) ∧
      totalValue tx.vout ≤ maxMoney := by
  rw [checkTxInputs, if_neg (by simp [hplain])] at hcheck
  split at hcheck
  · cases hcheck
  · obtain ⟨nValueIn, hsum, hcheck⟩ := bind_eq_ok_iff.mp hcheck
    have hmoney : (0 : Int) ≤ maxMoney := by decide
    obtain ⟨htotal, hcoins⟩ := sumInputs_range hmoney hsum
    have hin := sumInputs_eq_ok hsum
    refine ⟨?_, hcoins, ?_⟩
    · rw [CCoinsView.inputCoins]
      omega
    · cases hout : tx.getValueOut with
      | none => simp [hout, bind, Except.bind] at hcheck
      | some total =>
        have hle := CTransaction.sumValueOut_le hmoney hout
        have heq := (CTransaction.getValueOut_eq_some hout).1
        omega

/-- The value equation of an accepted transaction that is not an asset unlock:
the coins it spends and its Sapling balance cover its outputs and its fee. -/
theorem checkTxInputs_value {tx : CTransaction} {fee : Int}
    (hplain : (tx.isSpecialTxVersion && tx.nType == .assetUnlock) = false)
    (hcheck : checkTxInputs tx inputs nSpendHeight = .ok fee) :
    ∃ balance, saplingValueBalance tx = .ok balance ∧
      coinsValue (inputs.inputCoins tx) + balance = totalValue tx.vout + fee ∧
      0 ≤ fee ∧ ∀ txout ∈ tx.vout, 0 ≤ txout.nValue := by
  rw [checkTxInputs, if_neg (by simp [hplain])] at hcheck
  split at hcheck
  · cases hcheck
  · cases hsum : sumInputs inputs nSpendHeight 0 tx.vin with
    | error reason => simp [hsum, bind, Except.bind] at hcheck
    | ok nValueIn =>
      cases hout : tx.getValueOut with
      | none => simp [hsum, hout, bind, Except.bind] at hcheck
      | some valueOut =>
        cases hbalance : saplingValueBalance tx with
        | error reason => simp [hsum, hout, hbalance, bind, Except.bind] at hcheck
        | ok balance =>
          simp only [hsum, hout, hbalance, bind, Except.bind] at hcheck
          split at hcheck
          · cases hcheck
          · split at hcheck
            · cases hcheck
            · split at hcheck
              · cases hcheck
              · rename_i hrange
                have hfee : nValueIn + balance - valueOut = fee := by
                  simpa using hcheck
                have hnonneg : 0 ≤ nValueIn + balance - valueOut :=
                  (moneyRange_iff.mp (by simpa using hrange)).1
                have hin := sumInputs_eq_ok hsum
                obtain ⟨hvalue, houts⟩ := CTransaction.getValueOut_eq_some hout
                refine ⟨balance, rfl, ?_, by omega, houts⟩
                rw [CCoinsView.inputCoins]
                omega

end Kerrigan.Consensus
