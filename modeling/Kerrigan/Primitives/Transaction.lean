import Mathlib.Data.Int.Order.Basic
import Mathlib.Algebra.BigOperators.Group.List.Basic
import Mathlib.Algebra.Ring.Int.Defs
import Mathlib.Algebra.Ring.Nat

/-!
# Amounts, scripts and transactions

The part of a transaction that the consensus gates read.  Amounts are signed
64-bit values in the source; every sum the code forms is range checked before it
is used, so they are integers (`CAmount` is `Int`) here.  The identifier of a transaction is stored in
the transaction, as `CTransaction::hash` is.
-/

namespace Kerrigan.Primitives

abbrev Uint256 := Nat

abbrev Uint160 := Nat

/-- A serialized `scriptPubKey`. -/
abbrev Script := List UInt8

def coinValue : Int := 100000000

/-- No valid amount is larger than this. -/
def maxMoney : Int := 52560000 * coinValue

def moneyRange (nValue : Int) : Bool :=
  decide (0 ≤ nValue) && decide (nValue ≤ maxMoney)

theorem moneyRange_iff {nValue : Int} :
    moneyRange nValue = true ↔ 0 ≤ nValue ∧ nValue ≤ maxMoney := by
  simp [moneyRange]

def opReturn : UInt8 := 0x6a

def maxScriptSize : Nat := 10000

def isUnspendable (script : Script) : Bool :=
  script.head? == some opReturn || decide (maxScriptSize < script.length)

/-- A transaction identifier with an output index. -/
structure COutPoint where
  hash : Uint256
  n : Nat
  deriving DecidableEq, Repr

namespace COutPoint

def nullIndex : Nat := 4294967295

def isNull (outpoint : COutPoint) : Bool :=
  outpoint.hash == 0 && outpoint.n == nullIndex

end COutPoint

structure CTxIn where
  prevout : COutPoint
  deriving DecidableEq, Repr

structure CTxOut where
  nValue : Int
  scriptPubKey : Script
  deriving DecidableEq, Repr

/-- Transaction types; every other 16-bit value is `unknown`. -/
inductive TxType where
  | normal
  | providerRegister
  | providerUpdateService
  | providerUpdateRegistrar
  | providerUpdateRevoke
  | coinbase
  | quorumCommitment
  | mnhfSignal
  | assetLock
  | assetUnlock
  | sapling
  | droneRegister
  | unknown (code : Nat)
  deriving DecidableEq, Repr

/-- The fields of a shielded spend that the consensus state reads. -/
structure SaplingSpendDescription where
  anchor : Uint256
  nullifier : Uint256
  deriving DecidableEq, Repr

/-- The field of a shielded output that the consensus state reads. -/
structure SaplingOutputDescription where
  cmu : Uint256
  deriving DecidableEq, Repr

/-- A Sapling payload.  A positive balance leaves the shielded pool. -/
structure SaplingTxPayload where
  valueBalance : Int
  nVersion : Nat := 1
  vSpendDescriptions : List SaplingSpendDescription := []
  vOutputDescriptions : List SaplingOutputDescription := []
  deriving DecidableEq, Repr

/-- The field of an asset-unlock payload that the value equation reads. -/
structure CAssetUnlockPayload where
  fee : Int
  deriving DecidableEq, Repr

/-- A drone registration payload. -/
structure CDroneRegTx where
  blsPubKeyHash : Uint160
  irohNodeId : Uint256
  nHardwareClass : Nat
  nModelTier : Nat
  nCollateralIndex : Nat
  scriptPayout : Script
  nVersion : Nat := 1
  vchBlsPubKey : List UInt8 := []
  inputsHash : Uint256 := 0
  vchSig : List UInt8 := []
  deriving DecidableEq, Repr

/-- A transaction.  The payload fields are the results of decoding its extra payload
as the named type. -/
structure CTransaction where
  hash : Uint256
  nVersion : Int
  nType : TxType
  vin : List CTxIn
  vout : List CTxOut
  saplingPayload : Option SaplingTxPayload := none
  assetUnlockPayload : Option CAssetUnlockPayload := none
  droneRegPayload : Option CDroneRegTx := none
  deriving DecidableEq, Repr

namespace CTransaction

def specialVersion : Int := 3

def isSpecialTxVersion (tx : CTransaction) : Bool :=
  decide (specialVersion ≤ tx.nVersion)

def isCoinBase (tx : CTransaction) : Bool :=
  match tx.vin with
  | [txin] => txin.prevout.isNull
  | _ => false

def sumValueOut (nValueOut : Int) : List CTxOut → Option Int
  | [] => some nValueOut
  | txout :: rest =>
      if !moneyRange txout.nValue || !moneyRange (nValueOut + txout.nValue) then none
      else sumValueOut (nValueOut + txout.nValue) rest

def getValueOut (tx : CTransaction) : Option Int :=
  sumValueOut 0 tx.vout

end CTransaction

open CTransaction

def totalValue (outs : List CTxOut) : Int :=
  (outs.map CTxOut.nValue).sum

@[simp] theorem totalValue_nil : totalValue [] = 0 := rfl

@[simp] theorem totalValue_cons (txout : CTxOut) (outs : List CTxOut) :
    totalValue (txout :: outs) = txout.nValue + totalValue outs := by
  simp [totalValue]

theorem totalValue_append (first second : List CTxOut) :
    totalValue (first ++ second) = totalValue first + totalValue second := by
  simp [totalValue]

theorem totalValue_filter_add_filter_not (test : CTxOut → Bool) (outs : List CTxOut) :
    totalValue (outs.filter test) + totalValue (outs.filter (fun txout => !test txout)) =
      totalValue outs := by
  induction outs with
  | nil => rfl
  | cons txout rest ih =>
    cases htest : test txout <;> simp [htest] <;> omega

variable {start total : Int} {outs : List CTxOut}

theorem sumValueOut_eq_some (hsum : sumValueOut start outs = some total) :
    total = start + totalValue outs ∧ ∀ txout ∈ outs, 0 ≤ txout.nValue := by
  induction outs generalizing start with
  | nil =>
    simp only [sumValueOut, Option.some.injEq] at hsum
    simp [hsum]
  | cons txout rest ih =>
    simp only [sumValueOut] at hsum
    split at hsum
    · cases hsum
    · rename_i hrange
      simp only [Bool.or_eq_true, Bool.not_eq_true', not_or, Bool.not_eq_false] at hrange
      obtain ⟨htotal, hrest⟩ := ih hsum
      refine ⟨by rw [htotal, totalValue_cons]; omega, ?_⟩
      intro other hother
      rcases List.mem_cons.mp hother with rfl | htail
      · exact (moneyRange_iff.mp hrange.1).1
      · exact hrest other htail

theorem sumValueOut_of_nonneg (start : Int) (hstart : 0 ≤ start)
    (hnonneg : ∀ txout ∈ outs, 0 ≤ txout.nValue) (hmax : start + totalValue outs ≤ maxMoney) :
    sumValueOut start outs = some (start + totalValue outs) ∧
      start ≤ start + totalValue outs := by
  induction outs generalizing start with
  | nil => simp [sumValueOut]
  | cons txout rest ih =>
    have hvalue := hnonneg txout List.mem_cons_self
    rw [totalValue_cons, ← Int.add_assoc] at hmax ⊢
    obtain ⟨hsum, hle⟩ := ih (start + txout.nValue) (by omega)
      (fun other hother => hnonneg other (List.mem_cons_of_mem txout hother)) hmax
    have hrange : moneyRange txout.nValue = true := moneyRange_iff.mpr ⟨hvalue, by omega⟩
    have hrange' : moneyRange (start + txout.nValue) = true :=
      moneyRange_iff.mpr ⟨by omega, by omega⟩
    refine ⟨?_, by omega⟩
    rw [sumValueOut, hrange, hrange']
    exact hsum

theorem CTransaction.sumValueOut_le (hstart : start ≤ maxMoney)
    (hsum : sumValueOut start outs = some total) :
    total ≤ maxMoney := by
  induction outs generalizing start with
  | nil =>
    simp only [sumValueOut, Option.some.injEq] at hsum
    omega
  | cons txout rest ih =>
    simp only [sumValueOut] at hsum
    split at hsum
    · cases hsum
    · rename_i hrange
      simp only [Bool.or_eq_true, Bool.not_eq_true', not_or, Bool.not_eq_false] at hrange
      exact ih (moneyRange_iff.mp hrange.2).2 hsum

theorem CTransaction.getValueOut_eq_some {tx : CTransaction} (hsum : tx.getValueOut = some total) :
    total = totalValue tx.vout ∧ ∀ txout ∈ tx.vout, 0 ≤ txout.nValue := by
  obtain ⟨htotal, hnonneg⟩ := sumValueOut_eq_some hsum
  exact ⟨by omega, hnonneg⟩

/-- An unspent output with the height and kind of the transaction that made it. -/
structure Coin where
  out : CTxOut
  nHeight : Int
  fCoinBase : Bool
  deriving DecidableEq, Repr

def coinsValue (coins : List Coin) : Int :=
  (coins.map (fun coin => coin.out.nValue)).sum

@[simp] theorem coinsValue_nil : coinsValue [] = 0 := rfl

@[simp] theorem coinsValue_cons (coin : Coin) (coins : List Coin) :
    coinsValue (coin :: coins) = coin.out.nValue + coinsValue coins := by
  simp [coinsValue]

theorem coinsValue_filter_add_filter_not (test : Coin → Bool) (coins : List Coin) :
    coinsValue (coins.filter test) + coinsValue (coins.filter (fun coin => !test coin)) =
      coinsValue coins := by
  induction coins with
  | nil => rfl
  | cons coin rest ih =>
    cases htest : test coin <;> simp [htest] <;> omega

/-- A block as far as its transactions are concerned. -/
structure CBlock where
  hash : Uint256
  vtx : List CTransaction
  deriving DecidableEq, Repr

end Kerrigan.Primitives
