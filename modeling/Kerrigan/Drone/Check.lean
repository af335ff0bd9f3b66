import Kerrigan.Drone.Build
import Kerrigan.Lib.Outcome

/-!
# Registration checks

`CheckDroneRegTx` checks a registration against the list before its block.  A registration of a
listed key whose bond the transaction does not spend is a heartbeat, and then its bond output and
payout script are not looked at.
-/

namespace Kerrigan.Drone

open Primitives Consensus Lib CDroneList

def isDronePayoutEffective (params : Params) (sporkActive : Bool) (nHeight : Int) : Bool :=
  params.isDronePayoutActive nHeight && sporkActive

/-- The hashes and the signature scheme of a registration. -/
structure DroneOracles where
  hash160 : List UInt8 → Uint160
  calcTxInputsHash : CTransaction → Uint256
  verifyMinSig : CDroneRegTx → Bool

namespace CDroneRegTx

def currentVersion : Nat := 1

def maxModelTier : Nat := 3

def blsPubKeySize : Nat := 96

def blsSignatureSize : Nat := 48

end CDroneRegTx

/-- The registration is for a listed key whose bond the transaction does not spend. -/
def isHeartbeat (droneList : CDroneList) (tx : CTransaction) (reg : CDroneRegTx) : Bool :=
  match droneList.getDrone reg.blsPubKeyHash with
  | none => false
  | some existing => !tx.vin.any (fun txin => txin.prevout == existing.collateralOutpoint)

/-- The bond output and the payout script of a new registration. -/
def checkBond (params : Params) (tx : CTransaction) (reg : CDroneRegTx) : Except String Unit := do
  require (0 < params.nDroneCollateralAmount) "bad-drone-reg-collateral"
  match tx.vout[reg.nCollateralIndex]? with
  | none => .error "bad-drone-reg-collateral-index"
  | some txout =>
      require (txout.nValue = params.nDroneCollateralAmount) "bad-drone-reg-collateral"
      require (isValidDronePayoutScript reg.scriptPayout) "bad-drone-reg-payee"

def checkDroneRegTx (params : Params) (oracles : DroneOracles) (sporkActive checkSigs : Bool)
    (prevHeight : Int) (droneList : CDroneList) (tx : CTransaction) : Except String Unit := do
  require (isDronePayoutEffective params sporkActive (prevHeight + 1)) "bad-drone-reg-height"
  match tx.droneRegPayload with
  | none => .error "bad-drone-reg-payload"
  | some reg =>
      require (reg.nVersion ≠ 0 ∧ reg.nVersion ≤ CDroneRegTx.currentVersion)
        "bad-drone-reg-version"
      require (reg.nModelTier ≤ CDroneRegTx.maxModelTier) "bad-drone-reg-tier"
      require (reg.vchBlsPubKey.length = CDroneRegTx.blsPubKeySize) "bad-drone-reg-pubkey"
      require (oracles.hash160 reg.vchBlsPubKey = reg.blsPubKeyHash) "bad-drone-reg-pubkey-hash"
      require (reg.vchSig.length = CDroneRegTx.blsSignatureSize) "bad-drone-reg-sig"
      if !isHeartbeat droneList tx reg then checkBond params tx reg
      require (oracles.calcTxInputsHash tx = reg.inputsHash) "bad-drone-reg-inputs-hash"
      require (checkSigs → oracles.verifyMinSig reg) "bad-drone-reg-sig"

/-- The transaction registers a drone as far as the list transition reads it. -/
def isRegistration (tx : CTransaction) : Bool :=
  tx.isSpecialTxVersion && tx.nType == .droneRegister

theorem checkDroneRegTx_eq_ok {params : Params} {oracles : DroneOracles}
    {sporkActive checkSigs : Bool} {prevHeight : Int} {droneList : CDroneList} {tx : CTransaction}
    (h : checkDroneRegTx params oracles sporkActive checkSigs prevHeight droneList tx = .ok ()) :
    isDronePayoutEffective params sporkActive (prevHeight + 1) = true ∧
      ∃ reg, tx.droneRegPayload = some reg := by
  obtain ⟨_, heffective, hpayload⟩ := bind_eq_ok_iff.mp h
  refine ⟨require_eq_ok_iff.mp heffective, ?_⟩
  cases hreg : tx.droneRegPayload with
  | none =>
    rw [hreg] at hpayload
    cases hpayload
  | some reg => exact ⟨reg, rfl⟩

end Kerrigan.Drone
