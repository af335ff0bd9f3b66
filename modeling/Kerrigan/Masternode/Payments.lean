import Kerrigan.Drone.Build
import Kerrigan.Lib.Outcome
import Kerrigan.Lib.Width

/-!
# Coinbase payments

`CMNPaymentsProcessor`: the outputs that the coinbase of a height has to have, how a template
gets them, and how a block is checked for them.  Amounts are signed 64-bit values; a function
has no value where the source overflows or throws.
-/

namespace Kerrigan.Masternode

open Primitives Consensus Drone Lib

/-! ## Masternodes -/

inductive MnType
  | regular
  | evo
  deriving DecidableEq

def evoVotingWeight : Int := 4

/-- What the payments read of a masternode.  The operator reward is in hundredths of a percent;
registrations with more than the whole are invalid. -/
structure CDeterministicMN where
  proTxHash : Uint256
  nType : MnType
  nOperatorReward : Nat
  scriptPayout : Script
  scriptOperatorPayout : Script
  nRegisteredHeight : Int
  nLastPaidHeight : Int
  nConsecutivePayments : Int
  nPoSeRevivedHeight : Int
  isBanned : Bool
  nOperatorReward_le : nOperatorReward ≤ 10000

/-- The masternodes after a block, in the order of the map. -/
structure CDeterministicMNList where
  nHeight : Int
  mnMap : List CDeterministicMN

namespace CDeterministicMNList

def lastPaidHeight (dmn : CDeterministicMN) : Int :=
  if dmn.nPoSeRevivedHeight ≠ -1 ∧ dmn.nLastPaidHeight < dmn.nPoSeRevivedHeight then
    dmn.nPoSeRevivedHeight
  else if dmn.nLastPaidHeight = 0 then dmn.nRegisteredHeight
  else dmn.nLastPaidHeight

def compareByLastPaid (a b : CDeterministicMN) : Bool :=
  if lastPaidHeight a = lastPaidHeight b then a.proTxHash < b.proTxHash
  else lastPaidHeight a < lastPaidHeight b

variable (list : CDeterministicMNList)

def valid : List CDeterministicMN :=
  list.mnMap.filter (fun dmn => !dmn.isBanned)

def enabled : Nat := list.valid.length

def evoPayee : Option CDeterministicMN :=
  list.valid.foldl (fun best dmn =>
    if dmn.nLastPaidHeight = list.nHeight ∧ dmn.nType = .evo ∧
        dmn.nConsecutivePayments < evoVotingWeight then some dmn
    else best) none

def getMNPayee (isv19Active isMNRewardReallocation : Bool) : Option CDeterministicMN :=
  let again := if isv19Active ∧ ¬ isMNRewardReallocation then list.evoPayee else none
  match again with
  | some dmn => some dmn
  | none => list.valid.foldl (fun best dmn =>
      if best.all (fun current => compareByLastPaid dmn current) then some dmn else best) none

end CDeterministicMNList

/-! ## Required outputs -/

structure PaymentParams extends Params where
  devFundPaymentScript : Script := []
  foundersPaymentScript : Script := []
  legacyDevFundScripts : List Script := []
  legacyFoundersPaymentScripts : List Script := []
  nGrowthEscrowEndHeight : Int := 0
  /-- From this height on superseded treasury scripts are refused; 0 never refuses them. -/
  nLegacyDevfundSunsetHeight : Int := 0
  devnet : Bool := false

/-- What the processor reads of the previous block and of the other managers. -/
structure PaymentState where
  nBlockHeight : Int
  droneSporkActive : Bool
  droneList : CDroneList
  mnList : CDeterministicMNList
  isv19Active : Bool
  isMNRewardReallocation : Bool

def isDronePayoutEffective (params : Params) (state : PaymentState) : Bool :=
  params.isDronePayoutActive state.nBlockHeight && state.droneSporkActive

variable (params : PaymentParams) (state : PaymentState) (nBlockHeight : Int)

def growthSlotScript : Script :=
  let payee := if isDronePayoutEffective params.toParams state then
    getPayee params.toParams state.droneList state.nBlockHeight else none
  match payee with
  | some drone => drone.payoutScript
  | none =>
      if 0 < params.nGrowthEscrowEndHeight ∧ params.nGrowthEscrowEndHeight < state.nBlockHeight then
        [opReturn]
      else params.growthEscrowScript

def getMasternodePayment (blockValue : Int) : Int := blockValue.tdiv 5

variable (dmnPayee : CDeterministicMN) (mnReward : Int) (txNew : CTransaction)
  (blockSubsidy feeReward : Int)

def operatorShare : Option Int :=
  if dmnPayee.nOperatorReward ≠ 0 ∧ dmnPayee.scriptOperatorPayout ≠ [] then
    (checked64 (mnReward * dmnPayee.nOperatorReward)).map (fun value => value.tdiv 10000)
  else some 0

def positiveOut (nValue : Int) (scriptPubKey : Script) : List CTxOut :=
  if 0 < nValue then [⟨nValue, scriptPubKey⟩] else []

def masternodeOuts : Option (List CTxOut) := do
  let operatorReward ← operatorShare dmnPayee mnReward
  let mnReward ← checked64 (mnReward - operatorReward)
  return positiveOut mnReward dmnPayee.scriptPayout ++
    positiveOut operatorReward dmnPayee.scriptOperatorPayout

def payeeOuts : Option (List CTxOut) :=
  if 0 < state.mnList.enabled then
    match state.mnList.getMNPayee state.isv19Active state.isMNRewardReallocation with
    | some dmnPayee => masternodeOuts dmnPayee mnReward
    | none => some []
  else some []

def percentOf (totalReward percent : Int) : Option Int :=
  (checked64 (totalReward * percent)).map (fun value => value.tdiv 100)

def getBlockTxOuts : Option (List CTxOut) := do
  let totalReward ← checked64 (blockSubsidy + feeReward)
  let escrowReward ← percentOf totalReward 40
  let mnOuts ← payeeOuts state (getMasternodePayment totalReward)
  let devReward ← percentOf totalReward 15
  let foundersReward ← percentOf totalReward 5
  return ⟨escrowReward, growthSlotScript params state⟩ :: mnOuts ++
    [⟨devReward, params.devFundPaymentScript⟩, ⟨foundersReward, params.foundersPaymentScript⟩]

/-! ## `FillBlockPayments` -/

def sumPayments (totalPayments : Int) : List CTxOut → Option Int
  | [] => some totalPayments
  | txout :: rest => do sumPayments (← checked64 (totalPayments + txout.nValue)) rest

def subtractPayments (nValue : Int) : List CTxOut → Option Int
  | [] => some nValue
  | txout :: rest => do subtractPayments (← checked64 (nValue - txout.nValue)) rest

def fillBlockPayments : Option CTransaction := do
  let voutMasternodePayments ← getBlockTxOuts params state blockSubsidy feeReward
  let totalPayments ← sumPayments 0 voutMasternodePayments
  match txNew.vout with
  | [] => none
  | first :: others =>
      if first.nValue < totalPayments then some txNew
      else do
        let nValue ← subtractPayments first.nValue voutMasternodePayments
        return { txNew with vout := { first with nValue } :: others ++ voutMasternodePayments }

/-! ## Block checks -/

def isLegacyTreasuryConsulted (nSunsetHeight : Int) : Bool :=
  nSunsetHeight = 0 || nBlockHeight < nSunsetHeight

def legacyScripts (current : Script) : List Script :=
  if current = params.growthEscrowScript then params.legacyEscrowScripts
  else if current = params.devFundPaymentScript then
    if isLegacyTreasuryConsulted nBlockHeight params.nLegacyDevfundSunsetHeight then
      params.legacyDevFundScripts
    else []
  else if current = params.foundersPaymentScript then
    if isLegacyTreasuryConsulted nBlockHeight params.nLegacyDevfundSunsetHeight then
      params.legacyFoundersPaymentScripts
    else []
  else []

/-- One round of the loop of `IsTransactionValid`: an expected output takes the output that
equals it, or the first one to a superseded script, away from those that remain. -/
def takePayment (remaining : List CTxOut) (txout : CTxOut) : Option (List CTxOut) :=
  if txout ∈ remaining then some (remaining.erase txout)
  else
    let alternatives := ((legacyScripts params nBlockHeight txout.scriptPubKey).filter
      (fun legacy => legacy ≠ [])).map (fun legacy => (⟨txout.nValue, legacy⟩ : CTxOut))
    (alternatives.find? (fun alt => alt ∈ remaining)).map (fun alt => remaining.erase alt)

def isTransactionValid : Option Bool :=
  if params.devnet ∧ state.nBlockHeight = 1 then some true
  else (getBlockTxOuts params state blockSubsidy feeReward).map (fun voutTreasuryPayments =>
    (voutTreasuryPayments.foldlM (takePayment params state.nBlockHeight) txNew.vout).isSome)

def isBlockValueValid (coinbase : CTransaction) (nBlockHeight blockReward : Int) :
    Option (Except String Unit) :=
  coinbase.getValueOut.map (fun actual =>
    require (actual ≤ blockReward)
      s!"coinbase pays too much at height {nBlockHeight} (actual={actual} vs limit={blockReward}), exceeded block reward")

end Kerrigan.Masternode
