import Kerrigan.Consensus.Params
import Kerrigan.Consensus.TxVerify
import Kerrigan.Lib.OrdMap
import Kerrigan.Util.ParseFixedPoint

/-!
# The growth escrow gate

Coins on an escrow script are locked.  A transaction that spends one is valid only
as a release that names a funded governance proposal and pays what the proposal
approves, or as a pure burn.  This module translates the two tests and the gate
that `ConnectBlock` applies to every transaction after its coinbase.
-/

namespace Kerrigan.Escrow

open Primitives Consensus Util

/-! ## Release markers and execution records -/

def krgnMagic : List UInt8 := [0x4b, 0x52, 0x47, 0x4e]

def uint256OfBytes (bytes : List UInt8) : Uint256 :=
  bytes.foldr (fun byte rest => byte.toNat + 256 * rest) 0

/-- The proposal named by a 38-byte `OP_RETURN` script that pushes the magic and a hash. -/
def parseMarker (script : Script) : Option Uint256 :=
  if script.length = 38 ∧ script.head? = some opReturn ∧ script[1]? = some 0x24 ∧
      (script.drop 2).take 4 = krgnMagic then
    some (uint256OfBytes (script.drop 6))
  else none

variable (params : Params) (decodeDestination : String → Option Script) (tx : CTransaction)

def findMarker : Option Uint256 :=
  tx.vout.findSome? (fun txout => parseMarker txout.scriptPubKey)

abbrev CEvoDB := Std.ExtTreeMap Uint256 Int

variable (escrowScript : Script) (approvedAmount : Int) (approvedScript : Script) (nHeight : Int)
  (view : CCoinsView) (evodb : CEvoDB) (hash : Uint256)

def isEscrowReleaseExecuted : Bool :=
  evodb[hash]?.isSome

def markEscrowReleaseExecuted (height : Int) : CEvoDB :=
  evodb.insert hash height

def unmarkEscrowReleaseExecuted : CEvoDB :=
  evodb.erase hash

theorem isEscrowReleaseExecuted_mark {evodb : CEvoDB} {hash other : Uint256} {height : Int} :
    isEscrowReleaseExecuted (markEscrowReleaseExecuted evodb hash height) other = true ↔
      other = hash ∨ isEscrowReleaseExecuted evodb other = true := by
  unfold isEscrowReleaseExecuted markEscrowReleaseExecuted
  by_cases hsame : hash = other
  · simp [hsame]
  · simp [hsame, Ne.symm hsame]

theorem isEscrowReleaseExecuted_unmark {evodb : CEvoDB} {hash other : Uint256} :
    isEscrowReleaseExecuted (unmarkEscrowReleaseExecuted evodb hash) other = true ↔
      other ≠ hash ∧ isEscrowReleaseExecuted evodb other = true := by
  unfold isEscrowReleaseExecuted unmarkEscrowReleaseExecuted
  by_cases hsame : hash = other
  · simp [hsame]
  · simp [hsame, Ne.symm hsame]

/-! ## Governance objects -/

inductive GovernanceObjectType where
  | unknown
  | proposal
  | trigger
  | escrowRelease
  deriving DecidableEq, Repr

/-- What the hash of a governance object commits to, as far as the gate reads it:
the type and the two payment fields of its data, absent when they do not decode. -/
structure GovernanceData where
  objectType : GovernanceObjectType
  paymentAmountStr : Option String
  paymentAddress : Option String
  deriving DecidableEq, Repr

/-- A stored governance object with its locally cached funding flag. -/
structure CGovernanceObject where
  data : GovernanceData
  cachedFunding : Bool
  deriving DecidableEq, Repr

/-- `mapObjects` of a node's governance manager. -/
abbrev GovernanceStore := Uint256 → Option CGovernanceObject

def findFundedEscrowRelease (store : GovernanceStore) (hash : Uint256) :
    Option CGovernanceObject :=
  match store hash with
  | none => none
  | some object =>
      if object.data.objectType ≠ .escrowRelease then none
      else if !object.cachedFunding then none
      else some object

def approvedPayment (data : GovernanceData) : Except String (Int × Script) :=
  match data.paymentAmountStr, data.paymentAddress with
  | some strAmount, some strAddress =>
      match parseFixedPoint strAmount 8 with
      | none => .error "bad-escrow-amount"
      | some amount =>
          if !moneyRange amount then .error "bad-escrow-amount"
          else
            match decodeDestination strAddress with
            | none => .error "bad-escrow-address"
            | some script => .ok (amount, script)
  | _, _ => .error "bad-escrow-parse"

/-! ## The release check -/

def isPayment (txout : CTxOut) : Bool :=
  txout.scriptPubKey == approvedScript && txout.nValue == approvedAmount

def outputsTo (tx : CTransaction) : List CTxOut :=
  tx.vout.filter (fun txout => txout.scriptPubKey == approvedScript)

/-- Steps 6 to 7b of the release check: the outputs of the transaction against the
approved payment and the escrow script that funds it. -/
def checkReleaseOutputs : Except String Unit :=
  if !tx.vout.any (isPayment approvedAmount approvedScript) then
    .error "bad-escrow-output-mismatch"
  else if (outputsTo approvedScript tx).length ≠ 1 ∨
      totalValue (outputsTo approvedScript tx) ≠ approvedAmount then
    .error "bad-escrow-duplicate-payment"
  else if !tx.vout.all (fun txout => isPayment approvedAmount approvedScript txout ||
      txout.scriptPubKey == escrowScript || isUnspendable txout.scriptPubKey) then
    .error "bad-escrow-unauthorized-output"
  else .ok ()

def checkGovernanceEscrowSpend (nBlockHeight nEscrowUnlockHeight : Int) (evodb : CEvoDB)
    (pGovMan : Option GovernanceStore) : Except String CEvoDB :=
  if 0 < nEscrowUnlockHeight ∧ nBlockHeight < nEscrowUnlockHeight then
    .error "bad-escrow-locked-window"
  else
    match findMarker tx with
    | none => .error "bad-escrow-no-proposal"
    | some proposalHash =>
        if isEscrowReleaseExecuted evodb proposalHash then .error "bad-escrow-already-executed"
        else
          match pGovMan with
          | none => .error "bad-escrow-no-govman"
          | some store =>
              match findFundedEscrowRelease store proposalHash with
              | none => .error "bad-escrow-not-funded"
              | some object =>
                  match approvedPayment decodeDestination object.data with
                  | .error reason => .error reason
                  | .ok (approvedAmount, approvedScript) =>
                      match checkReleaseOutputs tx escrowScript approvedAmount approvedScript with
                      | .error reason => .error reason
                      | .ok () => .ok (markEscrowReleaseExecuted evodb proposalHash nBlockHeight)

/-! ## Pure burns and the gate -/

def sumEscrowInputs (params : Params) (view : CCoinsView) (inSum : Int) :
    List CTxIn → Option Int
  | [] => some inSum
  | txin :: rest =>
      match view txin.prevout with
      | none => none
      | some coin =>
          if !params.isGrowthEscrowScript coin.out.scriptPubKey then none
          else if !moneyRange (inSum + coin.out.nValue) then none
          else sumEscrowInputs params view (inSum + coin.out.nValue) rest

def sumBurnOutputs (outSum : Int) : List CTxOut → Option Int
  | [] => some outSum
  | txout :: rest =>
      if txout.scriptPubKey.head? ≠ some opReturn then none
      else if txout.nValue < 0 then none
      else if !moneyRange (outSum + txout.nValue) then none
      else sumBurnOutputs (outSum + txout.nValue) rest

def isPureEscrowBurn (tx : CTransaction) : Bool :=
  if tx.isCoinBase then false
  else if tx.vin.isEmpty || tx.vout.isEmpty then false
  else if tx.nType ≠ .normal then false
  else
    match sumEscrowInputs params view 0 tx.vin, sumBurnOutputs 0 tx.vout with
    | some inSum, some outSum => inSum == outSum
    | _, _ => false

/-- The burn carve-out as `ConnectBlock` decides it. -/
def isEscrowBurn (tx : CTransaction) : Bool :=
  decide (0 < params.nEscrowBurnHeight ∧ params.nEscrowBurnHeight ≤ nHeight) &&
    isPureEscrowBurn params view tx

def matchedEscrowScript (tx : CTransaction) : Option Script :=
  tx.vin.findSome? (fun txin =>
    match view txin.prevout with
    | none => none
    | some coin =>
        if params.isGrowthEscrowScript coin.out.scriptPubKey then some coin.out.scriptPubKey
        else none)

def escrowGate (pGovMan : Option GovernanceStore) (tx : CTransaction) : Except String CEvoDB :=
  match matchedEscrowScript params view tx with
  | none => .ok evodb
  | some escrowScript =>
      if isEscrowBurn params nHeight view tx then .ok evodb
      else
        checkGovernanceEscrowSpend decodeDestination tx escrowScript nHeight
          params.nEscrowUnlockHeight evodb pGovMan

end Kerrigan.Escrow
