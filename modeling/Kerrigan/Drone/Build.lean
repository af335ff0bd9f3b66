import Kerrigan.Drone.List

/-!
# The list transition of a block

`BuildListFromBlock` derives the list after a block from the list before it: the payee
selected from the earlier list is marked as paid, spent bonds deregister their drones, and
registrations add a drone or renew its liveness signal.
-/

namespace Kerrigan.Drone

open Primitives Consensus CDroneList

/-! ## Payee selection -/

/-- `IsEligible`: the last liveness signal is recent enough. -/
def isEligible (params : Params) (entry : CDroneEntry) (nBlockHeight : Int) : Bool :=
  if 0 < params.nDroneMaxAge ∧ params.nDroneMaxAge < nBlockHeight - entry.nLastSeenHeight then
    false
  else true

def effectiveLastPaidHeight (entry : CDroneEntry) : Int :=
  if entry.nLastPaidHeight = 0 then entry.nRegisteredHeight else entry.nLastPaidHeight

def compareDronesByLastPaid (a b : CDroneEntry) : Bool :=
  if effectiveLastPaidHeight a = effectiveLastPaidHeight b then
    a.blsPubKeyHash < b.blsPubKeyHash
  else effectiveLastPaidHeight a < effectiveLastPaidHeight b

def betterPayee (params : Params) (nBlockHeight : Int) (best : Option CDroneEntry)
    (entry : CDroneEntry) : Option CDroneEntry :=
  if isEligible params entry nBlockHeight then
    match best with
    | none => some entry
    | some current => if compareDronesByLastPaid entry current then some entry else best
  else best

def getPayee (params : Params) (list : CDroneList) (nBlockHeight : Int) : Option CDroneEntry :=
  (list.droneMap.toList.map Prod.snd).foldl (betterPayee params nBlockHeight) none

/-! ## One transaction -/

def isValidDronePayoutScript (script : Script) : Bool :=
  if script.length = 0 ∨ 40 < script.length then false
  else if script.head? = some opReturn then false
  else true

def removeSpent (list : CDroneList) (txin : CTxIn) : Option CDroneList :=
  match list.getDroneByCollateral txin.prevout with
  | none => some list
  | some spent => list.removeDrone spent.blsPubKeyHash

def newEntry (nHeight : Int) (tx : CTransaction) (reg : CDroneRegTx) : CDroneEntry where
  blsPubKeyHash := reg.blsPubKeyHash
  payoutScript := reg.scriptPayout
  collateralOutpoint := ⟨tx.hash, reg.nCollateralIndex⟩
  irohNodeId := reg.irohNodeId
  nHardwareClass := reg.nHardwareClass
  nModelTier := reg.nModelTier
  nRegisteredHeight := nHeight
  nLastSeenHeight := nHeight
  nLastPaidHeight := 0

/-- A registration of a listed key is a heartbeat; one of a new key whose bond or payout
script is unusable does nothing. -/
def registerDrone (params : Params) (nHeight : Int) (tx : CTransaction) (list : CDroneList)
    (reg : CDroneRegTx) : Option CDroneList :=
  match list.getDrone reg.blsPubKeyHash with
  | some existing => list.updateDrone { existing with nLastSeenHeight := nHeight }
  | none =>
      if params.nDroneCollateralAmount ≤ 0 then some list
      else
        match tx.vout[reg.nCollateralIndex]? with
        | none => some list
        | some txout =>
            if txout.nValue ≠ params.nDroneCollateralAmount then some list
            else if !isValidDronePayoutScript reg.scriptPayout then some list
            else list.addDrone (newEntry nHeight tx reg)

/-- The body of the transaction loop; an undecodable registration throws. -/
def applyTx (params : Params) (nHeight : Int) (list : CDroneList) (tx : CTransaction) :
    Option CDroneList :=
  if tx.isCoinBase then some list
  else
    match forEach removeSpent list tx.vin with
    | none => none
    | some remaining =>
        if !tx.isSpecialTxVersion || tx.nType != .droneRegister then some remaining
        else
          match tx.droneRegPayload with
          | none => none
          | some reg => registerDrone params nHeight tx remaining reg

/-! ## One block -/

def markPaid (params : Params) (prevList : CDroneList) (nHeight : Int) (list : CDroneList) :
    Option CDroneList :=
  match getPayee params prevList nHeight with
  | none => some list
  | some payee => list.updateDrone { payee with nLastPaidHeight := nHeight }

def buildListFromBlock (params : Params) (prevList : CDroneList) (block : CBlock)
    (nHeight : Int) : Option CDroneList :=
  match markPaid params prevList nHeight { prevList with blockHash := 0, nHeight := nHeight } with
  | none => none
  | some paid => forEach (applyTx params nHeight) paid block.vtx

/-! ## The height of the new list -/

variable {list next : CDroneList}

theorem removeSpent_height {txin : CTxIn} (hstep : removeSpent list txin = some next) :
    next.nHeight = list.nHeight := by
  unfold removeSpent at hstep
  split at hstep
  · cases hstep
    rfl
  · exact (removeDrone_becomes hstep).nHeight

variable {params : Params} {nHeight : Int}

theorem registerDrone_height {tx : CTransaction} {reg : CDroneRegTx}
    (hstep : registerDrone params nHeight tx list reg = some next) :
    next.nHeight = list.nHeight := by
  unfold registerDrone at hstep
  split at hstep
  · exact (updateDrone_becomes hstep).nHeight
  · split at hstep
    · cases hstep
      rfl
    · split at hstep
      · cases hstep
        rfl
      · split at hstep
        · cases hstep
          rfl
        · split at hstep
          · cases hstep
            rfl
          · exact (addDrone_becomes hstep).nHeight

theorem applyTx_height {tx : CTransaction} (hstep : applyTx params nHeight list tx = some next) :
    next.nHeight = list.nHeight := by
  unfold applyTx at hstep
  split at hstep
  · cases hstep
    rfl
  · split at hstep
    · cases hstep
    · rename_i remaining hspent
      have hremaining : remaining.nHeight = list.nHeight :=
        forEach_preserves (fun _ _ _ hheight hone => (removeSpent_height hone).trans hheight)
          rfl hspent
      split at hstep
      · cases hstep
        exact hremaining
      · split at hstep
        · cases hstep
        · exact (registerDrone_height hstep).trans hremaining

theorem buildListFromBlock_height {prevList newList : CDroneList} {block : CBlock}
    (hbuild : buildListFromBlock params prevList block nHeight = some newList) :
    newList.nHeight = nHeight := by
  unfold buildListFromBlock at hbuild
  split at hbuild
  · cases hbuild
  · rename_i paid hpaid
    have hstart : paid.nHeight = nHeight := by
      unfold markPaid at hpaid
      split at hpaid
      · cases hpaid
        rfl
      · exact (updateDrone_becomes hpaid).nHeight
    exact forEach_preserves (fun _ _ _ hheight hone => (applyTx_height hone).trans hheight)
      hstart hbuild

end Kerrigan.Drone
