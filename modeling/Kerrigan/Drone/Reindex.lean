import Kerrigan.Drone.Invariant
import Kerrigan.Validation.Supply

/-!
# Revalidation of the drone fork

The fork has three gates that read the spork: the type check of a transaction, the check of a
registration, and the split of the coinbase.  The list transition does not read it.  While the spork
is off no registration is accepted and the list stays empty, and then the coinbase split does not
depend on the spork.
-/

namespace Kerrigan.Drone

open Primitives Consensus Lib Masternode Validation CDroneList

/-! ## Accepting a block -/

structure ForkRules where
  params : PaymentParams
  /-- Of these only `DIP0003Height` is read. -/
  ledger : LedgerParams
  oracles : DroneOracles
  checkSigs : Bool

/-- What the acceptance of a block depends on besides the drones; nothing here reads the spork. -/
structure ForkContext where
  mnList : CBlockIndex → CDeterministicMNList
  isv19Active : CBlockIndex → Bool
  isMNRewardReallocation : CBlockIndex → Bool
  blockSubsidy : CBlockIndex → Int
  feeReward : CBlockIndex → CBlock → Int
  /-- All other rules of `AcceptBlock` and `ConnectBlock`. -/
  otherChecks : CBlockIndex → CBlock → Except String Unit

section Accept

variable (rules : ForkRules) (context : ForkContext) (spork : Bool) (pprev : CBlockIndex)
  (droneList : CDroneList)

def paymentState : PaymentState where
  nBlockHeight := pprev.nHeight + 1
  droneSporkActive := spork
  droneList := droneList
  mnList := context.mnList pprev
  isv19Active := context.isv19Active pprev
  isMNRewardReallocation := context.isMNRewardReallocation pprev

def requiredOuts (block : CBlock) : Option (List CTxOut) :=
  getBlockTxOuts rules.params (paymentState context spork pprev droneList)
    (context.blockSubsidy pprev) (context.feeReward pprev block)

def checkRegistration (tx : CTransaction) : Except String Unit :=
  if isRegistration tx then do
    require (rules.ledger.DIP0003Height ≤ pprev.nHeight + 1) "bad-tx-type"
    checkDroneRegTx rules.params.toParams rules.oracles spork rules.checkSigs pprev.nHeight
      droneList tx
  else .ok ()

def processDroneBlock (block : CBlock) : Except String CDroneList :=
  if rules.params.isDronePayoutActive (pprev.nHeight + 1) then
    match nextList rules.params.toParams droneList (pprev.nHeight + 1, block) with
    | none => .error "failed-drone-block"
    | some newList => .ok newList
  else .ok (empty block.hash (pprev.nHeight + 1))

def checkBlockPayee (block : CBlock) : Except String Unit :=
  match block.vtx with
  | [] => .error "bad-cb-missing"
  | coinbase :: _ =>
      require (isTransactionValid rules.params (paymentState context spork pprev droneList) coinbase
        (context.blockSubsidy pprev) (context.feeReward pprev block) = some true) "bad-cb-payee"

def acceptForkBlock (block : CBlock) : Except String CDroneList := do
  block.vtx.forM (contextualCheckTransaction rules.ledger
    (isDronePayoutEffective rules.params.toParams spork (pprev.nHeight + 1))
    (pprev.nHeight + 1))
  context.otherChecks pprev block
  block.vtx.forM (checkRegistration rules spork pprev droneList)
  let newList ← processDroneBlock rules pprev droneList block
  checkBlockPayee rules context spork pprev droneList block
  .ok newList

end Accept

def validateChain (rules : ForkRules) (context : ForkContext) (spork : Int → Bool) :
    CBlockIndex → Except String CDroneList
  | .genesis hash => .ok (empty hash 0)
  | .child pprev block => do
      let droneList ← validateChain rules context spork pprev
      acceptForkBlock rules context (spork (pprev.nHeight + 1)) pprev droneList block

/-! ## What an accepted block says -/

section Block

variable {rules : ForkRules} {context : ForkContext} {spork : Bool} {pprev : CBlockIndex}
  {droneList newList : CDroneList} {block : CBlock}

theorem acceptForkBlock_eq_ok_iff :
    acceptForkBlock rules context spork pprev droneList block = .ok newList ↔
      (∀ tx ∈ block.vtx, contextualCheckTransaction rules.ledger
        (isDronePayoutEffective rules.params.toParams spork (pprev.nHeight + 1))
        (pprev.nHeight + 1) tx = .ok ()) ∧
      context.otherChecks pprev block = .ok () ∧
      (∀ tx ∈ block.vtx, checkRegistration rules spork pprev droneList tx = .ok ()) ∧
      processDroneBlock rules pprev droneList block = .ok newList ∧
      checkBlockPayee rules context spork pprev droneList block = .ok () := by
  unfold acceptForkBlock
  simp only [bind_eq_ok_iff, Except.ok.injEq]
  constructor
  · rintro ⟨⟨⟩, hcontextual, ⟨⟩, hother, ⟨⟩, hregistrations, found, hlist, ⟨⟩, hpayee, rfl⟩
    exact ⟨forM_eq_ok_iff.mp hcontextual, hother, forM_eq_ok_iff.mp hregistrations, hlist, hpayee⟩
  · rintro ⟨hcontextual, hother, hregistrations, hlist, hpayee⟩
    exact ⟨(), forM_eq_ok_iff.mpr hcontextual, (), hother, (), forM_eq_ok_iff.mpr hregistrations,
      newList, hlist, (), hpayee, rfl⟩

theorem not_isRegistration_of_off
    (hchecked : ∀ tx ∈ block.vtx, checkRegistration rules false pprev droneList tx = .ok ()) :
    ∀ tx ∈ block.vtx, isRegistration tx = false := by
  intro tx htx
  cases hregistration : isRegistration tx with
  | false => rfl
  | true =>
    have hpasses := hchecked tx htx
    rw [checkRegistration, if_pos hregistration] at hpasses
    obtain ⟨_, -, hdrone⟩ := bind_eq_ok_iff.mp hpasses
    have heffective := (checkDroneRegTx_eq_ok hdrone).1
    simp [isDronePayoutEffective] at heffective

theorem contextualCheckTransaction_of_off {ledger : LedgerParams} {nHeight : Int}
    {tx : CTransaction}
    (hchecked : contextualCheckTransaction ledger false nHeight tx = .ok ())
    (fDronePayoutActive : Bool) :
    contextualCheckTransaction ledger fDronePayoutActive nHeight tx = .ok () := by
  have hknown : isKnownType false tx.nType = true →
      isKnownType fDronePayoutActive tx.nType = true := by
    cases tx.nType <;> simp [isKnownType]
  unfold contextualCheckTransaction at hchecked ⊢
  split
  · rw [if_pos ‹_›] at hchecked
    split
    · rw [if_pos ‹_›] at hchecked
      simp only [bind_eq_ok_iff, require_eq_ok_iff] at hchecked ⊢
      obtain ⟨_, htype, hcoinbase⟩ := hchecked
      exact ⟨(), hknown htype, hcoinbase⟩
    · rw [if_neg ‹_›] at hchecked
      exact hchecked
  · rfl

section

variable (hempty : ∀ pkh : Uint160, droneList.droneMap[pkh]? = none)

include hempty

theorem growthSlotScript_of_empty (other : Bool) :
    growthSlotScript rules.params (paymentState context spork pprev droneList) =
      growthSlotScript rules.params (paymentState context other pprev droneList) := by
  have hpayee : getPayee rules.params.toParams droneList (pprev.nHeight + 1) = none := by
    rw [Option.eq_none_iff_forall_ne_some]
    intro payee hpayee
    have hlisted := (getPayee_mem hpayee).1
    rw [hempty] at hlisted
    cases hlisted
  simp only [growthSlotScript, paymentState, hpayee, ite_self]
  rfl

theorem requiredOuts_of_empty (other : Bool) :
    requiredOuts rules context spork pprev droneList block =
      requiredOuts rules context other pprev droneList block := by
  unfold requiredOuts getBlockTxOuts
  rw [growthSlotScript_of_empty hempty other]
  rfl

theorem checkBlockPayee_of_empty (other : Bool) :
    checkBlockPayee rules context spork pprev droneList block =
      checkBlockPayee rules context other pprev droneList block := by
  have hrequired := @requiredOuts_of_empty rules context spork pprev droneList block hempty other
  unfold requiredOuts at hrequired
  unfold checkBlockPayee isTransactionValid
  rw [hrequired]
  rfl

theorem processDroneBlock_of_empty (hnone : ∀ tx ∈ block.vtx, isRegistration tx = false)
    (hprocess : processDroneBlock rules pprev droneList block = .ok newList) :
    ∀ pkh : Uint160, newList.droneMap[pkh]? = none := by
  intro pkh
  unfold processDroneBlock at hprocess
  split at hprocess
  · split at hprocess
    · cases hprocess
    · rename_i found hfound
      cases hprocess
      obtain ⟨built, hbuilt, rfl⟩ := Option.map_eq_some_iff.mp hfound
      have hchanges := buildListFromBlock_changes hbuilt pkh
      rw [markedEntry, hempty, Option.map_none] at hchanges
      cases hentry : built.droneMap[pkh]? with
      | none => rfl
      | some entry =>
        rw [hentry] at hchanges
        cases hchanges with
        | registered _ entered =>
          obtain ⟨tx, htx, hregistered⟩ := entered
          have hregistering := hregistered.registering
          rw [hnone tx htx] at hregistering
          cases hregistering
  · cases hprocess
    simp [empty]

theorem acceptForkBlock_of_off
    (haccepted : acceptForkBlock rules context false pprev droneList block = .ok newList) :
    acceptForkBlock rules context true pprev droneList block = .ok newList := by
  obtain ⟨hcontextual, hother, hregistrations, hlist, hpayee⟩ :=
    acceptForkBlock_eq_ok_iff.mp haccepted
  have hnone := not_isRegistration_of_off hregistrations
  refine acceptForkBlock_eq_ok_iff.mpr ⟨?_, hother, ?_, hlist, ?_⟩
  · intro tx htx
    have hoff := hcontextual tx htx
    simp only [isDronePayoutEffective, Bool.and_false] at hoff
    exact contextualCheckTransaction_of_off hoff _
  · intro tx htx
    rw [checkRegistration, if_neg (by simp [hnone tx htx])]
  · rw [checkBlockPayee_of_empty hempty false]
    exact hpayee

end

end Block

/-! ## Whole chains -/

section Chain

variable {rules : ForkRules} {context : ForkContext} {spork : Int → Bool} {index : CBlockIndex}
  {droneList : CDroneList}

theorem validateChain_foldList (h : validateChain rules context spork index = .ok droneList) :
    foldList rules.params.toParams index = some droneList := by
  induction index generalizing droneList with
  | genesis hash =>
    cases h
    exact foldList_genesis _ hash
  | child pprev block ih =>
    obtain ⟨before, hbefore, haccepted⟩ := bind_eq_ok_iff.mp h
    obtain ⟨-, -, -, hlist, -⟩ := acceptForkBlock_eq_ok_iff.mp haccepted
    unfold processDroneBlock at hlist
    split at hlist
    · rename_i hactive
      rw [foldList_active hactive, ih hbefore, Option.bind_some]
      split at hlist
      · cases hlist
      · rename_i found hfound
        cases hlist
        exact hfound
    · rename_i hinactive
      cases hlist
      exact foldList_inactive hinactive

theorem validateChain_of_off (hoff : ∀ height ≤ index.nHeight, spork height = false)
    (h : validateChain rules context spork index = .ok droneList) :
    ∀ pkh : Uint160, droneList.droneMap[pkh]? = none := by
  induction index generalizing droneList with
  | genesis hash =>
    cases h
    simp [empty]
  | child pprev block ih =>
    obtain ⟨before, hbefore, haccepted⟩ := bind_eq_ok_iff.mp h
    have hempty := ih (fun height hheight => hoff height (by rw [CBlockIndex.nHeight]; omega))
      hbefore
    rw [hoff (pprev.nHeight + 1) le_rfl] at haccepted
    obtain ⟨-, -, hregistrations, hlist, -⟩ := acceptForkBlock_eq_ok_iff.mp haccepted
    exact processDroneBlock_of_empty hempty (not_isRegistration_of_off hregistrations) hlist

theorem validateChain_onChain {ancestor : CBlockIndex}
    (hancestor : CBlockIndex.OnChain ancestor index)
    (h : validateChain rules context spork index = .ok droneList) :
    ∃ found, validateChain rules context spork ancestor = .ok found := by
  induction hancestor generalizing droneList with
  | self => exact ⟨droneList, h⟩
  | child block _ ih =>
    obtain ⟨before, hbefore, -⟩ := bind_eq_ok_iff.mp h
    exact ih hbefore

/-- A chain that was accepted while the spork was switched on once is accepted with the spork on
throughout, with the same list. -/
theorem validateChain_switched {switch : Int}
    (h : validateChain rules context (fun height => decide (switch < height)) index =
      .ok droneList) :
    validateChain rules context (fun _ => true) index = .ok droneList := by
  induction index generalizing droneList with
  | genesis hash => exact h
  | child pprev block ih =>
    obtain ⟨before, hbefore, haccepted⟩ := bind_eq_ok_iff.mp h
    refine bind_eq_ok_iff.mpr ⟨before, ih hbefore, ?_⟩
    by_cases hon : switch < pprev.nHeight + 1
    · simpa [hon] using haccepted
    · have hoff : decide (switch < pprev.nHeight + 1) = false := decide_eq_false hon
      simp only [hoff] at haccepted
      refine acceptForkBlock_of_off (validateChain_of_off ?_ hbefore) haccepted
      intro height hheight
      exact decide_eq_false (by omega)

end Chain

/-- The fork is safe to revalidate: if a chain was accepted with the spork off up to a height and
on afterwards, a node with the spork on throughout accepts every block of it, has the same drone
list after every block, and requires the same outputs of every coinbase. -/
theorem drone_fork_reindex_safe (rules : ForkRules) (context : ForkContext) (switch : Int)
    (index : CBlockIndex) (droneList : CDroneList)
    (haccepted : validateChain rules context (fun height => decide (switch < height)) index =
      .ok droneList) (ancestor : CBlockIndex) (hancestor : CBlockIndex.OnChain ancestor index) :
    ∃ found, validateChain rules context (fun height => decide (switch < height)) ancestor =
        .ok found ∧
      validateChain rules context (fun _ => true) ancestor = .ok found ∧
      foldList rules.params.toParams ancestor = some found ∧
      ∀ pprev block, ancestor = .child pprev block → ∀ before,
        validateChain rules context (fun height => decide (switch < height)) pprev = .ok before →
        requiredOuts rules context (decide (switch < pprev.nHeight + 1)) pprev before block =
          requiredOuts rules context true pprev before block := by
  obtain ⟨found, hfound⟩ := validateChain_onChain hancestor haccepted
  refine ⟨found, hfound, validateChain_switched hfound, validateChain_foldList hfound, ?_⟩
  intro pprev block _ before hbefore
  by_cases hon : switch < pprev.nHeight + 1
  · rw [decide_eq_true hon]
  · refine requiredOuts_of_empty (validateChain_of_off ?_ hbefore) true
    intro height hheight
    exact decide_eq_false (by omega)

namespace ForkSample

open InvariantSample

def forkRules : ForkRules where
  params := {
    growthEscrowScript := [1], devFundPaymentScript := [2], foundersPaymentScript := [3]
    nDronePayoutHeight := 1, nDroneCollateralAmount := 5 }
  ledger := { SaplingHeight := 0, DIP0003Height := 1 }
  oracles := zeroOracles
  checkSigs := true

def plainContext : ForkContext where
  mnList := fun _ => ⟨0, []⟩
  isv19Active := fun _ => false
  isMNRewardReallocation := fun _ => false
  blockSubsidy := fun _ => 100
  feeReward := fun _ _ => 0
  otherChecks := fun _ _ => .ok ()

def splitCoinbase (slot : Script) : CTransaction :=
  { coinbaseTx 10 with vout := [⟨40, [9]⟩, ⟨40, slot⟩, ⟨15, [2]⟩, ⟨5, [3]⟩] }

/-- An escrow block with the spork off, a registration with the spork on, and the first payout to
the drone. -/
def switchedChain : CBlockIndex :=
  .child (.child (.child (.genesis 100) ⟨101, [splitCoinbase [1]]⟩)
    ⟨102, [splitCoinbase [1], bondTx]⟩) ⟨103, [splitCoinbase [3]]⟩

end ForkSample

open ForkSample in
theorem drone_fork_reindex_safe_switched :
    ∃ droneList, validateChain forkRules plainContext (fun height => decide (1 < height))
        switchedChain = .ok droneList ∧
      validateChain forkRules plainContext (fun _ => true) switchedChain = .ok droneList := by
  have hok : (validateChain forkRules plainContext (fun height => decide (1 < height))
      switchedChain).toBool = true := by decide +kernel
  cases haccepted : validateChain forkRules plainContext (fun height => decide (1 < height))
      switchedChain with
  | error reason =>
    rw [haccepted] at hok
    cases hok
  | ok droneList =>
    obtain ⟨found, hfound, hon, -, -⟩ := drone_fork_reindex_safe forkRules plainContext 1
      switchedChain droneList haccepted switchedChain (.self switchedChain)
    cases haccepted.symm.trans hfound
    exact ⟨droneList, rfl, hon⟩

end Kerrigan.Drone
