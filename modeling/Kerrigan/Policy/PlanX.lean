import Kerrigan.Lib.Width
import Kerrigan.Sapling.State
import Kerrigan.Validation.CoinOrigin

/-!
# Spending compromised coins

From an activation height on, a transaction that spends a compromised coin must sweep to the
recovery script: no shielded part, no other spendable output, and a bounded fee.  What all sweeps
of a chain fail to bring to the recovery script is at most the bound times their number.
-/

namespace Kerrigan.Policy

open Primitives Consensus Escrow Lib Sapling List CTxOut
open Validation (EveryCoin spendInputs_zip)

/-! ## The rule -/

def maxRecoveryFee : Int := coinValue / 1000

def payToScriptHash (bytes : List UInt8) : Script := [0xa9, 0x14] ++ bytes ++ [0x87]

structure CompromisedRecoverySet where
  outpoints : List COutPoint := []
  scripts : List Script := []

namespace CompromisedRecoverySet

variable (set : CompromisedRecoverySet)

def isActive : Bool := !set.outpoints.isEmpty || !set.scripts.isEmpty

def containsOutpoint (outpoint : COutPoint) : Bool :=
  set.outpoints.contains outpoint

def containsScript (script : Script) : Bool :=
  set.scripts.contains script

end CompromisedRecoverySet

def placeholderSentinelScript : Script :=
  payToScriptHash (replicate 20 0xee)

def planXScriptIsPlaceholder (script : Script) : Bool :=
  script.isEmpty || script == placeholderSentinelScript

structure PlanXParams where
  nPlanXRecoveryActivationHeight : Int := 0
  compromised : CompromisedRecoverySet
  recovery : Script := payToScriptHash
    [0x37, 0x05, 0xba, 0x05, 0x47, 0xa9, 0xd2, 0x75, 0xc2, 0xcb, 0x6e, 0x6f, 0xa9, 0xd6, 0x65,
      0x06, 0x1a, 0xa9, 0x5f, 0xa6]
  legacyRecovery : Script := payToScriptHash
    [0x98, 0x35, 0xc3, 0xef, 0x59, 0x77, 0xc8, 0x27, 0x04, 0x5e, 0xdb, 0x68, 0x2d, 0x11, 0x37,
      0x61, 0x85, 0x6d, 0xeb, 0x58]

structure ShieldedDirection where
  isSapling : Bool := false
  spends : Nat := 0
  outputs : Nat := 0
  valueBalance : Int := 0

def classifyShieldedDirection (tx : CTransaction) : ShieldedDirection :=
  if !tx.isSpecialTxVersion || tx.nType ≠ .sapling then {}
  else
    match tx.saplingPayload with
    | none => {}
    | some payload =>
        { isSapling := true
          spends := payload.vSpendDescriptions.length
          outputs := payload.vOutputDescriptions.length
          valueBalance := payload.valueBalance }

def planXTxHasShieldedComponent (tx : CTransaction) : Bool :=
  let direction := classifyShieldedDirection tx
  direction.isSapling && (decide (0 < direction.spends) || decide (0 < direction.outputs) ||
    decide (direction.valueBalance ≠ 0))

namespace PlanXParams

variable (planX : PlanXParams)

def inputIsCompromised (view : CCoinsView) (txin : CTxIn) : Bool :=
  planX.compromised.containsOutpoint txin.prevout ||
    (view txin.prevout).any (fun coin => planX.compromised.containsScript coin.out.scriptPubKey)

def countedInputs (view : CCoinsView) (tx : CTransaction) : List Int :=
  (((tx.vin.filter (planX.inputIsCompromised view)).filterMap (fun txin => view txin.prevout)).map
    (fun coin => coin.out.nValue)).filter moneyRange

def countedOutputs (tx : CTransaction) : List Int :=
  ((tx.vout.filter (fun txout => !isUnspendable txout.scriptPubKey)).map nValue).filter
    moneyRange

def outputAllowed (acceptLegacy : Bool) (txout : CTxOut) : Bool :=
  isUnspendable txout.scriptPubKey || txout.scriptPubKey == planX.recovery ||
    (acceptLegacy && txout.scriptPubKey == planX.legacyRecovery)

def sumAmounts (values : List Int) : Int :=
  values.foldl (fun sum value => Width.machine.int64 (sum + value)) 0

def planXOnlyToRecoveryAllowed (nHeight : Int) (view : CCoinsView) (tx : CTransaction) :
    Option String :=
  let activationHeight := planX.nPlanXRecoveryActivationHeight
  let acceptLegacy := decide (nHeight < activationHeight)
  if 0 < nHeight ∧ 0 < activationHeight ∧ nHeight < activationHeight then none
  else if !planX.compromised.isActive then none
  else if planXScriptIsPlaceholder planX.recovery then none
  else if !tx.vin.any (planX.inputIsCompromised view) then none
  else if planXTxHasShieldedComponent tx then some "planx-shielded-compromised-spend"
  else if !tx.vout.all (planX.outputAllowed acceptLegacy) then some "planx-only-to-recovery"
  else if sumAmounts (countedOutputs tx) <
      Width.machine.int64 (sumAmounts (planX.countedInputs view tx) - maxRecoveryFee) then
    some "planx-recovery-fee-too-high"
  else none

/-! ## Sweeps -/

def compromises (spent : CTxIn × Coin) : Bool :=
  planX.compromised.containsOutpoint spent.1.prevout ||
    planX.compromised.containsScript spent.2.out.scriptPubKey

variable (sweep : CTransaction × CTxUndo)

/-- The transaction spends a compromised coin. -/
def touches : Bool :=
  (sweep.1.vin.zip sweep.2).any planX.compromises

def compromisedValue : Int :=
  coinsValue (((sweep.1.vin.zip sweep.2).filter planX.compromises).map Prod.snd)

def recoveredValue : Int :=
  totalValue (sweep.1.vout.filter (fun txout => txout.scriptPubKey == planX.recovery))

/-- A spend of compromised coins that brings them to the recovery script. -/
structure Recovers (sweep : CTransaction × CTxUndo) : Prop where
  leak : planX.compromisedValue sweep - planX.recoveredValue sweep ≤ maxRecoveryFee
  outputs : ∀ txout ∈ sweep.1.vout, isUnspendable txout.scriptPubKey = false →
    txout.scriptPubKey = planX.recovery
  shielded : ∀ hash, balanceOf ⟨hash, [sweep.1]⟩ = 0

end PlanXParams

theorem balanceOf_of_not_shielded {tx : CTransaction}
    (hshielded : planXTxHasShieldedComponent tx = false) (hash : Uint256) :
    balanceOf ⟨hash, [tx]⟩ = 0 := by
  unfold balanceOf payloadsOf saplingPayloadOf hasExtraPayloadField
  by_cases htype : tx.nType = .sapling
  · cases hversion : tx.isSpecialTxVersion with
    | false => simp [htype, hversion]
    | true =>
      cases hpayload : tx.saplingPayload with
      | none => simp [htype, hversion, hpayload]
      | some payload =>
        have hbalance : payload.valueBalance = 0 := by
          by_contra hne
          simp [planXTxHasShieldedComponent, classifyShieldedDirection, htype, hversion,
            hpayload, hne] at hshielded
        simp [htype, hversion, hpayload, hbalance]
  · simp [htype]

theorem sumAmounts_eq {values : List Int} (hnonneg : ∀ value ∈ values, 0 ≤ value)
    (hmax : values.sum ≤ maxMoney) : PlanXParams.sumAmounts values = values.sum := by
  have hfits : maxMoney < 2 ^ 63 := by decide
  have hsum := Width.machine_foldl_int64 le_rfl hnonneg (by omega)
  rw [Int.zero_add] at hsum
  exact hsum

namespace PlanXParams

variable (planX : PlanXParams) {view final : CCoinsView} {tx : CTransaction} {undo : CTxUndo}

section

variable (hspend : view.spendInputs tx.vin = some (final, undo))

include hspend

theorem filter_inputIsCompromised :
    tx.vin.filter (planX.inputIsCompromised view) =
      ((tx.vin.zip undo).filter planX.compromises).map Prod.fst := by
  obtain ⟨hlength, hzip⟩ := spendInputs_zip hspend
  have hvin : (tx.vin.zip undo).map Prod.fst = tx.vin := map_fst_zip (Nat.le_of_eq hlength)
  conv_lhs => rw [← hvin]
  rw [filter_map]
  refine congrArg (map Prod.fst) (filter_congr ?_)
  intro pair hpair
  rw [Function.comp_apply, inputIsCompromised, hzip pair hpair, Option.any_some, compromises]

theorem countedInputs_eq (hcoin : ∀ pair ∈ tx.vin.zip undo, moneyRange pair.2.out.nValue = true) :
    planX.countedInputs view tx =
      (((tx.vin.zip undo).filter planX.compromises).map Prod.snd).map
        (fun coin => coin.out.nValue) := by
  obtain ⟨-, hzip⟩ := spendInputs_zip hspend
  have hfound : ((tx.vin.zip undo).filter planX.compromises).filterMap
      ((fun txin => view txin.prevout) ∘ Prod.fst) =
      ((tx.vin.zip undo).filter planX.compromises).map Prod.snd := by
    rw [← filterMap_eq_map]
    refine filterMap_congr ?_
    intro pair hpair
    exact hzip pair (mem_of_mem_filter hpair)
  rw [countedInputs, planX.filter_inputIsCompromised hspend, filterMap_map, hfound,
    filter_eq_self]
  intro value hvalue
  obtain ⟨coin, hmem, rfl⟩ := mem_map.mp hvalue
  obtain ⟨pair, hpair, rfl⟩ := mem_map.mp hmem
  exact hcoin pair (mem_of_mem_filter hpair)

theorem sumAmounts_countedInputs (hmax : coinsValue (view.inputCoins tx) ≤ maxMoney)
    (hrange : ∀ txin ∈ tx.vin, ∃ coin, view txin.prevout = some coin ∧
      moneyRange coin.out.nValue = true) :
    sumAmounts (planX.countedInputs view tx) = planX.compromisedValue (tx, undo) ∧
      0 ≤ planX.compromisedValue (tx, undo) ∧ planX.compromisedValue (tx, undo) ≤ maxMoney := by
  obtain ⟨hlength, hzip⟩ := spendInputs_zip hspend
  have hundo : (tx.vin.zip undo).map Prod.snd = undo := map_snd_zip (Nat.le_of_eq hlength.symm)
  have hcoin : ∀ pair ∈ tx.vin.zip undo, moneyRange pair.2.out.nValue = true := by
    intro pair hpair
    obtain ⟨coin, hfound, hmoney⟩ := hrange pair.1 (of_mem_zip hpair).1
    rw [hzip pair hpair] at hfound
    rw [Option.some.inj hfound]
    exact hmoney
  have hsublist : Sublist
      ((((tx.vin.zip undo).filter planX.compromises).map Prod.snd).map
        (fun coin => coin.out.nValue)) (undo.map (fun coin => coin.out.nValue)) := by
    conv_rhs => rw [← hundo]
    exact (filter_sublist.map _).map _
  have hnonneg : ∀ value ∈ undo.map (fun coin => coin.out.nValue), (0 : Int) ≤ value := by
    intro value hvalue
    rw [← hundo] at hvalue
    obtain ⟨coin, hmem, rfl⟩ := mem_map.mp hvalue
    obtain ⟨pair, hpair, rfl⟩ := mem_map.mp hmem
    exact (moneyRange_iff.mp (hcoin pair hpair)).1
  have htotal : (undo.map (fun coin => coin.out.nValue)).sum ≤ maxMoney := by
    rw [CCoinsView.spendInputs_undo hspend]
    exact hmax
  have hle := hsublist.sum_le_sum hnonneg
  have hpart : ∀ value ∈ (((tx.vin.zip undo).filter planX.compromises).map Prod.snd).map
      (fun coin => coin.out.nValue), (0 : Int) ≤ value :=
    fun value hvalue => hnonneg value (hsublist.subset hvalue)
  refine ⟨?_, sum_nonneg hpart, hle.trans htotal⟩
  rw [planX.countedInputs_eq hspend hcoin, sumAmounts_eq hpart (hle.trans htotal)]
  rfl

end

theorem sumAmounts_countedOutputs (undo : CTxUndo) (houtputs : ∀ txout ∈ tx.vout, 0 ≤ txout.nValue)
    (hmax : totalValue tx.vout ≤ maxMoney)
    (hallowed : tx.vout.all (planX.outputAllowed false) = true) :
    sumAmounts (countedOutputs tx) ≤ planX.recoveredValue (tx, undo) := by
  have hrecovery : Sublist (tx.vout.filter (fun txout => !isUnspendable txout.scriptPubKey))
      (tx.vout.filter (fun txout => txout.scriptPubKey == planX.recovery)) := by
    have hboth : tx.vout.filter (fun txout => !isUnspendable txout.scriptPubKey) =
        (tx.vout.filter (fun txout => txout.scriptPubKey == planX.recovery)).filter
          (fun txout => !isUnspendable txout.scriptPubKey) := by
      rw [filter_filter]
      refine filter_congr ?_
      intro txout htxout
      have hout := all_eq_true.mp hallowed txout htxout
      cases hmarker : isUnspendable txout.scriptPubKey with
      | true => rfl
      | false =>
        simp only [outputAllowed, hmarker, Bool.false_or, Bool.false_and, Bool.or_false] at hout
        simp [hout]
    rw [hboth]
    exact filter_sublist
  have hnonneg : ∀ value ∈ tx.vout.map nValue, (0 : Int) ≤ value := by
    intro value hvalue
    obtain ⟨txout, hmem, rfl⟩ := mem_map.mp hvalue
    exact houtputs txout hmem
  have hcounted : Sublist (countedOutputs tx)
      ((tx.vout.filter (fun txout => txout.scriptPubKey == planX.recovery)).map nValue) :=
    filter_sublist.trans (hrecovery.map _)
  have hpaid : Sublist
      ((tx.vout.filter (fun txout => txout.scriptPubKey == planX.recovery)).map nValue)
      (tx.vout.map nValue) := filter_sublist.map _
  have hpaidNonneg := fun value hvalue => hnonneg value (hpaid.subset hvalue)
  have hle := hcounted.sum_le_sum hpaidNonneg
  rw [sumAmounts_eq (fun value hvalue => hpaidNonneg value (hcounted.subset hvalue))
    ((hle.trans (hpaid.sum_le_sum hnonneg)).trans hmax)]
  exact hle

/-- A transaction that the rule allows from the activation height on, and that spends compromised
coins, brings them to the recovery script. -/
theorem recovers_of_allowed {nHeight txfee : Int} (hset : planX.compromised.isActive = true)
    (hfinal : planXScriptIsPlaceholder planX.recovery = false)
    (hheight : planX.nPlanXRecoveryActivationHeight ≤ nHeight)
    (hplain : (tx.isSpecialTxVersion && tx.nType == .assetUnlock) = false)
    (hcheck : checkTxInputs tx view nHeight = .ok txfee)
    (hspend : view.spendInputs tx.vin = some (final, undo))
    (htouches : planX.touches (tx, undo) = true)
    (hallowed : planX.planXOnlyToRecoveryAllowed nHeight view tx = none) :
    planX.Recovers (tx, undo) := by
  obtain ⟨hin, hrange, hout⟩ := checkTxInputs_range hplain hcheck
  obtain ⟨-, -, -, -, houtputs⟩ := checkTxInputs_value hplain hcheck
  have hsince : ¬ (0 < nHeight ∧ 0 < planX.nPlanXRecoveryActivationHeight ∧
      nHeight < planX.nPlanXRecoveryActivationHeight) := by omega
  have hlegacy : decide (nHeight < planX.nPlanXRecoveryActivationHeight) = false := by
    rw [decide_eq_false_iff_not]
    omega
  have hany : tx.vin.any (planX.inputIsCompromised view) = true := by
    obtain ⟨pair, hpair, hcompromised⟩ := any_eq_true.mp htouches
    have hmem : pair.1 ∈ tx.vin.filter (planX.inputIsCompromised view) := by
      rw [planX.filter_inputIsCompromised hspend]
      exact mem_map_of_mem (mem_filter.mpr ⟨hpair, hcompromised⟩)
    exact any_eq_true.mpr ⟨pair.1, mem_filter.mp hmem⟩
  unfold planXOnlyToRecoveryAllowed at hallowed
  simp only [if_neg hsince, hset, hfinal, hany, hlegacy, Bool.not_true, Bool.false_eq_true,
    if_false] at hallowed
  split at hallowed
  · cases hallowed
  · rename_i hshielded
    split at hallowed
    · cases hallowed
    · rename_i hall
      split at hallowed
      · cases hallowed
      · rename_i hfee
        have hall : tx.vout.all (planX.outputAllowed false) = true := by simpa using hall
        obtain ⟨hsum, hnonneg, hmax⟩ := planX.sumAmounts_countedInputs hspend hin hrange
        have hpaid := planX.sumAmounts_countedOutputs undo houtputs hout hall
        refine ⟨?_, ?_, balanceOf_of_not_shielded (by simpa using hshielded)⟩
        · have hfits : maxMoney < 2 ^ 63 := by decide
          have hbound : 0 ≤ maxRecoveryFee ∧ maxRecoveryFee < 2 ^ 63 := by decide
          rw [hsum, Width.machine_int64 (by omega) (by omega)] at hfee
          omega
        · intro txout htxout hspendable
          have hone := all_eq_true.mp hall txout htxout
          simpa [outputAllowed, hspendable] using hone

end PlanXParams

/-! ## Chains -/

def checkAssetUnlockInputs (block : CBlock) : Option String :=
  if block.vtx.any (fun tx =>
      tx.isSpecialTxVersion && tx.nType == .assetUnlock && !tx.vin.isEmpty) then
    some "bad-assetunlocktx-have-input"
  else none

/-- A node with the blocks that `ConnectBlock` has accepted and the undo data it wrote. -/
structure PlanXNode where
  state : ChainState
  accepted : List ChainEntry

open PlanXNode

def PlanXNode.start : PlanXNode := ⟨ChainState.genesis, []⟩

inductive PlanXStep where
  | connect (block : CBlock) (checks : OtherChecks) (pGovMan : Option GovernanceStore)
  | disconnect (acceptUnclean : Bool)
  | rollforward (position : Nat)

namespace PlanXParams

variable (planX : PlanXParams) (params : Params) (decodeDestination : String → Option Script)

def withPlanX (checks : OtherChecks) : OtherChecks :=
  { checks with
    early := fun block nHeight view =>
      (checkAssetUnlockInputs block).orElse (fun _ => checks.early block nHeight view)
    perTx := fun nHeight view tx isBurn =>
      (planX.planXOnlyToRecoveryAllowed nHeight view tx).orElse
        (fun _ => checks.perTx nHeight view tx isBurn) }

def planXStep (node : PlanXNode) : PlanXStep → PlanXNode
  | .connect block checks pGovMan =>
      match connectBlock params decodeDestination (planX.withPlanX checks) node.state.nextHeight
          pGovMan block node.state.coins node.state.evodb with
      | .error _ => node
      | .ok (loop, blockUndo) =>
          let entry : ChainEntry := ⟨block, node.state.nextHeight, blockUndo⟩
          ⟨⟨entry :: node.state.activeChain, loop.view, loop.evodb⟩, entry :: node.accepted⟩
  | .disconnect acceptUnclean =>
      { node with state := (disconnectTip node.state acceptUnclean).getD node.state }
  | .rollforward position =>
      match node.accepted[position]? with
      | none => node
      | some entry =>
          match rollforwardBlock entry.nHeight node.state.coins entry.block.vtx with
          | none => node
          | some coins =>
              { node with state := ⟨entry :: node.state.activeChain, coins, node.state.evodb⟩ }

/-- The transactions of a block that spend compromised coins, from the activation height on. -/
def sweepsOf (entry : ChainEntry) : List (CTransaction × CTxUndo) :=
  if planX.nPlanXRecoveryActivationHeight ≤ entry.nHeight then
    (entry.block.vtx.tail.zip entry.blockUndo).filter planX.touches
  else []

def sweeps (chain : List ChainEntry) : List (CTransaction × CTxUndo) :=
  chain.flatMap planX.sweepsOf

/-- What the sweeps of a chain keep from the recovery script is bounded by their number; they pay
no other script and move nothing into the shielded pool. -/
structure LeakBounded (chain : List ChainEntry) : Prop where
  leak : ((planX.sweeps chain).map planX.compromisedValue).sum -
      ((planX.sweeps chain).map planX.recoveredValue).sum ≤
    maxRecoveryFee * (planX.sweeps chain).length
  outputs : ∀ sweep ∈ planX.sweeps chain, ∀ txout ∈ sweep.1.vout,
    isUnspendable txout.scriptPubKey = false → txout.scriptPubKey = planX.recovery
  shielded : ∀ sweep ∈ planX.sweeps chain, ∀ hash, balanceOf ⟨hash, [sweep.1]⟩ = 0

def RecoveringBlock (entry : ChainEntry) : Prop := ∀ sweep ∈ planX.sweepsOf entry, planX.Recovers sweep

structure RecoveringNode (node : PlanXNode) : Prop where
  chain : ∀ entry ∈ node.state.activeChain, planX.RecoveringBlock entry
  accepted : ∀ entry ∈ node.accepted, planX.RecoveringBlock entry

variable {planX}

theorem leak_le {swept : List (CTransaction × CTxUndo)}
    (hrecovers : ∀ sweep ∈ swept, planX.Recovers sweep) :
    (swept.map planX.compromisedValue).sum - (swept.map planX.recoveredValue).sum ≤
      maxRecoveryFee * swept.length := by
  induction swept with
  | nil => simp
  | cons sweep rest ih =>
    rw [forall_mem_cons] at hrecovers
    have hone := hrecovers.1.leak
    have hrest := ih hrecovers.2
    rw [map_cons, map_cons, sum_cons, sum_cons, length_cons,
      Nat.cast_add, mul_add]
    omega

theorem leakBounded_of_recovering {chain : List ChainEntry}
    (hchain : ∀ entry ∈ chain, planX.RecoveringBlock entry) : planX.LeakBounded chain := by
  have hrecovers : ∀ sweep ∈ planX.sweeps chain, planX.Recovers sweep := by
    intro sweep hsweep
    obtain ⟨entry, hentry, hmem⟩ := mem_flatMap.mp hsweep
    exact hchain entry hentry sweep hmem
  exact ⟨leak_le hrecovers, fun sweep hsweep => (hrecovers sweep hsweep).outputs,
    fun sweep hsweep => (hrecovers sweep hsweep).shielded⟩

section Run

variable {params : Params} {decodeDestination : String → Option Script}

theorem recoveringBlock_connect (hset : planX.compromised.isActive = true)
    (hfinal : planXScriptIsPlaceholder planX.recovery = false) {checks : OtherChecks}
    {nHeight : Int} {pGovMan : Option GovernanceStore} {block : CBlock} {view : CCoinsView}
    {evodb : CEvoDB} {loop : TxLoop} {blockUndo : CBlockUndo}
    (hconnect : connectBlock params decodeDestination (planX.withPlanX checks) nHeight pGovMan block
      view evodb = .ok (loop, blockUndo)) :
    planX.RecoveringBlock ⟨block, nHeight, blockUndo⟩ := by
  intro sweep hsweep
  unfold sweepsOf at hsweep
  split at hsweep
  · rename_i hheight
    obtain ⟨hpair, htouches⟩ := mem_filter.mp hsweep
    have hearly := connectBlock_early hconnect
    obtain ⟨coinbase, rest, withCoinbase, hvtx, -, hothers, -, htxs⟩ := connectBlock_eq_ok hconnect
    rw [hvtx, tail_cons] at hpair
    have hrest := (of_mem_zip hpair).1
    obtain ⟨-, -, hrounds⟩ := connectTxs_rounds (fun _ _ _ _ _ _ _ => trivial) trivial htxs
    obtain ⟨before, after, -, hround⟩ := hrounds sweep hpair
    obtain ⟨txfee, hcheck, -, -, hperTx, hupdate, -⟩ := connectTx_eq_ok_iff.mp hround
    obtain ⟨spent, hspend, -⟩ :=
      CCoinsView.updateCoins_spend (hothers sweep.1 hrest) hupdate
    have hplain : (sweep.1.isSpecialTxVersion && sweep.1.nType == .assetUnlock) = false := by
      have hinputs : sweep.1.vin.isEmpty = false := by
        obtain ⟨pair, hmem, -⟩ := any_eq_true.mp htouches
        rw [isEmpty_eq_false_iff]
        exact ne_nil_of_mem (of_mem_zip hmem).1
      have hblock : checkAssetUnlockInputs block = none := ((Option.orElse_eq_none _ _).mp hearly).1
      unfold checkAssetUnlockInputs at hblock
      split at hblock
      · cases hblock
      · rename_i hnone
        by_contra hunlock
        refine hnone (any_eq_true.mpr ⟨sweep.1, ?_, ?_⟩)
        · rw [hvtx]
          exact mem_cons_of_mem coinbase hrest
        · rw [hinputs, Bool.eq_true_of_not_eq_false hunlock]
          rfl
    exact recovers_of_allowed planX hset hfinal hheight hplain hcheck hspend htouches
      ((Option.orElse_eq_none _ _).mp hperTx).1
  · cases hsweep

theorem recoveringNode_step (hset : planX.compromised.isActive = true)
    (hfinal : planXScriptIsPlaceholder planX.recovery = false) {node : PlanXNode}
    (hnode : planX.RecoveringNode node) (step : PlanXStep) :
    planX.RecoveringNode (planX.planXStep params decodeDestination node step) := by
  cases step with
  | connect block checks pGovMan =>
    unfold planXStep
    dsimp only
    cases hconnect : connectBlock params decodeDestination (planX.withPlanX checks)
        node.state.nextHeight pGovMan block node.state.coins node.state.evodb with
    | error reason => exact hnode
    | ok result =>
      have hblock := recoveringBlock_connect hset hfinal hconnect
      exact ⟨forall_mem_cons.mpr ⟨hblock, hnode.chain⟩,
        forall_mem_cons.mpr ⟨hblock, hnode.accepted⟩⟩
  | disconnect acceptUnclean =>
    unfold planXStep
    dsimp only
    cases htip : disconnectTip node.state acceptUnclean with
    | none => exact hnode
    | some next =>
      obtain ⟨tip, rest, loop, hchain, -, rfl⟩ := disconnectTip_eq_some htip
      have hblocks := hnode.chain
      rw [hchain, forall_mem_cons] at hblocks
      exact ⟨hblocks.2, hnode.accepted⟩
  | rollforward position =>
    unfold planXStep
    dsimp only
    cases hfound : node.accepted[position]? with
    | none => exact hnode
    | some entry =>
      dsimp only
      cases rollforwardBlock entry.nHeight node.state.coins entry.block.vtx with
      | none => exact hnode
      | some coins =>
        have hblock := hnode.accepted entry (mem_of_getElem? hfound)
        exact ⟨forall_mem_cons.mpr ⟨hblock, hnode.chain⟩, hnode.accepted⟩

/-- Over every run of the node and up to every height of its chain, the sweeps keep from the
recovery script at most the fee bound times their number, pay no other script that can be spent
from, and move nothing into the shielded pool. -/
theorem leak_bounded_over_runs (hset : planX.compromised.isActive = true)
    (hfinal : planXScriptIsPlaceholder planX.recovery = false) (steps : List PlanXStep) :
    Always (planX.planXStep params decodeDestination)
      (fun node => ∀ chain, chain <:+ node.state.activeChain → planX.LeakBounded chain)
      start steps := by
  have hstart : planX.RecoveringNode start :=
    ⟨fun _ hentry => absurd hentry not_mem_nil, fun _ hentry => absurd hentry not_mem_nil⟩
  have hstep : ∀ node step, planX.RecoveringNode node →
      planX.RecoveringNode (planX.planXStep params decodeDestination node step) :=
    fun _ step hnode => recoveringNode_step hset hfinal hnode step
  have hnodes := always_of_preserved hstep hstart steps
  intro node hvisited chain hsuffix
  exact leakBounded_of_recovering
    (fun entry hentry => (hnodes node hvisited).chain entry (hsuffix.subset hentry))

end Run

end PlanXParams

namespace Sample

open Escrow.Sample (coinbase passing payeeScript)

def compromisedScript : Script := [0x52]

def planX : PlanXParams where
  nPlanXRecoveryActivationHeight := 2
  compromised := { scripts := [compromisedScript] }

def fund : CTransaction :=
  { hash := 11, nVersion := 3, nType := .sapling, vin := []
    vout := [⟨10 * coinValue, compromisedScript⟩]
    saplingPayload := some { valueBalance := 10 * coinValue } }

def spend (hash : Uint256) (fee : Int) (script : Script) : CTransaction :=
  { hash := hash, nVersion := 2, nType := .normal, vin := [⟨⟨11, 0⟩⟩]
    vout := [⟨10 * coinValue - fee, script⟩] }

def connect (hash : Uint256) (tx : CTransaction) : PlanXStep :=
  .connect ⟨hash, [coinbase (100 + hash), tx]⟩ passing none

/-- A theft and a sweep with a large fee are refused; a sweep is accepted, taken back and rolled
forward. -/
def recoveryRun : List PlanXStep :=
  [connect 1 fund, connect 2 (spend 12 0 payeeScript),
    connect 3 (spend 13 (maxRecoveryFee + 1) planX.recovery),
    connect 4 (spend 14 maxRecoveryFee planX.recovery), .disconnect false, .rollforward 0]

end Sample

open Sample

open Escrow.Sample (decodeDestination) in
theorem leak_bounded_over_runs_sweep :
    Always (planX.planXStep {} decodeDestination)
        (fun node => ∀ chain, chain <:+ node.state.activeChain → planX.LeakBounded chain)
        start recoveryRun ∧
      (planX.sweeps (run (planX.planXStep {} decodeDestination) start
        recoveryRun).state.activeChain).map planX.compromisedValue =
          [10 * coinValue] ∧
      (planX.sweeps (run (planX.planXStep {} decodeDestination) start
        recoveryRun).state.activeChain).map planX.recoveredValue =
          [10 * coinValue - maxRecoveryFee] :=
  ⟨PlanXParams.leak_bounded_over_runs (by decide) (by decide) recoveryRun,
    by decide +kernel, by decide +kernel⟩

end Kerrigan.Policy
