import Kerrigan.Masternode.Payments
import Kerrigan.Lib.Matching

/-!
# Templates and payees

The coinbase check assigns the required outputs to distinct outputs of the coinbase, and accepts
every coinbase that has them all.  A template is such a coinbase: its payments fit into the
reward, and what they leave stays with the miner.
-/

namespace Kerrigan.Masternode

open Primitives Consensus Drone Lib List

/-! ## Payees -/

variable (params : PaymentParams) (nBlockHeight : Int)

/-- An output pays a required one: the same amount to its script, or to a superseded script of
the treasury slot that still counts at the height. -/
def Pays (required output : CTxOut) : Prop :=
  output.nValue = required.nValue ∧
    (output.scriptPubKey = required.scriptPubKey ∨
      required.scriptPubKey = params.growthEscrowScript ∧
        output.scriptPubKey ∈ params.legacyEscrowScripts ∨
      isLegacyTreasuryConsulted nBlockHeight params.nLegacyDevfundSunsetHeight = true ∧
        (required.scriptPubKey = params.devFundPaymentScript ∧
            output.scriptPubKey ∈ params.legacyDevFundScripts ∨
          required.scriptPubKey = params.foundersPaymentScript ∧
            output.scriptPubKey ∈ params.legacyFoundersPaymentScripts))

theorem pays_legacy {params : PaymentParams} {nBlockHeight : Int} {required : CTxOut}
    {legacy : Script} (h : legacy ∈ legacyScripts params nBlockHeight required.scriptPubKey) :
    Pays params nBlockHeight required ⟨required.nValue, legacy⟩ := by
  refine ⟨rfl, Or.inr ?_⟩
  unfold legacyScripts at h
  split at h
  case isTrue hescrow => exact Or.inl ⟨hescrow, h⟩
  case isFalse =>
    split at h
    case isTrue hdevFund =>
      split at h
      case isTrue hconsulted => exact Or.inr ⟨hconsulted, Or.inl ⟨hdevFund, h⟩⟩
      case isFalse => cases h
    case isFalse =>
      split at h
      case isTrue hfounders =>
        split at h
        case isTrue hconsulted => exact Or.inr ⟨hconsulted, Or.inr ⟨hfounders, h⟩⟩
        case isFalse => cases h
      case isFalse => cases h

theorem takes_takePayment : Takes (Pays params nBlockHeight) (takePayment params nBlockHeight) := by
  intro remaining txout rest h
  unfold takePayment at h
  split at h
  case isTrue hmem =>
    cases h
    exact ⟨txout, ⟨rfl, Or.inl rfl⟩, perm_cons_erase hmem⟩
  case isFalse =>
    obtain ⟨alt, hfind, rfl⟩ := Option.map_eq_some_iff.mp h
    have hmem : alt ∈ remaining := by simpa using find?_some hfind
    obtain ⟨legacy, hlegacy, rfl⟩ := mem_map.mp (mem_of_find?_eq_some hfind)
    exact ⟨_, pays_legacy (mem_filter.mp hlegacy).1, perm_cons_erase hmem⟩

theorem takePayment_of_mem (remaining : List CTxOut) (txout : CTxOut) (h : txout ∈ remaining) :
    takePayment params nBlockHeight remaining txout = some (remaining.erase txout) :=
  if_pos h

theorem isTransactionValid_of_subperm {params : PaymentParams} {state : PaymentState}
    {txNew : CTransaction} {blockSubsidy feeReward : Int} {required : List CTxOut}
    (hrequired : getBlockTxOuts params state blockSubsidy feeReward = some required)
    (h : required.Subperm txNew.vout) :
    isTransactionValid params state txNew blockSubsidy feeReward = some true := by
  unfold isTransactionValid
  split
  · rfl
  · obtain ⟨rest, hrest⟩ := foldlM_of_subperm (takePayment_of_mem params state.nBlockHeight) h
    rw [hrequired, Option.map_some, hrest]
    rfl

/-- What the check accepts assigns the required outputs to distinct outputs of the coinbase, and
it accepts every coinbase that has them all. -/
theorem isTransactionValid_matching (params : PaymentParams) (state : PaymentState)
    (txNew : CTransaction) (blockSubsidy feeReward : Int)
    (hdevnet : ¬ (params.devnet = true ∧ state.nBlockHeight = 1)) :
    (isTransactionValid params state txNew blockSubsidy feeReward = some true →
      ∃ required positions, getBlockTxOuts params state blockSubsidy feeReward = some required ∧
        Assignment (Pays params state.nBlockHeight) required txNew.vout positions) ∧
    ∀ required, getBlockTxOuts params state blockSubsidy feeReward = some required →
      required.Subperm txNew.vout →
      isTransactionValid params state txNew blockSubsidy feeReward = some true := by
  refine ⟨?_, fun required => isTransactionValid_of_subperm⟩
  intro haccepted
  unfold isTransactionValid at haccepted
  rw [if_neg hdevnet] at haccepted
  obtain ⟨required, hrequired, hsome⟩ := Option.map_eq_some_iff.mp haccepted
  obtain ⟨rest, hrest⟩ := Option.isSome_iff_exists.mp hsome
  obtain ⟨positions, hpositions⟩ :=
    (takes_takePayment params state.nBlockHeight).assignment hrest
  exact ⟨required, positions, hrequired, hpositions⟩

/-- A treasury that has changed its development fund script once. -/
def rotatedParams : PaymentParams where
  growthEscrowScript := [1]
  devFundPaymentScript := [2]
  foundersPaymentScript := [3]
  legacyDevFundScripts := [[4]]

def emptyState : PaymentState where
  nBlockHeight := 10
  droneSporkActive := false
  droneList := CDroneList.empty 0 9
  mnList := ⟨9, []⟩
  isv19Active := false
  isMNRewardReallocation := false

def legacyCoinbase : CTransaction where
  hash := 1
  nVersion := 3
  nType := .coinbase
  vin := []
  vout := [⟨40, [9]⟩, ⟨5, [3]⟩, ⟨15, [4]⟩, ⟨40, [1]⟩]

theorem isTransactionValid_matching_legacy :
    isTransactionValid rotatedParams emptyState legacyCoinbase 100 0 = some true ∧
      ∃ required positions, getBlockTxOuts rotatedParams emptyState 100 0 = some required ∧
        Assignment (Pays rotatedParams 10) required legacyCoinbase.vout positions := by
  have haccepted : isTransactionValid rotatedParams emptyState legacyCoinbase 100 0 = some true := by
    decide +kernel
  exact ⟨haccepted, (isTransactionValid_matching rotatedParams emptyState legacyCoinbase 100 0
    (by decide)).1 haccepted⟩

/-! ## Templates -/

/-- The largest reward for which the products stay within 64 bits. -/
def maxReward : Int := 46000000 * coinValue

theorem percentOf_eq {totalReward percent : Int} (hreward : 0 ≤ totalReward)
    (hmax : totalReward ≤ maxReward) (hpercent : 0 ≤ percent) (hle : percent ≤ 100) :
    percentOf totalReward percent = some (totalReward * percent / 100) := by
  have hlow : 0 ≤ totalReward * percent := Int.mul_nonneg hreward hpercent
  have hhigh : totalReward * percent ≤ maxReward * 100 :=
    Int.mul_le_mul hmax hle hpercent (by decide)
  have hbound : maxReward * 100 < 2 ^ 63 := by decide
  rw [percentOf, checked64_of_range (by omega) (by omega), Option.map_some,
    Int.tdiv_eq_ediv_of_nonneg hlow]

theorem operatorShare_spec (dmnPayee : CDeterministicMN) {mnReward : Int} (hreward : 0 ≤ mnReward)
    (hmax : mnReward ≤ maxReward / 5) :
    ∃ operatorReward, operatorShare dmnPayee mnReward = some operatorReward ∧
      0 ≤ operatorReward ∧ operatorReward ≤ mnReward := by
  have hbound : maxReward / 5 * 10000 < 2 ^ 63 := by decide
  have hlow : 0 ≤ mnReward * dmnPayee.nOperatorReward := Int.mul_nonneg hreward (by omega)
  have hhigh : mnReward * dmnPayee.nOperatorReward ≤ mnReward * 10000 :=
    Int.mul_le_mul_of_nonneg_left (by exact_mod_cast dmnPayee.nOperatorReward_le) hreward
  unfold operatorShare
  split
  · rw [checked64_of_range (by omega) (by omega), Option.map_some,
      Int.tdiv_eq_ediv_of_nonneg hlow]
    exact ⟨_, rfl, by omega, by omega⟩
  · exact ⟨0, rfl, le_rfl, hreward⟩

theorem positiveOut_nonneg {nValue : Int} {scriptPubKey : Script} {out : CTxOut}
    (h : out ∈ positiveOut nValue scriptPubKey) : 0 ≤ out.nValue := by
  unfold positiveOut at h
  split at h
  case isTrue hpos =>
    cases mem_singleton.mp h
    exact hpos.le
  case isFalse => cases h

theorem totalValue_positiveOut {nValue : Int} (h : 0 ≤ nValue) (scriptPubKey : Script) :
    totalValue (positiveOut nValue scriptPubKey) = nValue := by
  unfold positiveOut
  split
  · simp
  · rw [totalValue_nil]
    omega

theorem masternodeOuts_spec (dmnPayee : CDeterministicMN) {mnReward : Int} (hreward : 0 ≤ mnReward)
    (hmax : mnReward ≤ maxReward / 5) :
    ∃ outs, masternodeOuts dmnPayee mnReward = some outs ∧ (∀ out ∈ outs, 0 ≤ out.nValue) ∧
      totalValue outs ≤ mnReward := by
  obtain ⟨operatorReward, hoperator, hlow, hhigh⟩ := operatorShare_spec dmnPayee hreward hmax
  have hbound : maxReward < 2 ^ 63 := by decide
  have hrest : checked64 (mnReward - operatorReward) = some (mnReward - operatorReward) :=
    checked64_of_range (by omega) (by omega)
  refine ⟨positiveOut (mnReward - operatorReward) dmnPayee.scriptPayout ++
    positiveOut operatorReward dmnPayee.scriptOperatorPayout, ?_, ?_, ?_⟩
  · simp [masternodeOuts, hoperator, hrest]
  · intro out hout
    rcases mem_append.mp hout with hout | hout
    · exact positiveOut_nonneg hout
    · exact positiveOut_nonneg hout
  · rw [totalValue_append, totalValue_positiveOut (by omega), totalValue_positiveOut hlow]
    omega

theorem payeeOuts_spec (state : PaymentState) {mnReward : Int} (hreward : 0 ≤ mnReward)
    (hmax : mnReward ≤ maxReward / 5) :
    ∃ outs, payeeOuts state mnReward = some outs ∧ (∀ out ∈ outs, 0 ≤ out.nValue) ∧
      totalValue outs ≤ mnReward := by
  have hnone : ∃ outs : List CTxOut, some [] = some outs ∧ (∀ out ∈ outs, 0 ≤ out.nValue) ∧
      totalValue outs ≤ mnReward := ⟨[], rfl, by simp, hreward⟩
  unfold payeeOuts
  split
  · split
    · exact masternodeOuts_spec _ hreward hmax
    · exact hnone
  · exact hnone

theorem getBlockTxOuts_spec (state : PaymentState) {blockSubsidy feeReward : Int}
    (hreward : 0 ≤ blockSubsidy + feeReward) (hmax : blockSubsidy + feeReward ≤ maxReward) :
    ∃ outs, getBlockTxOuts params state blockSubsidy feeReward = some outs ∧
      (∀ out ∈ outs, 0 ≤ out.nValue) ∧
      100 * totalValue outs ≤ 80 * (blockSubsidy + feeReward) := by
  have hbound : maxReward < 2 ^ 63 := by decide
  have htotal : checked64 (blockSubsidy + feeReward) = some (blockSubsidy + feeReward) :=
    checked64_of_range (by omega) (by omega)
  generalize hsum : blockSubsidy + feeReward = totalReward at hreward hmax htotal
  have hmasternode : getMasternodePayment totalReward = totalReward / 5 :=
    Int.tdiv_eq_ediv_of_nonneg hreward
  obtain ⟨mnOuts, hmnOuts, hmnNonneg, hmnTotal⟩ := payeeOuts_spec state
    (show 0 ≤ totalReward / 5 by omega) (show totalReward / 5 ≤ maxReward / 5 by omega)
  refine ⟨⟨totalReward * 40 / 100, growthSlotScript params state⟩ :: mnOuts ++
    [⟨totalReward * 15 / 100, params.devFundPaymentScript⟩,
      ⟨totalReward * 5 / 100, params.foundersPaymentScript⟩], ?_, ?_, ?_⟩
  · simp [getBlockTxOuts, hsum, htotal, hmasternode, hmnOuts,
      percentOf_eq hreward hmax (show 0 ≤ (40 : Int) by decide) (by decide),
      percentOf_eq hreward hmax (show 0 ≤ (15 : Int) by decide) (by decide),
      percentOf_eq hreward hmax (show 0 ≤ (5 : Int) by decide) (by decide)]
  · intro out hout
    simp only [mem_cons, mem_append, not_mem_nil, or_false,
      cons_append] at hout
    rcases hout with rfl | hout | rfl | rfl
    · exact show 0 ≤ totalReward * 40 / 100 by omega
    · exact hmnNonneg out hout
    · exact show 0 ≤ totalReward * 15 / 100 by omega
    · exact show 0 ≤ totalReward * 5 / 100 by omega
  · rw [totalValue_append, totalValue_cons, totalValue_cons, totalValue_cons, totalValue_nil]
    simp only
    omega

theorem totalValue_nonneg {outs : List CTxOut} (h : ∀ out ∈ outs, 0 ≤ out.nValue) :
    0 ≤ totalValue outs := by
  induction outs with
  | nil => exact le_rfl
  | cons out rest ih =>
    have hout := h out mem_cons_self
    have hrest := ih (fun other hother => h other (mem_cons_of_mem out hother))
    rw [totalValue_cons]
    omega

theorem sumPayments_eq {outs : List CTxOut} (hnonneg : ∀ out ∈ outs, 0 ≤ out.nValue) (start : Int)
    (hstart : 0 ≤ start) (hmax : start + totalValue outs < 2 ^ 63) :
    sumPayments start outs = some (start + totalValue outs) := by
  induction outs generalizing start with
  | nil => simp [sumPayments]
  | cons out rest ih =>
    have hout := hnonneg out mem_cons_self
    have hrestNonneg : ∀ other ∈ rest, 0 ≤ other.nValue :=
      fun other hother => hnonneg other (mem_cons_of_mem out hother)
    have hrest := totalValue_nonneg hrestNonneg
    rw [totalValue_cons] at hmax ⊢
    rw [sumPayments, checked64_of_range (by omega) (by omega), Option.bind_eq_bind,
      Option.bind_some, ih hrestNonneg _ (by omega) (by omega), Int.add_assoc]

theorem subtractPayments_eq {outs : List CTxOut} (hnonneg : ∀ out ∈ outs, 0 ≤ out.nValue)
    (nValue : Int) (hle : totalValue outs ≤ nValue) (hmax : nValue < 2 ^ 63) :
    subtractPayments nValue outs = some (nValue - totalValue outs) := by
  induction outs generalizing nValue with
  | nil => simp [subtractPayments]
  | cons out rest ih =>
    have hout := hnonneg out mem_cons_self
    have hrestNonneg : ∀ other ∈ rest, 0 ≤ other.nValue :=
      fun other hother => hnonneg other (mem_cons_of_mem out hother)
    have hrest := totalValue_nonneg hrestNonneg
    rw [totalValue_cons] at hle ⊢
    rw [subtractPayments, checked64_of_range (by omega) (by omega), Option.bind_eq_bind,
      Option.bind_some, ih hrestNonneg _ (by omega) (by omega), Int.sub_sub]

/-- A template pays the required outputs out of the reward, and the block checks accept it. -/
theorem fillBlockPayments_accepted (params : PaymentParams) (state : PaymentState)
    (txNew : CTransaction) (scriptPubKeyIn : Script) (blockSubsidy feeReward : Int)
    (hsubsidy : 0 ≤ blockSubsidy) (hfee : 0 ≤ feeReward)
    (hmax : blockSubsidy + feeReward ≤ 46000000 * coinValue)
    (hvout : txNew.vout = [⟨blockSubsidy + feeReward, scriptPubKeyIn⟩]) :
    ∃ outs nValue coinbase,
      getBlockTxOuts params state blockSubsidy feeReward = some outs ∧
      fillBlockPayments params state txNew blockSubsidy feeReward = some coinbase ∧
      coinbase = { txNew with vout := ⟨nValue, scriptPubKeyIn⟩ :: outs } ∧
      totalValue coinbase.vout = blockSubsidy + feeReward ∧
      (∀ out ∈ outs, 0 ≤ out.nValue) ∧
      100 * totalValue outs ≤ 80 * (blockSubsidy + feeReward) ∧
      isBlockValueValid coinbase state.nBlockHeight (blockSubsidy + feeReward) =
        some (.ok ()) ∧
      isTransactionValid params state coinbase blockSubsidy feeReward = some true := by
  obtain ⟨outs, houts, hnonneg, hshare⟩ := getBlockTxOuts_spec params state
    (show 0 ≤ blockSubsidy + feeReward by omega) hmax
  have hmoney : 46000000 * coinValue ≤ maxMoney ∧ maxMoney < 2 ^ 63 := by decide
  have htotal := totalValue_nonneg hnonneg
  have hsum : sumPayments 0 outs = some (totalValue outs) := by
    rw [sumPayments_eq hnonneg 0 le_rfl (by omega), Int.zero_add]
  have hleft := subtractPayments_eq hnonneg (blockSubsidy + feeReward) (by omega) (by omega)
  refine ⟨outs, blockSubsidy + feeReward - totalValue outs, _, houts, ?_, rfl, ?_, hnonneg, hshare,
    ?_, ?_⟩
  · simp [fillBlockPayments, houts, hsum, hvout, hleft,
      show ¬ blockSubsidy + feeReward < totalValue outs by omega]
  · rw [totalValue_cons]
    simp only
    omega
  · have hvalue : CTransaction.getValueOut { txNew with
        vout := ⟨blockSubsidy + feeReward - totalValue outs, scriptPubKeyIn⟩ :: outs } =
        some (blockSubsidy + feeReward) := by
      unfold CTransaction.getValueOut
      rw [(sumValueOut_of_nonneg 0 le_rfl ?_ ?_).1, totalValue_cons]
      · congr 1
        simp only
        omega
      · intro out hout
        rcases mem_cons.mp hout with rfl | hout
        · simp only
          omega
        · exact hnonneg out hout
      · rw [totalValue_cons]
        simp only
        omega
    unfold isBlockValueValid
    rw [hvalue, Option.map_some]
    exact congrArg some (if_pos le_rfl)
  · exact isTransactionValid_of_subperm houts (sublist_cons_self _ _).subperm

def bareCoinbase : CTransaction where
  hash := 1
  nVersion := 3
  nType := .coinbase
  vin := []
  vout := [⟨1050000000, [9]⟩]

theorem fillBlockPayments_accepted_bare :
    ∃ coinbase, fillBlockPayments rotatedParams emptyState bareCoinbase 1000000000 50000000 =
        some coinbase ∧ totalValue coinbase.vout = 1050000000 ∧
      isTransactionValid rotatedParams emptyState coinbase 1000000000 50000000 = some true := by
  obtain ⟨outs, nValue, coinbase, -, hfilled, -, htotal, -, -, -, hvalid⟩ :=
    fillBlockPayments_accepted rotatedParams emptyState bareCoinbase [9] 1000000000 50000000
      (by decide) (by decide) (by decide) rfl
  exact ⟨coinbase, hfilled, htotal, hvalid⟩

end Kerrigan.Masternode
