import Kerrigan.Escrow.Gate

/-!
# What an accepted release takes out of the escrow

The release check constrains outputs only.  Together with the value equation of
`CheckTxInputs` this determines how much value a release removes from the escrow:
the approved payment, plus everything that leaves as fee or into unspendable
outputs and is not covered by other inputs or by a Sapling balance.
-/

namespace Kerrigan.Escrow

open Primitives Consensus List

/-! ## Inversion of the release check -/

/-- Outputs that steps 6 to 7b accept: one output on the approved script, of the
approved amount, and otherwise only change and unspendable outputs. -/
structure ReleaseOutputs (tx : CTransaction) (escrowScript : Script) (approvedAmount : Int)
    (approvedScript : Script) : Prop where
  payment : ∃ txout, outputsTo approvedScript tx = [txout] ∧ txout.nValue = approvedAmount
  others : ∀ txout ∈ tx.vout, txout.scriptPubKey ≠ approvedScript →
    txout.scriptPubKey = escrowScript ∨ isUnspendable txout.scriptPubKey = true

variable {tx : CTransaction}

theorem mem_outputsTo {approvedScript : Script} {txout : CTxOut} :
    txout ∈ outputsTo approvedScript tx ↔
      txout ∈ tx.vout ∧ txout.scriptPubKey = approvedScript := by
  simp [outputsTo]

variable {escrowScript approvedScript : Script}

theorem checkReleaseOutputs_eq_ok_iff {approvedAmount : Int} :
    checkReleaseOutputs tx escrowScript approvedAmount approvedScript = .ok () ↔
      ReleaseOutputs tx escrowScript approvedAmount approvedScript := by
  unfold checkReleaseOutputs
  constructor
  · intro hcheck
    split at hcheck
    · cases hcheck
    · split at hcheck
      · cases hcheck
      · rename_i hcount
        rw [not_or, not_not, not_not, length_eq_one_iff] at hcount
        obtain ⟨⟨payment, hpayment⟩, htotal⟩ := hcount
        split at hcheck
        · cases hcheck
        · rename_i hothers
          refine ⟨⟨payment, hpayment, ?_⟩, ?_⟩
          · rw [hpayment] at htotal
            simpa using htotal
          · intro txout hmem hne
            simp only [Bool.not_eq_true', Bool.not_eq_false, all_eq_true, Bool.or_eq_true,
              isPayment, Bool.and_eq_true, beq_iff_eq] at hothers
            rcases hothers txout hmem with (⟨hsame, -⟩ | hchange) | hdead
            · exact absurd hsame hne
            · exact Or.inl hchange
            · exact Or.inr hdead
  · rintro ⟨⟨payment, hpayment, hamount⟩, hothers⟩
    have hmem : payment ∈ tx.vout ∧ payment.scriptPubKey = approvedScript := by
      rw [← mem_outputsTo, hpayment]
      exact mem_singleton_self payment
    have hunique : ∀ txout ∈ tx.vout, txout.scriptPubKey = approvedScript →
        txout.nValue = approvedAmount := by
      intro txout hout hscript
      have hfilter : txout ∈ outputsTo approvedScript tx := mem_outputsTo.mpr ⟨hout, hscript⟩
      rw [hpayment, mem_singleton] at hfilter
      rw [hfilter, hamount]
    have hany : tx.vout.any (isPayment approvedAmount approvedScript) = true := by
      rw [any_eq_true]
      exact ⟨payment, hmem.1, by simp [isPayment, hmem.2, hamount]⟩
    have hall : tx.vout.all (fun txout => isPayment approvedAmount approvedScript txout ||
        txout.scriptPubKey == escrowScript || isUnspendable txout.scriptPubKey) = true := by
      rw [all_eq_true]
      intro txout hout
      by_cases hscript : txout.scriptPubKey = approvedScript
      · simp [isPayment, hscript, hunique txout hout hscript]
      · rcases hothers txout hout hscript with hchange | hdead
        · simp [hchange]
        · simp [hdead]
    simp [hany, hall, hpayment, hamount]

def approvedRelease (decodeDestination : String → Option Script) (store : GovernanceStore)
    (tx : CTransaction) : Option (Int × Script) :=
  match findMarker tx with
  | none => none
  | some proposalHash =>
      match findFundedEscrowRelease store proposalHash with
      | none => none
      | some object =>
          match approvedPayment decodeDestination object.data with
          | .error _ => none
          | .ok payment => some payment

/-- The release check accepts exactly the transactions that name a proposal not yet
executed, funded in the node's store, whose approved payment their outputs make. -/
theorem checkGovernanceEscrowSpend_eq_ok_iff {decodeDestination : String → Option Script}
    {escrowScript : Script} {nBlockHeight nEscrowUnlockHeight : Int} {evodb evodb' : CEvoDB}
    {pGovMan : Option GovernanceStore} :
    checkGovernanceEscrowSpend decodeDestination tx escrowScript nBlockHeight
        nEscrowUnlockHeight evodb pGovMan = .ok evodb' ↔
      ¬(0 < nEscrowUnlockHeight ∧ nBlockHeight < nEscrowUnlockHeight) ∧
      ∃ proposalHash store approvedAmount approvedScript,
        findMarker tx = some proposalHash ∧
        isEscrowReleaseExecuted evodb proposalHash = false ∧
        pGovMan = some store ∧
        approvedRelease decodeDestination store tx = some (approvedAmount, approvedScript) ∧
        ReleaseOutputs tx escrowScript approvedAmount approvedScript ∧
        evodb' = markEscrowReleaseExecuted evodb proposalHash nBlockHeight := by
  unfold checkGovernanceEscrowSpend approvedRelease
  by_cases hfloor : 0 < nEscrowUnlockHeight ∧ nBlockHeight < nEscrowUnlockHeight
  · simp [hfloor]
  · rw [if_neg hfloor]
    cases hmarker : findMarker tx with
    | none => simp
    | some proposalHash =>
      cases hexecuted : isEscrowReleaseExecuted evodb proposalHash with
      | true => simp [hexecuted]
      | false =>
        cases pGovMan with
        | none => simp [hexecuted]
        | some store =>
          cases hfunded : findFundedEscrowRelease store proposalHash with
          | none => simp [hexecuted, hfunded]
          | some object =>
            cases happroved : approvedPayment decodeDestination object.data with
            | error reason => simp [hexecuted, hfunded, happroved]
            | ok payment =>
              obtain ⟨amount, script⟩ := payment
              cases houtputs : checkReleaseOutputs tx escrowScript amount script with
              | error reason =>
                have hbad : ¬ReleaseOutputs tx escrowScript amount script := by
                  rw [← checkReleaseOutputs_eq_ok_iff, houtputs]
                  simp
                simp [hexecuted, hfunded, happroved, houtputs, hbad]
              | ok done =>
                have hgood : ReleaseOutputs tx escrowScript amount script :=
                  checkReleaseOutputs_eq_ok_iff.mp houtputs
                simp only [hexecuted, Bool.false_eq_true, if_false, hfunded, happroved,
                  houtputs, Except.ok.injEq]
                constructor
                · intro hmarked
                  exact ⟨hfloor, proposalHash, store, amount, script, rfl, hexecuted, rfl,
                    by simp [hfunded, happroved], hgood, hmarked.symm⟩
                · rintro ⟨-, hash, -, -, -, hhash, -, -, -, -, hmarked⟩
                  cases hhash
                  exact hmarked.symm

theorem isGrowthEscrowScript_of_matched {params : Params} {view : CCoinsView}
    {escrowScript : Script} (hmatched : matchedEscrowScript params view tx = some escrowScript) :
    params.isGrowthEscrowScript escrowScript = true := by
  obtain ⟨txin, -, hcoin⟩ := exists_of_findSome?_eq_some hmatched
  cases hview : view txin.prevout with
  | none => simp [hview] at hcoin
  | some coin =>
    simp only [hview, Option.ite_none_right_eq_some, Option.some.injEq] at hcoin
    rw [← hcoin.2]
    exact hcoin.1

/-! ## Value of a release -/

def escrowInputValue (params : Params) (view : CCoinsView) (tx : CTransaction) : Int :=
  coinsValue ((view.inputCoins tx).filter
    (fun coin => params.isGrowthEscrowScript coin.out.scriptPubKey))

def otherInputValue (params : Params) (view : CCoinsView) (tx : CTransaction) : Int :=
  coinsValue ((view.inputCoins tx).filter
    (fun coin => !params.isGrowthEscrowScript coin.out.scriptPubKey))

def escrowOutputValue (params : Params) (tx : CTransaction) : Int :=
  totalValue (tx.vout.filter (fun txout => params.isGrowthEscrowScript txout.scriptPubKey))

def unspendableOutputValue (params : Params) (approvedScript : Script) (tx : CTransaction) :
    Int :=
  totalValue (tx.vout.filter (fun txout => isUnspendable txout.scriptPubKey &&
    !params.isGrowthEscrowScript txout.scriptPubKey && txout.scriptPubKey != approvedScript))

def shieldedBalance (tx : CTransaction) : Int :=
  match saplingValueBalance tx with
  | .ok balance => balance
  | .error _ => 0

/-- Input value and shielded balance that no output carries away. -/
def excessValue (view : CCoinsView) (tx : CTransaction) : Int :=
  coinsValue (view.inputCoins tx) + shieldedBalance tx - totalValue tx.vout

/-- Outputs of an accepted release: escrow outputs, the approved payment unless it
goes to an escrow script itself, and unspendable outputs. -/
theorem ReleaseOutputs.totalValue_vout {params : Params} {approvedAmount : Int}
    (houtputs : ReleaseOutputs tx escrowScript approvedAmount approvedScript)
    (hescrow : params.isGrowthEscrowScript escrowScript = true) :
    totalValue tx.vout = escrowOutputValue params tx +
      unspendableOutputValue params approvedScript tx +
      (if params.isGrowthEscrowScript approvedScript then 0 else approvedAmount) := by
  obtain ⟨payment, hpayment, hamount⟩ := houtputs.payment
  have hsplit := totalValue_filter_add_filter_not
    (fun txout => params.isGrowthEscrowScript txout.scriptPubKey) tx.vout
  have hother := totalValue_filter_add_filter_not
    (fun txout => txout.scriptPubKey == approvedScript)
    (tx.vout.filter (fun txout => !params.isGrowthEscrowScript txout.scriptPubKey))
  have hdead : (tx.vout.filter (fun txout => !params.isGrowthEscrowScript txout.scriptPubKey)).filter
        (fun txout => !(txout.scriptPubKey == approvedScript)) =
      tx.vout.filter (fun txout => isUnspendable txout.scriptPubKey &&
        !params.isGrowthEscrowScript txout.scriptPubKey &&
        txout.scriptPubKey != approvedScript) := by
    rw [filter_filter]
    refine filter_congr ?_
    intro txout hmem
    by_cases happroved : txout.scriptPubKey = approvedScript
    · simp [happroved]
    · rcases houtputs.others txout hmem happroved with hchange | hunspendable
      · simp [hchange, hescrow]
      · simp [hunspendable, bne, Bool.and_comm]
  have hpaid : totalValue ((tx.vout.filter
        (fun txout => !params.isGrowthEscrowScript txout.scriptPubKey)).filter
        (fun txout => txout.scriptPubKey == approvedScript)) =
      if params.isGrowthEscrowScript approvedScript then 0 else approvedAmount := by
    rw [filter_comm]
    change totalValue ((outputsTo approvedScript tx).filter _) = _
    have hscript : payment.scriptPubKey = approvedScript := by
      have hmem : payment ∈ outputsTo approvedScript tx := by
        rw [hpayment]
        exact mem_singleton_self payment
      exact (mem_outputsTo.mp hmem).2
    rw [hpayment]
    cases happroved : params.isGrowthEscrowScript approvedScript <;>
      simp [hscript, happroved, hamount]
  rw [hdead, hpaid] at hother
  unfold escrowOutputValue unspendableOutputValue
  omega

/-- What a release removes from the escrow: the approved payment unless it stays in
the escrow, plus the unspendable outputs and the excess that neither other inputs nor
the shielded balance cover. -/
theorem escrowInputValue_sub_escrowOutputValue {params : Params} {view : CCoinsView}
    {approvedAmount : Int} (houtputs : ReleaseOutputs tx escrowScript approvedAmount approvedScript)
    (hescrow : params.isGrowthEscrowScript escrowScript = true) :
    escrowInputValue params view tx - escrowOutputValue params tx =
      (if params.isGrowthEscrowScript approvedScript then 0 else approvedAmount) +
        unspendableOutputValue params approvedScript tx + excessValue view tx -
        otherInputValue params view tx - shieldedBalance tx := by
  have hout := houtputs.totalValue_vout hescrow
  have hin := coinsValue_filter_add_filter_not
    (fun coin => params.isGrowthEscrowScript coin.out.scriptPubKey) (view.inputCoins tx)
  unfold excessValue escrowInputValue otherInputValue
  omega

theorem excessValue_eq_fee {view : CCoinsView} {nHeight fee : Int}
    (hplain : (tx.isSpecialTxVersion && tx.nType == .assetUnlock) = false)
    (hinputs : checkTxInputs tx view nHeight = .ok fee) : excessValue view tx = fee := by
  obtain ⟨balance, hbalance, hvalue, -, -⟩ := checkTxInputs_value hplain hinputs
  have hshielded : shieldedBalance tx = balance := by
    unfold shieldedBalance
    rw [hbalance]
  unfold excessValue
  omega

/-- An accepted release removes at most the approved amount from the escrow exactly
when its unspendable outputs and its fee are covered by its other inputs, its shielded
balance and, if the payment itself goes to an escrow script, by that payment. -/
theorem release_within_approved_iff {params : Params}
    {decodeDestination : String → Option Script} {nHeight fee : Int} {view : CCoinsView}
    {evodb evodb' : CEvoDB} {store : GovernanceStore} {tx : CTransaction}
    {escrowScript approvedScript : Script} {approvedAmount : Int}
    (hinputs : checkTxInputs tx view nHeight = .ok fee)
    (hmatched : matchedEscrowScript params view tx = some escrowScript)
    (hgate : checkGovernanceEscrowSpend decodeDestination tx escrowScript nHeight
      params.nEscrowUnlockHeight evodb (some store) = .ok evodb')
    (happroved : approvedRelease decodeDestination store tx =
      some (approvedAmount, approvedScript)) :
    ((tx.isSpecialTxVersion && tx.nType == .assetUnlock) = false → excessValue view tx = fee) ∧
    (escrowInputValue params view tx - escrowOutputValue params tx ≤ approvedAmount ↔
      unspendableOutputValue params approvedScript tx + excessValue view tx ≤
        otherInputValue params view tx + shieldedBalance tx +
          (if params.isGrowthEscrowScript approvedScript then approvedAmount else 0)) := by
  refine ⟨fun hplain => excessValue_eq_fee hplain hinputs, ?_⟩
  obtain ⟨-, -, found, amount, script, -, -, hstore, hrelease, houtputs, -⟩ :=
    checkGovernanceEscrowSpend_eq_ok_iff.mp hgate
  cases hstore
  rw [happroved] at hrelease
  cases hrelease
  have hescrow := isGrowthEscrowScript_of_matched hmatched
  rw [escrowInputValue_sub_escrowOutputValue houtputs hescrow]
  split <;> omega

/-! ## A release that leaks, and one that does not -/

namespace Sample

def params : Params :=
  { growthEscrowScript := [0xa9, 0x14, 0x01, 0x87], nEscrowUnlockHeight := 60000 }

def payeeScript : Script := [0x76, 0xa9, 0x14, 0x02, 0x88, 0xac]

def decodeDestination (address : String) : Option Script :=
  if address = "payee" then some payeeScript else none

def markerScript : Script :=
  [0x6a, 0x24, 0x4b, 0x52, 0x47, 0x4e, 1] ++ replicate 31 0

def view : CCoinsView := fun outpoint =>
  if outpoint = ⟨7, 0⟩ then
    some ⟨⟨1000 * coinValue, params.growthEscrowScript⟩, 500, false⟩
  else none

def store : GovernanceStore := fun hash =>
  if hash = 1 then some ⟨⟨.escrowRelease, some "1", some "payee"⟩, true⟩ else none

def release (further : List CTxOut) : CTransaction :=
  { hash := 8, nVersion := 2, nType := .normal, vin := [⟨⟨7, 0⟩⟩]
    vout := [⟨coinValue, payeeScript⟩, ⟨0, markerScript⟩] ++ further }

def changeOutput : CTxOut := ⟨999 * coinValue, params.growthEscrowScript⟩

end Sample

open Sample

/-- A release of one approved coin that leaves the other 999 coins of its escrow
input to the fee is accepted. -/
theorem release_fee_exceeds_approved :
    checkTxInputs (release []) view 60000 = .ok (999 * coinValue) ∧
    matchedEscrowScript params view (release []) =
      some params.growthEscrowScript ∧
    checkGovernanceEscrowSpend decodeDestination (release [])
      params.growthEscrowScript 60000 params.nEscrowUnlockHeight ∅
      (some store) = .ok (markEscrowReleaseExecuted ∅ 1 60000) ∧
    approvedRelease decodeDestination store (release []) =
      some (coinValue, payeeScript) ∧
    ¬escrowInputValue params view (release []) -
      escrowOutputValue params (release []) ≤ coinValue := by
  refine ⟨by decide, by decide, ?_, by decide, by decide⟩
  rfl

/-- The same release with its change returned takes out exactly what is approved. -/
theorem release_with_change_within_approved :
    escrowInputValue params view (release [changeOutput]) -
      escrowOutputValue params (release [changeOutput]) ≤ coinValue := by
  have hinputs : checkTxInputs (release [changeOutput]) view 60000 =
      .ok 0 := by decide
  have hmatched : matchedEscrowScript params view
      (release [changeOutput]) = some params.growthEscrowScript := by decide
  have hgate : checkGovernanceEscrowSpend decodeDestination
      (release [changeOutput]) params.growthEscrowScript 60000
      params.nEscrowUnlockHeight ∅ (some store) =
        .ok (markEscrowReleaseExecuted ∅ 1 60000) := rfl
  have happroved : approvedRelease decodeDestination store
      (release [changeOutput]) = some (coinValue, payeeScript) := by decide
  exact (release_within_approved_iff hinputs hmatched hgate happroved).2.mpr (by decide)

end Kerrigan.Escrow
