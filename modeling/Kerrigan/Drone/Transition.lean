import Kerrigan.Drone.Check
import Kerrigan.Primitives.History

/-!
# What a block does to an entry

Seen from one key, every transaction of a block keeps the entry, renews its liveness signal,
removes it because its bond is spent, or registers a new one.  The changes compose, so the same
four cases describe a whole block.
-/

namespace Kerrigan.Drone

open Primitives Consensus Lib CDroneList List

/-! ## Changes of an entry -/

/-- The entry is the same up to its liveness signal. -/
structure Renewed (nHeight : Int) (old new : CDroneEntry) : Prop where
  same : new = { old with nLastSeenHeight := new.nLastSeenHeight }
  seen : new.nLastSeenHeight = old.nLastSeenHeight ∨ new.nLastSeenHeight = nHeight

/-- The entry is a registration by the transaction, with its bond. -/
structure Registered (params : Params) (nHeight : Int) (tx : CTransaction)
    (new : CDroneEntry) : Prop where
  spending : tx.isCoinBase = false
  registering : isRegistration tx = true
  bonded : ∃ reg txout, tx.vout[reg.nCollateralIndex]? = some txout ∧
    txout.nValue = params.nDroneCollateralAmount ∧ new = newEntry nHeight tx reg

/-- What transactions do to the entry of a key. -/
inductive Changes (params : Params) (nHeight : Int) (txs : List CTransaction) :
    Option CDroneEntry → Option CDroneEntry → Prop
  | absent : Changes params nHeight txs none none
  | removed {old : CDroneEntry} (spent : ∃ tx ∈ txs, Spends tx old.collateralOutpoint) :
      Changes params nHeight txs (some old) none
  | renewed {old new : CDroneEntry}
      (unspent : ∀ tx ∈ txs, ¬ Spends tx old.collateralOutpoint)
      (same : Renewed nHeight old new) : Changes params nHeight txs (some old) (some new)
  | registered {before : Option CDroneEntry} {new : CDroneEntry}
      (spent : ∀ old ∈ before, ∃ tx ∈ txs, Spends tx old.collateralOutpoint)
      (entered : ∃ tx ∈ txs, Registered params nHeight tx new) :
      Changes params nHeight txs before (some new)

theorem Renewed.refl (nHeight : Int) (entry : CDroneEntry) : Renewed nHeight entry entry :=
  ⟨rfl, Or.inl rfl⟩

variable {nHeight : Int} {old new : CDroneEntry}

theorem Renewed.collateral (h : Renewed nHeight old new) :
    new.collateralOutpoint = old.collateralOutpoint := by
  rw [h.same]

theorem Renewed.trans {first second third : CDroneEntry} (hfirst : Renewed nHeight first second)
    (hsecond : Renewed nHeight second third) :
    Renewed nHeight first third := by
  refine ⟨?_, ?_⟩
  · rw [hsecond.same, hfirst.same]
  · rcases hsecond.seen with hkept | hseen
    · rw [hkept]
      exact hfirst.seen
    · exact Or.inr hseen

variable {params : Params} {tx : CTransaction}

theorem Registered.renew {renewed : CDroneEntry} (hregistered : Registered params nHeight tx new)
    (hrenewed : Renewed nHeight new renewed) :
    renewed = new := by
  obtain ⟨reg, txout, -, -, rfl⟩ := hregistered.bonded
  have hseen : renewed.nLastSeenHeight = nHeight := by
    rcases hrenewed.seen with hkept | hseen
    · exact hkept
    · exact hseen
  rw [hrenewed.same, hseen]
  rfl

namespace Changes

theorem refl (before : Option CDroneEntry) : Changes params nHeight [] before before := by
  cases before with
  | none => exact absent
  | some entry => exact renewed (by simp) (Renewed.refl nHeight entry)

variable {txs more : List CTransaction}

theorem spends_append {outpoint : COutPoint}
    (h : (∃ tx ∈ txs, Spends tx outpoint) ∨ ∃ tx ∈ more, Spends tx outpoint) :
    ∃ tx ∈ txs ++ more, Spends tx outpoint := by
  rcases h with ⟨tx, htx, hspends⟩ | ⟨tx, htx, hspends⟩
  · exact ⟨tx, mem_append_left more htx, hspends⟩
  · exact ⟨tx, mem_append_right txs htx, hspends⟩

theorem append {before middle after : Option CDroneEntry}
    (hfirst : Changes params nHeight txs before middle)
    (hsecond : Changes params nHeight more middle after) :
    Changes params nHeight (txs ++ more) before after := by
  cases hsecond with
  | absent =>
    cases hfirst with
    | absent => exact absent
    | removed spent => exact removed (spends_append (Or.inl spent))
  | removed spent =>
    cases hfirst with
    | renewed _ same =>
      rw [same.collateral] at spent
      exact removed (spends_append (Or.inr spent))
    | registered earlier _ =>
      cases before with
      | none => exact absent
      | some old => exact removed (spends_append (Or.inl (earlier old rfl)))
  | renewed unspent same =>
    cases hfirst with
    | renewed earlier first =>
      refine renewed ?_ (first.trans same)
      intro tx htx
      rcases mem_append.mp htx with hmem | hmem
      · exact earlier tx hmem
      · rw [← first.collateral]
        exact unspent tx hmem
    | registered earlier entered =>
      obtain ⟨tx, htx, hregistered⟩ := entered
      rw [hregistered.renew same]
      refine registered ?_ ⟨tx, mem_append_left more htx, hregistered⟩
      intro old hold
      exact spends_append (Or.inl (earlier old hold))
  | registered spent entered =>
    obtain ⟨tx, htx, hregistered⟩ := entered
    refine registered ?_ ⟨tx, mem_append_right txs htx, hregistered⟩
    intro old hold
    cases hfirst with
    | absent => cases hold
    | removed earlier =>
      cases hold
      exact spends_append (Or.inl earlier)
    | renewed _ same =>
      cases hold
      have hlater := spent _ rfl
      rw [same.collateral] at hlater
      exact spends_append (Or.inr hlater)
    | registered earlier _ => exact spends_append (Or.inl (earlier old hold))

end Changes

/-! ## One transaction -/

theorem removeSpent_spec (list : CDroneList) (txin : CTxIn) :
    ∃ next, removeSpent list txin = some next ∧ Becomes list next (fun pkh =>
      list.droneMap[pkh]?.filter (fun entry => entry.collateralOutpoint ≠ txin.prevout)) := by
  unfold removeSpent getDroneByCollateral
  cases hindex : list.collateralIndex txin.prevout with
  | none =>
    refine ⟨list, rfl, rfl, rfl, ?_⟩
    intro pkh
    cases hentry : list.droneMap[pkh]? with
    | none => rfl
    | some entry =>
      have hne : entry.collateralOutpoint ≠ txin.prevout := by
        intro hsame
        have hindexed := (list.indexed txin.prevout pkh).mpr ⟨entry, hentry, hsame⟩
        rw [hindex] at hindexed
        cases hindexed
      simp [Option.filter, hne]
  | some owner =>
    obtain ⟨spent, hspent, hbond⟩ := (list.indexed txin.prevout owner).mp hindex
    have hkey := list.keyed owner spent hspent
    simp only [getDrone, hspent]
    rw [← hkey] at hspent
    obtain ⟨next, hnext⟩ := removeDrone_isSome hspent
    have hbecomes := removeDrone_becomes hnext
    refine ⟨next, hnext, hbecomes.blockHash, hbecomes.nHeight, ?_⟩
    intro pkh
    rw [hbecomes.lookup]
    by_cases hsame : spent.blsPubKeyHash = pkh
    · rw [if_pos hsame, ← hsame, hspent]
      simp [Option.filter, hbond]
    · rw [if_neg hsame]
      cases hentry : list.droneMap[pkh]? with
      | none => rfl
      | some entry =>
        have hne : entry.collateralOutpoint ≠ txin.prevout := by
          intro hout
          exact hsame (list.collateral_injective hspent hentry (hbond.trans hout.symm))
        simp [Option.filter, hne]

theorem forEach_removeSpent_spec (list : CDroneList) (vin : List CTxIn) :
    ∃ next, forEach removeSpent list vin = some next ∧ Becomes list next (fun pkh =>
      list.droneMap[pkh]?.filter (fun entry =>
        entry.collateralOutpoint ∉ vin.map CTxIn.prevout)) := by
  induction vin generalizing list with
  | nil =>
    refine ⟨list, rfl, rfl, rfl, ?_⟩
    intro pkh
    cases list.droneMap[pkh]? with
    | none => rfl
    | some entry => simp [Option.filter]
  | cons txin rest ih =>
    obtain ⟨middle, hmiddle, hbecomes⟩ := removeSpent_spec list txin
    obtain ⟨next, hnext, hlater⟩ := ih middle
    refine ⟨next, ?_, hlater.blockHash.trans hbecomes.blockHash,
      hlater.nHeight.trans hbecomes.nHeight, ?_⟩
    · simp only [forEach, hmiddle, hnext]
    · intro pkh
      rw [hlater.lookup, hbecomes.lookup]
      cases list.droneMap[pkh]? with
      | none => rfl
      | some entry =>
        by_cases hout : entry.collateralOutpoint = txin.prevout
        · simp [Option.filter, hout]
        · simp [Option.filter, hout]

variable {list next : CDroneList}

theorem registerDrone_entry {reg : CDroneRegTx}
    (hstep : registerDrone params nHeight tx list reg = some next) (pkh : Uint160) :
    next.droneMap[pkh]? = list.droneMap[pkh]? ∨
      (∃ old new, list.droneMap[pkh]? = some old ∧ next.droneMap[pkh]? = some new ∧
        Renewed nHeight old new) ∨
      list.droneMap[pkh]? = none ∧ ∃ txout, tx.vout[reg.nCollateralIndex]? = some txout ∧
        txout.nValue = params.nDroneCollateralAmount ∧
        next.droneMap[pkh]? = some (newEntry nHeight tx reg) := by
  unfold registerDrone at hstep
  split at hstep
  case h_1 existing hexisting =>
    rw [getDrone, ← list.keyed reg.blsPubKeyHash existing hexisting] at hexisting
    rw [(updateDrone_becomes hstep).lookup]
    by_cases hsame : existing.blsPubKeyHash = pkh
    · subst hsame
      exact Or.inr (Or.inl ⟨existing, { existing with nLastSeenHeight := nHeight }, hexisting,
        if_pos rfl, rfl, Or.inr rfl⟩)
    · exact Or.inl (if_neg hsame)
  case h_2 hnone =>
    split at hstep
    · cases hstep
      exact Or.inl rfl
    · split at hstep
      · cases hstep
        exact Or.inl rfl
      · rename_i txout htxout
        split at hstep
        · cases hstep
          exact Or.inl rfl
        · rename_i hvalue
          split at hstep
          · cases hstep
            exact Or.inl rfl
          · rw [(addDrone_becomes hstep).lookup]
            by_cases hsame : reg.blsPubKeyHash = pkh
            · subst hsame
              exact Or.inr (Or.inr ⟨hnone, txout, htxout, not_not.mp hvalue, if_pos rfl⟩)
            · exact Or.inl (if_neg hsame)

theorem changes_of_unspent {before : Option CDroneEntry}
    (h : ∀ old ∈ before, ¬ Spends tx old.collateralOutpoint) :
    Changes params nHeight [tx] before before := by
  cases before with
  | none => exact .absent
  | some entry =>
    refine .renewed ?_ (Renewed.refl nHeight entry)
    intro other hother
    cases mem_singleton.mp hother
    exact h entry rfl

theorem changes_of_spent (hcoinbase : tx.isCoinBase = false) (before : Option CDroneEntry) :
    Changes params nHeight [tx] before (before.filter (fun entry =>
      entry.collateralOutpoint ∉ tx.vin.map CTxIn.prevout)) := by
  cases before with
  | none => exact .absent
  | some entry =>
    by_cases hspent : entry.collateralOutpoint ∈ tx.vin.map CTxIn.prevout
    · rw [Option.filter_some, if_neg (by simpa using hspent)]
      exact .removed ⟨tx, mem_singleton_self tx, hcoinbase, hspent⟩
    · rw [Option.filter_some, if_pos (by simpa using hspent)]
      refine changes_of_unspent ?_
      intro old hold hspends
      cases hold
      exact hspent hspends.2

theorem applyTx_changes (hstep : applyTx params nHeight list tx = some next) (pkh : Uint160) :
    Changes params nHeight [tx] list.droneMap[pkh]? next.droneMap[pkh]? := by
  unfold applyTx at hstep
  split at hstep
  case isTrue hcoinbase =>
    cases hstep
    refine changes_of_unspent ?_
    intro old _ hspends
    rw [hspends.1] at hcoinbase
    cases hcoinbase
  case isFalse hcoinbase =>
    rw [Bool.not_eq_true] at hcoinbase
    obtain ⟨remaining, hremaining, hbecomes⟩ := forEach_removeSpent_spec list tx.vin
    have hremoved : Changes params nHeight [tx] list.droneMap[pkh]? remaining.droneMap[pkh]? := by
      rw [hbecomes.lookup]
      exact changes_of_spent hcoinbase _
    simp only [hremaining] at hstep
    split at hstep
    · cases hstep
      exact hremoved
    · rename_i hregistration
      split at hstep
      · cases hstep
      · rename_i reg _
        rcases registerDrone_entry hstep pkh with hkept | ⟨old, new, hold, hnew, hrenewed⟩ |
          ⟨hnone, txout, htxout, hvalue, hnew⟩
        · rw [hkept]
          exact hremoved
        · rw [hnew]
          rw [hold] at hremoved
          generalize list.droneMap[pkh]? = before at hremoved
          cases hremoved with
          | renewed unspent same => exact .renewed unspent (same.trans hrenewed)
          | registered spent entered =>
            obtain ⟨other, hother, hregistered⟩ := entered
            rw [hregistered.renew hrenewed]
            exact .registered spent ⟨other, hother, hregistered⟩
        · rw [hnew]
          rw [hnone] at hremoved
          refine .registered ?_ ⟨tx, mem_singleton_self tx, hcoinbase,
            by simpa [isRegistration] using hregistration, reg, txout, htxout, hvalue, rfl⟩
          intro old hold
          rw [hold] at hremoved
          cases hremoved with
          | removed spent => exact spent

theorem registerDrone_isSome (params : Params) (nHeight : Int) (reg : CDroneRegTx)
    (hfresh : ∀ (pkh : Uint160) (entry : CDroneEntry), list.droneMap[pkh]? = some entry →
      entry.collateralOutpoint.hash ≠ tx.hash) :
    ∃ next, registerDrone params nHeight tx list reg = some next := by
  unfold registerDrone
  split
  case h_1 existing hexisting =>
    rw [getDrone, ← list.keyed reg.blsPubKeyHash existing hexisting] at hexisting
    exact @updateDrone_isSome list { existing with nLastSeenHeight := nHeight } existing hexisting
      ⟨rfl, rfl⟩
  case h_2 hnone =>
    split
    · exact ⟨list, rfl⟩
    · split
      · exact ⟨list, rfl⟩
      · split
        · exact ⟨list, rfl⟩
        · split
          · exact ⟨list, rfl⟩
          · refine addDrone_isSome hnone ?_
            intro pkh other hother hsame
            exact hfresh pkh other hother (congrArg COutPoint.hash hsame)

theorem applyTx_isSome (params : Params) (nHeight : Int)
    (hdecodes : isRegistration tx = true → ∃ reg, tx.droneRegPayload = some reg)
    (hfresh : ∀ (pkh : Uint160) (entry : CDroneEntry), list.droneMap[pkh]? = some entry →
      entry.collateralOutpoint.hash ≠ tx.hash) :
    ∃ next, applyTx params nHeight list tx = some next := by
  obtain ⟨remaining, hremaining, hbecomes⟩ := forEach_removeSpent_spec list tx.vin
  unfold applyTx
  split
  · exact ⟨list, rfl⟩
  · simp only [hremaining]
    split
    · exact ⟨remaining, rfl⟩
    · rename_i hregistration
      obtain ⟨reg, hreg⟩ := hdecodes (by simpa [isRegistration] using hregistration)
      simp only [hreg]
      refine registerDrone_isSome params nHeight reg ?_
      intro pkh entry hentry
      rw [hbecomes.lookup, Option.filter_eq_some_iff] at hentry
      exact hfresh pkh entry hentry.1

/-! ## Payees -/

variable {nBlockHeight : Int}

def Leads (best : Option CDroneEntry) (entry : CDroneEntry) : Prop :=
  ∃ candidate ∈ best, effectiveLastPaidHeight candidate ≤ effectiveLastPaidHeight entry

variable {first second : CDroneEntry}

theorem le_of_compareDronesByLastPaid (h : compareDronesByLastPaid first second = true) :
    effectiveLastPaidHeight first ≤ effectiveLastPaidHeight second := by
  unfold compareDronesByLastPaid at h
  split at h
  · exact le_of_eq ‹_›
  · exact le_of_lt (by simpa using h)

theorem le_of_not_compareDronesByLastPaid (h : ¬ compareDronesByLastPaid first second = true) :
    effectiveLastPaidHeight second ≤ effectiveLastPaidHeight first := by
  unfold compareDronesByLastPaid at h
  split at h
  · exact le_of_eq (Eq.symm ‹_›)
  · simpa using h

variable {best : Option CDroneEntry} {entry other : CDroneEntry}

theorem betterPayee_leads
    (h : Leads best other ∨ other = entry ∧ isEligible params entry nBlockHeight = true) :
    Leads (betterPayee params nBlockHeight best entry) other := by
  unfold betterPayee
  split
  case isFalse hineligible =>
    rcases h with hleads | ⟨-, heligible⟩
    · exact hleads
    · exact absurd heligible hineligible
  case isTrue heligible =>
    split
    case h_1 =>
      rcases h with ⟨candidate, hcandidate, -⟩ | ⟨rfl, -⟩
      · cases hcandidate
      · exact ⟨other, rfl, le_rfl⟩
    case h_2 current =>
      split
      case isTrue hbetter =>
        rcases h with ⟨candidate, hcandidate, hle⟩ | ⟨rfl, -⟩
        · cases hcandidate
          exact ⟨entry, rfl, (le_of_compareDronesByLastPaid hbetter).trans hle⟩
        · exact ⟨other, rfl, le_rfl⟩
      case isFalse hworse =>
        rcases h with hleads | ⟨rfl, -⟩
        · exact hleads
        · exact ⟨current, rfl, le_of_not_compareDronesByLastPaid hworse⟩

theorem betterPayee_eq (params : Params) (nBlockHeight : Int) (best : Option CDroneEntry)
    (entry : CDroneEntry) :
    betterPayee params nBlockHeight best entry = best ∨
      betterPayee params nBlockHeight best entry = some entry ∧
        isEligible params entry nBlockHeight = true := by
  unfold betterPayee
  split
  case isFalse => exact Or.inl rfl
  case isTrue heligible =>
    split
    · exact Or.inr ⟨rfl, heligible⟩
    · split
      · exact Or.inr ⟨rfl, heligible⟩
      · exact Or.inl rfl

variable {entries : List CDroneEntry}

theorem foldl_betterPayee_leads
    (h : Leads best other ∨ other ∈ entries ∧ isEligible params other nBlockHeight = true) :
    Leads (entries.foldl (betterPayee params nBlockHeight) best) other := by
  induction entries generalizing best with
  | nil =>
    rcases h with hleads | ⟨hmem, -⟩
    · exact hleads
    · cases hmem
  | cons entry rest ih =>
    refine ih ?_
    rcases h with hleads | ⟨hmem, heligible⟩
    · exact Or.inl (betterPayee_leads (Or.inl hleads))
    · rcases mem_cons.mp hmem with rfl | hrest
      · exact Or.inl (betterPayee_leads (Or.inr ⟨rfl, heligible⟩))
      · exact Or.inr ⟨hrest, heligible⟩

variable {payee : CDroneEntry}

theorem foldl_betterPayee_mem
    (h : entries.foldl (betterPayee params nBlockHeight) best = some payee) :
    best = some payee ∨ payee ∈ entries ∧ isEligible params payee nBlockHeight = true := by
  induction entries generalizing best with
  | nil => exact Or.inl h
  | cons entry rest ih =>
    rcases ih h with hround | ⟨hmem, heligible⟩
    · rcases betterPayee_eq params nBlockHeight best entry with hkept | ⟨htaken, heligible⟩
      · exact Or.inl (hkept.symm.trans hround)
      · cases htaken.symm.trans hround
        exact Or.inr ⟨mem_cons_self, heligible⟩
    · exact Or.inr ⟨mem_cons_of_mem entry hmem, heligible⟩

variable {list : CDroneList}

theorem getPayee_mem (h : getPayee params list nBlockHeight = some payee) :
    list.droneMap[payee.blsPubKeyHash]? = some payee ∧
      isEligible params payee nBlockHeight = true := by
  rcases foldl_betterPayee_mem h with hnone | ⟨hmem, heligible⟩
  · cases hnone
  · obtain ⟨item, hitem, rfl⟩ := mem_map.mp hmem
    have hfound : list.droneMap[item.1]? = some item.2 :=
      Std.ExtTreeMap.mem_toList_iff_getElem?_eq_some.mp hitem
    rw [list.keyed item.1 item.2 hfound]
    exact ⟨hfound, heligible⟩

theorem getPayee_leads {pkh : Uint160} (hentry : list.droneMap[pkh]? = some entry)
    (heligible : isEligible params entry nBlockHeight = true) :
    Leads (getPayee params list nBlockHeight) entry := by
  refine foldl_betterPayee_leads (Or.inr ⟨?_, heligible⟩)
  exact mem_map.mpr
    ⟨(pkh, entry), Std.ExtTreeMap.mem_toList_iff_getElem?_eq_some.mpr hentry, rfl⟩

/-! ## One block -/

theorem forEach_applyTx_changes {txs : List CTransaction}
    (hloop : forEach (applyTx params nHeight) list txs = some next) (pkh : Uint160) :
    Changes params nHeight txs list.droneMap[pkh]? next.droneMap[pkh]? := by
  induction txs generalizing list with
  | nil =>
    cases hloop
    exact Changes.refl _
  | cons tx rest ih =>
    simp only [forEach] at hloop
    split at hloop
    · cases hloop
    · rename_i middle hmiddle
      exact (applyTx_changes hmiddle pkh).append (ih hloop)

def markedEntry (params : Params) (prevList : CDroneList) (nHeight : Int) (pkh : Uint160) :
    Option CDroneEntry :=
  prevList.droneMap[pkh]?.map (fun entry =>
    if getPayee params prevList nHeight = some entry then { entry with nLastPaidHeight := nHeight }
    else entry)

variable {prevList : CDroneList}

theorem markedEntry_of_some (params : Params) (nHeight : Int) {pkh : Uint160}
    (hold : prevList.droneMap[pkh]? = some old) :
    ∃ marked, markedEntry params prevList nHeight pkh = some marked ∧
      marked = { old with nLastPaidHeight := marked.nLastPaidHeight } ∧
      marked.nLastPaidHeight = if getPayee params prevList nHeight = some old then nHeight
        else old.nLastPaidHeight := by
  rw [markedEntry, hold]
  split
  case isTrue hpayee =>
    exact ⟨{ old with nLastPaidHeight := nHeight }, by simp [hpayee], rfl, rfl⟩
  case isFalse hother => exact ⟨old, by simp [hother], rfl, rfl⟩

theorem markPaid_spec (params : Params) (prevList : CDroneList) (nHeight : Int) :
    ∃ paid, markPaid params prevList nHeight
        { prevList with blockHash := 0, nHeight := nHeight } = some paid ∧
      paid.nHeight = nHeight ∧
      ∀ pkh : Uint160, paid.droneMap[pkh]? = markedEntry params prevList nHeight pkh := by
  unfold markPaid markedEntry
  cases hpayee : getPayee params prevList nHeight with
  | none =>
    refine ⟨_, rfl, rfl, ?_⟩
    intro pkh
    simp
  | some payee =>
    obtain ⟨hlisted, -⟩ := getPayee_mem hpayee
    obtain ⟨paid, hpaid⟩ := @updateDrone_isSome
      { prevList with blockHash := 0, nHeight := nHeight }
      { payee with nLastPaidHeight := nHeight } payee hlisted ⟨rfl, rfl⟩
    have hbecomes := updateDrone_becomes hpaid
    refine ⟨paid, hpaid, hbecomes.nHeight, ?_⟩
    intro pkh
    rw [hbecomes.lookup]
    by_cases hsame : payee.blsPubKeyHash = pkh
    · subst hsame
      simp [hlisted]
    · rw [if_neg hsame]
      cases hentry : prevList.droneMap[pkh]? with
      | none => rfl
      | some entry =>
        have hne : payee ≠ entry := by
          rintro rfl
          exact hsame (prevList.keyed pkh payee hentry)
        simp [hne]

theorem buildListFromBlock_changes {newList : CDroneList} {block : CBlock}
    (hbuild : buildListFromBlock params prevList block nHeight = some newList) (pkh : Uint160) :
    Changes params nHeight block.vtx (markedEntry params prevList nHeight pkh)
      newList.droneMap[pkh]? := by
  obtain ⟨paid, hpaid, -, hmarked⟩ := markPaid_spec params prevList nHeight
  simp only [buildListFromBlock, hpaid] at hbuild
  rw [← hmarked]
  exact forEach_applyTx_changes hbuild pkh

end Kerrigan.Drone
