import Kerrigan.Drone.Transition
import Kerrigan.Drone.Refinement

/-!
# The invariant of the drone list

Along a chain whose transactions can be connected and whose registrations pass their check, the
list transition never throws.  Every listed drone has a bond on the chain that nobody has spent,
and its heights are in order.
-/

namespace Kerrigan.Drone

open Primitives Consensus Lib CDroneList List

/-! ## Chains -/

namespace CBlockIndex

/-- The transactions up to a block, oldest first.  Those of the first block are not connected. -/
def history : CBlockIndex → List CTransaction
  | genesis _ => []
  | child pprev block => pprev.history ++ block.vtx

/-- The coins after a block, if all its transactions and those before can be connected. -/
def coins : CBlockIndex → Option CCoinsView
  | genesis _ => some (fun _ => none)
  | child pprev block =>
      pprev.coins.bind (fun view => connectCoins view (pprev.nHeight + 1) block.vtx)

/-- The first block is on the chain of the second. -/
inductive OnChain : CBlockIndex → CBlockIndex → Prop
  | self (index : CBlockIndex) : OnChain index index
  | child {ancestor pprev : CBlockIndex} (block : CBlock) (below : OnChain ancestor pprev) :
      OnChain ancestor (.child pprev block)

end CBlockIndex

/-- Every registration of the chain passes `CheckDroneRegTx` against the list before its block,
with the spork as it was at the height of the block. -/
def RegistrationsPass (params : Params) (oracles : DroneOracles) (spork : Int → Bool)
    (checkSigs : Bool) : CBlockIndex → Prop
  | .genesis _ => True
  | .child pprev block =>
      RegistrationsPass params oracles spork checkSigs pprev ∧
        ∀ list, foldList params pprev = some list → ∀ tx ∈ block.vtx, isRegistration tx = true →
          checkDroneRegTx params oracles (spork (pprev.nHeight + 1)) checkSigs pprev.nHeight list
            tx = .ok ()

/-- A chain whose transactions differ and can be connected, and whose registrations pass. -/
structure RegisteredChain (params : Params) (oracles : DroneOracles) (spork : Int → Bool)
    (checkSigs : Bool) (index : CBlockIndex) : Prop where
  connected : ∃ view, index.coins = some view
  distinct : DistinctTransactions index.history
  checked : RegistrationsPass params oracles spork checkSigs index

theorem RegisteredChain.pprev {params : Params} {oracles : DroneOracles} {spork : Int → Bool}
    {checkSigs : Bool} {pprev : CBlockIndex} {block : CBlock}
    (h : RegisteredChain params oracles spork checkSigs (.child pprev block)) :
    RegisteredChain params oracles spork checkSigs pprev where
  connected := by
    obtain ⟨view, hview⟩ := h.connected
    obtain ⟨before, hbefore, -⟩ := Option.bind_eq_some_iff.mp hview
    exact ⟨before, hbefore⟩
  distinct := h.distinct.left
  checked := h.checked.1

/-! ## Sound entries -/

/-- The bond of the entry is on the chain and unspent, and its heights are in order. -/
structure EntrySound (params : Params) (history : List CTransaction) (nHeight : Int)
    (entry : CDroneEntry) : Prop where
  bonded : ∃ tx ∈ history, tx.hash = entry.collateralOutpoint.hash ∧
    ∃ txout, tx.vout[entry.collateralOutpoint.n]? = some txout ∧
      txout.nValue = params.nDroneCollateralAmount
  unspent : ∀ tx ∈ history, ¬ Spends tx entry.collateralOutpoint
  registered : entry.nRegisteredHeight ≤ entry.nLastSeenHeight
  seen : entry.nLastSeenHeight ≤ nHeight
  paid : entry.nLastPaidHeight = 0 ∨
    entry.nRegisteredHeight < entry.nLastPaidHeight ∧ entry.nLastPaidHeight ≤ nHeight

def ListSound (params : Params) (history : List CTransaction) (nHeight : Int)
    (list : CDroneList) : Prop :=
  ∀ (pkh : Uint160) (entry : CDroneEntry), list.droneMap[pkh]? = some entry →
    EntrySound params history nHeight entry

variable {params : Params} {history : List CTransaction} {nHeight : Int}
  {entry new : CDroneEntry} {tx : CTransaction}

theorem EntrySound.mark (h : EntrySound params history nHeight entry) (isPayee : Prop)
    [Decidable isPayee] :
    EntrySound params history (nHeight + 1)
      (if isPayee then { entry with nLastPaidHeight := nHeight + 1 } else entry) := by
  have hregistered := h.registered
  have hseen := h.seen
  have hpaid := h.paid
  split
  · refine ⟨h.bonded, h.unspent, hregistered, ?_, Or.inr ⟨?_, ?_⟩⟩
    · exact hseen.trans (by omega)
    · exact show entry.nRegisteredHeight < nHeight + 1 by omega
    · exact le_rfl
  · exact ⟨h.bonded, h.unspent, hregistered, by omega, by omega⟩

theorem EntrySound.renew (h : EntrySound params history nHeight entry)
    (hunspent : ¬ Spends tx entry.collateralOutpoint) (hrenewed : Renewed nHeight entry new) :
    EntrySound params (history ++ [tx]) nHeight new := by
  obtain ⟨other, hother, hbond⟩ := h.bonded
  have hregistered := h.registered
  have hseen := h.seen
  have hrenewal := hrenewed.seen
  rw [hrenewed.same]
  refine ⟨⟨other, mem_append_left [tx] hother, hbond⟩, ?_, ?_, ?_, h.paid⟩
  · intro spender hspender
    rcases mem_append.mp hspender with hmem | hmem
    · exact h.unspent spender hmem
    · cases mem_singleton.mp hmem
      exact hunspent
  · exact show entry.nRegisteredHeight ≤ new.nLastSeenHeight by omega
  · exact show new.nLastSeenHeight ≤ nHeight by omega

theorem Registered.sound (h : Registered params nHeight tx new)
    (hunspent : ∀ n, ∀ spender ∈ history ++ [tx], ¬ Spends spender ⟨tx.hash, n⟩) :
    EntrySound params (history ++ [tx]) nHeight new := by
  obtain ⟨reg, txout, htxout, hvalue, rfl⟩ := h.bonded
  refine ⟨⟨tx, mem_append_right history (mem_singleton_self tx), rfl, txout, htxout,
    hvalue⟩, hunspent reg.nCollateralIndex, le_rfl, le_rfl, Or.inl rfl⟩

/-! ## Steps and runs -/

variable {view : CCoinsView} {list : CDroneList}

theorem applyTx_sound {next : CCoinsView} {undo : CTxUndo} {rest : List CTransaction}
    {tx : CTransaction} (hsourced : Sourced view history)
    (hdistinct : DistinctTransactions (history ++ tx :: rest))
    (hupdate : view.updateCoins tx nHeight = some (next, undo))
    (hdecodes : isRegistration tx = true → ∃ reg, tx.droneRegPayload = some reg)
    (hsound : ListSound params history nHeight list) :
    ∃ after, applyTx params nHeight list tx = some after ∧
      ListSound params (history ++ [tx]) nHeight after := by
  have hfresh := hsourced.fresh hdistinct hupdate
  have hother : ∀ (pkh : Uint160) (entry : CDroneEntry), list.droneMap[pkh]? = some entry →
      entry.collateralOutpoint.hash ≠ tx.hash := by
    intro pkh entry hentry hsame
    obtain ⟨other, hother, hhash, -⟩ := (hsound pkh entry hentry).bonded
    exact hfresh other hother (hhash.trans hsame)
  obtain ⟨after, hafter⟩ := applyTx_isSome params nHeight hdecodes hother
  refine ⟨after, hafter, ?_⟩
  intro pkh entry hentry
  have hentered : (∃ registering ∈ [tx], Registered params nHeight registering entry) →
      EntrySound params (history ++ [tx]) nHeight entry := by
    rintro ⟨registering, hmem, hregistered⟩
    cases mem_singleton.mp hmem
    exact hregistered.sound (hsourced.unspent_output hfresh hupdate)
  have hchanges := applyTx_changes hafter pkh
  rw [hentry] at hchanges
  cases hold : list.droneMap[pkh]? with
  | none =>
    rw [hold] at hchanges
    cases hchanges with
    | registered _ entered => exact hentered entered
  | some old =>
    rw [hold] at hchanges
    cases hchanges with
    | renewed unspent same =>
      exact (hsound pkh old hold).renew (unspent tx (mem_singleton_self tx)) same
    | registered _ entered => exact hentered entered

variable {final : CCoinsView}

theorem forEach_applyTx_sound {txs : List CTransaction} (hsourced : Sourced view history)
    (hdistinct : DistinctTransactions (history ++ txs))
    (hconnect : connectCoins view nHeight txs = some final)
    (hdecodes : ∀ tx ∈ txs, isRegistration tx = true → ∃ reg, tx.droneRegPayload = some reg)
    (hsound : ListSound params history nHeight list) :
    ∃ after, forEach (applyTx params nHeight) list txs = some after ∧
      ListSound params (history ++ txs) nHeight after := by
  induction txs generalizing view history list with
  | nil =>
    rw [append_nil]
    exact ⟨list, rfl, hsound⟩
  | cons tx rest ih =>
    simp only [connectCoins] at hconnect
    split at hconnect
    · cases hconnect
    · rename_i next undo hupdate
      rw [forall_mem_cons] at hdecodes
      obtain ⟨middle, hmiddle, hmiddleSound⟩ :=
        applyTx_sound hsourced hdistinct hupdate hdecodes.1 hsound
      have hnext := hsourced.connect (fun _ => hsourced.fresh hdistinct hupdate) hupdate
      rw [append_cons] at hdistinct ⊢
      obtain ⟨after, hafter, hafterSound⟩ :=
        ih hnext hdistinct hconnect hdecodes.2 hmiddleSound
      exact ⟨after, by simp only [forEach, hmiddle, hafter], hafterSound⟩

theorem buildListFromBlock_sound {block : CBlock} {prevList : CDroneList}
    (hsourced : Sourced view history) (hdistinct : DistinctTransactions (history ++ block.vtx))
    (hconnect : connectCoins view (nHeight + 1) block.vtx = some final)
    (hdecodes : ∀ tx ∈ block.vtx, isRegistration tx = true → ∃ reg, tx.droneRegPayload = some reg)
    (hsound : ListSound params history nHeight prevList) :
    ∃ newList, buildListFromBlock params prevList block (nHeight + 1) = some newList ∧
      ListSound params (history ++ block.vtx) (nHeight + 1) newList := by
  obtain ⟨paid, hpaid, -, hmarked⟩ := markPaid_spec params prevList (nHeight + 1)
  have hpaidSound : ListSound params history (nHeight + 1) paid := by
    intro pkh entry hentry
    rw [hmarked, markedEntry, Option.map_eq_some_iff] at hentry
    obtain ⟨old, hold, rfl⟩ := hentry
    exact (hsound pkh old hold).mark _
  obtain ⟨newList, hnewList, hnewSound⟩ :=
    forEach_applyTx_sound hsourced hdistinct hconnect hdecodes hpaidSound
  exact ⟨newList, by simp only [buildListFromBlock, hpaid, hnewList], hnewSound⟩

/-! ## Chains of blocks -/

variable {oracles : DroneOracles} {spork : Int → Bool} {checkSigs : Bool}
  {pprev : CBlockIndex} {block : CBlock}

theorem RegisteredChain.decodes {list : CDroneList}
    (h : RegisteredChain params oracles spork checkSigs (.child pprev block))
    (hlist : foldList params pprev = some list) :
    ∀ tx ∈ block.vtx, isRegistration tx = true → ∃ reg, tx.droneRegPayload = some reg := by
  intro tx htx hregistration
  exact (checkDroneRegTx_eq_ok (h.checked.2 list hlist tx htx hregistration)).2

variable {index : CBlockIndex}

/-- Along a checked chain the coins stem from its transactions, and the fold gives a sound
list. -/
theorem RegisteredChain.sound (h : RegisteredChain params oracles spork checkSigs index) :
    (∃ view, index.coins = some view ∧ Sourced view index.history) ∧
      ∃ list, foldList params index = some list ∧
        ListSound params index.history index.nHeight list := by
  induction index with
  | genesis hash =>
    refine ⟨⟨_, rfl, sourced_nil⟩, _, foldList_genesis params hash, ?_⟩
    intro pkh entry hentry
    simp [empty] at hentry
  | child pprev block ih =>
    obtain ⟨⟨view, hview, hsourced⟩, prevList, hprevList, hprevSound⟩ := ih h.pprev
    obtain ⟨final, hfinal⟩ := h.connected
    have hconnect : connectCoins view (pprev.nHeight + 1) block.vtx = some final := by
      simpa [CBlockIndex.coins, hview] using hfinal
    refine ⟨⟨final, hfinal, connectCoins_sourced hsourced h.distinct hconnect⟩, ?_⟩
    by_cases hactive : params.isDronePayoutActive (pprev.nHeight + 1) = true
    · obtain ⟨newList, hnewList, hnewSound⟩ := buildListFromBlock_sound hsourced h.distinct
        hconnect (h.decodes hprevList) hprevSound
      refine ⟨{ newList with blockHash := block.hash }, ?_, hnewSound⟩
      simp [foldList_active hactive, hprevList, nextList, hnewList]
    · refine ⟨_, foldList_inactive hactive, ?_⟩
      intro pkh entry hentry
      simp [empty] at hentry

/-- A drone listed before and after a block keeps its bond and its payout script unless the
block spends its bond. -/
theorem foldList_keeps {before after : CDroneList} (hbefore : foldList params pprev = some before)
    (hafter : foldList params (.child pprev block) = some after) {pkh : Uint160}
    {old new : CDroneEntry} (hold : before.droneMap[pkh]? = some old)
    (hnew : after.droneMap[pkh]? = some new)
    (hunspent : ∀ tx ∈ block.vtx, ¬ Spends tx old.collateralOutpoint) : SameImmutables old new := by
  by_cases hactive : params.isDronePayoutActive (pprev.nHeight + 1) = true
  · rw [foldList_active hactive, hbefore, Option.bind_some, nextList,
      Option.map_eq_some_iff] at hafter
    obtain ⟨newList, hbuild, rfl⟩ := hafter
    obtain ⟨marked, hmarked, hsame, -⟩ := markedEntry_of_some params (pprev.nHeight + 1) hold
    have hchanges := buildListFromBlock_changes hbuild pkh
    rw [hnew, hmarked] at hchanges
    cases hchanges with
    | renewed _ same =>
      rw [same.same, hsame]
      exact ⟨rfl, rfl⟩
    | registered spent _ =>
      obtain ⟨tx, htx, hspends⟩ := spent marked rfl
      rw [hsame] at hspends
      exact absurd hspends (hunspent tx htx)
  · rw [foldList_inactive hactive] at hafter
    cases hafter
    simp [empty] at hnew

theorem RegisteredChain.onChain {ancestor : CBlockIndex}
    (h : RegisteredChain params oracles spork checkSigs index)
    (hancestor : CBlockIndex.OnChain ancestor index) :
    RegisteredChain params oracles spork checkSigs ancestor := by
  induction hancestor with
  | self => exact h
  | child block _ ih => exact ih h.pprev

/-- At every block of a checked chain the fold gives a list, its index is the inverse of its map,
its entries are sound, and entries of two successive lists agree unless the bond is spent. -/
theorem drone_list_invariant (params : Params) (oracles : DroneOracles) (spork : Int → Bool)
    (checkSigs : Bool) (index : CBlockIndex)
    (hchain : RegisteredChain params oracles spork checkSigs index) (ancestor : CBlockIndex)
    (hancestor : CBlockIndex.OnChain ancestor index) :
    ∃ list, foldList params ancestor = some list ∧
      (∀ (outpoint : COutPoint) (pkh : Uint160), list.collateralIndex outpoint = some pkh ↔
        ∃ entry, list.droneMap[pkh]? = some entry ∧ entry.collateralOutpoint = outpoint) ∧
      (∀ (pkh : Uint160) (entry : CDroneEntry), list.droneMap[pkh]? = some entry →
        EntrySound params ancestor.history ancestor.nHeight entry) ∧
      ∀ (pprev : CBlockIndex) (block : CBlock), ancestor = .child pprev block →
        ∀ before, foldList params pprev = some before →
          ∀ (pkh : Uint160) (old new : CDroneEntry), before.droneMap[pkh]? = some old →
            list.droneMap[pkh]? = some new →
            (∀ tx ∈ block.vtx, ¬ Spends tx old.collateralOutpoint) →
            new.payoutScript = old.payoutScript ∧
              new.collateralOutpoint = old.collateralOutpoint := by
  obtain ⟨-, list, hlist, hsound⟩ := (hchain.onChain hancestor).sound
  refine ⟨list, hlist, list.indexed, hsound, ?_⟩
  rintro pprev block rfl before hbefore pkh old new hold hnew hunspent
  obtain ⟨hbond, hscript⟩ := foldList_keeps hbefore hlist hold hnew hunspent
  exact ⟨hscript.symm, hbond.symm⟩

namespace InvariantSample

def bondParams : Params := { nDronePayoutHeight := 2, nDroneCollateralAmount := 5 }

def zeroOracles : DroneOracles := ⟨fun _ => 7, fun _ => 0, fun _ => true⟩

def coinbaseTx (hash : Uint256) : CTransaction where
  hash := hash
  nVersion := 3
  nType := .coinbase
  vin := [⟨⟨0, COutPoint.nullIndex⟩⟩]
  vout := [⟨5, [1]⟩]

def bondTx : CTransaction where
  hash := 30
  nVersion := 3
  nType := .droneRegister
  vin := [⟨⟨10, 0⟩⟩]
  vout := [⟨5, [2]⟩]
  droneRegPayload := some {
    blsPubKeyHash := 7, irohNodeId := 0, nHardwareClass := 0, nModelTier := 0
    nCollateralIndex := 0, scriptPayout := [3], vchBlsPubKey := replicate 96 0
    vchSig := replicate 48 0 }

def funded : CBlockIndex := .child (.genesis 100) ⟨101, [coinbaseTx 10]⟩

def bonded : CBlockIndex := .child funded ⟨102, [coinbaseTx 20, bondTx]⟩

theorem registeredChain_bonded :
    RegisteredChain bondParams zeroOracles (fun _ => true) true bonded where
  connected := Option.isSome_iff_exists.mp (by decide +kernel)
  distinct := ⟨by decide +kernel, by decide +kernel⟩
  checked := by
    refine ⟨⟨trivial, ?_⟩, ?_⟩
    · intro list _ tx htx hregistration
      cases mem_singleton.mp htx
      cases hregistration
    · intro list hlist tx htx hregistration
      have hpasses : ∀ tx ∈ [coinbaseTx 20, bondTx], isRegistration tx = true →
          checkDroneRegTx bondParams zeroOracles true true 1
            ((foldList bondParams funded).getD (empty 0 0)) tx = .ok () := by
        decide +kernel
      have hpass := hpasses tx htx hregistration
      rw [hlist] at hpass
      exact hpass

end InvariantSample

open InvariantSample in
theorem drone_list_invariant_bonded :
    ∃ list, foldList bondParams bonded = some list ∧
      (∃ entry, list.droneMap[7]? = some entry ∧ entry.collateralOutpoint = ⟨30, 0⟩) ∧
      ∀ (pkh : Uint160) (entry : CDroneEntry), list.droneMap[pkh]? = some entry →
        EntrySound bondParams bonded.history bonded.nHeight entry := by
  obtain ⟨list, hlist, hindex, hsound, -⟩ := drone_list_invariant bondParams zeroOracles
    (fun _ => true) true bonded registeredChain_bonded bonded (.self bonded)
  refine ⟨list, hlist, (hindex ⟨30, 0⟩ 7).mp ?_, hsound⟩
  have hfound : (foldList bondParams bonded).map (fun list => list.collateralIndex ⟨30, 0⟩) =
      some (some 7) := by decide +kernel
  rw [hlist, Option.map_some] at hfound
  exact Option.some.inj hfound

end Kerrigan.Drone
