import Kerrigan.HMP.Connect
import Kerrigan.Masternode.Treasury

/-!
# Miner identities and payouts

From the re-arm height on a coinbase carries the identity of its miner with a signature over the
height, the previous block and the script of the first output.  The payee check finds the required
outputs anywhere in the coinbase, and the value check only limits the total.
-/

namespace Kerrigan.Masternode

open Primitives Consensus Lib HMP List

/-! ## Accepted coinbases -/

/-- A block with its coinbase and the payload that the coinbase decodes to. -/
structure MinedBlock where
  hash : Uint256
  algo : Nat
  coinbase : CTransaction
  payload : Option CCbTx

namespace MinedBlock

def hmpBlock (block : MinedBlock) : HMPBlock where
  hash := block.hash
  algo := block.algo
  coinbase := if block.coinbase.nVersion = 3 ∧ block.coinbase.nType = .coinbase then
    .special block.payload else .other
  payoutScript := block.coinbase.vout.head?.map CTxOut.scriptPubKey

end MinedBlock

/-- The rules of `ConnectBlock` for the coinbase of a block: `CheckCbTx`, `IsBlockValueValid`,
`IsTransactionValid` and the Hivemind checks. -/
structure CoinbaseAccepted (params : PaymentParams) (oracles : Oracles) (state : PaymentState)
    (parent : Chain) (block : MinedBlock) (blockSubsidy feeReward : Int) : Prop where
  height : state.nBlockHeight = parent.height + 1
  payload : block.coinbase.nType = .coinbase → ∃ cbTx ∈ block.payload,
    checkCbTx params.toParams oracles state.nBlockHeight cbTx.atVersion = .ok ()
  value : isBlockValueValid block.coinbase state.nBlockHeight (blockSubsidy + feeReward) =
    some (.ok ())
  payee : isTransactionValid params state block.coinbase blockSubsidy feeReward = some true
  hivemind : checkBlock params.toParams oracles block.hmpBlock parent = .ok ()

/-! ## Signatures -/

/-- Who holds an identity: the messages it has signed, all of them for scripts of its own, and no
signature of the identity verifies for another message. -/
structure IdentityHolder (oracles : Oracles) (minerIdentity : CBLSPublicKey) where
  Signed : Int → Uint256 → Script → Prop
  Owns : Script → Prop
  owns_of_signed : ∀ height prevHash script, Signed height prevHash script → Owns script
  unforgeable : ∀ sig height prevHash script,
    oracles.verifyIdentity minerIdentity sig height prevHash script = true →
      Signed height prevHash script

/-- The holder has signed the script of the first output for the place of the block. -/
def SignedPayout {oracles : Oracles} {minerIdentity : CBLSPublicKey}
    (holder : IdentityHolder oracles minerIdentity) (parent : Chain) (block : MinedBlock)
    (script : Script) : Prop :=
  block.hmpBlock.payoutScript = some script ∧
    holder.Signed (parent.height + 1) (parent.tipHash.getD 0) script

def ReadsPayload (params : Params) (parent : Chain) (block : MinedBlock) : Prop :=
  params.getHMPStage (parent.height + 1) ≠ 1 ∧ block.coinbase.nVersion = 3 ∧
    block.coinbase.nType = .coinbase

variable {oracles : Oracles} {cbTx : CCbTx}

theorem checkCbTx_rearm {params : Params} {height : Int} (hrearm : params.IsHMPRearmActive height)
    (hchecked : checkCbTx params oracles height cbTx = .ok ()) :
    CCbTx.hmpRearm ≤ cbTx.nVersion ∧ params.IsHMPActive height := by
  unfold checkCbTx at hchecked
  simp only [bind_eq_ok_iff, require_eq_ok_iff] at hchecked
  obtain ⟨-, -, -, -, -, hseal, -, hversion, -⟩ := hchecked
  have hrearmVersion := hversion.mp hrearm
  have hsealVersion : CCbTx.hmpSeal ≤ cbTx.nVersion := le_trans (by decide) hrearmVersion
  exact ⟨hrearmVersion, (hseal.mpr hsealVersion).2⟩

variable {params : PaymentParams} {state : PaymentState} {blockSubsidy feeReward : Int}

theorem CoinbaseAccepted.signed {parent : Chain} {block : MinedBlock}
    (haccepted : CoinbaseAccepted params oracles state parent block blockSubsidy feeReward)
    (hrearm : params.IsHMPRearmActive (parent.height + 1)) (hpayload : block.payload = some cbTx)
    (holder : IdentityHolder oracles cbTx.minerIdentity)
    (hreads : ReadsPayload params.toParams parent block) :
    ∃ script, SignedPayout holder parent block script := by
  obtain ⟨hstage, hversion, htype⟩ := hreads
  obtain ⟨checkedTx, hcheckedTx, hchecked⟩ := haccepted.payload htype
  rw [haccepted.height] at hchecked
  cases Option.some.inj (hpayload.symm.trans hcheckedTx)
  obtain ⟨hrearmVersion, hactive⟩ := checkCbTx_rearm hrearm hchecked
  change CCbTx.hmpRearm ≤ cbTx.nVersion at hrearmVersion
  have hsealVersion : CCbTx.hmpSeal ≤ cbTx.nVersion := le_trans (by decide) hrearmVersion
  have hhmpPayload : block.hmpBlock.hmpPayload = some cbTx := by
    simp [HMPBlock.hmpPayload, MinedBlock.hmpBlock, hversion, htype, hpayload, hsealVersion,
      CCbTx.atVersion_of_rearm hrearmVersion]
  have hread : ¬ (¬ params.IsHMPActive (parent.height + 1) ∨
      params.getHMPStage (parent.height + 1) = 1) := by
    rintro (hinactive | hfirst)
    · exact hinactive hactive
    · exact hstage hfirst
  have hhivemind := haccepted.hivemind
  rw [checkBlock, if_neg hread, hhmpPayload] at hhivemind
  simp only [checkPayload, bind_eq_ok_iff] at hhivemind
  obtain ⟨_, hidentity, _⟩ := hhivemind
  simp only [checkMinerIdentity, bind_eq_ok_iff] at hidentity
  obtain ⟨-, -, hsignature⟩ := hidentity
  rw [if_pos ⟨hrearm, hrearmVersion⟩, require_eq_ok_iff] at hsignature
  obtain ⟨-, -, script, hscript, hverified⟩ := hsignature
  exact ⟨script, hscript, holder.unforgeable _ _ _ _ hverified⟩

/-! ## Shares -/

variable (script : Script) (outs : List CTxOut)

def paidTo : Int :=
  totalValue (outs.filter (fun txout => txout.scriptPubKey == script))

def paidToOthers : Int :=
  totalValue (outs.filter (fun txout => !(txout.scriptPubKey == script)))

theorem paidTo_add_paidToOthers : paidTo script outs + paidToOthers script outs = totalValue outs :=
  totalValue_filter_add_filter_not _ outs

variable {first second : List CTxOut}

theorem totalValue_perm (h : first.Perm second) :
    totalValue first = totalValue second :=
  (h.map CTxOut.nValue).sum_eq

theorem paidTo_perm (h : first.Perm second) :
    paidTo script first = paidTo script second :=
  totalValue_perm (h.filter _)

theorem paidTo_append (first second : List CTxOut) :
    paidTo script (first ++ second) = paidTo script first + paidTo script second := by
  rw [paidTo, filter_append, totalValue_append]
  rfl

theorem totalValue_of_pays {nBlockHeight : Int} {required taken : List CTxOut}
    (h : Forall₂ (Pays params nBlockHeight) required taken) :
    totalValue required = totalValue taken := by
  induction h with
  | nil => rfl
  | cons hpays _ ih => rw [totalValue_cons, totalValue_cons, hpays.1, ih]

theorem paidTo_nonneg {outs : List CTxOut} (hnonneg : ∀ txout ∈ outs, 0 ≤ txout.nValue) :
    0 ≤ paidTo script outs := by
  refine sum_nonneg ?_
  intro value hvalue
  obtain ⟨txout, htxout, rfl⟩ := mem_map.mp hvalue
  exact hnonneg txout (mem_filter.mp htxout).1

theorem paidToOthers_cons (txout : CTxOut) :
    paidToOthers script (txout :: outs) =
      (if txout.scriptPubKey = script then 0 else txout.nValue) + paidToOthers script outs := by
  by_cases hscript : txout.scriptPubKey = script
  · simp [paidToOthers, hscript]
  · simp [paidToOthers, hscript]

/-- Only outputs without a value go to other scripts, or they are paid something. -/
theorem paidToOthers_spec {outs : List CTxOut} (hnonneg : ∀ txout ∈ outs, 0 ≤ txout.nValue) :
    0 ≤ paidToOthers script outs ∧ (paidToOthers script outs = 0 ↔
      ∀ txout ∈ outs, txout.scriptPubKey = script ∨ txout.nValue = 0) := by
  induction outs with
  | nil => exact ⟨le_rfl, fun _ => by simp, fun _ => rfl⟩
  | cons txout rest ih =>
    rw [forall_mem_cons] at hnonneg ⊢
    obtain ⟨hrest, hzero⟩ := ih hnonneg.2
    rw [paidToOthers_cons, ← hzero]
    by_cases hscript : txout.scriptPubKey = script
    · rw [if_pos hscript, zero_add]
      exact ⟨hrest, fun hnone => ⟨Or.inl hscript, hnone⟩, And.right⟩
    · rw [if_neg hscript, or_iff_right hscript]
      omega

variable {coinbase : CTransaction}

/-- A reading of the outputs: some stand for the required ones, the others are free. -/
structure Splits (params : PaymentParams) (nBlockHeight : Int) (required outs taken free :
    List CTxOut) : Prop where
  pays : Forall₂ (Pays params nBlockHeight) required taken
  perm : outs.Perm (taken ++ free)

theorem Splits.totalValue {nBlockHeight : Int} {required outs taken free : List CTxOut}
    (hsplits : Splits params nBlockHeight required outs taken free) :
    totalValue outs = totalValue required + totalValue free := by
  rw [totalValue_perm hsplits.perm, totalValue_append, totalValue_of_pays hsplits.pays]

theorem splits_of_valid (hdevnet : ¬ (params.devnet = true ∧ state.nBlockHeight = 1))
    (hvalid : isTransactionValid params state coinbase blockSubsidy feeReward = some true) :
    ∃ required taken free, getBlockTxOuts params state blockSubsidy feeReward = some required ∧
      Splits params state.nBlockHeight required coinbase.vout taken free := by
  rw [isTransactionValid, if_neg hdevnet] at hvalid
  obtain ⟨required, hrequired, hsome⟩ := Option.map_eq_some_iff.mp hvalid
  obtain ⟨free, hfree⟩ := Option.isSome_iff_exists.mp hsome
  obtain ⟨taken, hpays, hperm⟩ := (takes_takePayment params state.nBlockHeight).foldlM hfree
  exact ⟨required, taken, free, hrequired, hpays, hperm⟩

/-- The script gets the share of the miner: the reward without the required outputs. -/
def PaysShare (params : PaymentParams) (state : PaymentState) (coinbase : CTransaction)
    (blockSubsidy feeReward : Int) (script : Script) : Prop :=
  ∃ required, getBlockTxOuts params state blockSubsidy feeReward = some required ∧
    blockSubsidy + feeReward - totalValue required ≤ paidTo script coinbase.vout

/-- The coinbase can be read as the required outputs and free ones so that it claims the whole
reward and every free output with a value pays the script.  When a required output pays the script
itself, what goes elsewhere may be made up for by that output. -/
def KeepsShare (params : PaymentParams) (state : PaymentState) (coinbase : CTransaction)
    (blockSubsidy feeReward : Int) (script : Script) : Prop :=
  ∃ required taken free, getBlockTxOuts params state blockSubsidy feeReward = some required ∧
    Splits params state.nBlockHeight required coinbase.vout taken free ∧
    (totalValue coinbase.vout = blockSubsidy + feeReward ∧
        (∀ txout ∈ free, txout.scriptPubKey = script ∨ txout.nValue = 0) ∨
      (∃ txout ∈ taken, txout.scriptPubKey = script) ∧
        blockSubsidy + feeReward - totalValue coinbase.vout + paidToOthers script free ≤
          paidTo script taken)

instance (params : PaymentParams) (state : PaymentState) (coinbase : CTransaction)
    (blockSubsidy feeReward : Int) (script : Script) :
    Decidable (PaysShare params state coinbase blockSubsidy feeReward script) :=
  inferInstanceAs (Decidable (∃ _, _ = some _ ∧ _))

theorem paysShare_iff_of_splits {required taken free : List CTxOut}
    (hrequired : getBlockTxOuts params state blockSubsidy feeReward = some required)
    (hsplits : Splits params state.nBlockHeight required coinbase.vout taken free)
    (script : Script) :
    PaysShare params state coinbase blockSubsidy feeReward script ↔
      blockSubsidy + feeReward - totalValue coinbase.vout + paidToOthers script free ≤
        paidTo script taken := by
  have hpaid := paidTo_perm script hsplits.perm
  rw [paidTo_append] at hpaid
  have hvalue := hsplits.totalValue
  have hfree := paidTo_add_paidToOthers script free
  simp only [PaysShare, hrequired, Option.some.injEq, exists_eq_left', hpaid, hvalue]
  omega

/-- For a coinbase within its limit and with the required outputs, the script gets the share of the
miner exactly if the other outputs leave it. -/
theorem paysShare_iff_keepsShare (hdevnet : ¬ (params.devnet = true ∧ state.nBlockHeight = 1))
    {nBlockHeight : Int}
    (hlimit : isBlockValueValid coinbase nBlockHeight (blockSubsidy + feeReward) = some (.ok ()))
    (hvalid : isTransactionValid params state coinbase blockSubsidy feeReward = some true)
    (script : Script) :
    PaysShare params state coinbase blockSubsidy feeReward script ↔
      KeepsShare params state coinbase blockSubsidy feeReward script := by
  obtain ⟨actual, hactual, hwithin⟩ := Option.map_eq_some_iff.mp hlimit
  obtain ⟨rfl, hnonneg⟩ := CTransaction.getValueOut_eq_some hactual
  rw [require_eq_ok_iff] at hwithin
  constructor
  · intro hpays
    obtain ⟨required, taken, free, hrequired, hsplits⟩ := splits_of_valid hdevnet hvalid
    refine ⟨required, taken, free, hrequired, hsplits, ?_⟩
    rw [paysShare_iff_of_splits hrequired hsplits] at hpays
    by_cases hown : ∃ txout ∈ taken, txout.scriptPubKey = script
    · exact Or.inr ⟨hown, hpays⟩
    · have hforeign : taken.filter (fun txout => txout.scriptPubKey == script) = [] := by
        refine filter_eq_nil_iff.mpr (fun txout htxout hscript => hown ⟨txout, htxout, ?_⟩)
        exact eq_of_beq hscript
      have htaken : paidTo script taken = 0 := by rw [paidTo, hforeign, totalValue_nil]
      obtain ⟨hothers, hzero⟩ := @paidToOthers_spec script free (fun txout htxout =>
        hnonneg txout (hsplits.perm.mem_iff.mpr (mem_append_right taken htxout)))
      exact Or.inl ⟨by omega, hzero.mp (by omega)⟩
  · rintro ⟨required, taken, free, hrequired, hsplits, hwhole | ⟨-, hkept⟩⟩
    · rw [paysShare_iff_of_splits hrequired hsplits]
      obtain ⟨-, hzero⟩ := @paidToOthers_spec script free (fun txout htxout =>
        hnonneg txout (hsplits.perm.mem_iff.mpr (mem_append_right taken htxout)))
      have htaken : 0 ≤ paidTo script taken := paidTo_nonneg script (fun txout htxout =>
        hnonneg txout (hsplits.perm.mem_iff.mpr (mem_append_left free htxout)))
      have hothers := hzero.mpr hwhole.2
      omega
    · exact (paysShare_iff_of_splits hrequired hsplits script).mpr hkept

/-- A re-armed block whose payload is read pays a script that the holder of its identity has
signed, but no rule fixes how much.  The script gets the share of the miner exactly if the other
outputs of the coinbase leave it. -/
theorem copied_identity_pays_owner_iff (params : PaymentParams) (oracles : Oracles)
    (state : PaymentState) (parent : Chain) (block : MinedBlock) (blockSubsidy feeReward : Int)
    (haccepted : CoinbaseAccepted params oracles state parent block blockSubsidy feeReward)
    (hrearm : params.IsHMPRearmActive (parent.height + 1))
    (hdevnet : ¬ (params.devnet = true ∧ state.nBlockHeight = 1))
    (cbTx : CCbTx) (hpayload : block.payload = some cbTx)
    (holder : IdentityHolder oracles cbTx.minerIdentity) :
    (∃ script, SignedPayout holder parent block script ∧ holder.Owns script ∧
        PaysShare params state block.coinbase blockSubsidy feeReward script) ↔
      ∃ script ∈ block.hmpBlock.payoutScript,
        (ReadsPayload params.toParams parent block ∨
          holder.Signed (parent.height + 1) (parent.tipHash.getD 0) script) ∧
        KeepsShare params state block.coinbase blockSubsidy feeReward script := by
  have hshare := paysShare_iff_keepsShare hdevnet haccepted.value haccepted.payee
  constructor
  · rintro ⟨script, ⟨hscript, hsigned⟩, -, hpays⟩
    exact ⟨script, hscript, Or.inr hsigned, (hshare script).mp hpays⟩
  · rintro ⟨script, hscript, hreads | hsigned, hkeeps⟩
    · -- The signature that was checked is one of the holder's, and over this script.
      obtain ⟨signed, hfirst, hsigned⟩ := haccepted.signed hrearm hpayload holder hreads
      obtain rfl := Option.mem_unique hscript hfirst
      exact ⟨script, ⟨hscript, hsigned⟩, holder.owns_of_signed _ _ _ hsigned,
        (hshare script).mpr hkeeps⟩
    · exact ⟨script, ⟨hscript, hsigned⟩, holder.owns_of_signed _ _ _ hsigned,
        (hshare script).mpr hkeeps⟩

namespace IdentitySample

def rearmedParams : PaymentParams := { rotatedParams with nHMPRearmHeight := 1 }

def firstState : PaymentState := { emptyState with nBlockHeight := 1 }

def genesis : Chain := [⟨5, 0, .other, none⟩]

def oneScript : Oracles :=
  { Sample.trusting with verifyIdentity := fun key _ _ _ script => key == 7 && script == [9] }

def honestHolder : IdentityHolder oneScript 7 where
  Signed := fun _ _ script => script = [9]
  Owns := fun script => script = [9]
  owns_of_signed := fun _ _ _ hsigned => hsigned
  unforgeable := by
    intro sig height prevHash script hverified
    simpa [oneScript] using hverified

def identityBlock (miner : List CTxOut) : MinedBlock where
  hash := 6
  algo := 0
  coinbase := {
    hash := 1, nVersion := 3, nType := .coinbase, vin := []
    vout := miner ++ [⟨400000000, [1]⟩, ⟨150000000, [2]⟩, ⟨50000000, [3]⟩] }
  payload := some { nVersion := 6, minerIdentity := 7, minerIdentitySig := 3 }

def ownBlock : MinedBlock := identityBlock [⟨400000000, [9]⟩]

/-- The identity and the signature of the template with an empty output to the signed script. -/
def copiedBlock : MinedBlock := identityBlock [⟨0, [9]⟩, ⟨400000000, [8]⟩]

theorem accepted_identityBlock {miner : List CTxOut}
    (hvalue : isBlockValueValid (identityBlock miner).coinbase 1 1000000000 = some (.ok ()))
    (hpayee : isTransactionValid rearmedParams firstState (identityBlock miner).coinbase
      1000000000 0 = some true)
    (hhivemind : checkBlock rearmedParams.toParams oneScript (identityBlock miner).hmpBlock
      genesis = .ok ()) :
    CoinbaseAccepted rearmedParams oneScript firstState genesis (identityBlock miner)
      1000000000 0 where
  height := rfl
  payload := fun _ => ⟨_, rfl, by decide +kernel⟩
  value := hvalue
  payee := hpayee
  hivemind := hhivemind

theorem accepted_ownBlock : CoinbaseAccepted rearmedParams oneScript firstState genesis ownBlock
    1000000000 0 :=
  accepted_identityBlock (by decide +kernel) (by decide +kernel) (by decide +kernel)

theorem accepted_copiedBlock : CoinbaseAccepted rearmedParams oneScript firstState genesis
    copiedBlock 1000000000 0 :=
  accepted_identityBlock (by decide +kernel) (by decide +kernel) (by decide +kernel)

end IdentitySample

open IdentitySample in
theorem copied_identity_pays_owner_iff_own :
    ∃ script, SignedPayout honestHolder genesis ownBlock script ∧ honestHolder.Owns script ∧
      PaysShare rearmedParams firstState ownBlock.coinbase 1000000000 0 script := by
  have hkeeps : KeepsShare rearmedParams firstState ownBlock.coinbase 1000000000 0 [9] := by
    refine ⟨_, [⟨400000000, [1]⟩, ⟨150000000, [2]⟩, ⟨50000000, [3]⟩], [⟨400000000, [9]⟩], rfl,
      ⟨.cons ⟨rfl, Or.inl rfl⟩ (.cons ⟨rfl, Or.inl rfl⟩ (.cons ⟨rfl, Or.inl rfl⟩ .nil)), ?_⟩,
      Or.inl ⟨rfl, by decide⟩⟩
    exact perm_append_comm
  exact (copied_identity_pays_owner_iff rearmedParams oneScript firstState genesis ownBlock
    1000000000 0 accepted_ownBlock (by decide) (by decide) _ rfl honestHolder).mpr
    ⟨[9], rfl, Or.inl ⟨by decide, rfl, rfl⟩, hkeeps⟩

open IdentitySample in
/-- A block with a copied identity is accepted, and its owner gets nothing. -/
theorem copied_identity_diverts_share :
    CoinbaseAccepted rearmedParams oneScript firstState genesis copiedBlock 1000000000 0 ∧
      ReadsPayload rearmedParams.toParams genesis copiedBlock ∧
      SignedPayout honestHolder genesis copiedBlock [9] ∧
      paidTo [9] copiedBlock.coinbase.vout = 0 ∧
      ¬ ∃ script, SignedPayout honestHolder genesis copiedBlock script ∧
        PaysShare rearmedParams firstState copiedBlock.coinbase 1000000000 0 script := by
  refine ⟨accepted_copiedBlock, ⟨by decide, rfl, rfl⟩, ⟨rfl, rfl⟩, by decide, ?_⟩
  rintro ⟨script, ⟨-, hsigned⟩, hpays⟩
  cases (show script = [9] from hsigned)
  revert hpays
  decide +kernel

end Kerrigan.Masternode
