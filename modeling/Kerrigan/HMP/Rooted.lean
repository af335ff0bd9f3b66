import Kerrigan.HMP.Node

/-!
# Where privilege comes from

A key has a record only if it mined a block, or signed the seal of a block whose raw
signers are credited.  The filter of the earlier heights consults the tracker that it
feeds, so the property is carried through the connection of every block.
-/

namespace Kerrigan.HMP

open Primitives Consensus Lib CHMPPrivilegeTracker Chain List HMPState Sample

/-! ## Roots of privilege -/

variable (params : Params) (chain : Chain) (bound : Int) (key : CBLSPublicKey)

def Mined (algo : Nat) : Prop :=
  ∃ block parent, (block :: parent) <:+ chain ∧ height parent + 1 ≤ bound ∧
    block.algo = algo ∧ ∃ cbTx, block.hmpPayload = some cbTx ∧ cbTx.minerIdentity = key

/-- The key is a signer declared on the algorithm in a block of the chain up to the height,
and signers of blocks at that block's height are credited as they are. -/
def SignedRaw (algo : Nat) : Prop :=
  ∃ block parent, (block :: parent) <:+ chain ∧ height parent + 1 ≤ bound ∧
    params.IsDeterministicSealActive (height parent + 1) ∧
    ∃ cbTx, block.hmpPayload = some cbTx ∧
      (key, algo) ∈ declaredAlgos block.algo cbTx.vSealSigners cbTx.vSealSignerAlgos

/-- A reason for a record of the key. -/
def Rooted (algo : Nat) : Prop :=
  Mined chain bound key algo ∨ SignedRaw params chain bound key algo

variable {params chain bound key} {longer : Chain} {more : Int} {algo : Nat}

theorem Mined.mono (hmined : Mined chain bound key algo) (hchain : chain <:+ longer)
    (hbound : bound ≤ more) : Mined longer more key algo := by
  obtain ⟨block, parent, hsuffix, hheight, hrest⟩ := hmined
  exact ⟨block, parent, hsuffix.trans hchain, hheight.trans hbound, hrest⟩

theorem Rooted.mono (hrooted : Rooted params chain bound key algo) (hchain : chain <:+ longer)
    (hbound : bound ≤ more) : Rooted params longer more key algo := by
  rcases hrooted with hmined | ⟨block, parent, hsuffix, hheight, hrest⟩
  · exact Or.inl (hmined.mono hchain hbound)
  · exact Or.inr ⟨block, parent, hsuffix.trans hchain, hheight.trans hbound, hrest⟩

theorem suffix_of_height_le {tip block : HMPBlock} {parent : Chain}
    (hsuffix : (block :: parent) <:+ tip :: chain)
    (hheight : height parent + 1 ≤ height chain) : (block :: parent) <:+ chain := by
  rcases suffix_cons_iff.mp hsuffix with hwhole | hbelow
  · cases hwhole
    omega
  · exact hbelow

theorem Mined.below {tip : HMPBlock} (hmined : Mined (tip :: chain) bound key algo)
    (hbound : bound ≤ height chain) : Mined chain bound key algo := by
  obtain ⟨block, parent, hsuffix, hheight, hrest⟩ := hmined
  exact ⟨block, parent, suffix_of_height_le hsuffix (hheight.trans hbound), hheight, hrest⟩

theorem Rooted.below {tip : HMPBlock} (hrooted : Rooted params (tip :: chain) bound key algo)
    (hbound : bound ≤ height chain) : Rooted params chain bound key algo := by
  rcases hrooted with hmined | ⟨block, parent, hsuffix, hheight, hrest⟩
  · exact Or.inl (hmined.below hbound)
  · exact Or.inr
      ⟨block, parent, suffix_of_height_le hsuffix (hheight.trans hbound), hheight, hrest⟩

/-! ## Rooted records -/

variable (params chain bound) in
/-- The record has a reason, and counts a solved block only for a miner. -/
def Justified (algo : Nat) (key : CBLSPublicKey) (rec : CPrivilegeRecord) : Prop :=
  Rooted params chain bound key algo ∧ (0 < rec.blocksSolved → Mined chain bound key algo)

/-- The miner and the credited signers of an entry have reasons up to its height. -/
structure EntryRooted (params : Params) (chain : Chain) (entry : CHMPWindowEntry) : Prop where
  height_le : entry.height ≤ chain.height
  miner : entry.minerPubKey.IsValid →
    Mined chain entry.height entry.minerPubKey entry.algo
  signers : ∀ signer ∈ declaredAlgos entry.algo entry.sealSigners entry.signerAlgos,
    Rooted params chain entry.height signer.1 signer.2

variable {entry : CHMPWindowEntry}

theorem creditEntry_justified {solved : Int → CPrivilegeRecord → CPrivilegeRecord}
    {records : Records} (hall : records.All (Justified params chain bound))
    (hentry : EntryRooted params chain entry) (hbound : entry.height ≤ bound) :
    (creditEntry solved records entry).All (Justified params chain bound) := by
  refine hall.creditEntry ?_ ?_
  · intro hvalid rec _
    have hmined := (hentry.miner hvalid).mono (suffix_refl chain) hbound
    exact ⟨Or.inl hmined, fun _ => hmined⟩
  · intro signer hmem rec hbefore
    refine ⟨(hentry.signers signer hmem).mono (suffix_refl chain) hbound, ?_⟩
    intro hsolved
    rcases hbefore with rfl | hjustified
    · exact absurd hsolved (by simp [participated])
    · exact hjustified.2 hsolved

theorem rebuildFromWindow_justified {window : List CHMPWindowEntry}
    (hwindow : ∀ entry ∈ window, EntryRooted params chain entry) :
    (rebuildFromWindow window).All (Justified params chain chain.height) := by
  refine foldlRecOn _ _ Records.All.empty ?_
  intro records hrecords entry hmem
  exact creditEntry_justified hrecords (hwindow entry hmem) (hwindow entry hmem).height_le

/-! ## Rooted trackers -/

structure TrackerRooted (params : Params) (chain : Chain) (tracker : CHMPPrivilegeTracker) :
    Prop where
  window : ∀ entry ∈ tracker.window, EntryRooted params chain entry
  sorted : tracker.window.Pairwise (fun first second => first.height ≤ second.height)
  records : tracker.records.All (Justified params chain chain.height)

theorem trackerRooted_cleared : TrackerRooted params chain cleared where
  window := by
    intro entry hmem
    cases hmem
  sorted := Pairwise.nil
  records := Records.All.empty

variable {tracker : CHMPPrivilegeTracker}

theorem TrackerRooted.extend {chain longer : Chain} (hrooted : TrackerRooted params chain tracker)
    (hchain : chain <:+ longer) (hheight : chain.height ≤ longer.height) :
    TrackerRooted params longer tracker where
  window := by
    intro entry hmem
    have hentry := hrooted.window entry hmem
    exact
      { height_le := hentry.height_le.trans hheight
        miner := fun hvalid => (hentry.miner hvalid).mono hchain le_rfl
        signers := fun signer hsigner => (hentry.signers signer hsigner).mono hchain le_rfl }
  sorted := hrooted.sorted
  records := by
    intro algo key rec hfound
    obtain ⟨hreason, hsolved⟩ := hrooted.records algo key rec hfound
    exact ⟨hreason.mono hchain hheight, fun hpos => (hsolved hpos).mono hchain hheight⟩

theorem TrackerRooted.blockConnected (hrooted : TrackerRooted params chain tracker)
    (hentry : EntryRooted params chain entry) (hheight : entry.height = chain.height) :
    TrackerRooted params chain (tracker.blockConnected params entry) := by
  have hwindow : ∀ other ∈ pushWindow params.nHMPPrivilegeWindow tracker.window entry,
      EntryRooted params chain other := by
    intro other hmem
    rcases mem_of_mem_pushWindow hmem with hbefore | rfl
    · exact hrooted.window other hbefore
    · exact hentry
  refine ⟨hwindow, ?_, ?_⟩
  · refine pairwise_pushWindow CHMPWindowEntry.height hrooted.sorted ?_
    intro other hmem
    rw [hheight]
    exact (hrooted.window other hmem).height_le
  · simp only [CHMPPrivilegeTracker.blockConnected]
    split
    · exact rebuildFromWindow_justified hwindow
    · exact creditEntry_justified hrooted.records hentry hentry.height_le

theorem TrackerRooted.blockDisconnected {tip : HMPBlock}
    (hrooted : TrackerRooted params (tip :: chain) tracker) :
    TrackerRooted params chain
      (tracker.blockDisconnected (height (tip :: chain))) := by
  have hfront := rdropWhile_prefix
    (fun entry : CHMPWindowEntry => decide (height (tip :: chain) ≤ entry.height))
    tracker.window
  have hwindow : ∀ entry ∈ tracker.window.rdropWhile
      (fun entry => height (tip :: chain) ≤ entry.height),
      EntryRooted params chain entry := by
    intro entry hmem
    have hbelow := lt_of_mem_rdropWhile CHMPWindowEntry.height hrooted.sorted hmem
    rw [height_cons] at hbelow
    have hentry := hrooted.window entry (hfront.subset hmem)
    have hheight : entry.height ≤ height chain := by omega
    exact
      { height_le := hheight
        miner := fun hvalid => (hentry.miner hvalid).below hheight
        signers := fun signer hsigner => (hentry.signers signer hsigner).below hheight }
  exact ⟨hwindow, hrooted.sorted.sublist hfront.sublist, rebuildFromWindow_justified hwindow⟩

variable {oracles : Oracles}

theorem getTier_ne_unknown {pindex : Uint256}
    (htier : tracker.getTier params oracles key algo pindex ≠ .unknown) :
    ∃ rec, (tracker.records algo)[key]? = some rec ∧
      (tracker.getTier params oracles key algo pindex ≠ .new →
        params.getEffectiveMinBlocksSolved tracker.getTipHeight ≤ rec.blocksSolved) := by
  by_cases halgo : algo < numAlgos
  · cases hrecord : (tracker.records algo)[key]? with
    | none =>
      simp only [getTier, if_pos halgo, hrecord] at htier
      exact absurd rfl htier
    | some rec =>
      refine ⟨rec, rfl, ?_⟩
      simp only [getTier, if_pos halgo, hrecord] at htier ⊢
      by_cases hwarm : IsWarm params tracker rec
      · intro hnotNew
        by_contra hfew
        rw [if_neg (not_not.mpr hwarm), if_neg (fun h => hfew h.1)] at hnotNew
        exact hnotNew rfl
      · rw [if_pos hwarm] at htier
        exact absurd rfl htier
  · rw [getTier, if_neg halgo] at htier
    exact absurd rfl htier

theorem TrackerRooted.tier (hrooted : TrackerRooted params chain tracker) {pindex : Uint256}
    (htier : tracker.getTier params oracles key algo pindex ≠ .unknown) :
    Rooted params chain chain.height key algo ∧
      (tracker.getTier params oracles key algo pindex ≠ .new →
        0 < params.nHMPMinBlocksSolved → Mined chain chain.height key algo) := by
  obtain ⟨rec, hrecord, hworked⟩ := getTier_ne_unknown htier
  obtain ⟨hreason, hsolved⟩ := hrooted.records algo key rec hrecord
  refine ⟨hreason, ?_⟩
  intro hnotNew hmin
  exact hsolved (Nat.lt_of_lt_of_le (Params.getEffectiveMinBlocksSolved_pos hmin _)
    (hworked hnotNew))

/-! ## Entries of connected blocks -/

theorem filterPrivileged_tier {tierOf : CBLSPublicKey → Nat → HMPPrivilegeTier}
    {selected : HMPPrivilegeTier → Option CBLSSignature → Bool} {default : Nat}
    {signers : List CBLSPublicKey} {algos : List Nat} {proofs : List CBLSSignature}
    {signer : CBLSPublicKey × Nat}
    (hmem : signer ∈ declaredAlgos default (filterPrivileged tierOf selected signers algos proofs).1
      (filterPrivileged tierOf selected signers algos proofs).2.1) :
    tierOf signer.1 signer.2 ≠ .unknown := by
  induction signers generalizing algos proofs with
  | nil => simp [filterPrivileged, declaredAlgos] at hmem
  | cons key signers ih =>
    cases algos with
    | nil => simp [filterPrivileged, declaredAlgos] at hmem
    | cons algo algos =>
      simp only [filterPrivileged] at hmem
      split at hmem
      · rename_i hkept
        rcases mem_cons.mp hmem with rfl | hrest
        · exact hkept.1
        · exact ih hrest
      · exact ih hmem

variable {registry : CHMPCommitmentRegistry}

theorem filterSealSigners_tier {height : Int} {pindex : Uint256} {vectors : SealVectors}
    {default : Nat} {signer : CBLSPublicKey × Nat} (hmem : signer ∈ declaredAlgos default
      (filterSealSigners params oracles registry tracker height pindex vectors).signers
      (filterSealSigners params oracles registry tracker height pindex vectors).algos) :
    tracker.getTier params oracles signer.1 signer.2 pindex ≠ .unknown := by
  simp only [filterSealSigners, privilegePass] at hmem
  split at hmem
  · exact filterPrivileged_tier hmem
  · rename_i hnone
    rw [not_not.mp hnone] at hmem
    cases hmem

variable {state : HMPState} {block : HMPBlock} {parent : Chain}

theorem minerEntry_rooted {miner : CBLSPublicKey}
    (hminer : miner.IsValid → ∃ cbTx, block.hmpPayload = some cbTx ∧ cbTx.minerIdentity = miner) :
    EntryRooted params (block :: parent)
      { height := parent.height + 1, algo := block.algo, minerPubKey := miner } where
  height_le := by simp
  miner := fun hvalid => ⟨block, parent, suffix_refl _, le_rfl, rfl, hminer hvalid⟩
  signers := by
    intro signer hmem
    cases hmem

theorem sealEntry_rooted {cbTx : CCbTx} (hpayload : block.hmpPayload = some cbTx)
    (hrooted : TrackerRooted params parent tracker) :
    EntryRooted params (block :: parent) (sealEntry params block parent cbTx
      (countedSigners params oracles registry tracker block (parent.height + 1) cbTx)) where
  height_le := by simp [sealEntry]
  miner := fun _ => ⟨block, parent, suffix_refl _, le_rfl, rfl, cbTx, hpayload, rfl⟩
  signers := by
    intro signer hmem
    by_cases hactive : params.IsDeterministicSealActive (parent.height + 1)
    · simp only [sealEntry, if_pos hactive] at hmem
      exact Or.inr ⟨block, parent, suffix_refl _, le_rfl, hactive, cbTx, hpayload, hmem⟩
    · simp only [sealEntry, if_neg hactive, countedSigners] at hmem
      split at hmem
      · have htier := filterSealSigners_tier hmem
        have hheight : parent.height ≤ parent.height + 1 := by omega
        exact (hrooted.tier htier).1.mono (suffix_cons block parent) hheight
      · cases hmem

theorem blockVerdict_rooted (hrooted : TrackerRooted params parent tracker)
    (hentry : (blockVerdict params oracles registry tracker block parent).privilege = some entry) :
    EntryRooted params (block :: parent) entry ∧ entry.height = parent.height + 1 := by
  unfold blockVerdict at hentry
  split at hentry
  · cases hentry
  · split at hentry
    · cases hentry
    · split at hentry
      · cases hentry
        exact ⟨minerEntry_rooted (fun hvalid => absurd rfl hvalid), rfl⟩
      · cases hentry
      · rename_i cbTx _ hpayload
        unfold payloadVerdict at hentry
        split at hentry
        · cases hentry
          exact ⟨minerEntry_rooted (fun _ => ⟨cbTx, hpayload, rfl⟩), rfl⟩
        · cases hentry
          exact ⟨sealEntry_rooted hpayload hrooted, rfl⟩

/-! ## Rooted histories -/

theorem record_rooted (hrooted : TrackerRooted params parent state.tracker) (height : Int)
    (commitments : Option (CBLSPublicKey × List CBLSPublicKey)) {privilege : Option CHMPWindowEntry}
    (hprivilege : ∀ entry, privilege = some entry →
      EntryRooted params (block :: parent) entry ∧ entry.height = parent.height + 1) :
    TrackerRooted params (block :: parent)
      (state.record params height commitments privilege).tracker := by
  have hextended : TrackerRooted params (block :: parent) state.tracker :=
    hrooted.extend (suffix_cons block parent) (by rw [height_cons]; omega)
  cases privilege with
  | none => exact hextended
  | some entry =>
    obtain ⟨hentry, hheight⟩ := hprivilege entry rfl
    exact hextended.blockConnected hentry (by rw [hheight, height_cons])

theorem replayBlock_rooted (hrooted : TrackerRooted params parent state.tracker) :
    TrackerRooted params (block :: parent)
      (state.replayBlock params oracles block parent).tracker := by
  have hextended : TrackerRooted params (block :: parent) state.tracker :=
    hrooted.extend (suffix_cons block parent) (by rw [height_cons]; omega)
  unfold replayBlock
  split
  · exact hextended
  · split
    · refine record_rooted hrooted _ _ ?_
      intro entry hentry
      cases hentry
      exact ⟨minerEntry_rooted (fun hvalid => absurd rfl hvalid), rfl⟩
    · exact hextended
    · rename_i cbTx _ hpayload
      refine @record_rooted params (state.record params (parent.height + 1) _ none) block parent
        hrooted _ _ _ ?_
      intro entry hentry
      split at hentry
      · cases hentry
        exact ⟨minerEntry_rooted (fun _ => ⟨cbTx, hpayload, rfl⟩), rfl⟩
      · cases hentry
        exact ⟨sealEntry_rooted hpayload hrooted, rfl⟩

theorem replay_rooted (hcleared : state.tracker = cleared) (count : Nat) (chain : Chain) :
    TrackerRooted params chain (replay params oracles count chain state).tracker := by
  induction count generalizing chain with
  | zero =>
    rw [replay, hcleared]
    exact trackerRooted_cleared
  | succ count ih =>
    cases chain with
    | nil =>
      rw [replay, hcleared]
      exact trackerRooted_cleared
    | cons block parent => exact replayBlock_rooted (ih parent)

theorem rebuild_rooted (hrooted : TrackerRooted params chain state.tracker) :
    TrackerRooted params chain (state.rebuild params oracles chain).tracker := by
  unfold rebuild
  split
  · exact replay_rooted rfl _ chain
  · exact hrooted

theorem prepare_rooted (hrooted : TrackerRooted params parent state.tracker) :
    TrackerRooted params parent (state.prepare params oracles parent).tracker := by
  have hcurrent : TrackerRooted params parent (state.clearAtActivation params parent).tracker := by
    unfold clearAtActivation
    split
    · exact hrooted
    · exact trackerRooted_cleared
  unfold prepare
  split
  · split
    · exact rebuild_rooted hcurrent
    · exact hcurrent
  · exact hrooted

theorem hmpStep_rooted {node next : HMPNode} (hstep : HMPStep params oracles node next)
    (hrooted : TrackerRooted params node.chain node.state.tracker) :
    TrackerRooted params next.chain next.state.tracker := by
  have hprepared : TrackerRooted params node.chain
      (node.state.prepare params oracles node.chain).tracker := prepare_rooted hrooted
  cases hstep with
  | unchanged => exact hrooted
  | rejected => exact hprepared
  | connected block hcoinbase hblock =>
    exact record_rooted hprepared (node.chain.height + 1) none
      (fun entry hentry => blockVerdict_rooted hprepared hentry)
  | disconnected tip parent older hchain =>
    rw [hchain] at hrooted ⊢
    exact hrooted.blockDisconnected
  | rebuilt => exact rebuild_rooted hrooted
  | restarted => exact rebuild_rooted trackerRooted_cleared

/-- In every state that a node reaches, a key with a tier on an algorithm mined a block of
that algorithm, or signed as declared on it in a block whose raw signers are credited; and a
key above the lowest tier mined a block of that algorithm. -/
theorem privilege_rooted (params : Params) (oracles : Oracles) (genesis : HMPBlock)
    (actions : List HMPAction) :
    Always (hmpStep params oracles)
      (fun node => ∀ key algo pindex,
        node.state.tracker.getTier params oracles key algo pindex ≠ .unknown →
          (Mined node.chain node.chain.height key algo ∨
            SignedRaw params node.chain node.chain.height key algo) ∧
          (node.state.tracker.getTier params oracles key algo pindex ≠ .new →
            0 < params.nHMPMinBlocksSolved → Mined node.chain node.chain.height key algo))
      (.start genesis) actions := by
  have hrooted : Always (hmpStep params oracles)
      (fun node => TrackerRooted params node.chain node.state.tracker) (.start genesis) actions :=
    always_of_hmpStep (fun _ _ => hmpStep_rooted) trackerRooted_cleared actions
  intro visited hvisited key algo pindex htier
  exact (hrooted visited hvisited).tier htier

namespace Sample

def rawParams : Params := { nHMPDeterministicSealHeight := 1 }

def plainBlock (hash : Uint256) : HMPBlock where
  hash := hash
  algo := 0
  coinbase := .special (some { nVersion := 4, minerIdentity := 1 })

def sealingBlock : HMPBlock where
  hash := 103
  algo := 0
  coinbase := .special (some
    { nVersion := 4, minerIdentity := 1, sealForAncestor := 1, sealBlockHash := 101
      vSealSigners := [2], vSealSignerAlgos := [0] })

def signerHistory : List HMPAction :=
  ([plainBlock 101, plainBlock 102, sealingBlock] ++
    (range 10).map (fun index => plainBlock (104 + index))).map (fun block =>
      .connect block true)

def signerNode : HMPNode :=
  run (hmpStep rawParams trusting) (.start (plainBlock 100)) signerHistory

end Sample

/-- A key that only signed a seal is privileged after the warmup. -/
theorem signer_privileged :
    signerNode.chain.length = 14 ∧
      signerNode.state.tracker.getTier rawParams trusting 2 0 0 = .new ∧
      ∀ block ∈ signerNode.chain, ∀ cbTx ∈ block.hmpPayload, cbTx.minerIdentity ≠ 2 := by
  decide +kernel

end Kerrigan.HMP
