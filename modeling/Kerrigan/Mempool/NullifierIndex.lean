import Kerrigan.Mempool.Pool

/-!
# The nullifier indexes of the pool

What every operation of the pool does to its transactions and to the two indexes of nullifiers.
Removals keep the indexes exact, whatever they remove; an addition does if no other entry reveals
a nullifier of the new transaction.
-/

namespace Kerrigan.Mempool

open Primitives Sapling Lib List

namespace CTxMemPool

/-! ## Links -/

/-- The pools hold the same transactions and the same indexes of nullifiers. -/
structure Relinked (before after : CTxMemPool) : Prop where
  get : ∀ hash, after.get hash = before.get hash
  nullifiers : after.saplingNullifiers = before.saplingNullifiers
  txids : after.saplingNullifierTxids = before.saplingNullifierTxids

open Relinked

theorem Relinked.refl (pool : CTxMemPool) : Relinked pool pool := ⟨fun _ => rfl, rfl, rfl⟩

theorem Relinked.trans {first second third : CTxMemPool} (hfirst : Relinked first second)
    (hsecond : Relinked second third) : Relinked first third :=
  ⟨fun hash => (hsecond.get hash).trans (hfirst.get hash),
    hsecond.nullifiers.trans hfirst.nullifiers, hsecond.txids.trans hfirst.txids⟩

theorem relinked_foldl {α : Type} {step : CTxMemPool → α → CTxMemPool}
    (hstep : ∀ pool item, Relinked pool (step pool item)) (items : List α) (pool : CTxMemPool) :
    Relinked pool (items.foldl step pool) := by
  induction items generalizing pool with
  | nil => exact refl pool
  | cons item rest ih => exact (hstep pool item).trans (ih (step pool item))

theorem relinked_updateChild (pool : CTxMemPool) (parent child : Uint256) (add : Bool) :
    Relinked pool (pool.updateChild parent child add) := by
  unfold updateChild
  split
  · exact refl pool
  · rename_i entry hentry
    refine ⟨?_, rfl, rfl⟩
    intro hash
    unfold get
    rw [getElem?_insert_eq]
    split
    · rename_i hparent
      rw [← hparent, hentry]
      rfl
    · rfl

theorem relinked_updateParents (pool : CTxMemPool) (tx : CTransaction) (hash : Uint256)
    (add : Bool) : Relinked pool (pool.updateParents tx hash add) := by
  refine relinked_foldl ?_ tx.vin pool
  intro linked txin
  exact relinked_updateChild linked txin.prevout.hash hash add

theorem relinked_unlink (pool : CTxMemPool) (hash : Uint256) :
    Relinked pool (pool.unlink hash) := by
  unfold unlink
  cases pool.get hash with
  | none => exact refl pool
  | some tx => exact relinked_updateParents pool tx hash false

theorem relinked_linkChildren (setAlreadyIncluded : List Uint256) (pool : CTxMemPool)
    (hash : Uint256) : Relinked pool (linkChildren setAlreadyIncluded pool hash) := by
  unfold linkChildren
  split
  · exact refl pool
  · refine relinked_foldl ?_ _ pool
    intro linked child
    split
    · exact refl linked
    · exact relinked_updateChild linked hash child true

/-! ## The index of nullifiers -/

/-- Every entry is stored under its identifier, and the two indexes hold the nullifiers of the
entries and nothing else, each with its transaction. -/
structure Indexed (pool : CTxMemPool) : Prop where
  keyed : ∀ hash tx, pool.get hash = some tx → tx.hash = hash
  owners : Owns pool.saplingNullifierTxids pool.get nullifiersRevealed
  nullifiers : ∀ nf : Uint256, nf ∈ pool.saplingNullifiers ↔
    (pool.saplingNullifierTxids[nf]?).isSome

theorem indexed_empty : Indexed {} := by
  have hget : CTxMemPool.get {} = fun _ => none := by
    funext hash
    simp [get]
  refine ⟨?_, ?_, ?_⟩
  · intro hash tx hfound
    cases hfound
  · exact owns_empty nullifiersRevealed
  · intro nf
    simp

variable {before after : CTxMemPool}

theorem Indexed.of_relinked (hbefore : before.Indexed) (hsame : Relinked before after) :
    after.Indexed := by
  have hget : after.get = before.get := funext hsame.get
  refine ⟨?_, ?_, ?_⟩
  · rw [hget]
    exact hbefore.keyed
  · rw [hsame.txids, hget]
    exact hbefore.owners
  · rw [hsame.txids, hsame.nullifiers]
    exact hbefore.nullifiers

theorem get_removeUnchecked (pool : CTxMemPool) (hash other : Uint256) :
    (pool.removeUnchecked hash).get other = if other = hash then none else pool.get other := by
  unfold removeUnchecked
  split
  · rename_i hnone
    split
    · rename_i hother
      rw [hother, hnone]
    · rfl
  · unfold get
    rw [getElem?_erase_eq]
    by_cases hother : other = hash
    · rw [if_pos hother, if_pos hother.symm, Option.map_none]
    · rw [if_neg hother, if_neg (Ne.symm hother)]

variable {pool : CTxMemPool}

theorem Indexed.removeUnchecked (hpool : pool.Indexed) (hash : Uint256) :
    (pool.removeUnchecked hash).Indexed := by
  have hget := get_removeUnchecked pool hash
  refine ⟨?_, ?_, ?_⟩
  · intro other tx hfound
    rw [hget] at hfound
    split at hfound
    · cases hfound
    · exact hpool.keyed other tx hfound
  · cases hentry : pool.get hash with
    | none =>
      have hsame : pool.removeUnchecked hash = pool := by
        unfold CTxMemPool.removeUnchecked
        rw [hentry]
      rw [hsame]
      exact hpool.owners
    | some tx =>
      have htxids : (pool.removeUnchecked hash).saplingNullifierTxids =
          (nullifiersRevealed tx).foldl (fun txids nf => txids.erase nf)
            pool.saplingNullifierTxids := by
        unfold CTxMemPool.removeUnchecked
        rw [hentry]
        rfl
      rw [htxids]
      refine hpool.owners.remove hentry ?_ ?_
      · rw [hget, if_pos rfl]
      · intro other hother
        rw [hget, if_neg hother]
  · intro nf
    unfold CTxMemPool.removeUnchecked
    split
    · exact hpool.nullifiers nf
    · simp only [removeSaplingNullifiers]
      rw [mem_foldl_erase, getElem?_foldl_erase, hpool.nullifiers]
      by_cases hnf : nf ∈ nullifiersRevealed ‹CTransaction›
      · simp [hnf]
      · simp [hnf]

/-! ## Removals -/

/-- The indexes stay exact and nothing is added. -/
structure Shrinks (before after : CTxMemPool) : Prop where
  indexed : before.Indexed → after.Indexed
  get : ∀ hash tx, after.get hash = some tx → before.get hash = some tx

open Shrinks

theorem Shrinks.refl (pool : CTxMemPool) : Shrinks pool pool := ⟨id, fun _ _ => id⟩

theorem Shrinks.trans {first second third : CTxMemPool} (hfirst : Shrinks first second)
    (hsecond : Shrinks second third) : Shrinks first third :=
  ⟨fun hindexed => hsecond.indexed (hfirst.indexed hindexed),
    fun hash tx hfound => hfirst.get hash tx (hsecond.get hash tx hfound)⟩

variable {hash : Uint256}

theorem Shrinks.get_eq_none (hshrinks : Shrinks before after) (hnone : before.get hash = none) :
    after.get hash = none := by
  cases hafter : after.get hash with
  | none => rfl
  | some tx =>
    rw [hshrinks.get hash tx hafter] at hnone
    cases hnone

theorem shrinks_foldl {α : Type} {step : CTxMemPool → α → CTxMemPool}
    (hstep : ∀ pool item, Shrinks pool (step pool item)) (items : List α) (pool : CTxMemPool) :
    Shrinks pool (items.foldl step pool) := by
  induction items generalizing pool with
  | nil => exact refl pool
  | cons item rest ih => exact (hstep pool item).trans (ih (step pool item))

theorem Relinked.shrinks (hsame : Relinked before after) :
    Shrinks before after := by
  refine ⟨fun hbefore => hbefore.of_relinked hsame, ?_⟩
  intro hash tx hfound
  rw [← hsame.get]
  exact hfound

theorem shrinks_removeUnchecked (pool : CTxMemPool) (hash : Uint256) :
    Shrinks pool (pool.removeUnchecked hash) := by
  refine ⟨fun hpool => hpool.removeUnchecked hash, ?_⟩
  intro other tx hfound
  rw [get_removeUnchecked] at hfound
  split at hfound
  · cases hfound
  · exact hfound

theorem shrinks_removeStaged (pool : CTxMemPool) (stage : List Uint256) :
    Shrinks pool (pool.removeStaged stage) :=
  (relinked_foldl relinked_unlink stage pool).shrinks.trans
    (shrinks_foldl shrinks_removeUnchecked stage _)

theorem get_foldl_removeUnchecked (stage : List Uint256) (pool : CTxMemPool) (hash : Uint256) :
    (stage.foldl removeUnchecked pool).get hash =
      if hash ∈ stage then none else pool.get hash := by
  induction stage generalizing pool with
  | nil => simp
  | cons first rest ih =>
    rw [foldl_cons, ih, get_removeUnchecked]
    by_cases hrest : hash ∈ rest
    · simp [hrest]
    · by_cases hfirst : hash = first
      · simp [hfirst]
      · simp [hrest, hfirst]

theorem get_removeStaged {stage : List Uint256} (pool : CTxMemPool) (hstage : hash ∈ stage) :
    (pool.removeStaged stage).get hash = none := by
  unfold removeStaged
  rw [get_foldl_removeUnchecked, if_pos hstage]

theorem shrinks_removeRecursive (pool : CTxMemPool) (origTx : CTransaction) :
    Shrinks pool (pool.removeRecursive origTx) := shrinks_removeStaged pool _

theorem shrinks_removeEntries (pool : CTxMemPool) (hashes : List Uint256) :
    Shrinks pool (pool.removeEntries hashes) := by
  refine shrinks_foldl ?_ hashes pool
  intro left hash
  cases left.get hash with
  | none => exact refl left
  | some tx => exact shrinks_removeRecursive left tx

variable (proTx : ProTxConflicts)

theorem shrinks_removeConflicts (pool : CTxMemPool) (tx : CTransaction) :
    Shrinks pool (pool.removeConflicts proTx tx) := by
  refine shrinks_foldl ?_ tx.vin pool
  intro left txin
  split
  · exact refl left
  · split
    · exact refl left
    · refine trans ?_ (shrinks_removeRecursive _ _)
      split
      · exact shrinks_removeEntries left _
      · exact refl left

theorem shrinks_removeNullifierConflict (hash : Uint256) (pool : CTxMemPool) (nf : Uint256) :
    Shrinks pool (removeNullifierConflict hash pool nf) := by
  unfold removeNullifierConflict
  split
  · exact refl pool
  · split
    · exact refl pool
    · exact shrinks_removeEntries pool _

theorem shrinks_removeSaplingNullifierConflicts (pool : CTxMemPool) (tx : CTransaction) :
    Shrinks pool (pool.removeSaplingNullifierConflicts tx) :=
  shrinks_foldl (shrinks_removeNullifierConflict tx.hash) _ pool

theorem shrinks_updateTransactionsFromBlock (pool : CTxMemPool)
    (vHashesToUpdate descendantsToRemove : List Uint256) :
    Shrinks pool (pool.updateTransactionsFromBlock vHashesToUpdate descendantsToRemove) :=
  (relinked_foldl (relinked_linkChildren vHashesToUpdate) _ pool).shrinks.trans
    (shrinks_removeEntries _ descendantsToRemove)

/-! ## Descendants -/

/-- A set of entries that has with every entry its children. -/
structure Family (pool : CTxMemPool) (hashes : List Uint256) : Prop where
  nodup : hashes.Nodup
  within : ∀ hash ∈ hashes, hash ∈ pool.mapTx.keys
  closed : ∀ hash ∈ hashes, ∀ child ∈ pool.childrenOf hash, child ∈ hashes

theorem mem_keys_of_existsTx (hexists : pool.existsTx hash = true) : hash ∈ pool.mapTx.keys := by
  rw [Std.ExtTreeMap.mem_keys, ← Std.ExtTreeMap.contains_iff_mem]
  exact hexists

/-- `CalculateDescendants` ends with a family that has the entry and everything collected
before. -/
theorem Family.calculateDescendants {hashes : List Uint256} (hfamily : pool.Family hashes)
    (hexists : pool.existsTx hash = true) :
    pool.Family (pool.calculateDescendants hashes hash) ∧
      ∀ other ∈ hash :: hashes, other ∈ pool.calculateDescendants hashes hash := by
  unfold CTxMemPool.calculateDescendants
  split
  · rename_i hmem
    refine ⟨hfamily, ?_⟩
    intro other hother
    rcases mem_cons.mp hother with rfl | hother
    · exact hmem
    · exact hother
  · rename_i hnew
    have hchildren : ∀ parent ∈ pool.mapTx.keys, ∀ child ∈ pool.childrenOf parent,
        child ∈ pool.mapTx.keys :=
      fun parent _ child hchild => mem_keys_of_existsTx (mem_filter.mp hchild).2
    have hwork : Unfinished pool.childrenOf pool.mapTx.keys pool.mapTx.size [hash] hashes := by
      refine ⟨nodup_cons.mpr ⟨hnew, hfamily.nodup⟩, ?_, ?_, ?_⟩
      · intro other hother
        rcases mem_cons.mp hother with rfl | hother
        · exact mem_keys_of_existsTx hexists
        · exact hfamily.within other hother
      · intro other hother child hchild
        exact mem_cons_of_mem hash (hfamily.closed other hother child hchild)
      · rw [Std.ExtTreeMap.length_keys]
        exact Nat.le_add_right _ _
    obtain ⟨hlisted, hclosed, hwithin, hnodup⟩ := traverse_closed hchildren hwork
    exact ⟨⟨hnodup, hwithin, hclosed⟩, hlisted⟩

theorem family_foldl_calculateDescendants {roots : List Uint256}
    (hroots : ∀ root ∈ roots, pool.existsTx root = true) {hashes : List Uint256}
    (hfamily : pool.Family hashes) :
    pool.Family (roots.foldl pool.calculateDescendants hashes) ∧
      ∀ other ∈ roots ++ hashes, other ∈ roots.foldl pool.calculateDescendants hashes := by
  induction roots generalizing hashes with
  | nil => exact ⟨hfamily, fun other hother => hother⟩
  | cons root rest ih =>
    obtain ⟨hroot, hrest⟩ := forall_mem_cons.mp hroots
    obtain ⟨hnext, hlisted⟩ := hfamily.calculateDescendants hroot
    obtain ⟨hall, hincluded⟩ := ih hrest hnext
    refine ⟨hall, ?_⟩
    intro other hother
    refine hincluded other (mem_append.mpr ?_)
    rw [cons_append, mem_cons, mem_append] at hother
    rcases hother with rfl | hother | hother
    · exact Or.inr (hlisted other mem_cons_self)
    · exact Or.inl hother
    · exact Or.inr (hlisted other (mem_cons_of_mem root hother))

theorem family_nil (pool : CTxMemPool) : pool.Family [] :=
  ⟨nodup_nil, fun _ hmem => absurd hmem not_mem_nil,
    fun _ hmem => absurd hmem not_mem_nil⟩

theorem get_removeStaged_descendants {roots : List Uint256}
    (hroots : ∀ root ∈ roots, pool.existsTx root = true) (hhash : hash ∈ roots) :
    (pool.removeStaged (roots.foldl pool.calculateDescendants [])).get hash = none :=
  get_removeStaged pool ((family_foldl_calculateDescendants hroots (family_nil pool)).2 hash
    (mem_append.mpr (Or.inl hhash)))

theorem existsTx_iff :
    pool.existsTx hash = true ↔ ∃ tx, pool.get hash = some tx := by
  unfold existsTx get
  rw [Std.ExtTreeMap.contains_eq_isSome_getElem?, Option.isSome_iff_exists]
  simp only [Option.map_eq_some_iff]
  constructor
  · rintro ⟨entry, hentry⟩
    exact ⟨entry.tx, entry, hentry, rfl⟩
  · rintro ⟨tx, entry, hentry, -⟩
    exact ⟨entry, hentry⟩

theorem get_eq_none_iff :
    pool.get hash = none ↔ pool.existsTx hash = false := by
  rw [← Bool.not_eq_true, existsTx_iff]
  cases pool.get hash with
  | none => simp
  | some tx => simp

theorem get_removeRecursive (pool : CTxMemPool) (origTx : CTransaction) :
    (pool.removeRecursive origTx).get origTx.hash = none := by
  cases hexists : pool.existsTx origTx.hash with
  | true =>
    unfold removeRecursive
    rw [hexists]
    refine get_removeStaged_descendants ?_ mem_cons_self
    intro root hroot
    rw [mem_singleton.mp hroot]
    exact hexists
  | false =>
    exact (shrinks_removeRecursive pool origTx).get_eq_none (get_eq_none_iff.mpr hexists)

variable {tx : CTransaction}

theorem not_remove_of_get_removeForReorg {remove : CTransaction → Bool}
    (hleft : (pool.removeForReorg remove).get hash = some tx) : remove tx = false := by
  have hbefore := (shrinks_removeStaged pool _).get hash tx hleft
  by_contra hremove
  rw [Bool.not_eq_false] at hremove
  have hroots : ∀ root ∈ pool.mapTx.keys.filter (fun hash => (pool.get hash).any remove),
      pool.existsTx root = true := by
    intro root hroot
    have hkey := (mem_filter.mp hroot).1
    rw [Std.ExtTreeMap.mem_keys, ← Std.ExtTreeMap.contains_iff_mem] at hkey
    exact hkey
  have hmem : hash ∈ pool.mapTx.keys.filter (fun hash => (pool.get hash).any remove) := by
    refine mem_filter.mpr ⟨mem_keys_of_existsTx (existsTx_iff.mpr ⟨tx, hbefore⟩), ?_⟩
    rw [hbefore]
    exact hremove
  have hgone := get_removeStaged_descendants hroots hmem
  unfold removeForReorg at hleft
  rw [hgone] at hleft
  cases hleft

/-! ## Nullifiers of a block -/

/-- No entry reveals the nullifier. -/
def Conceals (pool : CTxMemPool) (nf : Uint256) : Prop :=
  ∀ hash tx, pool.get hash = some tx → nf ∉ nullifiersRevealed tx

variable {nf : Uint256}

theorem Conceals.shrinks (hbefore : before.Conceals nf) (hshrinks : Shrinks before after) :
    after.Conceals nf :=
  fun hash tx hfound => hbefore hash tx (hshrinks.get hash tx hfound)

theorem Indexed.conceals (hpool : pool.Indexed) (hnone : pool.saplingNullifierTxids[nf]? = none) :
    pool.Conceals nf := by
  intro hash tx hfound hnf
  have hindex := (hpool.owners nf hash).mpr ⟨tx, hfound, hnf⟩
  rw [hnone] at hindex
  cases hindex

theorem Indexed.getElem?_eq_none (hpool : pool.Indexed) (hconceals : pool.Conceals nf) :
    pool.saplingNullifierTxids[nf]? = none :=
  hpool.owners.getElem?_eq_none hconceals

theorem conceals_removeNullifierConflict (hpool : pool.Indexed) (hhash : pool.get hash = none)
    (nf : Uint256) :
    (removeNullifierConflict hash pool nf).Conceals nf := by
  unfold removeNullifierConflict
  cases howner : pool.saplingNullifierTxids[nf]? with
  | none => exact hpool.conceals howner
  | some owner =>
    obtain ⟨item, hitem, hnf⟩ := (hpool.owners nf owner).mp howner
    have hne : owner ≠ hash := by
      rintro rfl
      rw [hhash] at hitem
      cases hitem
    simp only [if_neg hne]
    intro other tx hfound hshared
    have hbefore := (shrinks_removeEntries pool [owner]).get other tx hfound
    obtain rfl := hpool.owners.unique hitem hnf hbefore hshared
    unfold removeEntries at hfound
    rw [foldl_cons, foldl_nil, hitem, Option.elim_some,
      ← hpool.keyed owner item hitem, get_removeRecursive] at hfound
    cases hfound

theorem conceals_removeSaplingNullifierConflicts (hpool : pool.Indexed)
    (htx : pool.get tx.hash = none) (hnf : nf ∈ nullifiersRevealed tx) :
    (pool.removeSaplingNullifierConflicts tx).Conceals nf := by
  unfold removeSaplingNullifierConflicts
  generalize nullifiersRevealed tx = nfs at hnf
  induction nfs generalizing pool with
  | nil => cases hnf
  | cons first rest ih =>
    have hfirst := shrinks_removeNullifierConflict tx.hash pool first
    rcases mem_cons.mp hnf with rfl | hrest
    · exact (conceals_removeNullifierConflict hpool htx nf).shrinks
        (shrinks_foldl (shrinks_removeNullifierConflict tx.hash) rest _)
    · exact ih (hfirst.indexed hpool) (hfirst.get_eq_none htx) hrest

theorem shrinks_withoutTx (pool : CTxMemPool) (tx : CTransaction) :
    Shrinks pool (pool.withoutTx tx) := by
  unfold withoutTx
  split
  · exact shrinks_removeStaged pool _
  · exact refl pool

theorem get_withoutTx (pool : CTxMemPool) (tx : CTransaction) :
    (pool.withoutTx tx).get tx.hash = none := by
  unfold withoutTx
  split
  · exact get_removeStaged pool mem_cons_self
  · rename_i hnot
    exact get_eq_none_iff.mpr (Bool.not_eq_true _ ▸ hnot)

theorem shrinks_removeForTx (pool : CTxMemPool) (tx : CTransaction) :
    Shrinks pool (removeForTx proTx pool tx) :=
  (((shrinks_withoutTx pool tx).trans (shrinks_removeConflicts proTx _ tx)).trans
    (shrinks_removeSaplingNullifierConflicts _ tx)).trans (shrinks_removeEntries _ _)

theorem conceals_removeForTx (hpool : pool.Indexed) (proTx : ProTxConflicts)
    (hnf : nf ∈ nullifiersRevealed tx) :
    (removeForTx proTx pool tx).Conceals nf := by
  have hleft : Shrinks pool ((pool.withoutTx tx).removeConflicts proTx tx) :=
    (shrinks_withoutTx pool tx).trans (shrinks_removeConflicts proTx _ tx)
  have hgone : ((pool.withoutTx tx).removeConflicts proTx tx).get tx.hash = none :=
    (shrinks_removeConflicts proTx _ tx).get_eq_none (get_withoutTx pool tx)
  exact (conceals_removeSaplingNullifierConflicts (hleft.indexed hpool) hgone hnf).shrinks
    (shrinks_removeEntries _ _)

theorem shrinks_removeForBlock (pool : CTxMemPool) (vtx : List CTransaction) :
    Shrinks pool (pool.removeForBlock proTx vtx) :=
  shrinks_foldl (shrinks_removeForTx proTx) vtx pool

theorem conceals_removeForBlock (hpool : pool.Indexed) (proTx : ProTxConflicts)
    {vtx : List CTransaction} (htx : tx ∈ vtx) (hnf : nf ∈ nullifiersRevealed tx) :
    (pool.removeForBlock proTx vtx).Conceals nf := by
  induction vtx generalizing pool with
  | nil => cases htx
  | cons first rest ih =>
    unfold removeForBlock
    rcases mem_cons.mp htx with rfl | hrest
    · exact (conceals_removeForTx hpool proTx hnf).shrinks (shrinks_removeForBlock proTx _ rest)
    · exact ih ((shrinks_removeForTx proTx pool first).indexed hpool) hrest

/-! ## Additions -/

theorem get_insertEntry (pool : CTxMemPool) (newTx tx : CTransaction) (hash : Uint256) :
    (pool.insertEntry newTx tx).get hash =
      if hash = newTx.hash then some ((pool.get newTx.hash).getD newTx) else pool.get hash := by
  unfold insertEntry get
  simp only [Std.ExtTreeMap.getElem?_insertIfNew, Std.compare_eq_iff_eq]
  by_cases hhash : hash = newTx.hash
  · subst hhash
    by_cases hmem : newTx.hash ∈ pool.mapTx
    · simp [hmem]
    · simp [hmem]
  · simp [hhash, Ne.symm hhash]

theorem get_addUnchecked (pool : CTxMemPool) (newTx : CTransaction) (hash : Uint256) :
    (pool.addUnchecked newTx).get hash =
      if hash = newTx.hash then some ((pool.get newTx.hash).getD newTx) else pool.get hash := by
  rw [← get_insertEntry pool newTx ((pool.get newTx.hash).getD newTx)]
  exact (relinked_updateParents _ _ _ true).get hash

theorem get_addUnchecked_cases {newTx found : CTransaction}
    (hfound : (pool.addUnchecked newTx).get hash = some found) :
    pool.get hash = some found ∨ found = newTx := by
  rw [get_addUnchecked] at hfound
  split at hfound
  · rename_i hnew
    subst hnew
    cases hentry : pool.get newTx.hash with
    | none =>
      rw [hentry] at hfound
      exact Or.inr (Option.some.inj hfound).symm
    | some entry =>
      rw [hentry] at hfound
      exact Or.inl hfound
  · exact Or.inl hfound

theorem Indexed.addUnchecked (hpool : pool.Indexed) {newTx : CTransaction}
    (hfree : ∀ nf ∈ nullifiersRevealed newTx, pool.Conceals nf) :
    (pool.addUnchecked newTx).Indexed := by
  have hget := get_addUnchecked pool newTx
  have hlinked := relinked_updateParents
    (pool.insertEntry newTx ((pool.get newTx.hash).getD newTx))
    ((pool.get newTx.hash).getD newTx) ((pool.get newTx.hash).getD newTx).hash true
  have hhash : ((pool.get newTx.hash).getD newTx).hash = newTx.hash := by
    cases hentry : pool.get newTx.hash with
    | none => rfl
    | some tx => exact hpool.keyed newTx.hash tx hentry
  have hothers : ∀ nf ∈ nullifiersRevealed ((pool.get newTx.hash).getD newTx),
      ∀ other ≠ newTx.hash, pool.saplingNullifierTxids[nf]? ≠ some other := by
    intro nf hnf other hother howner
    obtain ⟨found, hfound, hshared⟩ := (hpool.owners nf other).mp howner
    cases hentry : pool.get newTx.hash with
    | none =>
      rw [hentry] at hnf
      exact hfree nf hnf other found hfound hshared
    | some tx =>
      rw [hentry] at hnf
      exact hother (hpool.owners.unique hfound hshared hentry hnf)
  generalize htx : (pool.get newTx.hash).getD newTx = tx at hget hlinked hhash hothers
  have hadded : pool.addUnchecked newTx =
      ((pool.insertEntry newTx tx).updateParents tx tx.hash true).addSaplingNullifiers tx := by
    rw [← htx]
    rfl
  refine ⟨?_, ?_, ?_⟩
  · intro hash found hfound
    rw [hget] at hfound
    split at hfound
    · rename_i hnew
      rw [← Option.some.inj hfound, hhash, hnew]
    · exact hpool.keyed hash found hfound
  · have htxids : (pool.addUnchecked newTx).saplingNullifierTxids =
        (nullifiersRevealed tx).foldl (fun txids nf => txids.insert nf newTx.hash)
          pool.saplingNullifierTxids := by
      rw [hadded, ← hhash]
      unfold addSaplingNullifiers
      rw [hlinked.txids]
      rfl
    rw [htxids]
    refine hpool.owners.add ?_ ?_ ?_ hothers
    · rw [hget, if_pos rfl]
    · intro other hother
      rw [hget, if_neg hother]
    · intro before hbefore
      rw [← htx, hbefore]
      rfl
  · intro nf
    rw [hadded]
    unfold addSaplingNullifiers
    rw [hlinked.txids, hlinked.nullifiers, mem_foldl_insert, getElem?_foldl_insert]
    by_cases hnf : nf ∈ nullifiersRevealed tx
    · simp [hnf]
    · simp only [hnf, false_or, if_false]
      exact hpool.nullifiers nf

theorem Indexed.checkSaplingNullifiers_iff (hpool : pool.Indexed) :
    pool.checkSaplingNullifiers tx = true ↔ ∀ nf ∈ nullifiersRevealed tx, pool.Conceals nf := by
  unfold checkSaplingNullifiers
  rw [all_eq_true]
  refine forall₂_congr ?_
  intro nf hnf
  rw [Bool.not_eq_true', ← Bool.not_eq_true, Std.ExtTreeSet.contains_iff_mem, hpool.nullifiers,
    Bool.not_eq_true, Option.isSome_eq_false_iff, Option.isNone_iff_eq_none]
  exact ⟨hpool.conceals, hpool.getElem?_eq_none⟩

end CTxMemPool

end Kerrigan.Mempool
