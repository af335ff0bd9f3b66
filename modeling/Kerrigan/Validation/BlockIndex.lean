import Kerrigan.Primitives.Transaction
import Kerrigan.Lib.Recompute

/-!
# The block index

The entries that the node keeps for every block header, with the two sums of work that the
choice of the chain compares: `nChainWork`, and `nChainSealWork`, in which the proof of every
block counts with its seal weight.  Work is computed in `arith_uint256`, modulo 2 to the 256.
-/

namespace Kerrigan.Validation

open Primitives Lib

/-! ## Work -/

/-- Addition of `arith_uint256`. -/
def addWork (first second : Nat) : Nat := (first + second) % 2 ^ 256

variable (blockProof nSealWeight : Nat)

def weightedProof : Nat :=
  blockProof * min nSealWeight 20000 % 2 ^ 256 / 10000

theorem weightedProof_neutral {blockProof : Nat} (hproof : blockProof * 10000 < 2 ^ 256) :
    weightedProof blockProof 10000 = blockProof := by
  unfold weightedProof
  rw [Nat.min_eq_left (by decide), Nat.mod_eq_of_lt hproof]
  exact Nat.mul_div_cancel blockProof (by decide)

@[simp] theorem weightedProof_min :
    weightedProof blockProof (min nSealWeight 20000) = weightedProof blockProof nSealWeight := by
  unfold weightedProof
  rw [Nat.min_assoc, Nat.min_self]

/-! ## Entries -/

structure CBlockIndex where
  pprev : Option Uint256
  nHeight : Nat
  blockProof : Nat
  nChainWork : Nat
  nSealWeight : Nat := 10000
  nChainSealWork : Nat
  nSequenceId : Nat := 0
  validScripts : Bool := false
  failed : Bool := false
  conflicting : Bool := false
  haveData : Bool := false
  deriving DecidableEq

abbrev BlockMap := Std.ExtTreeMap Uint256 CBlockIndex

namespace BlockMap

variable (index disk : BlockMap) (hash : Uint256) (hashPrevBlock : Uint256) (blockProof : Nat)
  (pprev : Option Uint256)

def prevChainWork : Nat :=
  match pprev.bind (fun hash => index[hash]?) with
  | none => 0
  | some prev => prev.nChainWork

def prevSealWork : Nat :=
  match pprev.bind (fun hash => index[hash]?) with
  | none => 0
  | some prev => prev.nChainSealWork

def sumWork (entry : CBlockIndex) : CBlockIndex :=
  { entry with
    nChainWork := addWork (index.prevChainWork entry.pprev) entry.blockProof
    nChainSealWork := addWork (index.prevSealWork entry.pprev)
      (weightedProof entry.blockProof entry.nSealWeight) }

def newEntry : CBlockIndex :=
  sumWork index
    (match index[hashPrevBlock]? with
    | none =>
        { pprev := none, nHeight := 0, blockProof := blockProof, nChainWork := 0
          nChainSealWork := 0 }
    | some prev =>
        { pprev := some hashPrevBlock, nHeight := prev.nHeight + 1, blockProof := blockProof
          nChainWork := 0, nChainSealWork := 0 })

def addToBlockIndex : BlockMap :=
  if index[hash]?.isSome then index
  else index.insert hash (index.newEntry hashPrevBlock blockProof)

/-! ## Loading -/

def heightOf : Nat :=
  match index[hash]? with
  | none => 0
  | some entry => entry.nHeight

def sortedByHeight : List Uint256 :=
  index.keys.insertionSort (fun first second => index.heightOf first ≤ index.heightOf second)

def loadBlockIndexGuts : BlockMap :=
  disk.map (fun _ entry => { entry with nSealWeight := min entry.nSealWeight 20000 })

def loadBlockIndex : BlockMap :=
  recompute sumWork (sortedByHeight disk) (loadBlockIndexGuts disk)

def ParentClosed : Prop :=
  ∀ (hash : Uint256) entry, index[hash]? = some entry → ∀ parent ∈ entry.pprev,
    ∃ prev, index[parent]? = some prev ∧ entry.nHeight = prev.nHeight + 1

theorem loadBlockIndexGuts_lookup : (loadBlockIndexGuts disk)[hash]? = disk[hash]?.map
      (fun entry => { entry with nSealWeight := min entry.nSealWeight 20000 }) := by
  unfold loadBlockIndexGuts
  simp

variable {entry : CBlockIndex}

theorem sumWork_congr {first second : BlockMap}
    (hsame : ∀ hash ∈ entry.pprev, first[hash]? = second[hash]?) :
    first.sumWork entry = second.sumWork entry := by
  have hbind : entry.pprev.bind (fun hash => first[hash]?) =
      entry.pprev.bind (fun hash => second[hash]?) := by
    cases hprev : entry.pprev with
    | none => rfl
    | some hash => exact hsame hash hprev
  simp only [sumWork, prevChainWork, prevSealWork, hbind]

variable {disk : BlockMap} {hash : Uint256}

theorem loadBlockIndex_lookup (hclosed : ParentClosed disk) (hentry : disk[hash]? = some entry) :
    (loadBlockIndex disk)[hash]? = some ((loadBlockIndex disk).sumWork
      { entry with nSealWeight := min entry.nSealWeight 20000 }) := by
  have hmem : ∀ (key : Uint256) value, disk[key]? = some value → key ∈ sortedByHeight disk := by
    intro key value hvalue
    rw [sortedByHeight, List.mem_insertionSort, Std.ExtTreeMap.mem_keys,
      Std.ExtTreeMap.mem_iff_isSome_getElem?, hvalue]
    rfl
  have hlocal : ∀ (first second : BlockMap) (value : CBlockIndex),
      (∀ other ∈ value.pprev, first[other]? = second[other]?) →
        first.sumWork value = second.sumWork value := fun _ _ _ hsame => sumWork_congr hsame
  refine recompute_eq hlocal ?_ ?_ (hmem hash entry hentry) ?_
  · exact (List.perm_insertionSort _ _).nodup_iff.mpr disk.nodup_keys
  · refine readsEarlier_of_rank disk.heightOf ?_ ?_
    · exact List.pairwise_insertionSort _ _
    · intro key value hvalue other hother
      rw [loadBlockIndexGuts_lookup] at hvalue
      obtain ⟨stored, hstored, rfl⟩ := Option.map_eq_some_iff.mp hvalue
      obtain ⟨prev, hprev, hheight⟩ := hclosed key stored hstored other hother
      refine ⟨hmem other prev hprev, ?_⟩
      simp only [heightOf, hprev, hstored]
      omega
  · rw [loadBlockIndexGuts_lookup, hentry]
    rfl

theorem loadBlockIndex_none (hentry : disk[hash]? = none) :
    (loadBlockIndex disk)[hash]? = none := by
  have hnot : hash ∉ sortedByHeight disk := by
    rw [sortedByHeight, List.mem_insertionSort, Std.ExtTreeMap.mem_keys,
      Std.ExtTreeMap.mem_iff_isSome_getElem?, hentry]
    decide
  rw [loadBlockIndex, recompute_of_notMem hnot, loadBlockIndexGuts_lookup, hentry]
  rfl

variable {index : BlockMap}

theorem addToBlockIndex_eq (hnew : index[hash]? = none) (hashPrevBlock : Uint256) (blockProof : Nat) :
    index.addToBlockIndex hash hashPrevBlock blockProof =
      index.insert hash (index.newEntry hashPrevBlock blockProof) := by
  rw [addToBlockIndex, hnew, if_neg (by decide)]

theorem newEntry_child {hashPrevBlock : Uint256} {prev : CBlockIndex}
    (hprev : index[hashPrevBlock]? = some prev) (blockProof : Nat) :
    (index.newEntry hashPrevBlock blockProof).pprev = some hashPrevBlock ∧
      (index.newEntry hashPrevBlock blockProof).nHeight = prev.nHeight + 1 ∧
      (index.newEntry hashPrevBlock blockProof).blockProof = blockProof ∧
      (index.newEntry hashPrevBlock blockProof).nSealWeight = 10000 := by
  simp only [newEntry, hprev, sumWork]
  exact ⟨trivial, trivial, trivial, trivial⟩

end BlockMap

/-! ## New entries -/

namespace BlockTree

/-- One index is another with a new entry. -/
structure Adds (index next : BlockMap) (hash : Uint256) (added : CBlockIndex) : Prop where
  new : index[hash]? = none
  lookup : ∀ other : Uint256, next[other]? = if hash = other then some added else index[other]?
  linked : ∀ parent ∈ added.pprev, ∃ prev, index[parent]? = some prev ∧
    added.nHeight = prev.nHeight + 1

namespace Adds

variable {index next : BlockMap} {hash : Uint256} {added : CBlockIndex} {other : Uint256}

section

variable (hadds : Adds index next hash added)

include hadds

theorem lookup_known (hknown : index[other]?.isSome) :
    next[other]? = index[other]? := by
  rw [hadds.lookup, if_neg]
  intro heq
  rw [← heq, hadds.new] at hknown
  cases hknown

theorem cases {entry : CBlockIndex} (hentry : next[other]? = some entry) :
    (other = hash ∧ entry = added) ∨ index[other]? = some entry := by
  rw [hadds.lookup] at hentry
  split at hentry
  · rename_i heq
    cases hentry
    exact Or.inl ⟨heq.symm, rfl⟩
  · exact Or.inr hentry

theorem prevWork {pprev : Option Uint256} (hknown : ∀ parent ∈ pprev, index[parent]?.isSome) :
    next.prevChainWork pprev = index.prevChainWork pprev ∧
      next.prevSealWork pprev = index.prevSealWork pprev := by
  cases pprev with
  | none => exact ⟨rfl, rfl⟩
  | some parent =>
    simp only [BlockMap.prevChainWork, BlockMap.prevSealWork, Option.bind_some,
      hadds.lookup_known (hknown parent rfl)]
    exact ⟨trivial, trivial⟩

theorem closed (hclosed : index.ParentClosed) :
    next.ParentClosed := by
  intro other entry hentry parent hparent
  have hold : ∃ prev, index[parent]? = some prev ∧ entry.nHeight = prev.nHeight + 1 := by
    rcases hadds.cases hentry with ⟨-, rfl⟩ | hentry
    · exact hadds.linked parent hparent
    · exact hclosed other entry hentry parent hparent
  obtain ⟨prev, hprev, hheight⟩ := hold
  refine ⟨prev, ?_, hheight⟩
  rw [hadds.lookup_known (by rw [hprev]; rfl), hprev]

end

end Adds

end BlockTree

theorem BlockMap.adds_addToBlockIndex {index : BlockMap} {hash hashPrevBlock : Uint256}
    {prev : CBlockIndex} (hnew : index[hash]? = none)
    (hprev : index[hashPrevBlock]? = some prev) (blockProof : Nat) :
    BlockTree.Adds index (index.addToBlockIndex hash hashPrevBlock blockProof) hash
      (index.newEntry hashPrevBlock blockProof) := by
  obtain ⟨hpprev, hheight, -, -⟩ := newEntry_child hprev blockProof
  refine ⟨hnew, ?_, ?_⟩
  · intro other
    rw [addToBlockIndex_eq hnew, getElem?_insert_eq]
  · intro parent hparent
    rw [hpprev] at hparent
    cases hparent
    exact ⟨prev, hprev, hheight⟩

end Kerrigan.Validation
