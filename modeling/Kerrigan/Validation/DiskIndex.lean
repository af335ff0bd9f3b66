import Kerrigan.Net.CompressedHeaders
import Kerrigan.Lib.OrdMap

/-!
# The block index on disk

The entries of the block index with the header fields of every algorithm, their stored form and the
loop that loads them.  The loop takes the records in any order; an entry is named by its hash.
-/

namespace Kerrigan.Validation.DiskIndex

open Primitives Lib Kerrigan.Pow Net List

/-! ## Entries -/

/-- `CBlockIndex` without the members that are kept in memory only; an `int` that is never negative
has 31 bits. -/
structure CBlockIndex where
  pprev : Option Uint256 := none
  nHeight : Fin (2 ^ 31) := 0
  nFile : Fin (2 ^ 31) := 0
  nDataPos : UInt32 := 0
  nUndoPos : UInt32 := 0
  nTx : UInt32 := 0
  nStatus : UInt32 := 0
  nVersion : UInt32 := 0
  hashMerkleRoot : Uint256 := 0
  nTime : UInt32 := 0
  nBits : UInt32 := 0
  nNonce : UInt32 := 0
  hashReserved : Uint256 := 0
  nNonce256 : Uint256 := 0
  nSolution : List UInt8 := []
  nKawPowHeight : UInt32 := 0
  nNonce64 : UInt64 := 0
  mixHash : Uint256 := 0
  nSealWeight : UInt64 := 10000
  deriving DecidableEq

abbrev BlockMap := Std.ExtTreeMap Uint256 CBlockIndex

namespace CBlockIndex

def ofHeader (block : CBlockHeader) : CBlockIndex where
  nVersion := block.nVersion
  hashMerkleRoot := block.hashMerkleRoot
  nTime := block.nTime
  nBits := block.nBits
  nNonce := block.nNonce
  hashReserved := block.hashReserved
  nNonce256 := block.nNonce256
  nSolution := block.nSolution
  nKawPowHeight := block.nHeight
  nNonce64 := block.nNonce64
  mixHash := block.mixHash

def getBlockHeader (index : CBlockIndex) : CBlockHeader where
  nVersion := index.nVersion
  hashPrevBlock := index.pprev.getD 0
  hashMerkleRoot := index.hashMerkleRoot
  nTime := index.nTime
  nBits := index.nBits
  nNonce := index.nNonce
  hashReserved := index.hashReserved
  nNonce256 := index.nNonce256
  nSolution := index.nSolution
  nHeight := index.nKawPowHeight
  nNonce64 := index.nNonce64
  mixHash := index.mixHash

end CBlockIndex

open DiskIndex.CBlockIndex

def addToBlockIndex (block : CBlockHeader) : CBlockIndex :=
  { ofHeader block with
    pprev := if block.hashPrevBlock = 0 then none else some block.hashPrevBlock }

theorem getD_parent (hash : Uint256) : (if hash = 0 then none else some hash).getD 0 = hash := by
  split <;> simp_all

theorem getBlockHeader_addToBlockIndex (block : CBlockHeader) :
    (addToBlockIndex block).getBlockHeader = block := by
  unfold addToBlockIndex getBlockHeader ofHeader
  rw [getD_parent]

/-! ## The stored form -/

structure CDiskBlockIndex extends CBlockIndex where
  hash : Uint256 := 0
  hashPrev : Uint256 := 0

def blockHaveData : UInt32 := 8
def blockHaveUndo : UInt32 := 16

def readVarUInt32 : Reader UInt32 := do
  let n ← readVarInt (2 ^ 32 - 1)
  pure (UInt32.ofNat n)

def readVarInt31 : Reader (Fin (2 ^ 31)) := do
  let n ← readVarInt (2 ^ 31 - 1)
  pure (Fin.ofNat (2 ^ 31) n)

def readVarUInt64 : Reader UInt64 := do
  let n ← readVarInt (2 ^ 64 - 1)
  pure (UInt64.ofNat n)

theorem reads_readVarUInt32 (value : UInt32) :
    Reads readVarUInt32 (writeVarInt value.toNat) value :=
  (reads_readVarInt (Nat.le_sub_one_of_lt value.toNat_lt)).map_eq UInt32.ofNat_toNat

theorem reads_readVarInt31 (value : Fin (2 ^ 31)) :
    Reads readVarInt31 (writeVarInt value.val) value :=
  (reads_readVarInt (Nat.le_sub_one_of_lt value.isLt)).map_eq (Fin.ofNat_val_eq_self value)

theorem reads_readVarUInt64 (value : UInt64) :
    Reads readVarUInt64 (writeVarInt value.toNat) value :=
  (reads_readVarInt (Nat.le_sub_one_of_lt value.toNat_lt)).map_eq UInt64.ofNat_toNat

namespace CDiskBlockIndex

def ofIndex (hash : Uint256) (index : CBlockIndex) : CDiskBlockIndex :=
  { index with hash, hashPrev := index.pprev.getD 0 }

def serialize (clientVersion : Fin (2 ^ 31)) (obj : CDiskBlockIndex) : List UInt8 :=
  let equihash := isEquihashVersion obj.nVersion
  let kawpow := isKawpowVersion obj.nVersion
  writeVarInt clientVersion.val ++
    (writeVarInt obj.nHeight.val ++
    (writeVarInt obj.nStatus.toNat ++
    (writeVarInt obj.nTx.toNat ++
    (writeOptional (obj.nStatus &&& (blockHaveData ||| blockHaveUndo) ≠ 0)
      (writeVarInt obj.nFile.val) ++
    (writeOptional (obj.nStatus &&& blockHaveData ≠ 0) (writeVarInt obj.nDataPos.toNat) ++
    (writeOptional (obj.nStatus &&& blockHaveUndo ≠ 0) (writeVarInt obj.nUndoPos.toNat) ++
    (writeNumber 32 obj.hash ++
    (writeUInt32 obj.nVersion ++
    (writeNumber 32 obj.hashPrev ++
    (writeNumber 32 obj.hashMerkleRoot ++
    (writeUInt32 obj.nTime ++
    (writeUInt32 obj.nBits ++
    (writeUInt32 obj.nNonce ++
    (writeOptional equihash (writeNumber 32 obj.hashReserved) ++
    (writeOptional equihash (writeNumber 32 obj.nNonce256) ++
    (writeOptional equihash (writeVector obj.nSolution) ++
    (writeOptional kawpow (writeUInt32 obj.nKawPowHeight) ++
    (writeOptional kawpow (writeUInt64 obj.nNonce64) ++
    (writeOptional kawpow (writeNumber 32 obj.mixHash) ++
    writeVarInt obj.nSealWeight.toNat)))))))))))))))))))

/-- `SERIALIZE_METHODS`, reading into a new object; the version of the client is not kept. -/
def unserialize : Reader CDiskBlockIndex := do
  let _ ← readVarInt31
  let nHeight ← readVarInt31
  let nStatus ← readVarUInt32
  let nTx ← readVarUInt32
  let nFile ← readOptional (nStatus &&& (blockHaveData ||| blockHaveUndo) ≠ 0) readVarInt31 0
  let nDataPos ← readOptional (nStatus &&& blockHaveData ≠ 0) readVarUInt32 0
  let nUndoPos ← readOptional (nStatus &&& blockHaveUndo ≠ 0) readVarUInt32 0
  let hash ← readNumber 32
  let nVersion ← readUInt32
  let hashPrev ← readNumber 32
  let hashMerkleRoot ← readNumber 32
  let nTime ← readUInt32
  let nBits ← readUInt32
  let nNonce ← readUInt32
  let hashReserved ← readOptional (isEquihashVersion nVersion) (readNumber 32) 0
  let nNonce256 ← readOptional (isEquihashVersion nVersion) (readNumber 32) 0
  let nSolution ← readOptional (isEquihashVersion nVersion) (readVector 1400) []
  let nKawPowHeight ← readOptional (isKawpowVersion nVersion) readUInt32 0
  let nNonce64 ← readOptional (isKawpowVersion nVersion) readUInt64 0
  let mixHash ← readOptional (isKawpowVersion nVersion) (readNumber 32) 0
  let nSealWeight ← readVarUInt64
  pure { nHeight, nStatus, nTx, nFile, nDataPos, nUndoPos, hash, nVersion, hashPrev,
         hashMerkleRoot, nTime, nBits, nNonce, hashReserved, nNonce256, nSolution, nKawPowHeight,
         nNonce64, mixHash, nSealWeight }

def header (obj : CDiskBlockIndex) : CBlockHeader :=
  { obj.getBlockHeader with hashPrevBlock := obj.hashPrev }

def constructBlockHash (functions : PowFunctions) (obj : CDiskBlockIndex) : Uint256 :=
  if obj.hash ≠ 0 then obj.hash else functions.getHash obj.header

/-- The entry as it is read back; its parent is not a stored field. -/
def onDisk (obj : CDiskBlockIndex) : CDiskBlockIndex :=
  let equihash := isEquihashVersion obj.nVersion
  let kawpow := isKawpowVersion obj.nVersion
  { obj with
    pprev := none
    nFile := if obj.nStatus &&& (blockHaveData ||| blockHaveUndo) ≠ 0 then obj.nFile else 0
    nDataPos := if obj.nStatus &&& blockHaveData ≠ 0 then obj.nDataPos else 0
    nUndoPos := if obj.nStatus &&& blockHaveUndo ≠ 0 then obj.nUndoPos else 0
    hashReserved := if equihash then obj.hashReserved else 0
    nNonce256 := if equihash then obj.nNonce256 else 0
    nSolution := if equihash then obj.nSolution else []
    nKawPowHeight := if kawpow then obj.nKawPowHeight else 0
    nNonce64 := if kawpow then obj.nNonce64 else 0
    mixHash := if kawpow then obj.mixHash else 0 }

end CDiskBlockIndex

open CDiskBlockIndex

/-- Hashes have 256 bits, and the solution of an Equihash header is not too long. -/
structure Storable (hash : Uint256) (index : CBlockIndex) : Prop where
  hash : hash < 2 ^ 256
  pprev : index.pprev.getD 0 < 2 ^ 256
  hashMerkleRoot : index.hashMerkleRoot < 2 ^ 256
  hashReserved : index.hashReserved < 2 ^ 256
  nNonce256 : index.nNonce256 < 2 ^ 256
  mixHash : index.mixHash < 2 ^ 256
  nSolution : isEquihashVersion index.nVersion = true → index.nSolution.length ≤ 1400

theorem reads_hash {value : Uint256} (hwidth : value < 2 ^ 256) :
    Reads (readNumber 32) (writeNumber 32 value) value :=
  reads_readNumber (hwidth.trans_eq (by norm_num))

variable {hash : Uint256} {index : CBlockIndex}

theorem reads_unserialize (clientVersion : Fin (2 ^ 31)) (hstorable : Storable hash index) :
    Reads unserialize
      ((ofIndex hash index).serialize clientVersion)
      (ofIndex hash index).onDisk := by
  refine (reads_readVarInt31 clientVersion).bind ?_
  refine (reads_readVarInt31 _).bind ?_
  refine (reads_readVarUInt32 _).bind ?_
  refine (reads_readVarUInt32 _).bind ?_
  refine (reads_readOptional 0 (fun _ => reads_readVarInt31 _)).bind ?_
  refine (reads_readOptional 0 (fun _ => reads_readVarUInt32 _)).bind ?_
  refine (reads_readOptional 0 (fun _ => reads_readVarUInt32 _)).bind ?_
  refine (reads_hash hstorable.hash).bind ?_
  refine (reads_readUInt32 _).bind ?_
  refine (reads_hash hstorable.pprev).bind ?_
  refine (reads_hash hstorable.hashMerkleRoot).bind ?_
  refine (reads_readUInt32 _).bind ?_
  refine (reads_readUInt32 _).bind ?_
  refine (reads_readUInt32 _).bind ?_
  refine (reads_readOptional 0 (fun _ => reads_hash hstorable.hashReserved)).bind ?_
  refine (reads_readOptional 0 (fun _ => reads_hash hstorable.nNonce256)).bind ?_
  refine (reads_readOptional [] (fun hequihash =>
    have hlimit := hstorable.nSolution hequihash
    reads_readVector hlimit (hlimit.trans (by decide)))).bind ?_
  refine (reads_readOptional 0 (fun _ => reads_readUInt32 _)).bind ?_
  refine (reads_readOptional 0 (fun _ => reads_readUInt64 _)).bind ?_
  refine (reads_readOptional 0 (fun _ => reads_hash hstorable.mixHash)).bind ?_
  have hlast := (reads_readVarUInt64 index.nSealWeight).map (fun nSealWeight =>
    { (ofIndex hash index).onDisk with nSealWeight })
  simp only [decide_eq_true_eq]
  exact hlast

/-! ## Loading -/

section Loading

variable (functions : PowFunctions) (params : PowParams) (powLimit : Nat)

def insertBlockIndex (map : BlockMap) (hash : Uint256) : BlockMap :=
  if hash = 0 ∨ hash ∈ map then map else map.insert hash {}

def checkHeaderWork (header : CBlockHeader) : Bool :=
  let hash := functions.getPoWAlgoHash header
  match header.getAlgo with
  | some algo => checkProofOfWork params algo hash header.nBits
  | none =>
      checkProofOfWork { params with powLimitAlgo := fun _ => powLimit } .x11 hash header.nBits

/-- What the loop assigns to the entry of a record. -/
def loadedIndex (diskindex : CDiskBlockIndex) : CBlockIndex :=
  { diskindex.toCBlockIndex with
    pprev := if diskindex.hashPrev = 0 then none else some diskindex.hashPrev
    nSealWeight := min diskindex.nSealWeight 20000 }

def assignEntry (map : BlockMap) (hash : Uint256) (diskindex : CDiskBlockIndex) : BlockMap :=
  (insertBlockIndex (insertBlockIndex map hash) diskindex.hashPrev).insert hash
    (loadedIndex diskindex)

/-- The loop of `LoadBlockIndexGuts` over the stored values: the entries, and the error that stopped
it.  There is no result when it would write to the entry of a null hash. -/
def loadBlockIndexGuts : List (List UInt8) → BlockMap → Option (BlockMap × Option String)
  | [], map => some (map, none)
  | value :: rest, map =>
      match unserialize.run value with
      | .error _ => some (map, some "failed to read value")
      | .ok (diskindex, _) =>
          let hash := diskindex.constructBlockHash functions
          if hash = 0 then none
          else
            let map := assignEntry map hash diskindex
            if checkHeaderWork functions params powLimit diskindex.header then
              loadBlockIndexGuts rest map
            else
              some (map, some ("CheckProofOfWork failed at height " ++
                toString diskindex.nHeight.val))

end Loading

variable (header : CBlockHeader)

def indexed : CBlockHeader :=
  { onWire header with nNonce := header.nNonce }

theorem hashInput_indexed : (indexed header).hashInput = header.hashInput := by
  have hwire : onWire (indexed header) = onWire header := by
    unfold indexed onWire
    cases isEquihashVersion header.nVersion <;> cases isKawpowVersion header.nVersion <;> rfl
  rw [← hashInput_onWire, hwire, hashInput_onWire]

variable (functions : PowFunctions)

theorem getHash_indexed : functions.getHash (indexed header) = functions.getHash header := by
  rw [PowFunctions.getHash, hashInput_indexed]
  rfl

theorem getPoWAlgoHash_indexed :
    functions.getPoWAlgoHash (indexed header) = functions.getPoWAlgoHash header := by
  have halgo : (indexed header).getAlgo = header.getAlgo := rfl
  unfold PowFunctions.getPoWAlgoHash
  rw [halgo, getHash_indexed, hashInput_indexed]
  have hversion : versionAlgo header.nVersion = header.getAlgo := rfl
  cases hcases : header.getAlgo with
  | none => rfl
  | some algo =>
    rw [hcases] at hversion
    cases algo <;> simp [indexed, onWire, isEquihashVersion, isKawpowVersion, hversion,
      Algo.isEquihash]

theorem checkHeaderWork_indexed (params : PowParams) (powLimit : Nat) (header : CBlockHeader) :
    checkHeaderWork functions params powLimit (indexed header) =
      checkHeaderWork functions params powLimit header := by
  unfold checkHeaderWork
  rw [getPoWAlgoHash_indexed]
  rfl

theorem getBlockHeader_loadedIndex (hash : Uint256) (index : CBlockIndex) :
    (loadedIndex (ofIndex hash index).onDisk).getBlockHeader =
      indexed index.getBlockHeader := by
  rw [getBlockHeader, getBlockHeader, ← getD_parent (index.pprev.getD 0)]
  rfl

/-- The loaded entry has the hash and the proof of work of the stored one. -/
structure SameHeader (stored loaded : CBlockIndex) : Prop where
  hash : functions.getHash loaded.getBlockHeader = functions.getHash stored.getBlockHeader
  nNonce : loaded.getBlockHeader.nNonce = stored.getBlockHeader.nNonce
  equihash : isEquihashVersion stored.nVersion = true →
    loaded.getBlockHeader.nNonce256 = stored.getBlockHeader.nNonce256 ∧
      loaded.getBlockHeader.nSolution = stored.getBlockHeader.nSolution
  kawpow : isKawpowVersion stored.nVersion = true →
    loaded.getBlockHeader.nHeight = stored.getBlockHeader.nHeight ∧
      loaded.getBlockHeader.nNonce64 = stored.getBlockHeader.nNonce64 ∧
      loaded.getBlockHeader.mixHash = stored.getBlockHeader.mixHash
  nSealWeight : loaded.nSealWeight = min stored.nSealWeight 20000

theorem sameHeader_loadedIndex (hash : Uint256) (index : CBlockIndex) :
    SameHeader functions index (loadedIndex (ofIndex hash index).onDisk) where
  hash := by rw [getBlockHeader_loadedIndex, getHash_indexed]
  nNonce := by
    rfl
  equihash := by
    intro hequihash
    exact ⟨if_pos hequihash, if_pos hequihash⟩
  kawpow := by
    intro hkawpow
    exact ⟨if_pos hkawpow, if_pos hkawpow, if_pos hkawpow⟩
  nSealWeight := rfl

def record (clientVersion : Fin (2 ^ 31)) (entry : Uint256 × CBlockIndex) : List UInt8 :=
  (ofIndex entry.1 entry.2).serialize clientVersion

variable (params : PowParams) (powLimit : Nat) (clientVersion : Fin (2 ^ 31))

theorem loadBlockIndexGuts_record (hnull : hash ≠ 0) (hstorable : Storable hash index)
    (rest : List (List UInt8)) (map : BlockMap) :
    let next := assignEntry map hash (ofIndex hash index).onDisk
    loadBlockIndexGuts functions params powLimit (record clientVersion (hash, index) :: rest) map =
      if checkHeaderWork functions params powLimit index.getBlockHeader then
        loadBlockIndexGuts functions params powLimit rest next
      else some (next, some ("CheckProofOfWork failed at height " ++ toString index.nHeight.val)) := by
  have hread := reads_unserialize clientVersion hstorable []
  rw [append_nil] at hread
  have hhash : (ofIndex hash index).onDisk.constructBlockHash functions = hash :=
    if_pos hnull
  have hheader : (ofIndex hash index).onDisk.header =
      indexed index.getBlockHeader := rfl
  rw [loadBlockIndexGuts, record, hread]
  dsimp only
  rw [hhash, hheader, if_neg hnull, checkHeaderWork_indexed]
  rfl

theorem getElem?_insertBlockIndex {map : BlockMap} (hfound : map[hash]? = some index)
    (other : Uint256) :
    (insertBlockIndex map other)[hash]? = some index := by
  unfold insertBlockIndex
  split
  next => exact hfound
  next hnew =>
    have hother : other ≠ hash := by
      rintro rfl
      apply hnew
      exact Or.inr (Std.ExtTreeMap.isSome_getElem?_iff_mem.mp (Option.isSome_of_eq_some hfound))
    rw [getElem?_insert_eq, if_neg hother, hfound]

theorem getElem?_assignEntry {map : BlockMap} {other : Uint256} (hother : other ≠ hash)
    (hfound : map[hash]? = some index) (diskindex : CDiskBlockIndex) :
    (assignEntry map other diskindex)[hash]? = some index := by
  rw [assignEntry, getElem?_insert_eq, if_neg hother]
  exact getElem?_insertBlockIndex (getElem?_insertBlockIndex hfound _) _

/-- The loop keeps the entries that no record names and loads every record that it reaches. -/
theorem loadBlockIndexGuts_spec {entries : List (Uint256 × CBlockIndex)}
    (hnull : ∀ entry ∈ entries, entry.1 ≠ 0)
    (hstorable : ∀ entry ∈ entries, Storable entry.1 entry.2)
    (hdistinct : (entries.map Prod.fst).Nodup) (map : BlockMap) :
    ∃ last failure,
      loadBlockIndexGuts functions params powLimit (entries.map (record clientVersion)) map =
        some (last, failure) ∧
      (failure = none ↔ ∀ entry ∈ entries,
        checkHeaderWork functions params powLimit entry.2.getBlockHeader = true) ∧
      (∀ (hash : Uint256) (index : CBlockIndex), hash ∉ entries.map Prod.fst →
        map[hash]? = some index → last[hash]? = some index) ∧
      ∀ before entry after, entries = before ++ entry :: after →
        (∀ earlier ∈ before,
          checkHeaderWork functions params powLimit earlier.2.getBlockHeader = true) →
        ∃ loaded, last[entry.1]? = some loaded ∧ SameHeader functions entry.2 loaded := by
  induction entries generalizing map with
  | nil =>
    refine ⟨map, none, rfl, by simp, fun _ _ _ hfound => hfound, ?_⟩
    intro before entry after heq
    cases before <;> cases heq
  | cons entry rest ih =>
    obtain ⟨hash, index⟩ := entry
    obtain ⟨hnullFirst, hnullRest⟩ := forall_mem_cons.mp hnull
    obtain ⟨hstorableFirst, hstorableRest⟩ := forall_mem_cons.mp hstorable
    obtain ⟨hfresh, hdistinctRest⟩ := nodup_cons.mp hdistinct
    have hstep := loadBlockIndexGuts_record functions params powLimit clientVersion hnullFirst
      hstorableFirst (rest.map (record clientVersion)) map
    dsimp only at hstep
    have hfirst : (assignEntry map hash (ofIndex hash index).onDisk)[hash]? =
        some (loadedIndex (ofIndex hash index).onDisk) :=
      Std.ExtTreeMap.getElem?_insert_self
    have hsame := sameHeader_loadedIndex functions hash index
    by_cases hwork : checkHeaderWork functions params powLimit index.getBlockHeader = true
    · rw [if_pos hwork] at hstep
      obtain ⟨last, failure, hload, hfailure, hkept, hloaded⟩ := ih hnullRest hstorableRest
        hdistinctRest (assignEntry map hash (ofIndex hash index).onDisk)
      refine ⟨last, failure, hstep.trans hload, ?_, ?_, ?_⟩
      · rw [hfailure, forall_mem_cons]
        exact ⟨fun hrest => ⟨hwork, hrest⟩, fun hall => hall.2⟩
      · intro other found hother hfound
        rw [map_cons, mem_cons, not_or] at hother
        exact hkept other found hother.2 (getElem?_assignEntry (Ne.symm hother.1) hfound _)
      · intro before entry after heq hbefore
        cases before with
        | nil =>
          cases heq
          exact ⟨_, hkept hash _ hfresh hfirst, hsame⟩
        | cons earlier before =>
          obtain ⟨-, heq⟩ := cons.inj heq
          exact hloaded before entry after heq (forall_mem_cons.mp hbefore).2
    · rw [if_neg hwork] at hstep
      refine ⟨_, _, hstep, ?_, ?_, ?_⟩
      · rw [forall_mem_cons]
        constructor
        · intro hnone
          cases hnone
        · intro hall
          exact absurd hall.1 hwork
      · intro other found hother hfound
        rw [map_cons, mem_cons, not_or] at hother
        exact getElem?_assignEntry (Ne.symm hother.1) hfound _
      · intro before entry after heq hbefore
        cases before with
        | nil =>
          cases heq
          exact ⟨_, hfirst, hsame⟩
        | cons earlier before =>
          obtain ⟨rfl, -⟩ := cons.inj heq
          exact absurd (forall_mem_cons.mp hbefore).1 hwork

/-- Every header that the loop reaches is loaded with its hash and proof of work, and the loop fails
only on a header whose own proof of work does not hold. -/
theorem headers_survive_index {entries : List (Uint256 × CBlockIndex)}
    (hnull : ∀ entry ∈ entries, entry.1 ≠ 0)
    (hstorable : ∀ entry ∈ entries, Storable entry.1 entry.2)
    (hdistinct : (entries.map Prod.fst).Nodup) :
    (∀ block, (addToBlockIndex block).getBlockHeader = block) ∧
      ∃ map failure,
        loadBlockIndexGuts functions params powLimit (entries.map (record clientVersion)) ∅ =
          some (map, failure) ∧
        (failure = none ↔ ∀ entry ∈ entries,
          checkHeaderWork functions params powLimit entry.2.getBlockHeader = true) ∧
        ∀ before entry after, entries = before ++ entry :: after →
          (∀ earlier ∈ before,
            checkHeaderWork functions params powLimit earlier.2.getBlockHeader = true) →
          ∃ loaded, map[entry.1]? = some loaded ∧ SameHeader functions entry.2 loaded := by
  refine ⟨getBlockHeader_addToBlockIndex, ?_⟩
  obtain ⟨map, failure, hload, hfailure, -, hloaded⟩ := loadBlockIndexGuts_spec functions params
    powLimit clientVersion hnull hstorable hdistinct ∅
  exact ⟨map, failure, hload, hfailure, hloaded⟩

namespace Sample

def equihashIndex (length : Nat) : CBlockIndex :=
  { addToBlockIndex { Net.Sample.header 0x20000400 200 with
      nSolution := replicate length 1 } with nSealWeight := 30000 }

theorem storable_equihashIndex : Storable 7 (equihashIndex 1344) :=
  ⟨by decide, by decide +kernel, by decide +kernel, by decide +kernel, by decide +kernel,
    by decide +kernel, by decide +kernel⟩

end Sample

theorem headers_survive_index_equihash : ∃ map failure loaded,
    loadBlockIndexGuts Net.Sample.functions PowParams.main 0
      [record 0 (7, Sample.equihashIndex 1344)] ∅ = some (map, failure) ∧
      map[7]? = some loaded ∧
      loaded.getBlockHeader.nSolution = replicate 1344 1 ∧ loaded.nSealWeight = 20000 := by
  have hnull : ∀ entry ∈ [((7 : Uint256), Sample.equihashIndex 1344)], entry.1 ≠ 0 := by simp
  obtain ⟨-, map, failure, hload, -, hloaded⟩ := headers_survive_index Net.Sample.functions
    PowParams.main 0 0 hnull (by simpa using Sample.storable_equihashIndex) (by simp)
  obtain ⟨loaded, hfound, hsame⟩ := hloaded [] _ [] rfl (by simp)
  exact ⟨map, failure, loaded, hload, hfound, (hsame.equihash (by decide)).2, hsame.nSealWeight⟩

/-- A solution that is too long is written and not read, and a null hash has no entry. -/
theorem long_solution_not_loaded :
    (loadBlockIndexGuts Net.Sample.functions PowParams.main 0
      [record 0 (7, Sample.equihashIndex 1401)] ∅).map Prod.snd =
        some (some "failed to read value") ∧
    (loadBlockIndexGuts { Net.Sample.functions with hashX11 := fun _ => 0 } PowParams.main 0
      [record 0 (0, Sample.equihashIndex 1344)] ∅).map Prod.snd = none :=
  ⟨by decide +kernel, by decide +kernel⟩

end Kerrigan.Validation.DiskIndex
