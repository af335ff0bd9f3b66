import Kerrigan.HMP.Seal
import Kerrigan.Sapling.Wire

/-!
# The coinbase payload as bytes

All the fields of `CCbTx`, their six versions and the wrapper that carries keys and signatures.  The
curve arithmetic belongs to a library and is a parameter: what is known of it is that its encodings
are read back and are never all zero.
-/

namespace Kerrigan.HMP.Payload

open Lib Sapling.Wire

/-! ## Keys and signatures -/

def zeros (size : Nat) : Bytes size := List.Vector.replicate size 0

/-- A group of the curve library, with the legacy scheme chosen by the flag.  `fromBytes` has no
result when the library throws. -/
structure BLSGroup (size : Nat) where
  Element : Type
  decEq : DecidableEq Element
  identity : Element
  serialize : Bool → Element → Bytes size
  fromBytes : Bool → Bytes size → Option Element
  fromBytes_serialize : ∀ legacy element, fromBytes legacy (serialize legacy element) = some element
  serialize_ne_zeros : ∀ legacy element, serialize legacy element ≠ zeros size

namespace BLSGroup

variable {size : Nat} (group : BLSGroup size) (legacy : Bool)

instance : DecidableEq group.Element := group.decEq

/-- `CBLSWrapper` without its cached hash; an object that is not valid is null. -/
abbrev Wrapper : Type := Option group.Element

def setBytes (bytes : Bytes size) : group.Wrapper :=
  if bytes = zeros size then none
  else (group.fromBytes legacy bytes).filter (fun element => element ≠ group.identity)

def toBytes : group.Wrapper → Bytes size
  | none => zeros size
  | some element => group.serialize legacy element

def unserialize : Reader group.Wrapper := do
  let bytes ← readFixed size
  let object := group.setBytes legacy bytes
  if group.toBytes legacy object = bytes then pure object
  else if group.toBytes (!legacy) (group.setBytes (!legacy) bytes) = bytes then pure none
  else throw "malleable BLS object"

def write (object : group.Wrapper) : List UInt8 := (group.toBytes legacy object).toList

variable {group}

theorem setBytes_toBytes {object : group.Wrapper} (hobject : object ≠ some group.identity) :
    group.setBytes legacy (group.toBytes legacy object) = object := by
  cases object with
  | none => exact if_pos rfl
  | some element =>
    have helement : element ≠ group.identity := fun heq => hobject (congrArg some heq)
    rw [setBytes, toBytes, if_neg (group.serialize_ne_zeros legacy element),
      group.fromBytes_serialize]
    simp [helement]

theorem reads_unserialize {object : group.Wrapper} (hobject : object ≠ some group.identity) :
    Reads (group.unserialize legacy) (group.write legacy object) object := by
  refine Reads.bind_last (reads_readFixed (group.toBytes legacy object)) ?_
  rw [setBytes_toBytes legacy hobject, if_pos rfl]
  exact Reads.pure object

end BLSGroup

/-! ## The payload -/

namespace Version

def merkleRootQuorums : UInt16 := 2
def clsigAndBalance : UInt16 := 3
def hmpSeal : UInt16 := 4
def hmpCommitment : UInt16 := 5
def hmpRearm : UInt16 := 6

end Version

def maxCommitments : Nat := 16

structure CCbTx (Key Sig : Type) where
  nVersion : UInt16 := Version.merkleRootQuorums
  nHeight : Int32 := 0
  merkleRootMNList : Bytes 32 := zeros 32
  merkleRootQuorums : Bytes 32 := zeros 32
  bestCLHeightDiff : UInt32 := 0
  bestCLSignature : Option Sig := none
  creditPoolBalance : Int64 := 0
  minerIdentity : Option Key := none
  sealForAncestor : Option Sig := none
  sealBlockHash : Bytes 32 := zeros 32
  vSealSigners : List (Option Key) := []
  vSealSignerAlgos : List UInt8 := []
  vCommitments : List (Option Key) := []
  vSealSignerVRFProofs : List (Option Sig) := []
  vCommitmentSigs : List (Option Sig) := []
  minerIdentitySig : Option Sig := none
  deriving DecidableEq

def readCompactUInt32 : Reader UInt32 := do
  let n ← readCompactSize
  ensure (n < 2 ^ 32) "CompactSize exceeds limit of type"
  pure (UInt32.ofNat n)

theorem reads_readCompactUInt32 {value : UInt32} (hsize : value.toNat ≤ maxSize) :
    Reads readCompactUInt32 (writeCompactSize value.toNat) value := by
  refine Reads.bind_last (reads_readCompactSize hsize) ?_
  refine (reads_ensure value.toNat_lt _).bind_nil ?_
  have hread := Reads.pure (UInt32.ofNat value.toNat)
  rw [UInt32.ofNat_toNat] at hread ⊢
  exact hread

namespace CCbTx

variable (keys : BLSGroup 48) (sigs : BLSGroup 96) (legacy : Bool)

/-- The fields of the version come with the payload.  The layouts are nested, so a field is there
from its own version on. -/
def serialize (tx : CCbTx keys.Element sigs.Element) : List UInt8 :=
  let since (version : UInt16) := writeOptional (version ≤ tx.nVersion)
  writeUInt16 tx.nVersion ++ (writeInt32 tx.nHeight ++ (tx.merkleRootMNList.toList ++
    (since Version.merkleRootQuorums tx.merkleRootQuorums.toList ++
    (since Version.clsigAndBalance (writeCompactSize tx.bestCLHeightDiff.toNat) ++
    (since Version.clsigAndBalance (sigs.write legacy tx.bestCLSignature) ++
    (since Version.clsigAndBalance (writeInt64 tx.creditPoolBalance) ++
    (since Version.hmpSeal (keys.write legacy tx.minerIdentity) ++
    (since Version.hmpSeal (sigs.write legacy tx.sealForAncestor) ++
    (since Version.hmpSeal tx.sealBlockHash.toList ++
    (since Version.hmpSeal (writeElements (keys.write legacy) tx.vSealSigners) ++
    (since Version.hmpSeal (writeVector tx.vSealSignerAlgos) ++
    (since Version.hmpCommitment (writeElements (keys.write legacy) tx.vCommitments) ++
    (since Version.hmpRearm (writeElements (sigs.write legacy) tx.vSealSignerVRFProofs) ++
    (since Version.hmpRearm (writeElements (sigs.write legacy) tx.vCommitmentSigs) ++
    since Version.hmpRearm (sigs.write legacy tx.minerIdentitySig)))))))))))))))

/-- Read into a new object, where the fields of later versions have their defaults. -/
def unserialize : Reader (CCbTx keys.Element sigs.Element) := do
  let nVersion ← readUInt16
  let nHeight ← readInt32
  let merkleRootMNList ← readFixed 32
  let merkleRootQuorums ←
    readOptional (Version.merkleRootQuorums ≤ nVersion) (readFixed 32) (zeros 32)
  let bestCLHeightDiff ← readOptional (Version.clsigAndBalance ≤ nVersion) readCompactUInt32 0
  let bestCLSignature ←
    readOptional (Version.clsigAndBalance ≤ nVersion) (sigs.unserialize legacy) none
  let creditPoolBalance ← readOptional (Version.clsigAndBalance ≤ nVersion) readInt64 0
  let minerIdentity ← readOptional (Version.hmpSeal ≤ nVersion) (keys.unserialize legacy) none
  let sealForAncestor ← readOptional (Version.hmpSeal ≤ nVersion) (sigs.unserialize legacy) none
  let sealBlockHash ← readOptional (Version.hmpSeal ≤ nVersion) (readFixed 32) (zeros 32)
  let vSealSigners ← readOptional (Version.hmpSeal ≤ nVersion)
    (readLimitedElements maxSealSigners (keys.unserialize legacy)) []
  let vSealSignerAlgos ← readOptional (Version.hmpSeal ≤ nVersion) (readVector maxSealSigners) []
  let vCommitments ← readOptional (Version.hmpCommitment ≤ nVersion)
    (readLimitedElements maxCommitments (keys.unserialize legacy)) []
  let vSealSignerVRFProofs ← readOptional (Version.hmpRearm ≤ nVersion)
    (readLimitedElements maxSealSigners (sigs.unserialize legacy)) []
  let vCommitmentSigs ← readOptional (Version.hmpRearm ≤ nVersion)
    (readLimitedElements maxCommitments (sigs.unserialize legacy)) []
  let minerIdentitySig ← readOptional (Version.hmpRearm ≤ nVersion) (sigs.unserialize legacy) none
  pure { nVersion, nHeight, merkleRootMNList, merkleRootQuorums, bestCLHeightDiff, bestCLSignature,
         creditPoolBalance, minerIdentity, sealForAncestor, sealBlockHash, vSealSigners,
         vSealSignerAlgos, vCommitments, vSealSignerVRFProofs, vCommitmentSigs, minerIdentitySig }

def atVersion {Key Sig : Type} (tx : CCbTx Key Sig) : CCbTx Key Sig :=
  let since {α : Type} (version : UInt16) (value absent : α) :=
    if decide (version ≤ tx.nVersion) = true then value else absent
  { nVersion := tx.nVersion
    nHeight := tx.nHeight
    merkleRootMNList := tx.merkleRootMNList
    merkleRootQuorums := since Version.merkleRootQuorums tx.merkleRootQuorums (zeros 32)
    bestCLHeightDiff := since Version.clsigAndBalance tx.bestCLHeightDiff 0
    bestCLSignature := since Version.clsigAndBalance tx.bestCLSignature none
    creditPoolBalance := since Version.clsigAndBalance tx.creditPoolBalance 0
    minerIdentity := since Version.hmpSeal tx.minerIdentity none
    sealForAncestor := since Version.hmpSeal tx.sealForAncestor none
    sealBlockHash := since Version.hmpSeal tx.sealBlockHash (zeros 32)
    vSealSigners := since Version.hmpSeal tx.vSealSigners []
    vSealSignerAlgos := since Version.hmpSeal tx.vSealSignerAlgos []
    vCommitments := since Version.hmpCommitment tx.vCommitments []
    vSealSignerVRFProofs := since Version.hmpRearm tx.vSealSignerVRFProofs []
    vCommitmentSigs := since Version.hmpRearm tx.vCommitmentSigs []
    minerIdentitySig := since Version.hmpRearm tx.minerIdentitySig none }

/-! ## The payload of the rules -/

section Rules

theorem atVersion_of_unserialize {keys : BLSGroup 48} {sigs : BLSGroup 96} {legacy : Bool}
    {stream rest : List UInt8} {tx : CCbTx keys.Element sigs.Element}
    (hrun : (unserialize keys sigs legacy).run stream = .ok (tx, rest)) : tx.atVersion = tx := by
  -- the three fields of every version, then the optional ones
  iterate 3 obtain ⟨_, _, -, hrun⟩ := run_bind_eq_ok hrun
  iterate 13 obtain ⟨_, _, hfield, hrun⟩ := run_readOptional_eq_ok hrun
  cases hrun
  simp only [atVersion, *]

variable {Key Sig : Type} (keyOf : Key → CBLSPublicKey) (sigOf : Sig → CBLSSignature)
  (hashOf : Bytes 32 → Primitives.Uint256) (tx : CCbTx Key Sig)

/-- The fields that the Hivemind rules read, where a null key or signature is 0. -/
def ruleFields : HMP.CCbTx where
  nVersion := tx.nVersion.toNat
  minerIdentity := tx.minerIdentity.elim 0 keyOf
  sealForAncestor := tx.sealForAncestor.elim 0 sigOf
  sealBlockHash := hashOf tx.sealBlockHash
  vSealSigners := tx.vSealSigners.map (fun key => key.elim 0 keyOf)
  vSealSignerAlgos := tx.vSealSignerAlgos.map UInt8.toNat
  vCommitments := tx.vCommitments.map (fun key => key.elim 0 keyOf)
  vSealSignerVRFProofs := tx.vSealSignerVRFProofs.map (fun sig => sig.elim 0 sigOf)
  vCommitmentSigs := tx.vCommitmentSigs.map (fun sig => sig.elim 0 sigOf)
  minerIdentitySig := tx.minerIdentitySig.elim 0 sigOf

theorem ruleFields_since {α β : Type} (field : α → β) (version : UInt16) (value absent : α) :
    field (if decide (version ≤ tx.nVersion) = true then value else absent) =
      (tx.ruleFields keyOf sigOf hashOf).since version.toNat (field value) (field absent) := by
  simp only [HMP.CCbTx.since, ruleFields, ← UInt16.le_iff_toNat_le]
  by_cases hsent : version ≤ tx.nVersion <;> simp [hsent]

/-- The rules see no field that comes after the version of the payload. -/
theorem ruleFields_atVersion (hnull : hashOf (zeros 32) = 0) :
    tx.atVersion.ruleFields keyOf sigOf hashOf =
      (tx.ruleFields keyOf sigOf hashOf).atVersion := by
  have hhash := ruleFields_since keyOf sigOf hashOf tx hashOf Version.hmpSeal tx.sealBlockHash
    (zeros 32)
  rw [hnull] at hhash
  refine HMP.CCbTx.ext rfl ?_ ?_ hhash ?_ ?_ ?_ ?_ ?_ ?_
  · exact ruleFields_since keyOf sigOf hashOf tx (Option.elim · 0 keyOf) _ _ none
  · exact ruleFields_since keyOf sigOf hashOf tx (Option.elim · 0 sigOf) _ _ none
  iterate 5 exact ruleFields_since keyOf sigOf hashOf tx (List.map _) _ _ []
  · exact ruleFields_since keyOf sigOf hashOf tx (Option.elim · 0 sigOf) _ _ none

/-- What is read of a payload is what the rules see of it. -/
theorem ruleFields_of_unserialize {keys : BLSGroup 48} {sigs : BLSGroup 96} {legacy : Bool}
    {keyOf : keys.Element → CBLSPublicKey} {sigOf : sigs.Element → CBLSSignature}
    {stream rest : List UInt8} {tx : CCbTx keys.Element sigs.Element}
    (hrun : (unserialize keys sigs legacy).run stream = .ok (tx, rest))
    (hnull : hashOf (zeros 32) = 0) :
    (tx.ruleFields keyOf sigOf hashOf).atVersion = tx.ruleFields keyOf sigOf hashOf := by
  rw [← ruleFields_atVersion keyOf sigOf hashOf tx hnull, atVersion_of_unserialize hrun]

end Rules

def VectorFits {size : Nat} (group : BLSGroup size) (limit : Nat)
    (objects : List group.Wrapper) : Prop :=
  objects.length ≤ limit ∧ ∀ object ∈ objects, object ≠ some group.identity

instance {size : Nat} (group : BLSGroup size) (limit : Nat) (objects : List group.Wrapper) :
    Decidable (VectorFits group limit objects) :=
  inferInstanceAs (Decidable (_ ∧ _))

/-- What the fields of the version must satisfy to be read back. -/
structure Fits (tx : CCbTx keys.Element sigs.Element) : Prop where
  chainlock : Version.clsigAndBalance ≤ tx.nVersion →
    tx.bestCLHeightDiff.toNat ≤ maxSize ∧ tx.bestCLSignature ≠ some sigs.identity
  miner : Version.hmpSeal ≤ tx.nVersion →
    tx.minerIdentity ≠ some keys.identity ∧ tx.sealForAncestor ≠ some sigs.identity
  signers : Version.hmpSeal ≤ tx.nVersion →
    VectorFits keys maxSealSigners tx.vSealSigners ∧ tx.vSealSignerAlgos.length ≤ maxSealSigners
  commitments : Version.hmpCommitment ≤ tx.nVersion →
    VectorFits keys maxCommitments tx.vCommitments
  proofs : Version.hmpRearm ≤ tx.nVersion →
    VectorFits sigs maxSealSigners tx.vSealSignerVRFProofs ∧
      VectorFits sigs maxCommitments tx.vCommitmentSigs ∧
      tx.minerIdentitySig ≠ some sigs.identity

variable {keys sigs}

theorem reads_vector {size : Nat} {group : BLSGroup size} {limit : Nat}
    {objects : List group.Wrapper} (hfits : VectorFits group limit objects)
    (hlimit : limit ≤ maxSize) :
    Reads (readLimitedElements limit (group.unserialize legacy))
      (writeElements (group.write legacy) objects) objects :=
  reads_readLimitedElements
    (fun object hmem => BLSGroup.reads_unserialize legacy (hfits.2 object hmem)) hfits.1
    (hfits.1.trans hlimit)

theorem reads_unserialize {tx : CCbTx keys.Element sigs.Element} (hfits : Fits keys sigs tx) :
    Reads (unserialize keys sigs legacy) (tx.serialize keys sigs legacy) tx.atVersion := by
  have hsigners : maxSealSigners ≤ maxSize := by decide
  have hcommitments : maxCommitments ≤ maxSize := by decide
  refine (reads_readUInt16 tx.nVersion).bind ?_
  refine (reads_readInt32 tx.nHeight).bind ?_
  refine (reads_readFixed tx.merkleRootMNList).bind ?_
  refine (reads_readOptional _ (fun _ => reads_readFixed _)).bind ?_
  refine (reads_readOptional _ (fun hsent =>
    reads_readCompactUInt32 (hfits.chainlock (of_decide_eq_true hsent)).1)).bind ?_
  refine (reads_readOptional _ (fun hsent =>
    BLSGroup.reads_unserialize legacy (hfits.chainlock (of_decide_eq_true hsent)).2)).bind ?_
  refine (reads_readOptional _ (fun _ => reads_readInt64 _)).bind ?_
  refine (reads_readOptional _ (fun hsent =>
    BLSGroup.reads_unserialize legacy (hfits.miner (of_decide_eq_true hsent)).1)).bind ?_
  refine (reads_readOptional _ (fun hsent =>
    BLSGroup.reads_unserialize legacy (hfits.miner (of_decide_eq_true hsent)).2)).bind ?_
  refine (reads_readOptional _ (fun _ => reads_readFixed _)).bind ?_
  refine (reads_readOptional _ (fun hsent =>
    reads_vector legacy (hfits.signers (of_decide_eq_true hsent)).1 hsigners)).bind ?_
  refine (reads_readOptional _ (fun hsent =>
    have hlimit := (hfits.signers (of_decide_eq_true hsent)).2
    reads_readVector hlimit (hlimit.trans hsigners))).bind ?_
  refine (reads_readOptional _ (fun hsent =>
    reads_vector legacy (hfits.commitments (of_decide_eq_true hsent)) hcommitments)).bind ?_
  refine (reads_readOptional _ (fun hsent =>
    reads_vector legacy (hfits.proofs (of_decide_eq_true hsent)).1 hsigners)).bind ?_
  refine (reads_readOptional _ (fun hsent =>
    reads_vector legacy (hfits.proofs (of_decide_eq_true hsent)).2.1 hcommitments)).bind ?_
  exact (reads_readOptional _ (fun hsent =>
    BLSGroup.reads_unserialize legacy (hfits.proofs (of_decide_eq_true hsent)).2.2)).map _

/-- A payload is read back to its last byte, and no other has the same bytes. -/
theorem payload_round_trip {tx : CCbTx keys.Element sigs.Element} (hfits : Fits keys sigs tx) :
    (unserialize keys sigs legacy).run (tx.serialize keys sigs legacy) = .ok (tx.atVersion, []) ∧
      ∀ other : CCbTx keys.Element sigs.Element, Fits keys sigs other →
        other.atVersion ≠ tx.atVersion →
          other.serialize keys sigs legacy ≠ tx.serialize keys sigs legacy := by
  have hread := reads_unserialize legacy hfits
  refine ⟨?_, ?_⟩
  · have hall := hread []
    rw [List.append_nil] at hall
    exact hall
  · intro other hother hdiffer hsame
    apply hdiffer
    exact ((reads_unserialize legacy hother).unique hread (congrArg (· ++ []) hsame)).1

namespace Sample

def group (size : Nat) : BLSGroup (size + 1) where
  Element := Bool
  decEq := inferInstance
  identity := false
  serialize := fun _ element => (if element then 1 else 0xc0) ::ᵥ zeros size
  fromBytes := fun _ bytes =>
    if bytes.head = 1 then some true else if bytes.head = 0xc0 then some false else none
  fromBytes_serialize := by
    intro _ element
    cases element <;> rfl
  serialize_ne_zeros := by
    intro _ element heq
    have hhead := congrArg List.Vector.head heq
    cases element <;> cases hhead

def rearmed : CCbTx (group 47).Element (group 95).Element where
  nVersion := Version.hmpRearm
  bestCLHeightDiff := 300
  minerIdentity := some true
  vSealSigners := [some true]
  vSealSignerAlgos := [2]
  vSealSignerVRFProofs := [some true]

end Sample

open CCbTx.Sample

theorem payload_round_trip_rearmed :
    (unserialize (group 47) (group 95) false).run
      (rearmed.serialize (group 47) (group 95) false) =
        .ok (rearmed.atVersion, []) :=
  (payload_round_trip false (show Fits (group 47) (group 95) rearmed from
    ⟨by decide, by decide, by decide, by decide, by decide⟩)).1

/-- A difference above the largest size and the identity as a key are written and not read. -/
theorem payload_not_read :
    (unserialize (group 47) (group 95) false).run
        (serialize (group 47) (group 95) false
          { nVersion := Version.clsigAndBalance, bestCLHeightDiff := 0x02000001 }) =
        .error "ReadCompactSize(): size too large" ∧
      (unserialize (group 47) (group 95) false).run
        (serialize (group 47) (group 95) false
          { nVersion := Version.hmpSeal, minerIdentity := some (group 47).identity }) =
        .error "malleable BLS object" :=
  ⟨by decide +kernel, by decide +kernel⟩

end CCbTx

end Kerrigan.HMP.Payload
