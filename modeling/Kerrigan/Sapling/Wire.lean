import Kerrigan.Lib.Stream

/-!
# Shielded transactions as bytes

The descriptions of a shielded transaction with all their fields, the payload that carries them, and
its serialization.  Arrays have the lengths of the source.
-/

namespace Kerrigan.Sapling.Wire

open Lib

/-- An array of bytes of a fixed length. -/
abbrev Bytes (size : Nat) : Type := List.Vector UInt8 size

/-! ## Transactions -/

/-- A serialized script; its length is a 32-bit number. -/
structure CScript where
  bytes : List UInt8
  size : bytes.length < 2 ^ 32
  deriving DecidableEq

structure COutPoint where
  hash : Bytes 32
  n : UInt32
  deriving DecidableEq

structure CTxIn where
  prevout : COutPoint
  scriptSig : CScript
  nSequence : UInt32
  deriving DecidableEq

structure CTxOut where
  nValue : Int64
  scriptPubKey : CScript
  deriving DecidableEq

/-- A transaction with the widths of its fields. -/
structure CTransaction where
  nVersion : Int16
  nType : UInt16
  vin : List CTxIn
  vout : List CTxOut
  nLockTime : UInt32
  vExtraPayload : List UInt8 := []
  deriving DecidableEq

def COutPoint.serialize (outpoint : COutPoint) : List UInt8 :=
  outpoint.hash.toList ++ writeUInt32 outpoint.n

def CTxOut.serialize (txout : CTxOut) : List UInt8 :=
  writeInt64 txout.nValue ++ writeVector txout.scriptPubKey.bytes

/-! ## Descriptions -/

structure SaplingSpendDescription where
  cv : Bytes 32
  anchor : Bytes 32
  nullifier : Bytes 32
  rk : Bytes 32
  zkproof : Bytes 192
  spendAuthSig : Bytes 64
  deriving DecidableEq

structure SaplingOutputDescription where
  cv : Bytes 32
  cmu : Bytes 32
  ephemeralKey : Bytes 32
  encCiphertext : Bytes 580
  outCiphertext : Bytes 80
  zkproof : Bytes 192
  deriving DecidableEq

variable (output : SaplingOutputDescription) (spend : SaplingSpendDescription) (tx : CTransaction)

def SaplingSpendDescription.serialize : List UInt8 :=
  spend.cv.toList ++ (spend.anchor.toList ++ (spend.nullifier.toList ++ (spend.rk.toList ++
    (spend.zkproof.toList ++ spend.spendAuthSig.toList))))

def SaplingSpendDescription.unserialize : Reader SaplingSpendDescription := do
  let cv ← readFixed 32
  let anchor ← readFixed 32
  let nullifier ← readFixed 32
  let rk ← readFixed 32
  let zkproof ← readFixed 192
  let spendAuthSig ← readFixed 64
  pure { cv, anchor, nullifier, rk, zkproof, spendAuthSig }

def SaplingOutputDescription.serialize : List UInt8 :=
  output.cv.toList ++ (output.cmu.toList ++ (output.ephemeralKey.toList ++
    (output.encCiphertext.toList ++ (output.outCiphertext.toList ++ output.zkproof.toList))))

def SaplingOutputDescription.unserialize : Reader SaplingOutputDescription := do
  let cv ← readFixed 32
  let cmu ← readFixed 32
  let ephemeralKey ← readFixed 32
  let encCiphertext ← readFixed 580
  let outCiphertext ← readFixed 80
  let zkproof ← readFixed 192
  pure { cv, cmu, ephemeralKey, encCiphertext, outCiphertext, zkproof }

theorem reads_spendDescription :
    Reads SaplingSpendDescription.unserialize spend.serialize spend := by
  refine (reads_readFixed spend.cv).bind ?_
  refine (reads_readFixed spend.anchor).bind ?_
  refine (reads_readFixed spend.nullifier).bind ?_
  refine (reads_readFixed spend.rk).bind ?_
  refine (reads_readFixed spend.zkproof).bind ?_
  exact (reads_readFixed spend.spendAuthSig).map _

theorem reads_outputDescription :
    Reads SaplingOutputDescription.unserialize output.serialize output := by
  refine (reads_readFixed output.cv).bind ?_
  refine (reads_readFixed output.cmu).bind ?_
  refine (reads_readFixed output.ephemeralKey).bind ?_
  refine (reads_readFixed output.encCiphertext).bind ?_
  refine (reads_readFixed output.outCiphertext).bind ?_
  exact (reads_readFixed output.zkproof).map _

theorem canonical_spendDescription :
    Canonical SaplingSpendDescription.unserialize SaplingSpendDescription.serialize := by
  intro stream spend rest hrun
  obtain ⟨cv, _, hcv, hrun⟩ := run_bind_eq_ok hrun
  obtain ⟨anchor, _, hanchor, hrun⟩ := run_bind_eq_ok hrun
  obtain ⟨nullifier, _, hnullifier, hrun⟩ := run_bind_eq_ok hrun
  obtain ⟨rk, _, hrk, hrun⟩ := run_bind_eq_ok hrun
  obtain ⟨zkproof, _, hzkproof, hrun⟩ := run_bind_eq_ok hrun
  obtain ⟨spendAuthSig, _, hspendAuthSig, hrun⟩ := run_bind_eq_ok hrun
  cases hrun
  rw [canonical_readFixed hcv, canonical_readFixed hanchor, canonical_readFixed hnullifier,
    canonical_readFixed hrk, canonical_readFixed hzkproof, canonical_readFixed hspendAuthSig]
  simp only [SaplingSpendDescription.serialize, List.append_assoc]

theorem canonical_outputDescription :
    Canonical SaplingOutputDescription.unserialize SaplingOutputDescription.serialize := by
  intro stream output rest hrun
  obtain ⟨cv, _, hcv, hrun⟩ := run_bind_eq_ok hrun
  obtain ⟨cmu, _, hcmu, hrun⟩ := run_bind_eq_ok hrun
  obtain ⟨ephemeralKey, _, hephemeralKey, hrun⟩ := run_bind_eq_ok hrun
  obtain ⟨encCiphertext, _, hencCiphertext, hrun⟩ := run_bind_eq_ok hrun
  obtain ⟨outCiphertext, _, houtCiphertext, hrun⟩ := run_bind_eq_ok hrun
  obtain ⟨zkproof, _, hzkproof, hrun⟩ := run_bind_eq_ok hrun
  cases hrun
  rw [canonical_readFixed hcv, canonical_readFixed hcmu, canonical_readFixed hephemeralKey,
    canonical_readFixed hencCiphertext, canonical_readFixed houtCiphertext,
    canonical_readFixed hzkproof]
  simp only [SaplingOutputDescription.serialize, List.append_assoc]

/-! ## The payload -/

def saplingPayloadVersion : UInt16 := 1

def transactionSapling : UInt16 := 10

structure SaplingTxPayload where
  nVersion : UInt16 := saplingPayloadVersion
  vSpendDescriptions : List SaplingSpendDescription
  vOutputDescriptions : List SaplingOutputDescription
  valueBalance : Int64
  bindingSig : Bytes 64
  deriving DecidableEq

def maxDescriptions : Nat := 500

variable {payload : SaplingTxPayload}

namespace SaplingTxPayload

/-- `Serialize`; there is no result when an assertion on the numbers of descriptions fails. -/
def serialize (payload : SaplingTxPayload) : Option (List UInt8) :=
  if payload.vSpendDescriptions.length ≤ maxDescriptions ∧
      payload.vOutputDescriptions.length ≤ maxDescriptions then
    some (writeUInt16 payload.nVersion ++
      (writeElements SaplingSpendDescription.serialize payload.vSpendDescriptions ++
      (writeElements SaplingOutputDescription.serialize payload.vOutputDescriptions ++
      (writeInt64 payload.valueBalance ++ payload.bindingSig.toList))))
  else none

def unserialize : Reader SaplingTxPayload := do
  let nVersion ← readUInt16
  let vSpendDescriptions ← readLimitedElements maxDescriptions SaplingSpendDescription.unserialize
  let vOutputDescriptions ← readLimitedElements maxDescriptions SaplingOutputDescription.unserialize
  let valueBalance ← readInt64
  let bindingSig ← readFixed 64
  pure { nVersion, vSpendDescriptions, vOutputDescriptions, valueBalance, bindingSig }

theorem reads_unserialize {bytes : List UInt8} (hserialize : payload.serialize = some bytes) :
    Reads unserialize bytes payload := by
  obtain ⟨hcounts, hbytes⟩ := Option.ite_none_right_eq_some.mp hserialize
  injection hbytes with hbytes
  have hmax : maxDescriptions ≤ maxSize := by decide
  rw [← hbytes]
  refine (reads_readUInt16 payload.nVersion).bind ?_
  refine (reads_readLimitedElements (fun spend _ => reads_spendDescription spend) hcounts.1
    (hcounts.1.trans hmax)).bind ?_
  refine (reads_readLimitedElements (fun output _ => reads_outputDescription output) hcounts.2
    (hcounts.2.trans hmax)).bind ?_
  refine (reads_readInt64 payload.valueBalance).bind ?_
  exact (reads_readFixed payload.bindingSig).map _

/-- Whatever the decoder accepts is the serialization of its value. -/
theorem serialize_of_unserialize {stream rest : List UInt8}
    (hrun : unserialize.run stream = .ok (payload, rest)) :
    ∃ bytes, payload.serialize = some bytes ∧ stream = bytes ++ rest := by
  obtain ⟨nVersion, _, hnVersion, hrun⟩ := run_bind_eq_ok hrun
  obtain ⟨spends, _, hspends, hrun⟩ := run_bind_eq_ok hrun
  obtain ⟨outputs, _, houtputs, hrun⟩ := run_bind_eq_ok hrun
  obtain ⟨valueBalance, _, hvalueBalance, hrun⟩ := run_bind_eq_ok hrun
  obtain ⟨bindingSig, _, hbindingSig, hrun⟩ := run_bind_eq_ok hrun
  cases hrun
  obtain ⟨hspendCount, hspends⟩ := readLimitedElements_eq_ok canonical_spendDescription hspends
  obtain ⟨houtputCount, houtputs⟩ := readLimitedElements_eq_ok canonical_outputDescription houtputs
  refine ⟨_, if_pos ⟨hspendCount, houtputCount⟩, ?_⟩
  rw [canonical_readUInt16 hnVersion, hspends, houtputs, canonical_readInt64 hvalueBalance,
    canonical_readFixed hbindingSig]
  simp only [List.append_assoc]

/-- A payload within the limits is read back, accepted bytes are those of their payload, and a list
that is too long is refused at its length. -/
theorem codec_bijective :
    (∀ payload : SaplingTxPayload, payload.vSpendDescriptions.length ≤ maxDescriptions →
      payload.vOutputDescriptions.length ≤ maxDescriptions →
        ∃ bytes, payload.serialize = some bytes ∧ unserialize.run bytes = .ok (payload, [])) ∧
      (∀ bytes payload, unserialize.run bytes = .ok (payload, []) →
        payload.serialize = some bytes) ∧
      ∀ (nVersion : UInt16) (count : Nat), maxDescriptions < count → count < 2 ^ 64 →
        let failure := if count ≤ maxSize then "Vector length limit exceeded"
          else "ReadCompactSize(): size too large"
        (∀ rest, unserialize.run (writeUInt16 nVersion ++ (writeCompactSize count ++ rest)) =
          .error failure) ∧
        ∀ (spends : List SaplingSpendDescription) (rest : List UInt8),
          spends.length ≤ maxDescriptions →
            unserialize.run (writeUInt16 nVersion ++
              (writeElements SaplingSpendDescription.serialize spends ++
                (writeCompactSize count ++ rest))) = .error failure := by
  refine ⟨?_, ?_, ?_⟩
  · intro payload hspends houtputs
    obtain ⟨bytes, hserialize⟩ : ∃ bytes, payload.serialize = some bytes :=
      ⟨_, if_pos ⟨hspends, houtputs⟩⟩
    have hread := reads_unserialize hserialize []
    rw [List.append_nil] at hread
    exact ⟨_, hserialize, hread⟩
  · intro bytes payload hrun
    obtain ⟨written, hserialize, hbytes⟩ := serialize_of_unserialize hrun
    rw [hserialize, hbytes, List.append_nil]
  · intro nVersion count hcount hsize failure
    have hfails {α : Type} (element : Reader α) :=
      readLimitedElements_eq_error element hsize hcount
    refine ⟨fun rest => ?_, fun spends rest hspends => ?_⟩
    · unfold unserialize
      rw [(reads_readUInt16 nVersion).run_bind, StateT.run_bind, hfails]
      rfl
    · have hread := reads_readLimitedElements (fun spend _ => reads_spendDescription spend) hspends
        (hspends.trans (show maxDescriptions ≤ maxSize by decide))
      unfold unserialize
      rw [(reads_readUInt16 nVersion).run_bind, hread.run_bind, StateT.run_bind, hfails]
      rfl

end SaplingTxPayload

def setTxPayload (payload : SaplingTxPayload) : Option CTransaction :=
  payload.serialize.map (fun bytes => { tx with vExtraPayload := bytes })

def getTxPayload : Option SaplingTxPayload :=
  if tx.nType ≠ transactionSapling then none
  else
    match SaplingTxPayload.unserialize.run tx.vExtraPayload with
    | .ok (payload, []) => some payload
    | _ => none

theorem getTxPayload_setTxPayload {tx tx' : CTransaction} (htype : tx.nType = transactionSapling)
    (hset : setTxPayload tx payload = some tx') :
    getTxPayload tx' = some payload := by
  obtain ⟨bytes, hserialize, rfl⟩ := Option.map_eq_some_iff.mp hset
  have hread := SaplingTxPayload.reads_unserialize hserialize []
  rw [List.append_nil] at hread
  unfold getTxPayload
  rw [if_neg (not_not_intro htype), hread]

end Kerrigan.Sapling.Wire
