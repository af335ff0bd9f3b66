import Kerrigan.Lib.Recency
import Kerrigan.Lib.Stream
import Kerrigan.Pow.Header
import Mathlib.Data.List.Chain

/-!
# Compressed headers

A `headers2` message leaves out of each header what follows from the one before it: the hash of the
previous block, the time up to a small offset, the difficulty, and a version that was used
recently.  The sender and the receiver keep their own lists of recent versions.
-/

namespace Kerrigan.Net

open Primitives Lib Kerrigan.Pow Reads List

/-! ## The flags -/

structure CompressedHeaderBitField where
  versionOffset : Nat := 0
  prevBlockHash : Bool := false
  timestamp : Bool := false
  nbits : Bool := false
  hasEquihashFields : Bool := false
  hasKawpowFields : Bool := false
  deriving DecidableEq

namespace CompressedHeaderBitField

def toByte (bits : CompressedHeaderBitField) : UInt8 :=
  UInt8.ofNat (bits.versionOffset + 8 * bits.prevBlockHash.toNat + 16 * bits.timestamp.toNat +
    32 * bits.nbits.toNat + 64 * bits.hasEquihashFields.toNat + 128 * bits.hasKawpowFields.toNat)

def ofByte (byte : UInt8) : CompressedHeaderBitField where
  versionOffset := byte.toNat % 8
  prevBlockHash := byte.toNat.testBit 3
  timestamp := byte.toNat.testBit 4
  nbits := byte.toNat.testBit 5
  hasEquihashFields := byte.toNat.testBit 6
  hasKawpowFields := byte.toNat.testBit 7

theorem ofByte_toByte {bits : CompressedHeaderBitField} (hoffset : bits.versionOffset < 8) :
    ofByte bits.toByte = bits := by
  obtain ⟨offset, prevBlockHash, timestamp, nbits, equihash, kawpow⟩ := bits
  have hall : ∀ (offset : Fin 8) (prevBlockHash timestamp nbits equihash kawpow : Bool),
      ofByte (toByte ⟨offset, prevBlockHash, timestamp, nbits, equihash, kawpow⟩) =
        ⟨offset, prevBlockHash, timestamp, nbits, equihash, kawpow⟩ := by decide +kernel
  exact hall ⟨offset, hoffset⟩ prevBlockHash timestamp nbits equihash kawpow

end CompressedHeaderBitField

/-! ## Headers on the wire -/

structure CompressibleBlockHeader extends CBlockHeader where
  bitField : CompressedHeaderBitField := {}
  timeOffset : Int := 0

variable (nVersion : UInt32)

def versionAlgo : Option Algo :=
  CBlockHeader.getAlgo ⟨nVersion, 0, 0, 0, 0, 0, 0, 0, [], 0, 0, 0⟩

def isEquihashVersion : Bool := (versionAlgo nVersion).any Algo.isEquihash

def isKawpowVersion : Bool := versionAlgo nVersion == some .kawpow

theorem isEquihashVersion_of_isKawpowVersion {nVersion : UInt32}
    (hkawpow : isKawpowVersion nVersion = true) : isEquihashVersion nVersion = false := by
  rw [isEquihashVersion, beq_iff_eq.mp hkawpow]
  rfl

def onWire (header : CBlockHeader) : CBlockHeader :=
  let equihash := isEquihashVersion header.nVersion
  let kawpow := isKawpowVersion header.nVersion
  { header with
    nNonce := if equihash then 0 else header.nNonce
    hashReserved := if equihash then header.hashReserved else 0
    nNonce256 := if equihash then header.nNonce256 else 0
    nSolution := if equihash then header.nSolution else []
    nHeight := if kawpow then header.nHeight else 0
    nNonce64 := if kawpow then header.nNonce64 else 0
    mixHash := if kawpow then header.mixHash else 0 }

theorem hashInput_onWire (header : CBlockHeader) : (onWire header).hashInput = header.hashInput := by
  have halgo : (onWire header).getAlgo = versionAlgo header.nVersion := rfl
  unfold CBlockHeader.hashInput
  rw [halgo, show header.getAlgo = versionAlgo header.nVersion from rfl]
  cases hequihash : (versionAlgo header.nVersion).any Algo.isEquihash with
  | true => simp [onWire, isEquihashVersion, hequihash]
  | false => simp [onWire, isEquihashVersion, hequihash]

theorem getHash_onWire (functions : PowFunctions) (header : CBlockHeader) :
    functions.getHash (onWire header) = functions.getHash header := by
  rw [PowFunctions.getHash, hashInput_onWire]
  rfl

namespace CompressibleBlockHeader

def ofHeader (header : CBlockHeader) : CompressibleBlockHeader :=
  { header with
    bitField :=
      { prevBlockHash := true, timestamp := true, nbits := true
        hasEquihashFields := isEquihashVersion header.nVersion
        hasKawpowFields := isKawpowVersion header.nVersion } }

def serialize (header : CompressibleBlockHeader) : List UInt8 :=
  let bits := header.bitField
  let equihash := bits.hasEquihashFields
  let kawpow := !equihash && bits.hasKawpowFields
  [bits.toByte] ++
    (writeOptional (bits.versionOffset == 0) (writeUInt32 header.nVersion) ++
    (writeOptional bits.prevBlockHash (writeNumber 32 header.hashPrevBlock) ++
    (writeNumber 32 header.hashMerkleRoot ++
    (writeOptional equihash (writeNumber 32 header.hashReserved) ++
    (writeOptional bits.timestamp (writeUInt32 header.nTime) ++
    (writeOptional (!bits.timestamp) (writeInt16 header.timeOffset) ++
    (writeOptional bits.nbits (writeUInt32 header.nBits) ++
    (writeOptional equihash (writeNumber 32 header.nNonce256) ++
    (writeOptional equihash (writeVector header.nSolution) ++
    (writeOptional (!equihash) (writeUInt32 header.nNonce) ++
    (writeOptional kawpow (writeUInt32 header.nHeight) ++
    (writeOptional kawpow (writeUInt64 header.nNonce64) ++
    writeOptional kawpow (writeNumber 32 header.mixHash)))))))))))))

def FlagsFit (bits : CompressedHeaderBitField) (nVersion : UInt32) : Prop :=
  bits.hasEquihashFields = isEquihashVersion nVersion ∧
    bits.hasKawpowFields = isKawpowVersion nVersion

instance (bits : CompressedHeaderBitField) (nVersion : UInt32) :
    Decidable (FlagsFit bits nVersion) :=
  inferInstanceAs (Decidable (_ ∧ _))

def unserialize : Reader CompressibleBlockHeader := do
  let byte ← readByte
  let bits := CompressedHeaderBitField.ofByte byte
  let equihash := bits.hasEquihashFields
  let kawpow := !equihash && bits.hasKawpowFields
  let nVersion ← readOptional (bits.versionOffset == 0) readUInt32 0
  let hashPrevBlock ← readOptional bits.prevBlockHash (readNumber 32) 0
  let hashMerkleRoot ← readNumber 32
  ensure (¬ (bits.hasEquihashFields ∧ bits.hasKawpowFields))
    "contradictory algo flags in CompressibleBlockHeader"
  ensure (bits.versionOffset = 0 → FlagsFit bits nVersion)
    "algo flags inconsistent with nVersion"
  let hashReserved ← readOptional equihash (readNumber 32) 0
  let nTime ← readOptional bits.timestamp readUInt32 0
  let timeOffset ← readOptional (!bits.timestamp) readInt16 0
  let nBits ← readOptional bits.nbits readUInt32 0
  let nNonce256 ← readOptional equihash (readNumber 32) 0
  let nSolution ← readOptional equihash (readVector 1400) []
  let nNonce ← readOptional (!equihash) readUInt32 0
  let nHeight ← readOptional kawpow readUInt32 0
  let nNonce64 ← readOptional kawpow readUInt64 0
  let mixHash ← readOptional kawpow (readNumber 32) 0
  pure
    { nVersion, hashPrevBlock, hashMerkleRoot, nTime, nBits, nNonce, hashReserved, nNonce256
      nSolution, nHeight, nNonce64, mixHash, bitField := bits, timeOffset }

/-! ## Compression -/

/-- The versions that both sides remember. -/
def maxBackwardsLookUps : Nat := 7

def markAlgo (header : CompressibleBlockHeader) : CompressibleBlockHeader :=
  if isEquihashVersion header.nVersion then
    { header with bitField := { header.bitField with hasEquihashFields := true } }
  else if isKawpowVersion header.nVersion then
    { header with bitField := { header.bitField with hasKawpowFields := true } }
  else header

/-- `Compress` after the flags of the algorithm: the header as it is sent and the sender's recent
versions. -/
def compressMarked (header : CompressibleBlockHeader) (previous : List CompressibleBlockHeader)
    (versions : List UInt32) : CompressibleBlockHeader × List UInt32 :=
  match previous.getLast? with
  | none => (header, pushRecent maxBackwardsLookUps versions header.nVersion)
  | some last =>
      let found := versions.idxOf? header.nVersion
      let offset := found.elim header.bitField.versionOffset (fun index => (index + 1) % 8)
      let timeDiff : Int := (header.nTime - last.nTime).toNat
      let near := decide (-2 ^ 15 ≤ timeDiff ∧ timeDiff < 2 ^ 15)
      ({ header with
          bitField :=
            { header.bitField with
              versionOffset := offset
              prevBlockHash := false
              timestamp := header.bitField.timestamp && !near
              nbits := header.bitField.nbits && header.nBits != last.nBits }
          timeOffset := if near then timeDiff else header.timeOffset },
        found.elim (pushRecent maxBackwardsLookUps versions header.nVersion)
          (moveToFront versions))

def compress (header : CompressibleBlockHeader) (previous : List CompressibleBlockHeader)
    (versions : List UInt32) : CompressibleBlockHeader × List UInt32 :=
  header.markAlgo.compressMarked previous versions

def complete (functions : PowFunctions) (last : CBlockHeader) (header : CompressibleBlockHeader)
    (nVersion : UInt32) : CompressibleBlockHeader :=
  { header with
    nVersion := nVersion
    hashPrevBlock :=
      if header.bitField.prevBlockHash then header.hashPrevBlock else functions.getHash last
    nTime :=
      if header.bitField.timestamp then header.nTime
      else last.nTime + UInt32.ofNat (header.timeOffset % 2 ^ 32).toNat
    nBits := if header.bitField.nbits then header.nBits else last.nBits }

/-- `Uncompress`: the header and the receiver's recent versions, unless the version is out of
range. -/
def uncompress (functions : PowFunctions) (header : CompressibleBlockHeader)
    (previous : List CBlockHeader) (versions : List UInt32) :
    Option (CompressibleBlockHeader × List UInt32) :=
  match previous.getLast? with
  | none => some (header, pushRecent maxBackwardsLookUps versions header.nVersion)
  | some last =>
      let offset := header.bitField.versionOffset
      if offset = 0 then
        some (complete functions last header header.nVersion,
          pushRecent maxBackwardsLookUps versions header.nVersion)
      else
        match versions[offset - 1]? with
        | none => none
        | some nVersion =>
            some (complete functions last header nVersion, moveToFront versions (offset - 1))

end CompressibleBlockHeader

open CompressibleBlockHeader

/-! ## The two sides -/

structure HeadersSender where
  vHeaders : List CompressibleBlockHeader := []
  lastUniqueVersions : List UInt32 := []

open HeadersSender

variable (announces : Bool)

def HeadersSender.send (sender : HeadersSender) (header : CBlockHeader) :
    HeadersSender :=
  let compressible := ofHeader header
  let sent :=
    if announces || !sender.vHeaders.isEmpty then
      compressible.compress sender.vHeaders sender.lastUniqueVersions
    else (compressible, sender.lastUniqueVersions)
  ⟨sender.vHeaders ++ [sent.1], sent.2⟩

def HeadersSender.sendAll (headers : List CBlockHeader) : HeadersSender :=
  headers.foldl (send announces) {}

structure HeadersReceiver where
  headers : List CBlockHeader := []
  lastUniqueVersions : List UInt32 := []

def HeadersReceiver.receive (functions : PowFunctions) (receiver : HeadersReceiver) :
    Reader HeadersReceiver := do
  let compressed ← unserialize
  match compressed.uncompress functions receiver.headers receiver.lastUniqueVersions with
  | none => throw "headers2 invalid version_offset"
  | some (header, versions) => pure ⟨receiver.headers ++ [header.toCBlockHeader], versions⟩

def HeadersReceiver.receiveAll (functions : PowFunctions) : Nat → Reader HeadersReceiver
  | 0 => pure {}
  | count + 1 => do
      let receiver ← HeadersReceiver.receiveAll functions count
      receiver.receive functions

/-! ## What the bytes carry -/

namespace CompressibleBlockHeader

/-- The header as it stands after reading: what was not sent is null. -/
def asReceived (header : CompressibleBlockHeader) : CompressibleBlockHeader :=
  let bits := header.bitField
  let equihash := bits.hasEquihashFields
  let kawpow := !equihash && bits.hasKawpowFields
  { nVersion := if bits.versionOffset == 0 then header.nVersion else 0
    hashPrevBlock := if bits.prevBlockHash then header.hashPrevBlock else 0
    hashMerkleRoot := header.hashMerkleRoot
    nTime := if bits.timestamp then header.nTime else 0
    nBits := if bits.nbits then header.nBits else 0
    nNonce := if !equihash then header.nNonce else 0
    hashReserved := if equihash then header.hashReserved else 0
    nNonce256 := if equihash then header.nNonce256 else 0
    nSolution := if equihash then header.nSolution else []
    nHeight := if kawpow then header.nHeight else 0
    nNonce64 := if kawpow then header.nNonce64 else 0
    mixHash := if kawpow then header.mixHash else 0
    bitField := bits
    timeOffset := if !bits.timestamp then header.timeOffset else 0 }

/-- What every header that is sent satisfies: hashes and nonces have 256 bits, a solution is not
too long, and the flags fit the algorithm. -/
structure Sendable (header : CompressibleBlockHeader) : Prop where
  versionOffset : header.bitField.versionOffset < 8
  fits : FlagsFit header.bitField header.nVersion
  hashPrevBlock : header.hashPrevBlock < 256 ^ 32
  hashMerkleRoot : header.hashMerkleRoot < 256 ^ 32
  hashReserved : header.hashReserved < 256 ^ 32
  nNonce256 : header.nNonce256 < 256 ^ 32
  mixHash : header.mixHash < 256 ^ 32
  nSolution : header.nSolution.length ≤ 1400
  timeOffset : -2 ^ 15 ≤ header.timeOffset ∧ header.timeOffset < 2 ^ 15

theorem Sendable.exclusive {header : CompressibleBlockHeader} (hsendable : header.Sendable) :
    ¬ (header.bitField.hasEquihashFields ∧ header.bitField.hasKawpowFields) := by
  rintro ⟨hequihash, hkawpow⟩
  rw [hsendable.fits.1] at hequihash
  rw [hsendable.fits.2] at hkawpow
  rw [isEquihashVersion_of_isKawpowVersion hkawpow] at hequihash
  cases hequihash

variable {header : CompressibleBlockHeader}

theorem reads_unserialize (hsendable : header.Sendable) :
    Reads unserialize header.serialize header.asReceived := by
  have hmax : (1400 : Nat) ≤ maxSize := by decide
  have hbits := CompressedHeaderBitField.ofByte_toByte hsendable.versionOffset
  refine bind (reads_readByte _) ?_
  rw [hbits]
  refine bind (reads_readOptional 0 (fun _ => reads_readUInt32 header.nVersion)) ?_
  refine bind (reads_readOptional 0 (fun _ => reads_readNumber hsendable.hashPrevBlock)) ?_
  refine bind (reads_readNumber hsendable.hashMerkleRoot) ?_
  refine bind_nil (reads_ensure hsendable.exclusive _) ?_
  refine bind_nil (reads_ensure ?_ _) ?_
  · intro hzero
    rw [if_pos (beq_iff_eq.mpr hzero)]
    exact hsendable.fits
  refine bind (reads_readOptional 0 (fun _ => reads_readNumber hsendable.hashReserved)) ?_
  refine bind (reads_readOptional 0 (fun _ => reads_readUInt32 header.nTime)) ?_
  refine bind (reads_readOptional 0
    (fun _ => reads_readInt16 hsendable.timeOffset.1 hsendable.timeOffset.2)) ?_
  refine bind (reads_readOptional 0 (fun _ => reads_readUInt32 header.nBits)) ?_
  refine bind (reads_readOptional 0 (fun _ => reads_readNumber hsendable.nNonce256)) ?_
  refine bind (reads_readOptional []
    (fun _ => reads_readVector hsendable.nSolution (hsendable.nSolution.trans hmax))) ?_
  refine bind (reads_readOptional 0 (fun _ => reads_readUInt32 header.nNonce)) ?_
  refine bind (reads_readOptional 0 (fun _ => reads_readUInt32 header.nHeight)) ?_
  refine bind (reads_readOptional 0 (fun _ => reads_readUInt64 header.nNonce64)) ?_
  exact map _ (reads_readOptional 0 (fun _ => reads_readNumber hsendable.mixHash))

/-! ## Reconstruction -/

theorem completed_eq_onWire (hfits : FlagsFit header.bitField header.nVersion) :
    { header.asReceived.toCBlockHeader with
      nVersion := header.nVersion
      hashPrevBlock := header.hashPrevBlock
      nTime := header.nTime
      nBits := header.nBits } = onWire header.toCBlockHeader := by
  unfold asReceived onWire
  dsimp only
  rw [hfits.1, hfits.2]
  cases hkawpow : isKawpowVersion header.nVersion with
  | true =>
    rw [isEquihashVersion_of_isKawpowVersion hkawpow]
    rfl
  | false =>
    cases isEquihashVersion header.nVersion <;> rfl

theorem markAlgo_ofHeader (header : CBlockHeader) : (ofHeader header).markAlgo = ofHeader header := by
  unfold markAlgo ofHeader
  cases hkawpow : isKawpowVersion header.nVersion with
  | true =>
    rw [isEquihashVersion_of_isKawpowVersion hkawpow]
    rfl
  | false =>
    cases isEquihashVersion header.nVersion <;> rfl

theorem add_timeOffset (previous nTime : UInt32) :
    previous + UInt32.ofNat (((nTime - previous).toNat : Int) % 2 ^ 32).toNat = nTime := by
  have hlt := (nTime - previous).toNat_lt
  have hmod : (((nTime - previous).toNat : Int) % 2 ^ 32).toNat = (nTime - previous).toNat := by
    omega
  rw [hmod, UInt32.ofNat_toNat, UInt32.add_comm, UInt32.sub_add_cancel]

/-- What a header needs to be sent: its hashes and nonces have 256 bits, and its solution is not
too long. -/
structure WireHeader (header : CBlockHeader) : Prop where
  hashPrevBlock : header.hashPrevBlock < 2 ^ 256
  hashMerkleRoot : header.hashMerkleRoot < 2 ^ 256
  hashReserved : header.hashReserved < 2 ^ 256
  nNonce256 : header.nNonce256 < 2 ^ 256
  mixHash : header.mixHash < 2 ^ 256
  nSolution : header.nSolution.length ≤ 1400

theorem sendable_of_wireHeader {source : CBlockHeader} (hwire : WireHeader source)
    (hsource : header.toCBlockHeader = source)
    (hfits : FlagsFit header.bitField source.nVersion)
    (hoffset : header.bitField.versionOffset < 8)
    (htime : -2 ^ 15 ≤ header.timeOffset ∧ header.timeOffset < 2 ^ 15) : header.Sendable := by
  obtain rfl := hsource
  have hwidth : (2 : Nat) ^ 256 = 256 ^ 32 := by norm_num
  obtain ⟨hprev, hroot, hreserved, hnonce, hmix, hsolution⟩ := hwire
  exact ⟨hoffset, hfits, hprev, hroot, hreserved, hnonce, hmix, hsolution, htime⟩

theorem flagsFit_ofHeader (source : CBlockHeader) :
    FlagsFit (ofHeader source).bitField source.nVersion := ⟨rfl, rfl⟩

variable {functions : PowFunctions} {source : CBlockHeader} {sent received : List UInt32}

theorem compress_first (source : CBlockHeader) (versions : List UInt32) :
    (ofHeader source).compress [] versions =
      (ofHeader source, pushRecent maxBackwardsLookUps versions source.nVersion) := by
  unfold compress
  rw [markAlgo_ofHeader]
  rfl

theorem uncompress_first (functions : PowFunctions) (source : CBlockHeader)
    (versions : List UInt32) :
    ∃ header, (ofHeader source).asReceived.uncompress functions [] versions =
      some (header, pushRecent maxBackwardsLookUps versions source.nVersion) ∧
      header.toCBlockHeader = onWire source :=
  ⟨_, rfl, completed_eq_onWire (flagsFit_ofHeader source)⟩

/-- What a compressed header leaves out follows from the previous one. -/
structure Follows (functions : PowFunctions) (last : CBlockHeader)
    (header : CompressibleBlockHeader) : Prop where
  fits : FlagsFit header.bitField header.nVersion
  hashPrevBlock : functions.getHash last = header.hashPrevBlock
  nTime : header.bitField.timestamp = false →
    last.nTime + UInt32.ofNat (header.timeOffset % 2 ^ 32).toNat = header.nTime
  nBits : header.bitField.nbits = false → last.nBits = header.nBits

theorem Follows.complete {last : CBlockHeader} (hfollows : Follows functions last header) :
    (complete functions last header.asReceived header.nVersion).toCBlockHeader =
      onWire header.toCBlockHeader := by
  have hprev : (if header.bitField.prevBlockHash then header.asReceived.hashPrevBlock
      else functions.getHash last) = header.hashPrevBlock := by
    cases hsent : header.bitField.prevBlockHash with
    | true => simp [asReceived, hsent]
    | false => simpa using hfollows.hashPrevBlock
  have htime : (if header.bitField.timestamp then header.asReceived.nTime
      else last.nTime + UInt32.ofNat (header.asReceived.timeOffset % 2 ^ 32).toNat) =
        header.nTime := by
    cases hsent : header.bitField.timestamp with
    | true => simp [asReceived, hsent]
    | false => simpa [asReceived, hsent] using hfollows.nTime hsent
  have hbits : (if header.bitField.nbits then header.asReceived.nBits else last.nBits) =
      header.nBits := by
    cases hsent : header.bitField.nbits with
    | true => simp [asReceived, hsent]
    | false => simpa using hfollows.nBits hsent
  rw [← completed_eq_onWire hfollows.fits, ← hprev, ← htime, ← hbits]
  rfl

variable {previous : List CompressibleBlockHeader} {last : CompressibleBlockHeader}

/-- A compressed header keeps its fields, leaves out what follows from the previous one, and can be
sent. -/
theorem compress_follows (hlast : previous.getLast? = some last)
    (hlink : source.hashPrevBlock = functions.getHash last.toCBlockHeader) (versions : List UInt32) :
    let compressed := ((ofHeader source).compress previous versions).1
    compressed.toCBlockHeader = source ∧ Follows functions (onWire last.toCBlockHeader) compressed ∧
      (-2 ^ 15 ≤ compressed.timeOffset ∧ compressed.timeOffset < 2 ^ 15) := by
  dsimp only
  unfold compress
  rw [markAlgo_ofHeader]
  unfold compressMarked
  simp only [hlast]
  refine ⟨rfl, ⟨⟨rfl, rfl⟩, ?_, ?_, ?_⟩, ?_⟩
  · rw [getHash_onWire]
    exact hlink.symm
  · intro hsent
    have hnear : decide (-2 ^ 15 ≤ (((ofHeader source).nTime - last.nTime).toNat : Int) ∧
        (((ofHeader source).nTime - last.nTime).toNat : Int) < 2 ^ 15) = true := by
      simpa [ofHeader] using hsent
    rw [if_pos hnear]
    exact add_timeOffset last.nTime source.nTime
  · intro hsent
    have hsame : source.nBits = last.nBits := by simpa [ofHeader] using hsent
    exact hsame.symm
  · split
    · rename_i hnear
      exact of_decide_eq_true hnear
    · exact (by decide : -2 ^ 15 ≤ (0 : Int) ∧ (0 : Int) < 2 ^ 15)

theorem compress_versions (source : CBlockHeader) (hlast : previous.getLast? = some last)
    (versions : List UInt32) :
    ((ofHeader source).compress previous versions).1.bitField.versionOffset =
        (versions.idxOf? source.nVersion).elim 0 (fun index => (index + 1) % 8) ∧
      ((ofHeader source).compress previous versions).2 =
        (versions.idxOf? source.nVersion).elim
          (pushRecent maxBackwardsLookUps versions source.nVersion) (moveToFront versions) := by
  unfold compress
  rw [markAlgo_ofHeader]
  unfold compressMarked
  simp only [hlast]
  exact ⟨rfl, rfl⟩

theorem uncompress_compress {decoded : List CBlockHeader} (hlast : previous.getLast? = some last)
    (hdecoded : decoded.getLast? = some (onWire last.toCBlockHeader))
    (hlink : source.hashPrevBlock = functions.getHash last.toCBlockHeader)
    (hstep : InStep maxBackwardsLookUps sent received) :
    let compressed := (ofHeader source).compress previous sent
    compressed.1.bitField.versionOffset < 8 ∧
    ∃ header versions,
      compressed.1.asReceived.uncompress functions decoded received = some (header, versions) ∧
      header.toCBlockHeader = onWire source ∧
      InStep maxBackwardsLookUps compressed.2 versions := by
  obtain ⟨hsource, hfollows, -⟩ := compress_follows hlast hlink sent
  obtain ⟨hoffset, hversions⟩ := compress_versions source hlast sent
  have hcomplete := hfollows.complete
  dsimp only
  generalize (ofHeader source).compress previous sent = compressed at *
  have hnVersion : compressed.1.nVersion = source.nVersion :=
    congrArg CBlockHeader.nVersion hsource
  rw [hsource] at hcomplete
  have hbits : compressed.1.asReceived.bitField = compressed.1.bitField := rfl
  unfold uncompress
  rw [hversions]
  simp only [hdecoded, hbits]
  cases hfound : sent.idxOf? source.nVersion with
  | none =>
    rw [hfound, Option.elim_none] at hoffset
    have hreceived : compressed.1.asReceived.nVersion = source.nVersion := by
      unfold asReceived
      simp only [hoffset, hnVersion, beq_self_eq_true, if_true]
    rw [hoffset, if_pos rfl, hreceived]
    exact ⟨by omega, _, _, rfl, hcomplete, hstep.pushRecent source.nVersion⟩
  | some index =>
    have hentry : sent[index]? = some source.nVersion := by
      obtain ⟨hlt, hget, -⟩ := idxOf?_eq_some_iff.mp hfound
      rw [getElem?_eq_getElem hlt, hget]
    have hindex : index < 7 := by
      have hlt := (List.getElem?_eq_some_iff.mp hentry).1
      have hle := hstep.continues.length_le
      have hbounded := hstep.bounded
      unfold maxBackwardsLookUps at hbounded
      omega
    rw [hfound, Option.elim_some, Nat.mod_eq_of_lt (by omega)] at hoffset
    rw [hoffset, if_neg (Nat.succ_ne_zero index), Nat.add_sub_cancel, hstep.getElem? hentry]
    exact ⟨by omega, _, _, rfl, hcomplete, hstep.moveToFront hentry⟩

end CompressibleBlockHeader

/-! ## Messages -/

/-- Every header but the first names the hash of the one before it. -/
def LinkedHeaders (functions : PowFunctions) (headers : List CBlockHeader) : Prop :=
  headers.IsChain (fun previous next => next.hashPrevBlock = functions.getHash previous)

def HeadersSender.bytes (sender : HeadersSender) : List UInt8 :=
  sender.vHeaders.flatMap serialize

/-- The two sides after some headers: the sender has kept them, the receiver has what is on the
wire, and their versions are in step. -/
structure Synchronised (headers : List CBlockHeader) (sender : HeadersSender)
    (receiver : HeadersReceiver) : Prop where
  sent : sender.vHeaders.map toCBlockHeader = headers
  received : receiver.headers = headers.map onWire
  start : headers = [] → sender.lastUniqueVersions = []
  versions : InStep maxBackwardsLookUps sender.lastUniqueVersions
    receiver.lastUniqueVersions

section Messages

variable {functions : PowFunctions} {headers : List CBlockHeader} {sender : HeadersSender}
  {receiver : HeadersReceiver}

theorem reads_receive {compressed header : CompressibleBlockHeader} {versions : List UInt32}
    (hsendable : compressed.Sendable)
    (huncompress : compressed.asReceived.uncompress functions receiver.headers
      receiver.lastUniqueVersions = some (header, versions)) :
    Reads (receiver.receive functions) compressed.serialize
      ⟨receiver.headers ++ [header.toCBlockHeader], versions⟩ := by
  refine bind_last (reads_unserialize hsendable) ?_
  rw [huncompress]
  exact pure _

variable {next : CBlockHeader}

section

variable (hsync : Synchronised headers sender receiver)

include hsync

theorem Synchronised.send_first (hwire : WireHeader next) (hnone : sender.vHeaders = []) :
    ∃ compressed after, (sender.send announces next).vHeaders = sender.vHeaders ++ [compressed] ∧
      Reads (receiver.receive functions) compressed.serialize after ∧
      Synchronised (headers ++ [next]) (sender.send announces next) after := by
  obtain ⟨hsent, hreceived, hstart, hversions⟩ := hsync
  have hempty : headers = [] := by rw [← hsent, hnone, map_nil]
  have hdecoded : receiver.headers = [] := by rw [hreceived, hempty, map_nil]
  have hfirst := compress_first next sender.lastUniqueVersions
  obtain ⟨header, huncompress, hheader⟩ :=
    uncompress_first functions next receiver.lastUniqueVersions
  rw [← hdecoded] at huncompress
  have hsend : sender.send announces next =
      ⟨sender.vHeaders ++ [ofHeader next],
        if announces then pushRecent maxBackwardsLookUps sender.lastUniqueVersions next.nVersion
        else sender.lastUniqueVersions⟩ := by
    simp only [send, hnone, hfirst]
    cases announces <;> rfl
  have hsendable : (ofHeader next).Sendable :=
    sendable_of_wireHeader hwire rfl (flagsFit_ofHeader next) (Nat.succ_pos 7)
      (by decide : -2 ^ 15 ≤ (0 : Int) ∧ (0 : Int) < 2 ^ 15)
  rw [hsend]
  refine ⟨ofHeader next, _, rfl, reads_receive hsendable huncompress, ?_, ?_, ?_, ?_⟩
  · rw [map_append, hsent]
    rfl
  · rw [hreceived, hheader, map_append]
    rfl
  · intro hnil
    exact absurd hnil (append_ne_nil_of_right_ne_nil headers (cons_ne_nil next []))
  · cases announces with
    | true => exact hversions.pushRecent next.nVersion
    | false =>
      rw [hstart hempty]
      exact ⟨ nil_prefix, length_pushRecent_le hversions.bounded _⟩

theorem Synchronised.send_next (hwire : WireHeader next)
    (hlink : ∀ last ∈ headers.getLast?, next.hashPrevBlock = functions.getHash last)
    {last : CompressibleBlockHeader} (hlast : sender.vHeaders.getLast? = some last) :
    ∃ compressed after, (sender.send announces next).vHeaders = sender.vHeaders ++ [compressed] ∧
      Reads (receiver.receive functions) compressed.serialize after ∧
      Synchronised (headers ++ [next]) (sender.send announces next) after := by
  obtain ⟨hsent, hreceived, hstart, hversions⟩ := hsync
  have hsome : sender.vHeaders.isEmpty = false := by
    cases hheaders : sender.vHeaders with
    | nil => rw [hheaders] at hlast; cases hlast
    | cons first rest => rfl
  have hlastHeader : headers.getLast? = some last.toCBlockHeader := by
    rw [← hsent, getLast?_map, hlast]
    rfl
  have hdecoded : receiver.headers.getLast? = some (onWire last.toCBlockHeader) := by
    rw [hreceived, getLast?_map, hlastHeader]
    rfl
  have hlinked := hlink last.toCBlockHeader hlastHeader
  obtain ⟨hsource, hfollows, htime⟩ :=
    compress_follows hlast hlinked sender.lastUniqueVersions
  obtain ⟨hoffset, header, versions, huncompress, hheader, hstep⟩ :=
    uncompress_compress hlast hdecoded hlinked hversions
  have hsend : sender.send announces next =
      ⟨sender.vHeaders ++
        [((ofHeader next).compress sender.vHeaders sender.lastUniqueVersions).1],
        ((ofHeader next).compress sender.vHeaders sender.lastUniqueVersions).2⟩ := by
    unfold send
    rw [hsome]
    simp
  have hsendable := sendable_of_wireHeader hwire hsource
    (by rw [← congrArg CBlockHeader.nVersion hsource]; exact hfollows.fits) hoffset htime
  rw [hsend]
  refine ⟨_, _, rfl, reads_receive hsendable huncompress, ?_, ?_, ?_, hstep⟩
  · rw [map_append, hsent, map_cons, hsource, map_nil]
  · rw [hreceived, hheader, map_append]
    rfl
  · intro hnil
    exact absurd hnil (append_ne_nil_of_right_ne_nil headers (cons_ne_nil next []))

theorem Synchronised.send (hwire : WireHeader next)
    (hlink : ∀ last ∈ headers.getLast?, next.hashPrevBlock = functions.getHash last) :
    ∃ compressed after, (sender.send announces next).vHeaders = sender.vHeaders ++ [compressed] ∧
      Reads (receiver.receive functions) compressed.serialize after ∧
      Synchronised (headers ++ [next]) (sender.send announces next) after := by
  cases hlast : sender.vHeaders.getLast? with
  | none => exact hsync.send_first announces hwire (getLast?_eq_none_iff.mp hlast)
  | some last => exact hsync.send_next announces hwire hlink hlast

end

theorem synchronised_sendAll (hwire : ∀ header ∈ headers, WireHeader header)
    (hlinked : LinkedHeaders functions headers) :
    ∃ receiver, Reads (HeadersReceiver.receiveAll functions headers.length)
        (sendAll announces headers).bytes receiver ∧
      Synchronised headers (sendAll announces headers) receiver := by
  induction headers using reverseRecOn with
  | nil =>
    refine ⟨{}, pure _, rfl, rfl, fun _ => rfl, nil_prefix, Nat.zero_le _⟩
  | append_singleton headers next ih =>
    rw [forall_mem_append] at hwire
    obtain ⟨hbefore, -, hlink⟩ := isChain_append.mp hlinked
    obtain ⟨receiver, hreads, hsync⟩ := ih hwire.1 hbefore
    obtain ⟨compressed, after, hvHeaders, hreceive, hafter⟩ :=
      hsync.send announces (hwire.2 next mem_cons_self)
        (fun last hlast => hlink last hlast next rfl)
    have hsendAll : sendAll announces (headers ++ [next]) =
        (sendAll announces headers).send announces next := by
      rw [sendAll, foldl_append]
      rfl
    refine ⟨after, ?_, ?_⟩
    · rw [length_append, hsendAll, bytes, hvHeaders, flatMap_append,
        flatMap_cons, flatMap_nil, append_nil]
      exact hreads.bind hreceive
    · rw [hsendAll]
      exact hafter

/-- Every list of linked headers, sent as a reply or as an announcement, is read back with every
field that is serialized for the algorithm of the header, so with the same hashes; and every index
into the sender's versions means the same version to the receiver. -/
theorem compressed_headers_round_trip (functions : PowFunctions) (announces : Bool)
    (headers : List CBlockHeader) (hwire : ∀ header ∈ headers, WireHeader header)
    (hlinked : LinkedHeaders functions headers) :
    ∃ receiver, Reads (HeadersReceiver.receiveAll functions headers.length)
        (sendAll announces headers).bytes receiver ∧
      receiver.headers = headers.map onWire ∧
      receiver.headers.map functions.getHash = headers.map functions.getHash ∧
      ∀ (index : Nat) version,
        (sendAll announces headers).lastUniqueVersions[index]? = some version →
        receiver.lastUniqueVersions[index]? = some version := by
  obtain ⟨receiver, hreads, hsync⟩ := synchronised_sendAll announces hwire hlinked
  refine ⟨receiver, hreads, hsync.received, ?_, fun _ _ hversion => hsync.versions.getElem? hversion⟩
  rw [hsync.received, map_map]
  exact map_congr_left (fun header _ => getHash_onWire functions header)

end Messages

namespace Sample

def functions : PowFunctions where
  hashX11 := fun _ => 7
  sha256d := fun _ _ => 7
  ehIsValidSolution := fun _ _ => true
  hashNoVerify := fun _ _ _ _ => 7
  verify := fun _ _ _ _ => true

def header (nVersion nTime : UInt32) : CBlockHeader where
  nVersion := nVersion
  hashPrevBlock := 7
  hashMerkleRoot := nTime.toNat
  nTime := nTime
  nBits := 1
  nNonce := 5
  hashReserved := 0
  nNonce256 := 6
  nSolution := [1, 2, 3]
  nHeight := 8
  nNonce64 := 9
  mixHash := 10

/-- X11, KawPoW, X11 again with an earlier time, Equihash, KawPoW again much later. -/
def headers : List CBlockHeader :=
  [header 0x20000000 100, header 0x20000200 160, header 0x20000000 130, header 0x20000400 200,
    header 0x20000200 100000]

theorem wireHeader (nVersion nTime : UInt32) :
    WireHeader (header nVersion nTime) := by
  have hroot : nTime.toNat < 2 ^ 256 :=
    nTime.toNat_lt.trans_le (Nat.pow_le_pow_right (by decide) (by decide))
  exact ⟨by norm_num [header], hroot, by norm_num [header], by norm_num [header],
    by norm_num [header],
    (by decide : [(1 : UInt8), 2, 3].length ≤ 1400)⟩

end Sample

open Sample in
/-- A reply of five headers. The version of the first is not remembered, so the third sends it
again; the last sends the index of its version. -/
theorem compressed_headers_round_trip_reply :
    (∃ receiver, Reads (HeadersReceiver.receiveAll functions 5)
        (sendAll false headers).bytes receiver ∧
      receiver.headers = headers.map onWire ∧
      receiver.headers.map functions.getHash = headers.map functions.getHash ∧
      ∀ (index : Nat) version,
        (sendAll false headers).lastUniqueVersions[index]? = some version →
        receiver.lastUniqueVersions[index]? = some version) ∧
      (sendAll false headers).vHeaders.map
        (fun sent => sent.bitField.versionOffset) = [0, 0, 0, 0, 3] := by
  refine ⟨compressed_headers_round_trip functions false headers ?_ ?_, by decide +kernel⟩
  · intro sent hsent
    simp only [headers, mem_cons, not_mem_nil, or_false] at hsent
    rcases hsent with rfl | rfl | rfl | rfl | rfl <;> exact wireHeader _ _
  · unfold LinkedHeaders headers
    decide

end Kerrigan.Net
