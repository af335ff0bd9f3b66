import Kerrigan.Sapling.Check
import Kerrigan.Sapling.Wire

/-!
# The hash that the signatures of a shielded transaction sign

`ComputeSaplingSighash`, which the verifier uses, and `SaplingTransactionBuilder::Build`, which computes
the hash by itself from the bundle before it is signed.  The double hash is a parameter, and so are the
functions of the bundle library.
-/

namespace Kerrigan.Sapling.Wire

open Lib SaplingOutputDescription SaplingSpendDescription List List.Vector CTxIn

/-! ## The verifier -/

def SaplingSpendDescription.signedPart (spend : SaplingSpendDescription) : List UInt8 :=
  spend.cv.toList ++ (spend.anchor.toList ++ (spend.nullifier.toList ++
    (spend.rk.toList ++ spend.zkproof.toList)))

def prevoutsMessage (vin : List CTxIn) : List UInt8 :=
  vin.flatMap (fun txin => txin.prevout.serialize)

def sequenceMessage (vin : List CTxIn) : List UInt8 :=
  vin.flatMap (fun txin => writeUInt32 txin.nSequence)

def outputsMessage (vout : List CTxOut) : List UInt8 := vout.flatMap CTxOut.serialize

def shieldedSpendsMessage (spends : List SaplingSpendDescription) : List UInt8 :=
  spends.flatMap signedPart

def shieldedOutputsMessage (outputs : List SaplingOutputDescription) : List UInt8 :=
  outputs.flatMap SaplingOutputDescription.serialize

def sighashMessage (nVersion : Int16) (hashPrevouts hashSequence hashOutputs : Bytes 32)
    (nLockTime : UInt32) (nType payloadVersion : UInt16)
    (hashShieldedSpends hashShieldedOutputs : Bytes 32) (valueBalance : Int64) : List UInt8 :=
  writeInt16 nVersion.toInt ++ (hashPrevouts.toList ++ (hashSequence.toList ++ (hashOutputs.toList ++
    (writeUInt32 nLockTime ++ (writeUInt16 nType ++ (writeUInt16 payloadVersion ++
    (hashShieldedSpends.toList ++ (hashShieldedOutputs.toList ++ writeInt64 valueBalance))))))))

variable (hash : List UInt8 → Bytes 32)

def computeSaplingSighash (tx : CTransaction) (payload : SaplingTxPayload) : Bytes 32 :=
  hash (sighashMessage tx.nVersion (hash (prevoutsMessage tx.vin)) (hash (sequenceMessage tx.vin))
    (hash (outputsMessage tx.vout)) tx.nLockTime tx.nType payload.nVersion
    (hash (shieldedSpendsMessage payload.vSpendDescriptions))
    (hash (shieldedOutputsMessage payload.vOutputDescriptions)) payload.valueBalance)

/-! ## Bundles -/

/-- A spend of a bundle that is proven and not yet signed. -/
structure UnauthorizedSpend where
  cv : Bytes 32
  anchor : Bytes 32
  nullifier : Bytes 32
  rk : Bytes 32
  zkproof : Bytes 192
  deriving DecidableEq

open UnauthorizedSpend

def SaplingSpendDescription.unsigned (spend : SaplingSpendDescription) : UnauthorizedSpend where
  cv := spend.cv
  anchor := spend.anchor
  nullifier := spend.nullifier
  rk := spend.rk
  zkproof := spend.zkproof

structure UnauthorizedBundle where
  shieldedSpends : List UnauthorizedSpend
  shieldedOutputs : List SaplingOutputDescription
  valueBalance : Int64

structure AuthorizedBundle where
  shieldedSpends : List SaplingSpendDescription
  shieldedOutputs : List SaplingOutputDescription
  valueBalance : Int64
  bindingSig : Bytes 64

structure SaplingUnauthorizedBundle where
  bundle : Option UnauthorizedBundle

namespace SaplingUnauthorizedBundle

variable (unauth : SaplingUnauthorizedBundle)

def numSpends : Nat := (unauth.bundle.map (·.shieldedSpends.length)).getD 0

def numOutputs : Nat := (unauth.bundle.map (·.shieldedOutputs.length)).getD 0

def valueBalanceZat : Int64 := (unauth.bundle.map (·.valueBalance)).getD 0

def spendField {size : Nat} (field : UnauthorizedSpend → Bytes size) (i : Nat) :
    Except String (Bytes size) :=
  match unauth.bundle.bind (·.shieldedSpends[i]?) with
  | some spend => .ok (field spend)
  | none => .error s!"spend index {i} out of bounds"

variable (i : Nat)

def spendCv : Except String (Bytes 32) := unauth.spendField cv i

def spendAnchor : Except String (Bytes 32) := unauth.spendField anchor i

def spendNullifier : Except String (Bytes 32) :=
  unauth.spendField nullifier i

def spendRk : Except String (Bytes 32) := unauth.spendField rk i

def spendZkproof : Except String (Bytes 192) :=
  unauth.spendField zkproof i

def outputField {size : Nat} (field : SaplingOutputDescription → Bytes size) (i : Nat) :
    Except String (Bytes size) :=
  match unauth.bundle.bind (·.shieldedOutputs[i]?) with
  | some output => .ok (field output)
  | none => .error s!"output index {i} out of bounds"

def outputCv : Except String (Bytes 32) :=
  unauth.outputField cv i

def outputCmu : Except String (Bytes 32) :=
  unauth.outputField cmu i

def outputEphemeralKey : Except String (Bytes 32) :=
  unauth.outputField ephemeralKey i

def outputEncCiphertext : Except String (Bytes 580) :=
  unauth.outputField encCiphertext i

def outputOutCiphertext : Except String (Bytes 80) :=
  unauth.outputField outCiphertext i

def outputZkproof : Except String (Bytes 192) :=
  unauth.outputField zkproof i

end SaplingUnauthorizedBundle

open SaplingUnauthorizedBundle

structure BundleFunctions (Added : Type) where
  build : Added → Except String (Option UnauthorizedBundle)
  applySignatures : UnauthorizedBundle → Bytes 32 → Except String AuthorizedBundle

/-- Signing adds signatures and changes nothing else. -/
structure BundleFunctions.Documented {Added : Type} (functions : BundleFunctions Added) : Prop where
  spends : ∀ bundle sighash signed, functions.applySignatures bundle sighash = .ok signed →
    signed.shieldedSpends.map unsigned = bundle.shieldedSpends
  outputs : ∀ bundle sighash signed, functions.applySignatures bundle sighash = .ok signed →
    signed.shieldedOutputs = bundle.shieldedOutputs
  valueBalance : ∀ bundle sighash signed, functions.applySignatures bundle sighash = .ok signed →
    signed.valueBalance = bundle.valueBalance

variable {Added : Type}

def buildBundle (functions : BundleFunctions Added) (added : Added) :
    Except String SaplingUnauthorizedBundle := do
  let bundle ← (functions.build added).mapError ("Failed to build Sapling bundle: " ++ ·)
  return ⟨bundle⟩

def applyBundleSignatures (functions : BundleFunctions Added) (unauth : SaplingUnauthorizedBundle)
    (sighash : Bytes 32) :
    Except String (Option AuthorizedBundle) :=
  match unauth.bundle with
  | none => .ok none
  | some bundle => do
      let authorized ← (functions.applySignatures bundle sighash).mapError
        ("Failed to apply signatures to Sapling bundle: " ++ ·)
      return some authorized

/-! ## The builder -/

structure BuilderImpl (Added : Type) where
  params : SaplingParams
  nHeight : Int
  vin : List CTxIn
  vout : List CTxOut
  rustBuilder : Added
  numSpends : Nat
  numOutputs : Nat

/-- How a build ends without a transaction: with an error text, or in a failed assertion. -/
inductive BuildStop
  | failed (error : String)
  | aborted
  deriving DecidableEq

def reported {α : Type} (step : String) (outcome : Except String α) : Except BuildStop α :=
  outcome.mapError (fun error => .failed (step ++ error))

def writeSpend (unauth : SaplingUnauthorizedBundle) (si : Nat) : Except String (List UInt8) := do
  let cv ← unauth.spendCv si
  let anchor ← unauth.spendAnchor si
  let nf ← unauth.spendNullifier si
  let rk ← unauth.spendRk si
  let zkproof ← unauth.spendZkproof si
  return cv.toList ++ (anchor.toList ++ (nf.toList ++ (rk.toList ++ zkproof.toList)))

def writeSpends (unauth : SaplingUnauthorizedBundle) : Except String (List UInt8) := do
  let written ← (range unauth.numSpends).mapM (writeSpend unauth)
  return written.flatten

def writeOutput (unauth : SaplingUnauthorizedBundle) (oi : Nat) : Except String (List UInt8) := do
  let cv ← unauth.outputCv oi
  let cmu ← unauth.outputCmu oi
  let ephKey ← unauth.outputEphemeralKey oi
  let encCT ← unauth.outputEncCiphertext oi
  let outCT ← unauth.outputOutCiphertext oi
  let zkproof ← unauth.outputZkproof oi
  return cv.toList ++ (cmu.toList ++ (ephKey.toList ++ (encCT.toList ++
    (outCT.toList ++ zkproof.toList))))

def writeOutputs (unauth : SaplingUnauthorizedBundle) : Except String (List UInt8) := do
  let written ← (range unauth.numOutputs).mapM (writeOutput unauth)
  return written.flatten

def builderSighash (mtx : CTransaction) (unauth : SaplingUnauthorizedBundle) :
    Except String (Bytes 32) := do
  let prevouts := mtx.vin.flatMap (fun txin => txin.prevout.serialize)
  let sequences := mtx.vin.flatMap (fun txin => writeUInt32 txin.nSequence)
  let outputs := mtx.vout.flatMap CTxOut.serialize
  let shieldedSpends ← writeSpends unauth
  let shieldedOutputs ← writeOutputs unauth
  return hash (sighashMessage mtx.nVersion (hash prevouts) (hash sequences) (hash outputs)
    mtx.nLockTime mtx.nType saplingPayloadVersion (hash shieldedSpends) (hash shieldedOutputs)
    unauth.valueBalanceZat)

def transparentPart (impl : BuilderImpl Added) : CTransaction where
  nVersion := 3
  nType := transactionSapling
  nLockTime := 0
  vin := impl.vin
  vout := impl.vout

def signedPayload (bundle : AuthorizedBundle) : SaplingTxPayload where
  nVersion := saplingPayloadVersion
  valueBalance := bundle.valueBalance
  bindingSig := bundle.bindingSig
  vSpendDescriptions := bundle.shieldedSpends
  vOutputDescriptions := bundle.shieldedOutputs

def buildSigned (functions : BundleFunctions Added) (builder : Option (BuilderImpl Added)) :
    Except BuildStop (CTransaction × Bytes 32) := do
  match builder with
  | none => .error (.failed "Build() already called on this builder")
  | some impl => do
      require (impl.params.IsSaplingActive impl.nHeight)
        (.failed ("Sapling not active at height " ++ toString impl.nHeight))
      require (¬ (impl.numSpends = 0 ∧ impl.numOutputs = 0)) (.failed "No shielded spends or outputs")
      let unauth ← reported "build_bundle: " (buildBundle functions impl.rustBuilder)
      let mtx := transparentPart impl
      let sighash ← reported "sighash_shielded: " (builderSighash hash mtx unauth)
      let auth ← reported "apply_bundle_signatures: "
        (applyBundleSignatures functions unauth sighash)
      match auth with
      | none => .error (.failed "binding_sig: Bundle has no actions (empty bundle)")
      | some bundle =>
          match setTxPayload mtx (signedPayload bundle) with
          | none => .error .aborted
          | some tx => .ok (tx, sighash)

def build (functions : BundleFunctions Added) (builder : Option (BuilderImpl Added)) :
    Except BuildStop CTransaction × Option (BuilderImpl Added) :=
  (Prod.fst <$> buildSigned hash functions builder, none)

/-! ## The two hashes are one -/

def UnauthorizedSpend.message (spend : UnauthorizedSpend) : List UInt8 :=
  spend.cv.toList ++ (spend.anchor.toList ++ (spend.nullifier.toList ++
    (spend.rk.toList ++ spend.zkproof.toList)))

theorem writeSpends_eq (bundle : UnauthorizedBundle) :
    writeSpends ⟨some bundle⟩ = .ok (bundle.shieldedSpends.flatMap message) := by
  have hround : ∀ index spend, bundle.shieldedSpends[index]? = some spend →
      writeSpend ⟨some bundle⟩ index = .ok spend.message := by
    intro index spend hspend
    have hfield : ∀ {size : Nat} (field : UnauthorizedSpend → Bytes size),
        spendField ⟨some bundle⟩ field index = .ok (field spend) := by
      intro size field
      simp [spendField, hspend]
    simp only [writeSpend, spendCv, spendAnchor,
      spendNullifier, spendRk,
      spendZkproof, hfield]
    rfl
  have hwritten : (range (numSpends ⟨some bundle⟩)).mapM
      (writeSpend ⟨some bundle⟩) = .ok (bundle.shieldedSpends.map message) :=
    mapM_range_eq_ok hround
  rw [writeSpends, hwritten, flatMap_def]
  rfl

theorem writeOutputs_eq (bundle : UnauthorizedBundle) :
    writeOutputs ⟨some bundle⟩ = .ok (shieldedOutputsMessage bundle.shieldedOutputs) := by
  have hround : ∀ index output, bundle.shieldedOutputs[index]? = some output →
      writeOutput ⟨some bundle⟩ index = .ok output.serialize := by
    intro index output houtput
    have hfield : ∀ {size : Nat} (field : SaplingOutputDescription → Bytes size),
        outputField ⟨some bundle⟩ field index = .ok (field output) := by
      intro size field
      simp [outputField, houtput]
    simp only [writeOutput, outputCv, outputCmu,
      outputEphemeralKey, outputEncCiphertext,
      outputOutCiphertext, outputZkproof, hfield]
    rfl
  have hwritten : (range (numOutputs ⟨some bundle⟩)).mapM
      (writeOutput ⟨some bundle⟩) =
        .ok (bundle.shieldedOutputs.map SaplingOutputDescription.serialize) :=
    mapM_range_eq_ok hround
  rw [writeOutputs, hwritten, shieldedOutputsMessage, flatMap_def]
  rfl

theorem shieldedSpendsMessage_eq (spends : List SaplingSpendDescription) :
    shieldedSpendsMessage spends =
      (spends.map unsigned).flatMap message := by
  rw [flatMap_map]
  rfl

/-- A transaction that is built carries its payload, and the hash that was signed is the verifier's. -/
theorem computeSaplingSighash_of_buildSigned {hash : List UInt8 → Bytes 32}
    {functions : BundleFunctions Added} (hfunctions : functions.Documented)
    {builder : Option (BuilderImpl Added)} {tx : CTransaction} {sighash : Bytes 32}
    (hbuild : buildSigned hash functions builder = .ok (tx, sighash)) :
    ∃ bundle authorized, getTxPayload tx = some (signedPayload authorized) ∧
      functions.applySignatures bundle sighash = .ok authorized ∧
      sighash = computeSaplingSighash hash tx (signedPayload authorized) := by
  cases builder with
  | none => cases hbuild
  | some impl =>
    unfold buildSigned at hbuild
    simp only [bind_eq_ok_iff, reported, mapError_eq_ok_iff] at hbuild
    obtain ⟨-, -, -, -, unauth, -, signed, hsighash, auth, hauth, hrest⟩ := hbuild
    cases hbundle : unauth.bundle with
    | none =>
      simp only [applyBundleSignatures, hbundle] at hauth
      cases hauth
      cases hrest
    | some bundle =>
      obtain rfl : unauth = ⟨some bundle⟩ := by
        rw [← hbundle]
      simp only [applyBundleSignatures, bind_eq_ok_iff, mapError_eq_ok_iff] at hauth
      obtain ⟨authorized, happly, hsome⟩ := hauth
      cases hsome
      simp only [builderSighash, writeSpends_eq, writeOutputs_eq] at hsighash
      cases hsighash
      cases hset : setTxPayload (transparentPart impl) (signedPayload authorized) with
      | none =>
        simp only [hset] at hrest
        cases hrest
      | some built =>
        simp only [hset] at hrest
        cases hrest
        refine ⟨bundle, authorized, getTxPayload_setTxPayload rfl hset, happly, ?_⟩
        obtain ⟨bytes, -, rfl⟩ := Option.map_eq_some_iff.mp hset
        have hspends : shieldedSpendsMessage (signedPayload authorized).vSpendDescriptions =
            bundle.shieldedSpends.flatMap message := by
          rw [shieldedSpendsMessage_eq, ← hfunctions.spends _ _ _ happly]
          rfl
        have houtputs : (signedPayload authorized).vOutputDescriptions =
            bundle.shieldedOutputs := hfunctions.outputs _ _ _ happly
        have hbalance : (signedPayload authorized).valueBalance = bundle.valueBalance :=
          hfunctions.valueBalance _ _ _ happly
        unfold computeSaplingSighash
        rw [hspends, houtputs, hbalance]
        rfl

/-! ## What the hash determines -/

def hashedMessages (tx : CTransaction) (payload : SaplingTxPayload) : List (List UInt8) :=
  [prevoutsMessage tx.vin, sequenceMessage tx.vin, outputsMessage tx.vout,
    shieldedSpendsMessage payload.vSpendDescriptions,
    shieldedOutputsMessage payload.vOutputDescriptions,
    sighashMessage tx.nVersion (hash (prevoutsMessage tx.vin)) (hash (sequenceMessage tx.vin))
      (hash (outputsMessage tx.vout)) tx.nLockTime tx.nType payload.nVersion
      (hash (shieldedSpendsMessage payload.vSpendDescriptions))
      (hash (shieldedOutputsMessage payload.vOutputDescriptions)) payload.valueBalance]

def CollisionFree (messages messages' : List (List UInt8)) : Prop :=
  ∀ message ∈ messages, ∀ message' ∈ messages', hash message = hash message' → message = message'

/-- Two transactions with their payloads agree on everything but scriptSigs and signatures. -/
structure SighashAgrees (tx : CTransaction) (payload : SaplingTxPayload) (tx' : CTransaction)
    (payload' : SaplingTxPayload) : Prop where
  nVersion : tx.nVersion = tx'.nVersion
  nType : tx.nType = tx'.nType
  nLockTime : tx.nLockTime = tx'.nLockTime
  prevouts : tx.vin.map prevout = tx'.vin.map prevout
  sequences : tx.vin.map nSequence = tx'.vin.map nSequence
  outputs : tx.vout = tx'.vout
  payloadVersion : payload.nVersion = payload'.nVersion
  valueBalance : payload.valueBalance = payload'.valueBalance
  spends : payload.vSpendDescriptions.map unsigned =
    payload'.vSpendDescriptions.map unsigned
  shieldedOutputs : payload.vOutputDescriptions = payload'.vOutputDescriptions

theorem prevouts_of_message {vin vin' : List CTxIn}
    (hsame : prevoutsMessage vin = prevoutsMessage vin') :
    vin.map prevout = vin'.map prevout := by
  have hreads : ∀ txin : CTxIn, Reads (do
      let hash ← readFixed 32
      let n ← readUInt32
      pure (⟨hash, n⟩ : COutPoint)) txin.prevout.serialize txin.prevout := fun txin =>
    (reads_readFixed txin.prevout.hash).bind ((reads_readUInt32 txin.prevout.n).map _)
  exact map_eq_of_flatMap_eq hreads rfl hsame

theorem sequences_of_message {vin vin' : List CTxIn}
    (hsame : sequenceMessage vin = sequenceMessage vin') :
    vin.map nSequence = vin'.map nSequence :=
  map_eq_of_flatMap_eq (fun txin : CTxIn => reads_readUInt32 txin.nSequence) rfl hsame

theorem outputs_of_message {vout vout' : List CTxOut}
    (hsame : outputsMessage vout = outputsMessage vout') : vout = vout' := by
  let parts : CTxOut → Int64 × List UInt8 := fun txout => (txout.nValue, txout.scriptPubKey.bytes)
  have hreads : ∀ txout : CTxOut, Reads (do
      let nValue ← readInt64
      let script ← readUnlimitedVector
      pure (nValue, script)) txout.serialize (parts txout) := by
    intro txout
    have hsize : txout.scriptPubKey.bytes.length < 2 ^ 64 :=
      txout.scriptPubKey.size.trans (by decide)
    exact (reads_readInt64 txout.nValue).bind ((reads_readUnlimitedVector hsize).map _)
  have hparts : Function.Injective parts := by
    rintro ⟨nValue, script, hsize⟩ ⟨nValue', script', hsize'⟩ hequal
    obtain ⟨rfl, rfl⟩ := Prod.mk.inj hequal
    rfl
  exact hparts.list_map (map_eq_of_flatMap_eq hreads rfl hsame)

theorem shieldedOutputs_of_message {outputs outputs' : List SaplingOutputDescription}
    (hsame : shieldedOutputsMessage outputs = shieldedOutputsMessage outputs') :
    outputs = outputs' := by
  have hreads : ∀ output : SaplingOutputDescription,
      Reads SaplingOutputDescription.unserialize output.serialize (id output) :=
    reads_outputDescription
  have hmapped := map_eq_of_flatMap_eq hreads rfl hsame
  rw [List.map_id, List.map_id] at hmapped
  exact hmapped

theorem spends_of_message {spends spends' : List SaplingSpendDescription}
    (hsame : shieldedSpendsMessage spends = shieldedSpendsMessage spends') :
    spends.map unsigned = spends'.map unsigned := by
  have hreads : ∀ spend : SaplingSpendDescription, Reads (do
      let cv ← readFixed 32
      let anchor ← readFixed 32
      let nullifier ← readFixed 32
      let rk ← readFixed 32
      let zkproof ← readFixed 192
      pure (⟨cv, anchor, nullifier, rk, zkproof⟩ : UnauthorizedSpend)) spend.signedPart
      spend.unsigned := by
    intro spend
    refine (reads_readFixed spend.cv).bind ?_
    refine (reads_readFixed spend.anchor).bind ?_
    refine (reads_readFixed spend.nullifier).bind ?_
    refine (reads_readFixed spend.rk).bind ?_
    exact (reads_readFixed spend.zkproof).map _
  exact map_eq_of_flatMap_eq hreads rfl hsame

theorem parts_of_sighashMessage {nVersion nVersion' : Int16}
    {prevouts prevouts' sequences sequences' outputs outputs' spends spends' shielded shielded' : Bytes 32}
    {nLockTime nLockTime' : UInt32} {nType nType' payloadVersion payloadVersion' : UInt16}
    {valueBalance valueBalance' : Int64}
    (hsame : sighashMessage nVersion prevouts sequences outputs nLockTime nType payloadVersion spends
        shielded valueBalance =
      sighashMessage nVersion' prevouts' sequences' outputs' nLockTime' nType' payloadVersion' spends'
        shielded' valueBalance') :
    (nVersion = nVersion' ∧ nLockTime = nLockTime' ∧ nType = nType' ∧
      payloadVersion = payloadVersion' ∧ valueBalance = valueBalance') ∧
    prevouts = prevouts' ∧ sequences = sequences' ∧ outputs = outputs' ∧ spends = spends' ∧
      shielded = shielded' := by
  have hversion : ∀ version : Int16, Reads readInt16 (writeInt16 version.toInt) version.toInt :=
    fun version => reads_readInt16 version.le_toInt version.toInt_lt
  obtain ⟨hnVersion, hsame⟩ := (hversion nVersion).unique (hversion nVersion') hsame
  obtain ⟨hprevouts, hsame⟩ := (reads_readFixed prevouts).unique (reads_readFixed prevouts') hsame
  obtain ⟨hsequences, hsame⟩ :=
    (reads_readFixed sequences).unique (reads_readFixed sequences') hsame
  obtain ⟨houtputs, hsame⟩ := (reads_readFixed outputs).unique (reads_readFixed outputs') hsame
  obtain ⟨hlock, hsame⟩ := (reads_readUInt32 nLockTime).unique (reads_readUInt32 nLockTime') hsame
  obtain ⟨htype, hsame⟩ := (reads_readUInt16 nType).unique (reads_readUInt16 nType') hsame
  obtain ⟨hpayload, hsame⟩ :=
    (reads_readUInt16 payloadVersion).unique (reads_readUInt16 payloadVersion') hsame
  obtain ⟨hspends, hsame⟩ := (reads_readFixed spends).unique (reads_readFixed spends') hsame
  obtain ⟨hshielded, hsame⟩ := (reads_readFixed shielded).unique (reads_readFixed shielded') hsame
  have hbalance : valueBalance = valueBalance' :=
    ((reads_readInt64 valueBalance).unique (reads_readInt64 valueBalance')
      (congrArg (· ++ []) hsame)).1
  exact ⟨⟨Int16.toInt_inj.mp hnVersion, hlock, htype, hpayload, hbalance⟩, hprevouts, hsequences,
    houtputs, hspends, hshielded⟩

theorem agrees_of_sighash {hash : List UInt8 → Bytes 32} {tx tx' : CTransaction}
    {payload payload' : SaplingTxPayload}
    (hfree : CollisionFree hash (hashedMessages hash tx payload) (hashedMessages hash tx' payload'))
    (hsame : computeSaplingSighash hash tx payload = computeSaplingSighash hash tx' payload') :
    SighashAgrees tx payload tx' payload' := by
  have houter := hfree _ (by simp [hashedMessages]) _ (by simp [hashedMessages]) hsame
  obtain ⟨⟨hversion, hlock, htype, hpayload, hbalance⟩, hprevouts, hsequences, houtputs, hspends,
    hshielded⟩ := parts_of_sighashMessage houter
  exact {
    nVersion := hversion
    nType := htype
    nLockTime := hlock
    payloadVersion := hpayload
    valueBalance := hbalance
    prevouts := prevouts_of_message
      (hfree _ (by simp [hashedMessages]) _ (by simp [hashedMessages]) hprevouts)
    sequences := sequences_of_message
      (hfree _ (by simp [hashedMessages]) _ (by simp [hashedMessages]) hsequences)
    outputs := outputs_of_message
      (hfree _ (by simp [hashedMessages]) _ (by simp [hashedMessages]) houtputs)
    spends := spends_of_message
      (hfree _ (by simp [hashedMessages]) _ (by simp [hashedMessages]) hspends)
    shieldedOutputs := shieldedOutputs_of_message
      (hfree _ (by simp [hashedMessages]) _ (by simp [hashedMessages]) hshielded) }

/-- The hash that a build lets sign is the one that the verifier computes for the transaction with the
payload that is read from it; and two transactions with equal hashes agree on all that is signed, unless
two of their messages collide. -/
theorem sapling_sighash_shared_and_binding {Added : Type} (hash : List UInt8 → Bytes 32)
    (functions : BundleFunctions Added) (hfunctions : functions.Documented) :
    (∀ builder tx, (build hash functions builder).1 = .ok tx →
      ∃ payload bundle authorized,
        getTxPayload tx = some payload ∧ payload = signedPayload authorized ∧
        functions.applySignatures bundle (computeSaplingSighash hash tx payload) = .ok authorized ∧
        buildSigned hash functions builder = .ok (tx, computeSaplingSighash hash tx payload)) ∧
    ∀ tx payload tx' payload',
      CollisionFree hash (hashedMessages hash tx payload) (hashedMessages hash tx' payload') →
      computeSaplingSighash hash tx payload = computeSaplingSighash hash tx' payload' →
      SighashAgrees tx payload tx' payload' := by
  refine ⟨?_, fun tx payload tx' payload' => agrees_of_sighash⟩
  intro builder tx hbuild
  cases hsigned : buildSigned hash functions builder with
  | error stop =>
    simp only [build, hsigned] at hbuild
    cases hbuild
  | ok signed =>
    simp only [build, hsigned] at hbuild
    cases hbuild
    obtain ⟨bundle, authorized, hpayload, happly, hsighash⟩ :=
      computeSaplingSighash_of_buildSigned hfunctions hsigned
    rw [hsighash] at happly
    exact ⟨_, bundle, authorized, hpayload, rfl, happly, by rw [← hsighash]⟩

namespace Sample

def digest (message : List UInt8) : Bytes 32 :=
  ⟨writeNumber 32 (message.foldl (fun sum byte => (257 * sum + byte.toNat + 1) % 2 ^ 256) 1), rfl⟩

def noScript : CScript := ⟨[], by decide⟩

def outpoint : COutPoint := ⟨replicate 32 7, 1⟩

def output : SaplingOutputDescription where
  cv := replicate 32 1
  cmu := replicate 32 2
  ephemeralKey := replicate 32 3
  encCiphertext := replicate 580 4
  outCiphertext := replicate 80 5
  zkproof := replicate 192 6

def functions : BundleFunctions (List SaplingOutputDescription) where
  build := fun added => .ok (some ⟨[], added, -5⟩)
  applySignatures := fun bundle _ => .ok
    { shieldedSpends := bundle.shieldedSpends.map (fun spend =>
        { cv := spend.cv, anchor := spend.anchor, nullifier := spend.nullifier, rk := spend.rk
          zkproof := spend.zkproof, spendAuthSig := replicate 64 0 })
      shieldedOutputs := bundle.shieldedOutputs
      valueBalance := bundle.valueBalance
      bindingSig := replicate 64 0 }

theorem functions_documented : functions.Documented := by
  constructor
  · rintro bundle sighash signed hsigned
    cases hsigned
    rw [List.map_map]
    exact map_id _
  · rintro bundle sighash signed hsigned
    cases hsigned
    rfl
  · rintro bundle sighash signed hsigned
    cases hsigned
    rfl

def builder : BuilderImpl (List SaplingOutputDescription) where
  params := { SaplingHeight := 0 }
  nHeight := 10
  vin := [⟨outpoint, noScript, 0xffffffff⟩]
  vout := []
  rustBuilder := [output]
  numSpends := 0
  numOutputs := 1

def emptyPayload : SaplingTxPayload where
  vSpendDescriptions := []
  vOutputDescriptions := []
  valueBalance := 0
  bindingSig := replicate 64 0

def spending (scriptSig : CScript) : CTransaction where
  nVersion := 3
  nType := transactionSapling
  vin := [⟨outpoint, scriptSig, 0xffffffff⟩]
  vout := []
  nLockTime := 0

end Sample

open Wire.Sample in
/-- A build with one output, and two transactions that differ in a scriptSig. -/
theorem sapling_sighash_shared_and_binding_sample :
    (∃ tx, (build digest functions (some builder)).1 = .ok tx ∧
      ∃ payload bundle authorized,
        getTxPayload tx = some payload ∧ payload = signedPayload authorized ∧
        functions.applySignatures bundle (computeSaplingSighash digest tx payload) =
          .ok authorized ∧
        buildSigned digest functions (some builder) =
          .ok (tx, computeSaplingSighash digest tx payload)) ∧
    SighashAgrees (spending noScript) emptyPayload (spending ⟨[1], by decide⟩) emptyPayload := by
  have hboth := sapling_sighash_shared_and_binding digest functions functions_documented
  have hbuilt : ∃ tx, (build digest functions (some builder)).1 = .ok tx := ⟨_, rfl⟩
  obtain ⟨tx, htx⟩ := hbuilt
  refine ⟨⟨tx, htx, hboth.1 (some builder) tx htx⟩, hboth.2 _ _ _ _ ?_ rfl⟩
  unfold CollisionFree
  decide +kernel

end Kerrigan.Sapling.Wire
