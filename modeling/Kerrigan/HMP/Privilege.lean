import Kerrigan.HMP.Block
import Kerrigan.Lib.OrdMap
import Kerrigan.Lib.Window
import Mathlib.Data.List.Dedup

/-!
# The privilege tracker

`CHMPPrivilegeTracker` folds the miners and seal signers of recent blocks into per
algorithm records, and derives from them the tier of a key, the Elder set and whether
penalties are armed.
-/

namespace Kerrigan.HMP

open Primitives Consensus Lib

/-! ## Records -/

inductive HMPPrivilegeTier where
  | unknown
  | new
  | elder
  | brood
  deriving DecidableEq, Repr

structure CPrivilegeRecord where
  blocksSolved : Nat := 0
  sealParticipations : Nat := 0
  firstSeenHeight : Int := -1
  lastActiveHeight : Int := -1
  deriving DecidableEq, Repr

structure CHMPWindowEntry where
  height : Int
  algo : Nat
  minerPubKey : CBLSPublicKey
  sealSigners : List CBLSPublicKey := []
  signerAlgos : List Nat := []
  sealedAlgo : Option Nat := none
  deriving DecidableEq

structure CHMPSealLongEntry where
  height : Int
  algo : Nat
  sealedAlgo : Option Nat
  deriving DecidableEq

structure CHMPExtendedEntry where
  height : Int
  algo : Nat
  minerPubKey : CBLSPublicKey
  deriving DecidableEq

/-- One map for each algorithm. -/
structure Records where
  maps : Vector (Std.ExtTreeMap CBLSPublicKey CPrivilegeRecord) numAlgos

namespace Records

def ofAlgo (records : Records) (algo : Nat) : Std.ExtTreeMap CBLSPublicKey CPrivilegeRecord :=
  records.maps[algo]?.getD ∅

instance : CoeFun Records (fun _ => Nat → Std.ExtTreeMap CBLSPublicKey CPrivilegeRecord) :=
  ⟨ofAlgo⟩

def empty : Records := ⟨Vector.replicate numAlgos ∅⟩

variable (records : Records) (algo : Nat)

def credit (key : CBLSPublicKey) (change : CPrivilegeRecord → CPrivilegeRecord) : Records :=
  ⟨records.maps.setIfInBounds algo
    ((records algo).insert key (change ((records algo)[key]?.getD {})))⟩

theorem credit_lookup {algo : Nat} (halgo : algo < numAlgos) (other : Nat)
    (key found : CBLSPublicKey) (change : CPrivilegeRecord → CPrivilegeRecord) :
    (records.credit algo key change other)[found]? =
      if algo = other ∧ key = found then some (change ((records other)[found]?.getD {}))
      else (records other)[found]? := by
  simp only [credit, ofAlgo, Vector.getElem?_setIfInBounds]
  by_cases hsame : algo = other
  · subst hsame
    rw [if_pos rfl, if_pos halgo, Option.getD_some, getElem?_insert_eq]
    by_cases hkey : key = found
    · simp [hkey]
    · simp [hkey]
  · rw [if_neg hsame, if_neg (fun h => hsame h.1)]

end Records

open Records

variable (height : Int) (rec : CPrivilegeRecord)

def solvedNow : CPrivilegeRecord :=
  { rec with
    blocksSolved := rec.blocksSolved + 1
    lastActiveHeight := height
    firstSeenHeight := if rec.firstSeenHeight < 0 then height else rec.firstSeenHeight }

def solvedInWindow : CPrivilegeRecord :=
  { rec with
    blocksSolved := rec.blocksSolved + 1
    lastActiveHeight := height
    firstSeenHeight :=
      if rec.firstSeenHeight < 0 ∨ height < rec.firstSeenHeight then height
      else rec.firstSeenHeight }

def participated : CPrivilegeRecord :=
  { rec with
    sealParticipations := rec.sealParticipations + 1
    lastActiveHeight := max rec.lastActiveHeight height
    firstSeenHeight := if rec.firstSeenHeight < 0 then height else rec.firstSeenHeight }

def declaredAlgos (algo : Nat) : List CBLSPublicKey → List Nat → List (CBLSPublicKey × Nat)
  | [], _ => []
  | signer :: signers, algos =>
      (signer, algos.headD algo) :: declaredAlgos algo signers algos.tail

variable (solved : Int → CPrivilegeRecord → CPrivilegeRecord) (records : Records)
  (entry : CHMPWindowEntry)

def creditSigner (signer : CBLSPublicKey × Nat) : Records :=
  if signer.1.IsValid ∧ signer.2 < numAlgos then
    records.credit signer.2 signer.1 (participated height)
  else records

def creditMiner : Records :=
  if entry.algo < numAlgos ∧ entry.minerPubKey.IsValid then
    records.credit entry.algo entry.minerPubKey (solved entry.height)
  else records

def creditEntry : Records :=
  (declaredAlgos entry.algo entry.sealSigners entry.signerAlgos).foldl
    (creditSigner entry.height) (creditMiner solved records entry)

def rebuildFromWindow (window : List CHMPWindowEntry) : Records :=
  window.foldl (creditEntry solvedInWindow) empty

/-! ## Properties of all records -/

def Records.All (property : Nat → CBLSPublicKey → CPrivilegeRecord → Prop)
    (records : Records) : Prop :=
  ∀ (algo : Nat) (key : CBLSPublicKey) (rec : CPrivilegeRecord),
    (records algo)[key]? = some rec → property algo key rec

section All

variable {property : Nat → CBLSPublicKey → CPrivilegeRecord → Prop}

theorem Records.All.empty : empty.All property := by
  intro algo key rec hfound
  by_cases halgo : algo < numAlgos
  · simp [Records.empty, Records.ofAlgo, halgo] at hfound
  · simp [empty, ofAlgo, halgo] at hfound

theorem Records.All.credit {records : Records} (hall : records.All property) {algo : Nat}
    (halgo : algo < numAlgos) {key : CBLSPublicKey} {change : CPrivilegeRecord → CPrivilegeRecord}
    (hchange : ∀ rec, rec = {} ∨ property algo key rec → property algo key (change rec)) :
    (records.credit algo key change).All property := by
  intro other found rec hfound
  rw [credit_lookup records halgo] at hfound
  split at hfound
  · rename_i hsame
    obtain ⟨rfl, rfl⟩ := hsame
    cases hfound
    cases hrecord : (records algo)[key]? with
    | none => exact hchange {} (Or.inl rfl)
    | some before => exact hchange before (Or.inr (hall algo key before hrecord))
  · exact hall other found rec hfound

theorem Records.All.creditEntry {records : Records} (hall : records.All property)
    {solved : Int → CPrivilegeRecord → CPrivilegeRecord} {entry : CHMPWindowEntry}
    (hminer : entry.minerPubKey.IsValid →
      ∀ rec, rec = {} ∨ property entry.algo entry.minerPubKey rec →
        property entry.algo entry.minerPubKey (solved entry.height rec))
    (hsigner : ∀ signer ∈ declaredAlgos entry.algo entry.sealSigners entry.signerAlgos,
      ∀ rec, rec = {} ∨ property signer.2 signer.1 rec →
        property signer.2 signer.1 (participated entry.height rec)) :
    (creditEntry solved records entry).All property := by
  have hmined : (creditMiner solved records entry).All property := by
    unfold creditMiner
    split
    · rename_i hvalid
      exact hall.credit hvalid.1 (hminer hvalid.2)
    · exact hall
  refine List.foldlRecOn _ _ hmined ?_
  intro credited hcredited signer hmem
  unfold creditSigner
  split
  · rename_i hvalid
    exact hcredited.credit hvalid.2 (hsigner signer hmem)
  · exact hcredited

end All

/-! ## The tracker -/

@[ext] structure CHMPPrivilegeTracker where
  window : List CHMPWindowEntry
  sealLong : List CHMPSealLongEntry
  extendedWindow : List CHMPExtendedEntry
  records : Records

namespace CHMPPrivilegeTracker

def cleared : CHMPPrivilegeTracker where
  window := []
  sealLong := []
  extendedWindow := []
  records := empty

def sealLongWindow : Nat := 400

variable (params : Params) (tracker : CHMPPrivilegeTracker) (algo : Nat)

def blockConnected (entry : CHMPWindowEntry) : CHMPPrivilegeTracker where
  window := pushWindow params.nHMPPrivilegeWindow tracker.window entry
  sealLong := pushWindow sealLongWindow tracker.sealLong
    ⟨entry.height, entry.algo, entry.sealedAlgo⟩
  extendedWindow :=
    if entry.minerPubKey.IsValid then
      pushWindow params.nHMPDominanceCatchMaxLookback tracker.extendedWindow
        ⟨entry.height, entry.algo, entry.minerPubKey⟩
    else tracker.extendedWindow
  records :=
    if params.nHMPPrivilegeWindow < tracker.window.length + 1 then
      rebuildFromWindow (pushWindow params.nHMPPrivilegeWindow tracker.window entry)
    else creditEntry solvedNow tracker.records entry

def blockDisconnected (height : Int) : CHMPPrivilegeTracker where
  window := tracker.window.rdropWhile (fun entry => height ≤ entry.height)
  sealLong := tracker.sealLong.rdropWhile (fun entry => height ≤ entry.height)
  extendedWindow := tracker.extendedWindow.rdropWhile (fun entry => height ≤ entry.height)
  records := rebuildFromWindow (tracker.window.rdropWhile (fun entry => height ≤ entry.height))

def getTipHeight : Int :=
  match tracker.window.getLast? with
  | none => -1
  | some entry => entry.height

def IsWarm (rec : CPrivilegeRecord) : Prop :=
  0 ≤ rec.firstSeenHeight ∧
    params.nHMPWarmupBlocks ≤ tracker.getTipHeight - rec.firstSeenHeight

instance (params : Params) (tracker : CHMPPrivilegeTracker) (rec : CPrivilegeRecord) :
    Decidable (IsWarm params tracker rec) :=
  inferInstanceAs (Decidable (_ ∧ _))

def getTier (oracles : Oracles) (tracker : CHMPPrivilegeTracker) (pubkey : CBLSPublicKey)
    (algo : Nat) (pindex : Uint256) : HMPPrivilegeTier :=
  if algo < numAlgos then
    match (tracker.records algo)[pubkey]? with
    | none => .unknown
    | some rec =>
        if ¬ IsWarm params tracker rec then .unknown
        else if params.getEffectiveMinBlocksSolved tracker.getTipHeight ≤ rec.blocksSolved ∧
            0 < rec.sealParticipations then
          if oracles.isBroodNodeOperator pubkey pindex then .brood else .elder
        else .new
  else .unknown

def QualifiesElder (minBlocks : Nat) (rec : CPrivilegeRecord) : Prop :=
  IsWarm params tracker rec ∧ minBlocks ≤ rec.blocksSolved ∧ 0 < rec.sealParticipations

instance (params : Params) (tracker : CHMPPrivilegeTracker) (minBlocks : Nat)
    (rec : CPrivilegeRecord) : Decidable (QualifiesElder params tracker minBlocks rec) :=
  inferInstanceAs (Decidable (_ ∧ _))

def extendedSolvers (algo count : Nat) (solvers : List CBLSPublicKey) :
    List CHMPExtendedEntry → List CBLSPublicKey
  | [] => solvers
  | entry :: rest =>
      if entry.algo = algo ∧ entry.minerPubKey.IsValid ∧ entry.minerPubKey ∉ solvers then
        if count ≤ solvers.length + 1 then solvers ++ [entry.minerPubKey]
        else extendedSolvers algo count (solvers ++ [entry.minerPubKey]) rest
      else extendedSolvers algo count solvers rest

/-- The dominance catch: qualified solvers join until the floor is reached. -/
def backfill (params : Params) (tracker : CHMPPrivilegeTracker) (algo minBlocks : Nat)
    (result : List CBLSPublicKey) : List CBLSPublicKey → List CBLSPublicKey
  | [] => result
  | pk :: rest =>
      if pk ∈ result then backfill params tracker algo minBlocks result rest
      else if ∃ rec ∈ (tracker.records algo)[pk]?, QualifiesElder params tracker minBlocks rec then
        if params.nHMPDominanceCatchFloor ≤ result.length + 1 then result ++ [pk]
        else backfill params tracker algo minBlocks (result ++ [pk]) rest
      else if params.nHMPDominanceCatchFloor ≤ result.length then result
      else backfill params tracker algo minBlocks result rest

def organicElders : List CBLSPublicKey :=
  (tracker.records algo).toList.filterMap (fun item =>
    if QualifiesElder params tracker
        (params.getEffectiveMinBlocksSolved tracker.getTipHeight) item.2 then some item.1
    else none)

def getElderSet (includeBackfill : Bool) : List CBLSPublicKey :=
  if algo < numAlgos then
    let organic := organicElders params tracker algo
    if includeBackfill ∧ organic.length < params.nHMPDominanceCatchFloor then
      backfill params tracker algo
        (if params.IsHMPRearmActive tracker.getTipHeight then
          params.getEffectiveMinBlocksSolved tracker.getTipHeight
        else 1)
        organic
        (extendedSolvers algo params.nHMPDominanceCatchMaxLookback []
          tracker.extendedWindow.reverse)
    else organic
  else []

def getPrivilegedSet : List CBLSPublicKey :=
  if algo < numAlgos then
    (tracker.records algo).toList.filterMap (fun item =>
      if IsWarm params tracker item.2 then some item.1 else none)
  else []

def windowSigners : List CBLSPublicKey :=
  (((tracker.window.filter (fun entry => entry.sealedAlgo = some algo)).flatMap
    CHMPWindowEntry.sealSigners).filter (fun key => key.IsValid)).dedup

def isPenaltyArmed : Bool :=
  if algo < numAlgos then
    let elders := (getElderSet params tracker algo false).length
    let algoBlocks100 := tracker.window.countP (fun entry => entry.algo = algo)
    let sealed100 := tracker.window.countP (fun entry => entry.sealedAlgo = some algo)
    if 4 ≤ elders ∧ 8 ≤ sealed100 ∧ 0 < algoBlocks100 ∧ algoBlocks100 * 60 ≤ sealed100 * 100 ∧
        4 ≤ (windowSigners tracker algo).length then true
    else
      let algoBlocks400 := tracker.sealLong.countP (fun entry => entry.algo = algo)
      let sealed400 := tracker.sealLong.countP (fun entry => entry.sealedAlgo = some algo)
      3 ≤ elders ∧ 0 < algoBlocks400 ∧ algoBlocks400 * 45 ≤ sealed400 * 100
  else false

end CHMPPrivilegeTracker

end Kerrigan.HMP
