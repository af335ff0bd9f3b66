import Kerrigan.Recovery.Ledger

/-!
# Arming and disarming a repair

`RepairArm` writes the marker of a wipe and records the attempt in the ledger; `RepairDisarm` removes the
marker.  The construction of the manager takes up a repair from the state that the ledger has.
-/

namespace Kerrigan.Recovery

open Lib JsonObject

/-! ## The manager -/

inductive RepairPhase where
  | none
  | armed
  | shuttingDown
  | wiping
  | bootstrapping
  | syncing
  | rebuildingWitnesses
  | verifying
  | done
  | failed
  deriving DecidableEq

inductive FindingCode where
  | netLocalLinkDown
  | netIsolated
  | netEclipseSuspect
  | tipStalledNetwork
  | tipStalledNonnetwork
  | driftEvodb
  | driftSapling
  | witnessStale
  | repairRateLimited
  | chainstateLoadFailed
  | nodeAborted
  deriving DecidableEq

def FindingCode.toText : FindingCode → String
  | .netLocalLinkDown => "NET_LOCAL_LINK_DOWN"
  | .netIsolated => "NET_ISOLATED"
  | .netEclipseSuspect => "NET_ECLIPSE_SUSPECT"
  | .tipStalledNetwork => "TIP_STALLED_NETWORK"
  | .tipStalledNonnetwork => "TIP_STALLED_NONNETWORK"
  | .driftEvodb => "DRIFT_EVODB"
  | .driftSapling => "DRIFT_SAPLING"
  | .witnessStale => "WITNESS_STALE"
  | .repairRateLimited => "REPAIR_RATE_LIMITED"
  | .chainstateLoadFailed => "CHAINSTATE_LOAD_FAILED"
  | .nodeAborted => "NODE_ABORTED"

structure Finding where
  code : FindingCode
  since : Int
  evidenceNum : List (String × Int) := []
  debugDetail : String := ""
  deriving DecidableEq

structure RecoveryManager where
  repairPhase : RepairPhase := .none
  repairInFlight : Bool := false
  confirmToken : String := ""
  confirmTokenExpiry : Int := 0
  confirmTokenScope : String := ""
  findings : List Finding := []
  guardAttemptsUsed : Nat := 0
  guardWipesInWindow : Nat := 0
  deriving DecidableEq

namespace RecoveryManager

variable (manager : RecoveryManager) (code : FindingCode)

def HasFinding : Prop :=
  ∃ finding ∈ manager.findings, finding.code = code

instance (manager : RecoveryManager) (code : FindingCode) : Decidable (manager.HasFinding code) :=
  inferInstanceAs (Decidable (∃ finding ∈ manager.findings, finding.code = code))

/-- The findings with a new one; an earlier one with its code gives way and keeps its onset. -/
def upserted (finding : Finding) : List Finding → List Finding
  | [] => [finding]
  | existing :: rest =>
      if existing.code = finding.code then { finding with since := existing.since } :: rest
      else existing :: upserted finding rest

def upsertFinding (finding : Finding) : RecoveryManager :=
  { manager with findings := upserted finding manager.findings }

def clearFinding : RecoveryManager :=
  { manager with findings := manager.findings.filter (·.code ≠ code) }

end RecoveryManager

def repairAttemptsMax : Nat := 3

def repairAttemptWindowSecs : Int := 6 * 60 * 60

def repairWipesMax : Nat := 2

def repairWipeWindowSecs : Int := 7 * 24 * 60 * 60

/-- The manager with the files that it reads and writes. -/
structure RepairNode where
  manager : RecoveryManager
  ledger : JsonFile
  marker : JsonFile

def refreshGuardCounts (node : RepairNode) (now : Int) : Except String RepairNode := do
  let attempts ← countLedgerEntriesInWindow (readLedger node.ledger) "attempts"
    repairAttemptWindowSecs now
  let wipes ← countLedgerEntriesInWindow (readLedger node.ledger) "wipes" repairWipeWindowSecs now
  return { node with
    manager := { node.manager with guardAttemptsUsed := attempts, guardWipesInWindow := wipes } }

def startManager (ledgerFile : JsonFile) (now : Int) : Except String RecoveryManager := do
  let ledger := readLedger ledgerFile
  let attempts ← countLedgerEntriesInWindow ledger "attempts" repairAttemptWindowSecs now
  let wipes ← countLedgerEntriesInWindow ledger "wipes" repairWipeWindowSecs now
  let repairState := repairStateOf ledger
  let manager : RecoveryManager := { guardAttemptsUsed := attempts, guardWipesInWindow := wipes }
  if repairState ∈ ["wiped", "syncing", "rebuilding_witnesses", "verifying"] then
    return { manager with repairInFlight := true, repairPhase := .syncing }
  else if repairState = "failed" then return { manager with repairPhase := .failed }
  else return manager

/-! ## Arming -/

inductive ArmResult where
  | armed
  | badToken
  | attemptsExhausted
  | rateLimited
  | alreadyArmed
  deriving DecidableEq

/-- The arguments of `RepairArm`, the times that it reads first and last, and whether the marker can be
written. -/
structure ArmCall where
  confirmToken : String
  scope : String
  overrideRateLimit : Bool
  now : Int
  later : Int
  markerWritten : Bool

def fullWipeDirs : List String := ["blocks", "chainstate", "sapling", "evodb", "llmq", "indexes"]

def wipeFiles (includeNetworkState : Bool) : List String :=
  ["mempool.dat"] ++ if includeNetworkState then ["peers.dat", "anchors.dat"] else []

def ArmCall.networkScope (call : ArmCall) : Bool := call.scope == "network"

def ArmCall.recordedScope (call : ArmCall) : String :=
  if call.networkScope then "network" else "full"

variable (now : Int) (manager : RecoveryManager) (ledger : JsonObject)

def networkClass : Bool :=
  manager.HasFinding .netEclipseSuspect || manager.HasFinding .netIsolated ||
    manager.HasFinding .netLocalLinkDown

def repairReason : String :=
  match manager.findings.find? (fun finding =>
      finding.code ∈ [FindingCode.driftEvodb, .driftSapling, .chainstateLoadFailed]) with
  | some finding => finding.code.toText
  | none => "user_requested"

def armMarker (call : ArmCall) (manager : RecoveryManager) : JsonObject :=
  let dirs := if call.networkScope then [] else fullWipeDirs
  let files := if call.networkScope then ["peers.dat", "anchors.dat"]
    else wipeFiles (networkClass manager)
  [("version", .num (.integer 1)), ("armed_ts", .num (.integer call.now)),
    ("scope", .str call.recordedScope), ("reason", .str (repairReason manager)),
    ("override_rate_limit", .bool call.overrideRateLimit),
    ("include_network_state", .bool (!call.networkScope && networkClass manager)),
    ("wipe_dirs", .arr (dirs.map .str)), ("wipe_files", .arr (files.map .str))]

def armAttempt (call : ArmCall) (manager : RecoveryManager) : UniValue :=
  .obj [("ts", .num (.integer call.now)), ("scope", .str call.recordedScope),
    ("reason", .str (repairReason manager)), ("override_rate_limit", .bool call.overrideRateLimit)]

def armedLedger (call : ArmCall) (manager : RecoveryManager) (ledger : JsonObject) : JsonObject :=
  let attempts := (ledger.get "attempts").elements ++ [armAttempt call manager]
  let out := ledger.without ["attempts", "repair_state", "repair_state_ts"]
  let out := out.pushKV "attempts" (.arr attempts)
  let out := out.pushKV "repair_state" (.str "armed")
  out.pushKV "repair_state_ts" (.num (.integer call.now))

def rateLimitedFinding (wipes : Nat) (now : Int) : Finding where
  code := .repairRateLimited
  since := now
  evidenceNum := [("wipes_in_window", (wipes : Int)), ("wipes_max", (repairWipesMax : Int))] ++
    (ledger.get "wipes").elements.zipIdx.filterMap (fun entry =>
      match entry.1.get "ts" with
      | .num (.integer ts) => some ("wipe_ts_" ++ toString entry.2, ts)
      | _ => Option.none)
  debugDetail := "wipe-rate guard: 2 completed wipes within 7 days"

def refuseAttempts (call : ArmCall) (node : RepairNode) : RepairNode :=
  if node.manager.repairInFlight then node
  else
    { node with
      manager := { node.manager with repairPhase := .failed }
      ledger := setLedgerRepairState node.ledger "failed" call.later }

def recordArm (call : ArmCall) (node : RepairNode) : RepairNode :=
  { node with
    marker := .content (.obj (armMarker call node.manager))
    ledger := .content (.obj (armedLedger call node.manager (readLedger node.ledger))) }

def armWithToken (call : ArmCall) (node : RepairNode) : Except String (ArmResult × RepairNode) := do
  let attempts ← countLedgerEntriesInWindow (readLedger node.ledger) "attempts"
    repairAttemptWindowSecs call.now
  let wipes ← countLedgerEntriesInWindow (readLedger node.ledger) "wipes" repairWipeWindowSecs
    call.now
  if repairAttemptsMax ≤ attempts then return (.attemptsExhausted, refuseAttempts call node)
  else if call.networkScope = false ∧ repairWipesMax ≤ wipes ∧ call.overrideRateLimit = false then
    return (.rateLimited, { node with
      manager := node.manager.upsertFinding
        (rateLimitedFinding (readLedger node.ledger) wipes call.now) })
  else if call.markerWritten = false then return (.badToken, node)
  else do
    let node ← refreshGuardCounts (recordArm call node) call.later
    return (.armed, { node with
      manager := { node.manager with repairPhase := .armed }.clearFinding .repairRateLimited })

def repairArm (call : ArmCall) (node : RepairNode) : Except String (ArmResult × RepairNode) :=
  if node.manager.repairPhase = .armed then .ok (.alreadyArmed, node)
  else if call.confirmToken = "" ∨ call.confirmToken ≠ node.manager.confirmToken ∨
      node.manager.confirmTokenExpiry < call.now ∨ call.scope ≠ node.manager.confirmTokenScope then
    .ok (.badToken, node)
  else armWithToken call { node with manager := { node.manager with confirmToken := "" } }

/-! ## Disarming -/

def disarmedLedger (kept : List UniValue) (inFlight : Bool) (now : Int) : JsonObject :=
  let newState := if inFlight then repairStateOf ledger else "idle"
  let out := ledger.without ["attempts", "repair_state", "repair_state_ts"]
  let out := out.pushKV "attempts" (.arr kept)
  let out := out.pushKV "repair_state" (.str newState)
  out.pushKV "repair_state_ts" (.num (.integer now))

def releaseAttempt (file : JsonFile) (inFlight : Bool) (now : Int) : JsonFile :=
  let ledger := readLedger file
  match ledger.get "attempts" with
  | .arr (first :: rest) =>
      .content (.obj (disarmedLedger ledger (first :: rest).dropLast inFlight now))
  | _ => if inFlight then file else setLedgerRepairState file "idle" now

/-- The removal of the marker and of the attempt; the removal of a file succeeds. -/
def clearMarker (node : RepairNode) : Except String (Bool × RepairNode) :=
  match node.marker with
  | .absent => .ok (false, node)
  | _ => do
      let node ← refreshGuardCounts { node with
        marker := .absent
        ledger := releaseAttempt node.ledger node.manager.repairInFlight now } now
      return (true, node)

def repairDisarm (node : RepairNode) : Except String (Bool × RepairNode) := do
  let (cleared, node) ← clearMarker now node
  if node.manager.repairPhase = .armed then
    return (true, { node with manager := { node.manager with repairPhase := .none } })
  else return (cleared, node)

/-! ## What is left of an arm after a disarm -/

theorem refreshGuardCounts_eq_ok {node : RepairNode} {ledger : JsonObject}
    (hledger : node.ledger = .content (.obj ledger))
    (hattempts : ReadableTimes (ledger.get "attempts").elements)
    (hwipes : ReadableTimes (ledger.get "wipes").elements) (now : Int) :
    ∃ refreshed, refreshGuardCounts node now = .ok refreshed ∧ refreshed.ledger = node.ledger ∧
      refreshed.manager.repairPhase = node.manager.repairPhase := by
  obtain ⟨attempts, hcount⟩ :=
    (count_eq_ok_iff ledger "attempts" repairAttemptWindowSecs now).mpr hattempts
  obtain ⟨wipes, hcount'⟩ := (count_eq_ok_iff ledger "wipes" repairWipeWindowSecs now).mpr hwipes
  unfold refreshGuardCounts
  rw [hledger, readLedger_content, hcount, hcount']
  exact ⟨_, rfl, rfl, rfl⟩

theorem refreshGuardCounts_ledger {node refreshed : RepairNode} {now : Int}
    (hrefresh : refreshGuardCounts node now = .ok refreshed) :
    refreshed.ledger = node.ledger ∧ refreshed.marker = node.marker ∧
      refreshed.manager.repairInFlight = node.manager.repairInFlight := by
  unfold refreshGuardCounts at hrefresh
  simp only [bind_eq_ok_iff] at hrefresh
  obtain ⟨attempts, -, wipes, -, hnode⟩ := hrefresh
  cases hnode
  exact ⟨rfl, rfl, rfl⟩

/-- What an arm leaves behind. -/
structure Armed (call : ArmCall) (node armed : RepairNode) : Prop where
  phaseBefore : node.manager.repairPhase ≠ .armed
  attempts : ReadableTimes ((readLedger node.ledger).get "attempts").elements
  wipes : ReadableTimes ((readLedger node.ledger).get "wipes").elements
  ledger : armed.ledger =
    .content (.obj (armedLedger call node.manager (readLedger node.ledger)))
  marker : armed.marker ≠ .absent
  phase : armed.manager.repairPhase = .armed
  inFlight : armed.manager.repairInFlight = node.manager.repairInFlight

theorem armed_of_repairArm {call : ArmCall} {node armed : RepairNode}
    (harm : repairArm call node = .ok (.armed, armed)) : Armed call node armed := by
  unfold repairArm at harm
  split at harm
  · cases harm
  next hphase =>
    split at harm
    · cases harm
    · unfold armWithToken at harm
      simp only [bind_eq_ok_iff] at harm
      obtain ⟨attempts, hattempts, wipes, hwipes, harm⟩ := harm
      split at harm
      · cases harm
      · split at harm
        · cases harm
        · split at harm
          · cases harm
          · obtain ⟨refreshed, hrefresh, harm⟩ := bind_eq_ok_iff.mp harm
            cases harm
            obtain ⟨hledger, hmarker, hflight⟩ := refreshGuardCounts_ledger hrefresh
            exact {
              phaseBefore := hphase
              attempts := (count_eq_ok_iff ..).mp ⟨attempts, hattempts⟩
              wipes := (count_eq_ok_iff ..).mp ⟨wipes, hwipes⟩
              ledger := hledger
              marker := fun habsent => by
                rw [hmarker] at habsent
                cases habsent
              phase := rfl
              inFlight := hflight }

/-! The members of the two ledgers that matter here. -/

section Members

variable (call : ArmCall) (manager : RecoveryManager) (ledger : JsonObject)

@[simp] theorem get_armedLedger_attempts : (armedLedger call manager ledger).get "attempts" =
    .arr ((ledger.get "attempts").elements ++ [armAttempt call manager]) := by
  unfold armedLedger
  rw [get_pushKV_of_ne _ _ (by decide), get_pushKV_of_ne _ _ (by decide),
    get_pushKV_self]

@[simp] theorem repairStateOf_armedLedger :
    repairStateOf (armedLedger call manager ledger) = "armed" := by
  unfold repairStateOf armedLedger
  rw [get_pushKV_of_ne _ _ (by decide), get_pushKV_self]

@[simp] theorem get_armedLedger_wipes :
    (armedLedger call manager ledger).get "wipes" = ledger.get "wipes" := by
  unfold armedLedger
  rw [get_pushKV_of_ne _ _ (by decide), get_pushKV_of_ne _ _ (by decide),
    get_pushKV_of_ne _ _ (by decide), get_without _ (by decide)]

variable (kept : List UniValue) (inFlight : Bool) (now : Int)

@[simp] theorem get_disarmedLedger_attempts :
    (disarmedLedger ledger kept inFlight now).get "attempts" = .arr kept := by
  unfold disarmedLedger
  rw [get_pushKV_of_ne _ _ (by decide), get_pushKV_of_ne _ _ (by decide),
    get_pushKV_self]

@[simp] theorem get_disarmedLedger_repairState :
    (disarmedLedger ledger kept inFlight now).get "repair_state" =
      .str (if inFlight then repairStateOf ledger else "idle") := by
  unfold disarmedLedger
  rw [get_pushKV_of_ne _ _ (by decide), get_pushKV_self]

@[simp] theorem get_disarmedLedger_wipes :
    (disarmedLedger ledger kept inFlight now).get "wipes" = ledger.get "wipes" := by
  unfold disarmedLedger
  rw [get_pushKV_of_ne _ _ (by decide), get_pushKV_of_ne _ _ (by decide),
    get_pushKV_of_ne _ _ (by decide), get_without _ (by decide)]

theorem releaseAttempt_of_attempts {ledger : JsonObject} {last : UniValue}
    (hattempts : ledger.get "attempts" = .arr (kept ++ [last])) :
    releaseAttempt (.content (.obj ledger)) inFlight now =
      .content (.obj (disarmedLedger ledger kept inFlight now)) := by
  obtain ⟨first, rest, hcons⟩ : ∃ first rest, kept ++ [last] = first :: rest := by
    cases kept with
    | nil => exact ⟨last, [], rfl⟩
    | cons first more => exact ⟨first, more ++ [last], rfl⟩
  simp only [releaseAttempt, readLedger_content, hattempts, hcons]
  rw [← hcons, List.dropLast_concat]

end Members

/-- The state of the ledger and of the manager, and what a restart takes up. -/
structure Undone (before after : RepairNode) : Prop where
  repairState : (readLedger after.ledger).get "repair_state" =
    (readLedger before.ledger).get "repair_state"
  attempts : (readLedger after.ledger).get "attempts" = (readLedger before.ledger).get "attempts"
  wipes : (readLedger after.ledger).get "wipes" = (readLedger before.ledger).get "wipes"
  phase : after.manager.repairPhase = before.manager.repairPhase
  restart : ∀ now, startManager after.ledger now = startManager before.ledger now

theorem startManager_congr {file file' : JsonFile}
    (hstate : (readLedger file).get "repair_state" = (readLedger file').get "repair_state")
    (hattempts : (readLedger file).get "attempts" = (readLedger file').get "attempts")
    (hwipes : (readLedger file).get "wipes" = (readLedger file').get "wipes") (now : Int) :
    startManager file now = startManager file' now := by
  have hsame : repairStateOf (readLedger file) = repairStateOf (readLedger file') := by
    rw [repairStateOf, hstate, repairStateOf]
  simp only [startManager, countLedgerEntriesInWindow, hsame, hattempts, hwipes]

theorem repairDisarm_of_armed {call : ArmCall} {node armed : RepairNode}
    (harmed : Armed call node armed) (now : Int) :
    ∃ after, repairDisarm now armed = .ok (true, after) ∧ after.manager.repairPhase = .none ∧
      (readLedger after.ledger).get "attempts" =
        .arr ((readLedger node.ledger).get "attempts").elements ∧
      (readLedger after.ledger).get "repair_state" =
        .str (if node.manager.repairInFlight then "armed" else "idle") ∧
      (readLedger after.ledger).get "wipes" = (readLedger node.ledger).get "wipes" := by
  let ledger := armedLedger call node.manager (readLedger node.ledger)
  let kept := ((readLedger node.ledger).get "attempts").elements
  let released := disarmedLedger ledger kept node.manager.repairInFlight now
  have hrelease : releaseAttempt armed.ledger armed.manager.repairInFlight now =
      .content (.obj released) := by
    rw [harmed.ledger, harmed.inFlight]
    exact releaseAttempt_of_attempts kept _ now (get_armedLedger_attempts ..)
  have hwipes : released.get "wipes" = (readLedger node.ledger).get "wipes" := by
    simp only [released, ledger, get_disarmedLedger_wipes, get_armedLedger_wipes]
  obtain ⟨refreshed, hrefresh, hledger, hphase⟩ := @refreshGuardCounts_eq_ok
    { armed with
      marker := .absent
      ledger := releaseAttempt armed.ledger armed.manager.repairInFlight now }
    released hrelease (by
      simp only [released, get_disarmedLedger_attempts]
      exact harmed.attempts) (by
      rw [hwipes]
      exact harmed.wipes) now
  have hclear : clearMarker now armed = .ok (true, refreshed) := by
    unfold clearMarker
    cases hmarker : armed.marker with
    | absent => exact absurd hmarker harmed.marker
    | unparseable => simp only [hrefresh, bind, Except.bind, pure, Except.pure]
    | content json => simp only [hrefresh, bind, Except.bind, pure, Except.pure]
  have hdisarm : repairDisarm now armed = .ok (true, { refreshed with
      manager := { refreshed.manager with repairPhase := .none } }) := by
    unfold repairDisarm
    simp only [hclear, bind, Except.bind]
    rw [if_pos (hphase.trans harmed.phase)]
    rfl
  have hread : readLedger refreshed.ledger = released := by
    rw [hledger]
    exact congrArg readLedger hrelease
  refine ⟨_, hdisarm, rfl, ?_, ?_, ?_⟩
  · rw [hread]
    exact get_disarmedLedger_attempts ..
  · rw [hread]
    simp only [released, ledger, get_disarmedLedger_repairState, repairStateOf_armedLedger]
  · rw [hread, hwipes]

/-- A disarm after an arm returns, and it undoes the arm if and only if no phase was tracked, the ledger
had the state that a disarm writes, and it had a list of attempts. -/
theorem disarm_undoes_arm_iff (call : ArmCall) (node armed : RepairNode) (now : Int)
    (harm : repairArm call node = .ok (.armed, armed)) :
    ∃ after, repairDisarm now armed = .ok (true, after) ∧
      (Undone node after ↔
        node.manager.repairPhase = .none ∧
        (readLedger node.ledger).get "repair_state" =
          .str (if node.manager.repairInFlight then "armed" else "idle") ∧
        ((readLedger node.ledger).get "attempts").IsArray) := by
  obtain ⟨after, hdisarm, hphase, hattempts, hstate, hwipes⟩ :=
    repairDisarm_of_armed (armed_of_repairArm harm) now
  refine ⟨after, hdisarm, ?_⟩
  constructor
  · intro hundone
    refine ⟨hundone.phase.symm.trans hphase, hundone.repairState.symm.trans hstate, ?_⟩
    exact ⟨_, hundone.attempts.symm.trans hattempts⟩
  · rintro ⟨hnone, hbefore, harray⟩
    have hsameState := hstate.trans hbefore.symm
    have hsameAttempts := hattempts.trans ((UniValue.isArray_iff _).mp harray).symm
    exact ⟨hsameState, hsameAttempts, hwipes, hphase.trans hnone.symm,
      startManager_congr hsameState hsameAttempts hwipes⟩

namespace Sample

def confirmed : RecoveryManager where
  confirmToken := "token"
  confirmTokenExpiry := 100
  confirmTokenScope := "full"

def armCall : ArmCall where
  confirmToken := "token"
  scope := "full"
  overrideRateLimit := false
  now := 50
  later := 50
  markerWritten := true

def freshNode : RepairNode where
  manager := confirmed
  ledger := .absent
  marker := .absent

def syncingLedger : JsonObject :=
  [("version", .num (.integer 1)), ("attempts", .arr []),
    ("wipes", .arr [.obj [("ts", .num (.integer 10)), ("scope", .str "full")]]),
    ("repair_state", .str "syncing"), ("repair_state_ts", .num (.integer 20))]

def syncingNode : RepairNode where
  manager := { confirmed with repairInFlight := true, repairPhase := .syncing }
  ledger := .content (.obj syncingLedger)
  marker := .absent

end Sample

open Sample in
/-- An arm of a node without a repair. -/
theorem disarm_undoes_arm_iff_fresh :
    ∃ armed after, repairArm armCall freshNode = .ok (.armed, armed) ∧
      repairDisarm 60 armed = .ok (true, after) ∧ Undone freshNode after := by
  have harm : ∃ armed, repairArm armCall freshNode = .ok (.armed, armed) := ⟨_, rfl⟩
  obtain ⟨armed, harm⟩ := harm
  obtain ⟨after, hdisarm, hundone⟩ := disarm_undoes_arm_iff armCall freshNode armed 60 harm
  exact ⟨armed, after, harm, hdisarm, hundone.mpr ⟨rfl, rfl, [], rfl⟩⟩

open Sample in
/-- A repair that was resyncing is armed and disarmed: the restart no longer takes it up. -/
theorem disarm_strands_repair :
    ∃ armed after, repairArm armCall syncingNode = .ok (.armed, armed) ∧
      repairDisarm 60 armed = .ok (true, after) ∧ ¬ Undone syncingNode after ∧
      (∃ started, startManager syncingNode.ledger 70 = .ok started ∧
        started.repairInFlight = true) ∧
      ∃ started, startManager after.ledger 70 = .ok started ∧ started.repairInFlight = false := by
  refine ⟨_, _, rfl, rfl, ?_, ⟨_, rfl, rfl⟩, ⟨_, rfl, rfl⟩⟩
  intro hundone
  cases hundone.phase

end Kerrigan.Recovery
