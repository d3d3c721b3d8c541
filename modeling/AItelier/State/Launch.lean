import AItelier.State.Reserve

namespace AItelier.State

open AItelier.Lib

def releaseBoundOne (actor reason : String) (attempt : Attempt) (db : DB) (claim : Claim) : DB :=
  (retireClaim db actor claim .released reason).event attempt.projectId (some attempt.nodeKey) "claim_released"
    [("claim_id", .str claim.claimId), ("driver_id", .str claim.driverId), ("purpose", .str claim.purpose.text),
      ("fence", .int claim.fence), ("reason", .str reason), ("attempt_id", .str attempt.attemptId),
      ("actor", .str actor), ("break_glass", .bool false)]

/-- `release_bound_claims`: the live claims still bound to this exact attempt stop. -/
def releaseBoundClaims (db : DB) (attempt : Attempt) (actor : String) (resultStatus : AttemptStatus) : DB :=
  (db.claims.filter (fun c => decide (c.attemptId = some attempt.attemptId ∧ c.node = attempt.node ∧
    c.status = .live))).foldl
    (releaseBoundOne actor ("attempt settled as " ++ resultStatus.text) attempt) db

section Preparation

/-- `record_preflight`: a failed one ends the reservation. -/
def recordPreflight (db : DB) (attemptId : String) (report : Json) (error : Option String) :
    Result (Attempt × DB) := do
  let attempt ← attemptOf db attemptId
  ensure (attempt.status = .reserved ∧ attempt.runId = none)
    (.conflict "preflight belongs to an unlaunched reserved attempt")
  match error with
  | some e => do
    let e ← text e "preflight failure" 4000
    let db := db.setAttempt attemptId (fun a => { a with status := .failed, error := some e })
    let row ← attemptOf db attemptId
    return (row, db.event attempt.projectId (some attempt.nodeKey) "attempt_preflight_failed"
      [("attempt_id", .str attemptId), ("report", report), ("error", .str e)])
  | none =>
    return (attempt, db.event attempt.projectId (some attempt.nodeKey) "attempt_preflight_passed"
      [("attempt_id", .str attemptId), ("report", report)])

/-- A pin rewrites the attempt's context and nothing else of its row. -/
def pinContext (db : DB) (attemptId : String) (f : Context → Context) : DB :=
  db.setAttempt attemptId (fun a => { a with context := f a.context })

/-- A relay descriptor without the advice that may move between preparations. -/
def relayBound (relay : Json) : String :=
  match relay with
  | .obj fields => canonical (.obj (fields.filter (fun f => decide (f.1 ≠ "mainline_ahead_by"))))
  | j => canonical j

def pinRelay (db : DB) (attemptId : String) (relay : Json) : Result (Attempt × DB) := do
  ensure (canonical (relay.get "base_sha") ≠ canonical .null ∧ canonical (relay.get "base_sha") ≠ canonical (.str ""))
    (.graph "invalid relay descriptor")
  let attempt ← attemptOf db attemptId
  let relayOf ← orElse attempt.context.relayOf (.conflict "attempt was not reserved with continue_from")
  match attempt.context.relay with
  | some old => do
    ensure (relayBound old = relayBound relay)
      (.conflict "relay inventory changed between preparation and dispatch")
    return (attempt, db)
  | none => do
    ensure (attempt.status = .reserved) (.conflict "relay must be pinned before dispatch")
    let db := pinContext db attemptId (fun c => { c with relay := some relay })
    let row ← attemptOf db attemptId
    return (row, db.event attempt.projectId (some attempt.nodeKey) "attempt_relay_prepared"
      [("attempt_id", .str attemptId), ("relay_of", .str relayOf.attemptId), ("relay", relay)])

/-- `pin_prior_candidate`: never refuses, and writes once. -/
def pinPriorCandidate (db : DB) (attemptId : String) (prior : PriorRow) (value : Json) : Result (Attempt × DB) := do
  let attempt ← attemptOf db attemptId
  if attempt.context.priorCandidate.isSome ∨ attempt.status ≠ .reserved then return (attempt, db)
  else match latestPrior db attempt.node (some attemptId) with
  | none => return (attempt, db)
  | some current => do
    let value := if current.attemptId ≠ prior.attemptId ∨ current.artifactRef ≠ prior.artifactRef then
        unresolvedAccount current priorChanged true none "unresolved"
      else value
    let db := pinContext db attemptId (fun c => { c with priorCandidate := some value })
    let row ← attemptOf db attemptId
    return (row, emitPrior db attempt.node attemptId value false)

/-- `reconcile_prior_candidate`: a compare-and-set on the stored account. -/
def reconcilePriorCandidate (db : DB) (attemptId : String) (expected value : Json) : Result (Attempt × DB) := do
  let attempt ← attemptOf db attemptId
  if canonical (attempt.context.priorCandidate.getD .null) ≠ canonical expected then return (attempt, db)
  else do
    let db := pinContext db attemptId (fun c => { c with priorCandidate := some value })
    let row ← attemptOf db attemptId
    return (row, emitPrior db attempt.node attemptId value true)

structure HostContract where
  sourceRepo : Option String
  seedFile : Option String
  outputStep : Option String
  schedulerOwned : Bool
  codeRepo : Bool
  deriving DecidableEq, Repr

def HostContract.toJson (d : HostContract) : Json :=
  .obj [("source_repo", .ofOption d.sourceRepo), ("seed_file", .ofOption d.seedFile),
    ("output_step", .ofOption d.outputStep), ("scheduler_owned", .bool d.schedulerOwned),
    ("repo_mode", .str (if d.codeRepo then "code" else "none"))]

def pinHostContract (db : DB) (attemptId : String) (descriptor : HostContract) : Result (Attempt × DB) := do
  let _ ← descriptor.sourceRepo.mapM (fun v => text v "source_repo" 4000)
  let _ ← descriptor.seedFile.mapM (fun v => text v "seed_file" 4000)
  let _ ← descriptor.outputStep.mapM (fun v => text v "output_step" 4000)
  let attempt ← attemptOf db attemptId
  ensure (∀ b ∈ lookup SourceBinding.projectId db.sourceBindings attempt.projectId,
      some b.repoPath = descriptor.sourceRepo)
    (.conflict "source binding changed between planning and reservation")
  match attempt.context.hostContract with
  | some old => do
    ensure (canonical old = canonical descriptor.toJson)
      (.conflict "host launch contract changed; retire the unlaunched intent and choose a new request")
    return (attempt, db)
  | none => do
    ensure (attempt.status = .reserved) (.conflict "host contract must be pinned before dispatch")
    let db := pinContext db attemptId (fun c => { c with hostContract := some descriptor.toJson })
    let row ← attemptOf db attemptId
    return (row, db.event attempt.projectId (some attempt.nodeKey) "host_contract_pinned"
      [("attempt_id", .str attemptId), ("descriptor", descriptor.toJson)])

end Preparation

section Launch

def setStatus (db : DB) (attemptId : String) (status : AttemptStatus) : DB :=
  db.setAttempt attemptId (fun a => { a with status := status })

/-- `claim_launch`: the one `reserved` to `launching` transition every launch
passes. Only a call that answers `true` may dispatch. -/
def claimLaunch (host : Host) (db : DB) (caller : Caller) (attemptId : String) (claimId : Option String)
    (fence : Option Int) (current : Stamp) : Result (Bool × DB) := do
  let attempt ← attemptOf db attemptId
  if attempt.status ≠ .reserved then return (false, db)
  else do
    let (breakGlass, rebind) ← launchAuthorization host db attempt caller claimId fence current
    requireDispatch db attempt.node
    let fresh ← pinsCurrent db attempt
    if fresh = false then
      return (false, (setStatus db attemptId .superseded).event attempt.projectId (some attempt.nodeKey)
        "reservation_superseded" [("attempt_id", .str attemptId)])
    else
      return (true, (bindClaim (setStatus db attemptId .launching) rebind attemptId).event attempt.projectId
        (some attempt.nodeKey) "attempt_launching" ([("attempt_id", .str attemptId)] ++
          optional "claim_id" (rebind.map Claim.claimId) .str ++
          (if breakGlass then [("break_glass", .bool true), ("launched_by", .ofOption caller.driverId),
            ("actor", .str caller.actor), ("owner_driver_id", .ofOption attempt.ownerDriverId)] else [])))

/-- `retire_reservation`: cancels only an undispatched intent. -/
def retireReservation (db : DB) (attemptId reason : String) : Result (Attempt × DB) := do
  let reason ← text reason "reservation retirement reason" 4000
  let attempt ← attemptOf db attemptId
  if attempt.status = .superseded ∧ attempt.runId = none then return (attempt, db)
  else do
    ensure (attempt.status = .reserved ∧ attempt.runId = none)
      (.conflict "only an unlaunched reservation can be retired; recover/stop the actual run first")
    let db := db.setAttempt attemptId (fun a => { a with status := .superseded, error := some reason })
    let row ← attemptOf db attemptId
    return (row, db.event attempt.projectId (some attempt.nodeKey) "reservation_retired"
      [("attempt_id", .str attemptId), ("reason", .str reason)])

def launchUncertain (db : DB) (attemptId reason : String) : Result (Attempt × DB) := do
  let reason ← text reason "launch uncertainty" 4000
  let attempt ← attemptOf db attemptId
  if attempt.runId.isSome ∨ (attempt.status ≠ .launching ∧ attempt.status ≠ .unknown) then return (attempt, db)
  else do
    let db := db.setAttempt attemptId (fun a => { a with status := .unknown, error := some reason })
    let row ← attemptOf db attemptId
    return (row, db.event attempt.projectId (some attempt.nodeKey) "launch_uncertain"
      [("attempt_id", .str attemptId), ("reason", .str reason)])

end Launch

section Engine

structure EngineRow where
  id : String
  projectId : String
  graphName : String
  status : String
  graphVersion : Int
  graphDigest : String
  currentNode : Option String
  errorReason : Option String
  deriving DecidableEq, Repr

/-- A complete operation audit: how many owners are lost, unknown and alive. -/
structure Audit where
  lost : Nat
  unknown : Nat
  alive : Nat
  deriving DecidableEq, Repr

/-- What the workflow engine answers at one observation: its row for the run, if
it has one; whether the pinned graph version is in its history; and its
operation audit, if that is complete. -/
structure EngineAnswer where
  row : Option EngineRow
  history : Bool
  audit : Option Audit
  deriving DecidableEq, Repr

def runStatuses : List String :=
  ["pending", "running", "paused", "completed", "failed", "cancelled", "canceled"]

def isGraphDigest (s : String) : Bool :=
  decide (s.toList.take 7 = "sha256:".toList) && isHexList 64 (s.toList.drop 7)

/-- `_engine_row`. -/
def engineRow (engine : EngineAnswer) (runId : String) (attempt : Attempt) : Result EngineRow := do
  let row ← orElse engine.row (.conflict "workflow run is unknown; a missing run is not successful")
  ensure (row.id = runId) (.conflict "workflow run is unknown; a missing run is not successful")
  ensure (some row.projectId = attempt.executionProjectId ∧ some row.graphName = attempt.workflow)
    (.conflict "run belongs to a different execution project or workflow")
  ensure (row.status ∈ runStatuses) (.conflict "unsupported workflow status; retain the attempt")
  ensure (1 ≤ row.graphVersion ∧ isGraphDigest row.graphDigest)
    (.conflict "workflow has no valid version/digest pin")
  ensure (engine.history = true) (.conflict "pinned workflow graph version is missing or inconsistent")
  return row

/-- The write half of `bind_run`, with what its read half established. -/
structure BindCall where
  attemptId : String
  runId : String
  row : EngineRow

def bindRunRead (db : DB) (attemptId runId : String) (engine : EngineAnswer) : Result BindCall := do
  let _ ← key runId "run id"
  let attempt ← attemptOf db attemptId
  ensure (attempt.executionKind = .skillflow)
    (.conflict "an external attempt cannot be bound to a SkillFlow run")
  let row ← engineRow engine runId attempt
  return ⟨attemptId, runId, row⟩

def bindRunWrite (db : DB) (call : BindCall) : Result (Attempt × DB) := do
  let current ← attemptOf db call.attemptId
  match current.runId with
  | some bound => do
    ensure (bound = call.runId) (.conflict "attempt is already bound to another run")
    return (current, db)
  | none => do
    ensure (current.status.active = true) (.conflict "terminal attempt cannot be rebound")
    ensure (¬ db.attempts.any (fun a => decide (a.runId = some call.runId)))
      (.conflict "run is already assigned to an attempt")
    let db := db.setAttempt call.attemptId (fun a => { a with
      runId := some call.runId, graphVersion := some call.row.graphVersion,
      graphDigest := some call.row.graphDigest,
      status := if call.row.status = "paused" then .paused else .running, error := none })
    let row ← attemptOf db call.attemptId
    return (row, db.event current.projectId (some current.nodeKey) "attempt_bound"
      [("attempt_id", .str call.attemptId), ("run_id", .str call.runId),
        ("graph_version", .int call.row.graphVersion), ("graph_digest", .str call.row.graphDigest)])

/-- The statuses an execution can be observed in, by its engine or its harness. -/
inductive ReportStatus
  | running | paused | unknown | candidate | failed
  deriving DecidableEq, Repr

def ReportStatus.status : ReportStatus → AttemptStatus
  | .running => .running | .paused => .paused | .unknown => .unknown
  | .candidate => .candidate | .failed => .failed

def ReportStatus.terminal : ReportStatus → Bool
  | .candidate | .failed => true
  | .running | .paused | .unknown => false

/-- The write half of `reconcile`: the engine's row and the status its answer
maps to. -/
structure ReconcileCall where
  attemptId : String
  row : EngineRow
  status : ReportStatus
  candidateArtifact : Option String
  actor : Option String

def settledRun (status : String) : Bool :=
  status ∈ ["completed", "failed", "cancelled", "canceled"]

/-- The status of an engine outcome whose operations are all retired. -/
def outcomeStatus (status : String) : ReportStatus :=
  if status = "completed" then .candidate
  else if status ∈ ["failed", "cancelled", "canceled"] then .failed
  else if status = "paused" then .paused
  else .running

def observedStatus (engine : EngineAnswer) (status : String) : Result ReportStatus :=
  if settledRun status then do
    let audit ← orElse engine.audit (.conflict "operation audit is incomplete; quiescence is unknown")
    if audit.lost ≠ 0 ∨ audit.unknown ≠ 0 ∨ audit.alive ≠ 0 then return .unknown
    else return outcomeStatus status
  else return outcomeStatus status

def reconcileRead (db : DB) (attemptId : String) (engine : EngineAnswer) (candidateArtifact actor : Option String) :
    Result ReconcileCall := do
  let attempt ← attemptOf db attemptId
  ensure (attempt.executionKind = .skillflow)
    (.conflict "use the external observation adapter, not SkillFlow reconciliation")
  let runId ← orElse attempt.runId (.conflict "attempt has no run; recover its launch first")
  let row ← engineRow engine runId attempt
  ensure (some row.graphVersion = attempt.graphVersion ∧ some row.graphDigest = attempt.graphDigest)
    (.conflict "workflow definition pin changed")
  let _ ← candidateArtifact.mapM artifactRef
  let status ← observedStatus engine row.status
  return ⟨attemptId, row, status, candidateArtifact, actor⟩

def workflowObservation (row : EngineRow) : Json :=
  .obj [("workflow_status", .str row.status), ("current_node", .ofOption row.currentNode),
    ("error_reason", .ofOption row.errorReason)]

/-- The last recorded observation of this attempt's run. -/
def priorObservation (db : DB) (attempt : Attempt) : Json :=
  ((latest (fun e => decide (e.projectId = attempt.projectId ∧ e.nodeKey = some attempt.nodeKey ∧
      e.eventType = "attempt_observed" ∧
      canonical (e.payload.get "attempt_id") = canonical (.str attempt.attemptId))) db.events).map
    (fun e => e.payload.get "workflow_observation")).getD .null

/-- The acceptance that stands on this attempt, if the node has one. -/
def acceptedBy (db : DB) (node : Node) (attemptId : String) : Bool :=
  match node.verifiedReceipt with
  | some receipt => (db.acceptance? receipt).map Acceptance.attemptId = some attemptId
  | none => false

/-- The accepted attempt stopped being a candidate: its acceptance and every
dependent one go. -/
def retract (db : DB) (attempt : Attempt) (reason : String) : DB :=
  (invalidate db attempt.projectId attempt.nodeKey).event attempt.projectId (some attempt.nodeKey)
    "acceptance_invalidated" [("reason", .str reason),
      ("invalidated", .strings (affected db attempt.projectId attempt.nodeKey)),
      ("attempt_id", .str attempt.attemptId)]

/-- Where the outcome is no candidate, an acceptance that stood on it goes. -/
def retractAccepted (db : DB) (node : Node) (attempt : Attempt) (status : AttemptStatus) (reason : String) : DB :=
  if status ≠ .candidate ∧ acceptedBy db node attempt.attemptId then retract db attempt reason else db

/-- The row of a run with this outcome. -/
def settledRow (status : AttemptStatus) (artifact : Option String) (row : EngineRow) (a : Attempt) : Attempt :=
  { a with status := status, artifactRef := artifact, error := row.errorReason }

/-- The outcome of a run, and the end of an acceptance that it takes away. -/
def settleRun (db : DB) (node : Node) (current : Attempt) (status : AttemptStatus) (artifact : Option String)
    (row : EngineRow) : DB :=
  (retractAccepted db node current status "accepted workflow no longer has a valid candidate outcome").setAttempt
    current.attemptId (settledRow status artifact row)

/-- A candidate offers its node for review, whichever attempt of the node it is. -/
def offerCandidate (n : Node) : Node :=
  if n.status = .VERIFIED then n else { n with status := .CANDIDATE }

/-- What a changed observation of a run writes. -/
def writeReconciled (db : DB) (node : Node) (current : Attempt) (status : AttemptStatus)
    (artifact : Option String) (row : EngineRow) (fresh : Bool) : DB :=
  let db := settleRun db node current status artifact row
  let db := if status = .candidate then db.setNode current.node offerCandidate else db
  db.event current.projectId (some current.nodeKey) "attempt_observed"
    [("attempt_id", .str current.attemptId), ("status", .str status.text), ("artifact_ref", .ofOption artifact),
      ("stale_inputs", .bool (!fresh)), ("workflow_observation", workflowObservation row)]

/-- The status the write half records: a settled outcome on stale inputs is
superseded. -/
def reconciledStatus (call : ReconcileCall) (fresh : Bool) : AttemptStatus :=
  if call.status.terminal && !fresh then .superseded else call.status.status

def reconciledArtifact (call : ReconcileCall) (current : Attempt) (status : AttemptStatus) :
    Result (Option String) :=
  match call.candidateArtifact with
  | some c =>
    if status = .candidate then do
      ensure (∀ a ∈ current.artifactRef, a = c)
        (.conflict "candidate artifact is immutable; create another attempt")
      return some c
    else return current.artifactRef
  | none => return current.artifactRef

def attentionChanged (db : DB) (current : Attempt) (status : AttemptStatus) (row : EngineRow) : Bool :=
  decide (status = .paused ∨ status = .unknown ∨ status = .failed) &&
    decide (canonical (priorObservation db current) ≠ canonical (workflowObservation row))

def reconcileWrite (db : DB) (call : ReconcileCall) : Result (Attempt × Bool × DB) := do
  let current ← attemptOf db call.attemptId
  ensure (current.runId = some call.row.id) (.conflict "attempt binding changed")
  let fresh ← pinsCurrent db current
  let status := reconciledStatus call fresh
  ensure (¬ (current.status.active = false ∧ status.active = true))
    (.conflict "terminal attempt's run was revived; use a new attempt")
  ensure (current.status ≠ .abandoned)
    (.conflict "attempt was abandoned; its run outcome is historical - use a new attempt")
  let artifact ← reconciledArtifact call current status
  let node ← nodeOf db current.projectId current.nodeKey
  let changed := decide (current.status ≠ status ∨ artifact ≠ current.artifactRef) ||
    attentionChanged db current status call.row
  let db := if changed then writeReconciled db node current status artifact call.row fresh else db
  let db := if call.status.terminal then
      releaseBoundClaims db current (call.actor.getD "workflow-reconcile") status
    else db
  let row ← attemptOf db call.attemptId
  return (row, !fresh, db)

end Engine

end AItelier.State
