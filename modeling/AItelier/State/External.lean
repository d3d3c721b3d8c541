import AItelier.State.Acceptance

namespace AItelier.State

open AItelier.Lib

def legacyActor : String := "authorized-state-operator"

/-- `actor_continues`: exact match, a driver after the shared legacy operator, or
an owner's plain email continuing as `owner:<email>`. -/
def actorContinues (ownerActor : Option String) (actor : String) : Bool :=
  decide (ownerActor = some actor) ||
    (decide (ownerActor = some legacyActor) && decide (actor.toList.take 7 = "driver:".toList)) ||
    (truthy ownerActor && decide (actor = "owner:" ++ ownerActor.getD ""))

/-- `_authorize_report`: whether the report is late, or the refusal of a reporter
that is not the attempt's own. -/
def authorizeReport (db : DB) (caller : Caller) (a : Attempt) (fence : Option Int) : Result Bool :=
  let continues := actorContinues a.reportingActor caller.actor
  match a.ownerDriverId, caller.driverId with
  | some owner, some driver =>
    if a.status = .abandoned then do
      ensure (continues = true ∨ owner = driver)
        (.conflict "external observation belongs to a different authenticated reporter")
      return true
    else if owner ≠ driver then
      if continues then
        throw (.claim .staleFence ("attempt " ++ a.attemptId ++ " is now owned by driver " ++ owner ++
          " (fence " ++ toString a.ownerFence ++ "); your fence is stale"))
      else throw (.claim .notAttemptOwner ("attempt belongs to driver " ++ owner))
    else match fence with
      | none => do
        ensure (enforced db a.projectId = false) (.claim .fenceRequired
          "this project enforces claims: pass fence=<owner_fence> with every report")
        return false
      | some f => do
        ensure (f = a.ownerFence) (.claim .staleFence ("attempt owner fence is " ++ toString a.ownerFence ++
          ", not " ++ toString f ++ "; reload"))
        return false
  | _, _ => do
    ensure (continues = true) (.conflict "external observation belongs to a different authenticated reporter")
    ensure (∀ f ∈ fence, a.ownerFence ≠ 0 → f = a.ownerFence)
      (.claim .staleFence ("attempt owner fence is " ++ toString a.ownerFence ++ ", not " ++
        toString (fence.getD 0)))
    return decide (a.status = .abandoned)

structure ObserveRequest where
  attemptId : String
  observationId : String
  expectedVersion : Int
  contextHash : String
  status : ReportStatus
  reportRef : String
  reportSha256 : String
  quiescent : Bool
  artifact : Option String
  artifactKind : Option ArtifactKind
  detail : String
  fence : Option Int

/-- What retention outside the transaction gave: the retained report, and the
recoverable Git artifact of a `git-sha1` candidate. Each is a refusal where the
bytes are missing or malformed. -/
structure Retention where
  report : Except StateError (String × List UInt8)
  candidate : Except StateError GitArtifact

/-- The payload an observation is fingerprinted by. -/
def observationPayload (caller : Caller) (r : ObserveRequest) (reportRef : String) : Json :=
  .obj [("attempt_id", .str r.attemptId), ("observation_id", .str r.observationId),
    ("expected_version", .int r.expectedVersion), ("context_hash", .str r.contextHash),
    ("status", .str r.status.status.text), ("report_ref", .str reportRef),
    ("report_sha256", .str r.reportSha256), ("quiescent", .bool r.quiescent),
    ("artifact", .ofOption r.artifact), ("artifact_kind", .ofOption (r.artifactKind.map ArtifactKind.text)),
    ("detail", .str r.detail), ("actor", .str caller.actor)]

def ObserveRequest.validate (r : ObserveRequest) : Result ObserveRequest := do
  let _ ← key r.observationId "observation id"
  let _ ← integer r.expectedVersion "expected observation version" 0 2147483646
  ensure (isHexOf 64 r.contextHash) (.graph "context hash must be 64 lowercase hexadecimal characters")
  ensure (isHexOf 64 r.reportSha256) (.graph "report SHA-256 must be 64 lowercase hexadecimal characters")
  let reportRef ← text r.reportRef "report reference" 2000
  bounded r.detail 8000 "detail must be bounded text"
  ensure (r.status.terminal = true → r.quiescent = true)
    (.conflict "terminal result needs the external harness to attest all relevant workers/operations are quiescent")
  return { r with reportRef := reportRef }

/-- The write half of `observe`: the call with its retained report and artifact. -/
structure ObserveCall where
  caller : Caller
  request : ObserveRequest
  reportRef : String
  reportBytes : Option (List UInt8)
  gitArtifact : Option GitArtifact

inductive Observed
  | replayed (row : Attempt) (observation : Observation)
  | pending (call : ObserveCall)

def freshReport (db : DB) (sha : String) : Result Unit :=
  ensure (¬ db.observations.any (fun o => decide (o.reportSha256 = sha)))
    (.conflict ("candidate report digest was already bound to an earlier observation; " ++
      "produce a fresh report for this candidate"))

/-- A settling report is retained before it counts. -/
def retainedReport (r : ObserveRequest) (late : Bool) (kept : Retention) :
    Result (String × Option (List UInt8)) :=
  if r.status.terminal || (r.quiescent && late) then kept.report.map (fun p => (p.1, some p.2))
  else return (r.reportRef, none)

/-- The report and artifact a call carries into its write half. -/
def retain (caller : Caller) (r : ObserveRequest) (late : Bool) (kept : Retention) : Result ObserveCall := do
  let report ← retainedReport r late kept
  match r.status with
  | .candidate => do
    let kind ← orElse r.artifactKind
      (.graph "candidate requires an exact artifact digest and explicit git-sha1 or sha256 kind")
    ensure (∃ a ∈ r.artifact, isHexOf kind.size a)
      (.graph "candidate requires an exact artifact digest and explicit git-sha1 or sha256 kind")
    match kind with
    | .gitSha1 => do
      let git ← kept.candidate
      return ⟨caller, r, report.1, report.2, some git⟩
    | .sha256 => return ⟨caller, r, report.1, report.2, none⟩
  | _ => do
    ensure (r.artifact = none ∧ r.artifactKind = none)
      (.graph "only a candidate report may declare the immutable artifact")
    return ⟨caller, r, report.1, report.2, none⟩

/-- The read half of `observe`: authorisation, replay and ordering, judged before
any report is retained. -/
def observeRead (host : Host) (db : DB) (caller : Caller) (request : ObserveRequest) (kept : Retention) :
    Result Observed := do
  let r ← request.validate
  let owner ← attemptOf db r.attemptId
  ensure (owner.executionKind = .external)
    (.conflict "external reports cannot complete or override a SkillFlow attempt")
  let late ← authorizeReport db caller owner r.fence
  ensure (r.contextHash = host.digest owner.context.toJson)
    (.conflict "report describes a different frozen goal/contract/dependency context")
  match observation? db r.attemptId r.observationId with
  | some prior => do
    ensure (host.digest (observationPayload caller r prior.reportRef) = prior.payloadHash)
      (.conflict "observation ID was already used with a different payload; append a new correction")
    return .replayed owner prior
  | none => do
    ensure ((owner.observationVersion : Int) = r.expectedVersion)
      (.conflict "external observation version changed; reload before appending")
    ensure (owner.status ≠ .failed ∧ owner.status ≠ .superseded)
      (.conflict "this external attempt is terminal; use a new attempt")
    whenever (r.status = .candidate) (freshReport db r.reportSha256)
    let call ← retain caller r late kept
    return .pending call

/-- `store_candidate`: insert-once custody of a recoverable commit. -/
def storeCandidate (db : DB) (artifact : Option GitArtifact) : Result DB :=
  match artifact with
  | none => return db
  | some git =>
    match lookup GitArtifact.commitSha db.gitArtifacts git.commitSha with
    | some old => do
      ensure (old.treeSha = git.treeSha) (.conflict "retained commit has conflicting tree identity")
      return db
    | none => return { db with gitArtifacts := db.gitArtifacts ++ [git] }

def storeReport (db : DB) (call : ObserveCall) : Result DB :=
  match call.reportBytes with
  | some bytes => storeReportBlob db call.reportRef call.request.reportSha256 bytes
  | none => return db

def observationRow (host : Host) (call : ObserveCall) (a : Attempt) (resulting : AttemptStatus)
    (late : Bool) : Observation where
  attemptId := a.attemptId
  observationId := call.request.observationId
  version := a.observationVersion + 1
  status := call.request.status.status
  resultingStatus := resulting
  quiescent := call.request.quiescent
  artifactRef := call.request.artifact
  artifactKind := call.request.artifactKind
  reportRef := call.reportRef
  reportSha256 := call.request.reportSha256
  actor := call.caller.actor
  detail := call.request.detail
  payloadHash := host.digest (observationPayload call.caller call.request call.reportRef)
  contextHash := call.request.contextHash
  lateAfterAbandon := late
  fence := call.request.fence

/-- The row, the report and the artifact of one observation. -/
def appendObservation (db : DB) (call : ObserveCall) (row : Observation) : Result DB := do
  let db ← storeReport db call
  let db ← storeCandidate db call.gitArtifact
  ensure (¬ db.observations.any (fun o => decide (o.attemptId = row.attemptId ∧
      (o.observationId = row.observationId ∨ o.version = row.version))))
    (.integrity "state_external_observations")
  return { db with observations := db.observations ++ [row] }

def observedEvent (db : DB) (call : ObserveCall) (a : Attempt) (row : Observation) (current : Bool)
    (extra : List (String × Json)) : DB :=
  db.event a.projectId (some a.nodeKey) "external_attempt_observed" ([("attempt_id", .str a.attemptId),
    ("observation_id", .str row.observationId), ("version", .int row.version),
    ("status", .str row.resultingStatus.text), ("report_sha256", .str row.reportSha256),
    ("quiescent", .bool row.quiescent), ("actor", .str call.caller.actor), ("stale_inputs", .bool (!current)),
    ("fence", .ofIntOption call.request.fence)] ++ extra)

/-- A quiescent report settles the owner row of an abandoned attempt. -/
def settlesOwner (db : DB) (r : ObserveRequest) (a : Attempt) : Bool :=
  r.quiescent && (lookup ExternalOwner.attemptId db.owners a.attemptId).any (fun o => decide (o.status = .abandoned))

def settleAbandoned (db : DB) (r : ObserveRequest) (a : Attempt) (now : Stamp) : DB :=
  if settlesOwner db r a then
    { db with
      owners := modifyWhere (fun o => decide (o.attemptId = a.attemptId ∧ o.status = .abandoned))
        (fun o => { o with status := .settled, settledAt := some now }) db.owners }
  else db

/-- A report on an abandoned attempt: the row is kept as late, the version moves,
and a quiescent one settles the owner row. The attempt stays abandoned. -/
def writeLate (db : DB) (call : ObserveCall) (a : Attempt) (row : Observation) (current : Bool) (now : Stamp) : DB :=
  let settles := settlesOwner db call.request a
  let db := db.setAttempt a.attemptId (fun x => { x with observationVersion := row.version })
  let db := settleAbandoned db call.request a now
  observedEvent db call a row current [("reported_status", .str call.request.status.status.text),
    ("late_after_abandon", .bool true), ("owner_settled", .bool settles)]

def ownerStatusOf : AttemptStatus → OwnerStatus
  | .running => .active
  | .paused => .paused
  | .unknown => .unknown
  | _ => .settled

def settleOwner (db : DB) (attemptId : String) (status : OwnerStatus) (now : Stamp) : DB :=
  { db with
    owners := modifyWhere (fun o => decide (o.attemptId = attemptId))
      (fun o => { o with status := status, settledAt := if status = .settled then some now else none })
      db.owners }

/-- The row of an external attempt after a report. -/
def observedRow (r : ObserveRequest) (row : Observation) (x : Attempt) : Attempt :=
  { x with
    status := row.resultingStatus, observationVersion := row.version,
    artifactRef := if r.status = .candidate then r.artifact else x.artifactRef,
    artifactKind := if r.status = .candidate then r.artifactKind else x.artifactKind,
    terminalObservationId := if r.status.terminal then some r.observationId else x.terminalObservationId,
    error := if r.status = .failed then some r.detail else none }

/-- The owner row and the attempt after a report, and the end of an acceptance
that it takes away. -/
def settleObserved (db : DB) (r : ObserveRequest) (a : Attempt) (row : Observation) (node : Node) (now : Stamp) :
    DB :=
  (retractAccepted (settleOwner db a.attemptId (ownerStatusOf row.resultingStatus) now) node a row.resultingStatus
    "external harness retracted its accepted candidate").setAttempt a.attemptId (observedRow r row)

/-- A candidate offers its node for review if it is the node's latest attempt. -/
def offerObserved (db : DB) (a : Attempt) (row : Observation) (node : Node) : DB :=
  if row.resultingStatus = .candidate ∧ isLatest db a = true ∧ node.status ≠ .VERIFIED then
    db.setNode a.node (fun n => { n with status := .CANDIDATE })
  else db

/-- A settled attempt gives up its claims where a driver owns it. -/
def releaseSettled (db : DB) (call : ObserveCall) (a : Attempt) (row : Observation) : DB :=
  if call.request.status.terminal && truthy a.ownerDriverId then
    releaseBoundClaims db a call.caller.actor row.resultingStatus
  else db

/-- A report on an attempt that still counts. -/
def writeObserved (db : DB) (call : ObserveCall) (a : Attempt) (row : Observation) (node : Node) (current : Bool)
    (now : Stamp) : DB :=
  let db := offerObserved (settleObserved db call.request a row node now) a row node
  releaseSettled (observedEvent db call a row current []) call a row

/-- The write half of `observe`. -/
def observeWrite (host : Host) (db : DB) (call : ObserveCall) (now : Stamp) : Result (Attempt × Observation × DB) := do
  let r := call.request
  let db := markBack db call.caller.driverId now
  let a ← attemptOf db r.attemptId
  ensure (a.executionKind = .external)
    (.conflict "external reports cannot complete or override a SkillFlow attempt")
  let late ← authorizeReport db call.caller a r.fence
  ensure (¬ (late = true ∧ r.quiescent = true ∧ call.reportBytes = none))
    (.conflict "a quiescence attestation on an abandoned attempt needs its retained report")
  match observation? db r.attemptId r.observationId with
  | some prior => do
    ensure (prior.payloadHash = host.digest (observationPayload call.caller r call.reportRef))
      (.conflict "observation ID was already used with a different payload; append a new correction")
    return (a, prior, db)
  | none => do
    ensure (r.contextHash = host.digest a.context.toJson)
      (.conflict "report describes a different frozen goal/contract/dependency context")
    ensure ((a.observationVersion : Int) = r.expectedVersion)
      (.conflict "external observation version changed; reload before appending")
    ensure (a.status ≠ .failed ∧ a.status ≠ .superseded)
      (.conflict "this external attempt is terminal; use a new attempt")
    ensure (a.status = .candidate → r.status = .failed)
      (.conflict "candidate completion is immutable; record evidence or start a new attempt")
    whenever (r.status = .candidate) (freshReport db r.reportSha256)
    let current ← pinsCurrent db a
    let resulting := if late || (r.status.terminal && !current) then .superseded else r.status.status
    let row := observationRow host call a resulting late
    let db ← appendObservation db call row
    if late then
      let db := writeLate db call a row current now
      let updated ← attemptOf db r.attemptId
      return (updated, row, db)
    else do
      ensure ((lookup ExternalOwner.attemptId db.owners a.attemptId).isSome)
        (.conflict "external attempt has no durable owner registration")
      let node ← nodeOf db a.projectId a.nodeKey
      let db := writeObserved db call a row node current now
      let updated ← attemptOf db r.attemptId
      return (updated, row, db)

end AItelier.State
