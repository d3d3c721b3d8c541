import AItelier.State.Launch

namespace AItelier.State

open AItelier.Lib

/-- `store_report_blob`: bytes are kept once under their digest. -/
def storeReportBlob (db : DB) (reportRef reportSha256 : String) (reportBytes : List UInt8) : Result DB :=
  match lookup ReportBlob.reportSha256 db.blobs reportSha256 with
  | some retained => do
    ensure (retained.reportBytes = reportBytes ∧ retained.retainedRef = reportRef)
      (.conflict "persistent report bytes conflict with the supplied digest")
    return db
  | none => return { db with blobs := db.blobs ++ [⟨reportSha256, reportBytes, reportRef⟩] }

/-- Nonempty retained bytes that have the digest and the reference. -/
def reportRetained (host : Host) (db : DB) (reportSha256 reportRef : String) : Bool :=
  match lookup ReportBlob.reportSha256 db.blobs reportSha256 with
  | some blob => decide (blob.reportBytes ≠ [] ∧ host.sha256Bytes blob.reportBytes = reportSha256 ∧
      blob.retainedRef = reportRef)
  | none => false

def observation? (db : DB) (attemptId observationId : String) : Option Observation :=
  db.observations.find? (fun o => decide (o.attemptId = attemptId ∧ o.observationId = observationId))

/-- The observation that settled an external attempt. -/
def terminalObservation (db : DB) (a : Attempt) : Option Observation :=
  a.terminalObservationId.bind (observation? db a.attemptId)

def isLatest (db : DB) (a : Attempt) : Bool :=
  decide ((db.latestAttempt a.node).map Attempt.attemptId = some a.attemptId)

/-- The external half of `_eligible_candidate`. -/
def externalCandidate (host : Host) (db : DB) (a : Attempt) : Result Unit := do
  let report ← orElse ((terminalObservation db a).filter (fun o => decide (o.status = .candidate ∧
      o.quiescent = true ∧ o.artifactRef = a.artifactRef ∧ o.artifactKind = a.artifactKind)))
    (.conflict "external candidate lacks a complete scoped quiescent observation")
  ensure (reportRetained host db report.reportSha256 report.reportRef = true)
    (.conflict "external candidate lacks immutable validated report bytes")

/-- `_eligible_candidate`. -/
def eligibleCandidate (host : Host) (db : DB) (a : Attempt) : Result Unit := do
  whenever (a.executionKind = .external) (externalCandidate host db a)
  ensure (a.status = .candidate ∧ truthy a.artifactRef = true)
    (.conflict "a completed candidate with a pinned artifact is required")
  let fresh ← pinsCurrent db a
  ensure (fresh = true)
    (.conflict "candidate inputs are stale; re-run/re-validate against current dependencies")
  ensure (isLatest db a = true) (.conflict "a newer attempt supersedes this candidate")

/-- The SkillFlow half of `_eligible_failed_evidence`: the bound run is observed
again and must have failed with nothing left running. -/
def failedRun (engine : Option EngineAnswer) (a : Attempt) : Result Unit := do
  let engine ← orElse engine (.conflict "failed workflow evidence requires its bound execution runtime")
  let runId ← orElse a.runId (.conflict "failed workflow evidence requires its bound execution runtime")
  let row ← engineRow engine runId a
  ensure (row.status = "failed" ∧ some row.graphVersion = a.graphVersion ∧ some row.graphDigest = a.graphDigest)
    (.conflict "failed workflow outcome or definition pin changed")
  ensure (engine.audit = some ⟨0, 0, 0⟩) (.conflict "failed workflow has unretired or unknown operations")

def failedExternal (host : Host) (db : DB) (a : Attempt) : Result Unit := do
  let report ← orElse ((terminalObservation db a).filter (fun o => decide (o.status = .failed ∧
      o.resultingStatus = .failed ∧ o.quiescent = true) &&
      ((lookup ExternalOwner.attemptId db.owners a.attemptId).any (fun w =>
        decide (w.status = .settled) && w.settledAt.isSome))))
    (.conflict "failed external attempt lacks a complete scoped quiescent observation")
  ensure (reportRetained host db report.reportSha256 report.reportRef = true)
    (.conflict "failed external attempt lacks immutable validated report bytes")

/-- The artifact a failed attempt's evidence is bound to: its own, else the one
its first evidence row named. -/
def failedScope (db : DB) (a : Attempt) : Option String :=
  match a.artifactRef with
  | some art => if art = "" then firstArtifact else some art
  | none => firstArtifact
where
  firstArtifact : Option String :=
    (db.evidence.find? (fun e => decide (e.attemptId = a.attemptId))).map Evidence.artifactRef

/-- `_eligible_failed_evidence`. -/
def eligibleFailedEvidence (host : Host) (db : DB) (a : Attempt) (artifact : String)
    (engine : Option EngineAnswer) : Result Unit := do
  match a.executionKind with
  | .skillflow => failedRun engine a
  | .external => failedExternal host db a
  let fresh ← pinsCurrent db a
  ensure (fresh = true) (.conflict "failed attempt inputs are stale; evidence must match the current contract")
  ensure (isLatest db a = true) (.conflict "a newer attempt supersedes this failed attempt")
  ensure (∀ s ∈ failedScope db a, s = "" ∨ s = artifact)
    (.conflict "failed-attempt criterion evidence must describe the same artifact")

structure EvidenceRequest where
  attemptId : String
  evidenceId : String
  criterionId : String
  verdict : Verdict
  artifact : String
  reportRef : String
  reportSha256 : String
  reviewer : String
  detail : String
  reportBytes : Option (List UInt8)
  directorIdentity : Option String
  engine : Option EngineAnswer

/-- The payload an evidence row is fingerprinted by, after validation. -/
def evidencePayload (r : EvidenceRequest) : List (String × Json) :=
  [("attempt_id", .str r.attemptId), ("criterion_id", .str r.criterionId), ("verdict", .str r.verdict.text),
    ("artifact_ref", .str r.artifact), ("report_ref", .str r.reportRef),
    ("report_sha256", .str r.reportSha256), ("reviewer", .str r.reviewer), ("detail", .str r.detail)] ++
    optional "director_identity" r.directorIdentity .str

def EvidenceRequest.validate (r : EvidenceRequest) : Result EvidenceRequest := do
  let identity ← evidenceDirectorIdentity r.directorIdentity
  let _ ← key r.evidenceId "evidence id"
  let _ ← key r.criterionId "criterion id"
  let _ ← artifactRef r.artifact
  ensure (isHexOf 64 r.reportSha256) (.graph "report_sha256 must pin the complete report bytes")
  let reportRef ← text r.reportRef "report reference" 2000
  let reviewer ← text r.reviewer "verifier identity" 300
  bounded r.detail 8000 "evidence detail must be bounded text"
  return { r with directorIdentity := identity, reportRef := reportRef, reviewer := reviewer }

def storeOptionalBlob (db : DB) (r : EvidenceRequest) : Result DB :=
  match r.reportBytes with
  | some bytes => storeReportBlob db r.reportRef r.reportSha256 bytes
  | none => return db

/-- Which attempts take evidence: a failed one for diagnosis, one row for each
criterion; any other only as an eligible candidate. -/
def evidenceGuard (host : Host) (db : DB) (attempt : Attempt) (r : EvidenceRequest) : Result Unit :=
  if attempt.status = .failed then do
    ensure (r.verdict ≠ .skip) (.graph "failed-attempt criterion evidence verdict must be pass or fail")
    eligibleFailedEvidence host db attempt r.artifact r.engine
    ensure (¬ db.evidence.any (fun e => decide (e.attemptId = r.attemptId ∧ e.criterionId = r.criterionId)))
      (.conflict "failed attempt already has evidence for this criterion; exactly one row is permitted")
  else do
    eligibleCandidate host db attempt
    ensure (attempt.artifactRef = some r.artifact) (.conflict "evidence describes a different artifact")

def evidenceRow (host : Host) (r : EvidenceRequest) (kind : CheckKind) : Evidence where
  evidenceId := r.evidenceId
  attemptId := r.attemptId
  criterionId := r.criterionId
  kind := kind
  verdict := r.verdict
  artifactRef := r.artifact
  reportRef := r.reportRef
  reportSha256 := r.reportSha256
  reviewer := r.reviewer
  detail := r.detail
  payloadHash := host.digest (.obj (evidencePayload r))
  directorIdentity := r.directorIdentity

/-- The row, and the end of an acceptance it supersedes. -/
def writeEvidence (db : DB) (node : Node) (attempt : Attempt) (row : Evidence) : DB :=
  let db := { db with evidence := db.evidence ++ [row] }
  if truthy node.verifiedReceipt ∧ attempt.status ≠ .failed then
    (invalidate db attempt.projectId attempt.nodeKey).event attempt.projectId (some attempt.nodeKey)
      "acceptance_invalidated" [("reason", .str "new evidence supersedes an accepted observation"),
        ("invalidated", .strings (affected db attempt.projectId attempt.nodeKey))]
  else db

/-- `record_evidence`. -/
def recordEvidence (host : Host) (db : DB) (r : EvidenceRequest) : Result (Evidence × DB) := do
  let r ← r.validate
  let attempt ← attemptOf db r.attemptId
  match lookup Evidence.evidenceId db.evidence r.evidenceId with
  | some prior => do
    ensure (prior.payloadHash = host.digest (.obj (evidencePayload r)))
      (.conflict "evidence id already used with different content")
    let db ← storeOptionalBlob db r
    return (prior, db)
  | none => do
    evidenceGuard host db attempt r
    ensure (¬ db.observations.any (fun o => decide (o.reportSha256 = r.reportSha256)))
      (.conflict ("verifier evidence must have a report independent of every external " ++
        "candidate observation; produce a fresh review report"))
    let db ← storeOptionalBlob db r
    let check ← orElse (attempt.context.acceptance.find? (fun c => decide (c.id = r.criterionId)))
      (.graph "evidence criterion is not in the pinned acceptance contract")
    let node ← nodeOf db attempt.projectId attempt.nodeKey
    let row := evidenceRow host r check.kind
    return (row, (writeEvidence db node attempt row).event attempt.projectId (some attempt.nodeKey)
      "evidence_recorded" (evidencePayload r ++ [("evidence_id", .str r.evidenceId), ("actor", .str r.reviewer)]))

/-- The latest evidence row of one criterion. -/
def latestEvidence (db : DB) (attemptId criterionId : String) : Option Evidence :=
  latest (fun e => decide (e.attemptId = attemptId ∧ e.criterionId = criterionId)) db.evidence

/-- The criteria whose latest evidence is missing or no pass. -/
def unmetCriteria (db : DB) (attemptId : String) (required : List Check) : List String :=
  (required.filter (fun c => decide ((latestEvidence db attemptId c.id).map Evidence.verdict ≠ some .pass))).map
    Check.id

/-- The latest row of every criterion the attempt has evidence for. -/
def latestRows (db : DB) (attemptId : String) : List Evidence :=
  (((db.evidence.filter (fun e => decide (e.attemptId = attemptId))).map Evidence.criterionId).dedup).filterMap
    (latestEvidence db attemptId)

def acceptedEvidenceIds (db : DB) (attemptId : String) (required : List Check) : List String :=
  required.filterMap (fun c => (latestEvidence db attemptId c.id).map Evidence.evidenceId)

def acceptanceRow (db : DB) (node : Node) (attempt : Attempt) (reviewer rid : String) : Acceptance where
  receiptId := rid
  projectId := node.projectId
  nodeKey := node.nodeKey
  nodeRevision := node.revision
  attemptId := attempt.attemptId
  artifactRef := attempt.artifactRef.getD ""
  contractHash := node.contractHash
  dependencySnapshot := attempt.dependencySnapshot
  evidenceIds := acceptedEvidenceIds db attempt.attemptId node.contract
  reviewer := reviewer

/-- The receipt, and the node that now rests on it. -/
def writeAcceptance (db : DB) (row : Acceptance) : DB :=
  { db with acceptances := db.acceptances ++ [row] }.setNode (row.projectId, row.nodeKey) (fun n => { n with
    status := .VERIFIED, verifiedReceipt := some row.receiptId })

/-- `verify`. -/
def verify (host : Host) (db : DB) (projectId nodeKey : String) (expectedRevision : Int)
    (attemptId reviewer : String) (requireReportBytes : Bool) (uid : String) : Result (Acceptance × DB) := do
  let _ ← integer expectedRevision "expected_revision" 1 1000000
  let reviewer ← text reviewer "acceptance reviewer" 300
  let node ← nodeOf db projectId nodeKey
  let attempt ← attemptOf db attemptId
  ensure (attempt.projectId = projectId ∧ attempt.nodeKey = nodeKey ∧ (node.revision : Int) = expectedRevision)
    (.conflict "acceptance target or revision mismatch")
  eligibleCandidate host db attempt
  ensure (unmetCriteria db attemptId node.contract = [])
    (.conflict ("missing/failed/skipped acceptance evidence: " ++
      String.intercalate ", " (unmetCriteria db attemptId node.contract)))
  ensure (requireReportBytes = true → (latestRows db attemptId).all (fun e =>
      reportRetained host db e.reportSha256 e.reportRef))
    (.conflict "acceptance evidence lacks immutable validated report bytes")
  let evidenceIds := acceptedEvidenceIds db attemptId node.contract
  if truthy node.verifiedReceipt then do
    let receipt ← orElse (((node.verifiedReceipt).bind db.acceptance?).filter (fun r =>
        decide (r.attemptId = attemptId ∧ r.evidenceIds = evidenceIds)))
      (.conflict "different acceptance already exists; revise or record correcting evidence first")
    return (receipt, db)
  else do
    let rid := "receipt-" ++ uid
    ensure ((db.acceptance? rid).isNone) (.integrity "state_acceptances")
    let row := acceptanceRow db node attempt reviewer rid
    return (row, (writeAcceptance db row).event projectId (some nodeKey) "node_verified" [("receipt_id", .str rid),
      ("attempt_id", .str attemptId), ("revision", .int node.revision),
      ("artifact_ref", .ofOption attempt.artifactRef), ("reviewer", .str reviewer)])

end AItelier.State
