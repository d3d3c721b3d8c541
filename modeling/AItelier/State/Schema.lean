import AItelier.Lib.Table
import AItelier.State.Text

namespace AItelier.State

open AItelier.Lib

inductive NodeStatus
  | OPEN | CANDIDATE | VERIFIED | STALE | SUPERSEDED
  deriving DecidableEq, Repr

inductive CheckKind
  | test | review | human | artifact | integration
  deriving DecidableEq, Repr

inductive Facet
  | design | contract | test | content | integration
  deriving DecidableEq, Repr

inductive AttemptStatus
  | reserved | launching | running | paused | unknown
  | candidate | failed | superseded | abandoned
  deriving DecidableEq, Repr

inductive ExecutionKind
  | skillflow | external
  deriving DecidableEq, Repr

inductive ArtifactKind
  | gitSha1 | sha256
  deriving DecidableEq, Repr

inductive AbandonKind
  | confirmedStopped | unknown
  deriving DecidableEq, Repr

inductive Verdict
  | pass | fail | skip
  deriving DecidableEq, Repr

inductive OwnerStatus
  | active | paused | unknown | settled | abandoned
  deriving DecidableEq, Repr

inductive Purpose
  | implement | review | investigate | plan
  deriving DecidableEq, Repr

inductive ClaimStatus
  | live | released | expired | transferred | revoked | takenOver
  deriving DecidableEq, Repr

inductive HandoffStatus
  | offered | accepted | declined | withdrawn | expired
  deriving DecidableEq, Repr

inductive Dispatch
  | active | hold | archive
  deriving DecidableEq, Repr

inductive Switch
  | off | on
  deriving DecidableEq, Repr

inductive Independence
  | off | advisory
  deriving DecidableEq, Repr

inductive DriverStatus
  | active | suspended | retired
  deriving DecidableEq, Repr

inductive Membership
  | member | removed
  deriving DecidableEq, Repr

def NodeStatus.text : NodeStatus → String
  | .OPEN => "OPEN" | .CANDIDATE => "CANDIDATE" | .VERIFIED => "VERIFIED"
  | .STALE => "STALE" | .SUPERSEDED => "SUPERSEDED"

def CheckKind.text : CheckKind → String
  | .test => "test" | .review => "review" | .human => "human"
  | .artifact => "artifact" | .integration => "integration"

def Facet.text : Facet → String
  | .design => "design" | .contract => "contract" | .test => "test"
  | .content => "content" | .integration => "integration"

def AttemptStatus.text : AttemptStatus → String
  | .reserved => "reserved" | .launching => "launching" | .running => "running"
  | .paused => "paused" | .unknown => "unknown" | .candidate => "candidate"
  | .failed => "failed" | .superseded => "superseded" | .abandoned => "abandoned"

/-- `ACTIVE`: the statuses that occupy a node's one slot. -/
def AttemptStatus.active : AttemptStatus → Bool
  | .reserved | .launching | .running | .paused | .unknown => true
  | .candidate | .failed | .superseded | .abandoned => false

def ExecutionKind.text : ExecutionKind → String
  | .skillflow => "skillflow" | .external => "external"

def ArtifactKind.text : ArtifactKind → String
  | .gitSha1 => "git-sha1" | .sha256 => "sha256"

/-- The number of hexadecimal digits an artifact of this kind has. -/
def ArtifactKind.size : ArtifactKind → Nat
  | .gitSha1 => 40 | .sha256 => 64

def AbandonKind.text : AbandonKind → String
  | .confirmedStopped => "confirmed_stopped" | .unknown => "unknown"

def Verdict.text : Verdict → String
  | .pass => "pass" | .fail => "fail" | .skip => "skip"

def Purpose.text : Purpose → String
  | .implement => "implement" | .review => "review"
  | .investigate => "investigate" | .plan => "plan"

/-- `EXCLUSIVE_PURPOSES`: at most one live claim of these per node. -/
def Purpose.exclusive : Purpose → Bool
  | .implement | .plan => true
  | .review | .investigate => false

def ClaimStatus.text : ClaimStatus → String
  | .live => "live" | .released => "released" | .expired => "expired"
  | .transferred => "transferred" | .revoked => "revoked" | .takenOver => "taken_over"

def HandoffStatus.text : HandoffStatus → String
  | .offered => "offered" | .accepted => "accepted" | .declined => "declined"
  | .withdrawn => "withdrawn" | .expired => "expired"

def Dispatch.text : Dispatch → String
  | .active => "active" | .hold => "hold" | .archive => "archive"

def Switch.text : Switch → String
  | .off => "off" | .on => "on"

def Independence.text : Independence → String
  | .off => "off" | .advisory => "advisory"

abbrev NodeId := String × String

/-- One acceptance criterion of a node's contract. -/
structure Check where
  id : String
  kind : CheckKind
  description : String
  deriving DecidableEq, Repr

def Check.toJson (c : Check) : Json :=
  .obj [("id", .str c.id), ("kind", .str c.kind.text), ("description", .str c.description)]

structure Project where
  projectId : String
  title : String
  sourceProjectId : Option String
  deriving DecidableEq, Repr

structure Node where
  projectId : String
  nodeKey : String
  revision : Nat
  goal : String
  contract : List Check
  contractHash : String
  status : NodeStatus
  priority : Int
  verifiedReceipt : Option String
  facet : Option Facet
  deriving DecidableEq, Repr

def Node.id (n : Node) : NodeId := (n.projectId, n.nodeKey)

structure Dependency where
  projectId : String
  nodeKey : String
  dependencyKey : String
  deriving DecidableEq, Repr

structure Revision where
  projectId : String
  nodeKey : String
  revision : Nat
  goal : String
  contract : List Check
  contractHash : String
  dependencies : List String
  deriving DecidableEq, Repr

structure Event where
  projectId : String
  nodeKey : Option String
  eventType : String
  payload : Json

/-- One dependency as `dependency_snapshot` freezes it. The store keeps the
canonical JSON of the rows in key order; the rows themselves determine it. -/
structure SnapshotRow where
  nodeKey : String
  revision : Nat
  contractHash : String
  status : NodeStatus
  verifiedReceipt : Option String
  deriving DecidableEq, Repr

def SnapshotRow.toJson (r : SnapshotRow) : Json :=
  .obj [("node_key", .str r.nodeKey), ("revision", .int r.revision),
    ("contract_hash", .str r.contractHash), ("status", .str r.status.text),
    ("verified_receipt", .ofOption r.verifiedReceipt)]

structure ExternalIdentity where
  harness : String
  externalId : String
  reportingActor : String
  deriving DecidableEq, Repr

def ExternalIdentity.fields (e : ExternalIdentity) : List (String × Json) :=
  [("harness", .str e.harness), ("external_id", .str e.externalId),
    ("reporting_actor", .str e.reportingActor)]

structure ReviewClaim where
  claimId : String
  fence : Nat
  deriving DecidableEq, Repr

/-- The failed attempt a relay continues. -/
structure RelayOf where
  attemptId : String
  runId : String
  firstFailureRunId : String
  executionProjectId : Option String
  error : Option String
  expectedDigest : Option String

/-- `context_json`: what an attempt froze at admission, and what preparation
pinned next to it before dispatch. -/
structure Context where
  stateProjectId : String
  nodeKey : String
  revision : Nat
  goal : String
  acceptance : List Check
  contractHash : String
  dependencies : List SnapshotRow
  instruction : String
  reviewClaim : Option ReviewClaim
  baseSha : Option String
  frozenPrerequisites : Option Json
  relayOf : Option RelayOf
  relayHandoff : Option Json
  designContext : Option Json
  bindingSnapshotHash : Option String
  priorCandidate : Option Json
  executor : Option ExternalIdentity
  relay : Option Json
  hostContract : Option Json

/-- A field that is written only when it has a value. -/
def optional {α : Type} (name : String) (value : Option α) (render : α → Json) :
    List (String × Json) :=
  match value with
  | some v => [(name, render v)]
  | none => []

def RelayOf.toJson (r : RelayOf) : Json :=
  .obj ([("attempt_id", .str r.attemptId), ("run_id", .str r.runId),
    ("first_failure_run_id", .str r.firstFailureRunId),
    ("execution_project_id", .ofOption r.executionProjectId), ("error", .ofOption r.error)] ++
    optional "expected_digest" r.expectedDigest .str)

def Context.toJson (c : Context) : Json :=
  .obj ([("state_project_id", .str c.stateProjectId), ("node_key", .str c.nodeKey),
    ("revision", .int c.revision), ("goal", .str c.goal),
    ("acceptance", .arr (c.acceptance.map Check.toJson)), ("contract_hash", .str c.contractHash),
    ("dependencies", .obj (c.dependencies.map (fun r => (r.nodeKey, r.toJson)))),
    ("instruction", .str c.instruction)] ++
    optional "review_claim" c.reviewClaim (fun r => .obj [("claim_id", .str r.claimId),
      ("fence", .int r.fence), ("purpose", .str "review")]) ++
    optional "base_sha" c.baseSha .str ++
    optional "frozen_prerequisites" c.frozenPrerequisites id ++
    optional "relay_of" c.relayOf RelayOf.toJson ++
    optional "relay_handoff" c.relayHandoff id ++
    optional "design_context" c.designContext id ++
    optional "binding_snapshot_hash" c.bindingSnapshotHash .str ++
    optional "prior_candidate" c.priorCandidate id ++
    optional "executor" c.executor (fun e => .obj (("kind", .str "external") :: e.fields)) ++
    optional "relay" c.relay id ++
    optional "host_contract" c.hostContract id)

structure Attempt where
  attemptId : String
  projectId : String
  nodeKey : String
  nodeRevision : Nat
  contractHash : String
  dependencySnapshot : List SnapshotRow
  context : Context
  requestKey : String
  requestHash : String
  workflow : Option String
  executionProjectId : Option String
  runId : Option String
  graphVersion : Option Int
  graphDigest : Option String
  status : AttemptStatus
  artifactRef : Option String
  error : Option String
  executionKind : ExecutionKind
  harness : Option String
  externalId : Option String
  reportingActor : Option String
  observationVersion : Nat
  artifactKind : Option ArtifactKind
  terminalObservationId : Option String
  abandonKind : Option AbandonKind
  ownerDriverId : Option String
  ownerFence : Nat
  leaseExpiresAt : Option Stamp
  lastHeartbeatAt : Option Stamp

def Attempt.node (a : Attempt) : NodeId := (a.projectId, a.nodeKey)

structure Evidence where
  evidenceId : String
  attemptId : String
  criterionId : String
  kind : CheckKind
  verdict : Verdict
  artifactRef : String
  reportRef : String
  reportSha256 : String
  reviewer : String
  detail : String
  payloadHash : String
  directorIdentity : Option String
  deriving DecidableEq, Repr

/-- An acceptance receipt. -/
structure Acceptance where
  receiptId : String
  projectId : String
  nodeKey : String
  nodeRevision : Nat
  attemptId : String
  artifactRef : String
  contractHash : String
  dependencySnapshot : List SnapshotRow
  evidenceIds : List String
  reviewer : String
  deriving DecidableEq, Repr

structure Observation where
  attemptId : String
  observationId : String
  version : Nat
  status : AttemptStatus
  resultingStatus : AttemptStatus
  quiescent : Bool
  artifactRef : Option String
  artifactKind : Option ArtifactKind
  reportRef : String
  reportSha256 : String
  actor : String
  detail : String
  payloadHash : String
  contextHash : String
  lateAfterAbandon : Bool
  fence : Option Int
  deriving DecidableEq, Repr

structure ExternalOwner where
  attemptId : String
  projectId : String
  nodeKey : String
  harness : String
  externalId : String
  status : OwnerStatus
  settledAt : Option Stamp
  deriving DecidableEq, Repr

structure ReportBlob where
  reportSha256 : String
  reportBytes : List UInt8
  retainedRef : String
  deriving DecidableEq, Repr

structure GitArtifact where
  commitSha : String
  treeSha : String
  bundleSha256 : String
  retainedRef : String
  deriving DecidableEq, Repr

structure Policy where
  projectId : String
  revision : Nat
  dispatch : Dispatch
  reason : String
  actor : String
  deriving DecidableEq, Repr

structure Enforcement where
  projectId : String
  claimEnforcement : Switch
  reason : String
  actor : String
  reviewIndependence : Independence
  deriving DecidableEq, Repr

structure Hold where
  projectId : String
  nodeKey : String
  revision : Nat
  held : Bool
  reason : String
  actor : String
  deriving DecidableEq, Repr

structure SourceBinding where
  projectId : String
  revision : Nat
  repoPath : String
  commonDir : String
  actor : String
  deriving DecidableEq, Repr

structure Claim where
  claimId : String
  projectId : String
  nodeKey : String
  driverId : String
  purpose : Purpose
  status : ClaimStatus
  fence : Nat
  nodeRevision : Nat
  attemptId : Option String
  workspace : String
  subagent : Option String
  leaseSeconds : Nat
  leaseExpiresAt : Stamp
  lastHeartbeatAt : Stamp
  requestKey : String
  requestHash : String
  createdAt : Stamp
  deriving DecidableEq, Repr

def Claim.node (c : Claim) : NodeId := (c.projectId, c.nodeKey)

structure ClaimHistory where
  claimId : String
  projectId : String
  nodeKey : String
  driverId : String
  purpose : Purpose
  status : ClaimStatus
  fence : Nat
  leaseExpiresAt : Stamp
  actor : String
  reason : String
  deriving DecidableEq, Repr

structure Handoff where
  handoffId : String
  projectId : String
  attemptId : Option String
  claimId : Option String
  nodeKey : String
  fromDriverId : String
  toDriverId : String
  status : HandoffStatus
  package : Json
  expectedOwnerFence : Int
  requestKey : String
  requestHash : String
  leaseExpiresAt : Stamp
  decidedBy : Option String
  decisionReason : Option String

/-- A registry row; a `last_seen_at` that does not parse is `none`. -/
structure Driver where
  driverId : String
  status : DriverStatus
  lastSeenAt : Option Stamp
  deriving DecidableEq, Repr

structure ProjectDriver where
  projectId : String
  driverId : String
  status : Membership
  deriving DecidableEq, Repr

structure Declaration where
  driverId : String
  declaredAt : Stamp
  reason : String
  expectedReturn : Option Stamp
  deriving DecidableEq, Repr

structure Wait where
  waitId : String
  driverId : String
  startedAt : Stamp
  until_ : Stamp
  endedAt : Option Stamp
  deriving DecidableEq, Repr

inductive DesignStatus
  | draft | approved | historical
  deriving DecidableEq, Repr

inductive DesignKind
  | rule | decision | explanatory
  deriving DecidableEq, Repr

inductive RelationType
  | dependsOn | references | supersedes | conflictsWith
  deriving DecidableEq, Repr

def DesignStatus.text : DesignStatus → String
  | .draft => "draft" | .approved => "approved" | .historical => "historical"

def DesignKind.text : DesignKind → String
  | .rule => "rule" | .decision => "decision" | .explanatory => "explanatory"

def RelationType.text : RelationType → String
  | .dependsOn => "depends_on" | .references => "references"
  | .supersedes => "supersedes" | .conflictsWith => "conflicts_with"

/-- One exact revision of a design item. -/
structure DesignRef where
  designId : String
  revision : Nat
  deriving DecidableEq, Repr

structure DesignRelation where
  type : RelationType
  target : DesignRef
  rationale : String
  deriving DecidableEq, Repr

/-- `payload_json` of a design revision; the scope is in key order. -/
structure DesignContent where
  title : String
  statement : String
  rationale : String
  openQuestions : List String
  scope : List (String × String)
  lifecycleStatus : DesignStatus
  kind : DesignKind
  parentRevision : Option Nat
  relations : List DesignRelation
  deriving DecidableEq, Repr

structure DesignRevision where
  projectId : String
  designId : String
  revision : Nat
  content : DesignContent
  contentHash : String
  author : String
  createdAt : String
  deriving DecidableEq, Repr

/-- A baseline with its `selected_revisions`, each with its content hash. -/
structure DesignBaseline where
  projectId : String
  baselineId : String
  selected : List (DesignRef × String)
  manifestHash : String
  author : String
  deriving DecidableEq, Repr

structure DesignHead where
  projectId : String
  baselineId : String
  deriving DecidableEq, Repr

structure DesignBinding where
  projectId : String
  nodeKey : String
  nodeRevision : Nat
  snapshot : Json
  snapshotHash : String

/-- The State tables. Each is a list in insertion order, so the position of a row
is its `seq`. -/
structure DB where
  projects : List Project
  nodes : List Node
  dependencies : List Dependency
  revisions : List Revision
  events : List Event
  attempts : List Attempt
  evidence : List Evidence
  acceptances : List Acceptance
  observations : List Observation
  owners : List ExternalOwner
  blobs : List ReportBlob
  gitArtifacts : List GitArtifact
  policies : List Policy
  enforcement : List Enforcement
  holds : List Hold
  sourceBindings : List SourceBinding
  claims : List Claim
  claimHistory : List ClaimHistory
  handoffs : List Handoff
  drivers : List Driver
  projectDrivers : List ProjectDriver
  declarations : List Declaration
  waits : List Wait
  designRevisions : List DesignRevision
  designBaselines : List DesignBaseline
  designHeads : List DesignHead
  designBindings : List DesignBinding

def DB.empty : DB where
  projects := []
  nodes := []
  dependencies := []
  revisions := []
  events := []
  attempts := []
  evidence := []
  acceptances := []
  observations := []
  owners := []
  blobs := []
  gitArtifacts := []
  policies := []
  enforcement := []
  holds := []
  sourceBindings := []
  claims := []
  claimHistory := []
  handoffs := []
  drivers := []
  projectDrivers := []
  declarations := []
  waits := []
  designRevisions := []
  designBaselines := []
  designHeads := []
  designBindings := []

/-- Who makes a call: the authenticated actor, its registered driver if any, and
whether it is an admin. -/
structure Caller where
  actor : String
  driverId : Option String
  isAdmin : Bool
  deriving DecidableEq, Repr

namespace DB

def node? (db : DB) (id : NodeId) : Option Node := lookup Node.id db.nodes id

def attempt? (db : DB) (id : String) : Option Attempt := lookup Attempt.attemptId db.attempts id

def acceptance? (db : DB) (id : String) : Option Acceptance :=
  lookup Acceptance.receiptId db.acceptances id

def claim? (db : DB) (id : String) : Option Claim := lookup Claim.claimId db.claims id

/-- The node's most recent attempt. -/
def latestAttempt (db : DB) (id : NodeId) : Option Attempt :=
  latest (fun a => decide (a.node = id)) db.attempts

def event (db : DB) (projectId : String) (nodeKey : Option String) (eventType : String)
    (payload : List (String × Json)) : DB :=
  { db with events := db.events ++ [⟨projectId, nodeKey, eventType, .obj payload⟩] }

def setNode (db : DB) (id : NodeId) (f : Node → Node) : DB :=
  { db with nodes := modifyWhere (fun n => decide (n.id = id)) f db.nodes }

def setAttempt (db : DB) (id : String) (f : Attempt → Attempt) : DB :=
  { db with attempts := modifyWhere (fun a => decide (a.attemptId = id)) f db.attempts }

def setClaim (db : DB) (id : String) (f : Claim → Claim) : DB :=
  { db with claims := modifyWhere (fun c => decide (c.claimId = id)) f db.claims }

def setHandoff (db : DB) (id : String) (f : Handoff → Handoff) : DB :=
  { db with handoffs := modifyWhere (fun h => decide (h.handoffId = id)) f db.handoffs }

end DB

end AItelier.State
