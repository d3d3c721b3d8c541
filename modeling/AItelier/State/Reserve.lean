import AItelier.State.Enforcement

namespace AItelier.State

open AItelier.Lib

/-- `_attempt`. -/
def attemptOf (db : DB) (attemptId : String) : Result Attempt := do
  let _ ← key attemptId "attempt id"
  orElse (db.attempt? attemptId) (.notFound ("attempt " ++ quote attemptId ++ " not found"))

/-- Whether the node still has the revision, contract and dependency receipts the
attempt was reserved against. -/
def pinsMatch (db : DB) (node : Node) (a : Attempt) : Bool :=
  decide (node.revision = a.nodeRevision ∧ node.contractHash = a.contractHash ∧ node.status ≠ .SUPERSEDED) &&
    (decide (dependencySnapshot db a.node = a.dependencySnapshot) &&
      (dependencySnapshot db a.node).all SnapshotRow.accepted)

/-- `_pins_current`. -/
def pinsCurrent (db : DB) (a : Attempt) : Result Bool := do
  let node ← nodeOf db a.projectId a.nodeKey
  return pinsMatch db node a

structure PriorRow where
  attemptId : String
  status : AttemptStatus
  artifactRef : String
  deriving DecidableEq, Repr

/-- `latest_prior`: the most recent attempt of the node that retained a Git
commit, among those before `beforeAttemptId` when one is given. -/
def latestPrior (db : DB) (id : NodeId) (beforeAttemptId : Option String) : Option PriorRow :=
  let rows : List Attempt := match beforeAttemptId with
    | some b => db.attempts.takeWhile (fun a => decide (a.attemptId ≠ b))
    | none => db.attempts
  (rows.filterMap (fun a => match a.artifactRef with
    | some art => if a.node = id ∧ art.toList.length = 40 then some ⟨a.attemptId, a.status, art⟩ else none
    | none => none)).getLast?

/-- `unresolved`: an explicit unknown account that ran no Git. -/
def unresolvedAccount (prior : PriorRow) (reason : String) (pending : Bool) (base : Option String)
    (origin : String) : Json :=
  .obj ([("version", .int 1), ("prior_attempt_id", .str prior.attemptId),
    ("prior_attempt_status", .str prior.status.text), ("prior_artifact", .str prior.artifactRef),
    ("selected_base", .ofOption base), ("base_origin", .str origin), ("state", .str "unknown"),
    ("reason", .str reason)] ++ (if pending then [("pending_base", .bool true)] else []))

def priorChanged : String :=
  "the previous candidate changed while admission was judged; not evaluated"

/-- `emit`: an included predecessor is routine, anything else needs an eye. -/
def emitPrior (db : DB) (id : NodeId) (attemptId : String) (value : Json) (reconciled : Bool) : DB :=
  db.event id.1 (some id.2)
    (if canonical (value.get "state") = canonical (.str "included") then "prior_candidate_included"
      else "prior_candidate_unreconciled")
    ([("attempt_id", .str attemptId), ("prior_candidate", value)] ++
      (if reconciled then [("reconciled_from_provision_receipt", .bool true)] else []))

/-- What the caller observed about the previous candidate before the write
transaction: the row it looked at and the account Git gave. -/
structure PriorAccount where
  prior : Option PriorRow
  value : Json

/-- Where a call stands with the artifact preflight: none is asked for, this is
the checking pass, or the admitting pass after a check that saw `source`. -/
inductive Preflight
  | none
  | check
  | entering (source : Source)
  deriving DecidableEq, Repr

/-- The arguments of `_reserve_once`, with the identifiers, clock readings and
design binding it reads from its host. -/
structure ReserveRequest where
  projectId : String
  nodeKey : String
  expectedRevision : Int
  workflow : Option String
  requestKey : String
  instruction : String
  external : Option ExternalIdentity
  continueFrom : Option String
  relayDigest : Option String
  frozenPrerequisites : Option Json
  baseSha : Option String
  relayHandoff : Option Json
  claimId : Option String
  fence : Option Int
  priorAccount : Option PriorAccount
  design : Option Json
  uid : String
  claimNow : Stamp
  leaseNow : Stamp

namespace ReserveRequest
variable (r : ReserveRequest)

def node : NodeId := (r.projectId, r.nodeKey)

def toJson : Json :=
  .obj ([("revision", .int r.expectedRevision), ("workflow", .ofOption r.workflow),
    ("instruction", .str r.instruction)] ++ optional "base_sha" r.baseSha .str ++
    optional "frozen_prerequisites" r.frozenPrerequisites id ++
    optional "external" r.external (fun e => .obj e.fields) ++
    optional "relay_handoff" r.relayHandoff id ++ optional "continue_from" r.continueFrom .str ++
    (if r.continueFrom.isSome then optional "relay_digest" r.relayDigest .str else []))

def validate : Result Unit := do
  let _ ← key r.requestKey "request key"
  let _ ← integer r.expectedRevision "expected_revision" 1 1000000
  bounded r.instruction 20000 "instruction must be text of at most 20000 characters"
  ensure (¬ (r.frozenPrerequisites.isSome ∧ r.external.isSome))
    (.graph "frozen_prerequisites apply to SkillFlow attempts only")
  ensure (¬ (r.relayHandoff.isSome ∧ r.external.isNone))
    (.graph "relay_handoff applies to external attempts only")
  ensure (¬ (r.continueFrom.isSome ∧ r.external.isSome))
    (.graph "continue_from applies to SkillFlow attempts only")
  ensure (r.continueFrom.isSome → ∀ d ∈ r.relayDigest, isHexOf 64 d)
    (.graph "relay_digest must be the 64-hex digest from relay_inventory")

end ReserveRequest

/-- The claim the transaction rides on is bound to the attempt. -/
def bindClaim (db : DB) (claim : Option Claim) (attemptId : String) : DB :=
  match claim with
  | some c => db.setClaim c.claimId (fun c => { c with attemptId := some attemptId })
  | none => db

/-- A replay that names a claim or a fence is judged on the live claim now. -/
def replayClaim (host : Host) (db : DB) (caller : Caller) (r : ReserveRequest) (old : Attempt) :
    Result (Attempt × DB) :=
  if r.claimId.isSome ∨ r.fence.isSome then do
    let (named, _) ← dispatchClaim host db r.node caller r.claimId r.fence r.claimNow
      (r.external.isSome && old.context.reviewClaim.isSome)
    return (old, bindClaim db (named.filter (fun c => old.status.active &&
      decide (c.attemptId = none ∨ c.attemptId = some old.attemptId))) old.attemptId)
  else return (old, db)

/-- The same request key again: the existing attempt, for the driver that made
the request. -/
def replay (host : Host) (db : DB) (caller : Caller) (r : ReserveRequest) (old : Attempt) :
    Result (Attempt × DB) := do
  ensure (old.requestHash = host.digest r.toJson)
    (.conflict "request key already used with a different launch request")
  ensure (¬ (truthy old.ownerDriverId ∧ old.ownerDriverId ≠ caller.driverId ∧ caller.isAdmin = false ∧
      enforced db r.projectId))
    (.claim .notAttemptOwner ("attempt " ++ old.attemptId ++ " belongs to driver " ++ (old.ownerDriverId.getD "")))
  match old.context.reviewClaim with
  | some pin => do
    ensure (r.claimId = some pin.claimId ∧ r.fence = some (pin.fence : Int))
      (.claim .staleFence "review replay must name its original claim and fence")
    if old.status.active then replayClaim host db caller r old else return (old, db)
  | none => replayClaim host db caller r old

/-- `host:path#branch` to `host:path`, the one writer's tree. -/
def checkoutOf (workspace : String) : String :=
  String.ofList (workspace.toList.takeWhile (· ≠ '#'))

/-- The row with the greatest stamp, the first of equals. -/
def newest (rows : List Claim) : Option Claim :=
  rows.foldl (fun best c => match best with
    | some b => if b.createdAt < c.createdAt then some c else some b
    | none => some c) none

/-- The workspace last declared under a claim that was bound to the attempt. -/
def attemptWorkspace (db : DB) (attemptId : String) : Option String :=
  (newest (db.claims.filter (fun c => decide (c.attemptId = some attemptId ∧ c.workspace ≠ "")))).map
    Claim.workspace

def abandonProblems (claim : Option Claim) (baseSha oldWorkspace : Option String) : List String :=
  (if baseSha.isNone then ["declare base_sha"] else []) ++
    match claim.filter (fun c => decide (c.workspace ≠ "")) with
    | none => ["claim with a declared workspace"]
    | some c => match oldWorkspace with
      | some w =>
        if checkoutOf c.workspace = checkoutOf w then
          ["claim a checkout other than " ++ checkoutOf w ++ " (a different branch in the " ++
            "same checkout is the same writer)"]
        else []
      | none => []

/-- `_after_unknown_abandon`. -/
def afterUnknownAbandon (db : DB) (id : NodeId) (claim : Option Claim) (baseSha : Option String)
    (isAdmin : Bool) : Result Unit :=
  match db.latestAttempt id with
  | none => .ok ()
  | some last =>
    if last.abandonKind ≠ some .unknown ∨ isAdmin then .ok ()
    else
      let problems := abandonProblems claim baseSha (attemptWorkspace db last.attemptId)
      ensure (problems = []) (.claim .workspaceInUse ("the previous attempt " ++ last.attemptId ++
        " was abandoned with quiescence unknown; its worker may still write its checkout: " ++
        String.intercalate "; " problems))

/-- `_relay_source`. -/
def relaySource (db : DB) (r : ReserveRequest) (node : Node) (deps : List SnapshotRow) (priorId : String) :
    Result RelayOf := do
  let _ ← key priorId "continue_from"
  let prior ← orElse ((db.attempt? priorId).filter (fun a => decide (a.node = r.node)))
    (.conflict "continue_from must name an attempt of this node")
  let runId ← orElse (prior.runId.filter (fun _ => decide (prior.status = .failed ∧
      prior.executionKind = .skillflow)))
    (.conflict "continue_from must name a FAILED SkillFlow attempt with a bound run")
  ensure (prior.workflow = r.workflow)
    (.conflict "a relay must reuse the failed attempt's workflow; its draft is keyed by that workflow's steps")
  ensure (prior.nodeRevision = node.revision ∧ prior.contractHash = node.contractHash ∧
      prior.dependencySnapshot = deps)
    (.conflict ("the failed attempt targeted a different revision, contract or dependency snapshot; " ++
      "its draft cannot be continued — start a fresh attempt"))
  return { attemptId := prior.attemptId, runId := runId,
           firstFailureRunId := (prior.context.relayOf.map RelayOf.firstFailureRunId).getD runId,
           executionProjectId := prior.executionProjectId, error := prior.error,
           expectedDigest := r.relayDigest }

/-- The uniqueness rules of `state_attempts` that an insertion can break. -/
def attemptClash (db : DB) (row : Attempt) : Bool :=
  db.attempts.any (fun a => decide (a.attemptId = row.attemptId) ||
    decide (a.executionProjectId.isSome ∧ a.executionProjectId = row.executionProjectId) ||
    decide (a.node = row.node ∧ a.requestKey = row.requestKey) ||
    (decide (a.node = row.node) && a.status.active && row.status.active) ||
    decide (a.executionKind = .external ∧ row.executionKind = .external ∧ a.node = row.node ∧
      a.harness = row.harness ∧ a.externalId = row.externalId))

/-- The account of the previous candidate that admission freezes. -/
def admissionPrior (db : DB) (r : ReserveRequest) : Option Json :=
  match r.priorAccount, latestPrior db r.node none with
  | some account, some prior =>
    if account.prior.map (fun p => (p.attemptId, p.artifactRef)) = some (prior.attemptId, prior.artifactRef) then
      some account.value
    else some (unresolvedAccount prior priorChanged false r.baseSha
      (if truthy r.baseSha then "requested_base" else "unresolved"))
  | _, _ => none

def admissionContext (host : Host) (r : ReserveRequest) (node : Node) (deps : List SnapshotRow)
    (claim : Option Claim) (relay : Option RelayOf) (prior : Option Json) : Context where
  stateProjectId := r.projectId
  nodeKey := r.nodeKey
  revision := node.revision
  goal := node.goal
  acceptance := node.contract
  contractHash := node.contractHash
  dependencies := deps
  instruction := r.instruction
  reviewClaim := (claim.filter (fun c => decide (c.purpose = .review))).map (fun c => ⟨c.claimId, c.fence⟩)
  baseSha := r.baseSha
  frozenPrerequisites := r.frozenPrerequisites
  relayOf := relay
  relayHandoff := r.relayHandoff
  designContext := r.design
  bindingSnapshotHash := r.design.map host.digest
  priorCandidate := prior
  executor := r.external
  relay := none
  hostContract := none

/-- The row `_reserve_once` inserts: active, unbound, owned by the caller's driver
with fence 1 and a default lease. -/
def admittedAttempt (host : Host) (caller : Caller) (r : ReserveRequest) (node : Node)
    (deps : List SnapshotRow) (context : Context) : Attempt where
  attemptId := "attempt-" ++ r.uid
  projectId := r.projectId
  nodeKey := r.nodeKey
  nodeRevision := node.revision
  contractHash := node.contractHash
  dependencySnapshot := deps
  context := context
  requestKey := r.requestKey
  requestHash := host.digest r.toJson
  workflow := r.workflow
  executionProjectId := if r.external.isSome then none else some ("sg-" ++ r.uid)
  runId := none
  graphVersion := none
  graphDigest := none
  status := if r.external.isSome then .running else .reserved
  artifactRef := none
  error := none
  executionKind := if r.external.isSome then .external else .skillflow
  harness := r.external.map ExternalIdentity.harness
  externalId := r.external.map ExternalIdentity.externalId
  reportingActor := r.external.map ExternalIdentity.reportingActor
  observationVersion := 0
  artifactKind := none
  terminalObservationId := none
  abandonKind := none
  ownerDriverId := if truthy caller.driverId then caller.driverId else none
  ownerFence := if truthy caller.driverId then 1 else 0
  leaseExpiresAt := if truthy caller.driverId then some (addSeconds r.leaseNow defaultLeaseSeconds) else none
  lastHeartbeatAt := if truthy caller.driverId then some r.leaseNow else none

def insertOwner (db : DB) (row : Attempt) (external : Option ExternalIdentity) : DB :=
  match external with
  | some e => { db with
      owners := db.owners ++ [⟨row.attemptId, row.projectId, row.nodeKey, e.harness, e.externalId, .active, none⟩] }
  | none => db

def admissionPayload (r : ReserveRequest) (row : Attempt) (claim : Option Claim) (breakGlass : Bool) :
    List (String × Json) :=
  [("attempt_id", .str row.attemptId), ("execution_project_id", .ofOption row.executionProjectId),
    ("execution_kind", .str row.executionKind.text), ("workflow", .ofOption r.workflow),
    ("revision", .int row.nodeRevision),
    ("external", ((r.external.map (fun e => Json.obj e.fields)).getD .null)),
    ("relay_of", ((row.context.relayOf.map RelayOf.toJson).getD .null))] ++
    (match row.leaseExpiresAt with
      | some expires => [("owner_driver_id", .ofOption row.ownerDriverId), ("owner_fence", .int 1),
          ("lease_expires_at", .str (stampText expires))]
      | none => []) ++
    optional "claim_id" (claim.map Claim.claimId) .str ++
    (if breakGlass then [("break_glass", .bool true)] else [])

/-- What an admission writes: the attempt, its claim binding, its owner row, the
node back to OPEN and the events. -/
def writeAdmission (db : DB) (r : ReserveRequest) (row : Attempt) (claim : Option Claim) (breakGlass : Bool) : DB :=
  let db := { db with attempts := db.attempts ++ [row] }
  let db := bindClaim db claim row.attemptId
  let db := insertOwner db row r.external
  let db := db.setNode r.node (fun n => { n with status := .OPEN })
  let db := db.event r.projectId (some r.nodeKey)
    (if r.external.isSome then "external_attempt_registered" else "attempt_reserved")
    (admissionPayload r row claim breakGlass)
  match row.context.priorCandidate with
  | some value => emitPrior db r.node row.attemptId value false
  | none => db

def insertAttempt (db : DB) (r : ReserveRequest) (row : Attempt) (claim : Option Claim) (breakGlass : Bool) :
    Result DB := do
  ensure (attemptClash db row = false)
    (.conflict "node has an active attempt or this external execution identity was already registered")
  ensure (r.external.isSome → (lookup ExternalOwner.attemptId db.owners row.attemptId).isNone)
    (.integrity "state_external_owners")
  return writeAdmission db r row claim breakGlass

inductive Reserved
  | attempt (row : Attempt)
  | source (source : Source)

/-- The guards that only a preflighted call repeats before the insertion. -/
def preflightGuards (db : DB) (r : ReserveRequest) : Result Source := do
  ensure (¬ db.attempts.any (fun a => decide (a.node = r.node) && a.status.active))
    (.conflict "node has an active attempt")
  ensure (∀ e ∈ r.external, ¬ db.attempts.any (fun a => decide (a.node = r.node ∧ a.harness = some e.harness ∧
      a.externalId = some e.externalId)))
    (.conflict "external execution identity was already registered")
  let project ← projectOf db r.projectId
  return sourceOf db project

/-- The admission of a request key not used on this node before. -/
def admitNew (host : Host) (db : DB) (caller : Caller) (r : ReserveRequest) (preflight : Preflight)
    (node : Node) : Result (Reserved × DB) := do
  requireDispatch db r.node
  ensure ((node.revision : Int) = r.expectedRevision ∧ node.status ≠ .VERIFIED ∧ node.status ≠ .SUPERSEDED)
    (.conflict "node is closed or revision changed; revise/reload before attempting it")
  let deps := dependencySnapshot db r.node
  ensure (deps.all SnapshotRow.accepted) (.conflict "dependencies are not verified")
  let (claim, breakGlass) ← dispatchClaim host db r.node caller r.claimId r.fence r.claimNow
    (r.external.isSome && decide (node.status = .CANDIDATE))
  whenever (enforced db r.projectId) (afterUnknownAbandon db r.node claim r.baseSha caller.isAdmin)
  let relay ← r.continueFrom.mapM (relaySource db r node deps)
  let row := admittedAttempt host caller r node deps
    (admissionContext host r node deps claim relay (admissionPrior db r))
  match preflight with
  | .check => do
    let source ← preflightGuards db r
    return (.source source, db)
  | .entering seen => do
    let source ← preflightGuards db r
    ensure (source = seen)
      (.conflict "source binding changed during artifact preflight; reload before admission")
    let db ← insertAttempt db r row claim breakGlass
    return (.attempt row, db)
  | .none => do
    let db ← insertAttempt db r row claim breakGlass
    return (.attempt row, db)

/-- The database `_reserve_once` judges: an external call has marked its driver back. -/
def reserveView (db : DB) (caller : Caller) (r : ReserveRequest) : DB :=
  if r.external.isSome then markBack db caller.driverId r.claimNow else db

/-- `_reserve_once`: the one ownership and pin guard of every execution adapter. -/
def reserveOnce (host : Host) (db : DB) (caller : Caller) (r : ReserveRequest) (preflight : Preflight) :
    Result (Reserved × DB) := do
  r.validate
  let db := reserveView db caller r
  let node ← nodeOf db r.projectId r.nodeKey
  match db.attempts.find? (fun a => decide (a.node = r.node ∧ a.requestKey = r.requestKey)) with
  | some old => do
    let (row, db) ← replay host db caller r old
    return (.attempt row, db)
  | none => admitNew host db caller r preflight node

/-- `reserve`: a SkillFlow intent, persisted before a workflow can be launched. -/
def reserve (host : Host) (db : DB) (caller : Caller) (workflow : String) (r : ReserveRequest) :
    Result (Reserved × DB) := do
  let _ ← key workflow "workflow"
  reserveOnce host db caller { r with workflow := some workflow, external := none } .none

/-- `register`: an external harness's own execution, reported by the caller. -/
def register (host : Host) (db : DB) (caller : Caller) (harness externalId : String) (r : ReserveRequest)
    (preflight : Preflight) : Result (Reserved × DB) := do
  let actor ← text caller.actor "authenticated reporter" 300
  let harness ← key harness "harness"
  let externalId ← text externalId "external execution identity" 500
  reserveOnce host db caller { r with workflow := none, external := some ⟨harness, externalId, actor⟩ } preflight

end AItelier.State
