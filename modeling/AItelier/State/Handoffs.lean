import AItelier.State.Recovery

namespace AItelier.State

open AItelier.Lib

section Takeover

structure ClaimTakeover where
  projectId : String
  claimId : String
  expectedFence : Int
  reason : String
  requestKey : String

/-- The replacement `take_over_claim` inserts: same node, purpose, workspace and
lease length, no bound attempt. -/
def takenClaim (old : Claim) (node : Node) (driver requestKey requestHash uid : String) (fence : Nat)
    (current : Stamp) : Claim where
  claimId := "claim-" ++ uid
  projectId := old.projectId
  nodeKey := old.nodeKey
  driverId := driver
  purpose := old.purpose
  status := .live
  fence := fence
  nodeRevision := node.revision
  attemptId := none
  workspace := old.workspace
  subagent := none
  leaseSeconds := old.leaseSeconds
  leaseExpiresAt := addSeconds current old.leaseSeconds
  lastHeartbeatAt := current
  requestKey := requestKey
  requestHash := requestHash
  createdAt := current

/-- `take_over_claim`: the one place where presence is authority over a claim. -/
def takeOverClaim (host : Host) (db : DB) (caller : Caller) (r : ClaimTakeover) (uid : String) (current : Stamp) :
    Result (Claim × DB) := do
  let driver ← claimDriver caller
  refuseSharedIdentity (some driver)
  let reason ← text r.reason "takeover reason" 300
  ensure (20 ≤ reason.toList.length) (.graph "reason must say why, in 20..300 characters")
  let _ ← key r.requestKey "request_key"
  let _ ← key r.claimId "claim_id"
  let storedKey := "takeover:" ++ r.requestKey
  let requestHash := host.digest (.obj [("take_over_claim", .str r.claimId),
    ("expected_fence", .int r.expectedFence), ("reason", .str reason)])
  let _ ← projectOf db r.projectId
  match db.claims.find? (fun c => decide (c.projectId = r.projectId ∧ c.driverId = driver ∧
      c.requestKey = storedKey)) with
  | some replayed => do
    ensure (replayed.requestHash = requestHash)
      (.claim .requestKeyReused "this request_key was used for a different takeover")
    let _ ← claimOf db r.projectId r.claimId
    return (replayed, db)
  | none => do
    let old ← claimOf db r.projectId r.claimId
    ensure (isMember db r.projectId driver) (.claim .notProjectMember
      ("taking over a claim is for active members of project " ++ r.projectId ++ "; driver " ++ driver ++
        " is not one"))
    ensure (old.driverId ≠ driver) (.claim .alreadyHeld ("claim " ++ r.claimId ++ " is yours (fence " ++
      toString old.fence ++ ")"))
    let db := sweep db caller.actor r.projectId current (some old.nodeKey)
    let old ← claimOf db r.projectId r.claimId
    ensure (r.expectedFence = old.fence) (.claim .staleFence ("claim fence is " ++ toString old.fence ++ ", not " ++
      toString r.expectedFence ++ "; reload"))
    ensure (old.status = .live) (.claim .claimNotLive ("claim is " ++ old.status.text))
    let node ← nodeOf db r.projectId old.nodeKey
    ensure (¬ (node.status = .SUPERSEDED ∨ (old.purpose = .implement ∧ node.status = .VERIFIED)))
      (.claim .nodeClosed ("node is " ++ node.status.text))
    let presence := effectivePresence host db old.driverId current
    ensure (ownerIsOffline presence = true) (.claim .ownerNotOffline ("claim holder " ++ old.driverId ++ " is " ++
      (if presence.determinable then presence.status.text else "undeterminable") ++ " (basis " ++
      presence.basis.text ++ ", last seen " ++ ((presence.lastSeenAt.map stampText).getD "never") ++
      ", declared offline: " ++ (if presence.declared.isSome then "True" else "False") ++
      "); only an owner known to be offline can be taken over - ask the holder to release or hand it off"))
    let db := retireClaim db caller.actor old .takenOver ("taken over by " ++ driver ++ ": " ++ reason)
    let fence := nextFence db old.node
    let claim := takenClaim old node driver storedKey requestHash uid fence current
    let db := db.event r.projectId (some old.nodeKey) "claim_taken_over" [("claim_id", .str r.claimId),
      ("new_claim_id", .str claim.claimId), ("from_driver_id", .str old.driverId), ("to_driver_id", .str driver),
      ("purpose", .str old.purpose.text), ("fence", .int old.fence), ("new_fence", .int fence),
      ("reason", .str reason), ("actor", .str caller.actor)]
    let db ← acquire db caller.actor claim ("took over " ++ r.claimId ++ " from " ++ old.driverId ++ ": " ++ reason)
      [("taken_over_from", .str r.claimId)]
    return (claim, db)

end Takeover

section Handoff

def offerLeaseSeconds : Nat := 86400
def maxPackageBytes : Nat := 16384
def maxNextStepChars : Nat := 2000

structure ReportRef where
  ref : String
  sha256 : String
  deriving DecidableEq, Repr

structure Workers where
  quiescent : Bool
  detail : Option String
  deriving DecidableEq, Repr

/-- The structured package of an offer: references, never content. -/
structure Package where
  contextHash : Option String
  observationVersion : Option Int
  eventCursor : Option Int
  source : Option Json
  workspace : Option Json
  workers : Option Workers
  pendingCheckpoint : Option Json
  nextStep : Option String
  reports : Option (List ReportRef)
  openIssueIds : Option (List Json)
  noteEntries : Option (List Json)
  privateNotes : Option (List Json)
  subagents : Option (List Json)

def Package.toJson (p : Package) : Json :=
  .obj (optional "context_hash" p.contextHash .str ++ optional "observation_version" p.observationVersion .int ++
    optional "event_cursor" p.eventCursor .int ++ optional "source" p.source id ++
    optional "workspace" p.workspace id ++ optional "workers" p.workers (fun w =>
      .obj ([("quiescent", .bool w.quiescent)] ++ optional "detail" w.detail .str)) ++
    optional "pending_checkpoint" p.pendingCheckpoint id ++ optional "next_step" p.nextStep .str ++
    optional "reports" p.reports (fun l => .arr (l.map (fun r =>
      .obj [("ref", .str r.ref), ("sha256", .str r.sha256)]))) ++
    optional "open_issue_ids" p.openIssueIds .arr ++ optional "note_entries" p.noteEntries .arr ++
    optional "private_notes" p.privateNotes .arr ++ optional "subagents" p.subagents .arr)

def capped {α : Type} (name : String) (value : Option (List α)) (cap : Nat) : Result Unit :=
  ensure (∀ l ∈ value, l.length ≤ cap)
    (.graph ("package." ++ name ++ " must be a list of at most " ++ toString cap ++ " items"))

/-- `MAX(seq)` of the project's events; a row's `seq` is its place in the table. -/
def eventHighWater (db : DB) (projectId : String) : Nat :=
  ((db.events.zipIdx.filter (fun e => decide (e.1.projectId = projectId))).map (fun e => e.2 + 1)).foldl max 0

/-- `_check_package`; `retained` says whether each report's bytes were retained. -/
def checkPackage (host : Host) (db : DB) (projectId : String) (p : Package) (attempt : Option Attempt)
    (retained : ReportRef → Result Unit) : Result Unit := do
  ensure ((canonical p.toJson).toUTF8.size ≤ maxPackageBytes)
    (.graph "package exceeds 16384 bytes; it carries references, not content")
  capped "reports" p.reports 20
  capped "open_issue_ids" p.openIssueIds 100
  capped "note_entries" p.noteEntries 50
  capped "private_notes" p.privateNotes 50
  capped "subagents" p.subagents 100
  ensure (∀ s ∈ p.nextStep, s.toList.length ≤ maxNextStepChars)
    (.graph "package.next_step must be text of at most 2000 characters")
  ensure (∀ a ∈ attempt, ∀ h ∈ p.contextHash, h = host.digest a.context.toJson)
    (.claim .packageMismatch "package.context_hash is not this attempt's frozen context")
  ensure (∀ a ∈ attempt, ∀ v ∈ p.observationVersion, v = a.observationVersion)
    (.claim .packageMismatch ("package.observation_version is not the current " ++
      toString ((attempt.map Attempt.observationVersion).getD 0)))
  ensure (∀ c ∈ p.eventCursor, 0 ≤ c ∧ c ≤ eventHighWater db projectId)
    (.claim .packageMismatch ("package.event_cursor exceeds the project's high-water mark " ++
      toString (eventHighWater db projectId)))
  (p.reports.getD []).forM (fun r => do
    ensure (isHexOf 64 r.sha256) (.graph "package.reports items are \x7bref, sha256\x7d")
    retained r)

/-- What a handoff is about: an attempt or a claim of the offerer. -/
inductive Subject
  | attempt (attemptId : String)
  | claim (claimId : String)
  deriving DecidableEq, Repr

def Subject.attemptId : Subject → Option String
  | .attempt id => some id
  | .claim _ => none

def Subject.claimId : Subject → Option String
  | .attempt _ => none
  | .claim id => some id

structure Offer where
  projectId : String
  requestKey : String
  expectedOwnerFence : Int
  package : Package
  subject : Subject
  toDriverId : String

/-- The offerer's own active attempt or live claim, with its node. -/
def offeredSubject (db : DB) (driver : String) (o : Offer) : Result (Option Attempt × String) :=
  match o.subject with
  | .attempt id => do
    let _ ← key id "attempt_id"
    let a ← orElse ((db.attempt? id).filter (fun a => decide (a.projectId = o.projectId)))
      (.notFound ("attempt " ++ quote id ++ " not found in project " ++ quote o.projectId))
    ensure (a.status.active = true) (.claim .attemptNotActive ("attempt is " ++ a.status.text))
    ensure (a.ownerDriverId = some driver) (.claim .notAttemptOwner ("attempt belongs to driver " ++
      ((a.ownerDriverId.map quote).getD "None")))
    ensure ((a.ownerFence : Int) = o.expectedOwnerFence)
      (.claim .staleFence ("attempt owner fence is " ++ toString a.ownerFence))
    return (some a, a.nodeKey)
  | .claim id => do
    let _ ← key id "claim_id"
    let c ← orElse ((db.claim? id).filter (fun c => decide (c.projectId = o.projectId)))
      (.notFound ("claim " ++ quote id ++ " not found in project " ++ quote o.projectId))
    ensure (c.status = .live) (.claim .claimNotLive ("claim is " ++ c.status.text))
    ensure (c.driverId = driver) (.claim .notClaimOwner ("claim belongs to driver " ++ c.driverId))
    ensure ((c.fence : Int) = o.expectedOwnerFence) (.claim .staleFence ("claim fence is " ++ toString c.fence))
    return (none, c.nodeKey)

def Handoff.pendingFor (o : Offer) (current : Stamp) (h : Handoff) : Bool :=
  decide (h.projectId = o.projectId ∧ h.status = .offered ∧ current < h.leaseExpiresAt ∧
    ((h.attemptId.isSome ∧ h.attemptId = o.subject.attemptId) ∨
      (h.claimId.isSome ∧ h.claimId = o.subject.claimId)))

def offerHandoff (host : Host) (db : DB) (caller : Caller) (o : Offer) (retained : ReportRef → Result Unit)
    (uid : String) (current : Stamp) : Result (Handoff × DB) := do
  let driver ← requireDriver caller "handoffs move ownership between registered drivers"
  let _ ← key o.requestKey "request_key"
  ensure (o.toDriverId ≠ "" ∧ o.toDriverId ≠ driver)
    (.graph "to_driver_id names the one other driver you offer to (point to point)")
  let _ ← projectOf db o.projectId
  let (attempt, nodeKey) ← offeredSubject db driver o
  checkPackage host db o.projectId o.package attempt retained
  let requestHash := host.digest (.obj [("attempt_id", .ofOption o.subject.attemptId),
    ("claim_id", .ofOption o.subject.claimId), ("to", .str o.toDriverId), ("fence", .int o.expectedOwnerFence),
    ("package", o.package.toJson)])
  match db.handoffs.find? (fun h => decide (h.projectId = o.projectId ∧ h.fromDriverId = driver ∧
      h.requestKey = o.requestKey)) with
  | some old => do
    ensure (old.requestHash = requestHash)
      (.claim .requestKeyReused "this request_key was used for a different offer")
    return (old, db)
  | none => do
    let pending := db.handoffs.find? (Handoff.pendingFor o current)
    ensure pending.isNone (.claim .handoffPending ("handoff " ++ ((pending.map Handoff.handoffId).getD "") ++
      " is already offered for this subject; withdraw it first"))
    let row : Handoff :=
      { handoffId := "handoff-" ++ uid, projectId := o.projectId, attemptId := o.subject.attemptId,
        claimId := o.subject.claimId, nodeKey := nodeKey, fromDriverId := driver, toDriverId := o.toDriverId,
        status := .offered, package := o.package.toJson, expectedOwnerFence := o.expectedOwnerFence,
        requestKey := o.requestKey, requestHash := requestHash,
        leaseExpiresAt := addSeconds current offerLeaseSeconds, decidedBy := none, decisionReason := none }
    ensure ((lookup Handoff.handoffId db.handoffs row.handoffId).isNone) (.integrity "state_handoffs")
    return (row, { db with handoffs := db.handoffs ++ [row] }.event o.projectId (some nodeKey) "handoff_offered"
      [("handoff_id", .str row.handoffId),
        ("subject_kind", .str (if row.attemptId.isSome then "attempt" else "claim")),
        ("attempt_id", .ofOption row.attemptId), ("claim_id", .ofOption row.claimId),
        ("from_driver_id", .str driver), ("to_driver_id", .str o.toDriverId),
        ("lease_expires_at", .str (stampText row.leaseExpiresAt)), ("actor", .str caller.actor)])

/-- `_handoff`. -/
def handoffOf (db : DB) (projectId handoffId : String) : Result Handoff := do
  let _ ← key handoffId "handoff_id"
  orElse ((lookup Handoff.handoffId db.handoffs handoffId).filter (fun h => decide (h.projectId = projectId)))
    (.notFound ("handoff " ++ quote handoffId ++ " not found in project " ++ quote projectId))

/-- `_eligible`: only the one receiver decides. -/
def handoffEligible (h : Handoff) (driver : String) : Result Unit := do
  ensure (h.fromDriverId ≠ driver)
    (.claim .notHandoffTarget "the offerer does not accept or decline its own offer; withdraw it")
  ensure (h.toDriverId = driver)
    (.claim .notHandoffTarget ("this handoff was offered to driver " ++ h.toDriverId))

/-- `_open`: an offer past its lease has expired, and only an open one is decided. -/
def handoffOpen (h : Handoff) (current : Stamp) : Result Unit := do
  ensure (¬ (h.status = .offered ∧ h.leaseExpiresAt ≤ current)) (.claim .handoffExpired "handoff is expired")
  ensure (h.status = .offered) (.claim (if h.status = .expired then .handoffExpired else .handoffClosed)
    ("handoff is " ++ h.status.text))

def decideHandoff (db : DB) (handoffId : String) (status : HandoffStatus) (by_ reason : String) : DB :=
  db.setHandoff handoffId (fun h => { h with
    status := status, decidedBy := some by_, decisionReason := some reason })

/-- The attempt half of `accept_handoff`. -/
def acceptAttempt (host : Host) (db : DB) (caller : Caller) (h : Handoff) (attemptId driver : String)
    (expectedOwnerFence : Int) (current : Stamp) (ids : Nat → String) : Result (Option Claim × DB) := do
  let attempt ← attemptOf db attemptId
  ensure (attempt.status.active = true) (.claim .attemptNotActive ("attempt is " ++ attempt.status.text))
  ensure (attempt.ownerDriverId = some h.fromDriverId ∧ (attempt.ownerFence : Int) = expectedOwnerFence ∧
      (attempt.ownerFence : Int) = h.expectedOwnerFence)
    (.claim .staleFence ("attempt owner fence is " ++ toString attempt.ownerFence ++ " (owner " ++
      (attempt.ownerDriverId.getD "None") ++ "); the offer no longer matches"))
  let db := setOwner db attempt driver current
  let (claim, db) ← transferClaims host db caller.actor ("handoff " ++ h.handoffId ++ " accepted") attempt driver
    current ids
  return (claim, db.event h.projectId (some attempt.nodeKey) "attempt_ownership_transferred"
    [("attempt_id", .str attemptId), ("mode", .str "handoff"), ("handoff_id", .str h.handoffId),
      ("from_driver_id", .str h.fromDriverId), ("to_driver_id", .str driver),
      ("previous_fence", .int attempt.ownerFence), ("fence", .int (attempt.ownerFence + 1)),
      ("lease_expires_at", .str (stampText (addSeconds current defaultLeaseSeconds))),
      ("workers_quiescent", (h.package.get "workers").get "quiescent"), ("actor", .str caller.actor)])

/-- The claim half of `accept_handoff`. -/
def acceptClaim (host : Host) (db : DB) (caller : Caller) (h : Handoff) (claimId driver : String)
    (expectedOwnerFence : Int) (current : Stamp) (ids : Nat → String) : Result (Option Claim × DB) := do
  let claim ← orElse (db.claim? claimId) (.integrity "state_handoffs")
  ensure (claim.status = .live ∧ claim.driverId = h.fromDriverId ∧ (claim.fence : Int) = expectedOwnerFence ∧
      (claim.fence : Int) = h.expectedOwnerFence)
    (.claim .staleFence ("claim is " ++ claim.status.text ++ " with fence " ++ toString claim.fence ++
      "; the offer no longer matches"))
  let reason := "handoff " ++ h.handoffId ++ " accepted"
  let db := (retireClaim db caller.actor claim .transferred reason).event h.projectId (some claim.nodeKey)
    "claim_transferred" [("claim_id", .str claim.claimId), ("driver_id", .str claim.driverId),
      ("to_driver_id", .str driver), ("purpose", .str claim.purpose.text), ("fence", .int claim.fence),
      ("handoff_id", .str h.handoffId), ("actor", .str caller.actor)]
  let (fresh, db) ← newClaimFor host db caller.actor ⟨claim.attemptId, h.projectId, claim.nodeKey, claim.nodeRevision⟩
    driver current reason claim.workspace claim.purpose claim.subagent (ids 0)
  return (some fresh, db)

/-- A handoff is about exactly one of an attempt and a claim. -/
def acceptSubject (host : Host) (db : DB) (caller : Caller) (h : Handoff) (driver : String)
    (expectedOwnerFence : Int) (current : Stamp) (ids : Nat → String) : Result (Option Claim × DB) :=
  match h.attemptId, h.claimId with
  | some attemptId, _ => acceptAttempt host db caller h attemptId driver expectedOwnerFence current ids
  | none, some claimId => acceptClaim host db caller h claimId driver expectedOwnerFence current ids
  | none, none => .error (.integrity "state_handoffs")

def acceptHandoff (host : Host) (db : DB) (caller : Caller) (projectId handoffId : String)
    (expectedOwnerFence : Int) (current : Stamp) (ids : Nat → String) : Result (Option Claim × DB) := do
  let driver ← requireDriver caller "handoffs move ownership between registered drivers"
  let h ← handoffOf db projectId handoffId
  handoffEligible h driver
  handoffOpen h current
  let (claim, db) ← acceptSubject host db caller h driver expectedOwnerFence current ids
  return (claim, decideHandoff db handoffId .accepted driver "accepted")

def declineHandoff (db : DB) (caller : Caller) (projectId handoffId reason : String) (current : Stamp) :
    Result DB := do
  let driver ← requireDriver caller "handoffs move ownership between registered drivers"
  let reason ← text reason "decline reason" 2000
  let h ← handoffOf db projectId handoffId
  handoffEligible h driver
  handoffOpen h current
  return (decideHandoff db handoffId .declined driver reason).event projectId (some h.nodeKey) "handoff_declined"
    [("handoff_id", .str handoffId), ("by_driver_id", .str driver), ("reason", .str reason),
      ("actor", .str caller.actor)]

def withdrawHandoff (db : DB) (caller : Caller) (projectId handoffId reason : String) (current : Stamp) :
    Result DB := do
  let driver ← requireDriver caller "handoffs move ownership between registered drivers"
  bounded reason 2000 "reason must be text of at most 2000 characters"
  let h ← handoffOf db projectId handoffId
  ensure (h.fromDriverId = driver ∨ caller.isAdmin)
    (.claim .notHandoffOwner "only the offerer withdraws an offer")
  if h.status = .withdrawn then return db
  else do
    handoffOpen h current
    return (decideHandoff db handoffId .withdrawn driver reason).event projectId (some h.nodeKey)
      "handoff_withdrawn" [("handoff_id", .str handoffId), ("by_driver_id", .str driver), ("reason", .str reason),
        ("actor", .str caller.actor), ("break_glass", .bool (decide (h.fromDriverId ≠ driver)))]

end Handoff

end AItelier.State
