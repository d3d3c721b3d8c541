import AItelier.State.External

namespace AItelier.State

open AItelier.Lib

/-- What a replacement claim is made for: an attempt, or a bare claim's node. -/
structure Transfer where
  attemptId : Option String
  projectId : String
  nodeKey : String
  nodeRevision : Nat

def Attempt.transfer (a : Attempt) : Transfer :=
  ⟨some a.attemptId, a.projectId, a.nodeKey, a.nodeRevision⟩

/-- `new_claim_for`: a live claim for a new holder with the node's next fence. -/
def newClaimFor (host : Host) (db : DB) (actor : String) (t : Transfer) (driver : String) (current : Stamp)
    (reason workspace : String) (purpose : Purpose) (subagent : Option String) (uid : String) :
    Result (Claim × DB) := do
  whenever purpose.exclusive (refuseExclusiveHolder host db (t.projectId, t.nodeKey) driver current)
  let fence := nextFence db (t.projectId, t.nodeKey)
  let claim : Claim :=
    { claimId := "claim-" ++ uid, projectId := t.projectId, nodeKey := t.nodeKey, driverId := driver,
      purpose := purpose, status := .live, fence := fence, nodeRevision := t.nodeRevision,
      attemptId := t.attemptId, workspace := workspace, subagent := subagent,
      leaseSeconds := defaultLeaseSeconds, leaseExpiresAt := addSeconds current defaultLeaseSeconds,
      lastHeartbeatAt := current,
      requestKey := "transfer:" ++ t.attemptId.getD t.nodeKey ++ ":" ++ toString fence,
      requestHash := host.digest (.obj [("transfer", .ofOption t.attemptId), ("fence", .int fence),
        ("node_key", .str t.nodeKey)]),
      createdAt := current }
  let db ← acquire db actor claim reason [("attempt_id", .ofOption t.attemptId), ("transfer", .bool true)]
  return (claim, db)

/-- `_bind_held_claim`: the new holder's own live claim takes the attempt over with
a fresh fence. -/
def bindHeldClaim (db : DB) (actor : String) (attempt : Attempt) (held : Claim) (reason : String) : Claim × DB :=
  let fence := nextFence db attempt.node
  let claim := { held with attemptId := some attempt.attemptId, fence := fence }
  let db := db.setClaim held.claimId (fun c => { c with attemptId := some attempt.attemptId, fence := fence })
  (claim, (history db actor claim .live reason).event attempt.projectId (some attempt.nodeKey) "claim_acquired"
    (claimAcquired actor claim ++ [("previous_fence", .int held.fence),
      ("attempt_id", .str attempt.attemptId), ("transfer", .bool true)]))

/-- One bound claim stops, or moves with its attempt. -/
def endBoundClaim (actor reason : String) (attempt : Attempt) (newHolder : Option String) (db : DB)
    (claim : Claim) : DB :=
  let status := if newHolder.isSome then ClaimStatus.transferred else .released
  (retireClaim db actor claim status reason).event attempt.projectId (some attempt.nodeKey)
    (if newHolder.isSome then "claim_transferred" else "claim_released")
    [("claim_id", .str claim.claimId), ("driver_id", .str claim.driverId), ("purpose", .str claim.purpose.text),
      ("fence", .int claim.fence), ("reason", .str reason), ("to_driver_id", .ofOption newHolder),
      ("attempt_id", .str attempt.attemptId), ("actor", .str actor)]

/-- The live claims that stop or move with the attempt: those bound to it, and
its owner's exclusive claim on its node. -/
def boundClaims (db : DB) (attempt : Attempt) : List Claim :=
  db.claims.filter (fun c => decide (c.projectId = attempt.projectId ∧ c.status = .live ∧
    (c.attemptId = some attempt.attemptId ∨ (c.nodeKey = attempt.nodeKey ∧
      c.driverId = attempt.ownerDriverId.getD "" ∧ c.purpose.exclusive = true))))

/-- The latest claim ever bound to the attempt, by stamp and then by id. -/
def lastBound (db : DB) (attempt : Attempt) : Option Claim :=
  (db.claims.filter (fun c => decide (c.projectId = attempt.projectId ∧
    c.attemptId = some attempt.attemptId))).foldl (fun best c => match best with
      | some b => if b.createdAt < c.createdAt ∨
            (b.createdAt = c.createdAt ∧ b.claimId.toList < c.claimId.toList) then some c else some b
      | none => some c) none

/-- The loop state of a transfer: the new holder's own claim while it is unused,
the replacement reported so far, and how many fresh ids were drawn. -/
structure Moving where
  db : DB
  held : Option Claim
  created : Option Claim
  drawn : Nat

/-- The replacement of one bound claim. -/
def moveClaim (host : Host) (actor reason : String) (attempt : Attempt) (newHolder : String) (current : Stamp)
    (ids : Nat → String) (m : Moving) (claim : Claim) : Result Moving :=
  match m.held.filter (fun _ => claim.purpose.exclusive) with
  | some held =>
    let (moved, db) := bindHeldClaim m.db actor attempt held reason
    return { m with db := db, held := none,
                    created := if m.created.isNone ∨ claim.purpose = .implement then some moved else m.created }
  | none => do
    let (moved, db) ← newClaimFor host m.db actor attempt.transfer newHolder current reason claim.workspace
      claim.purpose claim.subagent (ids m.drawn)
    return { m with db := db, drawn := m.drawn + 1,
                    created := if m.created.isNone ∨ claim.purpose = .implement then some moved else m.created }

/-- With nothing to replace, the new holder's own claim is bound, or a fresh
implement claim is made. -/
def moveDefault (host : Host) (actor reason : String) (attempt : Attempt) (newHolder : String) (current : Stamp)
    (ids : Nat → String) (m : Moving) : Result Moving :=
  match m.created, m.held with
  | some _, _ => return m
  | none, some held =>
    let (moved, db) := bindHeldClaim m.db actor attempt held reason
    return { m with db := db, held := none, created := some moved }
  | none, none => do
    let (moved, db) ← newClaimFor host m.db actor attempt.transfer newHolder current reason "" .implement none
      (ids m.drawn)
    return { m with db := db, drawn := m.drawn + 1, created := some moved }

def stopBoundClaims (db : DB) (actor reason : String) (attempt : Attempt) (newHolder : Option String) : DB :=
  (boundClaims db attempt).foldl (endBoundClaim actor reason attempt newHolder) db

/-- `_release_bound_claims` for a new holder. -/
def transferClaims (host : Host) (db : DB) (actor reason : String) (attempt : Attempt) (newHolder : String)
    (current : Stamp) (ids : Nat → String) : Result (Option Claim × DB) := do
  let rows := boundClaims db attempt
  let db := stopBoundClaims db actor reason attempt (some newHolder)
  let sources := if rows = [] then (lastBound db attempt).toList else rows
  let held := db.claims.find? (fun c => Claim.liveExclusive attempt.node c && decide (c.driverId = newHolder))
  let m ← sources.foldlM (moveClaim host actor reason attempt newHolder current ids) ⟨db, held, none, 0⟩
  let m ← moveDefault host actor reason attempt newHolder current ids m
  return (m.created, m.db)

/-- `_void_open_handoffs`. -/
def voidOpenHandoffs (db : DB) (attemptId reason : String) : DB :=
  { db with
    handoffs := modifyWhere (fun h => decide (h.attemptId = some attemptId ∧ h.status = .offered))
      (fun h => { h with status := .withdrawn, decidedBy := some "system", decisionReason := some reason })
      db.handoffs }

/-- `owner_is_offline`: an undeterminable owner is not offline. -/
def ownerIsOffline (p : Presence) : Bool :=
  decide (p.status = .offline) && p.determinable

def refuseSharedIdentity (driverId : Option String) : Result Unit :=
  ensure (sharedIdentity driverId = false) (.claim .sharedIdentity
    "the shared public identity cannot take over another driver's work; use your own registered driver token")

/-- `offline_owner_evidence`: the presence that lets an active member take the
attempt over before its lease lapsed. -/
def offlineOwnerEvidence (host : Host) (db : DB) (projectId : String) (owner caller : Option String)
    (now : Stamp) : Result (Option Presence) :=
  match owner, caller with
  | some o, some c =>
    if o = "" ∨ o = c ∨ c = "" then return none
    else
      let presence := effectivePresence host db o now
      if ownerIsOffline presence = false then return none
      else do
        refuseSharedIdentity (some c)
        ensure (isMember db projectId c) (.claim .notProjectMember ("taking over the attempt of an offline owner " ++
          "is for active members of project " ++ projectId ++ "; driver " ++ c ++ " is not one"))
        return some presence
  | _, _ => return none

/-- The lease part of `_reclaimable`. -/
def leaseReclaimable (host : Host) (db : DB) (caller : Caller) (attempt : Attempt) (overrideReason : Option String)
    (current : Stamp) (memberBreakGlass takeover : Bool) : Result (Bool × Option Presence) :=
  match attempt.leaseExpiresAt with
  | none => do
    ensure (overrideReason.isSome ∨ caller.isAdmin) (.claim .overrideReasonRequired
      ("this attempt predates leases (legacy_unleased); reclaiming it needs an explicit " ++
        "override_reason and the owner's confirmation (design §9.2 step 4)"))
    return (overrideReason.isNone || memberBreakGlass, none)
  | some expires =>
    let state := leaseState (some expires) current
    if state = .reclaimable then return (memberBreakGlass, none)
    else if caller.isAdmin then return (true, none)
    else do
      let evidence ← offlineOwnerEvidence host db attempt.projectId attempt.ownerDriverId
        (if takeover then caller.driverId else none) current
      ensure evidence.isSome (.claim .leaseNotExpired ("lease is " ++ state.text ++ "; reclaimable at " ++
        stampText (addSeconds expires graceSeconds) ++ " (expiry " ++ stampText expires ++ " + " ++
        toString graceSeconds ++ "s grace)"))
      return (memberBreakGlass, evidence)

/-- `_reclaimable`: whether this is a break-glass write, and the offline evidence
it rests on. -/
def reclaimable (host : Host) (db : DB) (caller : Caller) (attempt : Attempt) (expectedOwnerFence : Int)
    (overrideReason : Option String) (current : Stamp) (takeover : Bool) : Result (Bool × Option Presence) := do
  ensure (attempt.status.active = true) (.claim .attemptNotActive ("attempt is " ++ attempt.status.text ++
    "; nothing to reclaim"))
  let memberBreakGlass ← requireMember host db caller attempt.projectId "reclaiming an attempt"
  ensure (expectedOwnerFence = attempt.ownerFence) (.claim .staleFence ("attempt owner fence is " ++
    toString attempt.ownerFence ++ ", not " ++ toString expectedOwnerFence ++ "; reload"))
  leaseReclaimable host db caller attempt overrideReason current memberBreakGlass takeover

structure AbandonRequest where
  attemptId : String
  expectedOwnerFence : Int
  abandonKind : AbandonKind
  reason : String
  reportRef : Option String
  reportSha256 : Option String
  overrideReason : Option String

/-- The attestation a confirmed stop must carry: the digest and retained bytes. -/
def abandonReport (r : AbandonRequest) (kept : Except StateError (String × List UInt8)) :
    Result (Option (String × String × List UInt8)) :=
  match r.abandonKind with
  | .confirmedStopped => do
    ensure (truthy r.reportRef ∧ truthy r.reportSha256)
      (.graph "confirmed_stopped is an attestation: it needs report_ref and report_sha256")
    let (ref, bytes) ← kept
    return some (ref, r.reportSha256.getD "", bytes)
  | .unknown => do
    ensure (r.reportRef = none ∧ r.reportSha256 = none)
      (.graph "abandon_kind=unknown carries no quiescence report; omit report_ref/report_sha256")
    return none

def storeAbandonReport (db : DB) (report : Option (String × String × List UInt8)) : Result DB :=
  match report with
  | some (ref, sha, bytes) => storeReportBlob db ref sha bytes
  | none => return db

/-- The abandoned attempt and its owner row. -/
def markAbandoned (db : DB) (attempt : Attempt) (kind : AbandonKind) (reason : String) (current : Stamp) : DB :=
  let db := db.setAttempt attempt.attemptId (fun a => { a with
    status := .abandoned, abandonKind := some kind, error := some reason, ownerFence := attempt.ownerFence + 1 })
  { db with
    owners := modifyWhere (fun o => decide (o.attemptId = attempt.attemptId))
      (fun o => { o with status := .abandoned, settledAt := some current }) db.owners }

/-- What an abandon writes. -/
def writeAbandon (db : DB) (caller : Caller) (attempt : Attempt) (kind : AbandonKind) (reason : String)
    (current : Stamp) : DB :=
  let db := markAbandoned db attempt kind reason current
  let db := stopBoundClaims db caller.actor ("attempt abandoned: " ++ reason) attempt none
  voidOpenHandoffs db attempt.attemptId "attempt abandoned"

/-- `abandon_external_attempt`. -/
def abandonExternalAttempt (host : Host) (db : DB) (caller : Caller) (r : AbandonRequest)
    (kept : Except StateError (String × List UInt8)) (current : Stamp) : Result (Attempt × DB) := do
  let reason ← text r.reason "abandon reason" 4000
  let overrideReason ← overrideReasonText r.overrideReason
  ensure (truthy caller.driverId ∨ caller.isAdmin)
    (.claim .driverIdentityRequired "reclaiming belongs to a registered driver")
  let report ← abandonReport r kept
  let attempt ← attemptOf db r.attemptId
  ensure (attempt.executionKind = .external) (.claim .notExternal ("only an external attempt can be abandoned; " ++
    "a SkillFlow attempt's run is alive or not by the engine's account - take_over_attempt its controller"))
  let (breakGlass, _) ← reclaimable host db caller attempt r.expectedOwnerFence overrideReason current false
  let db ← storeAbandonReport db report
  let db := writeAbandon db caller attempt r.abandonKind reason current
  let row ← attemptOf db r.attemptId
  return (row, db.event attempt.projectId (some attempt.nodeKey) "attempt_abandoned"
    [("attempt_id", .str attempt.attemptId), ("abandon_kind", .str r.abandonKind.text), ("reason", .str reason),
      ("previous_owner_driver_id", .ofOption attempt.ownerDriverId), ("previous_fence", .int attempt.ownerFence),
      ("fence", .int (attempt.ownerFence + 1)), ("actor", .str caller.actor),
      ("driver_id", .ofOption caller.driverId), ("break_glass", .bool breakGlass),
      ("override_reason", .ofOption overrideReason), ("report_sha256", .ofOption r.reportSha256)])

/-- The ownership columns of an attempt that changes hands. -/
def setOwner (db : DB) (attempt : Attempt) (driver : String) (current : Stamp) : DB :=
  db.setAttempt attempt.attemptId (fun a => { a with
    ownerDriverId := some driver, ownerFence := attempt.ownerFence + 1,
    leaseExpiresAt := some (addSeconds current defaultLeaseSeconds), lastHeartbeatAt := some current })

/-- `take_over_attempt`. -/
def takeOverAttempt (host : Host) (db : DB) (caller : Caller) (attemptId : String) (expectedOwnerFence : Int)
    (reason : String) (overrideReason : Option String) (current : Stamp) (ids : Nat → String) :
    Result (Attempt × Option Claim × DB) := do
  let reason ← text reason "takeover reason" 4000
  let overrideReason ← overrideReasonText overrideReason
  let driver ← requireDriver caller ("an attempt is owned by a registered driver; the owner's " ++
    "e-mail cannot take one over - use an admin driver token (owner-cli)")
  refuseSharedIdentity (some driver)
  let attempt ← attemptOf db attemptId
  ensure (attempt.ownerDriverId ≠ some driver)
    (.claim .alreadyOwner "you already own this attempt; heartbeat it instead")
  let (breakGlass, offline) ← reclaimable host db caller attempt expectedOwnerFence overrideReason current true
  let db := setOwner db attempt driver current
  let (claim, db) ← transferClaims host db caller.actor ("attempt taken over: " ++ reason) attempt driver current ids
  let db := voidOpenHandoffs db attemptId "attempt taken over"
  let row ← attemptOf db attemptId
  return (row, claim, db.event attempt.projectId (some attempt.nodeKey) "attempt_ownership_transferred"
    ([("attempt_id", .str attemptId), ("mode", .str "takeover"),
      ("from_driver_id", .ofOption attempt.ownerDriverId), ("to_driver_id", .str driver),
      ("previous_fence", .int attempt.ownerFence), ("fence", .int (attempt.ownerFence + 1)),
      ("lease_expires_at", .str (stampText (addSeconds current defaultLeaseSeconds))), ("reason", .str reason),
      ("override_reason", .ofOption overrideReason), ("break_glass", .bool breakGlass),
      ("actor", .str caller.actor)] ++ (if offline.isSome then [("owner_offline", .bool true)] else [])))

end AItelier.State
