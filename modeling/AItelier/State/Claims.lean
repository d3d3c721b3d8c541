import AItelier.State.Presence

namespace AItelier.State

open AItelier.Lib

def defaultLeaseSeconds : Nat := 7200
def minLeaseSeconds : Nat := 60
def maxLeaseSeconds : Nat := 86400
def graceSeconds : Nat := 900
def maxHeartbeatItems : Nat := 100

inductive LeaseState
  | healthy | expired | reclaimable | legacyUnleased
  deriving DecidableEq, Repr

def LeaseState.text : LeaseState → String
  | .healthy => "healthy" | .expired => "expired" | .reclaimable => "reclaimable"
  | .legacyUnleased => "legacy_unleased"

def leaseState (leaseExpiresAt : Option Stamp) (current : Stamp) : LeaseState :=
  match leaseExpiresAt with
  | none => .legacyUnleased
  | some expires =>
    if current < expires then .healthy
    else if current < addSeconds expires graceSeconds then .expired
    else .reclaimable

def requireDriver (caller : Caller) (message : String) : Result String :=
  orElse (caller.driverId.filter (fun d => decide (d ≠ ""))) (.claim .driverIdentityRequired message)

def claimDriver (caller : Caller) : Result String :=
  requireDriver caller "claims and leases belong to a registered driver; call driver_whoami"

/-- `_claim`. -/
def claimOf (db : DB) (projectId claimId : String) : Result Claim := do
  let _ ← key claimId "claim_id"
  orElse ((db.claim? claimId).filter (fun c => decide (c.projectId = projectId)))
    (.notFound ("claim " ++ quote claimId ++ " not found in project " ++ quote projectId))

/-- `_history`. -/
def history (db : DB) (actor : String) (claim : Claim) (status : ClaimStatus) (reason : String) : DB :=
  { db with
    claimHistory := db.claimHistory ++ [⟨claim.claimId, claim.projectId, claim.nodeKey, claim.driverId,
      claim.purpose, status, claim.fence, claim.leaseExpiresAt, actor, reason⟩] }

/-- A live claim stops: its status moves and one history row says so. -/
def retireClaim (db : DB) (actor : String) (claim : Claim) (status : ClaimStatus) (reason : String) : DB :=
  history (db.setClaim claim.claimId (fun c => { c with status := status })) actor claim status reason

/-- `1 + MAX(fence)` over the node's claims, which are never deleted. -/
def nextFence (db : DB) (id : NodeId) : Nat :=
  1 + ((db.claims.filter (fun c => decide (c.node = id))).map Claim.fence).foldl max 0

def Claim.liveExclusive (id : NodeId) (c : Claim) : Bool :=
  decide (c.node = id ∧ c.status = .live) && c.purpose.exclusive

/-- The node's live exclusive claim; the partial unique index admits one. -/
def exclusiveHolder (db : DB) (id : NodeId) : Option Claim :=
  db.claims.find? (Claim.liveExclusive id)

/-- `INSERT INTO state_node_claims` under the table's constraints. -/
def insertClaim (db : DB) (claim : Claim) : Result DB := do
  ensure ((db.claim? claim.claimId).isNone ∧
    ¬ db.claims.any (fun c => decide (c.node = claim.node ∧ c.driverId = claim.driverId ∧
      c.requestKey = claim.requestKey)) ∧
    ¬ (claim.liveExclusive claim.node ∧ (exclusiveHolder db claim.node).isSome))
    (.integrity "state_node_claims")
  return { db with claims := db.claims ++ [claim] }

/-- `_refuse_exclusive_holder`. -/
def refuseExclusiveHolder (host : Host) (db : DB) (id : NodeId) (driver : String) (current : Stamp) :
    Result Unit :=
  match exclusiveHolder db id with
  | none => .ok ()
  | some holder =>
    if holder.driverId = driver then
      .error (.claim .alreadyHeld ("you already hold " ++ holder.purpose.text ++ " claim " ++ holder.claimId ++
        " (fence " ++ toString holder.fence ++ ")"))
    else
      .error (.claim .claimedByOther ("node is claimed for " ++ holder.purpose.text ++ " by driver " ++
        holder.driverId ++ " until " ++ stampText holder.leaseExpiresAt ++ " (lease_state " ++
        (leaseState (some holder.leaseExpiresAt) current).text ++ ")" ++
        holderNote host db holder.driverId holder.claimId holder.fence current))

/-- What `claim_node` raises where the partial unique index had the last word. -/
def exclusiveLost (host : Host) (db : DB) (id : NodeId) (driver : String) (current : Stamp) : StateError :=
  match refuseExclusiveHolder host db id driver current with
  | .error e => e
  | .ok _ => .claim .claimedByOther "another exclusive claim won this node; reload"

/-- What a sweep works on: a lapsed claim or a lapsed attempt, with its phase. -/
inductive Lapsed
  | claim (row : Claim) (phase : LeaseState)
  | attempt (row : Attempt) (phase : LeaseState)

def Event.isExpiry (projectId nodeKey leaseId : String) (expires : Stamp) (phase : LeaseState) (e : Event) :
    Bool :=
  decide (e.projectId = projectId ∧ e.nodeKey = some nodeKey ∧ e.eventType = "lease_expired") &&
    decide (canonical (e.payload.get "lease_id") = canonical (.str leaseId)) &&
    decide (canonical (e.payload.get "lease_expires_at") = canonical (.str (stampText expires))) &&
    decide (canonical (e.payload.get "phase") = canonical (.str phase.text))

def expirySeen (db : DB) (projectId nodeKey leaseId : String) (expires : Stamp) (phase : LeaseState) : Bool :=
  db.events.any (Event.isExpiry projectId nodeKey leaseId expires phase)

def inScope (nodeKey : Option String) (k : String) : Bool :=
  match nodeKey with
  | some n => k = n
  | none => true

def dueClaim (db : DB) (projectId : String) (current : Stamp) (nodeKey : Option String) (c : Claim) :
    Option Lapsed :=
  let phase := leaseState (some c.leaseExpiresAt) current
  if (decide (c.projectId = projectId ∧ c.status = .live ∧ c.leaseExpiresAt ≤ current) &&
      inScope nodeKey c.nodeKey) &&
      (decide (phase = .reclaimable) ||
        !expirySeen db projectId c.nodeKey c.claimId c.leaseExpiresAt phase) then
    some (.claim c phase)
  else none

def dueAttempt (db : DB) (projectId : String) (current : Stamp) (nodeKey : Option String) (a : Attempt) :
    Option Lapsed :=
  match a.leaseExpiresAt with
  | none => none
  | some expires =>
    let phase := leaseState (some expires) current
    if (decide (a.projectId = projectId ∧ expires ≤ current) && a.status.active && inScope nodeKey a.nodeKey) &&
        !expirySeen db projectId a.nodeKey a.attemptId expires phase then
      some (.attempt a phase)
    else none

/-- `_due`: leases past expiry whose current phase has not produced its event yet. -/
def due (db : DB) (projectId : String) (current : Stamp) (nodeKey : Option String) : List Lapsed :=
  db.claims.filterMap (dueClaim db projectId current nodeKey) ++
    db.attempts.filterMap (dueAttempt db projectId current nodeKey)

def expiryPayload (subject leaseId : String) (phase : LeaseState) (expires : Stamp) : List (String × Json) :=
  [("subject", .str subject), ("lease_id", .str leaseId), ("phase", .str phase.text),
    ("lease_expires_at", .str (stampText expires)),
    ("reclaimable_at", .str (stampText (addSeconds expires graceSeconds)))]

/-- One round of `_sweep_conn`. Only a claim past its grace leaves `live`; an
attempt whose lease lapsed stays as it is. -/
def sweepOne (actor projectId : String) (db : DB) (lapsed : Lapsed) : DB :=
  match lapsed with
  | .claim row phase =>
    let db := if phase = .reclaimable then
        retireClaim db actor row .expired "lease expired and its grace passed"
      else db
    db.event projectId (some row.nodeKey) "lease_expired" (expiryPayload "claim" row.claimId phase
      row.leaseExpiresAt ++ [("claim_id", .str row.claimId), ("driver_id", .str row.driverId),
        ("purpose", .str row.purpose.text), ("fence", .int row.fence)])
  | .attempt row phase =>
    db.event projectId (some row.nodeKey) "lease_expired" (expiryPayload "attempt" row.attemptId phase
      (row.leaseExpiresAt.getD 0) ++ [("attempt_id", .str row.attemptId),
        ("driver_id", .ofOption row.ownerDriverId), ("fence", .int row.ownerFence),
        ("attempt_status", .str row.status.text)])

/-- `_sweep_conn`. -/
def sweep (db : DB) (actor projectId : String) (current : Stamp) (nodeKey : Option String) : DB :=
  (due db projectId current nodeKey).foldl (sweepOne actor projectId) db

structure ClaimRequest where
  projectId : String
  nodeKey : String
  purpose : Purpose
  expectedRevision : Int
  requestKey : String
  leaseSeconds : Nat
  workspace : String
  subagent : Option String

/-- `subagent` must be `<driver>/<label>`. -/
def ownSubagent (driver label : String) : Bool :=
  decide (label.toList.take (driver.toList.length + 1) = (driver ++ "/").toList) &&
    decide (label.toList.length > driver.toList.length + 1)

def claimAcquired (actor : String) (claim : Claim) : List (String × Json) :=
  [("claim_id", .str claim.claimId), ("driver_id", .str claim.driverId), ("purpose", .str claim.purpose.text),
    ("fence", .int claim.fence), ("lease_expires_at", .str (stampText claim.leaseExpiresAt)),
    ("workspace", .str claim.workspace), ("subagent", .ofOption claim.subagent), ("actor", .str actor)]

/-- The writes of a new live claim: its row, a history row and an event. -/
def acquire (db : DB) (actor : String) (claim : Claim) (reason : String) (extra : List (String × Json)) :
    Result DB := do
  let db ← insertClaim db claim
  return (history db actor claim .live reason).event claim.projectId (some claim.nodeKey) "claim_acquired"
    (claimAcquired actor claim ++ extra)

def claimNode (host : Host) (db : DB) (caller : Caller) (r : ClaimRequest) (claimId : String)
    (current : Stamp) : Result (Claim × DB) := do
  let driver ← claimDriver caller
  ensure (minLeaseSeconds ≤ r.leaseSeconds ∧ r.leaseSeconds ≤ maxLeaseSeconds)
    (.graph "lease_seconds must be an integer in [60, 86400]")
  let _ ← key r.requestKey "request_key"
  bounded r.workspace 500 "workspace must be text of at most 500 characters"
  ensure (∀ label ∈ r.subagent, ownSubagent driver label ∧ label.toList.length ≤ 320)
    (.claim .notYourSubagent ("subagent must be '" ++ driver ++ "/<label>'"))
  let requestHash := host.digest (.obj [("purpose", .str r.purpose.text), ("revision", .int r.expectedRevision),
    ("lease_seconds", .int r.leaseSeconds), ("workspace", .str r.workspace),
    ("subagent", .ofOption r.subagent)])
  let db := markBack db (some driver) current
  let node ← nodeOf db r.projectId r.nodeKey
  match db.claims.find? (fun c => decide (c.node = (r.projectId, r.nodeKey) ∧ c.driverId = driver ∧
      c.requestKey = r.requestKey)) with
  | some old => do
    ensure (old.requestHash = requestHash)
      (.claim .requestKeyReused "this request_key was used for a different claim")
    return (old, db)
  | none => do
    ensure (node.revision = r.expectedRevision)
      (.claim .revisionChanged ("node revision is " ++ toString node.revision ++ "; reload"))
    ensure (¬ (node.status = .SUPERSEDED ∨ (r.purpose = .implement ∧ node.status = .VERIFIED)))
      (.claim .nodeClosed ("node is " ++ node.status.text))
    let db := sweep db caller.actor r.projectId current (some r.nodeKey)
    whenever r.purpose.exclusive (refuseExclusiveHolder host db (r.projectId, r.nodeKey) driver current)
    let claim : Claim :=
      { claimId := claimId, projectId := r.projectId, nodeKey := r.nodeKey, driverId := driver,
        purpose := r.purpose, status := .live, fence := nextFence db (r.projectId, r.nodeKey),
        nodeRevision := node.revision, attemptId := none, workspace := r.workspace, subagent := r.subagent,
        leaseSeconds := r.leaseSeconds, leaseExpiresAt := addSeconds current r.leaseSeconds,
        lastHeartbeatAt := current, requestKey := r.requestKey, requestHash := requestHash,
        createdAt := current }
    let db ← rescue (acquire db caller.actor claim "" [])
      (exclusiveLost host db (r.projectId, r.nodeKey) driver current)
    return (claim, db)

def releaseClaim (db : DB) (caller : Caller) (projectId claimId : String) (fence : Int) (reason : String) :
    Result (Claim × DB) := do
  let reason ← text reason "release reason" 2000
  whenever (caller.isAdmin = false) ((claimDriver caller).map (fun _ => ()))
  let _ ← projectOf db projectId
  let claim ← claimOf db projectId claimId
  let own := decide (some claim.driverId = caller.driverId)
  ensure (own ∨ caller.isAdmin) (.claim .notClaimOwner ("claim belongs to driver " ++ claim.driverId))
  ensure ((claim.fence : Int) = fence)
    (.claim .staleFence ("claim fence is " ++ toString claim.fence ++ ", not " ++ toString fence ++ "; reload"))
  if claim.status = .released then
    return (claim, db)
  else do
    ensure (claim.status ≠ .takenOver) (.claim .staleFence ("claim " ++ claimId ++
      " was taken over while you were offline; fence " ++ toString fence ++
      " no longer holds this node; reload with list_claims"))
    ensure (claim.status = .live) (.claim .claimNotLive ("claim is " ++ claim.status.text))
    let db := retireClaim db caller.actor claim .released reason
    return ({ claim with status := .released }, db.event projectId (some claim.nodeKey) "claim_released"
      [("claim_id", .str claimId), ("driver_id", .str claim.driverId), ("purpose", .str claim.purpose.text),
        ("fence", .int claim.fence), ("reason", .str reason), ("actor", .str caller.actor),
        ("break_glass", .bool (!own))])

/-- What one heartbeat item renewed, or the code it was refused with. -/
inductive Beaten
  | renewed (id : String)
  | refused (id code : String)
  deriving DecidableEq, Repr

def renewClaim (current : Stamp) (db : DB) (row : Claim) : DB :=
  db.setClaim row.claimId (fun c => { c with
    leaseExpiresAt := addSeconds current row.leaseSeconds, lastHeartbeatAt := current })

def beatClaim (db : DB) (projectId driver : String) (current : Stamp) (claimId : String) (fence : Int) :
    List Beaten × DB :=
  match (db.claim? claimId).filter (fun c => decide (c.projectId = projectId)) with
  | none => ([.refused claimId "not_found"], db)
  | some row =>
    if row.driverId ≠ driver then ([.refused claimId "not_claim_owner"], db)
    else if (row.fence : Int) ≠ fence ∨ row.status = .takenOver then ([.refused claimId "stale_fence"], db)
    else if row.status ≠ .live then ([.refused claimId "claim_not_live"], db)
    else ([.renewed claimId], renewClaim current db row)

def beatAttempt (db : DB) (projectId driver : String) (current : Stamp) (attemptId : String) (fence : Int) :
    List Beaten × DB :=
  match (db.attempt? attemptId).filter (fun a => decide (a.projectId = projectId)) with
  | none => ([.refused attemptId "not_found"], db)
  | some row =>
    if row.status.active = false then ([.refused attemptId "attempt_not_active"], db)
    else if row.ownerDriverId = none ∨ row.leaseExpiresAt = none then
      ([.refused attemptId "legacy_unleased"], db)
    else if row.ownerDriverId ≠ some driver then ([.refused attemptId "not_attempt_owner"], db)
    else if (row.ownerFence : Int) ≠ fence then ([.refused attemptId "stale_fence"], db)
    else ([.renewed attemptId], db.setAttempt attemptId (fun a => { a with
      leaseExpiresAt := some (addSeconds current defaultLeaseSeconds), lastHeartbeatAt := some current }))

def beatSubagent (db : DB) (projectId driver : String) (current : Stamp) (label : String) : List Beaten × DB :=
  if ownSubagent driver label = false then ([.refused label "not_your_subagent"], db)
  else
    let rows := db.claims.filter (fun c => decide (c.projectId = projectId ∧ c.driverId = driver ∧
      c.subagent = some label ∧ c.status = .live))
    if rows = [] then ([.refused label "no_live_claims"], db)
    else (rows.map (fun r => .renewed r.claimId), rows.foldl (renewClaim current) db)

/-- A list of heartbeat items in order, each refused or renewed on its own. -/
def beatAll {ι : Type} (f : DB → ι → List Beaten × DB) (items : List ι) (acc : List Beaten × DB) :
    List Beaten × DB :=
  items.foldl (fun acc item => ((acc.1 ++ (f acc.2 item).1), (f acc.2 item).2)) acc

/-- `heartbeat`: the claims, the attempts and the subagents the caller renews;
only the two lease columns are written. -/
def heartbeat (db : DB) (caller : Caller) (projectId : String) (claims attempts : List (String × Int))
    (subagents : List String) (current : Stamp) : Result (List Beaten × DB) := do
  let driver ← claimDriver caller
  let total := claims.length + attempts.length + subagents.length
  ensure (1 ≤ total ∧ total ≤ maxHeartbeatItems) (.graph "heartbeat takes 1 to 100 items")
  let _ ← projectOf db projectId
  let acc := beatAll (fun db i => beatClaim db projectId driver current i.1 i.2) claims
    ([], markBack db (some driver) current)
  let acc := beatAll (fun db i => beatAttempt db projectId driver current i.1 i.2) attempts acc
  return beatAll (fun db i => beatSubagent db projectId driver current i) subagents acc

end AItelier.State
