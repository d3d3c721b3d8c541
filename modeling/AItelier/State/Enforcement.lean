import AItelier.State.Claims

namespace AItelier.State

open AItelier.Lib

def overrideReasonText (value : Option String) : Result (Option String) :=
  value.mapM (fun v => text v "override_reason" 2000)

/-- `live_implement_claim`: the node's live implement claim judged by its lease
now, and the one whose grace has passed instead. -/
def liveImplementClaim (db : DB) (id : NodeId) (current : Stamp) : Option Claim × Option Claim :=
  match db.claims.find? (fun c => decide (c.node = id ∧ c.status = .live ∧ c.purpose = .implement)) with
  | none => (none, none)
  | some row =>
    if leaseState (some row.leaseExpiresAt) current = .reclaimable then (none, some row) else (some row, none)

/-- The review claim a dispatch names, once each condition on it holds. -/
def reviewDispatch (db : DB) (id : NodeId) (driverId : Option String) (review : Claim) (fence : Option Int)
    (current : Stamp) : Result Claim := do
  ensure (some review.driverId = driverId) (.claim .notClaimOwner "review claim belongs to another driver")
  ensure (fence = some (review.fence : Int)) (.claim .staleFence "external review needs its exact claim fence")
  ensure (review.status ≠ .takenOver)
    (.claim .staleFence "this review claim was taken over; its fence no longer holds")
  ensure (review.status = .live ∧ leaseState (some review.leaseExpiresAt) current ≠ .reclaimable)
    (.claim .claimRequired "external review needs a live review claim")
  ensure ((db.node? id).map Node.revision = some review.nodeRevision)
    (.claim .staleFence "review claim targets an earlier node revision")
  return review

/-- A named claim must be the node's live implement claim and the caller's own. -/
def namedDispatch (live lapsed : Option Claim) (nodeKey : String) (driverId : Option String) (claimId : String)
    (fence : Option Int) : Result Claim := do
  let claim ← orElse (live.filter (fun c => decide (c.claimId = claimId)))
    (if lapsed.map Claim.claimId = some claimId then
      .claim .claimRequired ("claim " ++ claimId ++ " lapsed (expired and past its grace); claim " ++
        "the node again before starting an attempt")
    else .claim .staleFence ("claim " ++ claimId ++ " is not the live implement claim of " ++ nodeKey ++
      "; reload with list_claims"))
  ensure (some claim.driverId = driverId)
    (.claim .notClaimOwner ("claim " ++ claimId ++ " belongs to driver " ++ claim.driverId))
  ensure (∀ f ∈ fence, f = claim.fence)
    (.claim .staleFence ("claim fence is " ++ toString claim.fence ++ ", not " ++
      toString (fence.getD 0) ++ "; reload"))
  return claim

/-- What an enforced dispatch without the caller's live claim is refused with. -/
def dispatchRefusal (host : Host) (db : DB) (id : NodeId) (driverId : Option String) (live lapsed : Option Claim)
    (current : Stamp) : StateError :=
  match live with
  | none =>
    match lapsed with
    | some row =>
      if some row.driverId = driverId then
        .claim .claimRequired ("your implement claim " ++ row.claimId ++ " on " ++ id.2 ++ " lapsed (lease " ++
          stampText row.leaseExpiresAt ++ " + grace); claim the node again")
      else .claim .claimRequired ("this project enforces claims: claim_node(purpose=implement) on " ++ id.2 ++
        " before starting an attempt")
    | none => .claim .claimRequired ("this project enforces claims: claim_node(purpose=implement) on " ++ id.2 ++
        " before starting an attempt")
  | some row => .claim .claimedByOther ("node " ++ id.2 ++ " is claimed for implement by driver " ++ row.driverId ++
      " until " ++ stampText row.leaseExpiresAt ++ holderNote host db row.driverId row.claimId row.fence current)

/-- The claim rule of an ordinary dispatch: nothing is bound outside an enforced
project unless the caller named it, and inside one the caller's own live claim
is, or an admin passes as break glass. -/
def implementDispatch (host : Host) (db : DB) (id : NodeId) (caller : Caller) (claimId : Option String)
    (fence : Option Int) (current : Stamp) : Result (Option Claim × Bool) := do
  let live := (liveImplementClaim db id current).1
  let lapsed := (liveImplementClaim db id current).2
  let named ← claimId.mapM (fun c => namedDispatch live lapsed id.2 caller.driverId c fence)
  if enforced db id.1 = false then return (named, false)
  else
    match live with
    | some row =>
      if some row.driverId = caller.driverId then do
        ensure (∀ f ∈ fence, f = row.fence) (.claim .staleFence ("claim fence is " ++ toString row.fence ++
          ", not " ++ toString (fence.getD 0) ++ "; reload"))
        return (some row, false)
      else if caller.isAdmin then return (none, true)
      else throw (dispatchRefusal host db id caller.driverId live lapsed current)
    | none =>
      if caller.isAdmin then return (none, true)
      else throw (dispatchRefusal host db id caller.driverId live lapsed current)

/-- `dispatch_claim`: the live claim a dispatch rides on, and whether this is a
break-glass dispatch. -/
def dispatchClaim (host : Host) (db : DB) (id : NodeId) (caller : Caller) (claimId : Option String)
    (fence : Option Int) (current : Stamp) (allowReview : Bool) : Result (Option Claim × Bool) :=
  match (if allowReview then claimId else none).bind (fun c => db.claims.find? (fun r =>
      decide (r.claimId = c ∧ r.node = id ∧ r.purpose = .review))) with
  | some review => do
    let claim ← reviewDispatch db id caller.driverId review fence current
    return (some claim, false)
  | none => implementDispatch host db id caller claimId fence current

/-- The owner's own launch in an enforced project: on the claim bound to the
attempt, or on a replacement the caller named. -/
def ownerLaunch (attempt : Attempt) (caller : Caller) (claimId : Option String) (fence : Option Int)
    (live lapsed : Option Claim) : Result (Bool × Option Claim) :=
  match live.filter (fun c => decide (some c.driverId = caller.driverId)) with
  | none =>
    if caller.isAdmin then return (true, none)
    else throw (.claim .claimRequired ("launching attempt " ++ attempt.attemptId ++ " needs your live implement " ++
      "claim on " ++ attempt.nodeKey ++ (if lapsed.isSome then " (yours lapsed)" else "")))
  | some row => do
    ensure (∀ c ∈ claimId, c = row.claimId) (.claim .staleFence ("claim " ++ (claimId.getD "") ++
      " is not your live implement claim on " ++ attempt.nodeKey ++ " (" ++ row.claimId ++ " is); reload"))
    ensure (∀ f ∈ fence, f = row.fence) (.claim .staleFence ("claim fence is " ++ toString row.fence ++
      ", not " ++ toString (fence.getD 0) ++ "; reload"))
    if row.attemptId = some attempt.attemptId then return (false, none)
    else if claimId = some row.claimId then return (false, some row)
    else throw (.claim .claimRequired ("the claim attempt " ++ attempt.attemptId ++ " was reserved on is gone; " ++
      "your current implement claim " ++ row.claimId ++ " (fence " ++ toString row.fence ++
      ") is not bound to it - name it (claim_id, fence) to launch on it deliberately"))

/-- `launch_authorization`, judged inside the launching transaction. A
reservation without an owner is unconstrained. -/
def launchAuthorization (host : Host) (db : DB) (attempt : Attempt) (caller : Caller) (claimId : Option String)
    (fence : Option Int) (current : Stamp) : Result (Bool × Option Claim) :=
  if enforced db attempt.projectId = false ∨ truthy attempt.ownerDriverId = false then do
    if claimId.isSome ∨ fence.isSome then
      let _ ← dispatchClaim host db attempt.node caller claimId fence current false
      return (false, none)
    else return (false, none)
  else if attempt.ownerDriverId = caller.driverId then
    ownerLaunch attempt caller claimId fence (liveImplementClaim db attempt.node current).1
      (liveImplementClaim db attempt.node current).2
  else if caller.isAdmin then return (true, none)
  else throw (.claim .notAttemptOwner ("attempt " ++ attempt.attemptId ++ " belongs to driver " ++
    (attempt.ownerDriverId.getD "") ++ "; take_over_attempt or a handoff changes the controller"))

/-- A live claim or an active owned attempt of another driver. -/
structure Holder where
  kind : String
  id : String
  nodeKey : String
  driverId : String
  purpose : Option Purpose
  fence : Nat
  deriving DecidableEq, Repr

def Holder.toJson (h : Holder) : Json :=
  .obj ([("kind", .str h.kind), ("id", .str h.id), ("node_key", .str h.nodeKey), ("driver_id", .str h.driverId),
    ("fence", .int h.fence)] ++ optional "purpose" h.purpose (fun p => .str p.text))

/-- `holders`: other drivers' live claims and active owned attempts on these nodes. -/
def holders (db : DB) (projectId : String) (nodeKeys : List String) (driverId : Option String) : List Holder :=
  (db.claims.filter (fun c => decide (c.projectId = projectId ∧ c.status = .live ∧ c.nodeKey ∈ nodeKeys ∧
      some c.driverId ≠ driverId))).map (fun c => ⟨"claim", c.claimId, c.nodeKey, c.driverId,
        some c.purpose, c.fence⟩) ++
    db.attempts.filterMap (fun a => match a.ownerDriverId with
      | some owner =>
        if a.projectId = projectId ∧ a.nodeKey ∈ nodeKeys ∧ a.status.active ∧ some owner ≠ driverId then
          some ⟨"attempt", a.attemptId, a.nodeKey, owner, none, a.ownerFence⟩
        else none
      | none => none)

/-- `structural_owner_check`: the holders an admin writes around. -/
def structuralOwnerCheck (db : DB) (caller : Caller) (projectId nodeKey action : String) :
    Result (List Holder) :=
  if enforced db projectId = false then return []
  else
    let held := holders db projectId (affected db projectId nodeKey) caller.driverId
    if held = [] ∨ caller.isAdmin then return held
    else throw (.claim .notOwner (action ++ " on " ++ nodeKey ++ " affects work held by driver(s) " ++
      String.intercalate ", " (sortKeys (held.map Holder.driverId).dedup) ++
      "; only they change it until they release or hand it off"))

/-- `_structural`: the owner check and the write in one transaction. -/
def structural {α : Type} (db : DB) (caller : Caller) (projectId nodeKey action : String)
    (write : DB → Result (α × DB)) : Result (α × DB) := do
  let held ← structuralOwnerCheck db caller projectId nodeKey action
  let (out, db) ← write db
  if held = [] then return (out, db)
  else return (out, db.event projectId (some nodeKey) "claim_overridden" [("action", .str action),
    ("actor", .str caller.actor), ("driver_id", .ofOption caller.driverId), ("break_glass", .bool true),
    ("held", .arr (held.map Holder.toJson))])

end AItelier.State
