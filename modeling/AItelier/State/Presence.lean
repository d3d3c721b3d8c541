import AItelier.State.Policy

namespace AItelier.State

open AItelier.Lib

inductive PresenceStatus
  | online | away | offline
  deriving DecidableEq, Repr

def PresenceStatus.text : PresenceStatus → String
  | .online => "online" | .away => "away" | .offline => "offline"

inductive Basis
  | wait | declared | lastSeen
  deriving DecidableEq, Repr

def Basis.text : Basis → String
  | .wait => "wait" | .declared => "declared" | .lastSeen => "last_seen"

/-- `effective_presence` as one record. -/
structure Presence where
  status : PresenceStatus
  basis : Basis
  derivedStatus : PresenceStatus
  determinable : Bool
  declared : Option Declaration
  lastSeenAt : Option Stamp
  secondsSinceSeen : Option Nat
  waiting : Bool
  lastWaitEnd : Option Stamp
  deriving DecidableEq, Repr

def publicDriverId : String := "public"

/-- The shared tunnel identity never declares presence and takes nothing over. -/
def sharedIdentity (driverId : Option String) : Bool :=
  driverId = some publicDriverId

/-- `presence_of`: a stamp more than a minute in the future is no evidence. -/
def presenceOf (host : Host) (lastSeenAt : Option Stamp) (now : Stamp) : PresenceStatus × Option Nat :=
  match lastSeenAt with
  | none => (.offline, none)
  | some seen =>
    if addSeconds now 60 < seen then (.offline, none)
    else
      let age := (now - seen) / 1000000
      (if age ≤ host.onlineSeconds then .online else if age ≤ host.staleSeconds then .away else .offline,
        some age)

def driver? (db : DB) (driverId : String) : Option Driver :=
  lookup Driver.driverId db.drivers driverId

def declaration? (db : DB) (driverId : String) : Option Declaration :=
  lookup Declaration.driverId db.declarations driverId

/-- The finish of a wait that is over: its recorded end, else the moment it was
bounded by. -/
def Wait.finish (now : Stamp) (w : Wait) : Option Stamp :=
  match w.endedAt with
  | some e => some e
  | none => if now ≤ w.until_ then none else some w.until_

/-- `_wait_state`: whether a wait is in progress, and the last finish. -/
def waitState (db : DB) (driverId : String) (now : Stamp) : Bool × Option Stamp :=
  let own := db.waits.filter (fun w => decide (w.driverId = driverId))
  (own.any (fun w => (w.finish now).isNone), (own.filterMap (Wait.finish now)).max?)

def effectivePresence (host : Host) (db : DB) (driverId : String) (now : Stamp) : Presence :=
  let row := driver? db driverId
  let seen := row.bind Driver.lastSeenAt
  let (derived, age) := presenceOf host seen now
  let declaration := declaration? db driverId
  let (waiting, ended) := waitState db driverId now
  let recent := match ended with
    | some e => decide (now ≤ addSeconds e host.waitGraceSeconds)
    | none => false
  let (status, basis) :=
    if waiting || recent then (PresenceStatus.online, Basis.wait)
    else if declaration.isSome then (PresenceStatus.offline, Basis.declared)
    else (derived, Basis.lastSeen)
  { status := status
    basis := basis
    derivedStatus := derived
    determinable := decide (basis ≠ .lastSeen) || (row.isSome && age.isSome)
    declared := declaration
    lastSeenAt := seen
    secondsSinceSeen := age
    waiting := waiting
    lastWaitEnd := ended }

/-- `mark_back`: the driver acted, so its declaration is cleared and its stamp
refreshed on the caller's own transaction. -/
def markBack (db : DB) (driverId : Option String) (now : Stamp) : DB :=
  match driverId with
  | none => db
  | some d =>
    if d = "" then db
    else { db with
      declarations := db.declarations.filter (fun r => decide (r.driverId ≠ d))
      drivers := modifyWhere (fun r => decide (r.driverId = d)) (fun r => { r with lastSeenAt := some now })
        db.drivers }

/-- `declare`: a driver says it is offline, or clears that. -/
def declare (db : DB) (driverId : Option String) (offline : Bool) (reason : String)
    (expectedReturn : Option Stamp) (now : Stamp) : Result DB := do
  let driver ← orElse (driverId.filter (fun d => decide (d ≠ "")))
    (.graph "driver_identity_required: presence is declared by a registered driver for itself")
  ensure (¬ sharedIdentity (some driver))
    (.graph "shared_identity: the shared public identity cannot declare presence")
  bounded reason 200 "reason must be text of at most 200 characters"
  ensure (offline ∨ expectedReturn = none) (.graph "expected_return belongs to an offline declaration")
  if offline then
    match declaration? db driver with
    | none => return { db with declarations := db.declarations ++ [⟨driver, now, reason, expectedReturn⟩] }
    | some old => return { db with
        declarations := modifyWhere (fun r => decide (r.driverId = driver))
          (fun _ => { old with reason := reason, expectedReturn := expectedReturn }) db.declarations }
  else return { db with declarations := db.declarations.filter (fun r => decide (r.driverId ≠ driver)) }

/-- `_wait_begin`: the wait's row, with finished rows past their keep pruned and
the declaration cleared. -/
def waitBegin (host : Host) (db : DB) (driverId waitId : String) (timeoutSeconds : Nat) (now : Stamp) :
    Result DB := do
  ensure (¬ db.waits.any (fun w => decide (w.waitId = waitId))) (.integrity "driver_presence_waits")
  let keep := now - addSeconds 0 (max 3600 (2 * host.waitGraceSeconds))
  let kept := db.waits.filter (fun w => decide (¬ (w.driverId = driverId ∧ w.endedAt.getD w.until_ < keep)))
  return { db with
    waits := kept ++ [⟨waitId, driverId, now, addSeconds now (min timeoutSeconds 3600 + 30), none⟩]
    declarations := db.declarations.filter (fun r => decide (r.driverId ≠ driverId)) }

def waitEnd (db : DB) (waitId : String) (now : Stamp) : DB :=
  { db with
    waits := modifyWhere (fun w => decide (w.waitId = waitId)) (fun w => { w with endedAt := some now }) db.waits }

def takeoverHint (claimId : String) (fence : Nat) (presence : Presence) : String :=
  let why := match presence.basis, presence.declared with
    | .declared, some d => "declared offline since " ++ stampText d.declaredAt
    | _, _ => "last seen " ++ ((presence.lastSeenAt.map stampText).getD "never")
  "holder is offline (" ++ why ++ "); any other member may take_over_claim(project_id, claim_id=" ++ claimId ++
    ", expected_fence=" ++ toString fence ++ ", reason, request_key)"

/-- `holder_note`: what a refusal says about the holder. It decides nothing. -/
def holderNote (host : Host) (db : DB) (holder claimId : String) (fence : Nat) (now : Stamp) : String :=
  let presence := effectivePresence host db holder now
  if presence.status = .offline then "; " ++ takeoverHint claimId fence presence
  else "; holder is " ++ presence.status.text

/-- `_member`: an active driver that is a member of the project. -/
def isMember (db : DB) (projectId : String) (driverId : String) : Bool :=
  db.projectDrivers.any (fun m => decide (m.projectId = projectId ∧ m.driverId = driverId ∧ m.status = .member)) &&
    decide ((driver? db driverId).map Driver.status = some .active)

/-- `require_member`: whether this is a break-glass pass. With driver identity
off, or no driver behind the call, there is no membership to check. -/
def requireMember (host : Host) (db : DB) (caller : Caller) (projectId what : String) : Result Bool :=
  match caller.driverId with
  | none => .ok false
  | some d =>
    if d = "" ∨ host.driverIdentity = false then .ok false
    else if db.projectDrivers.any (fun m => decide (m.projectId = projectId ∧ m.driverId = d ∧
        m.status = .member)) then .ok false
    else if caller.isAdmin then .ok true
    else .error (.claim .notProjectMember (what ++ " is for members of project " ++ projectId ++ "; driver " ++ d ++
      " is not one (ask an admin for set_project_driver)"))

end AItelier.State
