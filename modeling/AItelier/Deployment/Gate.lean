import AItelier.Deployment.Decision
import AItelier.Deployment.Store

namespace AItelier.Deployment

open AItelier.Lib

/-- A JSON value with each key of its objects once. -/
structure Document where
  value : Value
  plain : value.Plain

/-- `_plain_json_snapshot`: the copy, or the text it is refused with. -/
abbrev Snapshot := Except String Document

/-- What a call takes from outside: the identities it draws, the time, and the frames
that are left of the recursion limit where it writes. -/
structure Draw where
  journalId : String
  interruptedId : String
  eventId : String
  stamp : String
  now : Int
  room : Nat

/-- What a call returns. -/
structure Answer where
  granted : Bool
  event : Option Dict
  reason : Option String

inductive Call
  | authorize (action : String) (observation override : Snapshot) (callers : Scope)
  | finalize (clearance : Value) (success : Bool) (error : Option String)
  | reconcile (observation : Snapshot)

section Authorize

variable {β : Type} (host : Host β)

/-- `observation_value`. -/
def observed (s : Snapshot) : Value :=
  match s with
  | .ok v => v.value
  | .error _ => .obj []

/-- `override_value`. -/
def overriding (s : Snapshot) : Value :=
  match s with
  | .ok v => v.value
  | .error message => .obj [("_invalid_override", .str message)]

/-- `observation_snapshot_error or _validate_observation(observation_value)`. -/
def snapshotFault (s : Snapshot) : Option Fault :=
  match s with
  | .ok v => validateObservation host v.value
  | .error message => if message = "" then validateObservation host (.obj []) else some (.message message)

def restricting (override : Value) : Bool :=
  !override.isNull && (!isObject override || RESTRICTING_OVERRIDE_FIELDS.any (hasField override))

/-- On what an action is allowed, or why it is not. -/
inductive Decided
  | quiet | audited
  | refused (reason : String)

def decided (action : String) (observation override : Snapshot) (callers : Scope) (now : Int) :
    Except Stop Decided :=
  match snapshotFault host observation with
  | some .unhashable => .error .type
  | some (.message message) => .ok (.refused ("observation is malformed: " ++ message))
  | none =>
    let o := dictOf (observed observation)
    if (o.get "quiescent").isTrue && !restricting (overriding override) && !callers.semantic && !callers.cpu then
      .ok .quiet
    else
      match validOverride host action (overriding override) o callers now with
      | some reason => .ok (.refused reason)
      | none => .ok .audited

/-- The fields every event of these calls has. -/
def flagged (action : Value) (status : String) (pending usable : Bool) : Dict :=
  [("action", action), ("status", .str status), ("pending", .bool pending), ("usable", .bool usable),
    ("replayed", .bool false)]

def measured (o : Dict) : Dict :=
  [("inventory_digest", o.get "digest"), ("blockers", o.get "blockers"),
    ("resumable_runs", resumableRunRows (o.get "runs")), ("errors", o.get "errors")]

def quietEvent (action : String) (o : Dict) : Dict := flagged (.str action) "authorized" true false ++ measured o

def scopeName (s : Scope) : String :=
  if s.backend then "backend_only" else if s.godot then "godot_only" else if s.semantic then "semantic_only"
  else "cpu_only"

def controllerIdentity (override o : Dict) : String :=
  if (inventory o "registered_external_owners").any (fun row =>
      (row.get "attempt_id").pyEq (override.get "deployment_attempt_id") &&
        isOneOf ["active", "paused"] (row.get "status") && drivenBy (authorOf override) row) then "recorded_owner"
  else if (override.get "deployment_attempt_id").truthy then "unknown"
  else "not_declared"

def scopeAudit (override o : Dict) : Dict :=
  if (requestedScope override).passive then
    [(scopeName (requestedScope override), .bool true),
      ("deployment_attempt_id", override.get "deployment_attempt_id"),
      ("deployment_controller_identity", .str (controllerIdentity override o))]
  else []

def ownershipAudit (override o : Dict) : Dict :=
  let classified := classifyBlockers host o (requestedScope override) (authorOf override)
  if (o.get "quiescent").isTrue then
    [("override_scope", .str "quiescent_restriction"), ("affected_ownership", .arr [])]
  else if !(override.get "coordinated_owners").isNull then
    [("coordinated_owners", override.get "coordinated_owners"), ("acknowledge_unknown", .bool (acknowledges override)),
      ("override_scope", .str "coordinated_owners"),
      ("affected_ownership",
        .arr (classified.authoritative.flatMap (fun f => itemsOf f.2) ++ classified.unknown.map .obj))]
  else
    [("override_scope", .str
        (if acknowledges override && classified.unknown.any (fun row => !unknownProcessNoise row) then
          "unknown_ownership"
        else if acknowledges override then "unknown_process_noise"
        else "authoritative_blockers")),
      ("affected_ownership",
        if acknowledges override then asRows classified.unknown
        else .obj classified.authoritative)]

def auditOf (override o : Dict) : Dict :=
  [("actor", override.get "actor"), ("reason", override.get "reason"), ("ticket", override.get "ticket")] ++
    scopeAudit override o ++ ownershipAudit host override o

def auditedEvent (action : String) (override o : Dict) : Dict :=
  flagged (.str action) (if (o.get "quiescent").isTrue then "authorized" else "overridden") true false ++
    [("audit", .obj (auditOf host override o))] ++ measured o

def refusedEvent (action : String) (o : Dict) (reason : String) : Dict :=
  flagged (.str action) "aborted" false false ++ [("reason", .str reason)] ++ measured o

/-- The event a decision is recorded as; a refused observation is read as an object. -/
def decisionEvent (action : String) (observation override : Value) : Decided → Except Stop Dict
  | .quiet => .ok (quietEvent action (dictOf observation))
  | .audited => .ok (auditedEvent host action (dictOf override) (dictOf observation))
  | .refused reason =>
    if isObject observation then .ok (refusedEvent action (dictOf observation) reason) else .error .attribute

def latestOf (j : Dict) : Dict := dictOf (j.get "latest")

def interruptedEvent (latest : Dict) : Dict :=
  flagged (latest.get "action") "aborted" false false ++
    [("reason", .str "deployment authorization was interrupted"), ("inventory_digest", latest.get "inventory_digest")]

/-- The journal with an authorization that was left pending closed. -/
def closeInterrupted (j : Dict) (draw : Draw) : Except Stop Dict :=
  if ((latestOf j).get "pending").isTrue then
    (appendTo j (interruptedEvent (latestOf j)) draw.interruptedId draw.stamp).map Prod.fst
  else .ok j

/-- The journal as a call leaves it, the event it adds last, and its answer. -/
structure Recorded where
  journal : Dict
  event : Dict
  answer : Except Stop Answer

def refusal (action reason : String) (event : Dict) : Stop :=
  .blocked ("refusing " ++ action ++ ": cross-project deployment is not quiescent; evidence " ++
    (event.get "event_id").toText ++ " is aborted/unusable (" ++ reason ++ ")")

def Decided.answer (action : String) (event : Dict) : Decided → Except Stop Answer
  | .refused reason => .error (refusal action reason event)
  | _ => .ok ⟨true, some event, none⟩

variable [DecidableEq β]

/-- `authorize` under the lock; `_ensure_journal` before it loads the same journal once more. -/
def authorizeLocked (d : Disk β) (draw : Draw) (action : String) (observation override : Snapshot)
    (callers : Scope) : Except Stop Recorded := do
  let state ← loadJournal host d draw.journalId
  let state ← closeInterrupted state draw
  let decision ← decided host action observation override callers draw.now
  let event ← decisionEvent host action (observed observation) (overriding override) decision
  let (state, event) ← appendTo state event draw.eventId draw.stamp
  return ⟨state, event, decision.answer action event⟩

/-- What a call leaves: the journal written back where it was recorded in. -/
def settle (room : Nat) (d : Disk β) : Except Stop Recorded → Except Stop Answer × Disk β
  | .error stop => (.error stop, d)
  | .ok r => ((persistJournal host room d r.journal).1.bind (fun _ => r.answer),
      (persistJournal host room d r.journal).2)

/-- `authorize`. -/
def authorize (d : Disk β) (draw : Draw) (action : String) (observation override : Snapshot) (callers : Scope) :
    Except Stop Answer × Disk β :=
  if !DEPLOY_ACTIONS.contains action then
    (.error (.value ("unknown deployment action " ++ Value.reprText action)), d)
  else if 1 < callers.count then
    (.error (.value
      "backend_only, godot_only, semantic_only and cpu_only callers are mutually exclusive"), d)
  else settle host draw.room d (authorizeLocked host d draw action observation override callers)

end Authorize

section Settling

variable {β : Type} (host : Host β)

def CLEARANCE_EVENT_IDENTITY_FIELDS : List String := ["event_id", "action", "inventory_digest"]

/-- `_clearance_event_snapshot`. -/
def clearanceEvent (clearance : Value) : Except String Dict :=
  match clearance with
  | .obj c =>
    match Dict.get c "event" with
    | .obj event =>
      let missing := CLEARANCE_EVENT_IDENTITY_FIELDS.filter (fun name => !Dict.has event name)
      if missing.isEmpty then .ok event
      else .error ("clearance event is missing binding fields: " ++ commaJoin missing)
    | _ => .error "clearance event must be a plain object"
  | _ => .error "clearance must be a plain object"

/-- What is checked of a clearance before the lock is taken. -/
def openClearance (clearance : Value) : Except Stop Dict :=
  match clearanceEvent clearance with
  | .error message => .error (.blocked ("deployment clearance is malformed: " ++ message))
  | .ok prior =>
    if !(prior.get "status").hashable then .error .type
    else if !isOneOf ["authorized", "overridden"] (prior.get "status") || !(prior.get "pending").isTrue then
      .error (.blocked "deployment clearance is not a pending authorization")
    else .ok prior

/-- Why a clearance is not that of the latest event. -/
def clearanceFault (prior latest : Dict) : Option String :=
  firstOf [
    refuse (!(latest.get "event_id").pyEq (prior.get "event_id"))
      "deployment clearance was superseded; refusing finalization",
    refuse (!isOneOf ["authorized", "overridden"] (latest.get "status") || !(latest.get "pending").isTrue)
      "latest deployment evidence is not a pending authorization",
    refuse (!(prior.get "status").pyEq (latest.get "status") || !(prior.get "pending").pyEq (latest.get "pending"))
      "deployment clearance state does not match the journal",
    refuse (!(prior.get "action").pyEq (latest.get "action"))
      "deployment clearance action does not match the journal",
    refuse (!(prior.get "inventory_digest").pyEq (latest.get "inventory_digest"))
      "deployment clearance inventory digest does not match the journal",
    refuse (!isOneOf DEPLOY_ACTIONS (latest.get "action")) "persisted deployment action is malformed",
    refuse (!State.isHexText 64 (latest.get "inventory_digest")) "persisted deployment inventory digest is malformed"]

/-- `str(error or "deployment action failed")[:500]`. -/
def failureReason (error : Option String) : String :=
  String.ofList ((match error with
    | some text => if text = "" then "deployment action failed" else text
    | none => "deployment action failed").toList.take 500)

def finalEvent (latest : Dict) (success : Bool) (error : Option String) : Dict :=
  flagged (latest.get "action") (if success then "completed" else "aborted") false success ++
    [("inventory_digest", latest.get "inventory_digest")] ++
    (if success then [] else [("reason", .str (failureReason error))])

def reconciledEvent (latest o : Dict) : Dict :=
  flagged (latest.get "action") "reconciled_quiescent" false false ++ [("inventory_digest", o.get "digest")]

def unreconciledEvent (latest o : Dict) (reason : String) : Dict :=
  flagged (latest.get "action") "aborted" false false ++
    [("reason", .str reason), ("inventory_digest", o.get "digest"), ("blockers", o.get "blockers"),
      ("errors", o.get "errors")]

/-- Why an aborted event is not reconciled. -/
def unreconciledReason (fault : Option Fault) (observation : Value) : Option String :=
  match fault with
  | some (.message message) => some ("reconciliation observation is malformed: " ++ message)
  | _ =>
    if !(field observation "quiescent").isTrue then some "reconciliation still not quiescent" else none

/-- The event `reconcile` records, and whether it reconciles; or why it records nothing. -/
inductive Reconciled
  | nothing (reason : String)
  | event (e : Dict) (reconciled : Bool)

def reconciliation (latest : Value) (fault : Option Fault) (observation : Value) (interrupted : Bool) :
    Except Stop Reconciled :=
  if latest.truthy && legacyJournalGenesis latest then
    .ok (.nothing "legacy evidence has no deployment action binding")
  else if interrupted then .ok (.event (interruptedEvent (dictOf latest)) false)
  else if !latest.truthy || !(field latest "status").isText "aborted" then
    .ok (.nothing "no aborted deployment evidence")
  else
    match unreconciledReason fault observation with
    | some reason =>
      if isObject observation then .ok (.event (unreconciledEvent (dictOf latest) (dictOf observation) reason) false)
      else .error .attribute
    | none => .ok (.event (reconciledEvent (dictOf latest) (dictOf observation)) true)

variable [DecidableEq β]

/-- `finalize` under the lock. -/
def finalizeLocked (d : Disk β) (draw : Draw) (prior : Dict) (success : Bool) (error : Option String) :
    Except Stop Recorded := do
  let state ← loadJournal host d draw.journalId
  match clearanceFault prior (latestOf state) with
  | some message => .error (.blocked message)
  | none => do
    let (state, event) ← appendTo state (finalEvent (latestOf state) success error) draw.eventId draw.stamp
    return ⟨state, event, .ok ⟨success, some event, none⟩⟩

/-- `finalize`. -/
def finalize (d : Disk β) (draw : Draw) (clearance : Value) (success : Bool) (error : Option String) :
    Except Stop Answer × Disk β :=
  match openClearance clearance with
  | .error stop => (.error stop, d)
  | .ok prior => settle host draw.room d (finalizeLocked host d draw prior success error)

/-- `reconcile` under the lock: what it records, or what it returns without recording. -/
def reconcileLocked (d : Disk β) (draw : Draw) (fault : Option Fault) (observation : Value) :
    Except Stop (Answer ⊕ Recorded) := do
  let state ← loadJournal host d draw.journalId
  match ← reconciliation (state.get "latest") fault observation ((latestOf state).get "pending").isTrue with
  | .nothing reason => return .inl ⟨false, none, some reason⟩
  | .event e reconciled => do
    let (state, event) ← appendTo state e draw.eventId draw.stamp
    return .inr ⟨state, event, .ok ⟨reconciled, some event, none⟩⟩

/-- `reconcile`. -/
def reconcile (d : Disk β) (draw : Draw) (observation : Snapshot) : Except Stop Answer × Disk β :=
  match snapshotFault host observation with
  | some .unhashable => (.error .type, d)
  | fault =>
    match reconcileLocked host d draw fault (observed observation) with
    | .error stop => (.error stop, d)
    | .ok (.inl answer) => (.ok answer, d)
    | .ok (.inr r) => settle host draw.room d (.ok r)

/-- A call, with what it draws. -/
def act (d : Disk β) (c : Draw × Call) : Except Stop Answer × Disk β :=
  match c.2 with
  | .authorize action observation override callers => authorize host d c.1 action observation override callers
  | .finalize clearance success error => finalize host d c.1 clearance success error
  | .reconcile observation => reconcile host d c.1 observation

/-- One call of any caller: the disk it leaves. -/
def step (d : Disk β) (c : Draw × Call) : Disk β := (act host d c).2

end Settling

/-- A directory of files as it is found. -/
def found {β : Type} (f : Folder File β) : Disk β :=
  { f with files := f.files.map .raw, held := fun e he => (List.length_map (.raw : β → Content β)).symm ▸ f.held e he }

end AItelier.Deployment
