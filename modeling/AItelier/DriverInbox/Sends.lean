import AItelier.DriverInbox.Schema
import AItelier.Lib.Run
import Mathlib.Algebra.GroupWithZero.Nat

namespace AItelier.DriverInbox

open AItelier.Lib
open AItelier.State (DriverStatus Membership ProjectDriver isKey quote truthy)

section Checks

/-- The table that a key of `refs` names a record of. -/
def refTable (key : String) : Option String :=
  match key with
  | "attempt_id" => some "state_attempts"
  | "issue_id" => some "state_issues"
  | "claim_id" => some "state_node_claims"
  | "subagent_id" => some "driver_subagents"
  | _ => none

/-- One key of `_refs`. -/
def checkRef (rt : Runtime) (w : World) (projectId : Option String) (ref : String × Json) : Result Unit :=
  match ref.1, projectId.filter (fun p => p ≠ "") with
  | "node_key", some project =>
    match ref.2 with
    | .str nodeKey => nodeOf w project nodeKey
    | _ => .error (.graph "key must be 1-128 letters/digits/._-, starting with a letter or digit")
  | "node_key", none =>
    .error (.graph "invalid_refs: refs.node_key needs project_id; set project_id or drop node_key")
  | key, _ =>
    match refTable key with
    | some table => do
      let value := match ref.2 with
        | .str v => v
        | _ => ""
      ensure (value ≠ "") (.graph ("invalid_refs: refs." ++ key ++ " must be a non-empty string id"))
      let rows ← orElse (lookup Prod.fst w.tables table) (.graph ("invalid_refs: refs." ++ key ++
        " cannot be resolved because the " ++ table ++ " table does not exist"))
      ensure (value ∈ rows.2) (.graph ("invalid_refs: refs." ++ key ++ " names no existing record in " ++ table))
    | none => .error (.graph ("invalid_refs: refs key " ++ rt.repr key ++ " is not allowed; use one of " ++
        "node_key, attempt_id, issue_id, claim_id, subagent_id"))

/-- `_refs`. -/
def checkRefs (rt : Runtime) (w : World) (refs : List (String × Json)) (projectId : Option String) : Result Unit :=
  refs.forM (checkRef rt w projectId)

/-- `_segments`. -/
def checkSegments (segments : Option (List Segment)) : Result (List Segment) := do
  let items := segments.getD []
  ensure (items.length ≤ 20) (.graph "invalid_segments")
  ensure (∀ s ∈ items, (s.kind = "info" ∨ s.kind = "question") ∧ 1 ≤ s.text.toList.length ∧
    s.text.toList.length ≤ 2000) (.graph "invalid_segments")
  ensure ((items.map (fun s => s.text.toList.length)).sum ≤ 8000) (.graph "invalid_segments")
  return items

/-- `_replay`: the recorded answer, unless the payload is another one. -/
def replay (b : Inbox) (actor : String) (operation : Operation) (requestKey : String) (payload : Json) :
    Result (Option Answer) :=
  match b.requests.find? (fun r => decide (r.actor = actor ∧ r.operation = operation ∧ r.requestKey = requestKey)) with
  | some row => do
    ensure (canonical row.payload = canonical payload)
      (.graph "idempotency_conflict: request_key was already used with a different payload; use a new request_key")
    return some row.result
  | none => return none

/-- `_record`. -/
def record (b : Inbox) (actor : String) (operation : Operation) (requestKey : String) (payload : Json)
    (result : Answer) : Answer × Inbox :=
  (result, { b with requests := b.requests ++ [⟨actor, operation, requestKey, payload, result⟩] })

/-- The members of a project that are registered drivers, without the sender. -/
def memberIds (w : World) (projectId : String) (without : Option String) : List String :=
  ((w.members.filter (fun p => decide (p.projectId = projectId ∧ p.status = .member ∧
    without ≠ some p.driverId) && (w.driver? p.driverId).isSome)).map ProjectDriver.driverId).insertionSort (· ≤ ·)

/-- The calling driver is registered and active. -/
def activeSender (w : World) (driverId : Option String) (message : String) : Result Unit := do
  let driver ← driverOf w driverId
  ensure (driver.status = .active) (.graph message)

end Checks

section Deliveries

/-- `SELECT COALESCE(MAX(seq),0)`. -/
def high (b : Inbox) (driverId : String) : Nat :=
  ((b.deliveries.filter (fun d => decide (d.targetDriverId = driverId))).map Delivery.seq).foldl max 0

def insertMessage (b : Inbox) (m : Message) : Result Inbox := do
  ensure (∀ x ∈ b.messages, x.messageId ≠ m.messageId) (.integrity "driver_inbox_messages.message_id")
  return { b with messages := b.messages ++ [m] }

def insertDelivery (b : Inbox) (d : Delivery) : Result Inbox := do
  ensure (∀ x ∈ b.deliveries, x.deliveryId ≠ d.deliveryId) (.integrity "driver_inbox_deliveries.delivery_id")
  ensure (∀ x ∈ b.deliveries, ¬ (x.messageId = d.messageId ∧ x.targetDriverId = d.targetDriverId))
    (.integrity "driver_inbox_deliveries.message_id, driver_inbox_deliveries.target_driver_id")
  ensure (∀ x ∈ b.deliveries, ¬ (x.targetDriverId = d.targetDriverId ∧ x.seq = d.seq))
    (.integrity "driver_inbox_deliveries.target_driver_id, driver_inbox_deliveries.seq")
  return { b with deliveries := b.deliveries ++ [d] }

/-- One round of the loop over the targets; `ids` are the fresh ids in turn. -/
def deliver (messageId : Token) (ids : Nat → Token) (acc : Inbox × List Delivery) (target : String) :
    Result (Inbox × List Delivery) := do
  let d : Delivery := ⟨ids acc.2.length, messageId, target, high acc.1 target + 1, .unread, 1⟩
  let b ← insertDelivery acc.1 d
  return (b, acc.2 ++ [d])

/-- A message and its deliveries. -/
def post (b : Inbox) (m : Message) (targets : List String) (ids : Nat → Token) : Result (Inbox × List Delivery) := do
  let b ← insertMessage b m
  targets.foldlM (deliver m.messageId ids) (b, [])

end Deliveries

section Driver

structure SendRequest where
  requestKey : String
  subject : String
  body : String
  targetDriverId : Option String
  projectMembers : Option String
  projectId : Option String
  kind : String
  deliveryMode : String
  refs : List (String × Json)
  replyToMessageId : Option String
  system : Bool
  messageId : Token
  deliveryIds : Nat → Token
  now : Token

def SendRequest.payload (c : Caller) (r : SendRequest) : Json :=
  .arr [.str r.subject, .str r.body, .ofOption r.targetDriverId, .ofOption r.projectMembers, .ofOption r.projectId,
    .str r.kind, .str r.deliveryMode, .obj r.refs, .ofOption r.replyToMessageId,
    .ofOption (if r.system then none else c.driverId)]

/-- The checks before the transaction. -/
def SendRequest.validate (c : Caller) (r : SendRequest) : Result (Kind × DeliveryMode) := do
  ensure (1 ≤ r.requestKey.toList.length ∧ r.requestKey.toList.length ≤ 320)
    (.graph "invalid_request: request_key must be a non-empty string of at most 320 characters")
  ensure (1 ≤ r.subject.toList.length ∧ r.subject.toList.length ≤ 200)
    (.graph "invalid_request: subject must be a non-empty string of at most 200 characters")
  ensure (r.body.toList.length ≤ 8000) (.graph "invalid_request: body must be a string of at most 8000 characters")
  ensure (¬ (truthy r.targetDriverId ∧ truthy r.projectMembers))
    (.graph "invalid_request: target_driver_id and project_members are mutually exclusive; set exactly one")
  ensure (truthy r.targetDriverId ∨ truthy r.projectMembers)
    (.graph "invalid_request: one of target_driver_id or project_members is required; set exactly one")
  let mode ← orElse (DeliveryMode.ofText r.deliveryMode)
    (.graph "invalid_request: delivery_mode must be 'transient' or 'standing'")
  let kind ← orElse ((Kind.ofText r.kind).filter (Kind.allowed r.system))
    (.graph ("invalid_request: kind must be one of " ++
    String.intercalate ", " ((Kind.all.filter (Kind.allowed r.system)).map Kind.text)))
  ensure (r.system ∨ truthy c.driverId ∨ (c.trusted ∧ c.isOwner))
    (.graph "invalid_request: sending requires a driver identity or an owner actor")
  return (kind, mode)

/-- Whom a message goes to. -/
def sendTargets (w : World) (c : Caller) (r : SendRequest) : Result (List String) :=
  match r.projectMembers.filter (fun p => p ≠ "") with
  | some project => do
    projectOf w project
    return memberIds w project (some (c.driverId.getD ""))
  | none => return [r.targetDriverId.getD ""]

/-- The thread of the message that is replied to: one delivered to the caller. -/
def replyThread (b : Inbox) (c : Caller) (replyTo : Option String) : Result (Option String) :=
  match replyTo.filter (fun id => id ≠ "") with
  | some id => do
    let prior ← orElse (b.messages.find? (fun m => decide (m.messageId.text = id) &&
        b.deliveries.any (fun d => decide (d.messageId = m.messageId ∧ some d.targetDriverId = c.driverId))))
      (.graph "unknown_message: reply_to_message_id must name a message delivered to this driver")
    return some prior.threadId
  | none => return none

/-- `send_driver_message`, and `system_notice`. -/
def sendDriverMessage (rt : Runtime) (w : World) (c : Caller) (b : Inbox) (r : SendRequest) :
    Result (Answer × Inbox) := do
  let (kind, mode) ← r.validate c
  ensure c.trusted .projectPrivate
  match ← replay b c.actor .send r.requestKey (r.payload c) with
  | some answer => return (answer, b)
  | none => do
    whenever (r.system = false ∧ truthy c.driverId)
      (activeSender w c.driverId "inactive_driver: the sending driver is not active; only active drivers can send")
    let targets ← sendTargets w c r
    ensure (targets ≠ [])
      (.graph ("no_recipients: project_members resolved to no active member other than the sender; " ++
      "name a project with at least one other active member"))
    ensure (targets.length ≤ 200) (.graph ("no_recipients: project_members resolved to " ++ toString targets.length ++
      " recipients, above the limit of 200 per message"))
    targets.forM (fun t => do
      let _ ← driverOf w (some t)
      return ())
    whenever (truthy r.projectId) (projectOf w (r.projectId.getD ""))
    checkRefs rt w r.refs r.projectId
    let thread ← replyThread b c r.replyToMessageId
    let message : Message := ⟨r.messageId, (thread.filter (fun t => t ≠ "")).getD r.messageId.text,
      if r.system then none else c.driverId, r.projectId, kind, mode, r.subject, r.body, r.refs, r.replyToMessageId,
      r.now, .driver, false, []⟩
    let (b, deliveries) ← post b message targets r.deliveryIds
    return record b c.actor .send r.requestKey (r.payload c) (.sent r.messageId deliveries)

end Driver

section Conversation

/-- `_conversation_message`. -/
def conversationMessage (b : Inbox) (projectId messageId : String) : Result (Option Message) := do
  ensure (1 ≤ messageId.toList.length ∧ messageId.toList.length ≤ 200) (.graph "invalid_request")
  return b.messages.find? (fun m => decide (m.messageId.text = messageId) && m.spoken projectId)

/-- The row that a reply answers, of the half of the conversation that it must be of. -/
def replyTarget (b : Inbox) (projectId : String) (replyTo : Option String) (half : Message → Bool) :
    Result (Option Message) :=
  match replyTo with
  | some id => do
    let parent ← orElse (← conversationMessage b projectId id) (.graph "unknown_message")
    ensure (half parent) (.graph "invalid_reply_target")
    return some parent
  | none => return none

structure UserMessageRequest where
  requestKey : String
  subject : String
  body : String
  projectId : String
  refs : List (String × Json)
  replyToMessageId : Option String
  segments : Option (List Segment)
  messageId : Token
  now : Token

def UserMessageRequest.payload (c : Caller) (r : UserMessageRequest) (segments : List Segment) : Json :=
  .arr ([.str r.subject, .str r.body, .str r.projectId, .obj r.refs, .ofOption c.driverId] ++
    (match r.replyToMessageId with
      | some id => [.str id]
      | none => []) ++
    (if segments = [] then []
      else [.arr (segments.map (fun s => .obj [("kind", .str s.kind), ("text", .str s.text)]))]))

/-- `send_user_message`: one row, and no delivery. -/
def sendUserMessage (rt : Runtime) (w : World) (c : Caller) (b : Inbox) (r : UserMessageRequest) :
    Result (Answer × Inbox) := do
  ensure (1 ≤ r.requestKey.toList.length ∧ r.requestKey.toList.length ≤ 320) (.graph "invalid_request")
  ensure (1 ≤ r.subject.toList.length ∧ r.subject.toList.length ≤ 200 ∧ r.body.toList.length ≤ 8000)
    (.graph "invalid_request")
  ensure (truthy c.driverId) (.graph "driver_identity_required")
  let segments ← checkSegments r.segments
  ensure c.trusted .projectPrivate
  match ← replay b c.actor .sendUser r.requestKey (r.payload c segments) with
  | some answer => return (answer, b)
  | none => do
    activeSender w c.driverId "inactive_driver"
    projectOf w r.projectId
    checkRefs rt w r.refs (some r.projectId)
    let parent ← replyTarget b r.projectId r.replyToMessageId
      (fun m => decide (m.audience = .driver) && m.fromUser)
    let message : Message := ⟨r.messageId, (parent.map Message.threadId).getD r.messageId.text, c.driverId,
      some r.projectId, .note, .transient, r.subject, r.body, r.refs, r.replyToMessageId, r.now, .user, false, segments⟩
    let b ← insertMessage b message
    return record b c.actor .sendUser r.requestKey (r.payload c segments)
      (.toUser r.messageId r.projectId c.driverId r.now)

structure ConversationRequest where
  requestKey : String
  projectId : String
  body : String
  subject : Option String
  replyToMessageId : Option String
  targetDriverId : Option String
  messageId : Token
  deliveryIds : Nat → Token
  now : Token

def ConversationRequest.subjectText (r : ConversationRequest) : String := r.subject.getD "Message from the user"

def ConversationRequest.payload (r : ConversationRequest) : Json :=
  .arr [.str r.subjectText, .str r.body, .str r.projectId, .ofOption r.replyToMessageId, .ofOption r.targetDriverId]

/-- The caller is the human owner, and no driver. -/
def userIdentity (c : Caller) : Result Unit :=
  ensure (truthy c.driverId = false ∧ c.trusted ∧ c.isOwner) (.graph "user_identity_required")

/-- `send_user_conversation_message`. -/
def sendUserConversationMessage (w : World) (c : Caller) (b : Inbox) (r : ConversationRequest) :
    Result (Answer × Inbox) := do
  ensure (1 ≤ r.requestKey.toList.length ∧ r.requestKey.toList.length ≤ 320) (.graph "invalid_request")
  ensure (1 ≤ r.subjectText.toList.length ∧ r.subjectText.toList.length ≤ 200 ∧ r.body.toList.length ≤ 8000)
    (.graph "invalid_request")
  userIdentity c
  match ← replay b c.actor .sendUserConversation r.requestKey r.payload with
  | some answer => return (answer, b)
  | none => do
    projectOf w r.projectId
    let parent ← replyTarget b r.projectId r.replyToMessageId
      (fun m => decide (m.audience = .user) && truthy m.senderDriverId)
    let targets := match r.targetDriverId, parent with
      | some target, _ => [target]
      | none, some p => [p.senderDriverId.getD ""]
      | none, none => memberIds w r.projectId none
    ensure (targets ≠ [] ∧ targets.length ≤ 200) (.graph "no_recipients")
    targets.forM (fun t => do
      let _ ← driverOf w (some t)
      return ())
    let message : Message := ⟨r.messageId, (parent.map Message.threadId).getD r.messageId.text, none,
      some r.projectId, .note, .transient, r.subjectText, r.body, [], r.replyToMessageId, r.now, .driver, true, []⟩
    let (b, deliveries) ← post b message targets r.deliveryIds
    return record b c.actor .sendUserConversation r.requestKey r.payload
      (.fromUser r.messageId r.projectId r.now r.replyToMessageId deliveries)

end Conversation

section Notices

/-- The message of a notice; its ids and its time are those of the moment it is
delivered. -/
structure Notice where
  targetDriverId : String
  senderDriverId : Option String
  projectId : Option String
  kind : Kind
  subject : String
  body : String
  refs : List (String × Json)
  messageId : Token
  deliveryId : Token
  now : Token

/-- `deliver_notice`, on the connection of its caller. -/
def deliverNotice (w : World) (b : Inbox) (n : Notice) : Result Inbox :=
  if (w.driver? n.targetDriverId).isNone then .ok b  -- `{"skipped": "unregistered_driver"}`
  else do
    let message : Message := ⟨n.messageId, n.messageId.text, n.senderDriverId, n.projectId, n.kind,
      .transient, n.subject,
      n.body, n.refs, none, n.now, .driver, false, []⟩
    let (b, _) ← post b message [n.targetDriverId] (fun _ => n.deliveryId)
    return b

end Notices

section Moves

structure TransitionRequest where
  deliveryId : String
  expectedVersion : Int
  requestKey : String
  resolve : Bool  -- `target_status`: resolved, or acknowledged
  breakGlass : Option String

def TransitionRequest.target (r : TransitionRequest) : Status := if r.resolve then .resolved else .acknowledged

def TransitionRequest.operation (r : TransitionRequest) : Operation := if r.resolve then .resolved else .acknowledged

def TransitionRequest.payload (r : TransitionRequest) : Json :=
  .arr [.str r.deliveryId, .int r.expectedVersion, .str (if r.resolve then "resolved" else "acknowledged"),
    .ofOption r.breakGlass]

/-- `transition`: `acknowledge_driver_message` and `resolve_driver_message`. -/
def transition (w : World) (c : Caller) (b : Inbox) (r : TransitionRequest) : Result (Answer × Inbox) := do
  ensure (1 ≤ r.expectedVersion) (.graph "invalid_request")
  ensure (1 ≤ r.requestKey.toList.length ∧ r.requestKey.toList.length ≤ 320) (.graph "invalid_request")
  ensure c.trusted .projectPrivate
  let d ← orElse (b.deliveries.find? (fun d => decide (d.deliveryId.text = r.deliveryId))) (.graph "unknown_delivery")
  authorize w c (some d.targetDriverId) true r.breakGlass
  match ← replay b c.actor r.operation r.requestKey r.payload with
  | some answer => return (answer, b)
  | none => do
    ensure ((d.version : Int) = r.expectedVersion) (.graph "version_conflict")
    ensure (d.status = if r.resolve then .acknowledged else .unread) (.graph "invalid_transition")
    let moved := modifyWhere (fun x => decide (x.deliveryId = d.deliveryId ∧ x.version = d.version))
      (fun x => { x with status := r.target, version := x.version + 1 }) b.deliveries
    return record { b with deliveries := moved } c.actor r.operation r.requestKey r.payload
      (.moved { d with status := r.target, version := d.version + 1 })

end Moves

end AItelier.DriverInbox
