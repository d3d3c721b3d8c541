import AItelier.Lib.Run
import AItelier.Mail.Schema

namespace AItelier.Mail

open AItelier.Lib AItelier.State

/-- `members`: the project's member drivers in id order. -/
def memberIds (m : Mailbox) (projectId : String) : List String :=
  ((m.members.filter (fun r => decide (r.projectId = projectId ∧ r.status = .member))).map
    Member.driverId).insertionSort (fun a b => a.toList ≤ b.toList)

/-- The acknowledgement rows of a delivery in driver order. -/
def ackRows (m : Mailbox) (deliveryId : String) : List Ack :=
  (m.acks.filter (fun a => decide (a.deliveryId = deliveryId))).insertionSort
    (fun a b => a.driverId.toList ≤ b.driverId.toList)

/-- A required driver that is still a member and has not acknowledged. -/
def Ack.pending (a : Ack) : Bool := a.required && a.removedAt.isNone && a.ackedAt.isNone

def Ack.acked (a : Ack) : Bool := a.ackedAt.isSome

/-- Whether the acknowledgements of a delivery suffice under the terms of its
message. -/
def quorumMet (terms : Terms) (legacy : Bool) (rows : List Ack) : Bool :=
  legacy || match terms.ackMode with
    | .broadcast => (rows.filter Ack.pending).isEmpty
    | .atLeastN => decide (terms.ackQuorum ≤ (rows.filter Ack.acked).length)

def detailsOf (m : Mailbox) (terms : Terms) (delivery : Delivery) (driverId : Option String) : Details :=
  let rows := ackRows m delivery.deliveryId
  let legacy := decide (delivery.deliveryId ∈ m.legacyAcks)
  let met := quorumMet terms legacy rows
  { ackMode := terms.ackMode
    ackQuorum := terms.ackQuorum
    acks := (rows.filter Ack.acked).map (fun a => (a.driverId, a.ackedAt))
    pendingDrivers := (rows.filter Ack.pending).map Ack.driverId
    ackedByMe := rows.any (fun a => a.acked && decide (some a.driverId = driverId))
    legacyAck := legacy
    quorumMet := met
    ackQuorumUnreachable := decide (terms.ackMode = .atLeastN) && !met &&
      decide ((memberIds m delivery.targetProjectId).length < terms.ackQuorum) }

/-- `details`: a delivery always has its message. -/
def details (m : Mailbox) (delivery : Delivery) (driverId : Option String) : Result Details := do
  let message ← orElse (m.message? delivery.messageId) (.integrity "state_director_messages")
  return detailsOf m message.terms delivery driverId

/-- The status of a delivery whose quorum is met. -/
def metStatus (mode : DeliveryMode) : DeliveryStatus :=
  match mode with
  | .transient => .resolved
  | .standing => .acknowledged

/-- The deliveries that still wait for a driver the project loses. -/
def awaiting (m : Mailbox) (projectId driverId : String) : List String :=
  (m.acks.filter (fun a => a.pending && decide (a.driverId = driverId) &&
    (m.delivery? a.deliveryId).any (fun d => decide (d.targetProjectId = projectId)))).map Ack.deliveryId

/-- One round of `membership_removed`. -/
def removeRequired (projectId driverId actor : String) (now : Stamp) (m : Mailbox) (deliveryId : String) :
    Result Mailbox := do
  let m := m.setAck deliveryId driverId (fun a => { a with removedAt := some now })
  let row ← orElse (m.delivery? deliveryId) (.integrity "state_director_deliveries")
  let message ← orElse (m.message? row.messageId) (.integrity "state_director_messages")
  let m := if (detailsOf m message.terms row none).quorumMet && decide (row.status ≠ .resolved) then
      m.setDelivery deliveryId (fun d => { d with
        status := metStatus message.letter.deliveryMode, version := d.version + 1 })
    else m
  return m.event projectId "director_message_member_removed" [("delivery_id", .str deliveryId),
    ("driver_id", .str driverId), ("actor", .str actor)]

def membershipRemoved (m : Mailbox) (projectId driverId actor : String) (now : Stamp) : Result Mailbox :=
  (awaiting m projectId driverId).foldlM (removeRequired projectId driverId actor now) m

structure MembershipRequest where
  projectId : String
  driverId : String
  status : State.Membership
  expectedRevision : Int
  reason : String
  actor : String
  projectExists : Bool
  now : Stamp

def Member.id (r : Member) : String × String := (r.projectId, r.driverId)

/-- `set_membership`. -/
def setMembership (m : Mailbox) (r : MembershipRequest) : Result Mailbox := do
  ensure (r.projectId ≠ "" ∧ r.projectId.toList.length ≤ 128) (.driver "project_id must be text")
  ensure (r.reason.toList.length ≤ 2000 ∧ strip r.reason ≠ "")
    (.driver "reason must be text of at most 2000 characters")
  ensure (r.projectExists = true) (.driver ("no State project " ++ quote r.projectId))
  ensure ((lookup Driver.driverId m.drivers r.driverId).isSome) (.driver ("no driver " ++ quote r.driverId))
  let row := lookup Member.id m.members (r.projectId, r.driverId)
  let current := (row.map Member.revision).getD 0
  ensure ((current : Int) = r.expectedRevision) (.driverConflict ("membership revision is " ++ toString current ++
    ", not " ++ toString r.expectedRevision ++ "; reload"))
  let members := if row.isSome then
      modifyWhere (fun q => decide (q.id = (r.projectId, r.driverId)))
        (fun q => { q with status := r.status, revision := q.revision + 1, actor := r.actor }) m.members
    else m.members ++ [⟨r.projectId, r.driverId, r.status, 1, r.actor⟩]
  let m := { m with members := members }
  match r.status with
  | .removed => membershipRemoved m r.projectId r.driverId r.actor r.now
  | .member => return m

end AItelier.Mail

namespace AItelier.Mail

open AItelier.Lib AItelier.State

def invalid (text : Option String) : MailError := .message .invalidRequest text

/-- `_db_id`: measured after normalisation, kept as it came. -/
def dbId (rt : Runtime) (value : String) (text : Option String) : Result String := do
  ensure (1 ≤ (rt.nfc value).toList.length ∧ (rt.nfc value).toList.length ≤ 320) (invalid text)
  return value

/-- `_nfc`. -/
def nfcText (rt : Runtime) (value : String) (minimum maximum : Nat) (field : Option String) : Result String := do
  ensure (minimum ≤ (rt.nfc value).toList.length ∧ (rt.nfc value).toList.length ≤ maximum)
    (invalid (field.map (fun f => f ++ ": must contain " ++ toString minimum ++ " to " ++ toString maximum ++
      " characters after NFC normalization")))
  return rt.nfc value

def dbIdText (field : String) : Option String := some (field ++ ": must be text of 1 to 320 characters")

/-- `_message_errors`: a refusal exposed to a v2 caller fits its closed enumeration. -/
def exposed {α : Type} (schema : Protocol) (x : Result α) : Result α :=
  match x with
  | .error (.message code text) =>
    if schema = .v2 ∧ code.v2 = false then .error (.message .invalidRequest none)
    else .error (.message code text)
  | _ => x

def projectOf (m : Mailbox) (projectId : String) : Result Unit :=
  ensure (projectId ∈ m.projects) (.message .unknownProject none)

/-- A v1 send record predates the delivery mode; that payload is the transient
request. -/
def legacyPayload (recorded payload : Json) : Json :=
  match recorded with
  | .obj fields =>
    if fields.all (fun f => f.1 ≠ "delivery_mode") &&
        decide (canonical (payload.get "delivery_mode") = canonical (.str "transient")) then
      .obj (fields ++ [("delivery_mode", .str "transient")])
    else recorded
  | _ => recorded

/-- `_dedupe`: the recorded answer of the same request, if there is one. -/
def dedupe (m : Mailbox) (actor scope : String) (operation : Operation) (requestKey : String) (payload : Json) :
    Result (Option Answer) :=
  match m.idempotency.find? (fun r => decide (r.actor = actor ∧ r.scopeProjectId = scope ∧
      r.operation = operation ∧ r.requestKey = requestKey)) with
  | none => return none
  | some row => do
    let recorded := if operation = .send then legacyPayload row.payload payload else row.payload
    ensure (canonical row.payload = canonical payload ∨ canonical recorded = canonical payload)
      (.message .idempotencyConflict none)
    return some row.result

/-- `_record`. -/
def record (m : Mailbox) (actor scope : String) (operation : Operation) (requestKey : String) (payload : Json)
    (result : Answer) : Mailbox :=
  { m with idempotency := m.idempotency ++ [⟨actor, scope, operation, requestKey, payload, result⟩] }

/-- `_acker`: the identity an acknowledgement is recorded under. -/
def acker (m : Mailbox) (p : Provider) (projectId : String) : Result String :=
  let refusal : MailError := .message .unauthorized
    (some "project membership: requires an active registered member driver or owner")
  if p.isOwner then return "owner"
  else do
    let driver ← orElse (p.driverId.filter (fun d => d ≠ "" && decide (d ∈ memberIds m projectId))) refusal
    ensure ((lookup Driver.driverId m.drivers driver).map Driver.status = some .active) refusal
    return driver

/-- `_next_delivery_seq`. -/
def nextDeliverySeq (m : Mailbox) (projectId : String) : Nat × Mailbox :=
  match m.sequence? projectId with
  | none => (1, { m with sequences := m.sequences ++ [⟨projectId, 2⟩] })
  | some row => (row.nextSeq, { m with
      sequences := modifyWhere (fun s => decide (s.projectId = projectId))
        (fun s => { s with nextSeq := row.nextSeq + 1 }) m.sequences })

structure SendRequest where
  senderProjectId : String
  directorIdentity : String
  requestKey : String
  subject : String
  body : String
  targetProjectId : Option String
  broadcast : Bool
  replyToDeliveryId : Option String
  deliveryMode : DeliveryMode
  ackMode : Option AckMode
  ackQuorum : Option Int
  protocol : Protocol
  messageId : String
  deliveryIds : Nat → String
  now : Stamp

def SendRequest.extended (r : SendRequest) : Bool := r.ackMode.isSome || r.ackQuorum.isSome

def SendRequest.schema (r : SendRequest) : Protocol := if r.extended then .v3 else r.protocol

def SendRequest.payload (r : SendRequest) : Json :=
  .obj ([("body", .str r.body), ("broadcast", .bool r.broadcast), ("director_identity", .str r.directorIdentity),
    ("reply_to_delivery_id", .ofOption r.replyToDeliveryId), ("request_key", .str r.requestKey),
    ("sender_project_id", .str r.senderProjectId), ("subject", .str r.subject),
    ("target_project_id", .ofOption r.targetProjectId), ("delivery_mode", .str r.deliveryMode.text)] ++
    (if r.extended then [("ack_mode", .str (r.ackMode.getD .atLeastN).text),
      ("ack_quorum", .int (r.ackQuorum.getD 1))] else []))

/-- Where a send goes: one project, all others, or back to the sender of a
delivery. -/
inductive Destination
  | targeted (project : String)
  | broadcasting
  | replying (delivery : String)
  deriving DecidableEq, Repr

def SendRequest.destination (r : SendRequest) : Result Destination :=
  match r.broadcast, r.targetProjectId, r.replyToDeliveryId with
  | false, some t, none => return .targeted t
  | true, none, none => return .broadcasting
  | false, none, some d => return .replying d
  | _, _, _ => throw (invalid (some ("target_project_id / broadcast / reply_to_delivery_id: choose exactly one " ++
      "destination; replies omit target_project_id")))

/-- The arguments of a send as its transaction uses them. -/
def SendRequest.validate (rt : Runtime) (r : SendRequest) : Result (SendRequest × Destination) := do
  let sender ← dbId rt r.senderProjectId (dbIdText "sender_project_id")
  let identity ← nfcText rt r.directorIdentity 1 320 (some "director_identity")
  let requestKey ← nfcText rt r.requestKey 1 320 (some "request_key")
  let subject ← nfcText rt r.subject 1 200 (some "subject")
  let body ← nfcText rt r.body 0 8000 (some "body")
  let _ ← r.targetProjectId.mapM (fun t => dbId rt t (dbIdText "target_project_id"))
  let _ ← r.replyToDeliveryId.mapM (fun d => dbId rt d (dbIdText "reply_to_delivery_id"))
  let destination ← r.destination
  ensure (destination ≠ .targeted sender)
    (if r.schema = .v3 then .message .useDriverInbox none else invalid none)
  ensure (1 ≤ r.ackQuorum.getD 1) (invalid none)
  return ({ r with directorIdentity := identity, requestKey := requestKey, subject := subject, body := body },
    destination)

/-- The target projects, and the thread a reply continues. -/
def sendTargets (m : Mailbox) (sender : String) (destination : Destination) :
    Result (List String × Option String) :=
  match destination with
  | .targeted t => do
    projectOf m t
    return ([t], none)
  | .broadcasting => do
    let targets := (m.projects.filter (fun t => decide (t ≠ sender))).insertionSort
      (fun a b => a.toList ≤ b.toList)
    ensure (targets ≠ []) (.message .noRecipients none)
    ensure (targets.length ≤ 200) (.message .recipientLimit none)
    return (targets, none)
  | .replying d => do
    let cited ← orElse ((m.delivery? d).filter (fun c => decide (c.targetProjectId = sender)))
      (.message .unknownDelivery none)
    let message ← orElse (m.message? cited.messageId) (.message .unknownDelivery none)
    projectOf m message.letter.senderProjectId
    return ([message.letter.senderProjectId], some message.letter.threadId)

/-- What a quorum that a target's members cannot reach is refused with. -/
def unreachable (m : Mailbox) (schema : Protocol) (quorum : Nat) (targets : List String) : MailError :=
  match schema with
  | .v3 => .message .ackQuorumUnreachable none
  | .v2 =>
    let sorted := targets.insertionSort (fun a b => a.toList ≤ b.toList)
    let blocked := sorted.filter (fun t => decide ((memberIds m t).length < quorum))
    let project := blocked.headD ""
    .message .noRecipients (some ("target project " ++ project ++
      (if blocked.length > 1 then " and " ++ toString (blocked.length - 1) ++ " more target project(s)" else "") ++
      " has " ++ toString (memberIds m project).length ++ " registered member driver(s), fewer than ack_quorum=" ++
      toString quorum ++ ": delivery under at_least_n needs that many member drivers registered in the " ++
      "target project, or send with ack_mode=broadcast"))

/-- `INSERT INTO state_director_deliveries` under the table's constraints. -/
def insertDelivery (m : Mailbox) (d : Delivery) : Result Mailbox := do
  ensure (¬ m.deliveries.any (fun x => decide (x.deliveryId = d.deliveryId ∨
      (x.messageId = d.messageId ∧ x.targetProjectId = d.targetProjectId) ∨
      (x.targetProjectId = d.targetProjectId ∧
        x.deliverySeq = d.deliverySeq)))) (.integrity "state_director_deliveries")
  return { m with deliveries := m.deliveries ++ [d] }

/-- The required rows of a broadcast, under the primary key. -/
def requireAcks (m : Mailbox) (deliveryId : String) (drivers : List String) : Result Mailbox := do
  ensure (drivers.Nodup ∧ ¬ m.acks.any (fun a => decide (a.deliveryId = deliveryId ∧ a.driverId ∈ drivers)))
    (.integrity "state_director_delivery_acks")
  return { m with acks := m.acks ++ drivers.map (fun d => ⟨deliveryId, d, true, none, none, none⟩) }

def requireMembers (m : Mailbox) (message : Message) (v3 : Bool) (d : Delivery) : Result Mailbox :=
  if v3 && decide (message.terms.ackMode = .broadcast) then
    requireAcks m d.deliveryId (memberIds m d.targetProjectId)
  else .ok m

/-- One target of a send: its number, its row, the acknowledgements it requires
and its event. -/
def deliver (message : Message) (v3 : Bool) (summary : String) (acc : Mailbox × List Delivery)
    (target : String × String) : Result (Mailbox × List Delivery) := do
  let (seq, m) := nextDeliverySeq acc.1 target.1
  let d : Delivery := ⟨target.2, message.messageId, target.1, seq, .unread, 1⟩
  let m ← insertDelivery m d
  let m ← requireMembers m message v3 d
  return (m.event target.1 "director_message_received" [("message_id", .str message.messageId),
    ("thread_id", .str message.letter.threadId), ("delivery_id", .str d.deliveryId), ("summary", .str summary)],
    acc.2 ++ [d])

/-- The transaction of a send that no record answers. -/
def sendNew (rt : Runtime) (m : Mailbox) (p : Provider) (r : SendRequest) (destination : Destination) :
    Result (Answer × Mailbox) := do
  let v3 := p.v3 r.protocol r.extended
  let ackMode := r.ackMode.getD .atLeastN
  let quorum := (r.ackQuorum.getD 1).toNat
  projectOf m r.senderProjectId
  let (targets, thread) ← sendTargets m r.senderProjectId destination
  ensure (¬ (v3 = true ∧ ackMode = .atLeastN ∧ targets.any (fun t => decide ((memberIds m t).length < quorum)) = true))
    (unreachable m r.schema quorum targets)
  let message : Message := ⟨⟨r.messageId, (thread.filter (fun t => t ≠ "")).getD r.messageId, r.senderProjectId,
    r.directorIdentity, p.actor,
    r.subject, r.body, r.now, r.replyToDeliveryId, r.deliveryMode⟩, ⟨p.driverId, ackMode, quorum⟩⟩
  ensure ((m.message? r.messageId).isNone) (.integrity "state_director_messages")
  let summary := String.ofList ((rt.redact (r.subject ++ "\n" ++ r.body)).toList.take 320)
  let m := { m with messages := m.messages ++ [message] }
  let (m, deliveries) ← (targets.zipIdx.map (fun t => (t.1, r.deliveryIds t.2))).foldlM
    (deliver message v3 summary) (m, [])
  let answer := .sent message.letter (if v3 then some message.terms else none) deliveries
  return (answer, record m p.actor r.senderProjectId .send r.requestKey r.payload answer)

/-- An answer, and whether it is a replay of a recorded one. -/
structure Reply where
  schema : Protocol
  answer : Answer
  replayed : Bool
  deriving DecidableEq, Repr

/-- `_success`: the v2 wire drops the terms of a message and the details of a
delivery. -/
def success (schema : Protocol) (answer : Answer) (replayed : Bool) : Reply :=
  match schema, answer with
  | .v2, .sent letter _ deliveries => ⟨schema, .sent letter none deliveries, replayed⟩
  | .v2, .moved delivery _ => ⟨schema, .moved delivery none, replayed⟩
  | .v3, answer => ⟨schema, answer, replayed⟩

/-- `send_director_message`. -/
def sendDirectorMessage (rt : Runtime) (m : Mailbox) (p : Provider) (request : SendRequest) :
    Result (Reply × Mailbox) :=
  exposed request.schema do
    let (r, destination) ← request.validate rt
    match ← dedupe m p.actor r.senderProjectId .send r.requestKey r.payload with
    | some answer => return (success r.schema answer true, m)
    | none => do
      let (answer, m) ← sendNew rt m p r destination
      return (success r.schema answer false, m)

structure TransitionRequest where
  operation : Operation
  projectId : String
  deliveryId : String
  expectedVersion : Int
  requestKey : String
  protocol : Protocol
  now : Stamp

def TransitionRequest.payload (r : TransitionRequest) : Json :=
  .obj [("delivery_id", .str r.deliveryId), ("expected_version", .int r.expectedVersion),
    ("project_id", .str r.projectId), ("request_key", .str r.requestKey)]

/-- The status a transition asks for. -/
def TransitionRequest.target (r : TransitionRequest) : DeliveryStatus :=
  match r.operation with
  | .acknowledge => .acknowledged
  | _ => .resolved

/-- `INSERT ... ON CONFLICT DO UPDATE SET acked_at`. -/
def recordAck (m : Mailbox) (deliveryId driver : String) (now : Stamp) : Mailbox :=
  if (m.ack? deliveryId driver).isSome then
    m.setAck deliveryId driver (fun a => { a with ackedAt := some now })
  else { m with acks := m.acks ++ [⟨deliveryId, driver, false, some now, none, none⟩] }

/-- The answer of the caller's first recorded transition of this delivery. -/
def originalAnswer (m : Mailbox) (actor : String) (r : TransitionRequest) (delivery : Delivery) : Answer :=
  match m.idempotency.find? (fun x => decide (x.actor = actor ∧ x.scopeProjectId = r.projectId ∧
      x.operation = r.operation ∧ canonical (x.payload.get "delivery_id") = canonical (.str r.deliveryId))) with
  | some row => row.result
  | none => .moved delivery none

/-- The status a v3 transition gives, with the acknowledgement it records first. -/
def v3Status (m : Mailbox) (r : TransitionRequest) (delivery : Delivery) (message : Message) (driver : String) :
    DeliveryStatus × Mailbox :=
  match r.operation with
  | .acknowledge =>
    let m := recordAck m r.deliveryId driver r.now
    (if (detailsOf m message.terms delivery (some driver)).quorumMet &&
      decide (message.letter.deliveryMode = .transient)
      then .resolved else .acknowledged, m)
  | _ => (.resolved, m)

/-- What a v3 transition writes once every check passed. -/
def writeV3 (m : Mailbox) (p : Provider) (r : TransitionRequest) (delivery : Delivery) (message : Message)
    (driver : String) : Answer × Mailbox :=
  let (status, m) := v3Status m r delivery message driver
  let m := m.setDelivery r.deliveryId (fun d => { d with status := status, version := d.version + 1 })
  let moved := { delivery with status := status, version := delivery.version + 1 }
  let m := m.event r.projectId
    (if r.operation = .acknowledge then "director_message_acked" else "director_message_resolved")
    [("delivery_id", .str r.deliveryId), ("driver_id", .str driver), ("actor", .str p.actor),
      ("acks", .arr ((detailsOf m message.terms moved (some driver)).acks.map (fun a =>
        .obj [("driver_id", .str a.1), ("acked_at", .ofOption (a.2.map stampText))])))]
  let m := if r.operation = .acknowledge then
      m.setAck r.deliveryId driver (fun a => { a with ackEventSeq := some m.events.length })
    else m
  let answer := .moved moved (some (detailsOf m message.terms moved (some driver)))
  (answer, record m p.actor r.projectId r.operation r.requestKey r.payload answer)

/-- The per-driver transition of a v3 caller; the flag says that the answer is a
replay. -/
def transitionV3 (m : Mailbox) (p : Provider) (r : TransitionRequest) (delivery : Delivery) :
    Result (Answer × Bool × Mailbox) := do
  let driver ← acker m p r.projectId
  if r.operation = .acknowledge ∧ ((m.ack? r.deliveryId driver).any Ack.acked) = true then
    return (originalAnswer m p.actor r delivery, true, m)
  else do
    ensure ((delivery.version : Int) = r.expectedVersion) (.message .versionConflict none)
    let message ← orElse (m.message? delivery.messageId) (.integrity "state_director_messages")
    if delivery.status = .resolved then do
      ensure (r.operation = .resolve) (.message .invalidTransition none)
      let answer := .moved delivery (some (detailsOf m message.terms delivery (some driver)))
      return (answer, false, record m p.actor r.projectId r.operation r.requestKey r.payload answer)
    else
      let (answer, m) := writeV3 m p r delivery message driver
      return (answer, false, m)

/-- The single-acknowledger transition of a v2 caller. -/
def transitionV2 (m : Mailbox) (p : Provider) (r : TransitionRequest) (delivery : Delivery) :
    Result (Answer × Mailbox) :=
  if delivery.status = r.target then
    return (.moved delivery none, record m p.actor r.projectId r.operation r.requestKey r.payload
      (.moved delivery none))
  else do
    ensure (delivery.status = if r.operation = .acknowledge then .unread else .acknowledged)
      (.message .invalidTransition none)
    ensure ((delivery.version : Int) = r.expectedVersion) (.message .versionConflict none)
    let moved := { delivery with status := r.target, version := delivery.version + 1 }
    let m := m.setDelivery r.deliveryId (fun d => { d with status := r.target, version := d.version + 1 })
    return (.moved moved none, record m p.actor r.projectId r.operation r.requestKey r.payload (.moved moved none))

/-- `_transition`, for `acknowledge_director_message` and
`resolve_director_message`. -/
def transition (rt : Runtime) (m : Mailbox) (p : Provider) (request : TransitionRequest) :
    Result (Reply × Mailbox) :=
  exposed request.protocol do
    ensure (request.operation ≠ .send) (.message .invalidRequest none)
    let _ ← dbId rt request.projectId none
    let _ ← dbId rt request.deliveryId none
    ensure (1 ≤ request.expectedVersion) (invalid none)
    let requestKey ← nfcText rt request.requestKey 1 320 none
    let r := { request with requestKey := requestKey }
    match ← dedupe m p.actor r.projectId r.operation r.requestKey r.payload with
    | some answer => return (success r.protocol answer true, m)
    | none => do
      projectOf m r.projectId
      let delivery ← orElse ((m.delivery? r.deliveryId).filter (fun d => decide (d.targetProjectId = r.projectId)))
        (.message .unknownDelivery none)
      if p.v3 r.protocol false then do
        let (answer, replayed, m) ← transitionV3 m p r delivery
        return (success r.protocol answer replayed, m)
      else do
        let (answer, m) ← transitionV2 m p r delivery
        return (success r.protocol answer false, m)

/-- The numbers of a project's deliveries are `1, 2, ...` in the order of their
rows, and the stored sequence is one ahead of the last. -/
def Numbered (deliveries : List Delivery) (sequences : List Sequence) : Prop :=
  ∀ project,
    (deliveries.filter (fun d => decide (d.targetProjectId = project))).map Delivery.deliverySeq =
      List.range' 1 (deliveries.countP (fun d => decide (d.targetProjectId = project))) ∧
    lookup Sequence.projectId sequences project =
      if deliveries.countP (fun d => decide (d.targetProjectId = project)) = 0 then none
      else some ⟨project, deliveries.countP (fun d => decide (d.targetProjectId = project)) + 1⟩

/-- A mailbox of the version before acknowledgements, as that version left it: its
messages carry no terms, and one reader's acknowledgement counted for all. -/
structure OldMailbox where
  projects : List String
  drivers : List Driver
  members : List Member
  events : List Event
  letters : List Letter
  deliveries : List Delivery
  sequences : List Sequence
  idempotency : List Idempotency
  keyed : (deliveries.map Delivery.deliveryId).Nodup
  sent : ∀ d ∈ deliveries, d.messageId ∈ letters.map Letter.messageId
  numbered : Numbered deliveries sequences

/-- `initialize` on such a database: the default terms for every message, and a
legacy mark for every delivery that was acknowledged under them. -/
def initializeMailbox (old : OldMailbox) : Mailbox where
  projects := old.projects
  drivers := old.drivers
  members := old.members
  events := old.events
  messages := old.letters.map (fun l => ⟨l, ⟨none, .atLeastN, 1⟩⟩)
  deliveries := old.deliveries
  sequences := old.sequences
  idempotency := old.idempotency
  acks := []
  legacyAcks := (old.deliveries.filter (fun d => decide (d.status ≠ .unread))).map Delivery.deliveryId

def OldMailbox.empty : OldMailbox where
  projects := []
  drivers := []
  members := []
  events := []
  letters := []
  deliveries := []
  sequences := []
  idempotency := []
  keyed := List.nodup_nil
  sent := by simp
  numbered := by simp [Numbered]

/-- A transaction on the mailbox, or one of the rest of the store, which may
create projects, change the registry and append events. -/
inductive Op
  | send (provider : Provider) (request : SendRequest)
  | transition (provider : Provider) (request : TransitionRequest)
  | setMembership (request : MembershipRequest)
  | rest (projects : List String) (drivers : List Driver) (events : List Event)

def stepOp (rt : Runtime) (m : Mailbox) : Op → Result (Option Reply × Mailbox)
  | .send p r => (sendDirectorMessage rt m p r).map (fun x => (some x.1, x.2))
  | .transition p r => (transition rt m p r).map (fun x => (some x.1, x.2))
  | .setMembership r => (setMembership m r).map (fun m => (none, m))
  | .rest projects drivers events =>
    .ok (none, { m with projects := projects, drivers := drivers, events := m.events ++ events })

/-- One step: a refused transaction is rolled back. -/
def next (rt : Runtime) (m : Mailbox) (op : Op) : Mailbox :=
  match stepOp rt m op with
  | .ok x => x.2
  | .error _ => m

end AItelier.Mail
