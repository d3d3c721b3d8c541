import AItelier.Lib.Entries
import AItelier.Lib.Value
import AItelier.Mail.Inbox

namespace AItelier.Mail

open AItelier.Lib AItelier.State

structure MemoryEvent where
  seq : Nat
  eventType : String
  actionable : Bool
  payload : List (String × Json)

/-- `_Memory`. -/
structure Memory where
  projects : List String
  messages : Entries String Letter
  deliveries : Entries String Delivery
  inboxes : Entries String (List String)
  events : Entries String (List MemoryEvent)
  dedupe : Entries (String × String × Operation × String) (String × Answer)
  eventSeq : Nat

def Memory.start (projects : List String) : Memory :=
  ⟨projects, [], [], projects.map (fun p => (p, [])), projects.map (fun p => (p, [])), [], 0⟩

namespace Memory

def inbox (mem : Memory) (project : String) : List String := (mem.inboxes.get project).getD []

/-- `_project`. -/
def project (mem : Memory) (projectId : String) : Result Unit :=
  ensure (projectId ∈ mem.projects) (.message .unknownProject none)

/-- `_dedupe`. -/
def recorded (mem : Memory) (actor scope : String) (operation : Operation) (requestKey : String) (payload : Json) :
    Result (Option Answer) :=
  match mem.dedupe.get (actor, scope, operation, requestKey) with
  | none => return none
  | some (text, answer) => do
    ensure (text = canonical payload) (.message .idempotencyConflict none)
    return some answer

/-- `_record`. -/
def record (mem : Memory) (actor scope : String) (operation : Operation) (requestKey : String) (payload : Json)
    (answer : Answer) : Memory :=
  { mem with dedupe := mem.dedupe.set (actor, scope, operation, requestKey) (canonical payload, answer) }

/-- The arguments of a send, in the order in which they are checked. -/
def validate (rt : Runtime) (r : SendRequest) : Result (SendRequest × Destination) := do
  let _ ← dbId rt r.senderProjectId none
  let identity ← nfcText rt r.directorIdentity 1 320 none
  let requestKey ← nfcText rt r.requestKey 1 320 none
  let subject ← nfcText rt r.subject 1 200 (some "subject")
  let body ← nfcText rt r.body 0 8000 none
  let _ ← r.targetProjectId.mapM (fun t => dbId rt t none)
  let _ ← r.replyToDeliveryId.mapM (fun d => dbId rt d none)
  let destination ← r.destination
  return ({ r with directorIdentity := identity, requestKey := requestKey, subject := subject, body := body },
    destination)

/-- The target projects, and the thread a reply continues. -/
def targets (mem : Memory) (sender : String) (destination : Destination) : Result (List String × Option String) :=
  match destination with
  | .targeted t => do
    ensure (t ≠ sender) (invalid none)
    mem.project t
    return ([t], none)
  | .broadcasting => do
    let targets := (mem.projects.filter (fun t => decide (t ≠ sender))).insertionSort (fun a b => a.toList ≤ b.toList)
    ensure (targets ≠ []) (.message .noRecipients none)
    ensure (targets.length ≤ 200) (.message .recipientLimit none)
    return (targets, none)
  | .replying d => do
    let delivery ← orElse ((mem.deliveries.get d).filter (fun c => decide (c.targetProjectId = sender)))
      (.message .unknownDelivery none)
    let original ← orElse (mem.messages.get delivery.messageId) .indexError
    mem.project original.senderProjectId
    return ([original.senderProjectId], some original.threadId)

/-- A delivery as it is prepared, before any is stored. -/
def prepare (mem : Memory) (messageId : String) (target : String × String) : Delivery :=
  ⟨target.2, messageId, target.1, (mem.inbox target.1).length + 1, .unread, 1⟩

/-- A prepared delivery is stored, and its target is told. -/
def store (letter : Letter) (summary : String) (mem : Memory) (d : Delivery) : Memory :=
  { mem with
    deliveries := mem.deliveries.set d.deliveryId d
    inboxes := mem.inboxes.set d.targetProjectId (mem.inbox d.targetProjectId ++ [d.deliveryId])
    eventSeq := mem.eventSeq + 1
    events := mem.events.set d.targetProjectId (((mem.events.get d.targetProjectId).getD []) ++
      [⟨mem.eventSeq + 1, "director_message_received", true, [("message_id", .str letter.messageId),
        ("thread_id", .str letter.threadId), ("delivery_id", .str d.deliveryId), ("summary", .str summary)]⟩]) }

/-- The send of a message that no record answers. -/
def sendNew (rt : Runtime) (mem : Memory) (actor : String) (r : SendRequest) (destination : Destination) :
    Result (Answer × Memory) := do
  mem.project r.senderProjectId
  let (targets, thread) ← mem.targets r.senderProjectId destination
  let letter : Letter := ⟨r.messageId, thread.getD r.messageId, r.senderProjectId, r.directorIdentity, actor,
    r.subject, r.body, r.now, r.replyToDeliveryId, r.deliveryMode⟩
  let summary := String.ofList ((rt.redact (r.subject ++ "\n" ++ r.body)).toList.take 320)
  let prepared := (targets.zipIdx.map (fun t => (t.1, r.deliveryIds t.2))).map (mem.prepare r.messageId)
  let stored := prepared.foldl (store letter summary) { mem with messages := mem.messages.set r.messageId letter }
  let answer := .sent letter none prepared
  return (answer, stored.record actor r.senderProjectId .send r.requestKey r.payload answer)

/-- `send_director_message`. -/
def sendDirectorMessage (rt : Runtime) (mem : Memory) (actor : String) (request : SendRequest) :
    Result (Reply × Memory) := do
  let (r, destination) ← validate rt request
  match ← mem.recorded actor r.senderProjectId .send r.requestKey r.payload with
  | some answer => return (⟨.v2, answer, true⟩, mem)
  | none => do
    let (answer, mem) ← mem.sendNew rt actor r destination
    return (⟨.v2, answer, false⟩, mem)

/-- A delivery of an inbox with its message. -/
def item (mem : Memory) (id : String) : Option (Delivery × Letter) := do
  let d ← mem.deliveries.get id
  let letter ← mem.messages.get d.messageId
  return (d, letter)

/-- `list_director_messages`. -/
def listDirectorMessages (rt : Runtime) (mem : Memory) (q : InboxFilter) (after : Int) : Result Page := do
  let _ ← dbId rt q.projectId none
  ensure (0 ≤ after) (invalid none)
  ensure (1 ≤ q.limit ∧ q.limit ≤ 100) (invalid none)
  ensure (q.statuses.all (fun s => decide (s ≠ [] ∧ s.Nodup)) = true) (invalid none)
  mem.project q.projectId
  let rows : List (Delivery × Letter) := (mem.inbox q.projectId).filterMap mem.item
  let high : Nat := (rows.map (fun r => r.1.deliverySeq)).foldl max 0
  let matched := rows.filter (fun r => decide (after.toNat < r.1.deliverySeq ∧ r.1.deliverySeq ≤ high) &&
    q.deliveryMode.all (fun a => decide (r.2.deliveryMode = a)) && q.statuses.all (fun s => decide (r.1.status ∈ s)))
  let items := matched.take q.limit.toNat
  let hasMore := decide (items.length < matched.length)
  let nextAfter ← if hasMore then orElse (items.getLast?.map (fun r => r.1.deliverySeq)) .indexError
    else pure (max after.toNat high)
  return ⟨q.projectId, items.map (fun r => ⟨r.2, none, r.1, none⟩), matched.length, hasMore, nextAfter⟩

/-- The transition that no record answers. -/
def transitionNew (mem : Memory) (actor : String) (r : TransitionRequest) (d : Delivery) : Result (Answer × Memory) :=
  if d.status = r.target then
    return (.moved d none, mem.record actor r.projectId r.operation r.requestKey r.payload (.moved d none))
  else do
    ensure (d.status = if r.target = .acknowledged then .unread else .acknowledged) (.message .invalidTransition none)
    ensure ((d.version : Int) = r.expectedVersion) (.message .versionConflict none)
    let moved := { d with status := r.target, version := d.version + 1 }
    return (.moved moved none, { mem with deliveries := mem.deliveries.set r.deliveryId moved }.record actor r.projectId
      r.operation r.requestKey r.payload (.moved moved none))

/-- `_transition`. -/
def transition (rt : Runtime) (mem : Memory) (actor : String) (request : TransitionRequest) :
    Result (Reply × Memory) := do
  let _ ← dbId rt request.projectId none
  let _ ← dbId rt request.deliveryId none
  ensure (1 ≤ request.expectedVersion) (invalid none)
  let requestKey ← nfcText rt request.requestKey 1 320 none
  let r := { request with requestKey := requestKey }
  match ← mem.recorded actor r.projectId r.operation r.requestKey r.payload with
  | some answer => return (⟨.v2, answer, true⟩, mem)
  | none => do
    mem.project r.projectId
    let d ← orElse ((mem.deliveries.get r.deliveryId).filter (fun d => decide (d.targetProjectId = r.projectId)))
      (.message .unknownDelivery none)
    let (answer, mem) ← mem.transitionNew actor r d
    return (⟨.v2, answer, false⟩, mem)

end Memory

end AItelier.Mail
