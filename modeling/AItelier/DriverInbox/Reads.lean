import AItelier.DriverInbox.Sends
import AItelier.Lib.Cursor

namespace AItelier.DriverInbox

open AItelier.Lib
open AItelier.State (Membership ProjectDriver quote truthy)

section Cursor

/-- `encode_conversation_cursor`: every character of a token, and of its JSON, is one
byte. -/
def encodeConversationCursor (createdAt messageId : Token) : String :=
  String.ofList (Base64.encode ((canonical (.arr [.str createdAt.text, .str messageId.text])).toList.map Char.toNat))

/-- The text that `json.loads` reads from bytes. -/
def bytesText (rt : Runtime) (bytes : List Nat) : Option String :=
  if bytes.all (fun b => decide (0 < b ∧ b < 128)) then some (String.ofList (bytes.map Char.ofNat))
  else rt.otherText bytes

/-- `decode_conversation_cursor`. -/
def decodeConversationCursor (rt : Runtime) (cursor : String) : Result (String × String) := do
  ensure (cursor ≠ "" ∧ cursor.toList.length ≤ 1000) (.graph "invalid_cursor")
  ensure (cursor.toList.all (fun c => decide (c.toNat < 128))) (.graph "invalid_cursor")
  let bytes ← orElse (Base64.decode cursor.toList) (.graph "invalid_cursor")
  let text ← orElse (bytesText rt bytes) (.graph "invalid_cursor")
  match Json.loads text with
  | some (.arr [.str createdAt, .str messageId]) => do
    ensure (createdAt ≠ "" ∧ messageId ≠ "") (.graph "invalid_cursor")
    return (createdAt, messageId)
  | _ => .error (.graph "invalid_cursor")

end Cursor

section Driver

/-- A delivery as a page shows it, joined with its message. -/
structure InboxRow where
  delivery : Delivery
  threadId : String
  senderDriverId : Option String
  projectId : Option String
  kind : Kind
  deliveryMode : DeliveryMode
  subject : String
  body : String
  refs : List (String × Json)

def InboxRow.seq (r : InboxRow) : Nat := r.delivery.seq

def rowOf (d : Delivery) (m : Message) : InboxRow :=
  ⟨d, m.threadId, m.senderDriverId, m.projectId, m.kind, m.deliveryMode, m.subject, m.body, m.refs⟩

structure InboxPage where
  driverId : String
  messages : List InboxRow
  nextAfter : Nat
  truncated : Bool

/-- The deliveries to a driver in number order, each joined with its message. -/
def inboxRows (b : Inbox) (driverId : String) : List InboxRow :=
  ((b.deliveries.filter (fun d => decide (d.targetDriverId = driverId))).insertionSort
    (fun x y => x.seq ≤ y.seq)).filterMap (fun d => (b.message? d.messageId).map (rowOf d))

/-- `next_after`: the last row's number where rows are left over, else the largest
number. -/
def nextAfter (rows : List InboxRow) (limit after high : Nat) : Result Nat :=
  if limit < rows.length then orElse ((rows.take limit).getLast?.map InboxRow.seq) .indexError
  else .ok (max after high)

structure ListRequest where
  driverId : Option String
  limit : Int

/-- `list_driver_messages`. -/
def listDriverMessages (w : World) (c : Caller) (b : Inbox) (r : ListRequest) (after : Int) : Result InboxPage := do
  ensure c.trusted .projectPrivate
  let name := if truthy r.driverId then r.driverId else c.driverId
  authorize w c name false none
  ensure (0 ≤ after ∧ 1 ≤ r.limit ∧ r.limit ≤ 100) (.graph "invalid_request")
  let driver ← driverOf w name
  let rows := ((inboxRows b driver.driverId).filter (fun x => decide (after.toNat < x.seq))).take (r.limit.toNat + 1)
  let next ← nextAfter rows r.limit.toNat after.toNat (high b driver.driverId)
  return ⟨driver.driverId, rows.take r.limit.toNat, next, decide (r.limit.toNat < rows.length)⟩

end Driver

section Conversation

def Inbox.marker? (b : Inbox) (projectId : String) : Option ReadMarker := lookup ReadMarker.projectId b.reads projectId

/-- Where a marker stands: `(read_created_at, read_message_id)`. -/
def ReadMarker.position (r : ReadMarker) : String ×ₗ String := toLex (r.readCreatedAt, r.readMessageId)

/-- `_unread`: the rows for the user that no marker covers. -/
def unread (b : Inbox) (projectId : String) : Nat :=
  b.messages.countP (fun m => decide (m.audience = .user ∧ m.projectId = some projectId) &&
    match b.marker? projectId with
    | none => true
    | some r => decide (r.readCreatedAt < m.createdAt.text ∨
        (m.createdAt.text = r.readCreatedAt ∧ r.readMessageId < m.messageId.text)))

/-- A row as a page of the conversation shows it. -/
structure SpokenRow where
  messageId : Token
  threadId : String
  projectId : Option String
  senderKind : Audience  -- `sender_kind`: who spoke
  senderDriverId : Option String
  subject : String
  body : String
  refs : List (String × Json)
  segments : List Segment
  replyToMessageId : Option String
  createdAt : Token

def Message.shown (m : Message) : SpokenRow :=
  ⟨m.messageId, m.threadId, m.projectId, if m.audience = .user then .driver else .user, m.senderDriverId, m.subject,
    m.body, m.refs, m.segments, m.replyToMessageId, m.createdAt⟩

structure ConversationPage where
  projectId : String
  messages : List SpokenRow
  hasMore : Bool
  nextCursor : Option String
  matchedTotal : Nat
  unreadCount : Nat
  readUpto : Option (String × String)

/-- The rows of a conversation, newest first: `ORDER BY created_at DESC, message_id
DESC`. -/
def conversationRows (b : Inbox) (projectId : String) : List Message :=
  (b.messages.filter (Message.spoken projectId)).insertionSort (fun x y => y.position ≤ x.position)

/-- The bound of a page: strictly older than a cursor's pair. -/
def olderThan (cursor : String × String) (m : Message) : Bool :=
  decide (m.createdAt.text < cursor.1 ∨ (m.createdAt.text = cursor.1 ∧ m.messageId.text < cursor.2))

/-- `next_cursor`: the last row's place where rows are left over. -/
def nextCursor (rows : List Message) (limit : Nat) : Result (Option String) :=
  if limit < rows.length then
    orElse ((rows.take limit).getLast?.map (fun m => some (encodeConversationCursor m.createdAt m.messageId)))
      .indexError
  else .ok none

/-- `list_user_conversation`. -/
def listUserConversation (rt : Runtime) (w : World) (c : Caller) (b : Inbox) (projectId : String) (limit : Int)
    (cursor : Option String) : Result ConversationPage := do
  ensure c.trusted .projectPrivate
  ensure (1 ≤ limit ∧ limit ≤ 200) (.graph "invalid_request")
  let after ← cursor.mapM (decodeConversationCursor rt)
  projectOf w projectId
  let rows := ((conversationRows b projectId).filter (fun m => after.all (fun p => olderThan p m))).take
    (limit.toNat + 1)
  let next ← nextCursor rows limit.toNat
  return ⟨projectId, (rows.take limit.toNat).map Message.shown, decide (limit.toNat < rows.length), next,
    b.messages.countP (Message.spoken projectId),
    unread b projectId, (b.marker? projectId).map (fun r => (r.readMessageId, r.readCreatedAt))⟩

structure MarkAnswer where
  projectId : String
  advanced : Bool
  readUptoMessageId : String
  readUptoCreatedAt : String
  unreadCount : Nat

/-- The marker is moved only forward. -/
def advances (marker : Option ReadMarker) (createdAt messageId : String) : Bool :=
  match marker with
  | none => true
  | some r => decide (r.readCreatedAt < createdAt ∨ (createdAt = r.readCreatedAt ∧ r.readMessageId < messageId))

/-- `mark_user_conversation_read`. -/
def markUserConversationRead (w : World) (c : Caller) (b : Inbox) (projectId messageId : String) (now : Token) :
    Result (MarkAnswer × Inbox) := do
  ensure (messageId ≠ "") (.graph "invalid_request")
  userIdentity c
  projectOf w projectId
  let target ← orElse (b.messages.find? (fun m => decide (m.messageId.text = messageId) && m.spoken projectId))
    (.graph "unknown_message")
  let advanced := advances (b.marker? projectId) target.createdAt.text messageId
  let b := if advanced then
      { b with reads := upsert ReadMarker.projectId b.reads ⟨projectId, target.createdAt.text, messageId, now⟩ }
    else b
  let marker ← orElse (b.marker? projectId) .indexError
  return (⟨projectId, advanced, marker.readMessageId, marker.readCreatedAt, unread b projectId⟩, b)

/-- `user_conversation_unread`: the projects that the caller is shown, each with its
count. -/
def userConversationUnread (w : World) (c : Caller) (b : Inbox) (projectId : Option String) :
    Result (List (String × Nat)) := do
  ensure c.trusted .projectPrivate
  let spokenTo := (b.messages.filter (fun m => decide (m.audience = .user))).filterMap Message.projectId
  match projectId with
  | some project => do
    projectOf w project
    return [(project, unread b project)]
  | none => do
    let shown := spokenTo.dedup.filter (fun p => !truthy c.driverId ||
      w.members.any (fun d => decide (d.projectId = p ∧ some d.driverId = c.driverId ∧ d.status = .member)))
    return shown.map (fun p => (p, unread b p))

end Conversation

section Calls

/-- What writes to the tables: the calls of the inbox, each with the rows of the rest of
the store as it finds them, and the transactions that deliver notices. -/
inductive Op
  | send (w : World) (c : Caller) (r : SendRequest)
  | sendUser (w : World) (c : Caller) (r : UserMessageRequest)
  | sendUserConversation (w : World) (c : Caller) (r : ConversationRequest)
  | transition (w : World) (c : Caller) (r : TransitionRequest)
  | markRead (w : World) (c : Caller) (projectId messageId : String) (now : Token)
  | notices (w : World) (l : List Notice) (commits : Bool)

def stepOp (rt : Runtime) (b : Inbox) : Op → Result Inbox
  | .send w c r => (sendDriverMessage rt w c b r).map Prod.snd
  | .sendUser w c r => (sendUserMessage rt w c b r).map Prod.snd
  | .sendUserConversation w c r => (sendUserConversationMessage w c b r).map Prod.snd
  | .transition w c r => (transition w c b r).map Prod.snd
  | .markRead w c projectId messageId now => (markUserConversationRead w c b projectId messageId now).map Prod.snd
  | .notices w l commits => do
    let b' ← l.foldlM (deliverNotice w) b
    return if commits then b' else b

/-- A call that raises is rolled back. -/
def next (rt : Runtime) (b : Inbox) (op : Op) : Inbox :=
  match stepOp rt b op with
  | .ok b' => b'
  | .error _ => b

/-- The inbox after some calls. -/
def after (rt : Runtime) (ops : List Op) : Inbox := run (next rt) .empty ops

end Calls

end AItelier.DriverInbox
