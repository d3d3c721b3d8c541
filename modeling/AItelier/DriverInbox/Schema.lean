import AItelier.Lib.Base64
import AItelier.Lib.JsonText
import AItelier.Lib.Keyset
import AItelier.State.Schema
import Mathlib.Data.Prod.Lex

namespace AItelier.DriverInbox

open AItelier.Lib
open AItelier.State (DriverStatus Membership ProjectDriver isKey isKeyChar quote truthy)

/-- The kinds the schema allows. -/
inductive Kind
  | note | request | reviewRequest | handoffOffer | handoffReply | leaseNotice | takeoverNotice | subagentOrphaned
  deriving DecidableEq, Repr

inductive DeliveryMode
  | transient | standing
  deriving DecidableEq, Repr

inductive Status
  | unread | acknowledged | resolved
  deriving DecidableEq, Repr

inductive Audience
  | driver | user
  deriving DecidableEq, Repr

inductive Operation
  | send | sendUser | sendUserConversation | acknowledged | resolved
  deriving DecidableEq, Repr

def Kind.all : List Kind :=
  [.handoffOffer, .handoffReply, .leaseNotice, .note, .request, .reviewRequest, .subagentOrphaned, .takeoverNotice]

def Kind.text : Kind → String
  | .note => "note" | .request => "request" | .reviewRequest => "review_request"
  | .handoffOffer => "handoff_offer" | .handoffReply => "handoff_reply" | .leaseNotice => "lease_notice"
  | .takeoverNotice => "takeover_notice" | .subagentOrphaned => "subagent_orphaned"

/-- `KINDS`, and `SYSTEM_KINDS` for the system's own messages. -/
def Kind.allowed (system : Bool) : Kind → Bool
  | .note | .request | .reviewRequest | .handoffReply => !system
  | .handoffOffer => true
  | .leaseNotice | .takeoverNotice | .subagentOrphaned => system

def Kind.ofText (s : String) : Option Kind := Kind.all.find? (fun k => decide (k.text = s))

def DeliveryMode.text : DeliveryMode → String
  | .transient => "transient" | .standing => "standing"

def DeliveryMode.ofText (s : String) : Option DeliveryMode :=
  [DeliveryMode.transient, .standing].find? (fun m => decide (m.text = s))

/-- What a call raises: a `StateGraphError`, a `StateNotFound`, the refusal of an
untrusted reader, a constraint of the schema or an `IndexError`. -/
inductive InboxError
  | graph (message : String)
  | notFound (message : String)
  | projectPrivate
  | integrity (constraint : String)
  | indexError
  deriving DecidableEq, Repr

abbrev Result := Except InboxError

/-- What `uuid4` and `now` write: short text without quotes or blanks. -/
@[ext] structure Token where
  text : String
  nonempty : text ≠ ""
  short : text.toList.length ≤ 40
  plain : ∀ c ∈ text.toList, isKeyChar c ∨ c = ':' ∨ c = '+'

instance : DecidableEq Token := fun a b => decidable_of_iff (a.text = b.text) Token.ext_iff.symm

structure Segment where
  kind : String
  text : String
  deriving DecidableEq, Repr

/-- A row of `driver_inbox_messages`. -/
structure Message where
  messageId : Token
  threadId : String
  senderDriverId : Option String
  projectId : Option String
  kind : Kind
  deliveryMode : DeliveryMode
  subject : String
  body : String
  refs : List (String × Json)
  replyToMessageId : Option String
  createdAt : Token
  audience : Audience
  fromUser : Bool  -- `channel='user'`
  segments : List Segment

/-- A row of `driver_inbox_deliveries`. -/
structure Delivery where
  deliveryId : Token
  messageId : Token
  targetDriverId : String
  seq : Nat
  status : Status
  version : Nat
  deriving DecidableEq

/-- What a call answers, and what is recorded of it. -/
inductive Answer
  | sent (messageId : Token) (deliveries : List Delivery)
  | toUser (messageId : Token) (projectId : String) (senderDriverId : Option String) (createdAt : Token)
  | fromUser (messageId : Token) (projectId : String) (createdAt : Token) (replyToMessageId : Option String)
      (deliveries : List Delivery)
  | moved (delivery : Delivery)

/-- A row of `driver_inbox_requests`. -/
structure Request where
  actor : String
  operation : Operation
  requestKey : String
  payload : Json
  result : Answer

/-- A row of `driver_user_conversation_reads`. -/
structure ReadMarker where
  projectId : String
  readCreatedAt : String
  readMessageId : String
  updatedAt : Token

/-- The tables of the inbox. -/
structure Inbox where
  messages : List Message
  deliveries : List Delivery
  requests : List Request
  reads : List ReadMarker

def Inbox.empty : Inbox := ⟨[], [], [], []⟩

def Inbox.message? (b : Inbox) (id : Token) : Option Message := lookup Message.messageId b.messages id

structure Driver where
  driverId : String
  status : DriverStatus
  isAdmin : Bool
  deriving DecidableEq, Repr

/-- The rows that other parts of the store keep: each call finds them as they are
then. -/
structure World where
  projects : List String
  drivers : List Driver
  members : List ProjectDriver
  nodes : List (String × String)
  tables : List (String × List String)  -- the ids in the tables that refs may name

def World.driver? (w : World) (id : String) : Option Driver := lookup Driver.driverId w.drivers id

/-- Who calls. -/
structure Caller where
  actor : String
  driverId : Option String
  trusted : Bool  -- `project_read_trusted`
  deriving DecidableEq, Repr

def Caller.isOwner (c : Caller) : Bool := decide (c.actor.toList.take 6 = "owner:".toList)

/-- What the runtime supplies: `repr` of a text, and how `json.loads` reads bytes that
are not plain ASCII. -/
structure Runtime where
  repr : String → String
  otherText : List Nat → Option String

/-- `_project`. -/
def projectOf (w : World) (projectId : String) : Result Unit := do
  ensure (isKey projectId) (.graph "key must be 1-128 letters/digits/._-, starting with a letter or digit")
  ensure (projectId ∈ w.projects) (.notFound ("state project " ++ quote projectId ++ " not found"))

/-- `_node`. -/
def nodeOf (w : World) (projectId nodeKey : String) : Result Unit := do
  ensure (isKey projectId ∧ isKey nodeKey)
    (.graph "key must be 1-128 letters/digits/._-, starting with a letter or digit")
  ensure ((projectId, nodeKey) ∈ w.nodes) (.notFound ("state node " ++ projectId ++ "/" ++ nodeKey ++ " not found"))

/-- `_driver`. -/
def driverOf (w : World) (driverId : Option String) : Result Driver :=
  orElse (driverId.bind w.driver?) (.graph "unknown_driver: no driver with this driver_id is registered")

/-- `_authorize`. -/
def authorize (w : World) (c : Caller) (driverId : Option String) (write : Bool) (breakGlass : Option String) :
    Result Unit := do
  ensure c.trusted (.graph "not_inbox_recipient")
  let caller := c.driverId.bind w.driver?
  let active := caller.any (fun d => decide (d.status = .active))
  ensure ((c.driverId = driverId ∧ truthy c.driverId ∧ active) ∨ (c.isOwner ∧ (write = false ∨ truthy breakGlass)) ∨
    (write ∧ truthy breakGlass ∧ active ∧ caller.any Driver.isAdmin)) (.graph "not_inbox_recipient")

/-- A row of the user's conversation of a project: `audience='user' OR
channel='user'`. -/
def Message.spoken (projectId : String) (m : Message) : Bool :=
  decide (m.projectId = some projectId) && (decide (m.audience = .user) || m.fromUser)

/-- Where a row stands in its conversation: `(created_at, message_id)`. -/
def Message.position (m : Message) : String ×ₗ String := toLex (m.createdAt.text, m.messageId.text)

end AItelier.DriverInbox
