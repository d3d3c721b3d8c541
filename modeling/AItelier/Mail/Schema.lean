import AItelier.State.Schema

namespace AItelier.Mail

open AItelier.Lib AItelier.State

inductive Protocol
  | v2 | v3
  deriving DecidableEq, Repr

inductive DeliveryMode
  | transient | standing
  deriving DecidableEq, Repr

inductive AckMode
  | atLeastN | broadcast
  deriving DecidableEq, Repr

inductive DeliveryStatus
  | unread | acknowledged | resolved
  deriving DecidableEq, Repr

inductive Operation
  | send | acknowledge | resolve
  deriving DecidableEq, Repr

def DeliveryMode.text : DeliveryMode → String
  | .transient => "transient" | .standing => "standing"

def AckMode.text : AckMode → String
  | .atLeastN => "at_least_n" | .broadcast => "broadcast"

/-- `V3_ERROR_CODES`. -/
inductive ErrorCode
  | invalidRequest | unauthorized | unknownProject | unknownDelivery | idempotencyConflict
  | invalidTransition | versionConflict | recipientLimit | noRecipients
  | useDriverInbox | ackQuorumUnreachable
  deriving DecidableEq, Repr

/-- `ERROR_CODES`, the closed enumeration of the v2 wire. -/
def ErrorCode.v2 : ErrorCode → Bool
  | .useDriverInbox | .ackQuorumUnreachable => false
  | _ => true

/-- What a call raises: a protocol error, a registry error, a constraint of the
schema, or a Python exception that nothing catches. -/
inductive MailError
  | message (code : ErrorCode) (text : Option String)
  | driver (text : String)
  | driverConflict (text : String)
  | integrity (constraint : String)
  | indexError
  deriving DecidableEq, Repr

abbrev Result := Except MailError

/-- The columns of a message that `_row_message` shows. -/
structure Letter where
  messageId : String
  threadId : String
  senderProjectId : String
  directorIdentity : String
  actor : String
  subject : String
  body : String
  createdAt : Stamp
  replyToDeliveryId : Option String
  deliveryMode : DeliveryMode
  deriving DecidableEq, Repr

/-- The columns that the v2 wire does not show. -/
structure Terms where
  senderDriverId : Option String
  ackMode : AckMode
  ackQuorum : Nat
  deriving DecidableEq, Repr

structure Message where
  letter : Letter
  terms : Terms
  deriving DecidableEq, Repr

def Message.messageId (m : Message) : String := m.letter.messageId

structure Delivery where
  deliveryId : String
  messageId : String
  targetProjectId : String
  deliverySeq : Nat
  status : DeliveryStatus
  version : Nat
  deriving DecidableEq, Repr

structure Sequence where
  projectId : String
  nextSeq : Nat
  deriving DecidableEq, Repr

/-- A row of `state_director_delivery_acks`: a required driver, an
acknowledgement, or both. -/
structure Ack where
  deliveryId : String
  driverId : String
  required : Bool
  ackedAt : Option Stamp
  ackEventSeq : Option Nat
  removedAt : Option Stamp
  deriving DecidableEq, Repr

def Ack.id (a : Ack) : String × String := (a.deliveryId, a.driverId)

/-- `details`. -/
structure Details where
  ackMode : AckMode
  ackQuorum : Nat
  acks : List (String × Option Stamp)
  pendingDrivers : List String
  ackedByMe : Bool
  legacyAck : Bool
  quorumMet : Bool
  ackQuorumUnreachable : Bool
  deriving DecidableEq, Repr

/-- What a send or a transition answers, and what is recorded of it. -/
inductive Answer
  | sent (letter : Letter) (terms : Option Terms) (deliveries : List Delivery)
  | moved (delivery : Delivery) (details : Option Details)
  deriving DecidableEq, Repr

structure Idempotency where
  actor : String
  scopeProjectId : String
  operation : Operation
  requestKey : String
  payload : Json
  result : Answer

structure Member where
  projectId : String
  driverId : String
  status : State.Membership
  revision : Nat
  actor : String
  deriving DecidableEq, Repr

/-- The mailbox tables, with the project, driver, membership and event rows that
they stand next to. -/
structure Mailbox where
  projects : List String
  drivers : List Driver
  members : List Member
  events : List Event
  messages : List Message
  deliveries : List Delivery
  sequences : List Sequence
  idempotency : List Idempotency
  acks : List Ack
  legacyAcks : List String

namespace Mailbox

def message? (m : Mailbox) (id : String) : Option Message := lookup Message.messageId m.messages id

def delivery? (m : Mailbox) (id : String) : Option Delivery := lookup Delivery.deliveryId m.deliveries id

def ack? (m : Mailbox) (delivery driver : String) : Option Ack := lookup Ack.id m.acks (delivery, driver)

def sequence? (m : Mailbox) (project : String) : Option Sequence :=
  lookup Sequence.projectId m.sequences project

def event (m : Mailbox) (projectId eventType : String) (payload : List (String × Json)) : Mailbox :=
  { m with events := m.events ++ [⟨projectId, none, eventType, .obj payload⟩] }

def setDelivery (m : Mailbox) (id : String) (f : Delivery → Delivery) : Mailbox :=
  { m with deliveries := modifyWhere (fun d => decide (d.deliveryId = id)) f m.deliveries }

def setAck (m : Mailbox) (delivery driver : String) (f : Ack → Ack) : Mailbox :=
  { m with acks := modifyWhere (fun a => decide (a.id = (delivery, driver))) f m.acks }

end Mailbox

/-- Who calls: the authenticated actor, its driver if any, and whether an earlier
call made this provider speak v3. -/
structure Provider where
  actor : String
  driverId : Option String
  spokeV3 : Bool
  deriving DecidableEq, Repr

def Provider.isOwner (p : Provider) : Bool :=
  decide (p.actor.toList.take 6 = "owner:".toList)

/-- `self.v3` once `_set_reply_schema` has run for this call. -/
def Provider.v3 (p : Provider) (protocol : Protocol) (extended : Bool) : Bool :=
  truthy p.driverId || p.isOwner || p.spokeV3 || decide (protocol = .v3) || extended

/-- What the runtime supplies: Unicode NFC and the redactor of summaries. -/
structure Runtime where
  nfc : String → String
  redact : String → String

end AItelier.Mail
