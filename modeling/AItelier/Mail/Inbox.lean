import AItelier.Lib.Cursor
import AItelier.Mail.Mailbox

namespace AItelier.Mail

open AItelier.Lib AItelier.State

/-- The filters of a page: what stays the same while a reader follows the cursors. -/
structure InboxFilter where
  projectId : String
  deliveryMode : Option DeliveryMode
  statuses : Option (List DeliveryStatus)
  needsMyAck : Bool
  ackMode : Option AckMode
  protocol : Protocol
  limit : Int

def InboxFilter.extended (q : InboxFilter) : Bool := q.needsMyAck || q.ackMode.isSome

def InboxFilter.schema (q : InboxFilter) : Protocol := if q.extended then .v3 else q.protocol

structure Item where
  letter : Letter
  terms : Option Terms
  delivery : Delivery
  details : Option Details
  deriving DecidableEq, Repr

structure Page where
  projectId : String
  items : List Item
  matchedTotal : Nat
  hasMore : Bool
  nextAfter : Nat
  deriving DecidableEq, Repr

/-- `SELECT COALESCE(MAX(delivery_seq),0)`. -/
def high (m : Mailbox) (projectId : String) : Nat :=
  ((m.deliveries.filter (fun d => decide (d.targetProjectId = projectId))).map Delivery.deliverySeq).foldl max 0

/-- `self.driver_id or "owner"`, the name the statement asks for. -/
def Provider.sqlName (p : Provider) : String := (p.driverId.filter (fun d => d ≠ "")).getD "owner"

/-- The driver whose acknowledgement the details of an item are about. -/
def Provider.detailsName (p : Provider) : Option String :=
  (p.driverId.filter (fun d => d ≠ "")).or (if p.isOwner then some "owner" else none)

/-- The clauses of the statement that select by mode and status. -/
def InboxFilter.selects (q : InboxFilter) (d : Delivery) (x : Message) : Bool :=
  q.ackMode.all (fun a => decide (x.terms.ackMode = a)) &&
  q.deliveryMode.all (fun a => decide (x.letter.deliveryMode = a)) &&
  q.statuses.all (fun s => decide (d.status ∈ s))

/-- The clauses that select what still needs the caller. -/
def sqlNeeds (m : Mailbox) (p : Provider) (d : Delivery) (x : Message) : Bool :=
  !decide (d.deliveryId ∈ m.legacyAcks) &&
  (decide (d.status ≠ .resolved) &&
    !m.acks.any (fun a => decide (a.deliveryId = d.deliveryId ∧ a.driverId = p.sqlName) && a.acked)) &&
  (decide (x.terms.ackMode = .atLeastN) &&
      decide ((m.acks.filter (fun a => decide (a.deliveryId = d.deliveryId) && a.acked)).length < x.terms.ackQuorum) ||
    decide (x.terms.ackMode = .broadcast) &&
      m.acks.any (fun a => decide (a.deliveryId = d.deliveryId ∧ a.driverId = p.sqlName) && a.pending))

/-- The filter over the derived details of an item. -/
def detailsNeeds (p : Provider) (d : Delivery) (x : Details) : Bool :=
  !x.ackedByMe && decide (d.status ≠ .resolved) &&
  (decide (x.ackMode = .broadcast) && p.driverId.any (fun driver => decide (driver ∈ x.pendingDrivers)) ||
    decide (x.ackMode = .atLeastN) && !x.quorumMet)

/-- The deliveries of a project, each joined with its message, in number order. -/
def joined (m : Mailbox) (projectId : String) : List (Delivery × Message) :=
  ((m.deliveries.filter (fun d => decide (d.targetProjectId = projectId))).insertionSort
    (fun a b => a.deliverySeq ≤ b.deliverySeq)).filterMap
    (fun d => (m.message? d.messageId).map (fun x => (d, x)))

/-- The rows of the statement without its limit. -/
def inboxRows (m : Mailbox) (p : Provider) (q : InboxFilter) (after : Nat) : List (Delivery × Message) :=
  (joined m q.projectId).filter (fun r =>
    decide (after < r.1.deliverySeq ∧ r.1.deliverySeq ≤ high m q.projectId) && q.selects r.1 r.2 &&
    (!q.needsMyAck || sqlNeeds m p r.1 r.2))

def itemOf (m : Mailbox) (p : Provider) (v3 : Bool) (r : Delivery × Message) : Item :=
  ⟨r.2.letter, if v3 then some r.2.terms else none, r.1,
    if v3 then some (detailsOf m r.2.terms r.1 p.detailsName) else none⟩

/-- What the reply shows of an item. -/
def Item.exposed (schema : Protocol) (i : Item) : Item :=
  match schema with
  | .v2 => { i with terms := none, details := none }
  | .v3 => i

/-- The page that the rows after a cursor make. -/
def pageAfter (m : Mailbox) (p : Provider) (q : InboxFilter) (after : Nat) : Result Page := do
  let rows := inboxRows m p q after
  let read := (rows.take q.limit.toNat).map (itemOf m p (p.v3 q.protocol q.extended))
  let items := if q.needsMyAck then
      read.filter (fun i => i.details.any (detailsNeeds p i.delivery))
    else read
  let hasMore := decide (items.length < rows.length)
  let nextAfter ← if hasMore then orElse (items.getLast?.map (fun i => i.delivery.deliverySeq)) .indexError
    else pure (max after (high m q.projectId))
  return ⟨q.projectId, items.map (Item.exposed q.schema), rows.length, hasMore, nextAfter⟩

/-- Who may ask for what needs it. -/
def mayAsk (m : Mailbox) (p : Provider) (q : InboxFilter) : Result Unit :=
  if q.needsMyAck then do
    let _ ← acker m p q.projectId
    ensure (p.v3 q.protocol q.extended = true) (.message .unauthorized none)
  else .ok ()

/-- `list_director_messages`. -/
def listDirectorMessages (rt : Runtime) (m : Mailbox) (p : Provider) (q : InboxFilter) (after : Int) :
    Result Page :=
  exposed q.schema do
    let _ ← dbId rt q.projectId none
    ensure (0 ≤ after) (invalid none)
    ensure (1 ≤ q.limit ∧ q.limit ≤ 100) (invalid none)
    ensure (q.statuses.all (fun s => decide (s ≠ [] ∧ s.Nodup)) = true) (invalid none)
    projectOf m q.projectId
    mayAsk m p q
    pageAfter m p q after.toNat

end AItelier.Mail
