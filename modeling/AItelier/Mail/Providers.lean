import AItelier.Mail.Memory
import Mathlib.Algebra.Group.Int.Defs

namespace AItelier.Mail

open AItelier.Lib AItelier.State

/-- The ids and the time that a call draws. Ids are never drawn twice. -/
structure Supply where
  id : Nat → Nat → String
  clock : Nat → Stamp
  distinct : ∀ a b c d, id a b = id c d → a = c ∧ b = d
  nonempty : ∀ a b, id a b ≠ ""

def optionalText? : Value → Option (Option String)
  | .null => some none
  | .str s => some (some s)
  | _ => none

def bool? : Value → Option Bool
  | .bool b => some b
  | _ => none

def int? : Value → Option Int
  | .int i => some i
  | _ => none

def mode? : Value → Option DeliveryMode
  | .str s => if s = "transient" then some .transient else if s = "standing" then some .standing else none
  | _ => none

def optionalMode? : Value → Option (Option DeliveryMode)
  | .null => some none
  | v => (mode? v).map some

def status? : Value → Option DeliveryStatus
  | .str s =>
    if s = "unread" then some .unread else if s = "acknowledged" then some .acknowledged
    else if s = "resolved" then some .resolved else none
  | _ => none

def statuses? : Value → Option (Option (List DeliveryStatus))
  | .null => some none
  | .arr items => (items.mapM status?).map some
  | _ => none

structure SendArgs where
  senderProjectId : Value
  directorIdentity : Value
  requestKey : Value
  subject : Value
  body : Value
  targetProjectId : Value
  broadcast : Value
  replyToDeliveryId : Value
  deliveryMode : Value

/-- A send whose arguments have their types: what has another type is an invalid
request for both providers. -/
def SendArgs.read (a : SendArgs) (supply : Supply) (n : Nat) : Option SendRequest := do
  let sender ← a.senderProjectId.text?
  let identity ← a.directorIdentity.text?
  let requestKey ← a.requestKey.text?
  let subject ← a.subject.text?
  let body ← a.body.text?
  let target ← optionalText? a.targetProjectId
  let broadcast ← bool? a.broadcast
  let reply ← optionalText? a.replyToDeliveryId
  let mode ← mode? a.deliveryMode
  return ⟨sender, identity, requestKey, subject, body, target, broadcast, reply, mode, none, none, .v2,
    supply.id n 0, fun i => supply.id n (i + 1), supply.clock n⟩

structure ListArgs where
  projectId : Value
  after : Value
  limit : Value
  deliveryMode : Value
  statuses : Value

def ListArgs.read (a : ListArgs) : Option (InboxFilter × Int) := do
  let project ← a.projectId.text?
  let after ← int? a.after
  let limit ← int? a.limit
  let mode ← optionalMode? a.deliveryMode
  let statuses ← statuses? a.statuses
  return (⟨project, mode, statuses, false, none, .v2, limit⟩, after)

structure TransitionArgs where
  projectId : Value
  deliveryId : Value
  expectedVersion : Value
  requestKey : Value

def TransitionArgs.read (a : TransitionArgs) (operation : Operation) (now : Stamp) : Option TransitionRequest := do
  let project ← a.projectId.text?
  let delivery ← a.deliveryId.text?
  let version ← int? a.expectedVersion
  let requestKey ← a.requestKey.text?
  return ⟨operation, project, delivery, version, requestKey, .v2, now⟩

/-- One of the four v2 actions. -/
inductive Action
  | send (args : SendArgs)
  | list (args : ListArgs)
  | acknowledge (args : TransitionArgs)
  | resolve (args : TransitionArgs)

structure Call where
  actor : String
  action : Action

/-- Who calls: an actor without a driver id, who speaks v2. -/
def Call.provider (c : Call) : Provider := ⟨c.actor, none, false⟩

/-- What a caller sees: a result, an error code, or an exception of another kind. -/
inductive Outcome
  | replied (reply : Reply)
  | listed (page : Page)
  | refused (code : ErrorCode)
  | raised
  deriving DecidableEq, Repr

def MailError.outcome : MailError → Outcome
  | .message code _ => .refused code
  | _ => .raised

/-- A call that writes: refused, it changes nothing. -/
def settle {σ : Type} (s : σ) : Result (Reply × σ) → Outcome × σ
  | .ok (reply, s') => (.replied reply, s')
  | .error e => (e.outcome, s)

/-- The largest integer that a statement can be given. -/
def sqliteMax : Int := 2 ^ 63 - 1

/-- What `json.dumps` can write: an integer of more than 4300 digits is a
`ValueError`. -/
def writable (i : Int) : Bool := decide (i.natAbs < 10 ^ 4300)

/-- A transition whose payload is written before the transaction begins. -/
def sqliteTransition (rt : Runtime) (m : Mailbox) (c : Call) (r : TransitionRequest) : Outcome × Mailbox :=
  if writable r.expectedVersion then settle m (transition rt m c.provider r)
  else match transition rt m c.provider r with
    | .error (.message .invalidRequest _) => (.refused .invalidRequest, m)
    | _ => (.raised, m)

/-- A page that was read: its cursor is bound to the statement, or raises `OverflowError`. -/
def readPage (after : Int) : Result Page → Outcome
  | .ok page => if after ≤ sqliteMax then .listed page else .raised
  | .error e => e.outcome

/-- A call on the stored mailbox, the `n`-th of the run. -/
def sqliteCall (rt : Runtime) (supply : Supply) (n : Nat) (m : Mailbox) (c : Call) : Outcome × Mailbox :=
  match c.action with
  | .send args =>
    match args.read supply n with
    | some r => settle m (sendDirectorMessage rt m c.provider r)
    | none => (.refused .invalidRequest, m)
  | .list args =>
    match args.read with
    | some (q, after) => (readPage after (listDirectorMessages rt m c.provider q after), m)
    | none => (.refused .invalidRequest, m)
  | .acknowledge args =>
    match args.read .acknowledge (supply.clock n) with
    | some r => sqliteTransition rt m c r
    | none => (.refused .invalidRequest, m)
  | .resolve args =>
    match args.read .resolve (supply.clock n) with
    | some r => sqliteTransition rt m c r
    | none => (.refused .invalidRequest, m)

/-- A page of the model, whose integers have no bound. -/
def modelPage : Result Page → Outcome
  | .ok page => .listed page
  | .error e => e.outcome

/-- A transition whose payload is written to compare it with a recorded one, and to
record it. -/
def memoryTransition (rt : Runtime) (mem : Memory) (c : Call) (r : TransitionRequest) : Outcome × Memory :=
  if writable r.expectedVersion then settle mem (mem.transition rt c.actor r)
  else match mem.transition rt c.actor r with
    | .ok _ | .error (.message .idempotencyConflict _) => (.raised, mem)
    | .error e => (e.outcome, mem)

/-- A call on the reference model, the `n`-th of the run. -/
def memoryCall (rt : Runtime) (supply : Supply) (n : Nat) (mem : Memory) (c : Call) : Outcome × Memory :=
  match c.action with
  | .send args =>
    match args.read supply n with
    | some r => settle mem (mem.sendDirectorMessage rt c.actor r)
    | none => (.refused .invalidRequest, mem)
  | .list args =>
    match args.read with
    | some (q, after) => (modelPage (mem.listDirectorMessages rt q after), mem)
    | none => (.refused .invalidRequest, mem)
  | .acknowledge args =>
    match args.read .acknowledge (supply.clock n) with
    | some r => memoryTransition rt mem c r
    | none => (.refused .invalidRequest, mem)
  | .resolve args =>
    match args.read .resolve (supply.clock n) with
    | some r => memoryTransition rt mem c r
    | none => (.refused .invalidRequest, mem)

/-- Both providers, after the same calls. -/
structure Both where
  calls : Nat
  sqlite : Mailbox
  memory : Memory

/-- Both providers over the same projects, before any mail. -/
def Both.start (projects : List String) (drivers : List Driver) (members : List Member) (events : List Event) : Both :=
  ⟨0, ⟨projects, drivers, members, events, [], [], [], [], [], []⟩, .start projects⟩

def Both.next (rt : Runtime) (supply : Supply) (s : Both) (c : Call) : Both :=
  ⟨s.calls + 1, (sqliteCall rt supply s.calls s.sqlite c).2, (memoryCall rt supply s.calls s.memory c).2⟩

end AItelier.Mail
