import AItelier.Lib.Entries
import AItelier.Lib.Run
import AItelier.Lib.Table
import AItelier.State.Text

namespace AItelier.Render

open AItelier.Lib AItelier.State

inductive OwnerStatus
  | active | ownerLost | released | reconciled
  deriving DecidableEq, Repr

/-- `actor`: the harness process that took the row, or who reconciled it. -/
inductive Actor
  | harness (pid : Nat)
  | named (text : String)
  deriving DecidableEq, Repr

structure OwnerKey where
  ownerId : String
  generation : Nat
  deriving DecidableEq, Repr

/-- A row of `render_owners`. The request it was taken by is not a column: its
`operation_id` need not be its own. -/
structure OwnerRow where
  ownerId : String
  projectId : String
  runId : String
  operationId : String
  generation : Nat
  status : OwnerStatus
  actor : Actor
  startedAt : Int
  heartbeatAt : Int
  endedAt : Option Int
  reason : Option String
  request : Nat
  deriving DecidableEq, Repr

def OwnerRow.key (r : OwnerRow) : OwnerKey := ⟨r.ownerId, r.generation⟩

/-- `status IN ('active','owner_lost')`. -/
def OwnerRow.holds (r : OwnerRow) : Bool := decide (r.status = .active ∨ r.status = .ownerLost)

/-- Where a request stands in `do_POST`. -/
inductive Phase
  | queued                      -- it polls for ownership
  | left                        -- refused, timed out or abandoned before it owned the render
  | owned (o : OwnerKey)        -- it has its row and waits for the process lock
  | locked (o : OwnerKey)       -- and for the effect lock
  | ready (o : OwnerKey)        -- it holds both and checks its caller and its limit
  | rendering (o : OwnerKey)
  | settled (o : OwnerKey)      -- the body is over, or was skipped
  | unlocked (o : OwnerKey)     -- the effect lock is released
  | ended (o : OwnerKey)        -- the process lock too
  | over (o : OwnerKey)
  | dead                        -- its process died
  deriving DecidableEq

def Phase.owner : Phase → Option OwnerKey
  | .owned o | .locked o | .ready o | .rendering o | .settled o | .unlocked o | .ended o | .over o => some o
  | .queued | .left | .dead => none

def Phase.holdsProcess : Phase → Bool
  | .locked _ | .ready _ | .rendering _ | .settled _ | .unlocked _ => true
  | _ => false

def Phase.holdsEffect : Phase → Bool
  | .ready _ | .rendering _ | .settled _ => true
  | _ => false

/-- It owns the render and has not finished with it. -/
def Phase.inHand : Phase → Bool
  | .owned _ | .locked _ | .ready _ | .rendering _ | .settled _ => true
  | _ => false

/-- The durable table, and the process that serves: its requests, its locks, and the
recovery calls that passed their checks but have not written. -/
structure Harness where
  rows : List OwnerRow
  requests : Entries Nat Phase
  processLock : Option Nat
  effectLock : Option Nat
  checked : List OwnerKey
  pid : Nat

def Harness.start (pid : Nat) : Harness := ⟨[], [], none, none, [], pid⟩

namespace Harness

def phase (s : Harness) (id : Nat) (p : Phase) : Harness := { s with requests := s.requests.set id p }

/-- `UPDATE render_owners SET ... WHERE owner_id=? AND generation=? AND status=?`. -/
def update (s : Harness) (o : OwnerKey) (status : OwnerStatus) (f : OwnerRow → OwnerRow) : Harness :=
  { s with rows := modifyWhere (fun r => decide (r.key = o ∧ r.status = status)) f s.rows }

end Harness

/-- `ORDER BY generation DESC LIMIT 1` over the rows in the way. -/
def newestHolder (rows : List OwnerRow) : Option OwnerRow :=
  ((rows.filter OwnerRow.holds).insertionSort (fun a b => b.generation ≤ a.generation)).head?

/-- `COALESCE(MAX(generation), 0) + 1`. -/
def nextGeneration (rows : List OwnerRow) : Nat := (rows.map OwnerRow.generation).foldl max 0 + 1

def RENDER_OWNER_HEARTBEAT_STALE_SEC : Int := 120

/-- `_render_owner_conflict`: whether the holder in the way stops a request at once. -/
def needsReconciliation (now : Int) (r : OwnerRow) : Bool :=
  decide (r.status = .ownerLost) || decide (RENDER_OWNER_HEARTBEAT_STALE_SEC < now - r.heartbeatAt)

structure Claim where
  ownerId : String
  projectId : String
  runId : String
  operationId : String
  now : Int

/-- The row that `_acquire_render_owner_under_fence` inserts. -/
def Claim.row (c : Claim) (generation pid request : Nat) : OwnerRow :=
  ⟨c.ownerId, c.projectId, c.runId, c.operationId, generation, .active, .harness pid, c.now, c.now, none, none, request⟩

/-- One poll of `acquire_render_owner_waiting`, with the deployment fence free. A used
owner id is refused by the primary key. -/
def poll (s : Harness) (id : Nat) (c : Claim) : Harness :=
  match newestHolder s.rows with
  | some r => if needsReconciliation c.now r then s.phase id .left else s
  | none =>
    if c.ownerId ∈ s.rows.map OwnerRow.ownerId then s.phase id .left
    else { s with
      rows := s.rows ++ [c.row (nextGeneration s.rows) s.pid id]
      requests := s.requests.set id (.owned ⟨c.ownerId, nextGeneration s.rows⟩) }

/-- `release_render_owner`, where the table can be written. -/
def releaseRenderOwner (s : Harness) (o : OwnerKey) (written : Bool) (now : Int) (reason : String) : Harness :=
  if written then
    s.update o .active (fun r => { r with status := .released, endedAt := some now, reason := some reason })
  else s

/-- `heartbeat_render_owner`. -/
def heartbeatRenderOwner (s : Harness) (o : OwnerKey) (now : Int) : Harness :=
  s.update o .active (fun r => { r with heartbeatAt := now })

/-- `mark_render_owner_lost`. -/
def markRenderOwnerLost (s : Harness) (o : OwnerKey) (now : Int) (reason : String) : Harness :=
  s.update o .active (fun r => { r with status := .ownerLost, endedAt := some now, reason := some reason })

/-- `os.kill(pid, 0)`. -/
inductive Signal
  | noProcess | notPermitted | delivered
  deriving DecidableEq

/-- The checks of `reconcile_render_owner`: the row is lost, its process is this one or
gone, and the effect lock is free. -/
def mayReconcile (s : Harness) (o : OwnerKey) (actor reason : String) (signal : Nat → Signal) : Bool :=
  decide (strip actor ≠ "" ∧ strip reason ≠ "") &&
  s.rows.any (fun r => decide (r.key = o ∧ r.status = .ownerLost) && match r.actor with
    | .harness pid => decide (pid = s.pid) || decide (signal pid = .noProcess)
    | .named _ => true) &&
  s.effectLock.isNone

/-- Its write, once the effect lock was taken and released. -/
def settleReconcile (s : Harness) (o : OwnerKey) (now : Int) (actor reason : String) : Harness :=
  s.update o .ownerLost (fun r =>
    { r with status := .reconciled, endedAt := some now, actor := .named actor, reason := some reason })

/-- What happens next: a step of a request or of a recovery call, or the death of the
server and its restart under another process id. -/
inductive Op
  | arrive (id : Nat)
  | poll (id : Nat) (c : Claim)
  | giveUp (id : Nat)
  | takeProcessLock (id : Nat)
  | takeEffectLock (id : Nat)
  | failEffectLock (id : Nat) (written : Bool) (now : Int)
  | begin (id : Nat)
  | skip (id : Nat)
  | finish (id : Nat)
  | dropEffectLock (id : Nat)
  | dropProcessLock (id : Nat)
  | release (id : Nat) (written : Bool) (now : Int) (reason : String)
  | heartbeat (o : OwnerKey) (now : Int)
  | markLost (o : OwnerKey) (now : Int) (reason : String)
  | checkReconcile (o : OwnerKey) (actor reason : String) (signal : Nat → Signal)
  | settleReconcile (o : OwnerKey) (now : Int) (actor reason : String)
  | restart (pid : Nat)

def Phase.afterDeath : Phase → Phase
  | .left => .left
  | .over o => .over o
  | _ => .dead

def next (s : Harness) : Op → Harness
  | .arrive id => if (s.requests.get id).isNone then s.phase id .queued else s
  | .poll id c => if s.requests.get id = some .queued then poll s id c else s
  | .giveUp id => if s.requests.get id = some .queued then s.phase id .left else s
  | .takeProcessLock id =>
    match s.requests.get id, s.processLock with
    | some (.owned o), none => { s.phase id (.locked o) with processLock := some id }
    | _, _ => s
  | .takeEffectLock id =>
    match s.requests.get id, s.effectLock with
    | some (.locked o), none => { s.phase id (.ready o) with effectLock := some id }
    | _, _ => s
  | .failEffectLock id written now =>
    match s.requests.get id with
    | some (.locked o) => releaseRenderOwner { s.phase id (.over o) with processLock := none } o written now
        "render effect lock acquisition failed"
    | _ => s
  | .begin id =>
    match s.requests.get id with
    | some (.ready o) => s.phase id (.rendering o)
    | _ => s
  | .skip id =>
    match s.requests.get id with
    | some (.ready o) => s.phase id (.settled o)
    | _ => s
  | .finish id =>
    match s.requests.get id with
    | some (.rendering o) => s.phase id (.settled o)
    | _ => s
  | .dropEffectLock id =>
    match s.requests.get id with
    | some (.settled o) => { s.phase id (.unlocked o) with effectLock := none }
    | _ => s
  | .dropProcessLock id =>
    match s.requests.get id with
    | some (.unlocked o) => { s.phase id (.ended o) with processLock := none }
    | _ => s
  | .release id written now reason =>
    match s.requests.get id with
    | some (.ended o) => releaseRenderOwner (s.phase id (.over o)) o written now reason
    | _ => s
  | .heartbeat o now => heartbeatRenderOwner s o now
  | .markLost o now reason => markRenderOwnerLost s o now reason
  | .checkReconcile o actor reason signal =>
    if mayReconcile s o actor reason signal then { s with checked := o :: s.checked } else s
  | .settleReconcile o now actor reason =>
    if o ∈ s.checked then settleReconcile { s with checked := s.checked.erase o } o now actor reason else s
  | .restart pid => { s with
      requests := s.requests.map (fun e => (e.1, e.2.afterDeath)), processLock := none, effectLock := none,
      checked := [], pid := pid }

def served (pid : Nat) (ops : List Op) : Harness := run next (.start pid) ops

end AItelier.Render
