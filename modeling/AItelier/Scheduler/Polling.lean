import AItelier.Lib.Entries
import AItelier.Lib.Run
import Mathlib.Data.List.Sort
import Mathlib.Data.Char
import Mathlib.Data.List.Lex

namespace AItelier.Scheduler

open AItelier.Lib

/-- The statuses of engine runs that are asked for. -/
inductive RunStatus
  | running | paused | completed | failed
  deriving DecidableEq, Repr

/-- What `list_runs` tells of a run of the engine. -/
structure EngineRun where
  projectId : Option String
  graphName : String

/-- A row of `runs`, one for each project. -/
structure ProjectRow where
  projectId : String
  configName : String
  status : String
  priority : Option Int
  ownerEmail : Option String
  metaState : Option String
  createdAt : Option String
  updatedAt : Option String
  deriving DecidableEq

structure TaskRow where
  projectId : String
  status : String

/-- What a poll reads: the runs of the engine by status, the configs whose runs the
scheduler owns, and the tables. The rows stand as the database scans them. -/
structure Listing where
  listRuns : RunStatus → List EngineRun
  ownedConfigs : List String
  rows : List ProjectRow
  briefs : List (String × Option String)
  tasks : List TaskRow
  keyed : (rows.map ProjectRow.projectId).Nodup

inductive Poller
  | main
  | demo
  | owner (email : String)
  deriving DecidableEq

def Poller.fifo : Poller → Bool
  | .demo => true
  | _ => false

/-- `if owner_email:`. -/
def Poller.scope : Poller → Option String
  | .owner email => if email = "" then none else some email
  | _ => none

/-- The owner a dispatched tick is recorded under. -/
def Poller.recorded : Poller → Option String
  | .owner email => some email
  | _ => none

namespace Listing

/-- The projects with a run of an owned config in a status. -/
def projectsIn (w : Listing) (s : RunStatus) : List String :=
  ((w.listRuns s).filter (fun r => decide (r.graphName ∈ w.ownedConfigs))).filterMap
    (fun r => r.projectId.filter (fun p => p ≠ ""))

def activeIds (w : Listing) : List String := w.projectsIn .running ++ w.projectsIn .paused

def terminalIds (w : Listing) : List String := w.projectsIn .completed ++ w.projectsIn .failed

/-- `planning_guard`. -/
def planning (w : Listing) (r : ProjectRow) : Bool :=
  decide (r.status = "planning") &&
  w.briefs.any (fun b => decide (b.1 = r.projectId) && b.2.any (fun brief => brief ≠ "")) &&
  decide (r.metaState ≠ some "drafting")

/-- `task_clause`. -/
def hasTasks (w : Listing) (r : ProjectRow) : Bool :=
  w.tasks.any (fun t => decide (t.projectId = r.projectId ∧ t.status ∈ ["pending", "running"])) &&
  decide (r.projectId ∉ w.terminalIds)

/-- `owned_clause`, and the clause on the owner. -/
def inScope (w : Listing) (poller : Poller) (r : ProjectRow) : Bool :=
  decide (r.configName ∈ w.ownedConfigs) && poller.scope.all (fun email => decide (r.ownerEmail = some email))

/-- The primary statement. -/
def primary (w : Listing) (poller : Poller) (r : ProjectRow) : Bool :=
  (decide (r.projectId ∈ w.activeIds) || w.hasTasks r || w.planning r) && w.inScope poller r

def STATUSES : List String := ["planning", "executing", "verifying", "running"]

/-- The statement where the primary one finds nothing. -/
def fallback (w : Listing) (poller : Poller) (r : ProjectRow) : Bool :=
  (decide (r.status ∈ STATUSES) || w.hasTasks r) && w.inScope poller r && decide (r.metaState ≠ some "drafting")

end Listing

/-- An ascending column of texts: no value stands first. -/
def ascending : Option String → Option String → Bool
  | none, _ => true
  | some _, none => false
  | some a, some b => decide (a.toList ≤ b.toList)

/-- A descending column of numbers: no value stands last. -/
def descending : Option Int → Option Int → Bool
  | _, none => true
  | none, some _ => false
  | some a, some b => decide (b ≤ a)

/-- `ordering`. -/
def Poller.before (poller : Poller) (a b : ProjectRow) : Bool :=
  if poller.fifo then ascending a.createdAt b.createdAt
  else if a.priority = b.priority then ascending a.updatedAt b.updatedAt
  else descending a.priority b.priority

def select (w : Listing) (poller : Poller) (clause : ProjectRow → Bool) : List ProjectRow :=
  (w.rows.filter clause).insertionSort (fun a b => poller.before a b = true)

/-- `get_active_projects`. -/
def getActiveProjects (w : Listing) (poller : Poller) (limit : Nat) : List ProjectRow :=
  if w.ownedConfigs = [] then []
  else
    let rows := if w.activeIds = [] then [] else (select w poller (w.primary poller)).take limit
    if rows = [] then (select w poller (w.fallback poller)).take limit else rows

inductive TickOutcome
  | returned | raised | cancelled
  deriving DecidableEq

/-- A task of the event loop whose done callback has not run. -/
structure Tick where
  id : Nat
  project : String
  entered : Bool
  cancelling : Bool
  outcome : Option TickOutcome
  deriving DecidableEq

/-- The scheduler of one process: its tasks, the dictionaries that record them, the tick
locks that are held, and of these the ones that other code holds. The last two lists
log each start and each release of a lock by a tick. -/
structure Ticks where
  tasks : List Tick
  detached : Entries String Nat
  owners : Entries String (Option String)
  locks : List String
  guests : List String
  nextId : Nat
  starts : List String
  releases : List String

def Ticks.empty : Ticks := ⟨[], [], [], [], [], 0, [], []⟩

/-- One round of `_dispatch_detached_ticks`. -/
def dispatchRow (cap : Nat) (owner : Option String) (s : Ticks) (pid : String) : Ticks :=
  if pid ∈ s.locks then s
  else if cap ≤ s.detached.length then s
  else { s with
    locks := pid :: s.locks
    tasks := s.tasks ++ [⟨s.nextId, pid, false, false, none⟩]
    detached := s.detached.set pid s.nextId
    owners := s.owners.set pid owner
    nextId := s.nextId + 1
    starts := s.starts ++ [pid] }

def dispatchDetachedTicks (cap : Nat) (owner : Option String) (s : Ticks) (projects : List ProjectRow) : Ticks :=
  (projects.map ProjectRow.projectId).foldl (dispatchRow cap owner) s

/-- `poll_and_execute`, `poll_and_execute_demo` and `poll_and_execute_owner`. -/
def pollAndExecute (cap : Nat) (poller : Poller) (w : Listing) (s : Ticks) : Ticks :=
  dispatchDetachedTicks cap poller.recorded s (getActiveProjects w poller (cap + s.detached.length))

/-- `_on_detached_tick_done`. -/
def onDetachedTickDone (s : Ticks) (task : Tick) : Ticks :=
  { s with
    tasks := s.tasks.filter (fun t => !decide (t.id = task.id))
    detached := if s.detached.get task.project = some task.id then s.detached.del task.project else s.detached
    owners := s.owners.del task.project
    locks := s.locks.erase task.project
    releases := s.releases ++ [task.project] }

/-- `_cancel_detached_ticks`: a request to every task, or to those of one owner. -/
def cancelDetachedTicks (owner : Option String) (s : Ticks) : Ticks :=
  { s with tasks := s.tasks.map (fun t =>
      if decide (s.detached.get t.project = some t.id) &&
        owner.all (fun email => decide (s.owners.get t.project = some (some email)))
      then { t with cancelling := true } else t) }

/-- A task ends: a cancelled one maybe before its first step, any other after it. -/
def Tick.mayEnd (t : Tick) (outcome : TickOutcome) : Bool :=
  t.outcome.isNone && (t.entered || decide (outcome = .cancelled)) && (t.cancelling || decide (outcome ≠ .cancelled))

/-- What the event loop runs next, or what other code does to a tick lock. -/
inductive TickOp
  | poll (poller : Poller) (w : Listing)
  | enter (id : Nat)
  | finish (id : Nat) (outcome : TickOutcome)
  | done (id : Nat)
  | cancel (owner : Option String)
  | hold (project : String)
  | unhold (project : String)

def Ticks.update (s : Ticks) (id : Nat) (f : Tick → Tick) : Ticks :=
  { s with tasks := s.tasks.map (fun t => if t.id = id then f t else t) }

def nextTicks (cap : Nat) (s : Ticks) : TickOp → Ticks
  | .poll poller w => pollAndExecute cap poller w s
  | .enter id => s.update id (fun t => if t.cancelling then t else { t with entered := true })
  | .finish id outcome => s.update id (fun t => if t.mayEnd outcome then { t with outcome := some outcome } else t)
  | .done id =>
    match s.tasks.find? (fun t => decide (t.id = id) && t.outcome.isSome) with
    | some task => onDetachedTickDone s task
    | none => s
  | .cancel owner => cancelDetachedTicks owner s
  | .hold pid => if pid ∈ s.locks then s else { s with locks := pid :: s.locks, guests := pid :: s.guests }
  | .unhold pid =>
    if pid ∈ s.guests then { s with locks := s.locks.erase pid, guests := s.guests.erase pid } else s

/-- The scheduler after a run. -/
def polled (cap : Nat) (ops : List TickOp) : Ticks := run (nextTicks cap) .empty ops

end AItelier.Scheduler
