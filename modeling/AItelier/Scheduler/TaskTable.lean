import AItelier.Lib.Entries
import AItelier.Lib.Run
import AItelier.Lib.Table
import AItelier.Lib.Value
import Mathlib.Data.List.Sort

namespace AItelier.Scheduler

open AItelier.Lib

inductive TaskStatus
  | pending | running | completed | failed | paused | superseded
  deriving DecidableEq

/-- A JSON scalar: what a manifest may give as an id or a dependency. -/
inductive Scalar
  | null
  | bool (b : Bool)
  | int (i : Int)
  | float (f : PyFloat)
  | str (s : String)
  deriving DecidableEq

/-- `str(v)`. -/
def Scalar.text : Scalar → String
  | .null => "None"
  | .bool true => "True"
  | .bool false => "False"
  | .int i => toString i
  | .float f => f.text
  | .str s => s

def Scalar.truthy : Scalar → Bool
  | .null => false
  | .bool b => b
  | .int i => i != 0
  | .float f => f.whole != some 0
  | .str s => s != ""

/-- A task card of the manifest. -/
structure Card where
  id : Option Scalar
  description : String
  detailedRequirements : String
  dependencies : List Scalar
  taskType : String

/-- `str(t.get("id", "task"))`. -/
def Card.key (c : Card) : String := (c.id.map Scalar.text).getD "task"

def Card.prompt (c : Card) : String :=
  if c.detailedRequirements = "" then c.description else c.description ++ "\n\n" ++ c.detailedRequirements

/-- A row of `tasks`. What its card named is not a column: the table only keeps the
numbers the names were resolved to. -/
structure Task where
  id : Nat
  manifestKey : Option String
  status : TaskStatus
  prompt : String
  taskType : String
  ownerEmail : String
  dependencies : List Nat
  currentStep : String
  completedSteps : List String
  named : List Scalar
  deriving DecidableEq

/-- The rows of one project in the order of the table, the next row number, and the
digest in `.tasks_synced_hash`. -/
structure Tasks where
  rows : List Task
  nextId : Nat
  synced : Option String

def Tasks.empty : Tasks := ⟨[], 1, none⟩

/-- `completed_key_to_id`. -/
def completedKeyToId (rows : List Task) : Entries String Nat :=
  rows.foldl (fun d r => match r.manifestKey with
    | some key => if r.status = .completed ∧ key ≠ "" then d.set key r.id else d
    | none => d) []

/-- What a resync leaves of the table. -/
def preserved (rows : List Task) : List Task :=
  rows.filter (fun r => decide (r.status = .completed ∨ r.status = .superseded))

structure Sync where
  rows : List Task
  nextId : Nat
  idMap : Entries String Nat

/-- `[id_map[d] for d in deps if d in id_map]`: the keys of the map are texts. -/
def resolve (idMap : Entries String Nat) (deps : List Scalar) : List Nat :=
  deps.filterMap (fun d => match d with
    | .str s => idMap.get s
    | _ => none)

/-- The row of a card. -/
def Card.row (c : Card) (owner : String) (id : Nat) (deps : List Nat) : Task :=
  ⟨id, some c.key, .pending, c.prompt, c.taskType, owner, deps, "t_plan", [], c.dependencies⟩

/-- One round of the first pass. -/
def insertCard (owner : String) (completed : Entries String Nat) (s : Sync) (c : Card) : Sync :=
  if (completed.get c.key).isSome then s
  else ⟨s.rows ++ [c.row owner s.nextId (resolve s.idMap c.dependencies)], s.nextId + 1, s.idMap.set c.key s.nextId⟩

/-- One round of the second pass, once all numbers are known. -/
def resolveCard (completed idMap : Entries String Nat) (rows : List Task) (c : Card) : List Task :=
  if (completed.get c.key).isSome then rows
  else
    match idMap.get c.key with
    | none => rows
    | some id =>
      if c.dependencies = [] then rows
      else modifyWhere (fun q => decide (q.id = id)) (fun q => { q with dependencies := resolve idMap c.dependencies })
        rows

/-- `sync_tasks_from_manifest`. -/
def syncTasksFromManifest (owner : String) (t : Tasks) (cards : List Card) : Tasks :=
  let completed := completedKeyToId t.rows
  let s := cards.foldl (insertCard owner completed) ⟨preserved t.rows, t.nextId, completed⟩
  { t with rows := cards.foldl (resolveCard completed s.idMap) s.rows, nextId := s.nextId }

/-- The cards of `_sync_task_manifest_to_db`: those of the card files that could be
read, in the order of their names and identified by them where they give no id, else
the tasks of the index. -/
def manifestTasks (files : List (String × Option Card)) (index : List Card) : List Card :=
  let cards := files.filterMap (fun f => f.2.map (fun c =>
    if c.id.any Scalar.truthy then c else { c with id := some (.str f.1) }))
  if cards = [] then index else cards

/-- The call is skipped where nothing changed since the last one. -/
def syncTaskManifestToDb (t : Tasks) (cards : List Card) (digest : String) : Tasks :=
  if cards = [] then t
  else if t.rows ≠ [] ∧ t.synced = some digest then t
  else { syncTasksFromManifest "cli@local" t cards with synced := some digest }

/-- `complete_task` with its default step. -/
def Task.complete (r : Task) : Task :=
  { r with status := .completed, currentStep := "t_impl", completedSteps := ["t_plan", "t_impl"] }

def Task.archive (r : Task) : Task := { r with status := .superseded }

/-- The re-run row of an archived task. -/
def Task.clone (r : Task) (id : Nat) : Task :=
  { r with id := id, status := .pending, currentStep := "t_plan", completedSteps := [] }

def Tasks.update (t : Tasks) (id : Nat) (f : Task → Task) : Tasks :=
  { t with rows := modifyWhere (fun q => decide (q.id = id)) f t.rows }

/-- `supersede_task`. -/
def supersedeTask (t : Tasks) (id : Nat) : Tasks :=
  match lookup Task.id t.rows id with
  | none => t
  | some row =>
    if row.status = .completed then
      { t with
        rows := modifyWhere (fun q => decide (q.id = id)) Task.archive t.rows ++ [row.clone t.nextId]
        nextId := t.nextId + 1 }
    else t

/-- What `skillflow_loop_state` tells of the task loop. -/
structure TaskLoop where
  completedItems : List Scalar
  items : List Scalar

inductive RunState
  | completed
  | failed
  | paused
  | active (progress : Option TaskLoop)

def TaskLoop.currentKey (l : TaskLoop) : Option Scalar := l.items[l.completedItems.length]?

def Task.live (r : Task) : Bool := decide (r.status = .pending ∨ r.status = .running)

/-- `keyed`. -/
def keyed (tasks : List Task) : Bool := tasks.all (fun r => r.manifestKey.any (fun k => k ≠ ""))

/-- Whether the loop re-runs a completed task. -/
def reruns (l : TaskLoop) (tasks : List Task) (r : Task) : Bool :=
  decide (r.status = .completed) && r.manifestKey.any (fun k =>
    decide (Scalar.str k ∈ l.items) && decide (Scalar.str k ∉ l.completedItems) &&
    !tasks.any (fun q => q.live && decide (q.manifestKey = some k)))

/-- `want`. -/
def wanted (l : TaskLoop) (tasks : List Task) (r : Task) (i : Nat) : TaskStatus :=
  if keyed tasks then
    if r.manifestKey.any (fun k => decide (Scalar.str k ∈ l.completedItems)) then .completed
    else if r.manifestKey.any (fun k => decide (l.currentKey = some (.str k))) then .running
    else .pending
  else if i < l.completedItems.length then .completed
  else if i = l.completedItems.length then .running
  else .pending

/-- `TERMINAL`. -/
def Task.terminal (r : Task) : Bool :=
  decide (r.status = .completed ∨ r.status = .superseded ∨ r.status = .failed)

/-- One round of the last loop: the rows are those read at the start. -/
def advanceTask (l : TaskLoop) (tasks : List Task) (t : Tasks) (r : Task × Nat) : Tasks :=
  if r.1.terminal then t
  else if r.1.status = wanted l tasks r.1 r.2 then t
  else if wanted l tasks r.1 r.2 = .completed then t.update r.1.id Task.complete
  else t.update r.1.id (fun q => { q with status := wanted l tasks r.1 r.2 })

/-- The rows in manifest order. -/
def Tasks.sorted (t : Tasks) : List Task := t.rows.insertionSort (fun a b => a.id ≤ b.id)

/-- The rows that the loop re-runs are archived and cloned. -/
def supersedeReruns (l : TaskLoop) (t : Tasks) : Tasks :=
  if keyed t.sorted = true ∧ l.items ≠ [] then
    t.sorted.foldl (fun u r => if reruns l t.sorted r then supersedeTask u r.id else u) t
  else t

def completeRun (t : Tasks) : Tasks :=
  t.sorted.foldl (fun u r =>
    if r.status = .completed ∨ r.status = .superseded then u else u.update r.id Task.complete) t

def failRun (t : Tasks) : Tasks :=
  t.sorted.foldl (fun u r =>
    if r.status = .running then u.update r.id (fun q => { q with status := .failed }) else u) t

/-- `_sync_task_statuses`. -/
def syncTaskStatuses (t : Tasks) : RunState → Tasks
  | .completed => completeRun t
  | .failed => failRun t
  | .paused => t
  | .active none => t
  | .active (some l) => t.sorted.zipIdx.foldl (advanceTask l t.sorted) (supersedeReruns l t)

def Tasks.completedIds (t : Tasks) : List Nat :=
  (t.rows.filter (fun r => decide (r.status = .completed))).map Task.id

/-- `get_ready_tasks`. -/
def getReadyTasks (t : Tasks) : List Task :=
  ((t.rows.filter Task.live).filter (fun r => r.dependencies.all (fun d => decide (d ∈ t.completedIds)))).insertionSort
    (fun a b => (if a.taskType = "tool" then 0 else 1) < (if b.taskType = "tool" then 0 else 1) ∨
      (if a.taskType = "tool" then 0 else 1) = (if b.taskType = "tool" then 0 else 1) ∧
      a.dependencies.length ≤ b.dependencies.length)

/-- A resync with the files as they are, a progress update or ending of the run, or a
row that another project takes from the shared numbering. -/
inductive TaskOp
  | resync (files : List (String × Option Card)) (index : List Card) (digest : String)
  | progress (run : RunState)
  | elsewhere

def nextTasks (t : Tasks) : TaskOp → Tasks
  | .resync files index digest => syncTaskManifestToDb t (manifestTasks files index) digest
  | .progress state => syncTaskStatuses t state
  | .elsewhere => { t with nextId := t.nextId + 1 }

def tasksAfter (ops : List TaskOp) : Tasks := run nextTasks .empty ops

end AItelier.Scheduler
