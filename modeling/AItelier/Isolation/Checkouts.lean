import AItelier.Lib.Callers
import AItelier.Lib.Table
import AItelier.State.Text

namespace AItelier.Isolation

open AItelier.Lib
open AItelier.State (strip truthy)

section Schema

inductive Mode
  | worktree | direct | none | readSnapshot
  deriving DecidableEq, Repr

def Mode.text : Mode → String
  | .worktree => "worktree" | .direct => "direct" | .none => "none" | .readSnapshot => "read_snapshot"

/-- A row of `run_isolation`. -/
structure Record where
  runId : String
  projectId : String
  configName : String
  mode : Mode
  sourceRepo : Option String := .none
  createdAt : String
  releasedAt : Option String := .none
  disposition : Option String := .none
  deriving DecidableEq, Repr

/-- A row of `checkout_leases`. -/
structure Lease where
  canonicalCheckout : String
  runId : String
  configName : String
  acquiredAt : String
  deriving DecidableEq, Repr

/-- A row of `checkout_write_admissions`. -/
structure Admission where
  id : Nat
  canonicalCheckout : String
  owner : String
  kind : String
  detail : String
  admittedAt : String
  deriving DecidableEq, Repr

/-- Admissions stand in the order of their ids, and `sequence` is the last id given. -/
structure DB where
  records : List Record
  leases : List Lease
  admissions : List Admission
  sequence : Nat
  deriving DecidableEq, Repr

def DB.empty : DB := ⟨[], [], [], 0⟩

def DB.record? (db : DB) (runId : String) : Option Record := lookup Record.runId db.records runId

def DB.lease? (db : DB) (canonical : String) : Option Lease := lookup Lease.canonicalCheckout db.leases canonical

/-- `INSERT OR REPLACE`. -/
def replace {α : Type*} {κ : Type*} [DecidableEq κ] (key : α → κ) (t : List α) (r : α) : List α :=
  t.filter (fun q => decide (key q ≠ key r)) ++ [r]

/-- What a call refuses with: a checkout in use and who uses it (`CheckoutLeased`),
an `IsolationUnavailable` or a `ValueError`. -/
inductive Refused
  | held (lease : Lease) (kind detail : String)
  | admitted (first : Admission) (kind detail : String)
  | inFlight (first : Admission) (count : Nat) (runId : String)
  | heldByRun (lease : Lease) (runId : String)
  | foreign (existing : Record) (projectId configName : String)
  | noCheckout (runId projectId : String)
  | unknownMode (mode : String)
  | noRepository (runId projectId : String)
  | noEvidence
  | tree (message : String)
  deriving DecidableEq, Repr

end Schema

section Transactions

variable (db : DB) (canonical runId configName now : String)

/-- The one kind of writer that excludes the others. -/
def codingWorkspace : String := "coding_workspace"

def admitWriteUnderFence (owner kind detail : String) : Except Refused (Admission × DB) :=
  match db.lease? canonical with
  | some lease => .error (.held lease kind detail)
  | none =>
    match db.admissions.find? (fun a => decide (a.canonicalCheckout = canonical ∧
        (kind = codingWorkspace ∨ a.kind = codingWorkspace))) with
    | some existing => .error (.admitted existing kind detail)
    | none =>
      let row : Admission := ⟨db.sequence + 1, canonical, owner, kind, detail, now⟩
      .ok (row, { db with admissions := db.admissions ++ [row], sequence := db.sequence + 1 })

def deleteAdmission (admissionId : Nat) : DB :=
  { db with admissions := db.admissions.filter (fun a => decide (a.id ≠ admissionId)) }

def retireWrite (admissionId : Nat) : DB := if admissionId = 0 then db else deleteAdmission db admissionId

/-- The first `k` characters. -/
def cut (k : Nat) (s : String) : String := String.ofList (s.toList.take k)

def markWriteAdmissionPending (admissionId : Nat) (evidence : String) : DB :=
  if admissionId = 0 then db
  else
    let note := cut 800 (" | PENDING WRITERS: " ++ evidence)
    { db with
      admissions := modifyWhere (fun a => decide (a.id = admissionId))
        (fun a => { a with detail := cut 2000 (a.detail ++ note) }) db.admissions }

def acquireLease : Except Refused DB :=
  let inflight := db.admissions.filter (fun a => decide (a.canonicalCheckout = canonical))
  match inflight with
  | first :: _ => .error (.inFlight first inflight.length runId)
  | [] =>
    let insert (acquiredAt : String) : DB :=
      { db with leases := replace Lease.canonicalCheckout db.leases ⟨canonical, runId, configName, acquiredAt⟩ }
    match db.lease? canonical with
    | none => .ok (insert now)
    | some row => if row.runId = runId then .ok (insert row.acquiredAt) else .error (.heldByRun row runId)

def writeRecord (row : Record) : DB := { db with records := replace Record.runId db.records row }

def release (disposition : String) : DB :=
  { db with
    records := modifyWhere (fun r => decide (r.runId = runId))
      (fun r => { r with releasedAt := some now, disposition := some disposition }) db.records
    leases := db.leases.filter (fun l => decide (l.runId ≠ runId)) }

end Transactions

section Engine

/-- What the engine counts of a run's admitted operations. -/
structure Audit where
  lost : List String
  unknown : List String
  alive : Nat
  deriving DecidableEq, Repr

def Audit.admitted (a : Audit) : Nat := a.lost.length + a.unknown.length + a.alive

def Audit.quiet (a : Audit) : Prop := a.lost = [] ∧ a.unknown = [] ∧ a.alive = 0

theorem Audit.quiet_iff {a : Audit} : a.quiet ↔ a.admitted = 0 := by
  simp only [Audit.quiet, Audit.admitted, ← List.length_eq_zero_iff]
  omega

def terminalRunStatuses : List String := ["completed", "failed"]

/-- What a call learns at one moment from outside the database: paths as they are
canonical then, the clock, the project's repository, and what the engine answers
about a run, which may be an error. -/
structure Outside where
  canonicalCheckout : String → String
  workerIdentity : String → String
  now : String
  sourceRepoFor : String → Option String
  isGitRepo : String → Bool
  bootstrapSource : String → String → String
  provisionTree : String → Mode → Except Refused Record
  getRun : String → Except String (Option (Option String))
  auditOperationOwners : String → Except String Audit

end Engine

section Calls

structure Request where
  runId : String
  projectId : String
  configName : String
  repoMode : String := "code"
  requestedMode : Option String := .none
  deriving DecidableEq, Repr

inductive Call
  | admitWrite (path kind detail : String)
  | retireWrite (admissionId : Nat)
  | markWriteAdmissionPending (admissionId : Nat) (evidence : String)
  | clearWriteAdmission (admissionId : Nat) (evidence : String)
  | ensureForRun (request : Request)
  | release (runId disposition : String)
  | reconcileRunLease (runId : String)
  deriving DecidableEq, Repr

/-- What a call returns, or what it raises. -/
inductive Reply
  | admission (row : Admission)
  | done
  | cleared (row : Option Admission)
  | record (row : Option Record)
  | reconciled (released : Bool) (why : String)
  | refused (why : Refused)
  deriving DecidableEq, Repr

/-- What a call does next. A direct run's record is written after the lease where it
is `fresh`, and was there before where it is not. -/
inductive Phase
  | ended (reply : Reply)
  | clearing (admissionId : Nat) (row : Option Admission)
  | leasing (canonical : String) (row : Record) (fresh : Bool)
  | writing (row : Record)
  | asking (runId checkout : String)
  | auditing (runId checkout status : String)
  | releasing (runId checkout status : String)
  deriving DecidableEq, Repr

/-- The record as it stands goes back to the caller, once a direct run has its
lease again. -/
def resumeExisting (w : Outside) (existing : Record) (q : Request) : Phase :=
  if existing.projectId ≠ q.projectId ∨ existing.configName ≠ q.configName then
    .ended (.refused (.foreign existing q.projectId q.configName))
  else if existing.mode = .direct ∧ truthy existing.sourceRepo then
    .leasing (w.canonicalCheckout (existing.sourceRepo.getD "")) existing false
  else .ended (.record (some existing))

def provisioned (x : Except Refused Record) : Phase :=
  match x with
  | .ok row => .writing row
  | .error e => .ended (.refused e)

/-- The worktree of a run that writes code, from a repository that may have to be
made first. -/
def provisionWorktree (w : Outside) (q : Request) (source : Option String) : Phase :=
  let source := source.map (fun s => if s ≠ "" ∧ w.isGitRepo s = false then w.bootstrapSource q.projectId s else s)
  if truthy source ∧ w.isGitRepo (source.getD "") then provisioned (w.provisionTree (source.getD "") .worktree)
  else .ended (.refused (.noRepository q.runId q.projectId))

def provisionForRun (w : Outside) (q : Request) : Phase :=
  let source := w.sourceRepoFor q.projectId
  let row (mode : Mode) (sourceRepo : Option String) : Record :=
    { runId := q.runId, projectId := q.projectId, configName := q.configName, mode := mode,
      sourceRepo := sourceRepo, createdAt := w.now }
  if q.repoMode = "none" then
    if truthy source ∧ w.isGitRepo (source.getD "") then provisioned (w.provisionTree (source.getD "") .readSnapshot)
    else .writing (row .none none)
  else
    let mode := if truthy q.requestedMode then q.requestedMode.getD "" else Mode.worktree.text
    if mode = Mode.direct.text then
      if truthy source then
        .leasing (w.canonicalCheckout (source.getD "")) (row .direct source) true
      else .ended (.refused (.noCheckout q.runId q.projectId))
    else if mode ≠ Mode.worktree.text then .ended (.refused (.unknownMode mode))
    else provisionWorktree w q source

def ensureForRun (db : DB) (w : Outside) (q : Request) : Phase :=
  match db.record? q.runId with
  | some existing => resumeExisting w existing q
  | none => provisionForRun w q

def clearWriteAdmission (db : DB) (admissionId : Nat) (evidence : String) : Phase :=
  if strip evidence = "" then .ended (.refused .noEvidence)
  else .clearing admissionId (db.admissions.find? (fun a => decide (a.id = admissionId)))

/-- The lease is looked up first, before the engine is asked. -/
def reconcileRunLease (db : DB) (runId : String) : Phase :=
  match db.leases.find? (fun l => decide (l.runId = runId)) with
  | none => .ended (.reconciled false ("no lease is held by run " ++ runId))
  | some held => .asking runId held.canonicalCheckout

/-- What `get_run` answered. -/
def askRun (runId checkout : String) : Except String (Option (Option String)) → Phase
  | .error e => .ended (.reconciled false
      ("could not read run " ++ runId ++ " from the engine (" ++ e ++ "); lease retained"))
  | .ok none => .ended (.reconciled false ("run " ++ runId ++
      " is unknown to the engine; lease retained — an unknown run is not a finished one"))
  | .ok (some status) =>
    let status := status.getD ""
    if status ∈ terminalRunStatuses then .auditing runId checkout status
    else .ended (.reconciled false ("run " ++ runId ++ " is '" ++ status ++
      "', not terminal (paused is a run waiting for a person); lease retained"))

/-- What `audit_operation_owners` answered. -/
def askOwners (runId checkout status : String) : Except String Audit → Phase
  | .error e => .ended (.reconciled false
      ("could not count admitted operations for " ++ runId ++ " (" ++ e ++ "); lease retained"))
  | .ok audit =>
    if audit.admitted = 0 then .releasing runId checkout status
    else .ended (.reconciled false (toString audit.admitted ++ " admitted operation(s) for run " ++ runId ++
      " have not retired; effects may still be landing, lease retained"))

def autoReleased : String := "auto_released_terminal_quiet"

/-- The first effect of a call. -/
def firstEffect (db : DB) (w : Outside) : Call → DB × Phase
  | .admitWrite path kind detail =>
    match admitWriteUnderFence db (w.canonicalCheckout path) w.now (w.workerIdentity kind) kind detail with
    | .ok (row, db) => (db, .ended (.admission row))
    | .error e => (db, .ended (.refused e))
  | .retireWrite admissionId => (retireWrite db admissionId, .ended .done)
  | .markWriteAdmissionPending admissionId evidence =>
    (markWriteAdmissionPending db admissionId evidence, .ended .done)
  | .clearWriteAdmission admissionId evidence => (db, clearWriteAdmission db admissionId evidence)
  | .ensureForRun request => (db, ensureForRun db w request)
  | .release runId disposition =>
    let after := release db runId w.now disposition
    (after, .ended (.record (after.record? runId)))
  | .reconcileRunLease runId => (db, reconcileRunLease db runId)

/-- The next effect of a call that stands at a phase. -/
def nextEffect (db : DB) (w : Outside) : Phase → DB × Phase
  | .ended reply => (db, .ended reply)
  | .clearing admissionId row => (deleteAdmission db admissionId, .ended (.cleared row))
  | .leasing canonical row fresh =>
    match acquireLease db canonical row.runId row.configName w.now with
    | .ok db => (db, if fresh then .writing row else .ended (.record (some row)))
    | .error e => (db, .ended (.refused e))
  | .writing row =>
    let row := { row with createdAt := w.now }
    (writeRecord db row, .ended (.record (some row)))
  | .asking runId checkout => (db, askRun runId checkout (w.getRun runId))
  | .auditing runId checkout status => (db, askOwners runId checkout status (w.auditOperationOwners runId))
  | .releasing runId checkout status =>
    (release db runId w.now autoReleased, .ended (.reconciled true ("run " ++ runId ++ " is " ++ status ++
      " with no admitted operation; lease on " ++ checkout ++ " released")))

/-- A process that starts a call while another stands has died in that one and
been started again. -/
inductive Action
  | call (c : Call) (w : Outside)
  | next (w : Outside)

def act (db : DB) (phase : Phase) : Action → DB × Phase
  | .call c w => firstEffect db w c
  | .next w => nextEffect db w phase

/-- No process has called anything yet. -/
def start : Callers DB Phase := ⟨.empty, fun _ => .ended .done⟩

/-- The host after `es`, each effect with the process that took it. -/
def after (es : List (Nat × Action)) : Callers DB Phase := run (Callers.step act) start es

end Calls

end AItelier.Isolation
