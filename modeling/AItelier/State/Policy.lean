import AItelier.State.GraphStore

namespace AItelier.State

open AItelier.Lib

section Reads
variable (db : DB)

def projectPolicy (projectId : String) : Policy :=
  (lookup Policy.projectId db.policies projectId).getD ⟨projectId, 0, .active, "", ""⟩

/-- `claim_enforcement`; no row means off. -/
def claimEnforcement (projectId : String) : Switch :=
  ((lookup Enforcement.projectId db.enforcement projectId).map Enforcement.claimEnforcement).getD .off

/-- `enforced`: the one enforcement switch every claim rule asks. -/
def enforced (projectId : String) : Bool :=
  claimEnforcement db projectId = .on

def reviewIndependence (projectId : String) : Independence :=
  ((lookup Enforcement.projectId db.enforcement projectId).map Enforcement.reviewIndependence).getD .off

def Hold.id (h : Hold) : NodeId := (h.projectId, h.nodeKey)

def nodeHold (id : NodeId) : Hold :=
  (lookup Hold.id db.holds id).getD ⟨id.1, id.2, 0, false, "", ""⟩

/-- `dispatch_block`: the scope and reason that hold a node's dispatch, if any. -/
def dispatchBlock (id : NodeId) : Option (String × String) :=
  let policy := projectPolicy db id.1
  if policy.dispatch ≠ .active then some ("project", policy.reason)
  else
    let hold := nodeHold db id
    if hold.held then some ("node", hold.reason) else none

def requireDispatch (id : NodeId) : Result Unit :=
  match dispatchBlock db id with
  | some (scope, reason) => .error (.conflict ("dispatch is held at " ++ scope ++ " level: " ++ reason))
  | none => .ok ()

end Reads

/-- A policy write that keeps the fields it does not set. -/
def writePolicy (db : DB) (caller : Caller) (projectId : String) (dispatch : Dispatch) (reason : String) : DB :=
  { db with
    policies := upsert Policy.projectId db.policies
      ⟨projectId, (projectPolicy db projectId).revision + 1, dispatch, reason, caller.actor⟩ }

/-- The compare-and-swap that the three policy settings share. -/
def policyGuard (db : DB) (projectId : String) (expectedRevision : Int) (reason label : String) :
    Result (Policy × String) := do
  let _ ← integer expectedRevision "expected_revision" 0 1000000
  let reason ← text reason label 4000
  let _ ← projectOf db projectId
  let old := projectPolicy db projectId
  ensure (old.revision = expectedRevision) (.conflict "project policy revision changed")
  return (old, reason)

def setDispatch (db : DB) (caller : Caller) (projectId : String) (dispatch : Dispatch) (expectedRevision : Int)
    (reason : String) : Result DB := do
  let (old, reason) ← policyGuard db projectId expectedRevision reason "dispatch reason"
  return (writePolicy db caller projectId dispatch reason).event projectId none "dispatch_policy_changed"
    [("dispatch", .str dispatch.text), ("reason", .str reason), ("revision", .int (old.revision + 1)),
      ("actor", .str caller.actor)]

def setClaimEnforcement (db : DB) (caller : Caller) (projectId : String) (switch : Switch)
    (expectedRevision : Int) (reason : String) : Result DB := do
  ensure caller.isAdmin (.claim .adminRequired "only the owner or an admin driver changes claim_enforcement")
  let (old, reason) ← policyGuard db projectId expectedRevision reason "claim_enforcement reason"
  let row : Enforcement := ⟨projectId, switch, reason, caller.actor, reviewIndependence db projectId⟩
  let db := writePolicy db caller projectId old.dispatch reason
  return { db with enforcement := upsert Enforcement.projectId db.enforcement row }.event projectId none
    "claim_enforcement_policy_changed" [("claim_enforcement", .str switch.text), ("reason", .str reason),
      ("revision", .int (old.revision + 1)), ("actor", .str caller.actor)]

def setReviewIndependence (db : DB) (caller : Caller) (projectId : String) (mode : Independence)
    (expectedRevision : Int) (reason : String) : Result DB := do
  ensure caller.isAdmin (.claim .adminRequired "only the owner or an admin driver changes review_independence")
  let (old, reason) ← policyGuard db projectId expectedRevision reason "review_independence reason"
  let row : Enforcement := ⟨projectId, claimEnforcement db projectId, reason, caller.actor, mode⟩
  let db := writePolicy db caller projectId old.dispatch reason
  return { db with enforcement := upsert Enforcement.projectId db.enforcement row }.event projectId none
    "review_independence_policy_changed" [("review_independence", .str mode.text), ("reason", .str reason),
      ("revision", .int (old.revision + 1)), ("actor", .str caller.actor)]

/-- `set_hold`. -/
def setHold (db : DB) (caller : Caller) (projectId nodeKey : String) (held : Bool) (expectedRevision : Int)
    (reason : String) : Result DB := do
  let _ ← nodeOf db projectId nodeKey
  let _ ← integer expectedRevision "expected_revision" 0 1000000
  let reason ← text reason "hold reason" 4000
  let old := nodeHold db (projectId, nodeKey)
  ensure (old.revision = expectedRevision) (.conflict "node hold revision changed")
  let row : Hold := ⟨projectId, nodeKey, old.revision + 1, held, reason, caller.actor⟩
  return { db with holds := upsert Hold.id db.holds row }.event projectId (some nodeKey) "node_hold_changed"
    [("held", .bool held), ("reason", .str reason), ("revision", .int row.revision),
      ("actor", .str caller.actor)]

/-- `bind_source`; the repository path was checked by the service. -/
def bindSource (db : DB) (caller : Caller) (projectId repoPath commonDir : String) (expectedRevision : Int) :
    Result DB := do
  let _ ← integer expectedRevision "expected_revision" 0 1000000
  let _ ← projectOf db projectId
  let actual := ((lookup SourceBinding.projectId db.sourceBindings projectId).map SourceBinding.revision).getD 0
  ensure ((actual : Int) = expectedRevision) (.conflict "source binding revision changed")
  ensure (¬ db.attempts.any (fun a => decide (a.projectId = projectId)))
    (.conflict "source bindings cannot be retargeted after attempts exist; preserve old provenance")
  let row : SourceBinding := ⟨projectId, actual + 1, repoPath, commonDir, caller.actor⟩
  return { db with sourceBindings := upsert SourceBinding.projectId db.sourceBindings row }.event projectId none
    "source_bound" [("revision", .int (actual + 1)), ("repo_path", .str repoPath),
      ("common_dir", .str commonDir), ("actor", .str caller.actor)]

/-- `_source`: the stable binding, or the legacy identity it falls back to. -/
inductive Source
  | stable (binding : SourceBinding)
  | legacy (sourceProjectId : String)
  | none
  deriving DecidableEq, Repr

def sourceOf (db : DB) (project : Project) : Source :=
  match lookup SourceBinding.projectId db.sourceBindings project.projectId with
  | some row => .stable row
  | Option.none =>
    match project.sourceProjectId with
    | some source => if source = "" then .none else .legacy source
    | Option.none => .none

end AItelier.State
