import AItelier.State.Graph

namespace AItelier.State

open AItelier.Lib

def contractDigest (host : Host) (checks : List Check) : String :=
  host.digest (.arr (checks.map Check.toJson))

/-- A validated `add_nodes` entry. -/
structure Prepared where
  key : String
  goal : String
  checks : List Check
  deps : List String
  priority : Int
  facet : Option Facet

def Prepared.node (host : Host) (projectId : String) (p : Prepared) : Node where
  projectId := projectId
  nodeKey := p.key
  revision := 1
  goal := p.goal
  contract := p.checks
  contractHash := contractDigest host p.checks
  status := .OPEN
  priority := p.priority
  verifiedReceipt := none
  facet := p.facet

def Prepared.edges (projectId : String) (p : Prepared) : List Dependency :=
  p.deps.map (fun d => ⟨projectId, p.key, d⟩)

def Prepared.revision (host : Host) (projectId : String) (p : Prepared) : Revision :=
  ⟨projectId, p.key, 1, p.goal, p.checks, contractDigest host p.checks, p.deps⟩

def Prepared.event (host : Host) (projectId : String) (p : Prepared) : Event :=
  ⟨projectId, some p.key, "node_created", .obj [("revision", .int 1), ("dependencies", .strings p.deps),
    ("contract_hash", .str (contractDigest host p.checks)), ("facet", .ofOption (p.facet.map Facet.text))]⟩

/-- One round of the loop of `_add`: the graph, the facets and the validated
entries collected so far. -/
def prepareNode (db : DB) (projectId : String) (acc : Graph × Facets × List Prepared) (spec : NodeSpec) :
    Result (Graph × Facets × List Prepared) := do
  let nk ← key spec.key "node key"
  ensure (nk ∉ acc.1.map Prod.fst) (.conflict ("duplicate node key " ++ quote nk))
  let goal ← text spec.goal "goal" 20000
  let checks ← contract spec.acceptance
  let deps ← dependencies spec.dependencies
  let priority ← integer spec.priority "priority" (-100000) 100000
  let own ← checkFacet spec.facet
  ensure (¬ deps.any (fun d => decide ((db.node? (projectId, d)).map Node.status = some .SUPERSEDED)))
    (.conflict "cannot depend on a superseded node")
  return (acc.1 ++ [(nk, deps)], acc.2.1 ++ [(nk, own)], acc.2.2 ++ [⟨nk, goal, checks, deps, priority, own⟩])

def insertNodes (host : Host) (db : DB) (projectId : String) (prepared : List Prepared) : DB :=
  { db with
    nodes := db.nodes ++ prepared.map (Prepared.node host projectId)
    dependencies := db.dependencies ++ prepared.flatMap (Prepared.edges projectId)
    revisions := db.revisions ++ prepared.map (Prepared.revision host projectId)
    events := db.events ++ prepared.map (Prepared.event host projectId) }

/-- `_add`. -/
def add (host : Host) (db : DB) (projectId : String) (specs : List NodeSpec) : Result (List String × DB) := do
  let _ ← projectOf db projectId
  ensure (1 ≤ specs.length ∧ specs.length ≤ 200) (.graph "add_nodes requires 1-200 nodes per transaction")
  let (graph, facets, prepared) ←
    specs.foldlM (prepareNode db projectId) (graphOf db projectId, facetsOf db projectId, [])
  validateDag graph
  checkFacets facets graph
  ensure (¬ db.revisions.any (fun r => decide (r.projectId = projectId ∧ r.revision = 1 ∧
    r.nodeKey ∈ prepared.map Prepared.key))) (.integrity "state_node_revisions")
  return (prepared.map Prepared.key, insertNodes host db projectId prepared)

def createProject (db : DB) (projectId title : String) (sourceProjectId : Option String) :
    Result (Project × DB) := do
  let _ ← key projectId "key"
  let title ← text title "title" 400
  let _ ← sourceProjectId.mapM (fun source => key source "source project")
  match lookup Project.projectId db.projects projectId with
  | some existing => do
    ensure (existing.title = title ∧ existing.sourceProjectId = sourceProjectId)
      (.conflict "project identity already exists with different settings")
    return (existing, db)
  | none =>
    let row : Project := ⟨projectId, title, sourceProjectId⟩
    return (row, { db with projects := db.projects ++ [row] }.event projectId none "project_created"
      [("title", .str title), ("source_project_id", .ofOption sourceProjectId)])

/-- The edges of one project, as (dependent, dependency). -/
def projectEdges (db : DB) (projectId : String) : List (String × String) :=
  (db.dependencies.filter (fun d => decide (d.projectId = projectId))).map
    (fun d => (d.nodeKey, d.dependencyKey))

/-- The node and its transitive dependents, in key order. -/
def affected (db : DB) (projectId nodeKey : String) : List String :=
  sortKeys (dependentClosure (projectEdges db projectId) nodeKey)

/-- `_invalidate`: the node and all its dependents lose their acceptance. -/
def invalidate (db : DB) (projectId nodeKey : String) : DB :=
  { db with
    nodes := modifyWhere
      (fun n => decide (n.projectId = projectId ∧ n.nodeKey ∈ affected db projectId nodeKey ∧
        n.status ≠ .SUPERSEDED))
      (fun n => { n with status := .STALE, verifiedReceipt := none }) db.nodes }

structure NodeChange where
  key : String
  revision : Nat
  status : NodeStatus
  invalidated : List String
  children : List String
  changed : Bool
  deriving DecidableEq, Repr

/-- What `_revise` writes once every check passed. -/
def writeRevision (db : DB) (projectId nodeKey : String) (node : Node) (deps : List String) : DB :=
  let db := invalidate db projectId nodeKey
  let db := db.setNode (projectId, nodeKey) (fun n => { n with
    revision := node.revision, goal := node.goal, contract := node.contract,
    contractHash := node.contractHash })
  { db with
    dependencies := db.dependencies.filter
        (fun d => decide (¬ (d.projectId = projectId ∧ d.nodeKey = nodeKey))) ++
      deps.map (fun d => ⟨projectId, nodeKey, d⟩) }

/-- `_revise`. -/
def revise (host : Host) (db : DB) (projectId nodeKey : String) (expectedRevision : Int) (reason : String)
    (goal : Option String) (acceptance : Option (List CheckSpec)) (deps : Option (List String)) :
    Result (NodeChange × DB) := do
  let old ← nodeOf db projectId nodeKey
  let _ ← integer expectedRevision "expected_revision" 1 1000000
  let reason ← text reason "revision reason" 4000
  ensure (old.revision = expectedRevision) (.conflict "node revision changed; reload before editing")
  ensure (old.status ≠ .SUPERSEDED) (.conflict "a superseded node cannot be revised")
  let own ← given deps dependencies (depsOf db projectId nodeKey)
  let graph := (graphOf db projectId).map (fun e => if e.1 = nodeKey then (e.1, own) else e)
  ensure (¬ own.any (fun d => decide ((db.node? (projectId, d)).map Node.status = some .SUPERSEDED)))
    (.conflict "cannot depend on a superseded node")
  validateDag graph
  checkFacets (facetsOf db projectId) graph
  let newGoal ← given goal (fun g => text g "goal" 20000) old.goal
  let checks ← given acceptance contract old.contract
  let invalidated := affected db projectId nodeKey
  let node := { old with revision := old.revision + 1, goal := newGoal, contract := checks,
                         contractHash := contractDigest host checks }
  let db := writeRevision db projectId nodeKey node own
  let db ← snapshotRevision db node own
  return (⟨nodeKey, node.revision, .STALE, invalidated, [], true⟩,
    db.event projectId (some nodeKey) "node_revised" [("revision", .int node.revision),
      ("reason", .str reason), ("invalidated", .strings invalidated)])

/-- `_split`. -/
def split (host : Host) (db : DB) (projectId nodeKey : String) (expectedRevision : Int)
    (children : List NodeSpec) (reason : String) : Result (NodeChange × DB) := do
  let _ ← nodeOf db projectId nodeKey
  let (newKeys, db) ← add host db projectId children
  let deps := sortKeys (depsOf db projectId nodeKey ++ newKeys).dedup
  let (change, db) ← revise host db projectId nodeKey expectedRevision reason none none (some deps)
  return ({ change with children := newKeys }, db)

/-- `_supersede`. -/
def supersede (db : DB) (projectId nodeKey : String) (expectedRevision : Int) (reason : String) :
    Result (NodeChange × DB) := do
  let old ← nodeOf db projectId nodeKey
  let _ ← integer expectedRevision "expected_revision" 1 1000000
  let reason ← text reason "supersession reason" 4000
  ensure (old.revision = expectedRevision) (.conflict "node revision changed")
  if old.status = .SUPERSEDED then
    return (⟨nodeKey, old.revision, .SUPERSEDED, [], [], false⟩, db)
  else
    let invalidated := affected db projectId nodeKey
    let db := (invalidate db projectId nodeKey).setNode (projectId, nodeKey)
      (fun n => { n with status := .SUPERSEDED })
    return (⟨nodeKey, old.revision, .SUPERSEDED, invalidated, [], true⟩,
      db.event projectId (some nodeKey) "node_superseded" [("reason", .str reason),
        ("invalidated", .strings invalidated)])

/-- `_set_facet`: a label is not a contract change, so no revision. -/
def setFacet (db : DB) (projectId nodeKey facet : String) : Result (NodeChange × DB) := do
  let own ← checkFacet (some facet)
  let node ← nodeOf db projectId nodeKey
  if node.facet = own then
    return (⟨nodeKey, node.revision, node.status, [], [], false⟩, db)
  else do
    ensure (¬ (node.facet.isSome ∧ truthy node.verifiedReceipt))
      (.conflict ("`" ++ nodeKey ++ "` was accepted as " ++ ((node.facet.map Facet.text).getD "") ++
        "; a verified node keeps its facet — supersede it and create the " ++
        ((own.map Facet.text).getD "") ++ " node"))
    checkFacets ((facetsOf db projectId).map (fun f => if f.1 = nodeKey then (f.1, own) else f))
      (graphOf db projectId)
    return (⟨nodeKey, node.revision, node.status, [], [], true⟩,
      (db.setNode (projectId, nodeKey) (fun n => { n with facet := own })).event projectId (some nodeKey)
        "node_facet_set" [("facet", .ofOption (own.map Facet.text)),
          ("previous", .ofOption (node.facet.map Facet.text)), ("revision", .int node.revision)])

/-- `set_node_priority`: a compare-and-swap on the scheduling priority only. -/
def setNodePriority (db : DB) (projectId nodeKey : String) (priority expectedPriority : Int)
    (reason : String) (actor directorIdentity : Option String) : Result (NodeChange × DB) := do
  let _ ← integer priority "priority" (-100000) 100000
  let _ ← integer expectedPriority "expected_priority" (-100000) 100000
  let reason ← text reason "priority reason" 4000
  let node ← nodeOf db projectId nodeKey
  ensure (node.priority = expectedPriority) (.conflict "node priority changed; reload before reprioritizing")
  if node.priority = priority then
    return (⟨nodeKey, node.revision, node.status, [], [], false⟩, db)
  else
    return (⟨nodeKey, node.revision, node.status, [], [], true⟩,
      (db.setNode (projectId, nodeKey) (fun n => { n with priority := priority })).event projectId
        (some nodeKey) "node_priority_set" ([("previous", .int node.priority), ("current", .int priority),
          ("revision", .int node.revision), ("reason", .str reason)] ++ optional "actor" actor .str ++
          optional "director_identity" directorIdentity .str))

/-- A row of the legacy task table: its prompt, status and dependencies. -/
structure LegacyTask where
  id : Nat
  prompt : String
  status : String
  dependencies : List Nat

def legacyKey (id : Nat) : String := "legacy-" ++ toString id

def legacySpec (task : LegacyTask) (goal : String) : NodeSpec where
  key := legacyKey task.id
  goal := goal
  acceptance := [⟨"legacy-revalidation", "review",
    "Replace this import contract with explicit criteria and revalidate the historical result"⟩]
  dependencies := task.dependencies.map legacyKey
  priority := 0
  facet := none

def legacyStatus (db : DB) (projectId sourceProjectId : String) (task : LegacyTask) : DB :=
  let db := if task.status = "completed" then
      db.setNode (projectId, legacyKey task.id) (fun n => { n with status := .CANDIDATE })
    else if task.status = "superseded" then
      db.setNode (projectId, legacyKey task.id) (fun n => { n with status := .SUPERSEDED })
    else db
  db.event projectId (some (legacyKey task.id)) "legacy_task_imported"
    [("source_project_id", .str sourceProjectId), ("legacy_status", .str task.status),
      ("requires_new_contract_and_validation", .bool true)]

/-- `import_tasks`: the legacy snapshot of one run, whose completed tasks become
candidates and never verified facts. -/
def importTasks (host : Host) (db : DB) (projectId sourceProjectId : String) (tasks : List LegacyTask) :
    Result (List String × DB) := do
  let _ ← key sourceProjectId "source project"
  let _ ← projectOf db projectId
  ensure (tasks ≠ []) (.graph "legacy source has no tasks")
  let specs ← tasks.mapM (fun task => do
    ensure (task.dependencies.all (fun d => decide (d ∈ tasks.map LegacyTask.id)))
      (.graph "legacy task has a dangling or cross-project dependency")
    let goal ← text task.prompt "legacy task goal" 20000
    return legacySpec task goal)
  let (created, db) ← add host db projectId specs
  return (created, tasks.foldl (fun db task => legacyStatus db projectId sourceProjectId task) db)

/-- `dependency_snapshot`, in key order. -/
def dependencySnapshot (db : DB) (id : NodeId) : List SnapshotRow :=
  (depsOf db id.1 id.2).filterMap (fun d => (db.node? (id.1, d)).map (fun n =>
    ⟨n.nodeKey, n.revision, n.contractHash, n.status, n.verifiedReceipt⟩))

def SnapshotRow.accepted (r : SnapshotRow) : Bool :=
  decide (r.status = .VERIFIED) && truthy r.verifiedReceipt

end AItelier.State
