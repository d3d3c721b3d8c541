import AItelier.Lib.Closure
import AItelier.State.Schema

namespace AItelier.State

open AItelier.Lib

def maxNodes : Nat := 1000

def sortKeys (keys : List String) : List String :=
  keys.insertionSort (fun a b => a.toList ≤ b.toList)

theorem mem_sortKeys {k : String} {keys : List String} : k ∈ sortKeys keys ↔ k ∈ keys :=
  (List.perm_insertionSort _ keys).mem_iff

structure CheckSpec where
  id : String
  kind : String
  description : String
  deriving DecidableEq, Repr

structure NodeSpec where
  key : String
  goal : String
  acceptance : List CheckSpec
  dependencies : List String
  priority : Int
  facet : Option String
  deriving DecidableEq, Repr

def parseKind (s : String) : Option CheckKind :=
  [CheckKind.test, .review, .human, .artifact, .integration].find? (fun k => k.text = s)

def contractChecks : List CheckSpec → List String → Result (List Check)
  | [], _ => .ok []
  | check :: rest, seen => do
    let cid ← key check.id "check id"
    let kind ← orElse (parseKind check.kind) (.graph "check kinds must be supported and IDs unique")
    ensure (cid ∉ seen) (.graph "check kinds must be supported and IDs unique")
    let description ← text check.description "check description" 2000
    let checks ← contractChecks rest (cid :: seen)
    return ⟨cid, kind, description⟩ :: checks

/-- `contract`: 1-64 explicit checks with unique ids, in id order. -/
def contract (value : List CheckSpec) : Result (List Check) := do
  ensure (1 ≤ value.length ∧ value.length ≤ 64)
    (.graph "acceptance requires 1-64 explicit checks; an empty contract cannot pass")
  let checks ← contractChecks value []
  return checks.insertionSort (fun a b => a.id.toList ≤ b.id.toList)

def dependencies (value : List String) : Result (List String) := do
  ensure (value.length ≤ maxNodes) (.graph "dependencies must be a bounded list")
  let keys ← value.mapM (fun v => key v "dependency")
  ensure keys.Nodup (.graph "duplicate dependencies")
  return sortKeys keys

/-- A project's keys with their dependencies, in row order. -/
abbrev Graph := List (String × List String)

def edgeErrors (graph : Graph) : Graph → Result Unit
  | [] => .ok ()
  | (node, deps) :: rest => do
    ensure (node ∉ deps) (.graph "a node cannot depend on itself")
    ensure (deps.all (fun d => decide (d ∈ graph.map Prod.fst)))
      (.graph ("unknown dependency " ++ quote ((deps.find? (fun d => decide (d ∉ graph.map Prod.fst))).getD "")
        ++ " in this project"))
    edgeErrors graph rest

/-- `children[dep]`, one entry for each edge. -/
def children (graph : Graph) (dep : String) : List String :=
  graph.flatMap (fun e => (e.2.filter (· = dep)).map (fun _ => e.1))

/-- One child of a visited node: its degree drops, and it is queued at zero. -/
def relax (state : List (String × Nat) × List String) (child : String) :
    List (String × Nat) × List String :=
  let degree := state.1.map (fun d => if d.1 = child then (d.1, d.2 - 1) else d)
  if (degree.find? (fun d => d.1 = child)).map Prod.snd = some 0 then
    (degree, state.2 ++ [child])
  else (degree, state.2)

/-- The Kahn traversal's count of visited nodes; every node is queued at most
once, so as many rounds as there are nodes empty the queue. -/
def kahn (graph : Graph) : Nat → List (String × Nat) → List String → Nat → Nat
  | 0, _, _, visited => visited
  | _ + 1, _, [], visited => visited
  | fuel + 1, degree, node :: queue, visited =>
    let next := (children graph node).foldl relax (degree, queue)
    kahn graph fuel next.1 next.2 (visited + 1)

def validateDag (graph : Graph) : Result Unit := do
  ensure (graph.length ≤ maxNodes) (.graph ("a project supports at most " ++ toString maxNodes ++ " nodes"))
  edgeErrors graph graph
  let degree := graph.map (fun e => (e.1, e.2.length))
  let queue := (degree.filter (fun d => d.2 = 0)).map Prod.fst
  ensure (kahn graph graph.length degree queue 0 = graph.length)
    (.graph "dependency cycle; use a workflow loop, not a cyclic state dependency")

def facetNames : List Facet := [.content, .contract, .design, .integration, .test]

def checkFacet (value : Option String) : Result (Option Facet) :=
  match value with
  | none => .ok none
  | some v => do
    let facet ← orElse (facetNames.find? (fun f => f.text = v)) (.graph ("facet must be one of [" ++
      String.intercalate ", " (facetNames.map (fun f => quote f.text)) ++ "]"))
    return some facet

/-- A project's keys with their labels, in row order. -/
abbrev Facets := List (String × Option Facet)

def facetOf (facets : Facets) (k : String) : Option Facet :=
  ((facets.find? (fun f => f.1 = k)).map Prod.snd).join

def endsIn (s suffix : String) : Bool :=
  s.toList.drop (s.toList.length - suffix.toList.length) = suffix.toList

/-- `node[:-5]`, the goal a `.test` node belongs to. -/
def testStem (node : String) : String :=
  if endsIn node ".test" then String.ofList (node.toList.take (node.toList.length - 5)) else node

def suffixViolations (node : String) (own : Facet) : List String :=
  [(".contract", Facet.contract), (".test", Facet.test)].filterMap (fun rule =>
    if endsIn node rule.1 ∧ own ≠ rule.2 then
      some ("`" ++ node ++ "` ends with " ++ rule.1 ++ " so its facet must be " ++ rule.2.text ++
        ", not " ++ own.text)
    else none)

def edgeViolation (facets : Facets) (node : String) (own : Facet) (dep : String) : Option String :=
  match facetOf facets dep with
  | none => some ("`" ++ node ++ "` (" ++ own.text ++ ") depends on `" ++ dep ++
      "`, which has no facet yet; set_node_facet on `" ++ dep ++
      "` first — dependencies are faceted bottom-up")
  | some target =>
    if own = .integration ∨ target = .design ∨ target = .contract then none
    else if dep = node ++ ".test" ∨ dep = node ++ ".contract" ∨
        (endsIn node ".test" ∧ dep = testStem node ++ ".contract") then none
    else some ("`" ++ node ++ "` (" ++ own.text ++ ") cannot depend on `" ++ dep ++ "` (" ++ target.text ++
      "): only contract/design nodes may be built on. Create `" ++ dep ++
      ".contract` (facet contract) holding " ++ dep ++ "'s interface + stub/fake and " ++
      "point this edge at it, or make `" ++ node ++ "` facet integration if it truly needs " ++ dep ++
      "'s implementation")

def siblingViolations (facets : Facets) (node : String) (own : Facet) (deps : List String) : List String :=
  if own = .content ∨ own = .test then
    let siblings := (testStem node ++ ".contract") :: (if own = .content then [node ++ ".test"] else [])
    siblings.filterMap (fun sibling =>
      if sibling ∈ facets.map Prod.fst ∧ sibling ≠ node ∧ sibling ∉ deps then
        some ("`" ++ node ++ "` has `" ++ sibling ++ "` but does not depend on it; add the dependency so " ++
          "contract → test → implementation is the accepted order")
      else none)
  else []

def depsIn (graph : Graph) (node : String) : List String :=
  ((graph.find? (fun e => e.1 = node)).map Prod.snd).getD []

/-- `facet_violations`: every rule about facets, as messages that name the fix. -/
def facetViolations (facets : Facets) (graph : Graph) : List String :=
  facets.flatMap (fun entry =>
    match entry.2 with
    | none => []
    | some own =>
      let deps := depsIn graph entry.1
      suffixViolations entry.1 own ++ (sortKeys deps.dedup).filterMap (edgeViolation facets entry.1 own) ++
        siblingViolations facets entry.1 own deps)

def checkFacets (facets : Facets) (graph : Graph) : Result Unit :=
  let problems := facetViolations facets graph
  ensure (problems = []) (.graph ("facet rules: " ++ String.intercalate " | " (problems.take 5) ++
    (if problems.length > 5 then
      " | (+" ++ toString (problems.length - 5) ++ " more; see facet_lint)" else "")))

section Store
variable (db : DB)

def projectOf (projectId : String) : Result Project := do
  let _ ← key projectId "key"
  orElse (lookup Project.projectId db.projects projectId)
    (.notFound ("state project " ++ quote projectId ++ " not found"))

def nodeOf (projectId nodeKey : String) : Result Node := do
  let _ ← key projectId "key"
  let _ ← key nodeKey "key"
  orElse (db.node? (projectId, nodeKey)) (.notFound ("state node " ++ projectId ++ "/" ++ nodeKey ++ " not found"))

def projectNodes (projectId : String) : List Node :=
  db.nodes.filter (fun n => decide (n.projectId = projectId))

def depsOf (projectId nodeKey : String) : List String :=
  sortKeys ((db.dependencies.filter (fun d => decide (d.projectId = projectId ∧ d.nodeKey = nodeKey))).map
    Dependency.dependencyKey)

def graphOf (projectId : String) : Graph :=
  (projectNodes db projectId).map (fun n => (n.nodeKey, depsOf db projectId n.nodeKey))

def facetsOf (projectId : String) : Facets :=
  (projectNodes db projectId).map (fun n => (n.nodeKey, n.facet))

/-- `_snapshot_revision`, refused where the revision was already recorded. -/
def snapshotRevision (node : Node) (deps : List String) : Result DB := do
  ensure (¬ db.revisions.any (fun r => decide (r.projectId = node.projectId ∧ r.nodeKey = node.nodeKey ∧
    r.revision = node.revision))) (.integrity "state_node_revisions")
  return { db with revisions := db.revisions ++ [⟨node.projectId, node.nodeKey, node.revision, node.goal,
    node.contract, node.contractHash, deps⟩] }

end Store

end AItelier.State
