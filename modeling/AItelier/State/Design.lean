import AItelier.State.GraphStore

namespace AItelier.State

open AItelier.Lib

def DesignRef.toJson (r : DesignRef) : Json :=
  .obj [("design_id", .str r.designId), ("revision", .int r.revision)]

def DesignRelation.toJson (r : DesignRelation) : Json :=
  .obj [("type", .str r.type.text), ("target", r.target.toJson), ("rationale", .str r.rationale)]

def scopeJson (scope : List (String × String)) : Json :=
  .obj (scope.map (fun d => (d.1, .str d.2)))

def DesignContent.toJson (c : DesignContent) : Json :=
  .obj [("title", .str c.title), ("statement", .str c.statement), ("rationale", .str c.rationale),
    ("open_questions", .strings c.openQuestions), ("scope", scopeJson c.scope),
    ("lifecycle_status", .str c.lifecycleStatus.text), ("kind", .str c.kind.text),
    ("parent_revision", .ofNatOption c.parentRevision), ("relations", .arr (c.relations.map DesignRelation.toJson))]

def DesignRevision.ref (r : DesignRevision) : DesignRef := ⟨r.designId, r.revision⟩

def DesignRevision.toJson (r : DesignRevision) : Json :=
  .obj [("project_id", .str r.projectId), ("design_id", .str r.designId), ("revision", .int r.revision),
    ("content_hash", .str r.contentHash), ("author", .str r.author), ("created_at", .str r.createdAt),
    ("content", r.content.toJson)]

def manifestJson (selected : List (DesignRef × String)) : Json :=
  .obj [("selected_revisions", .arr (selected.map (fun s => .obj [("design_id", .str s.1.designId),
    ("revision", .int s.1.revision), ("content_hash", .str s.2)])))]

/-- Rows in the order of their canonical text. -/
def sortCanonical {α : Type} (render : α → Json) (rows : List α) : List α :=
  rows.insertionSort (fun a b => (canonical (render a)).toList ≤ (canonical (render b)).toList)

/-- `_scope`: explicit metadata, in key order. -/
def scopeOf (value : List (String × String)) : Result (List (String × String)) := do
  ensure (1 ≤ value.length ∧ value.length ≤ 16)
    (.graph "scope must contain 1-16 explicit dimension/value pairs")
  (value.insertionSort (fun a b => a.1.toList ≤ b.1.toList)).mapM (fun d => do
    let dimension ← key d.1 "scope dimension"
    let v ← key d.2 "scope value"
    return (dimension, v))

/-- `_ref`. -/
def refOf (designId : String) (revision : Int) : Result DesignRef := do
  let d ← key designId "design id"
  let r ← integer revision "design revision" 1 1000000
  return ⟨d, r.toNat⟩

structure RelationSpec where
  type : String
  designId : String
  revision : Int
  rationale : String

structure DesignSpec where
  designId : String
  expectedRevision : Int
  title : String
  statement : String
  rationale : String
  openQuestions : List String
  scope : List (String × String)
  lifecycleStatus : String
  kind : String
  relations : List RelationSpec

def parseDesignStatus (s : String) : Option DesignStatus :=
  [DesignStatus.draft, .approved, .historical].find? (fun x => x.text = s)

def parseDesignKind (s : String) : Option DesignKind :=
  [DesignKind.rule, .decision, .explanatory].find? (fun x => x.text = s)

def parseRelationType (s : String) : Option RelationType :=
  [RelationType.dependsOn, .references, .supersedes, .conflictsWith].find? (fun x => x.text = s)

def relationOf (spec : RelationSpec) : Result DesignRelation := do
  let type ← orElse (parseRelationType spec.type) (.graph "unsupported design relation")
  let target ← refOf spec.designId spec.revision
  let rationale ← text spec.rationale "relation rationale" 2000
  return ⟨type, target, rationale⟩

/-- The payload of `create_revision`, checked before the transaction. -/
def designContent (spec : DesignSpec) : Result DesignContent := do
  let _ ← key spec.designId "design id"
  let _ ← integer spec.expectedRevision "expected revision" 0 1000000
  let status ← orElse (parseDesignStatus spec.lifecycleStatus) (.graph "unsupported design status or kind")
  let kind ← orElse (parseDesignKind spec.kind) (.graph "unsupported design status or kind")
  ensure (spec.openQuestions.length ≤ 64) (.graph "open_questions must be a bounded list")
  let questions ← spec.openQuestions.mapM (fun q => text q "open question" 2000)
  ensure (questions = [] ∨ status ≠ .approved)
    (.graph "unresolved questions cannot be approved; split unresolved work into a draft item")
  let title ← text spec.title "title" 400
  let statement ← text spec.statement "statement" 20000
  let rationale ← text spec.rationale "rationale" 20000
  let scope ← scopeOf spec.scope
  ensure (spec.relations.length ≤ 64) (.graph "relations must be a bounded list")
  let relations ← spec.relations.mapM relationOf
  ensure (relations.map (fun r => (r.target, r.type))).Nodup (.graph "duplicate design relation")
  return ⟨title, statement, rationale, questions, scope, status, kind,
    if spec.expectedRevision = 0 then none else some spec.expectedRevision.toNat,
    sortCanonical DesignRelation.toJson relations⟩

section Store
variable (db : DB) (projectId : String)

/-- `_revision`: an exact design revision. -/
def designRevision (r : DesignRef) : Result DesignRevision :=
  orElse (db.designRevisions.find? (fun x => decide (x.projectId = projectId ∧ x.ref = r)))
    (.notFound "exact design revision not found")

/-- `_baseline`. -/
def designBaseline (baselineId : String) : Result DesignBaseline := do
  let b ← key baselineId "baseline id"
  orElse (db.designBaselines.find? (fun x => decide (x.projectId = projectId ∧ x.baselineId = b)))
    (.notFound "exact design baseline not found")

def latestDesign (designId : String) : Nat :=
  ((db.designRevisions.filter (fun x => decide (x.projectId = projectId ∧ x.designId = designId))).map
    DesignRevision.revision).foldl max 0

def designHead : Option String :=
  (db.designHeads.find? (fun h => decide (h.projectId = projectId))).map DesignHead.baselineId

/-- `create_revision`. -/
def createRevision (host : Host) (actor createdAt : String) (spec : DesignSpec) : Result (DesignRevision × DB) := do
  let content ← designContent spec
  let _ ← projectOf db projectId
  let latest := latestDesign db projectId spec.designId
  ensure ((latest : Int) = spec.expectedRevision) (.conflict "design revision changed; reload before editing")
  content.relations.forM (fun r => do
    ensure (r.target ≠ ⟨spec.designId, latest + 1⟩) (.graph "a design revision cannot relate to itself")
    let target ← designRevision db projectId r.target
    ensure (r.type ≠ .supersedes ∨ target.content.scope = content.scope)
      (.graph "supersedes supports only complete items with identical scope; split partial overrides"))
  let _ ← integer (latest + 1) "design revision" 1 1000000
  let row : DesignRevision := ⟨projectId, spec.designId, latest + 1, content, host.digest content.toJson,
    actor, createdAt⟩
  return (row, { db with designRevisions := db.designRevisions ++ [row] }.event projectId none
    "design_revision_created" [("design_id", .str row.designId), ("revision", .int row.revision),
      ("content_hash", .str row.contentHash), ("actor", .str actor)])

/-- The conditions on the relations of a selected item itself. -/
def selectedRelation (selected : List DesignRef) (source : DesignRevision) (r : DesignRelation)
    (target : DesignRevision) : Result Unit :=
  whenever (r.type = .dependsOn ∨ r.type = .references) (do
    ensure (r.target ∈ selected)
      (.graph "design reference must resolve to the exact revision selected in this baseline")
    ensure (¬ (r.type = .dependsOn ∧ source.content.lifecycleStatus = .approved ∧
      target.content.lifecycleStatus ≠ .approved))
      (.graph "approved design cannot depend on a non-approved requirement"))

/-- One relation of a visited item: a superseded target joins the ancestors and
is visited in turn, once. -/
def visitRelation (selected : List DesignRef) (root : Bool) (source : DesignRevision)
    (acc : List DesignRef × List DesignRevision) (r : DesignRelation) :
    Result (List DesignRef × List DesignRevision) := do
  let target ← designRevision db projectId r.target
  whenever (root = true) (selectedRelation selected source r target)
  if r.type = .supersedes ∧ r.target ∉ acc.1 then return (acc.1 ++ [r.target], acc.2 ++ [target])
  else return acc

/-- Everything a selected item supersedes, directly or not. Each target is
pushed at most once, so one round more than there are design rows empties the
stack. -/
def supersededItems (selected : List DesignRef) : Nat → Bool → List DesignRef → List DesignRevision →
    Result (List DesignRef)
  | 0, _, ancestors, _ => .ok ancestors
  | fuel + 1, root, ancestors, pending =>
    match pending.getLast? with
    | none => .ok ancestors
    | some source => do
      let (ancestors, pending) ← source.content.relations.foldlM (visitRelation db projectId selected root source)
        (ancestors, pending.dropLast)
      supersededItems selected fuel false ancestors pending

/-- `create_baseline`. -/
def createBaseline (host : Host) (actor baselineId : String) (selectedRevisions : List (String × Int))
    (expectedBaselineId : Option String) : Result (DesignBaseline × DB) := do
  let _ ← key baselineId "baseline id"
  let _ ← expectedBaselineId.mapM (fun b => key b "expected baseline id")
  ensure (1 ≤ selectedRevisions.length ∧ selectedRevisions.length ≤ 1000)
    (.graph "baseline requires 1-1000 exact revisions")
  let refs ← selectedRevisions.mapM (fun r => refOf r.1 r.2)
  let refs := refs.insertionSort (fun a b => a.designId.toList ≤ b.designId.toList)
  ensure (refs.map DesignRef.designId).Nodup (.graph "a baseline selects exactly one revision per design ID")
  let _ ← projectOf db projectId
  ensure (¬ db.designBaselines.any (fun b => decide (b.projectId = projectId ∧ b.baselineId = baselineId)))
    (.conflict "baseline ID is immutable and cannot be reused")
  ensure (designHead db projectId = expectedBaselineId)
    (.conflict "current baseline changed; reload before selecting")
  let revisions ← refs.mapM (designRevision db projectId)
  let _ ← revisions.foldlM (fun replaced rev => do
    let ancestors ← supersededItems db projectId refs (db.designRevisions.length + 1) true [] [rev]
    ensure (¬ ancestors.any (fun a => decide (a ∈ refs ∨ a ∈ replaced)))
      (.conflict "conflicting full-item supersession in baseline")
    return replaced ++ ancestors) []
  let selected := revisions.map (fun r => (r.ref, r.contentHash))
  let row : DesignBaseline := ⟨projectId, baselineId, selected, host.digest (manifestJson selected), actor⟩
  let heads := if db.designHeads.any (fun h => decide (h.projectId = projectId)) then
      modifyWhere (fun h => decide (h.projectId = projectId))
        (fun h => { h with baselineId := baselineId }) db.designHeads
    else db.designHeads ++ [⟨projectId, baselineId⟩]
  return (row, { db with designBaselines := db.designBaselines ++ [row], designHeads := heads }.event projectId none
    "design_baseline_selected" [("baseline_id", .str baselineId),
      ("previous_baseline_id", .ofOption expectedBaselineId), ("manifest_hash", .str row.manifestHash),
      ("actor", .str actor)])

structure BindingSpec where
  designId : String
  revision : Int
  purpose : String
  coverageScope : List (String × String)

structure PreparedBinding where
  ref : DesignRef
  purpose : String
  coverage : List (String × String)
  design : DesignRevision

def PreparedBinding.toJson (b : PreparedBinding) : Json :=
  .obj [("design_id", .str b.ref.designId), ("revision", .int b.ref.revision), ("purpose", .str b.purpose),
    ("coverage_scope", scopeJson b.coverage), ("design", b.design.toJson)]

def prepareBinding (selected : List (DesignRef × String)) (spec : BindingSpec) : Result PreparedBinding := do
  let r ← refOf spec.designId spec.revision
  ensure (spec.purpose ∈ ["implements", "verifies", "context"])
    (.graph "binding purpose must be implements, verifies or context")
  ensure (r ∈ selected.map Prod.fst) (.graph "binding revision is not selected in this baseline")
  let revision ← designRevision db projectId r
  let coverage ← scopeOf spec.coverageScope
  ensure (coverage = revision.content.scope)
    (.graph "MVP binding covers a complete item scope; split partial coverage into separate items")
  ensure (spec.purpose = "context" ∨ revision.content.lifecycleStatus = .approved)
    (.graph "implements/verifies requires an approved design revision")
  return ⟨r, spec.purpose, coverage, revision⟩

/-- One relation of a visited item: a `depends_on` target that was not seen yet
is included and visited in turn. -/
def followDependency (acc : List DesignRef × List DesignRevision × List DesignRevision) (r : DesignRelation) :
    Result (List DesignRef × List DesignRevision × List DesignRevision) :=
  if r.type = .dependsOn ∧ r.target ∉ acc.1 then do
    let target ← designRevision db projectId r.target
    return (acc.1 ++ [r.target], acc.2.1 ++ [target], acc.2.2 ++ [target])
  else return acc

/-- The `depends_on` closure of the bound items, as many rounds as could be
pushed. -/
def designDependencies : Nat → List DesignRef → List DesignRevision → List DesignRevision →
    Result (List DesignRevision)
  | 0, _, found, _ => .ok found
  | fuel + 1, seen, found, pending =>
    match pending.getLast? with
    | none => .ok found
    | some source => do
      let (seen, found, pending) ← source.content.relations.foldlM (followDependency db projectId)
        (seen, found, pending.dropLast)
      designDependencies fuel seen found pending

def bindingJson (baseline : DesignBaseline) (bindings : List PreparedBinding) (found : List DesignRevision) : Json :=
  .obj [("baseline_id", .str baseline.baselineId), ("manifest_hash", .str baseline.manifestHash),
    ("manifest", manifestJson baseline.selected), ("bindings", .arr (bindings.map PreparedBinding.toJson)),
    ("design_dependencies", .arr ((found.insertionSort (fun a b => a.designId.toList < b.designId.toList ∨
      (a.designId = b.designId ∧ a.revision ≤ b.revision))).map DesignRevision.toJson))]

/-- `bind_node`: the existing revision and invalidation, with the selection it was
bound to; no design edge becomes a dependency. -/
def bindNode (host : Host) (actor nodeKey : String) (expectedRevision : Int) (baselineId : String)
    (bindings : List BindingSpec) (reason : String) : Result (NodeChange × DB) := do
  ensure (1 ≤ bindings.length ∧ bindings.length ≤ 64) (.graph "bindings require 1-64 explicit items")
  let _ ← nodeOf db projectId nodeKey
  let baseline ← designBaseline db projectId baselineId
  let bound ← bindings.mapM (prepareBinding db projectId baseline.selected)
  let bound := sortCanonical PreparedBinding.toJson bound
  ensure (bound.map (fun b => (b.ref.designId, b.purpose))).Nodup (.graph "duplicate design binding")
  let found ← designDependencies db projectId (bound.length + db.designRevisions.length)
    (bound.map PreparedBinding.ref) [] (bound.map PreparedBinding.design)
  let snapshot := bindingJson baseline bound found
  let (change, db) ← revise host db projectId nodeKey expectedRevision reason none none none
  ensure (¬ db.designBindings.any (fun b => decide (b.projectId = projectId ∧ b.nodeKey = nodeKey ∧
    b.nodeRevision = change.revision))) (.integrity "state_design_bindings")
  let row : DesignBinding := ⟨projectId, nodeKey, change.revision, snapshot, host.digest snapshot⟩
  return (change, { db with designBindings := db.designBindings ++ [row] }.event projectId (some nodeKey)
    "node_design_bound" [("node_revision", .int change.revision), ("baseline_id", .str baselineId),
      ("binding_snapshot_hash", .str row.snapshotHash), ("actor", .str actor)])

end Store

end AItelier.State
