import AItelier.Lib.Breadth
import AItelier.State.Design

namespace AItelier.State

open AItelier.Lib

-- What `design_impact` tells of bound nodes is left out.

def pathLimit : Nat := 32

/-- Pins in the order of their id, then their revision. -/
def pinOrder (a b : DesignRef) : Ordering :=
  (compareOfLessAndEq a.designId.toList b.designId.toList).then (compare a.revision b.revision)

def sortPins (pins : List DesignRef) : List DesignRef := pins.insertionSort (fun a b => (pinOrder a b).isLE)

theorem mem_sortPins {pin : DesignRef} {pins : List DesignRef} : pin ∈ sortPins pins ↔ pin ∈ pins :=
  (List.perm_insertionSort _ pins).mem_iff

section Store
variable (db : DB) (projectId : String)

/-- `_candidate_rows`, of the selected revisions only. -/
def candidateRows (selected : List DesignRef) : List DesignRevision :=
  (sortPins selected.dedup).filterMap (fun pin =>
    db.designRevisions.find? (fun x => decide (x.projectId = projectId ∧ x.ref = pin)))

/-- `_baseline`: the one that was asked for, or the current one. -/
def selection (baselineId : Option String) : Result (Option DesignBaseline) := do
  let _ ← projectOf db projectId
  match baselineId.or (designHead db projectId) with
  | none => return none
  | some id => do
    let baseline ← designBaseline db projectId id
    return some baseline

end Store

def DesignContent.targets (c : DesignContent) (type : RelationType) : List DesignRef :=
  (c.relations.filter (fun rel => decide (rel.type = type))).map DesignRelation.target

/-- `reverse`: the selected designs that depend on one, once for each relation. -/
def dependentsOf (rows : List DesignRevision) (target : DesignRef) : List DesignRef :=
  sortPins (rows.flatMap (fun row =>
    ((row.content.targets .dependsOn).filter (fun t => decide (t = target))).map (fun _ => row.ref)))

/-- The traversal: one deterministic shortest way to each design it visits. -/
def traverse (rows : List DesignRevision) (root : DesignRef) (maxVisits : Nat) : Wave DesignRef :=
  (Wave.start root).sweep (dependentsOf rows) maxVisits maxVisits

structure Edge where
  type : RelationType
  source : DesignRef
  target : DesignRef
  outgoing : Bool
  sourceSelected : Bool
  targetSelected : Bool
  sourceStatus : DesignStatus
  rationale : String
  rationaleTruncated : Bool

def Edge.direction (e : Edge) : String := if e.outgoing then "outgoing" else "incoming"

def edgeOrder (a b : Edge) : Ordering :=
  ((compareOfLessAndEq a.type.text.toList b.type.text.toList).then
    (compareOfLessAndEq a.direction.toList b.direction.toList)).then
    ((pinOrder a.source b.source).then (pinOrder a.target b.target))

/-- The relations that the design itself declares, and those that selected designs declare to it. -/
def directEdges (rows : List DesignRevision) (subject : DesignRevision) : List Edge :=
  let pins := rows.map DesignRevision.ref
  let sources := if subject.ref ∈ pins then rows else subject :: rows
  (sources.flatMap (fun source =>
    (source.content.relations.filter (fun rel => decide (source.ref = subject.ref ∨ rel.target = subject.ref))).map
      (fun rel =>
        { type := rel.type, source := source.ref, target := rel.target
          outgoing := decide (source.ref = subject.ref)
          sourceSelected := decide (source.ref ∈ pins), targetSelected := decide (rel.target ∈ pins)
          sourceStatus := source.content.lifecycleStatus
          rationale := String.ofList (rel.rationale.toList.take 360)
          rationaleTruncated := decide (360 < rel.rationale.toList.length) }))).insertionSort
    (fun a b => (edgeOrder a b).isLE)

/-- A design that depends on the changed one, with the way from there to it. -/
structure Dependent where
  ref : DesignRef
  title : String
  lifecycleStatus : DesignStatus
  path : List DesignRef
  pathLength : Nat
  pathTruncated : Bool

/-- The first and the last of a path that is too long to be shown. -/
def clipPath (path : List DesignRef) : List DesignRef :=
  if path.length ≤ pathLimit then path
  else path.take (pathLimit / 2) ++ path.drop (path.length - pathLimit / 2)

def dependent (wave : Wave DesignRef) (maxVisits : Nat) (row : DesignRevision) : Dependent :=
  let path := (Wave.back wave.parents maxVisits row.ref).reverse
  ⟨row.ref, row.content.title, row.content.lifecycleStatus, clipPath path, path.length,
    decide (pathLimit < path.length)⟩

def dependentDesigns (rows : List DesignRevision) (root : DesignRef) (wave : Wave DesignRef) (maxVisits : Nat) :
    List Dependent :=
  (sortPins ((wave.parents.map Prod.fst).filter (fun pin => decide (pin ≠ root)))).filterMap (fun pin =>
    (rows.find? (fun row => decide (row.ref = pin))).map (dependent wave maxVisits))

/-- `_page`. -/
structure Page (α : Type) where
  items : List α
  total : Nat
  totalIsExact : Bool
  truncated : Bool

def page {α : Type} (items : List α) (limit : Nat) (complete : Bool) : Page α :=
  ⟨items.take limit, items.length, complete, !complete || decide (limit < items.length)⟩

structure Impact where
  baseline : DesignBaseline
  subject : DesignRevision
  selected : Bool
  directRelations : Page Edge
  declaredConflicts : Page Edge
  dependentDesigns : Page Dependent
  visited : Nat
  maxVisits : Nat
  truncated : Bool

def impactOf (rows : List DesignRevision) (baseline : DesignBaseline) (subject : DesignRevision)
    (limit maxVisits : Nat) :
    Impact :=
  let wave := traverse rows subject.ref maxVisits
  let direct := directEdges rows subject
  { baseline := baseline, subject := subject
    selected := decide (subject.ref ∈ rows.map DesignRevision.ref)
    directRelations := page direct limit true
    declaredConflicts := page (direct.filter (fun e => decide (e.type = .conflictsWith))) limit true
    dependentDesigns := page (dependentDesigns rows subject.ref wave maxVisits) limit (!wave.clipped)
    visited := wave.parents.length, maxVisits := maxVisits, truncated := wave.clipped }

/-- `impact`. -/
def impact (db : DB) (projectId designId : String) (revision : Int) (baselineId : Option String)
    (limit maxVisits : Int) : Result Impact := do
  let limit ← integer limit "limit" 1 100
  let maxVisits ← integer maxVisits "max_visits" 1 1000
  let selected ← selection db projectId baselineId
  let baseline ← orElse selected
    (.conflict "design_impact requires an explicit or current baseline; no selection exists")
  let pin ← refOf designId revision
  let subject ← designRevision db projectId pin
  return impactOf (candidateRows db projectId (baseline.selected.map Prod.fst)) baseline subject
    limit.toNat maxVisits.toNat

end AItelier.State
