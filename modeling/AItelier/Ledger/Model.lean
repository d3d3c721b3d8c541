import AItelier.State.GraphStore

namespace AItelier.Ledger

open AItelier.Lib AItelier.State

/-- What stands about a node: its contract at a revision, and the receipt that
accepted it, if any. -/
structure Fact where
  revision : Nat
  contractHash : String
  criteria : List String
  status : NodeStatus
  receipt : Option String

/-- An attempt, with the contract and the dependency receipts it pinned. -/
structure Try where
  node : NodeId
  revision : Nat
  contractHash : String
  pins : List SnapshotRow
  status : AttemptStatus
  artifact : Option String
  run : Option String
  owner : Option String
  fence : Nat
  abandonKind : Option AbandonKind

end AItelier.Ledger

namespace AItelier

open AItelier.Lib AItelier.State

/-- The acceptance ledger: what the store is for, without its leases, reports,
claims and schedules. -/
structure Ledger where
  facts : NodeId → Option Ledger.Fact
  deps : NodeId → List NodeId
  tries : String → Option Ledger.Try
  order : List String
  latest : NodeId → Option String
  evidence : List Evidence
  acceptances : List Acceptance

namespace Ledger

def empty : Ledger where
  facts := fun _ => none
  deps := fun _ => []
  tries := fun _ => none
  order := []
  latest := fun _ => none
  evidence := []
  acceptances := []

def Fact.row (key : String) (f : Fact) : SnapshotRow :=
  ⟨key, f.revision, f.contractHash, f.status, f.receipt⟩

/-- The dependencies of a node as they stand. -/
def snapshot (L : Ledger) (k : NodeId) : List SnapshotRow :=
  (L.deps k).filterMap (fun d => (L.facts d).map (Fact.row d.2))

/-- What the attempt pinned is what stands. -/
structure PinsCurrent (L : Ledger) (t : Try) (f : Fact) : Prop where
  fact : L.facts t.node = some f
  revision : f.revision = t.revision
  contractHash : f.contractHash = t.contractHash
  open_ : f.status ≠ .SUPERSEDED
  snapshot : L.snapshot t.node = t.pins
  accepted : ∀ r ∈ t.pins, r.accepted = true

def acceptance? (L : Ledger) (receipt : String) : Option Acceptance :=
  lookup Acceptance.receiptId L.acceptances receipt

/-- The latest evidence of one criterion of an attempt. -/
def judged (L : Ledger) (attemptId criterion : String) : Option Evidence :=
  Lib.latest (fun e => decide (e.attemptId = attemptId ∧ e.criterionId = criterion)) L.evidence

/-- The node's acceptance rests on this attempt. -/
def Rests (L : Ledger) (k : NodeId) (attemptId : String) : Prop :=
  ∃ f receipt r, L.facts k = some f ∧ f.status = .VERIFIED ∧ f.receipt = some receipt ∧ receipt ≠ "" ∧
    L.acceptance? receipt = some r ∧ r.attemptId = attemptId

def Fact.stale (f : Fact) : Fact :=
  if f.status = .SUPERSEDED then f else { f with status := .STALE, receipt := none }

def setFact (L : Ledger) (k : NodeId) (f : Fact) : Ledger :=
  { L with facts := Function.update L.facts k (some f) }

def setTry (L : Ledger) (i : String) (t : Try) : Ledger :=
  { L with tries := Function.update L.tries i (some t) }

def invalidate (L : Ledger) (U : List NodeId) : Ledger :=
  { L with facts := fun k => if k ∈ U then (L.facts k).map Fact.stale else L.facts k }

def admission (L : Ledger) (i : String) (t : Try) : Ledger :=
  { L with
    tries := Function.update L.tries i (some t)
    order := L.order ++ [i]
    latest := Function.update L.latest t.node (some i) }

/-- Which of the two disciplines a run keeps, that the store itself does not:
`scope`, that an artifact is pinned late only where the evidence already names
it; `review`, that a node is offered for review on its latest attempt and that
attempt is not withdrawn while it is offered. -/
structure Discipline where
  scope : Prop
  review : Prop

/-- No discipline but the store's own. -/
def Discipline.none : Discipline := ⟨False, False⟩

/-- How one attempt may change. -/
structure Move (D : Discipline) (L : Ledger) (i : String) (t t' : Try) : Prop where
  node : t'.node = t.node
  revision : t'.revision = t.revision
  contractHash : t'.contractHash = t.contractHash
  pins : t'.pins = t.pins
  settled : t'.status.active = true → t.status.active = true
  abandoned : t.status = .abandoned → t'.status = .abandoned ∧ t'.abandonKind = t.abandonKind
  reserved : t'.status = .reserved → t.status = .reserved
  artifact : t'.artifact = t.artifact ∨
    (t'.status.active = false ∧ (t.artifact = none ∨ t.status.active = true))
  run : t'.run = t.run ∨
    (t.run = none ∧ ∃ r, t'.run = some r ∧ ∀ j u, L.tries j = some u → u.run ≠ some r)
  owner : (t'.owner = t.owner ∧ t.fence ≤ t'.fence) ∨ t.fence < t'.fence
  protected_ : t.status = .candidate → t'.status ≠ .candidate → ¬ L.Rests t.node i
  late : D.scope → t'.artifact ≠ t.artifact → t.status.active = false →
    ∀ e ∈ L.evidence, e.attemptId = i → t'.artifact = some e.artifactRef
  reviewed : D.review → t.status = .candidate → t'.status ≠ .candidate →
    ∀ f, L.facts t.node = some f → f.status = .CANDIDATE → L.latest t.node ≠ some i

/-- New nodes: unaccepted, with dependencies that exist, next to the old ones as
they were. -/
structure Grows (D : Discipline) (L : Ledger) (facts : NodeId → Option Fact) (deps : NodeId → List NodeId) :
    Prop where
  kept : ∀ k f, L.facts k = some f → facts k = some f ∧ deps k = L.deps k
  fresh : ∀ k f, L.facts k = none → facts k = some f →
    f.receipt = none ∧ f.status ≠ .VERIFIED ∧ (D.review → f.status ≠ .CANDIDATE)
  wired : ∀ k, L.facts k = none → ∀ d ∈ deps k, d ∈ L.deps k ∨ ((facts k).isSome ∧ (facts d).isSome)

/-- An attempt as it is admitted: it pins the node and its verified dependencies
as they stand, and takes the node's one active slot. -/
structure Admits (L : Ledger) (i : String) (t : Try) (f : Fact) : Prop where
  fact : L.facts t.node = some f
  unverified : f.status ≠ .VERIFIED
  open_ : f.status ≠ .SUPERSEDED
  revision : t.revision = f.revision
  contractHash : t.contractHash = f.contractHash
  pins : t.pins = L.snapshot t.node
  accepted : ∀ r ∈ t.pins, r.accepted = true
  fresh : L.tries i = none
  unlisted : i ∉ L.order
  active : t.status.active = true
  artifact : t.artifact = none
  run : t.run = none
  alone : ∀ j u, L.tries j = some u → u.node = t.node → u.status.active = false

/-- Evidence an attempt may take. -/
structure Attests (L : Ledger) (t : Try) (e : Evidence) : Prop where
  tried : L.tries e.attemptId = some t
  settled : t.status.active = false
  fresh : ∀ p ∈ L.evidence, p.evidenceId ≠ e.evidenceId
  unrested : t.status = .candidate → ¬ L.Rests t.node e.attemptId
  named : e.artifactRef ≠ ""
  own : ∀ a, t.artifact = some a → a ≠ "" → e.artifactRef = a
  same : truthy t.artifact = false → ∀ p, L.evidence.find? (fun p => decide (p.attemptId = e.attemptId)) = some p →
    p.artifactRef = "" ∨ p.artifactRef = e.artifactRef

/-- A receipt that may be issued. -/
structure Accepts (L : Ledger) (r : Acceptance) (f : Fact) (t : Try) : Prop where
  tried : L.tries r.attemptId = some t
  node : t.node = (r.projectId, r.nodeKey)
  candidate : t.status = .candidate
  pinned : truthy t.artifact = true
  current : PinsCurrent L t f
  latest : L.latest t.node = some r.attemptId
  unaccepted : truthy f.receipt = false
  revision : r.nodeRevision = f.revision
  contractHash : r.contractHash = f.contractHash
  pins : r.dependencySnapshot = t.pins
  artifact : t.artifact = some r.artifactRef
  met : ∀ c ∈ f.criteria, (L.judged r.attemptId c).map Evidence.verdict = some .pass
  evidence : r.evidenceIds = f.criteria.filterMap (fun c => (L.judged r.attemptId c).map Evidence.evidenceId)
  fresh : L.acceptance? r.receiptId = none
  named : r.receiptId ≠ ""

/-- What a transaction of the store amounts to, one ledger step at a time. -/
inductive Step (D : Discipline) : Ledger → Ledger → Prop
  | grow {L : Ledger} (facts : NodeId → Option Fact) (deps : NodeId → List NodeId) (grows : Grows D L facts deps) :
      Step D L { L with facts := facts, deps := deps }
  | invalidate {L : Ledger} (U : List NodeId) (closed : ∀ k, ∀ d ∈ L.deps k, d ∈ U → k ∈ U) :
      Step D L (L.invalidate U)
  | rewrite {L : Ledger} (k : NodeId) (f f' : Fact) (deps : List NodeId) (fact : L.facts k = some f)
      (stale : f.status = .STALE) (revision : f'.revision = f.revision + 1)
      (status : f'.status = f.status) (receipt : f'.receipt = f.receipt)
      (wired : ∀ d ∈ deps, (L.facts d).isSome) :
      Step D L { L.setFact k f' with deps := Function.update L.deps k deps }
  | close {L : Ledger} (k : NodeId) (f : Fact) (fact : L.facts k = some f) (stale : f.status = .STALE) :
      Step D L (L.setFact k { f with status := .SUPERSEDED })
  | offer {L : Ledger} (k : NodeId) (f : Fact) (fact : L.facts k = some f) (unverified : f.status ≠ .VERIFIED)
      (open_ : f.status ≠ .SUPERSEDED)
      (reviewable : D.review → ∃ i t, L.latest k = some i ∧ L.tries i = some t ∧ t.status = .candidate) :
      Step D L (L.setFact k { f with status := .CANDIDATE })
  | admission {L : Ledger} (i : String) (t : Try) (f : Fact) (admits : Admits L i t f) :
      Step D L ((L.admission i t).setFact t.node { f with status := .OPEN })
  | move {L : Ledger} (i : String) (t t' : Try) (tried : L.tries i = some t) (moves : Move D L i t t') :
      Step D L (L.setTry i t')
  | attest {L : Ledger} (e : Evidence) (t : Try) (attests : Attests L t e) :
      Step D L { L with evidence := L.evidence ++ [e] }
  | accept {L : Ledger} (r : Acceptance) (f : Fact) (t : Try) (accepts : Accepts L r f t) :
      Step D L ({ L with acceptances := L.acceptances ++ [r] }.setFact t.node
        { f with status := .VERIFIED, receipt := some r.receiptId })

/-- Any number of ledger steps. -/
abbrev Steps (D : Discipline) : Ledger → Ledger → Prop := Relation.ReflTransGen (Step D)

end AItelier.Ledger
