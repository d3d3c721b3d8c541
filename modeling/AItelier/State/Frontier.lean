import AItelier.State.Policy

namespace AItelier.State

open AItelier.Lib

inductive Readiness
  | closed | in_progress_lease_expired | in_progress | held | blocked | ready
  deriving DecidableEq, Repr

inductive ReadyAction
  | candidate_review | new_attempt
  deriving DecidableEq, Repr

def readyNextAction (status : NodeStatus) (readiness : Readiness) : Option ReadyAction :=
  if readiness ≠ .ready then none
  else match status with
    | .CANDIDATE => some .candidate_review
    | .OPEN | .STALE => some .new_attempt
    | .VERIFIED | .SUPERSEDED => none

section View
variable (db : DB)

/-- The project's rows, one for each key. -/
def nodesByKey (projectId : String) : List Node :=
  ((projectNodes db projectId).map Node.nodeKey).filterMap (fun k => db.node? (projectId, k))

/-- The dependencies that are not accepted yet. -/
def blockedBy (id : NodeId) : List String :=
  (depsOf db id.1 id.2).filter (fun d => !((db.node? (id.1, d)).any (fun n =>
    decide (n.status = .VERIFIED) && truthy n.verifiedReceipt)))

def activeAttempts (id : NodeId) : List Attempt :=
  db.attempts.filter (fun a => decide (a.node = id) && a.status.active)

/-- A leased attempt whose lease ran out is still in progress; readiness only says so. -/
def lapsedLease (current : Stamp) (a : Attempt) : Bool :=
  a.leaseExpiresAt.any (fun expires => decide (expires ≤ current))

def readinessOf (node : Node) (current : Stamp) : Readiness :=
  if node.status = .VERIFIED ∨ node.status = .SUPERSEDED then .closed
  else if (activeAttempts db node.id).any (lapsedLease current) then .in_progress_lease_expired
  else if activeAttempts db node.id ≠ [] then .in_progress
  else if (dispatchBlock db node.id).isSome then .held
  else if blockedBy db node.id ≠ [] then .blocked
  else .ready

structure ViewRow where
  node : Node
  dependencies : List String
  blockedBy : List String
  hold : Option (String × String)
  readiness : Readiness
  nextAction : Option ReadyAction

def viewRow (current : Stamp) (node : Node) : ViewRow where
  node := node
  dependencies := depsOf db node.projectId node.nodeKey
  blockedBy := blockedBy db node.id
  hold := dispatchBlock db node.id
  readiness := readinessOf db node current
  nextAction := readyNextAction node.status (readinessOf db node current)

/-- The order of a view: by falling priority, then by key. -/
def viewBefore (x y : ViewRow) : Prop :=
  y.node.priority < x.node.priority ∨
    (x.node.priority = y.node.priority ∧ x.node.nodeKey.toList ≤ y.node.nodeKey.toList)

instance (x y : ViewRow) : Decidable (viewBefore x y) :=
  inferInstanceAs (Decidable (_ ∨ _))

/-- `_graph_view`. -/
def graphView (projectId : String) (current : Stamp) : Result (List ViewRow) := do
  let _ ← projectOf db projectId
  return ((nodesByKey db projectId).map (viewRow db current)).insertionSort viewBefore

end View

structure FrontierRow where
  nodeKey : String
  revision : Nat
  status : NodeStatus
  priority : Int
  contractHash : String
  dependencies : List String
  readiness : Readiness
  nextAction : Option ReadyAction
  goal : String
  goalTruncated : Bool
  deriving DecidableEq, Repr

def frontierRow (r : ViewRow) : FrontierRow where
  nodeKey := r.node.nodeKey
  revision := r.node.revision
  status := r.node.status
  priority := r.node.priority
  contractHash := r.node.contractHash
  dependencies := r.dependencies
  readiness := r.readiness
  nextAction := r.nextAction
  goal := String.ofList (r.node.goal.toList.take 1200)
  goalTruncated := decide (1200 < r.node.goal.toList.length)

structure Frontier where
  nodes : List FrontierRow
  total : Nat
  truncated : Bool
  readyActionCounts : List (ReadyAction × Nat)

/-- `ready_action_counts`. -/
def readyActionCounts (rows : List ViewRow) : List (ReadyAction × Nat) :=
  [ReadyAction.candidate_review, .new_attempt].map (fun action =>
    (action, (rows.filter (fun r => decide (r.nextAction = some action))).length))

/-- `frontier`: what a driver may take up next. -/
def frontier (db : DB) (projectId : String) (limit : Int) (current : Stamp) : Result Frontier := do
  let limit ← integer limit "limit" 1 200
  let view ← graphView db projectId current
  let ready := view.filter (fun r => decide (r.readiness = .ready))
  return {
    nodes := (ready.take limit.toNat).map frontierRow
    total := ready.length
    truncated := decide (limit.toNat < ready.length)
    readyActionCounts := readyActionCounts ready }

end AItelier.State
