import AItelier.State.System

namespace AItelier.State

open AItelier.Lib

section Backfill

/-- The owner status the backfill derives for an attempt without a row. -/
def backfillStatus : AttemptStatus → OwnerStatus
  | .candidate | .failed | .superseded => .settled
  | .abandoned => .abandoned
  | .paused => .paused
  | .unknown => .unknown
  | .reserved | .launching | .running => .active

def backfillSettled (status : AttemptStatus) (updatedAt : Stamp) : Option Stamp :=
  if status = .candidate ∨ status = .failed ∨ status = .superseded ∨ status = .abandoned then some updatedAt else none

/-- One row of the `INSERT OR IGNORE`: a row that has its key already, or lacks an
executor identity, is skipped. -/
def backfillOwner (updatedAt : String → Stamp) (owners : List ExternalOwner) (a : Attempt) : List ExternalOwner :=
  match a.executionKind, a.harness, a.externalId with
  | .external, some harness, some externalId =>
    if (lookup ExternalOwner.attemptId owners a.attemptId).isSome then owners
    else owners ++ [⟨a.attemptId, a.projectId, a.nodeKey, harness, externalId, backfillStatus a.status,
      backfillSettled a.status (updatedAt a.attemptId)⟩]
  | _, _, _ => owners

/-- `initialize` over the rows of an older database. The rebuilds copy every row
as it is; only the owner registry is filled in. -/
def initializeOwners (updatedAt : String → Stamp) (db : DB) : DB :=
  { db with owners := db.attempts.foldl (backfillOwner updatedAt) db.owners }

end Backfill

section Gate

def OwnerStatus.text : OwnerStatus → String
  | .active => "active" | .paused => "paused" | .unknown => "unknown" | .settled => "settled"
  | .abandoned => "abandoned"

/-- A row of the external registry as the deployment gate measures it. -/
structure RegistryRow where
  attemptId : String
  projectId : String
  nodeKey : String
  harness : Option String
  externalId : Option String
  status : OwnerStatus
  settledAt : Option Stamp
  abandonKind : Option AbandonKind
  ownerDriverId : Option String
  registryMissing : Bool
  deriving DecidableEq, Repr

/-- `ORDER BY project_id,node_key,attempt_id`. -/
def rowBefore (a b : String × String × String) : Prop :=
  a.1.toList < b.1.toList ∨ (a.1 = b.1 ∧ (a.2.1.toList < b.2.1.toList ∨
    (a.2.1 = b.2.1 ∧ a.2.2.toList ≤ b.2.2.toList)))

instance : DecidableRel rowBefore :=
  fun _ _ => inferInstanceAs (Decidable (_ ∨ _))

def orderRows {α : Type} (key : α → String × String × String) (rows : List α) : List α :=
  rows.insertionSort (fun a b => rowBefore (key a) (key b))

theorem mem_orderRows {α : Type} {key : α → String × String × String} {rows : List α} {a : α} :
    a ∈ orderRows key rows ↔ a ∈ rows :=
  (List.perm_insertionSort _ rows).mem_iff

def registryRow (db : DB) (o : ExternalOwner) : RegistryRow where
  attemptId := o.attemptId
  projectId := o.projectId
  nodeKey := o.nodeKey
  harness := some o.harness
  externalId := some o.externalId
  status := o.status
  settledAt := o.settledAt
  abandonKind := (db.attempt? o.attemptId).bind Attempt.abandonKind
  ownerDriverId := (db.attempt? o.attemptId).bind Attempt.ownerDriverId
  registryMissing := false

/-- The `WHERE` of the registry query. An abandoned row is left out where its
attempt was confirmed stopped; where the kind is NULL the condition is NULL, and
the row is left out too. -/
def held (db : DB) (o : ExternalOwner) : Bool :=
  decide (o.status ≠ .settled) &&
    decide (o.status = .abandoned → (db.attempt? o.attemptId).bind Attempt.abandonKind = some .unknown)

def externalRegistry (db : DB) : List RegistryRow :=
  (orderRows (fun o => (o.projectId, o.nodeKey, o.attemptId)) (db.owners.filter (held db))).map (registryRow db)

/-- The external attempts the gate expects to find registered. -/
def activeExternal (db : DB) : List Attempt :=
  orderRows (fun a => (a.projectId, a.nodeKey, a.attemptId)) (db.attempts.filter (fun a => decide
    (a.executionKind = .external ∧ (a.status = .running ∨ a.status = .paused ∨ a.status = .unknown))))

def expectedOwner : AttemptStatus → OwnerStatus
  | .running => .active
  | .paused => .paused
  | _ => .unknown

/-- The identity columns in which the registry and the attempt differ. -/
def mismatched (o : RegistryRow) (a : Attempt) : List String :=
  (if o.projectId ≠ a.projectId then ["project_id"] else []) ++
  (if o.nodeKey ≠ a.nodeKey then ["node_key"] else []) ++
  (if o.harness ≠ a.harness then ["harness"] else []) ++
  (if o.externalId ≠ a.externalId then ["external_id"] else [])

/-- What one active attempt adds to the measured registry and to its errors. -/
def auditAttempt (registered : List RegistryRow) (a : Attempt) : List RegistryRow × List String :=
  match lookup RegistryRow.attemptId registered a.attemptId with
  | none => ([⟨a.attemptId, a.projectId, a.nodeKey, a.harness, a.externalId, .unknown, none, none, none, true⟩],
      ["external owner registry is missing active attempt " ++ a.attemptId])
  | some o =>
    if o.status ≠ expectedOwner a.status then
      ([], ["external owner registry status mismatch for " ++ a.attemptId ++ ": attempt=" ++ a.status.text ++
        " owner=" ++ o.status.text])
    else if mismatched o a ≠ [] then
      ([], ["external owner registry identity mismatch for " ++ a.attemptId ++ ": " ++
        String.intercalate "," (mismatched o a)])
    else ([], [])

/-- The registry part of `_db_rows`: the rows the gate counts, and its errors. -/
def dbRows (db : DB) : List RegistryRow × List String :=
  let registered := externalRegistry db
  let audits := (activeExternal db).map (auditAttempt registered)
  (registered ++ audits.flatMap Prod.fst, audits.flatMap Prod.snd)

end Gate

end AItelier.State
