import AItelier.Deployment.Journal

namespace AItelier.Deployment

open AItelier.Lib

/-- A refusal with its text, or Python's refusal to look an array or an object up
among names. -/
inductive Fault
  | message (text : String)
  | unhashable
  deriving DecidableEq

def TERMINAL_STATUSES : List String := ["completed", "failed"]

def BLOCKING_STATUSES : List String := ["pending", "running", "paused", "draining"]

def SIDECAR_DESIRED : List String := ["ready", "released"]

def SIDECAR_OUTCOMES : List String := ["pending", "ready", "released", "error"]

def EXTERNAL_OWNER_STATUSES : List String := ["active", "paused", "unknown", "settled", "abandoned"]

def EXTERNAL_OWNER_KINDS : List String := ["docker", "process"]

def GODOT_OWNER_STATUSES : List String := ["active", "owner_lost", "reconciled", "released"]

def OBSERVATION_FIELDS : List String :=
  ["schema_version", "observed_at", "inventory_digest", "projects", "runs", "resumable_runs", "sidecar_owners",
    "godot_render_owners", "external_owners", "registered_external_owners", "blockers", "errors", "quiescent", "digest",
    "provenance"]

def INVENTORY_IDENTITY_FIELDS : List String :=
  ["schema_version", "projects", "runs", "resumable_runs", "sidecar_owners", "godot_render_owners", "external_owners",
    "registered_external_owners", "blockers", "errors", "quiescent", "provenance"]

def PROVENANCE_INSTANCE_FIELDS : List String := ["runtime_observed_at", "runtime_digest"]

def BLOCKER_IDENTITY_FIELDS : List (String × List String) :=
  [("active_runs", ["run_id"]), ("active_operations", ["run_id"]),
    ("checkout_leases", ["run_id", "owner", "canonical_checkout"]), ("sidecar_owners", ["run_id"]),
    ("external_active", ["attempt_id", "run_id", "operation_id", "owner_id", "external_id", "id", "command", "name"]),
    ("registered_external_owners", ["attempt_id"]), ("godot_render_owners", ["owner_id", "operation_id", "run_id"]),
    ("measurement_failure", ["reason"])]

def AUTHORITATIVE_IDENTITY_FIELDS : List String :=
  ["attempt_id", "run_id", "operation_id", "owner_id", "project_id", "external_id", "id", "owner", "node_key",
    "harness"]

def OWNER_INVENTORY_BLOCKERS : List (String × List String) :=
  [("runs", ["active_runs", "active_operations"]), ("sidecar_owners", ["sidecar_owners"]),
    ("external_owners", ["external_active"]), ("registered_external_owners", ["registered_external_owners"]),
    ("godot_render_owners", ["godot_render_owners"])]

/-- `_nonnegative_int`. -/
def nonnegativeInt : Value → Bool
  | .int i => decide (0 ≤ i)
  | _ => false

/-- `_nonnegative_number`: no float that is read here is a NaN or infinite. -/
def nonnegativeNumber : Value → Bool
  | .int i => decide (0 ≤ i)
  | .float f => f.whole == some 0 || f.text.toList.head? != some '-'
  | _ => false

def isBoolean : Value → Bool
  | .bool _ => true
  | _ => false

def isString : Value → Bool
  | .str _ => true
  | _ => false

def isTexts (v : Value) : Bool := isList v && (itemsOf v).all isString

def intOf : Value → Int
  | .int i => i
  | _ => 0

/-- The dictionaries of a list. -/
def rowsOf (v : Value) : List Dict :=
  (itemsOf v).filterMap (fun | .obj d => some d | _ => none)

/-- `value not in names`, where the names stand in a set. -/
def unknownName (names : List String) (v : Value) (message : String) : Option Fault :=
  if !v.hashable then some .unhashable else refuse (!isOneOf names v) (.message message)

/-- `{row.get(name)!r}` behind the text. -/
def quoting (text : String) (v : Value) : String := text ++ v.repr

def sorted (names : List String) : List String := names.insertionSort (fun a b => a.toList ≤ b.toList)

/-- `sorted(set(names))`. -/
def sortedSet (names : List String) : List String := sorted names.dedup

def commaJoin (names : List String) : String := String.intercalate ", " names

/-- The first fault of the rows of a list, each checked under its index. -/
def rowsFault (rows : List Dict) (fault : Nat → Dict → Option Fault) : Option Fault :=
  rows.zipIdx.findSome? (fun r => fault r.2 r.1)

def rowName (inventory : String) (index : Nat) : String := inventory ++ " row " ++ toString index

def needs (row : Dict) (pre name : String) : Option Fault :=
  refuse (!nonemptyString (row.get name)) (.message (pre ++ " needs a non-empty " ++ name))

def runsFault (index : Nat) (row : Dict) : Option Fault :=
  let pre := rowName "runs" index
  let audit := row.get "audit"
  let lost := field audit "lost"
  let unknown := field audit "unknown"
  firstOf [
    needs row pre "run_id",
    needs row pre "project_id",
    unknownName (TERMINAL_STATUSES ++ BLOCKING_STATUSES) (row.get "status")
      (quoting (pre ++ " has unknown status ") (row.get "status")),
    refuse (!nonnegativeInt (row.get "active_operations"))
      (.message (pre ++ " active_operations must be a nonnegative integer")),
    refuse (!isObject audit) (.message (pre ++ " audit must be a plain object")),
    refuse (!isTexts lost) (.message (pre ++ " audit.lost must be a list of strings")),
    refuse (!isTexts unknown) (.message (pre ++ " audit.unknown must be a list of strings")),
    refuse (!nonnegativeInt (field audit "alive")) (.message (pre ++ " audit.alive must be a nonnegative integer")),
    refuse (intOf (row.get "active_operations") !=
        (itemsOf lost).length + (itemsOf unknown).length + intOf (field audit "alive"))
      (.message (pre ++ " active_operations contradicts its audit")),
    refuse (row.has "resumable" && !isBool (isOneOf BLOCKING_STATUSES (row.get "status") &&
        intOf (row.get "active_operations") == 0 && !hasField audit "error") (row.get "resumable"))
      (.message (pre ++ " resumable contradicts its status and audit"))]

def sidecarFault (index : Nat) (row : Dict) : Option Fault :=
  let pre := rowName "sidecar_owners" index
  firstOf [
    needs row pre "run_id",
    needs row pre "root",
    needs row pre "source",
    unknownName SIDECAR_DESIRED (row.get "desired")
      (quoting (pre ++ " has unknown desired state ") (row.get "desired")),
    unknownName SIDECAR_OUTCOMES (row.get "outcome") (quoting (pre ++ " has unknown outcome ") (row.get "outcome")),
    refuse (!nonnegativeInt (row.get "revision")) (.message (pre ++ " revision must be a nonnegative integer")),
    refuse (!nonnegativeInt (row.get "done_revision"))
      (.message (pre ++ " done_revision must be a nonnegative integer")),
    refuse (!nonnegativeNumber (row.get "activity_at"))
      (.message (pre ++ " activity_at must be a nonnegative finite number")),
    refuse (!isString (row.get "error")) (.message (pre ++ " error must be a string"))]

def externalFault (index : Nat) (row : Dict) : Option Fault :=
  let pre := rowName "external_owners" index
  firstOf [
    unknownName EXTERNAL_OWNER_KINDS (row.get "kind") (quoting (pre ++ " has unknown kind ") (row.get "kind")),
    refuse (!isBoolean (row.get "active")) (.message (pre ++ " active must be a boolean")),
    needs row pre (if (row.get "kind").isText "docker" then "id" else "command"),
    if row.has "ownership" then
      unknownName ["registered", "unregistered"] (row.get "ownership")
        (quoting (pre ++ " has unknown ownership ") (row.get "ownership"))
    else none]

def registeredFault (index : Nat) (row : Dict) : Option Fault :=
  let pre := rowName "registered_external_owners" index
  firstOf [
    needs row pre "attempt_id",
    unknownName EXTERNAL_OWNER_STATUSES (row.get "status") (quoting (pre ++ " has unknown status ") (row.get "status"))]

def godotClock (row : Dict) (pre name : String) : Option Fault :=
  refuse (row.has name && !(row.get name).isNull && !nonnegativeNumber (row.get name))
    (.message (pre ++ " " ++ name ++ " must be a nonnegative finite number"))

def godotFault (index : Nat) (row : Dict) : Option Fault :=
  let pre := rowName "godot_render_owners" index
  firstOf [
    needs row pre "owner_id",
    unknownName GODOT_OWNER_STATUSES (row.get "status") (quoting (pre ++ " has unknown status ") (row.get "status")),
    refuse (row.has "generation" && !nonnegativeInt (row.get "generation"))
      (.message (pre ++ " generation must be a nonnegative integer")),
    godotClock row pre "started_at",
    godotClock row pre "heartbeat_at",
    godotClock row pre "ended_at"]

def inventoryFault (o : Dict) (name : String) : Option Fault :=
  firstOf [
    refuse (!isList (o.get name)) (.message (name ++ " must be a list")),
    refuse ((itemsOf (o.get name)).any (fun row => !isObject row)) (.message (name ++ " rows must be plain objects"))]

/-- The rows of an inventory. -/
def inventory (o : Dict) (name : String) : List Dict := rowsOf (o.get name)

/-- `_validate_owner_inventories`. -/
def ownersFault (o : Dict) : Option Fault :=
  firstOf [
    firstOf (OWNER_INVENTORY_BLOCKERS.map (fun owner => inventoryFault o owner.1)),
    rowsFault (inventory o "runs") runsFault,
    rowsFault (inventory o "sidecar_owners") sidecarFault,
    rowsFault (inventory o "external_owners") externalFault,
    rowsFault (inventory o "registered_external_owners") registeredFault,
    rowsFault (inventory o "godot_render_owners") godotFault]

def activeRun (row : Dict) : Bool :=
  isOneOf BLOCKING_STATUSES (row.get "status") && !(row.get "resumable").isTrue

def activeOperation (row : Dict) : Bool :=
  match row.get "active_operations" with
  | .int i => decide (0 < i)
  | .bool b => b
  | _ => false

/-- Demand that is not released and done. -/
def sidecarDemand (row : Dict) : Bool :=
  !(row.get "desired").isText "released" || !(row.get "outcome").isText "released" ||
    !(row.get "done_revision").pyEq (row.get "revision")

def activeProcess (row : Dict) : Bool := (row.get "active").isTrue

def renderOwner (row : Dict) : Bool := isOneOf ["active", "owner_lost"] (row.get "status")

/-- `_normalized_owner_blockers`, by the name of the blocker. -/
def normalizedOwnerBlockers (o : Dict) (blocker : String) : List Dict :=
  match blocker with
  | "active_runs" => (inventory o "runs").filter activeRun
  | "active_operations" => (inventory o "runs").filter activeOperation
  | "sidecar_owners" => (inventory o "sidecar_owners").filter sidecarDemand
  | "external_active" => (inventory o "external_owners").filter activeProcess
  | "registered_external_owners" => inventory o "registered_external_owners"
  | "godot_render_owners" => (inventory o "godot_render_owners").filter renderOwner
  | _ => []

def asRows (rows : List Dict) : Value := .arr (rows.map .obj)

/-- `blockers.get(name, [])`. -/
def blockerRows (blockers : Dict) (name : String) : Value := (blockers.find name).getD (.arr [])

def blockerMismatch (o blockers : Dict) (owner : String × List String) : Option Fault :=
  firstOf (owner.2.map (fun blocker =>
    refuse (!(blockerRows blockers blocker).pyEq (asRows (normalizedOwnerBlockers o blocker)))
      (.message ("blockers." ++ blocker ++ " does not match normalized " ++ owner.1 ++ " inventory"))))

/-- `_unknown_process_shape`. -/
def unknownProcessShape (row : Dict) : Bool :=
  (row.get "kind").isText "process" && (row.get "active").isTrue &&
    (row.get "resource").isText "external_measurement" && (row.get "ownership").isText "unregistered"

/-- `_unknown_process_noise`. -/
def unknownProcessNoise (row : Dict) : Bool :=
  unknownProcessShape row && nonemptyString (row.get "command") && !AUTHORITATIVE_IDENTITY_FIELDS.any row.has

/-- `_has_identity`. -/
def hasIdentity (row : Dict) (fields : List String) : Bool := fields.any (fun name => nonemptyString (row.get name))

def blockerRowFault (name : String) (identity : List String) (index : Nat) (row : Value) : Option Fault :=
  match row with
  | .obj row =>
    if name == "external_active" && unknownProcessShape row then
      firstOf [
        refuse (!nonemptyString (Dict.get row "command"))
          (.message ("blockers." ++ name ++ " noise row " ++ toString index ++ " needs a non-empty command")),
        refuse (AUTHORITATIVE_IDENTITY_FIELDS.any (Dict.has row))
          (.message ("blockers." ++ name ++ " noise row " ++ toString index ++
            " carries authoritative identity fields: " ++
            commaJoin (sorted (AUTHORITATIVE_IDENTITY_FIELDS.filter (Dict.has row)))))]
    else
      refuse (!hasIdentity row identity)
        (.message ("blockers." ++ name ++ " row " ++ toString index ++ " lacks ownership identity"))
  | _ =>
    some (.message ("blockers." ++ name ++ " rows must be objects (plain dict required, row " ++ toString index ++ ")"))

def blockerFault (blocker : String × Value) : Option Fault :=
  match BLOCKER_IDENTITY_FIELDS.lookup blocker.1 with
  | none => some (.message (quoting "unknown blocker category " (.str blocker.1)))
  | some identity =>
    firstOf [
      refuse (!isList blocker.2) (.message ("blockers." ++ blocker.1 ++ " must be a list")),
      (itemsOf blocker.2).zipIdx.findSome? (fun r => blockerRowFault blocker.1 identity r.2 r.1)]

/-- `_resumable_run_rows`. -/
def resumableRunRows (runs : Value) : Value :=
  asRows (((rowsOf runs).filter (fun row => (row.get "resumable").isTrue)).map (fun row =>
    [("run_id", row.get "run_id"), ("project_id", row.get "project_id"), ("status", row.get "status")]))

variable {β : Type} (host : Host β)

/-- `_observation_digest`. -/
def observationDigest (o : Dict) : String := digest host (.obj (o.filter (fun f => f.1 != "digest")))

def reducedProvenance (d : Dict) : Dict :=
  d.map (fun f =>
    match f with
    | ("provenance", .obj provenance) =>
      ("provenance", .obj (provenance.filter (fun g => !PROVENANCE_INSTANCE_FIELDS.contains g.1)))
    | f => f)

/-- `_inventory_digest`. -/
def inventoryDigest (o : Dict) : String :=
  digest host (.obj (reducedProvenance
    (INVENTORY_IDENTITY_FIELDS.filterMap (fun name => (o.find name).map (fun v => (name, v))))))

def observedAtFault (v : Value) : Option Fault :=
  match v with
  | .str text =>
    match host.fromisoformat text with
    | some moment => refuse moment.instant.isNone (.message "observed_at must include a timezone")
    | none => some (.message "observed_at must be an ISO-8601 timestamp")
  | _ => some (.message "observed_at must be an ISO-8601 timestamp")

def textsOf (v : Value) : List String := (itemsOf v).filterMap Value.text?

def projectsFault (v : Value) : Option Fault :=
  firstOf [
    refuse (!isList v || (itemsOf v).any (fun project => !nonemptyString project))
      (.message "projects must be a list of non-empty strings"),
    refuse (textsOf v != sortedSet (textsOf v)) (.message "projects must be sorted and unique")]

def blockersFault (v : Value) : Option Fault :=
  match v with
  | .obj blockers => firstOf (List.map blockerFault blockers)
  | _ => some (.message "blockers must be an object (plain dict required)")

/-- The dictionary a value is. -/
def dictOf : Value → Dict
  | .obj d => d
  | _ => []

def computedQuiescent (o : Dict) : Bool :=
  !(o.get "errors").truthy && !(dictOf (o.get "blockers")).any (fun f => f.2.truthy)

def pyBool (b : Bool) : String := if b then "True" else "False"

def inventoryDigestFault (o : Dict) : Option Fault :=
  if o.has "inventory_digest" then
    firstOf [
      refuse (!State.isHexText 64 (o.get "inventory_digest"))
        (.message "inventory_digest must be a lowercase hexadecimal SHA-256"),
      refuse (!(o.get "inventory_digest").isText (inventoryDigest host o))
        (.message "inventory_digest does not match the canonical frozen inventory")]
  else none

/-- `_validate_observation` of an object. -/
def objectFault (o : Dict) : Option Fault :=
  let unknownFields := sortedSet ((o.map Prod.fst).filter (fun name => !OBSERVATION_FIELDS.contains name))
  firstOf [
    refuse (!isVersion 1 (o.get "schema_version"))
      (.message (quoting "unsupported observation schema_version " (o.get "schema_version"))),
    refuse (!unknownFields.isEmpty) (.message ("unknown observation fields: " ++ commaJoin unknownFields)),
    observedAtFault host (o.get "observed_at"),
    projectsFault (o.get "projects"),
    ownersFault o,
    refuse (o.has "resumable_runs" && !(o.get "resumable_runs").pyEq (resumableRunRows (o.get "runs")))
      (.message ("resumable_runs contradicts the resumable projections of runs" ++
        " (never trust a forged top-level flag)")),
    blockersFault (o.get "blockers"),
    refuse (!isTexts (o.get "errors")) (.message "errors must be a list of strings"),
    refuse (!State.isHexText 64 (o.get "digest")) (.message "digest must be a lowercase hexadecimal SHA-256"),
    refuse (!(o.get "digest").isText (observationDigest host o))
      (.message "digest does not match the canonical frozen inventory"),
    firstOf (OWNER_INVENTORY_BLOCKERS.map (blockerMismatch o (dictOf (o.get "blockers")))),
    refuse (!isBoolean (o.get "quiescent")) (.message "quiescent must be a boolean"),
    refuse ((o.get "quiescent").isTrue != computedQuiescent o)
      (.message ("quiescent contradicts validated blockers/errors: declared=" ++ pyBool (o.get "quiescent").isTrue ++
        " computed=" ++ pyBool (computedQuiescent o))),
    inventoryDigestFault host o]

/-- `_validate_observation`. -/
def validateObservation (observation : Value) : Option Fault :=
  match observation with
  | .obj o => objectFault host o
  | _ => some (.message "observation must be a plain object")

end AItelier.Deployment
