import AItelier.Deployment.Observation

namespace AItelier.Deployment

open AItelier.Lib

def UNKNOWN_PROCESS_ERROR_PREFIX : String := "unregistered external measurement process has unknown ownership: "

/-- Which owners may be named as coordinated, and by which field. -/
abbrev Nameable := List (String × String)

def COORDINATED_OWNER_IDENTITY : Nameable :=
  [("registered_external_owners", "attempt_id"), ("godot_render_owners", "owner_id")]

def GODOT_COORDINATED_OWNER_IDENTITY : Nameable := [("registered_external_owners", "attempt_id")]

def RESTRICTING_OVERRIDE_FIELDS : List String :=
  ["_invalid_override", "backend_only", "godot_only", "semantic_only", "cpu_only", "deployment_attempt_id",
    "coordinated_owners"]

def CPU_METADATA_OWNER_FIELDS : List String :=
  ["attempt_id", "project_id", "node_key", "harness", "external_id", "status", "admitted_at", "updated_at",
    "settled_at", "abandon_kind", "owner_driver_id"]

/-- The four narrow scopes: of a caller, or of a decision. -/
structure Scope where
  backend : Bool
  godot : Bool
  semantic : Bool
  cpu : Bool
  deriving DecidableEq

def Scope.passive (s : Scope) : Bool := s.backend || s.godot || s.semantic || s.cpu

def Scope.count (s : Scope) : Nat := s.backend.toNat + s.godot.toNat + s.semantic.toNat + s.cpu.toNat

/-- Whose decision it is: the attempt it names as its own controller, and its actor. -/
structure Author where
  attempt : Value
  actor : Value

section Classification

variable {β : Type} (host : Host β)

def instantOf (v : Value) : Option Int :=
  match v with
  | .str text => (host.fromisoformat text).bind Moment.instant
  | _ => none

/-- `_settled_external_owner`. -/
def settledExternalOwner (row : Dict) (observedAt : Value) : Bool :=
  ((row.get "status").isText "settled" ||
      ((row.get "status").isText "abandoned" && (row.get "abandon_kind").isText "confirmed_stopped")) &&
    match instantOf host (row.get "settled_at"), instantOf host observedAt with
    | some settled, some observed => decide (settled ≤ observed)
    | _, _ => false

/-- `str(row.get("node_key", "")).startswith("deployment.")`. -/
def deploymentNode (row : Dict) : Bool :=
  "deployment.".toList.isPrefixOf (((row.find "node_key").getD (.str "")).toText).toList

/-- `own_controller`. -/
def ownController (author : Author) (row : Dict) : Bool :=
  (row.get "attempt_id").pyEq author.attempt && (row.get "project_id").isText "aitelier" && deploymentNode row

/-- `actor == "driver:" + row["owner_driver_id"]`, of a row that has a driver. -/
def drivenBy (author : Author) (row : Dict) : Bool :=
  match row.get "owner_driver_id" with
  | .str driver => nonemptyString (.str driver) && author.actor.isText ("driver:" ++ driver)
  | _ => false

/-- What a row is to the decision: nothing, disclosed uncertainty, or a veto. -/
inductive Standing
  | passed | unknown | known
  deriving DecidableEq

/-- Ready demand that is served and without error. -/
def readyDemand (row : Dict) : Bool :=
  (row.get "desired").pyEq (row.get "outcome") && (row.get "outcome").isText "ready" &&
    (row.get "revision").pyEq (row.get "done_revision") && (row.get "error").isText ""

def registeredStanding (scope : Scope) (author : Author) (observedAt : Value) (row : Dict) : Standing :=
  if scope.cpu then
    if row.all (fun f => CPU_METADATA_OWNER_FIELDS.contains f.1) then .unknown else .known
  else if settledExternalOwner host row observedAt ||
      (ownController author row && isOneOf ["active", "paused"] (row.get "status") && drivenBy author row) then
    .passed
  else if isOneOf ["paused", "unknown", "abandoned", "settled"] (row.get "status") ||
      (ownController author row && (row.get "owner_driver_id").isNull) then
    .unknown
  else .known

def standing (scope : Scope) (author : Author) (observedAt : Value) (name : String) (row : Dict) : Standing :=
  if name = "sidecar_owners" then
    if scope.passive && readyDemand row then .passed else .known
  else if name = "registered_external_owners" then
    if scope.passive then registeredStanding host scope author observedAt row else .known
  else if name = "external_active" then
    if unknownProcessNoise row then .unknown else .known
  else .known

/-- The vetoes that remain, by their kind, and the owners nobody knows. -/
structure Classified where
  authoritative : Dict
  unknown : List Dict

/-- One round of the loop over the blockers: a kind without rows is not entered. -/
def classifyRows (scope : Scope) (author : Author) (observedAt : Value) (acc : Classified) (blocker : String × Value) :
    Classified :=
  let rows := rowsOf blocker.2
  let known := rows.filter (fun row => standing host scope author observedAt blocker.1 row == .known)
  let unknown := rows.filter (fun row => standing host scope author observedAt blocker.1 row == .unknown)
  { authoritative := if known.isEmpty then acc.authoritative else acc.authoritative.put blocker.1 (asRows known)
    unknown := acc.unknown ++ unknown }

/-- The error a measurement reports for an unregistered process. -/
def unknownProcessError (row : Dict) : String :=
  UNKNOWN_PROCESS_ERROR_PREFIX ++ String.ofList ((((row.find "command").getD (.str "")).toText).toList.take 500)

/-- The errors other than those of the unknown processes. -/
def knownErrors (unknown : List Dict) (errors : List Value) : List Value :=
  errors.filter (fun error =>
    !(unknown.filter unknownProcessNoise).any (fun row => error.isText (unknownProcessError row)))

/-- `_classify_blockers`, of an observation that has passed its checks. -/
def classifyBlockers (o : Dict) (scope : Scope) (author : Author) : Classified :=
  let swept := (dictOf (o.get "blockers")).foldl (classifyRows host scope author (o.get "observed_at")) ⟨[], []⟩
  let errors := knownErrors swept.unknown (itemsOf (o.get "errors"))
  { swept with
    authoritative :=
      if errors.isEmpty then swept.authoritative else swept.authoritative.put "measurement_errors" (.arr errors) }

end Classification

section Cover

abbrev Named := String × String

/-- `f"{sorted(pairs)}"`. -/
def pairsText (pairs : List Named) : String :=
  let ordered := pairs.insertionSort (fun a b =>
    decide (a.1.toList < b.1.toList) || (a.1 == b.1 && decide (a.2.toList ≤ b.2.toList)))
  "[" ++ commaJoin (ordered.map (fun p => "(" ++ Value.reprText p.1 ++ ", " ++ Value.reprText p.2 ++ ")")) ++ "]"

def recordMalformed (record : Value) : Bool :=
  match record with
  | .obj r =>
    !keysAre r ["kind", "id", "scope_ref"] ||
      !(["kind", "id", "scope_ref"].all (fun key => nonemptyString (Dict.get r key)))
  | _ => true

def textOf : Value → String
  | .str s => s
  | _ => ""

/-- The owners the decision names, each once and of a kind that can be named. -/
def namedOwners (nameable : Nameable) : List Named → List Value → Except String (List Named)
  | named, [] => .ok named
  | named, record :: rest =>
    if recordMalformed record then
      .error "coordinated owner records need exactly non-empty kind, id and scope_ref"
    else
      let kind := textOf (field record "kind")
      let id := textOf (field record "id")
      if (nameable.lookup kind).isNone then
        .error ("coordinated owner kind " ++ Value.reprText kind ++ " cannot be named")
      else if named.contains (kind, id) then .error "coordinated owner is named twice"
      else namedOwners nameable (named ++ [(kind, id)]) rest

def notNameable (kind : String) : String :=
  "coordinated owners cannot bypass non-nameable authoritative owners: " ++ kind

/-- The rows of one kind that remain, as they may be named. -/
def remainingOf (nameable : Nameable) (kind : String) : List Named → List Value → Except String (List Named)
  | remaining, [] => .ok remaining
  | remaining, row :: rest =>
    match nameable.lookup kind with
    | none => .error (notNameable kind)
    | some name =>
      if !isObject row || !(field row "status").isText "active" || !nonemptyString (field row name) ||
          remaining.contains (kind, textOf (field row name)) then
        .error (notNameable kind)
      else remainingOf nameable kind (remaining ++ [(kind, textOf (field row name))]) rest

def remainingOwners (nameable : Nameable) : List Named → List (String × Value) → Except String (List Named)
  | remaining, [] => .ok remaining
  | remaining, (kind, rows) :: rest => do
    let remaining ← remainingOf nameable kind remaining (itemsOf rows)
    remainingOwners nameable remaining rest

/-- `_coordinated_cover_refusal`. -/
def coordinatedCover (coordinated : Value) (authoritative : Dict) (inScope : Bool)
    (nameable : Nameable) : Except String Unit :=
  if !inScope then
    .error ("coordinated owners require the trusted backend caller and backend-only scope, " ++
      "the trusted Godot recreation caller and godot-only scope, " ++
      "or the trusted semantic caller and semantic-only scope")
  else if (itemsOf coordinated).isEmpty then .error "coordinated_owners must be a non-empty list"
  else do
    let named ← namedOwners nameable [] (itemsOf coordinated)
    let remaining ← remainingOwners nameable [] authoritative
    if named.all remaining.contains && remaining.all named.contains then .ok ()
    else .error ("coordinated owners must exactly cover the remaining authoritative owners: unnamed=" ++
      pairsText (remaining.filter (fun p => !named.contains p)) ++ " not_remaining=" ++
      pairsText (named.filter (fun p => !remaining.contains p)))

end Cover

section Override

variable {β : Type} (host : Host β)

/-- `_decision_binds_measurement`. -/
def decisionBindsMeasurement (override o : Dict) : Except String Unit :=
  let declared := override.get "inventory_digest"
  if declared.pyEq (o.get "digest") then .ok ()
  else if !declared.pyEq (o.get "inventory_digest") then
    .error "override inventory digest does not match this fresh measurement"
  else if (o.get "quiescent").isTrue then .ok ()
  else if (override.get "observation_digest").pyEq (o.get "digest") then .ok ()
  else .error ("override observation digest does not match this fresh measurement instance " ++
    "(the inventory still matches, but the decision authorizes measured " ++
    "effects, so it binds the exact observation it was taken against)")

def REQUIRED_OVERRIDE_FIELDS : List String := ["action", "actor", "reason", "ticket", "inventory_digest", "expires_at"]

/-- `override.get(key, False)`. -/
def requested (override : Dict) (key : String) : Value := (override.find key).getD (.bool false)

def requestedScope (override : Dict) : Scope :=
  ⟨(requested override "backend_only").isTrue, (requested override "godot_only").isTrue,
    (requested override "semantic_only").isTrue, (requested override "cpu_only").isTrue⟩

/-- A scope that is no boolean, or that is asked for without its caller. -/
def untrusted (override : Dict) (key : String) (trusted : Bool) : Bool :=
  !isBoolean (requested override key) || ((requested override key).isTrue && !trusted)

/-- What a decision's controller must be. -/
def controllerMismatch (override o : Dict) : Bool :=
  let controller := override.get "deployment_attempt_id"
  !(requestedScope override).passive || !nonemptyString controller ||
    match (inventory o "registered_external_owners").filter (fun row => (row.get "attempt_id").pyEq controller) with
    | [row] =>
      !(row.get "project_id").isText "aitelier" || !deploymentNode row ||
        !isOneOf ["active", "paused", "unknown"] (row.get "status") ||
        (!(row.get "owner_driver_id").isNull && !drivenBy ⟨controller, override.get "actor"⟩ row)
    | _ => true

def authorOf (override : Dict) : Author := ⟨override.get "deployment_attempt_id", override.get "actor"⟩

/-- The instant a decision expires at. -/
def expiry (override : Dict) : Except String Int :=
  match override.get "expires_at" with
  | .str text =>
    match host.fromisoformat text with
    | some ⟨some instant⟩ => .ok instant
    | some ⟨none⟩ => .error "override expiry must include a timezone"
    | none => .error "override expiry is not an ISO-8601 timestamp"
  | _ => .error "override expiry is not an ISO-8601 timestamp"

/-- What a decision is refused for before the measurement is classified. -/
def overrideFault (action : String) (override o : Dict) (callers : Scope) (now : Int) : Option String :=
  firstOf [
    refuse (override.has "_invalid_override") ("override is malformed: " ++ (override.get "_invalid_override").toText),
    refuse (REQUIRED_OVERRIDE_FIELDS.any (fun key => !nonemptyString (override.get key)))
      "override needs action, actor, reason, ticket, inventory_digest and expires_at",
    refuse (!(override.get "observation_digest").isNull && !nonemptyString (override.get "observation_digest"))
      "override observation_digest must be a non-empty string",
    refuse (!(override.get "action").isText action)
      ("override is for " ++ (override.get "action").repr ++ ", not " ++ Value.reprText action),
    match decisionBindsMeasurement override o with
    | .ok _ => none
    | .error refusal => some refusal,
    match expiry host override with
    | .error refusal => some refusal
    | .ok expires => refuse (decide (expires ≤ now)) "override has expired",
    refuse (decide (1 < (requestedScope override).count))
      "backend-only, godot-only, semantic-only and cpu-only scopes are mutually exclusive",
    refuse (untrusted override "backend_only" callers.backend)
      "backend-only override requires the trusted backend caller",
    refuse (untrusted override "godot_only" callers.godot)
      "godot-only override requires the trusted Godot recreation caller",
    refuse (untrusted override "semantic_only" callers.semantic)
      "semantic-only override requires the trusted semantic caller",
    refuse (callers.semantic && !(requestedScope override).semantic)
      "semantic-only caller requires a matching semantic-only decision",
    refuse (untrusted override "cpu_only" callers.cpu) "cpu-only override requires the trusted CPU service caller",
    refuse (callers.cpu && !(requestedScope override).cpu) "cpu-only caller requires a matching cpu-only decision",
    refuse ((requestedScope override).cpu && override.has "coordinated_owners")
      "cpu-only decisions cannot use coordinated owner agreement",
    refuse (!(override.get "deployment_attempt_id").isNull && controllerMismatch override o)
      "deployment controller must match the exact recorded owner and audited actor"]

def nameableOf (override : Dict) : Nameable :=
  if (requestedScope override).godot || (requestedScope override).semantic then GODOT_COORDINATED_OWNER_IDENTITY
  else COORDINATED_OWNER_IDENTITY

def acknowledges (override : Dict) : Bool := (override.get "acknowledge_unknown").isTrue

/-- Whether the vetoes that remain are covered. -/
def coverFault (override : Dict) (callers : Scope) (authoritative : Dict) : Option String :=
  let scope := requestedScope override
  if override.has "coordinated_owners" then
    match coordinatedCover (override.get "coordinated_owners") authoritative
        ((scope.backend && callers.backend) || (scope.godot && callers.godot) || (scope.semantic && callers.semantic))
        (nameableOf override) with
    | .ok _ => none
    | .error refusal => some refusal
  else
    refuse ((scope.passive || acknowledges override) && !authoritative.isEmpty)
      ("unknown-ownership override cannot bypass authoritative active owners: " ++
        commaJoin (sorted (authoritative.map Prod.fst)))

/-- `_valid_override`: what the decision is refused for. -/
def validOverride (action : String) (override : Value) (o : Dict) (callers : Scope) (now : Int) :
    Option String :=
  match override with
  | .obj override =>
    let classified := classifyBlockers host o (requestedScope override) (authorOf override)
    firstOf [
      overrideFault host action override o callers now,
      coverFault override callers classified.authoritative,
      refuse ((!classified.unknown.isEmpty || (o.get "errors").truthy) && !acknowledges override)
        "override must acknowledge unknown measurement errors"]
  | _ => some "no audited override supplied"

end Override

end AItelier.Deployment
