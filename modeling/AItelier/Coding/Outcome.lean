import AItelier.Lib.Components
import AItelier.Lib.Outcome
import AItelier.Lib.ValueText

namespace AItelier.Coding

open AItelier.Lib

/-- Bytes, their digest, and how JSON is written and read: a report with `indent=2` and its
characters as they are, an envelope with `indent=2` in ASCII. `linked` tells symbolic links,
`valid` is the schema check of a stored outcome. -/
structure Host (β : Type) where
  sha256 : β → String
  dumpsReport : Value → β
  dumpsEnvelope : Value → β
  loads : β → Except String Value
  linked : String → String → Bool
  valid : Value → Bool

/-- `v[name]`. -/
def item (v : Value) (name : String) : Except String Value :=
  match v with
  | .obj d => orElse (Dict.find d name) ("KeyError: " ++ Value.reprText name)
  | _ => .error "TypeError: not a dictionary"

def fieldsOf (v : Value) : Except String Dict :=
  match v with
  | .obj d => .ok d
  | _ => .error "TypeError: not a dictionary"

/-- `any(a[k] != b[k] for k in names)`. -/
def differs (a b : Value) : List String → Except String Bool
  | [] => .ok false
  | name :: names => do
    let x ← item a name
    let y ← item b name
    if x.pyEq y then differs a b names else return true

def configNames : List String :=
  ["conftest.py", "pytest.ini", "pyproject.toml", "setup.cfg", "setup.py", "tox.ini", "uv.lock",
    "poetry.lock", "Pipfile",
    "Pipfile.lock", "pdm.lock", "package.json", "package-lock.json", "npm-shrinkwrap.json", "yarn.lock",
    "pnpm-lock.yaml",
    "bun.lock", "bun.lockb", "run_tests.sh"]

def excluded : List String := [".git", ".venv", "venv", "node_modules", "__pycache__", ".tox"]

def pathParts (path : String) : List String := (parts '/' '.' path.toList).map String.ofList

/-- `fnmatch(name, start + "*.txt")`. -/
def textFile (start name : String) : Bool :=
  start.toList.isPrefixOf name.toList && ".txt".toList.isSuffixOf (name.toList.drop start.length)

def configFile (name : String) : Bool :=
  configNames.contains name || textFile "requirements" name || textFile "constraints" name

/-- `inventory`. -/
def inventory (host : Host β) (snapshot cases : Value) : Except String Value := do
  let cases ← fieldsOf cases
  let modules ← cases.mapM (fun c => item c.2 "module")
  let files ← item snapshot "files"
  let files ← fieldsOf files
  let selected := files.filter (fun f => modules.any (fun m => m.isText f.1) ||
    !(pathParts f.1).any excluded.contains && configFile ((pathParts f.1).getLast?.getD ""))
  let repo ← item snapshot "repo"
  ensure (selected.any (fun f => host.linked repo.toText f.1) = false) "ambiguous linked test/config input"
  return .obj selected

def unmeasured : List String :=
  ["skipped", "timed_out", "infrastructure_unavailable", "no_tests_collected", "import_error", "collection_errors",
    "repo_gate_absent", "repo_gate_unmeasured", "repo_gate_unattributable", "failure_identity_error"]

/-- A leg that ran and did not pass. -/
def legRefused (report : Value) (key : String) : Bool :=
  let leg := field report key
  !leg.isNull && (!(field leg "passed").isTrue || (field leg "skipped").truthy ||
    (key == "repo_gate" && (!(field leg "measured").isText "measured_pass" ||
      (field report "purpose").isText "provisional_round_feedback")))

def isFailing (case : Value) : Bool := (field case "status").isText "failure" || (field case "status").isText "error"

/-- Whether one of the cases failed. -/
def anyFailing (cases : Dict) : Except String Bool := do
  let failing ← cases.mapM (fun c => do
    let status ← item c.2 "status"
    ensure (status.hashable = true) "TypeError: unhashable type"
    return isFailing c.2)
  return failing.any id

/-- `measurement`. -/
def measurement (host : Host β) (report before after cases profile : Value) : Except String Value := do
  ensure (before.truthy = true ∧ before.pyEq after = true ∧ cases.truthy = true ∧ profile.truthy = true)
    "measurement bytes/observations/profile unavailable or changed"
  ensure (((field report "returncode").pyEq (.int 0) || (field report "returncode").pyEq (.int 1)) = true ∧
    unmeasured.any (fun k => (field report k).truthy) = false) "incomplete pytest measurement"
  ensure (legRefused report "node" = false ∧ legRefused report "repo_gate" = false) "unsupported nonpassing leg"
  let observed ← fieldsOf cases
  let failing ← anyFailing observed
  ensure (¬((field report "passed").isFalse = true ∧ failing = false) ∧
    ¬((field report "passed").isTrue = true ∧ failing = true))
    "contradictory pytest observation"
  let binding ← fieldsOf before
  let inputs ← inventory host before cases
  return .obj [("schema", .str "prechange-report/1"), ("binding", .obj (binding.filter (fun f => f.1 != "files"))),
    ("inventory", inputs), ("cases", cases), ("profile", profile),
    ("legs", .obj [("node", .bool !(field report "node").isNull),
      ("repo_gate", .bool !(field report "repo_gate").isNull)]),
    ("report_sha256", .str (host.sha256 (host.dumpsReport report)))]

def bindingKeys : List String :=
  ["run_id", "project_id", "config_name", "config_version", "config_digest", "repo", "base_sha", "base_tree"]

/-- The loop over the candidate's cases; it collects those that fail. -/
def compareCases (old : Dict) : Dict → List String → Except String (List String)
  | [], failed => .ok failed
  | (key, case) :: cases, failed => do
    let status ← item case "status"
    let previous := Dict.get old key
    if status.isText "skipped" then
      ensure (previous.pyEq case = true) "lost/new skipped measurement"
      compareCases old cases failed
    else do
      ensure (status.hashable = true) "TypeError: unhashable type"
      if isFailing case then
        ensure (previous.pyEq case = true) "new observed failure"
        compareCases old cases (failed ++ [key])
      else compareCases old cases failed

def outcomeFields (binding : Dict) (failed : List String) (baselineSha : String) : Dict :=
  ((Dict.update [("schema", .str "coding-outcome/1"), ("disposition", .str "candidate_tests_failed"),
    ("tests_passed", .bool false), ("release_passed", .bool false), ("cause_attribution", .str "undetermined"),
    ("reason", .str "repeated_prechange_observations"), ("measured", .bool true), ("comparable", .bool true),
    ("baseline_artifact_sha256", .str baselineSha)] (binding.filter (fun f => f.1 != "repo"))).put
      "unresolved_failures" (.arr (failed.map .str))).put "new_observed_failures" (.arr [])

/-- `compare`. -/
def compare (baseline candidate : Value) (baselineSha : String) : Except String Value := do
  ensure ((field baseline "schema").isText "prechange-report/1" = true ∧
    (field candidate "schema").isText "prechange-report/1" = true)
    "unknown measurement schema"
  let old ← item baseline "binding"
  let new ← item candidate "binding"
  let moved ← differs old new bindingKeys
  ensure (moved = false) "baseline binding mismatch"
  let oldSha ← item old "candidate_sha"
  let baseSha ← item old "base_sha"
  let oldTree ← item old "candidate_tree"
  let baseTree ← item old "base_tree"
  ensure (oldSha.pyEq baseSha = true ∧ oldTree.pyEq baseTree = true) "baseline binding mismatch"
  let changed ← differs baseline candidate ["profile", "inventory", "legs"]
  ensure (changed = false) "test/config/profile/leg changed"
  let oldCases ← item baseline "cases"
  let oldCases ← fieldsOf oldCases
  let cases ← item candidate "cases"
  let cases ← fieldsOf cases
  ensure (oldCases.all (fun c => Dict.has cases c.1) = true) "pytest case disappeared"
  let failed ← compareCases oldCases cases []
  ensure (failed ≠ []) "no repeated failed observations"
  let binding ← fieldsOf new
  return .obj (outcomeFields binding failed baselineSha)

/-- What `finish_measurement` leaves: the report, and the envelopes it writes. -/
structure Finished (β : Type) where
  published : Bool
  report : Value
  prechange : Option β
  candidate : Option β

/-- `finish_measurement`; `baseline` and `full` are the files of the baseline step. -/
def finishMeasurement (host : Host β) (report before after cases profile : Value) (capture : Bool) (source : String)
    (baseline full : Option β) : Except String (Finished β) := do
  let current ← measurement host report before after cases profile
  if capture then return ⟨false, report, some (host.dumpsEnvelope current), none⟩
  else if source == "baseline" && (field report "passed").isFalse then
    let bytes ← orElse baseline "FileNotFoundError"
    let envelope ← host.loads bytes
    let stated ← item envelope "report_sha256"
    let fullBytes ← orElse full "FileNotFoundError"
    ensure (stated.isText (host.sha256 fullBytes) = true) "baseline full report mismatch"
    let outcome ← compare envelope current (host.sha256 bytes)
    let fields ← fieldsOf report
    let report := .obj (Dict.put fields "coding_outcome" outcome)
    let envelope ← fieldsOf current
    let current := .obj (Dict.put envelope "report_sha256" (.str (host.sha256 (host.dumpsReport report))))
    return ⟨true, report, none, some (host.dumpsEnvelope current)⟩
  else return ⟨false, report, none, none⟩

/-- The files of a completed run. -/
structure Files (β : Type) where
  report : Option β
  candidate : Option β
  baseline : Option β
  fullBaseline : Option β

def invalid : Dict :=
  [("status", .str "result_evidence_invalid"), ("execution_status", .str "completed"), ("tests_passed", .bool false),
    ("release_passed", .bool false), ("verdict", .str "result_evidence_invalid; no release"),
    ("message", .str "result_evidence_invalid; no release")]

def message : String := "Tests FAIL; cause undetermined; release blocked"

/-- The keys of a report that was not measured, as the reader has them. -/
def unmeasuredKeys : List String :=
  ["skipped", "no_tests_collected", "timed_out", "infrastructure_unavailable", "collection_errors", "import_error",
    "repo_gate_absent", "repo_gate_unmeasured", "repo_gate_unattributable"]

def textItems (v : Value) : List String :=
  match v with
  | .arr items => items.map Value.toText
  | _ => []

def isList : Value → Bool
  | .arr _ => true
  | _ => false

/-- The checks of a report that every completed run meets. -/
def readReport (host : Host β) (binding : Dict) (bytes : β) : Except String Value := do
  let report ← host.loads bytes
  let fields ← fieldsOf report
  ensure ((Dict.get fields "run_binding").pyEq (.obj binding) = true) "report run binding missing/mismatched"
  ensure (((field report "summary").text?.any (fun s => s != "")) = true ∧
    isList (field report "failures") = true) "malformed report"
  ensure (unmeasuredKeys.any (fun k => (field report k).truthy) = false) "contradictory unmeasured completed report"
  return report

/-- The reader's view of an outcome that is accepted. -/
def accepted (outcome : Value) (fields : Dict) : Dict :=
  let failures := textItems (field outcome "unresolved_failures")
  [("status", .str "candidate_tests_failed"), ("execution_status", .str "completed"), ("tests_passed", .bool false),
    ("release_passed", .bool false), ("verdict", .str message), ("message", .str message),
    ("coding_outcome", .obj (fields.filter (fun f => f.1 != "unresolved_failures"))),
    ("unresolved_failure_count", .int failures.length),
    ("failure_references", .arr ((failures.take 20).map (fun key => .str (String.ofList (key.toList.take 300)))))]

/-- The checks of a failed candidate. -/
def loadFailed (host : Host β) (binding : Dict) (files : Files β) (bytes : β) (report : Value) :
    Except String Dict := do
  ensure ((field report "passed").isFalse = true ∧ (field report "failures").truthy = true) "contradictory report"
  let outcome ← item report "coding_outcome"
  ensure (host.valid outcome = true) "ValidationError"
  let moved ← differs outcome (.obj binding) (binding.map Prod.fst)
  ensure (moved = false) "outcome binding mismatch"
  let base ← orElse files.baseline "FileNotFoundError"
  let statedBase ← item outcome "baseline_artifact_sha256"
  ensure (statedBase.isText (host.sha256 base) = true) "baseline artifact mismatch"
  let envelope ← host.loads base
  let bound ← item envelope "binding"
  let baseMoved ← differs bound (.obj binding) (binding.map Prod.fst)
  ensure (baseMoved = false) "baseline binding mismatch"
  let full ← orElse files.fullBaseline "FileNotFoundError"
  let statedFull ← item envelope "report_sha256"
  ensure (statedFull.isText (host.sha256 full) = true) "baseline full report mismatch"
  let candidateBytes ← orElse files.candidate "FileNotFoundError"
  let candidate ← host.loads candidateBytes
  let statedReport ← item candidate "report_sha256"
  ensure (statedReport.isText (host.sha256 bytes) = true) "candidate full report mismatch"
  let again ← compare envelope candidate (host.sha256 base)
  ensure (again.pyEq outcome = true) "contradictory failed candidate envelope"
  let fields ← fieldsOf outcome
  return accepted outcome fields

def loadChecked (host : Host β) (binding : Except String Dict) (files : Files β) : Except String Dict := do
  let binding ← binding
  let bytes ← orElse files.report "FileNotFoundError"
  let report ← readReport host binding bytes
  if (field report "passed").isTrue && !(field report "failures").truthy &&
    !(field report "coding_outcome").truthy then return []
  else loadFailed host binding files bytes report

/-- `load_coding_outcome`: nothing for a run it does not answer for, and an invalid result for
whatever goes wrong. -/
def loadCodingOutcome (host : Host β) (run : Dict) (binding : Except String Dict) (files : Files β) : Dict :=
  if !(run.get "graph_name").isText "coding_impl" || !(run.get "status").isText "completed" then []
  else
    match loadChecked host binding files with
    | .ok result => result
    | .error _ => invalid

end AItelier.Coding
