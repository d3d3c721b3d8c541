import AItelier.Lib.Value
import AItelier.State.Text

namespace AItelier.Gates

open AItelier.Lib

def provisionalPurpose : String := "provisional_round_feedback"

def producerRunTests : String := "run_tests"

/-- `provisional_producer`: which producer stamped a provisional marker, or `""`. -/
def provisionalProducer (report : Dict) : String :=
  if (report.get "purpose").isText provisionalPurpose then
    ((report.get "provisional_producer").text?).getD ""
  else ""

/-- A list of nonempty texts that are all different. -/
def scenarioNames (v : Value) : Option (List String) :=
  match v with
  | .arr items =>
    match items.mapM Value.text? with
    | some names => if names.all (fun n => n != "") && names.eraseDups.length == names.length then some names else none
    | none => none
  | _ => none

/-- `validate_coverage`: the partition itself, and what it was selected by. -/
def validateCoverage (scope : Value) : Option String :=
  match scope with
  | .obj scope =>
    if !((Dict.get scope "coverage").isText "full" || (Dict.get scope "coverage").isText "subset") then
      some "coverage marker is missing or invalid"
    else
      match scenarioNames (Dict.get scope "all_scenarios") with
      | none => some "all_scenarios is missing, ambiguous or malformed"
      | some all =>
      match scenarioNames (Dict.get scope "selected_scenarios") with
      | none => some "selected_scenarios is missing, ambiguous or malformed"
      | some selected =>
      match scenarioNames (Dict.get scope "unselected_scenarios") with
      | none => some "unselected_scenarios is missing, ambiguous or malformed"
      | some unselected =>
        if all.isEmpty || selected.isEmpty || selected.any unselected.contains ||
            !(selected.all all.contains && unselected.all all.contains &&
              all.all (fun n => selected.contains n || unselected.contains n)) then
          some "coverage is not a nonempty disjoint complete partition"
        else if selected != all.filter selected.contains then
          some "selected_scenarios changes the authored execution order"
        else if unselected != all.filter unselected.contains then
          some "unselected_scenarios changes the authored execution order"
        else if (Dict.get scope "coverage").isText "full" != unselected.isEmpty then
          some "coverage marker disagrees with the explicit partition"
        else
          match Dict.get scope "fallback_full" with
          | .bool fallback =>
            if fallback && !(Dict.get scope "coverage").isText "full" then
              some "a fallback may not select a subset"
            else
              match Dict.get scope "selection_basis" with
              | .obj basis =>
                if !State.isHexText 40 (Dict.get basis "head_sha") then
                  some "selection_basis head_sha is missing or malformed"
                else if !State.isHexText 64 (Dict.get basis "spec_sha256") then
                  some "selection_basis spec_sha256 is missing or malformed"
                else if fallback && !(Dict.get basis "fallback_reason").truthy then
                  some "full fallback has no explicit reason"
                else none
              | _ => some "selection_basis is missing or malformed"
          | _ => some "fallback_full is missing or malformed"
  | _ => some "coverage marker is missing or invalid"

/-- `publication_scope_refusal`: the additional conjunct of a release path. -/
def publicationScopeRefusal (scope : Value) : Option String :=
  match scope with
  | .obj fields =>
    if (Dict.get fields "purpose").isText provisionalPurpose then
      some "provisional feedback cannot authorize publication"
    else
      match validateCoverage scope with
      | some error => some error
      | none =>
        if (Dict.get fields "coverage").isText "subset" then some "subset gate cannot authorize publication"
        else none
  | _ => validateCoverage scope

/-- The release states `report_state` answers. -/
inductive ReportState
  | provisional | unreadable | pending | infrastructureUnavailable | blind | unattributable | partial'
  | skipped | knownFailure | unattributed | failed | passed
  deriving DecidableEq, Repr

def ReportState.text : ReportState → String
  | provisional => "provisional"
  | unreadable => "unreadable"
  | pending => "pending"
  | infrastructureUnavailable => "infrastructure_unavailable"
  | blind => "blind"
  | unattributable => "unattributable"
  | partial' => "partial"
  | skipped => "skipped"
  | knownFailure => "known_failure"
  | unattributed => "unattributed"
  | failed => "failed"
  | passed => "passed"

inductive Disposition
  | passed | knownFailure | unresolved
  deriving DecidableEq, Repr

def Disposition.text : Disposition → String
  | passed => "passed"
  | knownFailure => "known_failure"
  | unresolved => "unresolved"

def skipMarkers : List String :=
  ["gate_skipped", "skipped", "skipped_because", "blind", "no_tests_collected"]

def unrunStatuses : List String := ["not_run", "not-run", "not run", "unrun", "unexecuted"]

def pendingStatuses : List String := ["pending", "queued", "running", "in_progress", "in-progress"]

def infraStatuses : List String :=
  ["infrastructure_unavailable", "infrastructure-unavailable", "infra_unavailable", "runner_unavailable"]

def unattributableStatuses : List String := ["unattributable"]

def baselineMeasured : List String := ["seeded", "compared"]

/-- `str(v).strip().lower()`; no word it is compared with has a letter that a
non-ASCII one is lowered to. -/
def statusWord (v : Value) : String := String.ofList ((State.strip v.toText).toList.map Char.toLower)

/-- `report.get("passed", report.get("all_passed"))`. -/
def rawPassed (report : Dict) : Value :=
  (report.find "passed").getD (report.get "all_passed")

/-- The status a report names, its evidence state first. -/
def statusOf (report : Dict) : String :=
  statusWord (((report.get "evidence_state").orElse (report.get "status")).orElse (.str ""))

/-- `_absence_state`: the state of a report that measured nothing. -/
def absenceState (report : Dict) (raw : Value) : Option ReportState :=
  let status := statusOf report
  if (report.get "pending").isTrue || pendingStatuses.contains status then some .pending
  else if (report.get "infrastructure_unavailable").isTrue || infraStatuses.contains status then
    some .infrastructureUnavailable
  else if (report.get "blind").isTrue || (report.get "blind_builder").isTrue then some .blind
  else if unattributableStatuses.contains status then some .unattributable
  else if (report.get "node_unmeasured").truthy && raw.isTrue then some .partial'
  else if skipMarkers.any (fun name => (report.get name).truthy) ||
      ((report.get "unrun").isTrue || (report.get "ran").isFalse || (report.get "executed").isFalse ||
        unrunStatuses.contains status) then some .skipped
  else none

/-- `_provisional_red_is_measured`: `returncode` is the producer's own witness. -/
def provisionalRedIsMeasured (report : Dict) : Bool :=
  (rawPassed report).isFalse && (report.get "purpose").isText provisionalPurpose &&
    provisionalProducer report == producerRunTests &&
    !((report.get "measurement_not_taken").isTrue || (report.get "storage_unmeasured").isTrue) &&
    (match report.get "returncode" with
      | .int i => i == 1
      | _ => false)

/-- `report_state`. -/
def reportState (report : Dict) : ReportState :=
  let raw := rawPassed report
  let measuredRed := provisionalRedIsMeasured report
  if (report.get "purpose").isText provisionalPurpose && !measuredRed then .provisional
  else if !raw.isTrue && !raw.isFalse then .unreadable
  else
    match (if measuredRed then none else absenceState report raw) with
    | some absent => absent
    | none =>
      if raw.isFalse then
        if (report.get "passed_relative").isTrue then
          if baselineMeasured.contains ((report.get "baseline_state").orElse (.str "")).toText then .knownFailure
          else .unattributed
        else .failed
      else .passed

/-- What a state text means to the release, whatever report it was read from. -/
def dispositionOf (state : String) (refused : Bool) : Disposition :=
  if state == "passed" then (if refused then .unresolved else .passed)
  else if state == "failed" || state == "known_failure" then .knownFailure
  else .unresolved

/-- What keeps a report that carries a coverage from publishing. -/
def coverageRefusal (report : Dict) : Option String :=
  if report.has "repo_gate" || report.has "gate_coverage" then publicationScopeRefusal (report.get "gate_coverage")
  else none

/-- The state text `release_disposition` judges. -/
def releaseState (report : Dict) : String :=
  if (report.get "upstream_state").truthy then (report.get "upstream_state").toText
  else if (report.get "skipped_because").isText "upstream_failed" then "failed"
  else (reportState report).text

/-- `release_disposition`. -/
def releaseDisposition (report : Dict) : Disposition :=
  if (report.get "purpose").isText provisionalPurpose && !provisionalRedIsMeasured report then .unresolved
  else dispositionOf (releaseState report) (coverageRefusal report).isSome

/-- `_write_state`: the label stands only when the report still reads as it. -/
def writeState (report : Dict) (state : ReportState) : Dict :=
  let labelled := report.put "evidence_state" (.str state.text)
  if reportState labelled = state then labelled
  else
    match report.find "evidence_state" with
    | some prior => labelled.put "evidence_state" prior
    | none => labelled.pop "evidence_state"

/-- `restate_classification`: both answers are read before either is written. -/
def restateClassification (report : Dict) (create : Bool) : Dict :=
  let state := reportState report
  let disposition := releaseDisposition report
  let report := if create || report.has "evidence_state" then writeState report state else report
  if create || report.has "release_evidence" then report.put "release_evidence" (.str disposition.text) else report

/-- What a file of the graph directory holds: a JSON object, or what reading it
raises. -/
inductive Content
  | object (report : Dict)
  | unreadable (exc : String)

/-- The files a run's steps wrote, and the manifest of the current cycle. -/
structure GraphDir where
  manifest : Option Content
  files : List ((String × String) × Content)

def GraphDir.file (dir : GraphDir) (path : String × String) : Option Content :=
  (dir.files.find? (fun f => f.1 == path)).map Prod.snd

def GraphDir.write (dir : GraphDir) (path : String × String) (content : Content) : GraphDir :=
  { dir with files := (path, content) :: dir.files }

/-- `_current_cycle`. -/
def currentCycle (dir : GraphDir) (runId : String) : Except String String :=
  if runId == "" then .error "current run_id is empty"
  else
    match dir.manifest with
    | none => .error "[Errno 2] No such file or directory"
    | some (.unreadable exc) => .error exc
    | some (.object manifest) =>
      match manifest.get "evidence_cycle_id" with
      | .str cycle =>
        if !(manifest.get "run_id").isText runId || cycle == "" then
          .error "cycle manifest is not from this run/current cycle"
        else .ok cycle
      | _ => .error "cycle manifest is not from this run/current cycle"

/-- The run fields every stamp writes first. -/
def markRun (report : Dict) (runId generatedAt : String) : Dict :=
  (report.put "run_id" (.str runId)).put "evidence_generated_at" (.str generatedAt)

/-- `stamp_report` with `start_cycle`: a new cycle and its manifest. -/
def startCycle (dir : GraphDir) (report : Dict) (runId generatedAt uid : String) : Dict × GraphDir :=
  let cycle := runId ++ ":" ++ uid
  let report := (markRun report runId generatedAt).put "evidence_cycle_id" (.str cycle)
  (restateClassification report true,
    { dir with manifest := some (.object [("version", .int 1), ("run_id", .str runId),
      ("evidence_cycle_id", .str cycle), ("evidence_generated_at", .str generatedAt)]) })

/-- `stamp_report` inside a cycle: the manifest is the only source of the cycle. -/
def stampReport (dir : GraphDir) (report : Dict) (runId generatedAt : String) : Dict :=
  let report := markRun report runId generatedAt
  match currentCycle dir runId with
  | .ok cycle => restateClassification (report.put "evidence_cycle_id" (.str cycle)) true
  | .error exc => restateClassification (report.update [("evidence_cycle_id", .str ""), ("passed", .bool false),
      ("skipped_because", .str "evidence_cycle_missing"), ("evidence_stamp_error", .str exc)]) true

/-- `stamp_file`: stamp what a chained tool wrote and write it back. -/
def stampFile (dir : GraphDir) (path : String × String) (runId generatedAt : String) : GraphDir :=
  let report : Dict :=
    match dir.file path with
    | some (.object report) => report
    | some (.unreadable exc) => [("passed", .bool false), ("skipped_because", .str "report_unreadable"),
        ("summary", .str (path.2 ++ " could not be read after the gate: " ++ exc))]
    | none => [("passed", .bool false), ("skipped_because", .str "report_unreadable"),
        ("summary", .str (path.2 ++ " could not be read after the gate: [Errno 2] No such file or directory"))]
  dir.write path (.object (stampReport dir report runId generatedAt))

def freshEntry (stepId filename : String) : Dict :=
  [("step", .str stepId), ("file", .str filename), ("state", .str "fresh"), ("passed", .bool true),
    ("skipped_because", .null)]

/-- The facts an audit entry carries beside the verdict. -/
def noteEntry (entry report : Dict) : Dict :=
  let entry := if (report.get "purpose").isText provisionalPurpose then
      let entry := (entry.put "purpose" (report.get "purpose")).put "selected_state" (report.get "selected_state")
      if provisionalProducer report == "" then entry
      else entry.put "provisional_producer" (.str (provisionalProducer report))
    else entry
  let entry := if report.has "repo_gate" || report.has "gate_coverage" then
      entry.put "gate_coverage" (report.get "gate_coverage")
    else entry
  match coverageRefusal report with
  | some error => entry.put "gate_coverage_error" (.str error)
  | none => entry

/-- The part of an audit entry that says how a current report stands. -/
def judgeEntry (entry report : Dict) (where_ : String) : Dict :=
  let state := reportState report
  let entry := noteEntry entry report
  match (if state = .passed then coverageRefusal report else none) with
  | some error => entry.update [("state", .str "coverage_incomplete"), ("passed", .bool false),
      ("skipped_because", .str "coverage_incomplete"), ("summary", .str error)]
  | none =>
    if state = .unreadable then
      entry.update [("state", .str "unreadable"), ("passed", .bool false),
        ("skipped_because", .str "invalid_passed_type"),
        ("summary", .str (where_ ++ " has non-boolean pass status " ++
          ((report.find "passed").getD ((report.find "all_passed").getD (.bool false))).repr))]
    else
      let status := statusWord ((report.find "status").getD (.str ""))
      let unrun := (report.get "unrun").isTrue || (report.get "ran").isFalse || (report.get "executed").isFalse ||
        unrunStatuses.contains status
      let because := if state = .skipped && !(report.get "skipped_because").truthy then
          .str (if unrun then "gate_unrun" else "gate_skipped")
        else report.get "skipped_because"
      entry.update [("passed", .bool (state = .passed)), ("skipped_because", because), ("state", .str state.text),
        ("gate_summary", .str (String.ofList ((((report.find "summary").getD (.str "")).toText).toList.take 400)))]

/-- `_audit_one`. -/
def auditOne (dir : GraphDir) (path : String × String) (runId expectedCycle : String) : Dict :=
  let entry := freshEntry path.1 path.2
  let where_ := path.1 ++ "/" ++ path.2
  match dir.file path with
  | none => entry.update [("state", .str "missing"), ("passed", .bool false),
      ("skipped_because", .str "report_missing"),
      ("summary", .str (where_ ++ " is absent; the gate did not produce current evidence"))]
  | some (.unreadable exc) => entry.update [("state", .str "unreadable"), ("passed", .bool false),
      ("skipped_because", .str "report_unreadable"), ("summary", .str (where_ ++ " is unreadable: " ++ exc))]
  | some (.object report) =>
    let entry := (entry.put "run_id" (report.get "run_id")).put "evidence_cycle_id" (report.get "evidence_cycle_id")
    if expectedCycle == "" || !(report.get "run_id").isText runId ||
        !(report.get "evidence_cycle_id").isText expectedCycle then
      entry.update [("state", .str "stale"), ("passed", .bool false),
        ("summary", .str (where_ ++ " belongs to run/cycle " ++ (report.get "run_id").repr ++ "/" ++
          (report.get "evidence_cycle_id").repr ++ ", expected " ++ Value.reprText runId ++ "/" ++
          Value.reprText expectedCycle))]
    else judgeEntry entry report where_

/-- A declared gate, `[step, file]`. -/
def gatePath (pair : Value) : Option (String × String) :=
  match pair with
  | .arr [step, file] => some (step.toText, file.toText)
  | _ => none

def invalidGate (pair : Value) : Dict :=
  [("step", .str pair.toText), ("file", .str ""), ("state", .str "unreadable"), ("passed", .bool false),
    ("skipped_because", .str "invalid_gate_declaration"),
    ("summary", .str ("Invalid gate declaration: " ++ pair.repr))]

/-- The blocker's entry, with the upstream state its own report carries. -/
def withUpstream (dir : GraphDir) (path : String × String) (entry : Dict) : Dict :=
  match dir.file path with
  | some (.object source) =>
    if (source.get "upstream_state").truthy then entry.put "upstream_state" (source.get "upstream_state") else entry
  | _ => entry

def blockerAmong (dir : GraphDir) (runId cycle : String) : List Value → Option Dict
  | [] => none
  | pair :: rest =>
    match gatePath pair with
    | none => some (invalidGate pair)
    | some path =>
      let entry := auditOne dir path runId cycle
      if (entry.get "passed").truthy then blockerAmong dir runId cycle rest
      else some (withUpstream dir path entry)

/-- `first_upstream_blocker`; the declaration is a list, or JSON text that does not
read. -/
def firstUpstreamBlocker (dir : GraphDir) (runId : String) (gates : Except String (List Value)) : Option Dict :=
  match gates with
  | .error exc => some [("step", .str ""), ("file", .str ""), ("state", .str "unreadable"), ("passed", .bool false),
      ("skipped_because", .str "invalid_gate_declaration"),
      ("summary", .str ("Fail-fast gate declaration is unreadable: " ++ exc))]
  | .ok [] => none
  | .ok gates =>
    match currentCycle dir runId with
    | .error exc => some [("step", .str ""), ("file", .str ".evidence_cycle.json"), ("state", .str "stale"),
        ("passed", .bool false), ("skipped_because", .str "evidence_cycle_missing"),
        ("summary", .str ("Cannot establish current evidence cycle: " ++ exc))]
    | .ok cycle => blockerAmong dir runId cycle gates

/-- `s.strip("/")`. -/
def stripSlashes (s : String) : String :=
  String.ofList ((s.toList.dropWhile (fun c => c == '/')).reverse.dropWhile (fun c => c == '/')).reverse

/-- The gate a blocker is reported as. -/
def upstreamName (blocker : Dict) : String :=
  stripSlashes ((blocker.get "step").toText ++ "/" ++ (blocker.get "file").toText)

/-- The state text a marker passes on. -/
def upstreamState (blocker : Dict) : String :=
  (((blocker.get "upstream_state").orElse (blocker.get "state")).orElse (.str "failed")).toText

/-- `upstream_failed_report`. -/
def upstreamFailedReport (blocker : Dict) (gate : String) : Dict :=
  let upstream := upstreamName blocker
  let state := upstreamState blocker
  let disposition :=
    if !(blocker.get "upstream_state").truthy && state == "skipped" &&
        (blocker.get "skipped_because").isText "upstream_failed" then .knownFailure
    else releaseDisposition [("passed", .bool false), ("upstream_state", .str state)]
  [("passed", .bool false), ("gate_skipped", .bool true),
    ("skipped_because", .str (if disposition = .knownFailure then "upstream_failed" else "upstream_unresolved")),
    ("upstream_state", .str state), ("upstream_gate", .str upstream),
    ("release_evidence", .str disposition.text),
    ("summary", .str (gate ++ " not run because upstream release evidence " ++
      (if upstream == "" then "<unknown>" else upstream) ++ " is " ++ state ++ "."))]

end AItelier.Gates
