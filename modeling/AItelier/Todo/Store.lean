import AItelier.Todo.Run

namespace AItelier.Todo

open AItelier.Lib

/-- `type(v).__name__`. -/
def typeName : Value → String
  | .null => "NoneType"
  | .bool _ => "bool"
  | .int _ => "int"
  | .float _ => "float"
  | .str _ => "str"
  | .arr _ => "list"
  | .obj _ => "dict"

/-- `d[name]`. -/
def fieldAt (d : Dict) (name : String) : Except Raised Value :=
  orElse (d.find name) ⟨"KeyError", Value.reprText name⟩

def wrongType {α : Type} (v : Value) : Except Raised α := .error ⟨"TypeError", typeName v⟩

/-- `d[name]`, read as a dict. -/
def objectAt (d : Dict) (name : String) : Except Raised Dict := do
  match ← fieldAt d name with
  | .obj fields => return fields
  | v => wrongType v

/-- `PredicateResult.as_json`. -/
def PredicateResult.asJson (r : PredicateResult) : Value :=
  .obj [("predicate", .str r.predicate), ("outcome", .str r.outcome.text), ("detail", .str r.detail)]

/-- `asdict` of an episode, as JSON has it: a tuple is an array. -/
def Episode.asDict (e : Episode) : Value :=
  .obj [("started_at", .float e.startedAt), ("last_absence_at", .float e.lastAbsenceAt), ("absences", .int e.absences),
    ("gate", .str e.gate), ("report_key", match e.reportKey with
      | some key => .arr (key.map .str)
      | none => .null), ("gate_runs", .int e.gateRuns)]

/-- The observation record of an item that nothing was observed of. -/
def blankEntry : Dict :=
  [("pre_state", .null), ("begun_at", .null), ("outcome", .null), ("unmeasurable", .bool false), ("results", .arr []),
    ("observed_at", .null), ("notes", .arr [])]

/-- `new_document`. -/
def newDocument (digest : Dict → String) (plan : TodoPlan) (library : PredicateLibrary) (now : Moment)
    (template params : Value) : Dict :=
  [("schema", .int 1), ("library_version", .str library.version), ("plan", .obj plan.asJson),
    ("plan_hash", .str (plan.planHash digest)), ("template", template), ("params", params), ("created_at", .float now),
    ("child_session", .null), ("episodes", .obj []),
    ("items", .obj (plan.items.map fun i => (i.id, .obj blankEntry)))]

/-- The pre-state of an item, noted in its entry. -/
def savePreState (entry : Dict) (preState : Option Dict) (now : Moment) : Except Raised Dict :=
  match preState with
  | none => .ok entry
  | some captured => do
    let before ← fieldAt entry "pre_state"
    let entry := if before.isNull then entry.put "begun_at" (.float now) else entry
    return entry.put "pre_state" (.obj captured)

/-- The latest report of an item, noted in its entry. -/
def saveReport (entry : Dict) (report : Option ItemReport) : Dict :=
  match report with
  | none => entry
  | some r => entry.update [("outcome", .str r.outcome.text), ("unmeasurable", .bool r.unmeasurable),
      ("results", .arr (r.results.map PredicateResult.asJson))]

def saveEntry (run : TodoRun) (now : Moment) (entries : Dict) (item : Item) : Except Raised Dict := do
  let entry ← objectAt entries item.id
  let entry ← savePreState entry (run.preState item.id) now
  return entries.put item.id (.obj (saveReport entry (run.reports item.id)))

def savedEpisodes (plan : TodoPlan) (run : TodoRun) : Dict :=
  plan.items.filterMap fun item => (run.episodes (run.episodeKey item.id)).map fun e => (item.id, e.asDict)

/-- `save_observations`. -/
def saveObservations (document : Dict) (plan : TodoPlan) (run : TodoRun) (now : Moment) : Except Raised Dict := do
  let entries ← objectAt document "items"
  let entries ← plan.items.foldlM (saveEntry run now) entries
  return (document.put "items" (.obj entries)).put "episodes" (.obj (savedEpisodes plan run))

/-- A verdict's text, read back: the reports that are stored hold no other. -/
def readVerdict : Value → Except Raised Verdict
  | .str "pass" => .ok .pass
  | .str "fail" => .ok .fail
  | .str "absent" => .ok .absent
  | v => wrongType v

def readText : Value → Except Raised String
  | .str s => .ok s
  | v => wrongType v

def readMoment : Value → Except Raised Moment
  | .float f => .ok f
  | v => wrongType v

def readCount : Value → Except Raised Nat
  | .int (.ofNat n) => .ok n
  | v => wrongType v

def readFlag : Value → Except Raised Bool
  | .bool b => .ok b
  | v => wrongType v

/-- `PredicateResult(**r)`. -/
def readResult (v : Value) : Except Raised PredicateResult :=
  match v with
  | .obj fields => do
    ensure (fields.all (fun f => ["predicate", "outcome", "detail"].contains f.1))
      ⟨"TypeError", "got an unexpected keyword argument"⟩
    let predicate ← (fieldAt fields "predicate").bind readText
    let outcome ← (fieldAt fields "outcome").bind readVerdict
    let detail ← (fieldAt fields "detail").bind readText
    return ⟨predicate, outcome, detail⟩
  | v => wrongType v

/-- The stored report of an item, if one was made. -/
def readReport (itemId : String) (entry : Dict) : Except Raised (Option ItemReport) := do
  match ← fieldAt entry "outcome" with
  | .null => return none
  | stored => do
    let outcome ← readVerdict stored
    let results ← (fieldAt entry "results").bind iterate
    let results ← results.mapM readResult
    let unmeasurable ← (fieldAt entry "unmeasurable").bind readFlag
    return some ⟨itemId, outcome, results, unmeasurable⟩

def readPreState (entry : Dict) : Except Raised (Option Dict) := do
  match ← fieldAt entry "pre_state" with
  | .null => return none
  | .obj captured => return some captured
  | v => wrongType v

/-- What an entry says of its item. -/
def readEntry (entry : String × Value) : Except Raised (String × Option Dict × Option ItemReport) :=
  match entry.2 with
  | .obj fields => do
    let report ← readReport entry.1 fields
    let preState ← readPreState fields
    return (entry.1, preState, report)
  | v => wrongType v

def readKey : Value → Except Raised (Option (List String))
  | .null => .ok none
  | v => do
    let parts ← iterate v
    let texts ← parts.mapM readText
    return some texts

/-- An episode, noted anew and then set back to what was stored. -/
def restoreEpisode (planKey : String) (episodes : Episodes) (stored : String × Value) : Except Raised Episodes :=
  match stored.2 with
  | .obj ep => do
    let key := planKey ++ "/" ++ stored.1
    let startedAt ← (fieldAt ep "started_at").bind readMoment
    let gate ← (fieldAt ep "gate").bind readText
    let reportKey ← (fieldAt ep "report_key").bind readKey
    let gateRuns ← (fieldAt ep "gate_runs").bind readCount
    let noted := notedEpisode (episodes key) startedAt gate reportKey gateRuns
    let lastAbsenceAt ← (fieldAt ep "last_absence_at").bind readMoment
    let absences ← (fieldAt ep "absences").bind readCount
    return episodes.set key { noted with lastAbsenceAt := lastAbsenceAt, absences := absences }
  | v => wrongType v

/-- A dict, from what a comprehension gives. -/
def lookup {α : Type} (pairs : List (String × Option α)) : Map α :=
  fun key => (pairs.find? (fun p => p.1 == key)).bind Prod.snd

/-- The run that a document's observations say. -/
def readRun (document : Dict) (plan : TodoPlan) : Except Raised TodoRun := do
  let entries ← objectAt document "items"
  let read ← entries.mapM readEntry
  let stored ← objectAt document "episodes"
  let episodes ← stored.foldlM (restoreEpisode plan.attemptId) Map.empty
  return { plan := plan.runtimePlan, preState := lookup (read.map fun e => (e.1, e.2.1)),
           reports := lookup (read.map fun e => (e.1, e.2.2)), episodes := episodes }

/-- `_stored_parts`. -/
def storedParts (document : Dict) : Outcome Dict :=
  match document.get "plan", document.get "items" with
  | .obj plan, .obj _ => .ok plan
  | plan, items => refuse "corrupt_plan" ("the stored plan is damaged: 'plan' and 'items' must both be objects " ++
      "(got plan=" ++ typeName plan ++ ", items=" ++ typeName items ++ ")")

/-- `require_library_version`. -/
def requireLibraryVersion (document : Dict) (library : PredicateLibrary) : Outcome String := do
  let plan ← storedParts document
  let attemptId := plan.get "attempt_id"
  let nodeKey := plan.get "node_key"
  let recorded := document.get "library_version"
  let label := "plan " ++ attemptId.repr ++ " at node " ++ nodeKey.repr
  let identity : Dict := [("attempt_id", attemptId), ("node_key", nodeKey), ("plan_library_version", recorded),
    ("running_library_version", .str library.version)]
  let unmeasured : Stop := .refused ⟨"library_unmeasured", label ++ " records no library_version (" ++ recorded.repr ++
    "): which predicate library froze it was never recorded, and this build runs v" ++ library.version ++
    " - refused as unmeasured, not judged by an assumed library", identity⟩
  match recorded with
  | .str version => do
    ensure (State.strip version ≠ "") unmeasured
    ensure (version = library.version) (.refused ⟨"library_mismatch", label ++
      " was frozen under predicate library v" ++ version ++ "; this build runs v" ++ library.version ++
      ", whose predicates are not the ones the plan bound - refused rather than re-judged", identity⟩)
    return version
  | _ => .error unmeasured

/-- An exception that is let through. -/
def letThrough {α : Type} (x : Except Raised α) : Outcome α :=
  match x with
  | .ok a => .ok a
  | .error exc => .error (.raised exc)

/-- `load_run`. -/
def loadRun (document : Dict) (plan : TodoPlan) (library : PredicateLibrary) : Outcome TodoRun := do
  let _ ← requireLibraryVersion document library
  letThrough (readRun document plan)

/-- A plan, opened for a command: the frozen plan and the rehydrated run. -/
def openPlan (digest : Dict → String) (library : PredicateLibrary) (document : Dict) :
    Outcome (TodoPlan × TodoRun) := do
  let _ ← requireLibraryVersion document library
  let stored ← letThrough (objectAt document "plan")
  let plan ← TodoPlan.fromStored library stored
  ensure ((document.get "plan_hash").isText (plan.planHash digest))
    (.refused ⟨"corrupt_plan", "the stored plan does not match its plan_hash", []⟩)
  let run ← loadRun document plan library
  return (plan, run)

end AItelier.Todo
