import AItelier.Todo.Plan

namespace AItelier.Todo

open AItelier.Lib

/-- A moment, as the clock gives it. -/
abbrev Moment := PyFloat

/-- The bounds of an episode: whether it has outlived its ceiling since it started,
and whether the wait since the last absence is still running. -/
structure Bounds where
  late : Moment → Moment → Bool
  waiting : Moment → Moment → Bool

structure Episode where
  startedAt : Moment
  lastAbsenceAt : Moment
  absences : Nat
  gate : String
  reportKey : Option (List String)
  gateRuns : Nat

/-- A Python dict, as far as it is looked up. -/
abbrev Map (α : Type) := String → Option α

namespace Map

variable {α : Type}

def empty : Map α := fun _ => none

def set (m : Map α) (key : String) (a : α) : Map α := fun k => if k = key then some a else m k

def erase (m : Map α) (key : String) : Map α := fun k => if k = key then none else m k

/-- `setdefault`. -/
def setDefault (m : Map α) (key : String) (a : α) : Map α := if (m key).isSome then m else m.set key a

end Map

abbrev Episodes := Map Episode

/-- The episode after `note_absence`. -/
def notedEpisode (episode : Option Episode) (now : Moment) (gate : String) (reportKey : Option (List String))
    (gateRuns : Nat) : Episode :=
  match episode with
  | none => ⟨now, now, 1, gate, reportKey, gateRuns⟩
  | some e =>
    let e := if reportKey = none ∨ reportKey ≠ e.reportKey then
      { e with lastAbsenceAt := now, reportKey := reportKey, gateRuns := e.gateRuns + gateRuns } else e
    { e with absences := e.absences + 1, gate := if gate = "" then e.gate else gate }

/-- `DeferralLedger.note_absence`. -/
def noteAbsence (episodes : Episodes) (key : String) (now : Moment) (gate : String)
    (reportKey : Option (List String)) (gateRuns : Nat) : Episodes :=
  episodes.set key (notedEpisode (episodes key) now gate reportKey gateRuns)

/-- `DeferralLedger.expired`. -/
def expired (bounds : Bounds) (episodes : Episodes) (key : String) (now : Moment) : Bool :=
  match episodes key with
  | none => false
  | some e => bounds.late e.startedAt now

/-- `DeferralLedger.deferring`. -/
def deferring (bounds : Bounds) (episodes : Episodes) (key : String) (now : Moment) : Bool :=
  match episodes key with
  | none => false
  | some e => !expired bounds episodes key now && bounds.waiting e.lastAbsenceAt now

inductive Verdict
  | pass | fail | absent
  deriving DecidableEq

def Verdict.text : Verdict → String
  | pass => "pass"
  | fail => "fail"
  | absent => "absent"

structure PredicateResult where
  predicate : String
  outcome : Verdict
  detail : String

structure ItemReport where
  itemId : String
  outcome : Verdict
  results : List PredicateResult
  unmeasurable : Bool

structure Plan where
  key : String
  goal : String
  items : List Item
  baseSha : String

/-- `Plan.item`. -/
def Plan.item (plan : Plan) (itemId : String) : Except Raised Item :=
  orElse (plan.items.find? (fun i => i.id == itemId))
    ⟨"KeyError", "no item " ++ Value.reprText itemId ++ " in plan " ++ Value.reprText plan.key⟩

def TodoPlan.runtimePlan (plan : TodoPlan) : Plan := ⟨plan.attemptId, plan.goal, plan.items, plan.baseSha⟩

/-- The workspace at one moment: the digest of each file, and what the library
measures of a binding. -/
structure World where
  digest : String → Except Raised (Option String)
  evaluate : Binding → Dict → String → Except Raised PredicateResult

structure TodoRun where
  plan : Plan
  preState : Map Dict
  reports : Map ItemReport
  episodes : Episodes

/-- What iterating a value gives. -/
def iterate : Value → Except Raised (List Value)
  | .arr items => .ok items
  | .str s => .ok (s.toList.map fun c => .str (String.singleton c))
  | .obj fields => .ok (fields.map fun f => .str f.1)
  | v => .error ⟨"TypeError", v.repr ++ " is not iterable"⟩

/-- The files whose change a binding is about. -/
def changedFiles (binding : Binding) : Except Raised (List String) :=
  if binding.predicate = "file_changed" then do
    let path ← orElse (binding.args.find "path") ⟨"KeyError", Value.reprText "path"⟩
    return [path.toText]
  else if binding.predicate = "files_changed" then do
    let paths ← orElse (binding.args.find "paths") ⟨"KeyError", Value.reprText "paths"⟩
    let items ← iterate paths
    return items.map Value.toText
  else .ok []

/-- `captured[rel] = _digest(workspace / rel)`. -/
def captureFile (world : World) (captured : Dict) (rel : String) : Except Raised Dict := do
  let digest ← world.digest rel
  return captured.put rel (match digest with
    | some d => .str d
    | none => .null)

/-- `capture_pre_state`. -/
def capturePreState (world : World) (bindings : List Binding) : Except Raised Dict :=
  bindings.foldlM (fun captured binding => do
    let files ← changedFiles binding
    files.foldlM (captureFile world) captured) []

namespace TodoRun

/-- `episode_key`. -/
def episodeKey (run : TodoRun) (itemId : String) : String := run.plan.key ++ "/" ++ itemId

/-- `TodoRun.begin`. -/
def begin (world : World) (run : TodoRun) (itemId : String) : Except Raised (Item × TodoRun) := do
  let item ← run.plan.item itemId
  let captured ← capturePreState world item.predicates
  return (item, { run with preState := run.preState.setDefault itemId captured })

/-- The stored report, where the gate is not asked again. -/
def held (bounds : Bounds) (run : TodoRun) (itemId : String) (now : Moment) : Option (ItemReport × Episode) :=
  match run.reports itemId, run.episodes (run.episodeKey itemId) with
  | some stored, some episode =>
    if stored.outcome = .absent && !stored.unmeasurable &&
        deferring bounds run.episodes (run.episodeKey itemId) now then some (stored, episode)
    else none
  | _, _ => none

/-- The report of a measurement, and the run that keeps it. -/
def conclude (bounds : Bounds) (run : TodoRun) (itemId : String) (now : Moment) (results : List PredicateResult) :
    ItemReport × TodoRun :=
  let key := run.episodeKey itemId
  let failed := results.any (fun r => r.outcome = .fail)
  match failed, results.filter (fun r => r.outcome = .absent) with
  | false, first :: rest =>
    let names := (first :: rest).map PredicateResult.predicate
    let episodes := noteAbsence run.episodes key now first.predicate (some (names ++ ["measured@" ++ now.text])) 1
    let report : ItemReport := ⟨itemId, .absent, results, expired bounds episodes key now⟩
    (report, { run with episodes := episodes, reports := run.reports.set itemId report })
  | _, _ =>
    let report : ItemReport := ⟨itemId, if failed then .fail else .pass, results, false⟩
    (report, { run with episodes := run.episodes.erase key, reports := run.reports.set itemId report })

/-- `TodoRun.observe`. -/
def observe (bounds : Bounds) (world : World) (now : Moment) (run : TodoRun) (itemId : String) :
    Except Raised (ItemReport × TodoRun) := do
  let item ← run.plan.item itemId
  let preState ← orElse (run.preState itemId) ⟨"RuntimeError", "observe(" ++ Value.reprText itemId ++
    ") before begin(): no pre-state to compare against"⟩
  match run.held bounds itemId now with
  | some (stored, episode) =>
    let episodes := noteAbsence run.episodes (run.episodeKey itemId) now episode.gate episode.reportKey 1
    return (stored, { run with episodes := episodes })
  | none => do
    let results ← item.predicates.mapM fun binding => world.evaluate binding preState run.plan.baseSha
    return run.conclude bounds itemId now results

def isComplete (run : TodoRun) (itemId : String) : Bool :=
  match run.reports itemId with
  | some report => report.outcome = .pass
  | none => false

def isUnmeasurable (run : TodoRun) (itemId : String) : Bool :=
  match run.reports itemId with
  | some report => report.unmeasurable
  | none => false

/-- `TodoRun.next_item`. -/
def nextItem (run : TodoRun) : Option Item :=
  run.plan.items.find? fun item =>
    !run.isComplete item.id && !run.isUnmeasurable item.id && item.needs.all run.isComplete

/-- `TodoRun.finished`. -/
def finished (run : TodoRun) : Bool := run.plan.items.all fun item => run.isComplete item.id

end TodoRun

end AItelier.Todo
