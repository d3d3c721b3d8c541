import AItelier.Lib.Outcome
import AItelier.Lib.Value

namespace AItelier.Migration

open AItelier.Lib

section Documents

/-- An edge of a step: the step it goes to, if it names one, and its other keys. -/
structure Edge where
  target : Option String
  data : Dict

/-- A step of a pipeline: its id, its `transitions`, and its other keys. -/
structure Step where
  id : String
  transitions : List Edge
  fields : Dict

/-- A pipeline document: the step it begins at, its steps, and its other keys. -/
structure Document where
  begin : String
  steps : List Step
  fields : Dict

/-- What stops a migration: a `ValueError` with its text, or a value of another type than the
code takes it for. -/
inductive Fault
  | value (text : String)
  | type
  deriving DecidableEq, Repr

def Document.ids (d : Document) : List String := d.steps.map Step.id

/-- `by_id.get(id)`, of steps with distinct ids. -/
def Document.step? (d : Document) (id : String) : Option Step := d.steps.find? (fun s => decide (s.id = id))

/-- `v or {}`, read as a dictionary. -/
def dictOr (v : Value) : Except Fault Dict :=
  match v with
  | .obj d => .ok d
  | v => if v.truthy then .error .type else .ok ([] : Dict)

/-- `list(v or [])`. -/
def listOr (v : Value) : Except Fault (List Value) :=
  match v with
  | .arr items => .ok items
  | .obj d => .ok (d.map (fun f => .str f.1))
  | .str s => .ok (s.toList.map (fun c => .str (String.ofList [c])))
  | v => if v.truthy then .error .type else .ok []

end Documents

section Edges

/-- `_replace_targets` on one edge. -/
def Edge.replace (old new : String) (e : Edge) : Edge :=
  if e.target = some old then { e with target := some new } else e

def replaceTargets (steps : List Step) (old new : String) (exclude : List String) : List Step :=
  steps.map (fun s => if s.id ∈ exclude then s else { s with transitions := s.transitions.map (Edge.replace old new) })

/-- How many edges `_replace_targets` rewrites. -/
def replaceCount (steps : List Step) (old : String) (exclude : List String) : Nat :=
  ((steps.filter (fun s => decide (s.id ∉ exclude))).flatMap Step.transitions).countP
    (fun e => decide (e.target = some old))

/-- The steps that the edges of a step name. -/
def Step.targets (s : Step) : List String := (s.transitions.filterMap Edge.target).filter (fun t => decide (t ≠ ""))

def singleSuccessor (s : Step) (label : String) : Except Fault String :=
  match s.targets with
  | [t] => .ok t
  | targets =>
    .error (.value (label ++ ": cannot migrate verifier with " ++ toString targets.length ++ " successors"))

/-- `_drop_step_context`. -/
def dropStepContext (source : String) (s : Step) : Step :=
  match s.fields.get "context" with
  | .arr items => { s with fields := s.fields.put "context" (.arr (items.filter (fun item => !readsStep item))) }
  | _ => s
where
  readsStep : Value → Bool
    | .obj item =>
      let inner : Dict := match Dict.get item "source" with
        | .obj nested => nested
        | _ => item
      (Dict.get inner "step").isText source ||
        ((Dict.get inner "source_type").isText "step" && (Dict.get inner "step_id").isText source)
    | _ => false

/-- Change the step of an id. -/
def withStep (id : String) (f : Step → Step) (steps : List Step) : List Step :=
  steps.map (fun s => if s.id = id then f s else s)

end Edges

section Migrate

def isReadme : Value → Bool
  | .str s => s == "README.md"
  | .obj slot => (Dict.get slot "file").isText "README.md"
  | _ => false

def additions : List String := ["5_candidate_after", "5_candidate_before", "5_readme"]

/-- The three rewritings of the edges, with the steps they leave: around `5`, around
`5_knowledge` where there is one, and into `5_review`. -/
def rewire (d : Document) (verifier : Step) : Except Fault (List Step × String) := do
  let oldAfterVerifier ← singleSuccessor verifier "5"
  ensure (replaceCount d.steps "5" ["5"] ≠ 0) (.value "5: no predecessor found for README-owning verifier")
  let steps := replaceTargets d.steps "5" oldAfterVerifier ["5"]
  let steps ← aroundKnowledge steps
  ensure (replaceCount steps "5_review" ["5_review", "5_knowledge"] ≠ 0)
    (.value "5_review: no post-candidate predecessor found")
  .ok (replaceTargets steps "5_review" "5_readme" ["5_review", "5_knowledge"], oldAfterVerifier)
where
  aroundKnowledge (steps : List Step) : Except Fault (List Step) :=
    match steps.find? (fun s => decide (s.id = "5_knowledge")) with
    | none => .ok steps
    | some knowledge => do
      let oldAfterKnowledge ← singleSuccessor knowledge "5_knowledge"
      ensure (replaceCount steps "5_knowledge" ["5_knowledge"] ≠ 0)
        (.value "5_knowledge: no predecessor found during verifier migration")
      .ok (replaceTargets steps "5_knowledge" oldAfterKnowledge ["5_knowledge"])

/-- The slot that the README's new owner writes. -/
def readmeSlot (slot : Value) : Value :=
  match slot with
  | .obj d => .obj (Dict.put (Dict.put d "target" (.str "code")) "on_exists" (.str "replace"))
  | v => .obj [("file", v), ("target", .str "code"), ("on_exists", .str "replace")]

/-- What stays in the verifier's output: its report, as an artifact. -/
def reportSlot (slot : Value) : Value :=
  match slot with
  | .obj d =>
    if (Dict.get d "file").isText "final/verify_report.json" then
      .obj (Dict.put (if Dict.has d "target" then d else Dict.put d "target" (.str "artifact"))
        "on_exists" (.str "replace"))
    else .obj d
  | v => v

def ownerStep (agent : String) (context : List Value) (slot : Value) (game : Bool) : Step where
  id := "5_readme"
  transitions := [⟨some "5_candidate_before", []⟩]
  fields :=
    [("step_type", .str "agent"), ("agent_config", .str agent), ("context", .arr context),
      ("output", .obj [("mode", .str "content"), ("target", .str "artifact"),
        ("fixed", .obj [("readme", readmeSlot slot)])])] ++
    if game then [("config", .obj [("extra_templates", .arr [.str "game_harness/readme_owner.md"])])] else []

def integrityStep (id phase : String) (params : Dict) (edge : Edge) : Step where
  id := id
  transitions := [edge]
  fields :=
    [("step_type", .str "tool"), ("tool_name", .str "candidate_integrity"), ("timeout_seconds", .int 120),
      ("tool_params", .obj ([("project_root", .str "$PROJECT_ROOT"), ("out_dir", .str "$STEP_DIR"),
        ("phase", .str phase)] ++ params))]

def beforeStep : Step := integrityStep "5_candidate_before" "snapshot" [] ⟨some "5", []⟩

def afterStep (target : String) : Step :=
  integrityStep "5_candidate_after" "verify" [("baseline_step", .str "5_candidate_before")]
    ⟨some target, [("match", .obj [("passed", .bool true)])]⟩

def integritySource : Value :=
  .obj [("source", .obj [("step", .str "5_candidate_after"), ("output", .str "candidate_integrity_report.json"),
    ("required", .bool true)])]

/-- The review's context with the comparison's report in it. -/
def reviewContext (review : Step) : Except Fault Step :=
  match review.fields.find "context" with
  | none => .ok { review with fields := review.fields.put "context" (.arr [integritySource]) }
  | some (.arr items) =>
    if items.any (fun item => item.pyEq integritySource) then .ok review
    else .ok { review with fields := review.fields.put "context" (.arr (items ++ [integritySource])) }
  | some _ => .error .type

def withLabels (fields : Dict) : Except Fault Dict := do
  let extra ← dictOr (fields.get "x-aitelier")
  match extra.get "labels" with
  | .obj labels =>
    let labels := Dict.update labels [("5_readme", .str "Delivery README"),
      ("5_candidate_before", .str "Candidate Snapshot"), ("5_candidate_after", .str "Candidate Integrity")]
    .ok (fields.put "x-aitelier" (.obj (extra.put "labels" (.obj labels))))
  | _ => .ok fields

/-- The shape gate: nothing to do, or the fixed slots and the one that is the README's. -/
def readmeOwned (d : Document) (fixed : Dict) : Except Fault (Option String) := do
  match (fixed.filter (fun f => isReadme f.2)).map Prod.fst with
  | [] => .ok none
  | slots =>
    let missing := ["5_review", "task_loop"].filter (fun id => decide (id ∉ d.ids))
    ensure (missing = []) (.value ("5: README-owning verifier is not a recognized DPE graph; missing " ++
      String.intercalate ", " missing))
    let collisions := additions.filter (fun id => decide (id ∈ d.ids))
    ensure (collisions = []) (.value ("5: partial read-only verifier migration; existing " ++
      String.intercalate ", " collisions))
    match slots with
    | [slot] => .ok (some slot)
    | _ => .error (.value "5: expected exactly one README output slot")

/-- The rest of the migration, once the edges are rewired. -/
def rebuild (agent : String) (d : Document) (steps : List Step) (verifier review : Step) (output fixed : Dict)
    (slot : String) :
    Except Fault Document := do
  let knowledge := decide ("5_knowledge" ∈ d.ids)
  let game := decide ("5_design" ∈ d.ids ∨ "5_compile" ∈ d.ids)
  let context ← listOr (verifier.fields.get "context")
  let fields ← withLabels d.fields
  let review ← reviewContext review
  let reports : Dict := (fixed.pop slot).map (fun f => (f.1, reportSlot f.2))
  let output := (output.put "target" (.str "artifact")).put "fixed" (.obj reports)
  let steps := withStep "5_design" (dropStepContext "5") steps
  let steps := withStep "5_compile" (dropStepContext "5") steps
  let steps := withStep "5_game_evidence" (dropStepContext "5") steps
  let steps := withStep "5" (fun s => { s with fields := s.fields.put "output" (.obj output) }) steps
  let steps := withStep "5" (fun s => { s with transitions := [⟨some "5_candidate_after", []⟩] }) steps
  let steps := withStep "5_knowledge" (fun s => { s with transitions := [⟨some "5_review", []⟩] }) steps
  let steps := withStep "5_review" (fun s => { s with fields := review.fields }) steps
  .ok { d with
    steps := steps ++ [ownerStep agent context (fixed.get slot) game, beforeStep,
      afterStep (if knowledge then "5_knowledge" else "5_review")]
    fields := fields }

/-- `migrate_readonly_verifier`: the document it makes and the step that followed the verifier, or
nothing where it leaves the document alone. -/
def migrateReadonlyVerifier (agent : String) (d : Document) : Except Fault (Option (Document × String)) :=
  match d.step? "5" with
  | none => .ok none
  | some verifier => do
    let output ← dictOr (verifier.fields.get "output")
    let fixed ← dictOr (output.get "fixed")
    match ← readmeOwned d fixed with
    | none => .ok none
    | some slot =>
      let (steps, oldAfter) ← rewire d verifier
      match d.step? "5_review" with
      | none => .ok none
      | some review =>
        let made ← rebuild agent d steps verifier review output fixed slot
        .ok (some (made, oldAfter))

end Migrate

end AItelier.Migration
