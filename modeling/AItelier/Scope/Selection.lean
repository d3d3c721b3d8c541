import AItelier.Lib.Entries
import AItelier.Lib.Worklist
import AItelier.Scope.Snapshot

namespace AItelier.Scope

open AItelier.Lib

def nameText? : Value → Option String
  | .str s => if s = "" then none else some s
  | _ => none

/-- A list of distinct nonempty texts. -/
def names? (scope : Dict) (key : String) : Option (List String) :=
  match scope.get key with
  | .arr items => (items.mapM nameText?).bind (fun names => if names.Nodup then some names else none)
  | _ => none

/-- The checks of `selection_basis`. -/
def basisRefusal (scope : Dict) : Option String :=
  match scope.get "selection_basis" with
  | .obj basis =>
    if !State.isHexText 40 (Dict.get basis "head_sha") then some "selection_basis head_sha is missing or malformed"
    else if !State.isHexText 64 (Dict.get basis "spec_sha256") then some
      "selection_basis spec_sha256 is missing or malformed"
    else if (scope.get "fallback_full").truthy && !(Dict.get basis "fallback_reason").truthy then
      some "full fallback has no explicit reason"
    else none
  | _ => some "selection_basis is missing or malformed"

/-- The checks of the partition. -/
def partitionRefusal (scope : Dict) (all selected unselected : List String) : Option String :=
  if all = [] ∨ selected = [] ∨ (∃ n ∈ selected, n ∈ unselected) ∨
      ¬ (∀ n ∈ all, n ∈ selected ∨ n ∈ unselected) ∨ ¬ (∀ n ∈ selected ++ unselected, n ∈ all) then
    some "coverage is not a nonempty disjoint complete partition"
  else if selected ≠ all.filter (fun n => decide (n ∈ selected)) then
    some "selected_scenarios changes the authored execution order"
  else if unselected ≠ all.filter (fun n => decide (n ∈ unselected)) then
    some "unselected_scenarios changes the authored execution order"
  else if (scope.get "coverage").isText "full" ≠ decide (unselected = []) then
    some "coverage marker disagrees with the explicit partition"
  else match scope.get "fallback_full" with
    | .bool fallback =>
      if fallback && !(scope.get "coverage").isText "full" then some "a fallback may not select a subset"
      else basisRefusal scope
    | _ => some "fallback_full is missing or malformed"

/-- `validate_coverage`. -/
def validateCoverage : Value → Option String
  | .obj scope =>
    if !((Dict.get scope "coverage").isText "full" || (Dict.get scope "coverage").isText "subset") then
      some "coverage marker is missing or invalid"
    else match names? scope "all_scenarios", names? scope "selected_scenarios", names? scope "unselected_scenarios" with
      | none, _, _ => some "all_scenarios is missing, ambiguous or malformed"
      | some _, none, _ => some "selected_scenarios is missing, ambiguous or malformed"
      | some _, some _, none => some "unselected_scenarios is missing, ambiguous or malformed"
      | some all, some selected, some unselected => partitionRefusal scope all selected unselected
  | _ => some "coverage marker is missing or invalid"

end AItelier.Scope

namespace AItelier.Scope

open AItelier.Lib

structure Graph where
  edges : Entries String (List String)
  autoload : List String
  uncertain : List (String × String)

/-- `{Path(path).parent for path in files if ...}`. -/
def boundaries (files : List String) : List (List (List Char)) :=
  (files.filter (fun f =>
    decide ((parts f).getLast? ∈ [some "project.godot".toList, some ".gdignore".toList] ∧ (parts f).dropLast ≠ []))).map
    (fun f => (parts f).dropLast)

/-- A file of a nested project or of an ignored directory. -/
def isExcluded (files : List String) (path : String) : Bool :=
  (boundaries files).any (fun b => b.isPrefixOf (parts path).dropLast)

/-- The texts of the parent project. -/
def ownTexts (snap : Snapshot) : List (String × String) :=
  snap.texts.filter (fun t => !isExcluded snap.files t.1)

/-- The classes that texts declare. -/
def declared (word : Char → Bool) (texts : List (String × String)) : List (String × String) :=
  texts.flatMap (fun t => (classNamesOf word t.2).map (fun name => (name, t.1)))

/-- One round over the declarations: a name has one file. -/
def declare (classes : Entries String String) (c : String × String) : Except Fault (Entries String String) :=
  match classes.get c.1 with
  | some path => if path ≠ c.2 then .error (valueError ("ambiguous class_name: " ++ c.1)) else .ok classes
  | none => .ok (classes.set c.1 c.2)

def excludedClasses (word : Char → Bool) (snap : Snapshot) : List String :=
  (declared word (snap.texts.filter (fun t => isExcluded snap.files t.1))).map Prod.fst

def reprTexts (texts : List String) : String :=
  (Value.arr ((texts.dedup.insertionSort (fun a b => a.toList ≤ b.toList)).map Value.str)).repr

/-- Why a text of the parent project may refer to more than is read from it. -/
def unknowns (host : Host) (snap : Snapshot) (classes : Entries String String) (text : String) : List String :=
  let missing := (resourcesOf text).filter (fun r => decide (r ∉ snap.files))
  let outside := (tokens host.word text).filter (fun n =>
    decide (n ∈ excludedClasses host.word snap ∧ (classes.get n).isNone))
  (if (tokens host.word text).any (fun n => n == "FileAccess" || n == "DirAccess") then
    ["file/directory API dependencies are not resolved"] else []) ++
  (if hasPart "uid://" text then ["UID resource reference is not resolved"] else []) ++
  (if extendsRelative true text.toList then ["relative script inheritance is not resolved"] else []) ++
  (if missing = [] then [] else ["unresolved resource: " ++ reprTexts missing]) ++
  (if dynamicLoad host.word false text.toList then ["dynamic or unsupported resource call"] else []) ++
  (if outside = [] then [] else ["class names outside the parent project namespace: " ++ reprTexts outside])

/-- The references of a text: its resources, and the files of the classes it names. -/
def references (word : Char → Bool) (classes : Entries String String) (text : String) : List String :=
  resourcesOf text ++ (tokens word text).filterMap classes.get

/-- One line of `project.godot`: the section it is in, and the autoloads so far. -/
def autoloadLine (acc : String × List String) (line : String) : String × List String :=
  if (State.strip line).toList.head? = some '[' then (State.strip line, acc.2)
  else if acc.1 = "[autoload]" then (acc.1, acc.2 ++ resourcesOf line)
  else acc

def autoloadsIn (text : String) : List String := ((lines text).foldl autoloadLine ("", [])).2

def autoloads (texts : List (String × String)) : List String :=
  autoloadsIn (((texts.find? (fun t => decide (t.1 = "project.godot"))).map Prod.snd).getD "")

/-- `_graph`. -/
def graph (host : Host) (snap : Snapshot) : Except Fault Graph := do
  let texts := ownTexts snap
  let classes ← (declared host.word texts).foldlM declare []
  return {
    edges := texts.map (fun t => (t.1, references host.word classes t.2))
    autoload := autoloads texts
    uncertain :=
      (snap.files.filter (isExcluded snap.files)).map
        (fun f => (f, "resource is outside the parent project namespace")) ++
      texts.flatMap (fun t => (unknowns host snap classes t.2).map (fun reason => (t.1, reason))) }

/-- The references of a file in either graph. -/
def follow (base head : Graph) (path : String) : List String :=
  (base.edges.get path).getD [] ++ (head.edges.get path).getD []

/-- `_closure`, with a round for each root and each edge. -/
def closure (base head : Graph) (roots : List String) : List String :=
  let keys := ((base.edges ++ head.edges).map Prod.fst).dedup
  explore (follow base head) (roots.length + owing (follow base head) keys []) [] roots

theorem mem_closure {base head : Graph} {roots : List String} {p : String} :
    p ∈ closure base head roots ↔
      ∃ r ∈ roots, Relation.ReflTransGen (fun a b => b ∈ follow base head a) r p := by
  have hnext : ∀ a, a ∉ ((base.edges ++ head.edges).map Prod.fst).dedup → follow base head a = [] := by
    intro a ha
    rw [List.mem_dedup, List.map_append, List.mem_append, not_or] at ha
    rw [follow, Entries.get_eq_none ha.1, Entries.get_eq_none ha.2]
    rfl
  refine Iff.trans (mem_explore (List.nodup_dedup _) hnext _ (fun _ h => absurd h List.not_mem_nil) (Nat.le_refl _)) ?_
  simp only [List.not_mem_nil, false_or]

end AItelier.Scope

namespace AItelier.Scope

open AItelier.Lib

/-- The commits of a repository, and the trees they have. -/
structure Repository where
  resolve : String → Except Fault String
  tree : String → Tree

/-- What `_measured_context` reads from a measurement: some of the current scenarios, or an error. -/
structure Measurement where
  read : String → Dict → List String → Except Fault (List String)
  current : ∀ head spec names always, read head spec names = .ok always → ∀ n ∈ always, n ∈ names

abbrev Scenario := String × Dict

def scenario? : Value → Option Scenario
  | .obj fields =>
    match Dict.get fields "name" with
    | .str name => if name = "" then none else some (name, fields)
    | _ => none
  | _ => none

/-- The authored scenarios, by their distinct names. -/
def inventory (spec : Value) : Except Fault (Dict × List Scenario) :=
  match spec with
  | .obj fields =>
    match Dict.get fields "scenarios" with
    | .arr items =>
      if items = [] then .error (valueError "no complete authored scenario inventory; cannot produce even a full plan")
      else match items.mapM scenario? with
        | some scenarios =>
          if (scenarios.map Prod.fst).Nodup then .ok (fields, scenarios)
          else .error (valueError "authored scenario inventory has missing/duplicate identities")
        | none => .error (valueError "authored scenario inventory has missing/duplicate identities")
    | _ => .error (valueError "no complete authored scenario inventory; cannot produce even a full plan")
  | _ => .error (valueError "no complete authored scenario inventory; cannot produce even a full plan")

/-- `scenario.get("scene", spec.get("scene"))`, without the scheme. -/
def sceneRoot (spec : Dict) (s : Scenario) : Option String :=
  match (s.2.find "scene").getD (spec.get "scene") with
  | .str scene => if resourceScheme.isPrefixOf scene.toList then some (String.ofList (scene.toList.drop 6)) else none
  | _ => none

def OPAQUE : List String := [".cs", ".dll", ".gdextension", ".scn", ".res", ".glb", ".gltf"]

/-- What a scenario reaches in the two graphs. -/
def deps (base head : Graph) (scene : String) : List String :=
  closure base head (base.autoload ++ head.autoload ++ [scene])

/-- One round over the scenarios: the changed files that it depends on. -/
def dependencies (base head : Graph) (headFiles changed : List String) (spec : Dict) (s : Scenario) :
    Except Fault (String × List String) := do
  let scene ← orElse (sceneRoot spec s) (valueError ("scenario has no literal scene root: " ++ s.1))
  ensure (scene ∈ headFiles) (valueError ("scenario root is missing: " ++ scene))
  let reached := deps base head scene
  let unread := reached.filter (fun p => decide (suffix p ∈ OPAQUE))
  ensure (unread = []) (valueError ("opaque resource dependencies are not resolved: " ++ reprTexts unread))
  ensure (∀ p ∈ reached, p ∉ (base.uncertain ++ head.uncertain).map Prod.fst)
    (valueError ("resource graph is incomplete for scenario: " ++ s.1))
  return (s.1, reached.filter (fun p => decide (p ∈ changed)))

/-- The scenarios that depend on a changed file, where every change is accounted for. -/
def impact (host : Host) (base head : Tree) (spec : Dict) (scenarios : List Scenario) : Except Fault (List String) := do
  let changed ← changedFiles host base head
  let baseSnap ← snapshot host base
  let headSnap ← snapshot host head
  let baseGraph ← graph host baseSnap
  let headGraph ← graph host headSnap
  let rounds ← scenarios.mapM (dependencies baseGraph headGraph headSnap.files changed spec)
  let outside := changed.filter (fun p => decide (∀ r ∈ rounds, p ∉ r.2))
  ensure (outside = []) (valueError ("diff contains changes outside the proven resource graph: " ++ reprTexts outside))
  return (rounds.filter (fun r => decide (r.2 ≠ []))).map Prod.fst

/-- The measured scenarios, and the repetitions of one of them under another name. -/
def withReplays (host : Host) (scenarios : List Scenario) (always : List String) : List String :=
  let shape (s : Scenario) := host.digest (s.2.pop "name")
  let repeats (s : Scenario) := (s.2.get "repeatability").isTrue
  let shapes := (scenarios.filter (fun s => decide (s.1 ∈ always) && repeats s)).map shape
  always ++ (scenarios.filter (fun s => repeats s && decide (shape s ∈ shapes))).map Prod.fst

/-- The selected scenarios. A bad measurement is only reported once the graph is read. -/
def select (host : Host) (base head : Tree) (spec : Dict) (scenarios : List Scenario)
    (always : Except Fault (List String)) : Except Fault (List String) :=
  match always with
  | .error f =>
    if f.caught then do
      let _ ← impact host base head spec scenarios
      .error (valueError f.render)
    else .error f
  | .ok always => do
    let impacted ← impact host base head spec scenarios
    ensure (impacted ++ always ≠ []) (valueError "selection would be empty; no gate may pass on zero scenarios")
    return impacted ++ always

inductive Marker
  | full | subset
  deriving DecidableEq, Repr

structure Basis where
  baseSha : String
  headSha : String
  specSha256 : String
  measurementError : Option String
  fallbackReason : Option String
  deriving DecidableEq, Repr

structure Plan where
  coverage : Marker
  allScenarios : List String
  selectedScenarios : List String
  unselectedScenarios : List String
  fallbackFull : Bool
  selectionBasis : Basis
  alwaysIncluded : List String
  deriving DecidableEq, Repr

/-- The plan that a failure leaves. -/
def fallback (names : List String) (basis : Basis) (always : List String) (f : Fault) : Plan :=
  ⟨.full, names, names, [], true, { basis with fallbackReason := some f.render }, always⟩

/-- The plan of a selection. -/
def partition (names selected : List String) (basis : Basis) (always : List String) : Plan where
  coverage := if (∀ n ∈ selected, n ∈ names) ∧ ∀ n ∈ names, n ∈ selected then .full else .subset
  allScenarios := names
  selectedScenarios := names.filter (fun n => decide (n ∈ selected))
  unselectedScenarios := names.filter (fun n => !decide (n ∈ selected))
  fallbackFull := false
  selectionBasis := basis
  alwaysIncluded := always

def measurementError : Except Fault (List String) → Option String
  | .error f => if f.caught then some f.render else none
  | .ok _ => none

def alwaysIncluded : Except Fault (List String) → List String
  | .error _ => []
  | .ok always => always.dedup.insertionSort (fun a b => a.toList ≤ b.toList)

/-- `select_scope`. -/
def selectScope (host : Host) (repo : Repository) (base head : String) (spec : Value) (measurement : Measurement) :
    Except Fault Plan := do
  let (fields, scenarios) ← inventory spec
  let names := scenarios.map Prod.fst
  match repo.resolve base, repo.resolve head with
  | .error f, _ | .ok _, .error f => return fallback names ⟨base, head, host.digest fields, none, none⟩ [] f
  | .ok baseSha, .ok headSha =>
    let always := (measurement.read headSha fields names).map (withReplays host scenarios)
    let basis : Basis := ⟨baseSha, headSha, host.digest fields, measurementError always, none⟩
    match select host (repo.tree baseSha) (repo.tree headSha) fields scenarios always with
    | .error f => return fallback names basis (alwaysIncluded always) f
    | .ok selected => return partition names selected basis (alwaysIncluded always)

def Marker.text : Marker → String
  | .full => "full"
  | .subset => "subset"

def textList (names : List String) : Value := .arr (names.map Value.str)

/-- A field that is there when it is set. -/
def optional (key : String) : Option String → Dict
  | some text => [(key, .str text)]
  | none => []

def Basis.document (b : Basis) : Dict :=
  [("base_sha", .str b.baseSha), ("head_sha", .str b.headSha), ("spec_sha256", .str b.specSha256)] ++
    optional "measurement_error" b.measurementError ++ optional "fallback_reason" b.fallbackReason

def Plan.fields (p : Plan) : Dict :=
  [("coverage", .str p.coverage.text), ("all_scenarios", textList p.allScenarios),
    ("selected_scenarios", textList p.selectedScenarios), ("unselected_scenarios", textList p.unselectedScenarios),
    ("fallback_full", .bool p.fallbackFull), ("selection_basis", .obj p.selectionBasis.document),
    ("always_included_scenarios", textList p.alwaysIncluded)]

def Plan.document (p : Plan) : Value := .obj p.fields

end AItelier.Scope
