import AItelier.Lib.Value
import AItelier.State.Text

namespace AItelier.Todo

open AItelier.Lib

/-- A request the harness will not carry out. -/
structure Refusal where
  code : String
  reason : String
  extra : Dict

/-- A Python exception: its type and its text. -/
structure Raised where
  type : String
  text : String

inductive Stop
  | refused (refusal : Refusal)
  | raised (exc : Raised)

abbrev Outcome := Except Stop

def refuse {α : Type} (code reason : String) : Outcome α := .error (.refused ⟨code, reason, []⟩)

def raise {α : Type} (type text : String) : Outcome α := .error (.raised ⟨type, text⟩)

/-- Refuse with `invalid_plan` unless `c`. -/
def valid (c : Bool) (reason : String) : Outcome Unit :=
  ensure c (.refused ⟨"invalid_plan", reason, []⟩)

/-- `repr` of a list of texts. -/
def listRepr (texts : List String) : String := (Value.arr (texts.map .str)).repr

/-- `repr` of a tuple of texts. -/
def tupleRepr (texts : List String) : String :=
  "(" ++ String.intercalate ", " (texts.map Value.reprText) ++ (if texts.length = 1 then ",)" else ")")

/-- A plan's use of a library predicate. -/
structure Binding where
  predicate : String
  args : Dict

/-- A parameter of a predicate, and whether a binding has to give it. -/
structure Parameter where
  name : String
  required : Bool

structure PredicateLibrary where
  version : String
  definitions : List (String × List Parameter)

namespace PredicateLibrary

def names (library : PredicateLibrary) : List String := State.sortTexts (library.definitions.map Prod.fst)

end PredicateLibrary

def startsWith (c : Char) (s : String) : Bool := s.toList.head? == some c

def isTextValue : Value → Bool
  | .str _ => true
  | _ => false

def isNonemptyText : Value → Bool
  | .str s => s != ""
  | _ => false

/-- `value > 0` of a number that is no `bool`. -/
def positiveNumber : Value → Bool
  | .int i => 0 < i
  | .float f =>
    match f.whole with
    | some i => 0 < i
    | none => !(startsWith '-' f.text || f.text == "nan")
  | _ => false

def strLists : List String := ["argv", "scope", "require_keys", "paths"]

def stringNames : List String := ["path", "pattern", "contains", "base", "report"]

/-- What an argument of this name must hold. -/
def argumentFits (name : String) (value : Value) : Bool :=
  if name = "require_keys" then
    match value with
    | .arr items => items.all isTextValue
    | _ => false
  else if name ∈ strLists then
    match value with
    | .arr items => !items.isEmpty && items.all isNonemptyText
    | _ => false
  else if name ∈ stringNames then isNonemptyText value
  else if name = "expect" then
    match value with
    | .int _ => true
    | _ => false
  else if name = "timeout" then value.isNull || positiveNumber value
  else true

/-- `PredicateLibrary.check`: a `KeyError` or `ValueError` where the library cannot
evaluate the binding. -/
def check (library : PredicateLibrary) (binding : Binding) : Except Raised Unit :=
  match library.definitions.find? (fun d => d.1 == binding.predicate) with
  | none => .error ⟨"KeyError", "unknown predicate " ++ Value.reprText binding.predicate ++ "; library has " ++
      tupleRepr library.names⟩
  | some (_, parameters) => do
    let unknown := State.sortTexts ((binding.args.map Prod.fst).filter
      (fun n => !(parameters.map Parameter.name).contains n))
    let missing := State.sortTexts ((parameters.filter (fun p => p.required && !binding.args.has p.name)).map
      Parameter.name)
    ensure (unknown = [] ∧ missing = []) ⟨"ValueError", binding.predicate ++ ": unknown argument(s) " ++
      listRepr unknown ++ ", missing argument(s) " ++ listRepr missing⟩
    binding.args.forM fun arg => ensure (argumentFits arg.1 arg.2) ⟨"ValueError", binding.predicate ++ "." ++ arg.1 ++
      " has the wrong type or is empty: " ++ arg.2.repr⟩

structure Item where
  id : String
  title : String
  predicates : List Binding
  needs : List String

structure TodoPlan where
  attemptId : String
  nodeKey : String
  contextHash : String
  baseSha : String
  workspace : String
  scope : List String
  goal : String
  items : List Item

def maxItems : Nat := 12

def maxPredicates : Nat := 4

def deliver : String := "deliver"

def topKeys : List String :=
  ["attempt_id", "base_sha", "context_hash", "goal", "items", "node_key", "scope", "workspace"]

def itemKeys : List String := ["id", "needs", "predicates", "title"]

/-- The first characters of a text. -/
def clip (n : Nat) (s : String) : String := String.ofList (s.toList.take n)

/-- `_text`. -/
def text (data : Dict) (key label : String) (empty : Bool) : Outcome String :=
  match data.get key with
  | .str s => do
    valid (empty || State.strip s != "") (label ++ key ++ " must be a non-empty string")
    return s
  | _ => refuse "invalid_plan" (label ++ key ++ " must be a non-empty string")

/-- An absolute path, or one with a `..` part. -/
def leaves (path : String) : Bool :=
  startsWith '/' path || (path.toList.splitOn '/').contains ['.', '.']

/-- `_relative`. -/
def relative (value : Value) (label : String) : Outcome Unit :=
  valid (!leaves value.toText) (label ++ " must be a relative path inside the workspace, got " ++ value.repr)

/-- The values an argument gives: those of a list, or the one. -/
def spread : Value → List Value
  | .arr items => items
  | v => [v]

def pathKeys : List String := ["path", "pattern", "paths"]

/-- The paths among a binding's arguments stay inside the workspace. -/
def bindingPaths (itemId : String) (binding : Binding) : Outcome Unit :=
  pathKeys.forM fun key => whenever (binding.args.has key)
    ((spread (binding.args.get key)).forM fun value =>
      relative value ("item " ++ itemId ++ ": " ++ binding.predicate ++ "." ++ key))

/-- `_binding`. -/
def parseBinding (library : PredicateLibrary) (itemId : String) (entry : Value) : Outcome Binding :=
  match entry with
  | .obj fields => do
    valid (fields.all (fun f => f.1 == "predicate" || f.1 == "args") && Dict.has fields "predicate")
      ("item " ++ itemId ++ ": a predicate is \x7bpredicate, args\x7d: " ++ clip 120 entry.toText)
    match (Dict.find fields "args").getD (.obj []) with
    | .obj args => do
      let binding : Binding := ⟨(Dict.get fields "predicate").toText, args⟩
      match check library binding with
      | .ok () => do
        bindingPaths itemId binding
        return binding
      | .error exc =>
        if exc.type = "KeyError" then refuse "unknown_predicate" ("item " ++ itemId ++ ": " ++
          Value.reprText binding.predicate ++ " is not in the predicate library v" ++ library.version ++ " " ++
          tupleRepr library.names ++ "; a plan binds predicates, it cannot define one")
        else refuse "invalid_plan" ("item " ++ itemId ++ ": " ++ exc.text)
    | _ => refuse "invalid_plan" ("item " ++ itemId ++ ": args must be an object")
  | _ => refuse "invalid_plan" ("item " ++ itemId ++ ": a predicate is \x7bpredicate, args\x7d: " ++
      clip 120 entry.toText)

def nameOf : Value → Option String
  | .str s => some s
  | _ => none

/-- `_item`. -/
def parseItem (library : PredicateLibrary) (earlier : List String) (raw : Value) : Outcome Item :=
  match raw with
  | .obj fields => do
    valid (fields.all (fun f => itemKeys.contains f.1) && ["id", "title", "predicates"].all (Dict.has fields))
      ("an item is an object with keys " ++ listRepr itemKeys ++ ": " ++ clip 120 raw.toText)
    let itemId ← text fields "id" "item " false
    valid (State.isKey itemId && itemId != deliver && !earlier.contains itemId)
      ("item id " ++ Value.reprText itemId ++ " must be unique, plain, and not " ++ Value.reprText deliver)
    let title ← text fields "title" ("item " ++ itemId ++ ": ") true
    let needs := (Dict.find fields "needs").getD (.arr [])
    match needs with
    | .arr names => do
      valid (names.all (fun n => earlier.any n.isText)) ("item " ++ itemId ++
        ": needs must name items declared EARLIER; got " ++ needs.repr)
      match Dict.get fields "predicates" with
      | .arr entries => do
        valid (!entries.isEmpty)
          ("item " ++ itemId ++ ": an item needs at least one predicate; completion is observed")
        ensure (entries.length ≤ maxPredicates) (.refused ⟨"too_many_predicates", "item " ++ itemId ++ ": " ++
          toString entries.length ++ " predicates; the limit is " ++ toString maxPredicates, []⟩)
        let predicates ← entries.mapM (parseBinding library itemId)
        return ⟨itemId, title, predicates, names.filterMap nameOf⟩
      | _ => refuse "invalid_plan" ("item " ++ itemId ++
          ": an item needs at least one predicate; completion is observed")
    | _ => refuse "invalid_plan" ("item " ++ itemId ++ ": needs must name items declared EARLIER; got " ++ needs.repr)
  | _ => refuse "invalid_plan"
      ("an item is an object with keys " ++ listRepr itemKeys ++ ": " ++ clip 120 raw.toText)

/-- The items of a plan, each read against the ids before it. -/
def parseItems (library : PredicateLibrary) : List Item → List Value → Outcome (List Item)
  | items, [] => .ok items
  | items, raw :: rest => do
    let item ← parseItem library (items.map Item.id) raw
    parseItems library (items ++ [item]) rest

/-- The item that the harness appends. -/
def deliverItem (library : PredicateLibrary) (items : List Item) (baseSha : String) (scope : List String) :
    Outcome Item := do
  let delivered ← parseBinding library deliver
    (.obj [("predicate", .str "git_delivered"), ("args", .obj [("base", .str baseSha)])])
  let within ← parseBinding library deliver
    (.obj [("predicate", .str "changes_within"), ("args", .obj [("scope", .arr (scope.map .str))])])
  return ⟨deliver, "Deliver: commit the work, inside the declared scope", [delivered, within], items.map Item.id⟩

namespace TodoPlan

/-- `TodoPlan.from_json`. -/
def fromJson (library : PredicateLibrary) (data : Value) : Outcome TodoPlan :=
  match data with
  | .obj fields => do
    let stray := State.sortTexts ((fields.map Prod.fst).filter (fun n => !topKeys.contains n))
    let missing := topKeys.filter (fun n => !Dict.has fields n)
    valid (stray.isEmpty && missing.isEmpty)
      ("plan keys: unexpected " ++ listRepr stray ++ ", missing " ++ listRepr missing)
    let attemptId ← text fields "attempt_id" "" false
    valid (State.isKey attemptId) "attempt_id must be 1-128 chars of [A-Za-z0-9._-], starting alphanumeric"
    let nodeKey ← text fields "node_key" "" false
    let contextHash ← text fields "context_hash" "" false
    let goal ← text fields "goal" "" false
    let baseSha ← text fields "base_sha" "" false
    valid (State.isHexOf 40 baseSha || State.isHexOf 64 baseSha) "base_sha must be a full lowercase commit hash"
    let workspace ← text fields "workspace" "" false
    valid (startsWith '/' workspace) "workspace must be an absolute path"
    match Dict.get fields "scope" with
    | .arr globs => do
      valid (!globs.isEmpty && globs.all isNonemptyText) "scope must be a non-empty list of glob strings"
      globs.forM fun glob => relative glob "scope entry"
      let scope := globs.filterMap nameOf
      match Dict.get fields "items" with
      | .arr raw => do
        ensure (raw.length ≤ maxItems) (.refused ⟨"too_many_items", toString raw.length ++ " items; the limit is " ++
          toString maxItems ++ " (plus the appended deliver)", []⟩)
        let items ← parseItems library [] raw
        let last ← deliverItem library items baseSha scope
        return ⟨attemptId, nodeKey, contextHash, baseSha, workspace, scope, goal, items ++ [last]⟩
      | _ => refuse "invalid_plan" "items must be a list"
    | _ => refuse "invalid_plan" "scope must be a non-empty list of glob strings"
  | _ => refuse "invalid_plan" "a plan is a JSON object"

/-- A stored item that the director wrote. -/
def isDirectors : Value → Bool
  | .obj fields => !(Dict.get fields "id").isText deliver
  | _ => false

/-- `TodoPlan.from_stored`: the appended item is regenerated, not trusted. -/
def fromStored (library : PredicateLibrary) (data : Dict) : Outcome TodoPlan :=
  match (data.find "items").getD (.arr []) with
  | .arr items => fromJson library (.obj (data.put "items" (.arr (items.filter isDirectors))))
  | .str _ | .obj _ => fromJson library (.obj (data.put "items" (.arr [])))
  | v => raise "TypeError" (v.repr ++ " is not iterable")

def bindingJson (b : Binding) : Value := .obj [("predicate", .str b.predicate), ("args", .obj b.args)]

def itemJson (i : Item) : Value :=
  .obj [("id", .str i.id), ("title", .str i.title), ("needs", .arr (i.needs.map .str)),
    ("predicates", .arr (i.predicates.map bindingJson))]

/-- `TodoPlan.as_json`. -/
def asJson (plan : TodoPlan) : Dict :=
  [("attempt_id", .str plan.attemptId), ("node_key", .str plan.nodeKey), ("context_hash", .str plan.contextHash),
    ("base_sha", .str plan.baseSha), ("workspace", .str plan.workspace), ("scope", .arr (plan.scope.map .str)),
    ("goal", .str plan.goal), ("items", .arr (plan.items.map itemJson))]

/-- `TodoPlan.plan_hash`: the digest of the canonical JSON. -/
def planHash (digest : Dict → String) (plan : TodoPlan) : String := digest plan.asJson

end TodoPlan

end AItelier.Todo
