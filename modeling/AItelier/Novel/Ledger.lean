import AItelier.Lib.Entries
import AItelier.Lib.JsonDoc
import AItelier.Lib.TextFile
import AItelier.Lib.ValueText
import AItelier.Novel.Chapters

namespace AItelier.Novel.Ledger

open AItelier.Lib

/-- How a float's text is read and two numbers compare, and the YAML of the cards. -/
structure Host where
  float : String → PyFloat
  less : Value → Value → Bool
  dumpYaml : Value → Text
  loadYaml : Text → Except String Value

/-- The files under `novel/`: ledgers by kind and file name, cards by file name, `world.yaml` and
`state/index.yaml`. -/
structure Workspace where
  ledger : Entries (String × String) Text
  cards : Entries String Text
  world : Option Text
  index : Option Text

/-- `_FNAME_BAD`. -/
def badChar (c : Char) : Bool := ['/', '\\', ':', '*', '?', '"', '<', '>', '|'].contains c || c.toNat < 32

def safeFilename (name : String) : String :=
  let cleaned := (State.strip name).toList.map (fun c => if badChar c then '_' else c)
  if cleaned = [] then "_unnamed" else String.ofList cleaned

def LEDGER_KINDS : List String := ["characters", "factions", "settings", "threads", "arcs"]

inductive Write
  | row (kind name : String) (row : Dict)
  | card (name : String) (card : Dict)
  | world (world : Dict)

/-- A row as it stands in its file. -/
def line (row : Dict) : Text := JsonDoc.dumps JsonDoc.oneLine (.obj row) ++ ['\n']

def Workspace.put (host : Host) (ws : Workspace) : Write → Workspace
  | .row kind name row =>
    { ws with
      ledger := ws.ledger.set (kind, safeFilename name) ((ws.ledger.get (kind, safeFilename name)).getD [] ++ line row) }
  | .card name card => { ws with cards := ws.cards.set (safeFilename name) (host.dumpYaml (.obj card)) }
  | .world world => { ws with world := some (host.dumpYaml (.obj world)) }

/-- `ledger_append`. -/
def ledgerAppend (kind name : String) (entry : Dict) : Except String Write := do
  ensure (kind ∈ LEDGER_KINDS) ("ledger: unknown kind " ++ Value.reprText kind ++ " (one of " ++
    "('characters', 'factions', 'settings', 'threads', 'arcs'))")
  return .row kind name (Dict.update [("entity", .str name)] entry)

/-- `str.splitlines` of a text with universal newlines: a break at the very end starts no
further line. -/
def splitlines : Text → Text → List Text
  | [], [] => []
  | c :: current, [] => [(c :: current).reverse]
  | current, c :: rest =>
    if isLineEnd c then current.reverse :: splitlines [] rest else splitlines (c :: current) rest

/-- `line.strip()` is not empty. -/
def notBlank (line : Text) : Bool := line.any (fun c => !State.isSpace c)

/-- `read_ledger`. -/
def readLedger (host : Host) (ws : Workspace) (kind name : String) : Except String (List Value) := do
  ensure (kind ∈ LEDGER_KINDS) "ledger: unknown kind"
  match ws.ledger.get (kind, safeFilename name) with
  | none => return []
  | some text =>
    ((splitlines [] (universal text)).filter notBlank).mapM
      (fun l => orElse (JsonDoc.loads host.float l) "JSONDecodeError")

/-- `str(card.get("name") or p.stem)`. -/
def cardName (stem : String) (card : Dict) : String := (Value.orElse (card.get "name") (.str stem)).toText

def setdefault (d : Dict) (name : String) (v : Value) : Dict := if d.has name then d else d.put name v

/-- `load_yaml(p, {})` of a card. -/
def loadCard (host : Host) (text : Text) : Except String Dict := do
  let data ← host.loadYaml text
  match data with
  | .null => return []
  | .obj card => return card
  | _ => throw "AttributeError: not a dictionary"

/-- `load_characters`: the files in the order of their names, each under the name on its card. -/
def loadCharacters (host : Host) (ws : Workspace) : Except String (Entries String Dict) :=
  (ws.cards.insertionSort (fun a b => (a.1 ++ ".yaml").toList ≤ (b.1 ++ ".yaml").toList)).foldlM (fun out file => do
    let card ← loadCard host file.2
    let name := cardName file.1 card
    return out.set name (setdefault card "name" (.str name))) []

/-- What `for a in v or []` goes through. -/
def iterate (v : Value) : Except String (List Value) :=
  match v with
  | .arr items => .ok items
  | .obj fields => .ok (fields.map (fun f => .str f.1))
  | .str s => .ok (s.toList.map (fun c => .str (String.ofList [c])))
  | v => if v.truthy then .error "TypeError: not iterable" else .ok []

/-- `alias_owners`. -/
def aliasOwners (characters : Entries String Dict) : Except String (Entries String String) :=
  characters.foldlM (fun out c => do
    let aliases ← iterate (c.2.get "aliases")
    return aliases.foldl (fun out a =>
      let a := State.strip a.toText
      if a ≠ "" ∧ a ∉ characters.map Prod.fst ∧ (out.get a).isNone then out.set a c.1 else out) out) []

def findProtagonist (characters : Entries String Dict) : Option String :=
  (characters.find? (fun c => (c.2.get "is_protagonist").truthy || (c.2.get "role").isText "protagonist")).map Prod.fst

def isCharacter (etype : Value) : Bool := etype.isText "character" || etype.isText "protagonist"

def entityName (ev : Dict) : String := (Value.orElse (ev.get "entity_name") (.str "")).toText

/-- The name an event is booked under: an unknown protagonist is the protagonist there is. -/
def resolve (characters : Entries String Dict) (ev : Dict) : String :=
  if (ev.get "entity_type").isText "protagonist" ∧ (characters.get (entityName ev)).isNone then
    (findProtagonist characters).getD (entityName ev)
  else entityName ev

/-- `_appeared_in`: whatever cannot be read is nothing. -/
def appearedIn (host : Host) (ws : Workspace) (name : String) : List Int :=
  match ws.index.map host.loadYaml with
  | some (.ok (.obj index)) =>
    match Value.orElse (Dict.get index "by_character") (.obj []) with
    | .obj chapters =>
      match Dict.find chapters name with
      | some (.arr items) => items.filterMap (fun v => match v with
        | .int i => some i
        | .bool b => some (if b then 1 else 0)
        | _ => none)
      | _ => []
    | _ => []
  | _ => []

def noCardError (host : Host) (ws : Workspace) (name : String) : String :=
  let seen := (appearedIn host ws name).insertionSort (· ≤ ·)
  let place := if seen = [] then "（此前从未出现）"
    else "（他在第 " ++ String.intercalate ", " (seen.map toString) ++ " 章出场过，但从没记过事件，所以没有档案）"
  "events: 角色『" ++ name ++ "』还没有档案" ++ place ++ "。给某角色第一次记事件时必须写 create: true —— 它会建档并" ++
    "记下开账状态。`create` 问的是「档案存在吗」，不是「这人是不是新出场的」：出场不建档，记事件才建档。"

def aliasError (name owner : String) : String :=
  "events: 『" ++ name ++ "』是『" ++ owner ++ "』的别名（见其角色卡的 aliases），不是另一个人。记账一律用本名『" ++ owner ++
    "』——用别名建卡会把同一个人拆成两张卡，此后余额各记各的。正文里怎么称呼不影响分录用哪个名字。"

/-- One round of `validate_events`: the names known by then, of characters and of factions. -/
def validateEvent (host : Host) (ws : Workspace) (aliases : Entries String String) (protagonist : Option String)
    (known : List String × List String) (ev : Dict) : Except String (List String × List String) := do
  let etype := ev.get "entity_type"
  let name := entityName ev
  ensure ((isCharacter etype || etype.isText "faction" || etype.isText "world_setting") = true)
    ("events: unknown entity_type " ++ etype.repr ++ " (entry: " ++ Value.repr (.obj ev) ++ ")")
  ensure (name ≠ "") ("events: entity_name missing (entry: " ++ Value.repr (.obj ev) ++ ")")
  if isCharacter etype then
    let name := if etype.isText "protagonist" ∧ name ∉ known.1 then protagonist.getD name else name
    if name ∈ known.1 then return known
    else
      match aliases.get name with
      | some owner => throw (aliasError name owner)
      | none =>
        ensure ((ev.get "create").truthy = true) (noCardError host ws name)
        return (known.1 ++ [name], known.2)
  else if etype.isText "faction" ∧ name ∉ known.2 then
    ensure ((ev.get "create").truthy = true) ("events: faction '" ++ name ++ "' not in world.yaml and create!=true")
    return (known.1, known.2 ++ [name])
  else return known

def asDict (v : Value) : Except String Dict :=
  match v with
  | .obj d => .ok d
  | _ => .error "AttributeError: not a dictionary"

/-- `load_yaml(world_path, {}) or {}`. -/
def loadWorld (host : Host) (ws : Workspace) : Except String Dict :=
  match ws.world with
  | none => .ok []
  | some text => do
    let data ← host.loadYaml text
    asDict (Value.orElse data (.obj []))

/-- `validate_events`. -/
def validateEvents (host : Host) (ws : Workspace) (events : List Dict) : Except String Unit := do
  let characters ← loadCharacters host ws
  let aliases ← aliasOwners characters
  let world ← loadWorld host ws
  let factions ← iterate (world.get "factions")
  ensure (factions.all Value.hashable = true) "TypeError: unhashable type"
  let _ ← events.foldlM (validateEvent host ws aliases (findProtagonist characters))
    (characters.map Prod.fst, factions.filterMap Value.text?)
  return ()

/-- `is_transient_key`. -/
def isTransientKey (key : String) : Bool := "本章".toList.isPrefixOf key.toList ||
    "this_chapter".toList.isPrefixOf key.toList

/-- `_overwrite`. -/
def overwrite (entry changes : Dict) : Dict :=
  changes.foldl (fun entry f => if isTransientKey f.1 then entry
    else if f.2.isNull then entry.pop f.1
    else entry.put f.1 f.2) entry

def isNumber : Value → Bool
  | .int _ | .float _ | .bool _ => true
  | _ => false

/-- What the posting of events holds: the cards and the world in memory, the writes made, and
the warnings. -/
structure Posting where
  characters : Entries String Dict
  world : Dict
  writes : List Write
  warnings : List String

def reasonOf (ev : Dict) : String := (Value.orElse (ev.get "reason") (.str "")).toText

def journal (chapter : Value) (type : String) (changes : Value) (reason : String) : Dict :=
  [("chapter", chapter), ("type", .str type), ("changes", changes), ("reason", .str reason)]

/-- The warnings of a character's event. -/
def guardrails (host : Host) (name reason : String) (card changes : Dict) : List String :=
  let old := card.get "power_level"
  let new := changes.get "power_level"
  (if (card.get "status").isText "dead" && !(changes.get "status").isText "alive" then
    ["character '" ++ name ++ "' is dead but received changes (" ++
      Value.repr (.arr (changes.map (fun f => .str f.1))) ++ ") — check for 吃书"] else []) ++
  (if isNumber old && isNumber new && host.less new old then
    ["character '" ++ name ++ "' power_level regressed " ++ old.toText ++ "→" ++ new.toText ++ " (reason: " ++
      (if reason = "" then "none" else reason) ++ ")"] else [])

/-- The card after an event; a new one keeps what it starts with. -/
def bookedCard (card : Option Dict) (name : String) (changes : Dict) : Dict :=
  let entry := overwrite ((card.getD [("name", .str name), ("status", .str "alive")]).pop "progression") changes
  if card.isNone then entry.put "initial" (.obj (entry.filter (fun f => f.1 != "initial" && f.1 != "progression")))
  else entry

def postCharacter (host : Host) (chapter : Value) (s : Posting) (ev : Dict) (changes : Value) :
    Except String Posting := do
  let name := resolve s.characters ev
  let card := s.characters.get name
  let fields ← asDict changes
  let booked := bookedCard card name fields
  let row ← ledgerAppend "characters" name
    (journal chapter (if card.isNone then "create" else "event") changes (reasonOf ev))
  return { s with
    characters := s.characters.set name booked
    writes := s.writes ++ [row, .card name booked]
    warnings := s.warnings ++
      guardrails host name (reasonOf ev) (card.getD [("name", .str name), ("status", .str "alive")]) fields }

def postFaction (chapter : Value) (s : Posting) (ev : Dict) (changes : Value) : Except String Posting := do
  let name := entityName ev
  let factions ← asDict ((setdefault s.world "factions" (.obj [])).get "factions")
  let entry ← asDict ((setdefault factions name (.obj [])).get name)
  let fields ← asDict changes
  let world := s.world.put "factions" (.obj (factions.put name (.obj (overwrite (entry.pop "progression") fields))))
  let row ← ledgerAppend "factions" name (journal chapter "event" changes (reasonOf ev))
  return { s with world := world, writes := s.writes ++ [row, .world world] }

/-- A setting that is no dictionary is replaced by the changes. -/
def bookedSetting (settings : Dict) (name : String) (changes : Value) : Except String Value :=
  match (setdefault settings name (.obj [])).get name with
  | .obj entry => do
    let fields ← asDict changes
    let entry := overwrite entry fields
    return .obj (if settings.has name then entry
      else entry.put "initial" (.obj (fields.filter (fun f => !f.2.isNull && !isTransientKey f.1))))
  | _ => .ok changes

def postSetting (chapter : Value) (s : Posting) (ev : Dict) (changes : Value) : Except String Posting := do
  let name := entityName ev
  let settings ← asDict ((setdefault s.world "settings" (.obj [])).get "settings")
  let entry ← bookedSetting settings name changes
  let world := s.world.put "settings" (.obj (settings.put name entry))
  let row ← ledgerAppend "settings" name (journal chapter "event" changes (reasonOf ev))
  return { s with world := world, writes := s.writes ++ [row, .world world] }

/-- One round of the loop of `apply_events`. -/
def applyEvent (host : Host) (chapter : Value) (s : Posting) (ev : Dict) : Except String Posting :=
  let changes := Value.orElse (ev.get "changes") (.obj [])
  if isCharacter (ev.get "entity_type") then postCharacter host chapter s ev changes
  else if (ev.get "entity_type").isText "faction" then postFaction chapter s ev changes
  else postSetting chapter s ev changes

/-- The loop: an event that raises ends it, what was written stays. -/
def applyLoop (host : Host) (chapter : Value) : Posting → List Dict → Posting × Option String
  | s, [] => (s, none)
  | s, ev :: events =>
    match applyEvent host chapter s ev with
    | .ok s => applyLoop host chapter s events
    | .error e => (s, some e)

/-- `apply_events`: the writes in order, and the warnings or what it raises. -/
def applyEvents (host : Host) (ws : Workspace) (events : List Dict) (chapter : Value) :
    List Write × Except String (List String) :=
  match (do
    validateEvents host ws events
    let characters ← loadCharacters host ws
    let world ← loadWorld host ws
    return (characters, world)) with
  | .error e => ([], .error e)
  | .ok (characters, world) =>
    match applyLoop host chapter ⟨characters, world, [], []⟩ events with
    | (s, none) => (s.writes, .ok s.warnings)
    | (s, some e) => (s.writes, .error e)

inductive Step
  | append (kind name : String) (entry : Dict)
  | events (events : List Dict) (chapter : Value)

def Step.writes (host : Host) (ws : Workspace) : Step → List Write
  | .append kind name entry =>
    match ledgerAppend kind name entry with
    | .ok w => [w]
    | .error _ => []
  | .events evs chapter => (applyEvents host ws evs chapter).1

/-- The writes of a run, in order. -/
def history (host : Host) : Workspace → List Step → List Write
  | _, [] => []
  | ws, s :: steps => s.writes host ws ++ history host ((s.writes host ws).foldl (Workspace.put host) ws) steps

def run (host : Host) (ws : Workspace) (steps : List Step) : Workspace :=
  (history host ws steps).foldl (Workspace.put host) ws

end AItelier.Novel.Ledger
