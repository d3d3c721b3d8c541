import AItelier.Lib.Folder
import AItelier.Lib.ValueText
import AItelier.State.Text

namespace AItelier.Deployment

open AItelier.Lib

/-- How a call ends that has no result: `DeploymentBlocked`, `ValueError`, and the
errors of the language no caller is told of. -/
inductive Stop
  | blocked (message : String)
  | value (message : String)
  | type
  | attribute
  | recursion
  deriving DecidableEq

/-- The journal and what stands beside it. -/
inductive File
  | journal | anchor | backup | source | transaction
  | temp (k : Nat)
  deriving DecidableEq

def File.suffix : File → String
  | .journal => ""
  | .anchor => ".anchor.json"
  | .backup => ".legacy-v1.backup"
  | .source => ".legacy-v1.source"
  | .transaction => ".migration-v1.json"
  | .temp k => "." ++ toString k

/-- A parsed time: its instant, where the text names its zone. -/
structure Moment where
  instant : Option Int
  deriving DecidableEq

/-- The path of the journal, and the libraries it is read and written with. -/
structure Host (β : Type) where
  path : String
  name : String
  utf8 : String → β
  sha256 : β → String
  size : β → Nat
  b64encode : β → String
  b64decode : String → Option β
  encode : Value → β
  decode : β → Except String Value
  unique : ∀ b v, decode b = .ok v → v.Plain
  fromisoformat : String → Option Moment

/-- What a file holds: bytes that were found, or a value written as its JSON text.
Such a text reads back as the value; the order of its keys is not looked at. -/
inductive Content (β : Type)
  | raw (b : β)
  | document (v : Value)

abbrev Disk (β : Type) := Folder File (Content β)

section Reading

variable {β : Type} (host : Host β)

def Host.at (f : File) : String := host.path ++ f.suffix

def Host.nameOf (f : File) : String := host.name ++ f.suffix

def Content.bytes : Content β → β
  | .raw b => b
  | .document v => host.encode v

/-- `_decode_journal_json`. -/
def Content.decode (f : File) : Content β → Except Stop Value
  | .raw b =>
    match host.decode b with
    | .ok v => .ok v
    | .error e => .error (.blocked ("deployment journal is unreadable at " ++ host.at f ++ ": " ++ e))
  | .document v => .ok v

/-- `_read_journal_json`. -/
def readJournalJson (d : Disk β) (f : File) : Except Stop Value :=
  match d.read f with
  | some c => c.decode host f
  | none => .error (.blocked ("deployment journal is unreadable at " ++ host.at f ++
      ": [Errno 2] No such file or directory: '" ++ host.at f ++ "'"))

/-- `_digest`. -/
def digest (v : Value) : String := host.sha256 (host.utf8 v.dumps)

/-- `_nonempty_string`. -/
def nonemptyString : Value → Bool
  | .str s => State.strip s != ""
  | _ => false

def itemsOf : Value → List Value
  | .arr items => items
  | _ => []

def isList : Value → Bool
  | .arr _ => true
  | _ => false

def isObject : Value → Bool
  | .obj _ => true
  | _ => false

/-- `set(d) == names`. -/
def keysAre (d : Dict) (names : List String) : Bool :=
  d.all (fun f => names.contains f.1) && names.all (Dict.has d)

def DEPLOY_ACTIONS : List String := ["rebuild", "redeploy", "restart"]

/-- The flags of each status: pending, usable. -/
def JOURNAL_EVENT_STATES : List (String × Bool × Bool) :=
  [("authorized", true, false), ("overridden", true, false), ("completed", false, true), ("aborted", false, false),
    ("reconciled_quiescent", false, false)]

def JOURNAL_SUCCESSORS : List (String × List String) :=
  [("authorized", ["completed", "aborted"]), ("overridden", ["completed", "aborted"]),
    ("completed", ["authorized", "overridden", "aborted"]),
    ("aborted", ["authorized", "overridden", "aborted", "reconciled_quiescent"]),
    ("reconciled_quiescent", ["authorized", "overridden", "aborted"])]

def isOneOf (names : List String) : Value → Bool
  | .str s => names.contains s
  | _ => false

def isBool (b : Bool) : Value → Bool
  | .bool c => c == b
  | _ => false

/-- `_legacy_journal_genesis`. -/
def legacyJournalGenesis : Value → Bool
  | .obj e =>
    keysAre e ["event_id", "status", "usable"] && (Dict.get e "status").isText "aborted" &&
      isBool false (Dict.get e "usable")
  | _ => false

def journalFault (host : Host β) (text : String) (index : Nat) : String :=
  "deployment quiescence journal at " ++ host.path ++ " " ++ text ++ " at index " ++ toString index ++
    "; refusing to replay or start a deployment action"

def successorsOf : Value → List String
  | .str s => (JOURNAL_SUCCESSORS.lookup s).getD []
  | _ => []

/-- The flags of the status, where there is such a status. -/
def statesOf : Value → Option (Bool × Bool)
  | .str s => JOURNAL_EVENT_STATES.lookup s
  | _ => none

/-- The order of the event behind the one before it. -/
def brokenOrder (events : List Value) (index : Nat) (event : Value) : Bool :=
  if index = 0 then hasField event "prior_event_id"
  else
    match events[index - 1]? with
    | some prior =>
      !State.isHexText 32 (field event "prior_event_id") ||
        !(field event "prior_event_id").pyEq (field prior "event_id")
    | none => true

/-- What an event may not be behind its predecessor. -/
def transitionFault (host : Host β) (events : List Value) (index : Nat) (event : Value) : Option String :=
  if index = 0 then none
  else
    match events[index - 1]? with
    | some predecessor =>
      firstOf [
        refuse (!isOneOf (successorsOf (field predecessor "status")) (field event "status"))
          (journalFault host "has an illegal event transition" index),
        refuse (isOneOf ["authorized", "overridden"] (field predecessor "status") &&
            (!(field event "action").pyEq (field predecessor "action") ||
              !(field event "inventory_digest").pyEq (field predecessor "inventory_digest")))
          (journalFault host "has a divergent pending transition" index),
        refuse ((field event "status").isText "reconciled_quiescent" &&
            !(field event "action").pyEq (field predecessor "action"))
          (journalFault host "has a divergent reconciliation transition" index)]
    | none => none

/-- What a status asks of its event. -/
def statusFault (host : Host β) (index : Nat) (event : Value) : Option String :=
  match statesOf (field event "status") with
  | none => some (journalFault host "has an unknown status" index)
  | some (pending, usable) =>
    firstOf [
      refuse (!isBool pending (field event "pending") || !isBool usable (field event "usable"))
        (journalFault host "has contradictory pending/usable state" index),
      refuse (!isOneOf DEPLOY_ACTIONS (field event "action")) (journalFault host "has a malformed action" index),
      refuse ((!(field event "status").isText "aborted" || !(field event "inventory_digest").isNull) &&
          !State.isHexText 64 (field event "inventory_digest"))
        (journalFault host "has a malformed inventory digest" index),
      refuse (hasField event "replayed" && !isBool false (field event "replayed"))
        (journalFault host "has replayed evidence" index),
      refuse (index == 0 && !isOneOf ["authorized", "overridden", "aborted"] (field event "status"))
        (journalFault host "has an invalid genesis event" index)]

/-- One round of the loop over the events. -/
def eventFault (host : Host β) (events : List Value) (index : Nat) (event : Value) : Option String :=
  firstOf [
    refuse (!isObject event) (journalFault host "has a malformed event" index),
    refuse (!State.isHexText 32 (field event "event_id")) (journalFault host "event_id is malformed" index),
    refuse ((events.take index).any (fun e => (field e "event_id").pyEq (field event "event_id")))
      (journalFault host "has a duplicate event_id" index),
    refuse (brokenOrder events index event) (journalFault host "has a broken event order" index),
    if index == 0 && legacyJournalGenesis event then none
    else firstOf [statusFault host index event, transitionFault host events index event]]

def eventsFault (host : Host β) (events : List Value) : Option String :=
  events.zipIdx.findSome? (fun e => eventFault host events e.2 e.1)

/-- `latest` is the last event, by its canonical text. -/
def latestFault (host : Host β) (j : Dict) (events : List Value) : Option String :=
  match events.getLast? with
  | some last =>
    refuse (!isObject (j.get "latest") || (j.get "latest").dumps != last.dumps)
      ("deployment quiescence journal at " ++ host.path ++
        " has missing, orphaned, or divergent latest evidence; refusing to replay or start a deployment action")
  | none =>
    refuse (!(j.get "latest").isNull)
      ("deployment quiescence journal at " ++ host.path ++
        " has orphaned latest evidence; refusing to replay or start a deployment action")

def isVersion (n : Int) : Value → Bool
  | .int i => i == n
  | _ => false

/-- `_validate_journal`. -/
def validateJournal (host : Host β) (value : Value) : Option String :=
  firstOf [
    refuse (!(isVersion 1 (field value "version") || isVersion 2 (field value "version")) ||
        !isList (field value "events"))
      ("deployment journal at " ++ host.path ++ " is malformed"),
    eventsFault host (itemsOf (field value "events")),
    match value with
    | .obj j => latestFault host j (itemsOf (Dict.get j "events"))
    | _ => none]

def link (host : Host β) (journalId : Value) (position : Nat) (previous event : Value) : Value :=
  .str (digest host (.obj [("version", .int 2), ("journal_id", journalId), ("position", .int position),
    ("previous_hash", previous), ("event", event)]))

def chainFrom (host : Host β) (journalId : Value) : Nat → Value → List Value → List Value
  | _, _, [] => []
  | position, previous, event :: rest =>
    link host journalId position previous event ::
      chainFrom host journalId (position + 1) (link host journalId position previous event) rest

/-- `_chain`. -/
def chain (host : Host β) (j : Dict) : List Value :=
  chainFrom host (j.get "journal_id") 0 .null (itemsOf (j.get "events"))

/-- `_checkpoint`. -/
def checkpoint (host : Host β) (j : Dict) : Value :=
  .obj [("version", .int 2), ("journal_id", j.get "journal_id"),
    ("event_count", .int (itemsOf (j.get "events")).length),
    ("genesis_hash", ((itemsOf (j.get "chain")).head?).getD .null),
    ("head_hash", ((itemsOf (j.get "chain")).getLast?).getD .null),
    ("journal_hash", .str (digest host (.obj j)))]

end Reading

end AItelier.Deployment
