import AItelier.Lib.Run
import AItelier.Lib.Table
import AItelier.State.Text
import Mathlib.Algebra.GroupWithZero.Nat

namespace AItelier.Notes

open AItelier.Lib AItelier.State

inductive Force
  | inForce | informational
  deriving DecidableEq, Repr

inductive Listing
  | listed | delisted
  deriving DecidableEq, Repr

/-- What `new_entry_id` draws: twelve hexadecimal digits. -/
structure EntryId where
  text : String
  hex : isHexOf 12 text
  deriving DecidableEq

/-- A row of `state_driver_note_entries`. -/
structure Entry where
  projectId : String
  entryId : String
  assertion : String
  body : String
  force : Force
  landed : String
  listing : Listing
  supersededBy : Option String
  supersedeReason : String
  delistReason : String
  actor : String
  directorIdentity : String
  createdAt : Stamp
  updatedAt : Stamp
  deriving DecidableEq

/-- The primary key. -/
abbrev Address := String × String

def Entry.address (e : Entry) : Address := (e.projectId, e.entryId)

/-- The closed free-text sections of a notebook (`state_driver_notes`). -/
structure Sections where
  projectId : String
  permanentText : String
  temporaryText : String

structure Notebook where
  projects : List String
  sections : List Sections
  entries : List Entry

def maxAssertionChars : Nat := 200
def maxEntryBodyChars : Nat := 20000
def maxReasonChars : Nat := 500
def maxLandedChars : Nat := 120
def maxIndexLimit : Int := 500

def hasLineBreak (s : String) : Bool :=
  s.toList.any (fun c => c = '\n' || c = '\r')

def assertionText (value : String) : Result String := do
  ensure (strip value ≠ "") (.graph "assertion must be nonempty text")
  let n := (strip value).toList.length
  ensure (n ≤ maxAssertionChars) (.graph ("assertion is " ++ toString n ++
    " characters but the index line cap is 200; it is refused, not truncated - put the narrative in " ++
    "the body and keep the one line a reader cannot violate"))
  ensure (hasLineBreak (strip value) = false)
    (.graph "assertion must be a single line; put the narrative in the body")
  return strip value

def bodyText (value : String) : Result String := do
  ensure (strip value ≠ "") (.graph "body must be nonempty text")
  let n := value.toList.length
  ensure (n ≤ maxEntryBodyChars) (.graph ("body is " ++ toString n ++
    " characters but the cap is 20000; it is refused, not truncated"))
  return value

def reasonText (value label : String) : Result String := do
  ensure (strip value ≠ "") (.graph (label ++ " must be nonempty text; the reason is kept with the entry"))
  let n := (strip value).toList.length
  ensure (n ≤ maxReasonChars)
    (.graph (label ++ " is " ++ toString n ++ " characters but the cap is 500"))
  return strip value

def landedText (value : String) : Result String := do
  let n := (strip value).toList.length
  ensure (n ≤ maxLandedChars)
    (.graph ("landed marker is " ++ toString n ++ " characters but the cap is 120"))
  ensure (hasLineBreak (strip value) = false) (.graph "landed marker must be a single line")
  return strip value

/-- A write is a rule; `informational` stays readable in old rows only. -/
def forceValue (value : Force) : Result Force := do
  ensure (value = .inForce) (.graph ("force=\"informational\" is closed: driver note entries are rules only " ++
    "(owner ruling 2026-10-06). In-flight state does not go into the notebook; record it in the State DAG " ++
    "instead: attempts (start_external_attempt / report_external_attempt, or start_attempt), " ++
    "node hold (set_node_hold), issues (report_issue) and node priority (set_node_priority). " ++
    "Write a rule with force=\"in_force\" or omit force."))
  return value

def entryIdValue (value : String) : Result String := do
  ensure (isHexOf 12 value) (.graph "entry_id must be 12 lowercase hex characters")
  return value

/-- `address_of`. -/
def addressOf (a : Address) : String := "note://" ++ a.1 ++ "/" ++ a.2

/-- `ADDRESS` at the start of the text: what it names and how long it is. The run of
key characters cannot contain the slash, so the greedy run is the only candidate. -/
def matchAddress (cs : List Char) : Option (Address × Nat) :=
  if "note://".toList.isPrefixOf cs then
    match cs.drop 7 with
    | [] => none
    | c :: rest =>
      let run := rest.takeWhile isKeyChar
      let tail := rest.drop run.length
      if isAlnum c ∧ run.length ≤ 127 ∧ tail.head? = some '/' ∧ isHexList 12 ((tail.drop 1).take 12) then
        some ((String.ofList (c :: run), String.ofList ((tail.drop 1).take 12)), 7 + (run.length + 1) + 1 + 12)
      else none
  else none

/-- `finditer`: the matches from left to right, each search starting after the last
match; `skip` characters of it are still to be passed. -/
def finditer : Nat → List Char → List Address
  | _, [] => []
  | skip + 1, _ :: cs => finditer skip cs
  | 0, c :: cs =>
    match matchAddress (c :: cs) with
    | some (a, n) => a :: finditer (n - 1) cs
    | none => finditer 0 cs

def referencedAddresses (value : String) : List Address :=
  finditer 0 value.toList

/-- Python's `in` for text. -/
def occursIn (pattern : String) (value : String) : Bool :=
  value.toList.tails.any (fun t => pattern.toList.isPrefixOf t)

structure Dangling where
  source : String
  address : String
  reason : String
  deriving DecidableEq

def unresolvedAddress (nb : Notebook) (projectId label : String) (a : Address) : List Dangling :=
  if a.1 ≠ projectId then [⟨label, addressOf a, "address leaves this project's notebook"⟩]
  else if (lookup Entry.address nb.entries a).isNone then
    [⟨label, addressOf a, "no entry at this address"⟩]
  else []

/-- Every address in the labelled texts that does not resolve to a body. -/
def unresolved (nb : Notebook) (projectId : String) (sources : List (String × String)) : List Dangling :=
  sources.flatMap fun (label, value) =>
    (if occursIn "dnote://" value then [⟨label, "dnote://", "private notebook reference forbidden"⟩] else []) ++
      (referencedAddresses value).flatMap (unresolvedAddress nb projectId label)

/-- The project whose notebook is meant, as every operation checks it. -/
def entity (nb : Notebook) (projectId : String) : Result Unit :=
  ensure (projectId ∈ nb.projects) (.notFound ("state project " ++ quote projectId ++ " not found"))

def entry (nb : Notebook) (a : Address) : Result Entry :=
  orElse (lookup Entry.address nb.entries a) (.notFound ("no driver note entry at " ++ addressOf a))

structure Counts where
  entryCount : Nat
  listedCount : Nat
  delistedCount : Nat
  supersededCount : Nat
  deriving DecidableEq, Repr

/-- SQL's `SUM` of a condition, zero where there is no row. -/
def sumOf (rows : List Entry) (p : Entry → Bool) : Nat :=
  (rows.map fun e => if p e then 1 else 0).sum

def entriesOf (nb : Notebook) (projectId : String) : List Entry :=
  nb.entries.filter (fun e => e.projectId = projectId)

def counts (nb : Notebook) (projectId : String) : Counts where
  entryCount := (entriesOf nb projectId).length
  listedCount := sumOf (entriesOf nb projectId) (fun e => e.listing = .listed)
  delistedCount := sumOf (entriesOf nb projectId) (fun e => e.listing = .delisted)
  supersededCount := sumOf (entriesOf nb projectId) (fun e => e.supersededBy ≠ none)

/-- The filter every index read shares. -/
def visible (includeSuperseded includeDelisted : Bool) (e : Entry) : Bool :=
  (includeDelisted || e.listing = .listed) && (includeSuperseded || e.supersededBy = none)

/-- `ORDER BY created_at, entry_id`. -/
def byCreation (a b : Entry) : Bool :=
  a.createdAt < b.createdAt || (a.createdAt = b.createdAt && decide (a.entryId ≤ b.entryId))

def indexRows (nb : Notebook) (projectId : String) (includeSuperseded includeDelisted : Bool) : List Entry :=
  ((entriesOf nb projectId).filter (visible includeSuperseded includeDelisted)).mergeSort byCreation

/-- `index_line`: the assertion and its status. -/
def indexLine (e : Entry) : String :=
  let status := match e.supersededBy with
    | some s => "[superseded -> " ++ addressOf (e.projectId, s) ++ "]"
    | none => if e.force = .inForce then "[in force]" else "[informational]"
  " ".intercalate ([e.assertion, status] ++ (if e.landed ≠ "" then ["[landed: " ++ e.landed ++ "]"] else []) ++
    (if e.listing = .delisted then ["[delisted]"] else []))

structure IndexItem where
  i : Nat
  address : String
  indexLine : String
  force : Force
  superseded : Bool
  supersededBy : Option String

def indexItem (e : Entry) (i : Nat) : IndexItem :=
  ⟨i, addressOf e.address, indexLine e, e.force, e.supersededBy.isSome,
    e.supersededBy.map fun s => addressOf (e.projectId, s)⟩

structure Index where
  counts : Counts
  indexCount : Nat
  index : List IndexItem

def indexProjection (nb : Notebook) (projectId : String) (includeSuperseded includeDelisted : Bool) : Index :=
  let rows := indexRows nb projectId includeSuperseded includeDelisted
  ⟨counts nb projectId, rows.length, rows.zipIdx.map fun (e, i) => indexItem e i⟩

/-- `get_driver_note`. -/
def get (nb : Notebook) (projectId : String) (includeSuperseded includeDelisted : Bool) : Result Index := do
  let projectId ← key projectId "project_id"
  entity nb projectId
  return indexProjection nb projectId includeSuperseded includeDelisted

structure Page where
  counts : Counts
  indexCount : Nat
  truncated : Bool
  entries : List Entry

/-- `driver_note_index`, one row read beyond the limit. -/
def entryIndex (nb : Notebook) (projectId : String) (includeDelisted : Bool) (limit : Int)
    (includeSuperseded : Bool) : Result Page := do
  let projectId ← key projectId "project_id"
  ensure (1 ≤ limit ∧ limit ≤ maxIndexLimit) (.graph "limit must be an integer between 1 and 500")
  entity nb projectId
  let rows := (indexRows nb projectId includeSuperseded includeDelisted).take (limit.toNat + 1)
  let page := rows.take limit.toNat
  return ⟨counts nb projectId, page.length, limit.toNat < rows.length, page⟩

structure Report where
  ok : Bool
  addressesChecked : Nat
  dangling : List Dangling
  counts : Counts

/-- The texts `check_index` reads of one entry. -/
def entrySources (e : Entry) : List (String × String) :=
  [(addressOf e.address ++ "#assertion", e.assertion), (addressOf e.address ++ "#body", e.body)] ++
    (e.supersededBy.toList.map fun s =>
      (addressOf e.address ++ "#superseded_by", addressOf (e.projectId, s)))

def sectionSources (s : Sections) : List (String × String) :=
  [("section:permanent", s.permanentText), ("section:temporary", s.temporaryText)]

def indexSources (nb : Notebook) (projectId : String) : List (String × String) :=
  ((lookup Sections.projectId nb.sections projectId).toList.flatMap sectionSources) ++
    ((entriesOf nb projectId).mergeSort byCreation).flatMap entrySources

/-- `check_driver_note_index`. -/
def checkIndex (nb : Notebook) (projectId : String) : Result Report := do
  let projectId ← key projectId "project_id"
  entity nb projectId
  let sources := indexSources nb projectId
  let dangling := unresolved nb projectId sources
  return ⟨dangling.isEmpty, (sources.map fun s => (referencedAddresses s.2).length).sum, dangling,
    counts nb projectId⟩

/-- The five counts a mutation answers with. -/
structure Catalogue where
  counts : Counts
  indexCount : Nat
  deriving DecidableEq

def catalogueCounts (nb : Notebook) (projectId : String) : Catalogue :=
  ⟨counts nb projectId, sumOf (entriesOf nb projectId) (visible false false)⟩

/-- The authored part of an entry, as a caller gives it. -/
structure Draft where
  assertion : String
  body : String
  force : Force
  landed : String
  directorIdentity : String

/-- The draft as it is stored. -/
def Draft.normalise (d : Draft) : Result Draft := do
  let assertion ← assertionText d.assertion
  let body ← bodyText d.body
  let force ← forceValue d.force
  let landed ← landedText d.landed
  let directorIdentity ← text d.directorIdentity "director_identity" 320
  return ⟨assertion, body, force, landed, directorIdentity⟩

def danglingText (items : List Dangling) : String :=
  "; ".intercalate (items.map fun d => d.address ++ " (" ++ d.reason ++ ")")

/-- `_write_entry`, with the identifier it drew; the table's primary key refuses a
second row under it. -/
def insertEntry (nb : Notebook) (projectId : String) (d : Draft) (actor : String) (id : EntryId)
    (now : Stamp) : Result Notebook := do
  ensure (occursIn "dnote://" d.assertion = false ∧ occursIn "dnote://" d.body = false)
    (.graph "private_notebook_reference")
  let dangling := unresolved nb projectId [("body", d.body), ("assertion", d.assertion)]
  ensure (dangling = []) (.graph ("driver note entry references addresses that do not resolve: " ++
    danglingText dangling))
  ensure ((projectId, id.text) ∉ nb.entries.map Entry.address)
    (.integrity "UNIQUE state_driver_note_entries.project_id, entry_id")
  return { nb with entries := nb.entries ++ [⟨projectId, id.text, d.assertion, d.body, d.force, d.landed,
    .listed, none, "", "", actor, d.directorIdentity, now, now⟩] }

/-- `write_driver_note_entry`. -/
def writeEntry (nb : Notebook) (projectId : String) (d : Draft) (actor : String) (id : EntryId)
    (now : Stamp) : Result ((Entry × Catalogue) × Notebook) := do
  let projectId ← key projectId "project_id"
  let d ← d.normalise
  entity nb projectId
  let nb ← insertEntry nb projectId d actor id now
  let row ← entry nb (projectId, id.text)
  return ((row, catalogueCounts nb projectId), nb)

def amend (nb : Notebook) (a : Address) (f : Entry → Entry) : Notebook :=
  { nb with entries := modifyWhere (fun e => e.address = a) f nb.entries }

/-- `supersede_driver_note_entry`: the retired entry, its successor and the counts. -/
def supersedeEntry (nb : Notebook) (projectId entryId : String) (d : Draft) (reason actor : String)
    (id : EntryId) (now : Stamp) : Result ((Entry × Entry × Catalogue) × Notebook) := do
  let projectId ← key projectId "project_id"
  let entryId ← entryIdValue entryId
  let reason ← reasonText reason "reason"
  let d ← d.normalise
  entity nb projectId
  let previous ← entry nb (projectId, entryId)
  ensure (previous.supersededBy = none) (.conflict (addressOf (projectId, entryId) ++
    " is already superseded by " ++ addressOf (projectId, previous.supersededBy.getD "") ++
    "; supersede that one"))
  let nb ← insertEntry nb projectId d actor id now
  let nb := amend nb (projectId, entryId) fun e =>
    { e with supersededBy := some id.text, supersedeReason := reason, updatedAt := now }
  let retired ← entry nb (projectId, entryId)
  let successor ← entry nb (projectId, id.text)
  return ((retired, successor, catalogueCounts nb projectId), nb)

/-- `delist_driver_note_entry`. -/
def delistEntry (nb : Notebook) (projectId entryId reason directorIdentity : String) (now : Stamp) :
    Result ((Entry × Catalogue) × Notebook) := do
  let projectId ← key projectId "project_id"
  let entryId ← entryIdValue entryId
  let reason ← reasonText reason "reason"
  let _ ← text directorIdentity "director_identity" 320
  entity nb projectId
  let row ← entry nb (projectId, entryId)
  ensure (row.listing = .listed) (.conflict (addressOf (projectId, entryId) ++
    " is already delisted; its body stays readable at that address"))
  let nb := amend nb (projectId, entryId) fun e =>
    { e with listing := .delisted, delistReason := reason, updatedAt := now }
  let delisted ← entry nb (projectId, entryId)
  return ((delisted, catalogueCounts nb projectId), nb)

/-- A write on the notebooks, or a project opened beside them. -/
inductive Op
  | project (id : String)
  | write (projectId : String) (d : Draft) (actor : String) (id : EntryId) (now : Stamp)
  | supersede (projectId entryId : String) (d : Draft) (reason actor : String) (id : EntryId) (now : Stamp)
  | delist (projectId entryId reason directorIdentity : String) (now : Stamp)

/-- The notebooks after a call; a refused one rolls back. -/
def step (nb : Notebook) : Op → Notebook
  | .project id => if isKey id then { nb with projects := nb.projects ++ [id] } else nb
  | .write p d actor id now => ((writeEntry nb p d actor id now).map Prod.snd).toOption.getD nb
  | .supersede p e d reason actor id now =>
    ((supersedeEntry nb p e d reason actor id now).map Prod.snd).toOption.getD nb
  | .delist p e reason director now => ((delistEntry nb p e reason director now).map Prod.snd).toOption.getD nb

/-- No entry and no section text yet. -/
def empty : Notebook := ⟨[], [], []⟩

def after (ops : List Op) : Notebook := run step empty ops

end AItelier.Notes
