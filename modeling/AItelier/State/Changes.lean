import AItelier.Lib.Cursor
import AItelier.State.System

namespace AItelier.State

open AItelier.Lib

inductive FilterMode
  | all | any
  deriving DecidableEq, Repr

/-- What a wait watches; the service refuses a `note_after_revision`, the scan
still knows it. -/
structure Filters where
  nodeKeys : Option (List String)
  attemptIds : Option (List String)
  noteAfterRevision : Option Nat
  filterMode : FilterMode
  actionableOnly : Bool
  includeLeaseEvents : Bool

/-- `LEASE_EVENTS`. -/
def leaseEvents : List String := ["claim_acquired", "claim_released", "lease_expired"]

/-- `_QUIET`: routine execution progress. -/
def quiet : List String :=
  ["host_contract_pinned", "attempt_reserved", "external_attempt_registered", "attempt_launching",
    "attempt_bound", "prior_candidate_included"]

/-- The rows of an append-only table with their `seq`. -/
def sequenced {α : Type} (rows : List α) : List (α × Nat) := rows.zipIdx 1

/-- `COALESCE(MAX(seq),0)` over the project's events. -/
def highWater (db : DB) (projectId : String) : Nat :=
  (((sequenced db.events).filter (fun row => decide (row.1.projectId = projectId))).map Prod.snd).foldl max 0

/-- The `relevant` query: the named nodes that exist, and everything upstream. -/
def relevant (db : DB) (projectId : String) (nodeKeys : List String) : List String :=
  let edges := (projectEdges db projectId).map Prod.swap
  (grow edges)^[edges.length] (((db.nodes.filter (fun n => decide (n.projectId = projectId))).map Node.nodeKey).filter
    (fun k => decide (k ∈ nodeKeys)))

/-- `json_each(payload_json, path)`: a container's values, or the scalar itself. -/
def jsonEach : Json → List Json
  | .arr items => items
  | .obj fields => fields.map Prod.snd
  | j => [j]

/-- `value IN (...)` over text parameters: only text equals text. -/
def textIn (values : List String) : Json → Bool
  | .str s => decide (s ∈ values)
  | _ => false

/-- `COALESCE(value,0) > n`: SQLite orders text after every integer, and an
extracted container is text. -/
def above (n : Nat) : Json → Bool
  | .null => false
  | .bool b => decide (n < b.toNat)
  | .int i => decide ((n : Int) < i)
  | .str _ | .arr _ | .obj _ => true

def matchesNodes (db : DB) (projectId : String) (nodeKeys : List String) (e : Event) : Bool :=
  (match e.nodeKey with
    | none => true
    | some k => decide (k ∈ relevant db projectId nodeKeys)) ||
  (jsonEach (e.payload.get "invalidated")).any (textIn nodeKeys)

def matchesNote (revision : Nat) (e : Event) : Bool :=
  decide (e.eventType = "driver_note_updated") && above revision (e.payload.get "revision")

/-- The filters of one group, joined the way `filter_mode` says. -/
def joined (mode : FilterMode) (filters : List Bool) : Bool :=
  match mode with
  | .any => filters.any id
  | .all => filters.all id

/-- The clauses of `scan` after the project and the bounds. -/
def matchesEvent (db : DB) (projectId : String) (f : Filters) (e : Event) : Bool :=
  let filters := (f.nodeKeys.map (fun keys => matchesNodes db projectId keys e)).toList ++
    (f.attemptIds.map (fun ids => textIn ids (e.payload.get "attempt_id"))).toList ++
    (f.noteAfterRevision.map (fun n => matchesNote n e)).toList
  (filters.isEmpty || decide (e.eventType = "director_message_received") || joined f.filterMode filters) &&
  (f.includeLeaseEvents || decide (e.eventType ∉ leaseEvents)) &&
  (!f.actionableOnly || (decide (e.eventType ∉ quiet) &&
    (decide (e.eventType ∉ ["attempt_observed", "external_attempt_observed"]) ||
      !textIn ["running", "reserved", "launching"] (e.payload.get "status"))))

/-- The project's events that the filters select. -/
def selected (db : DB) (projectId : String) (f : Filters) : List (Event × Nat) :=
  (sequenced db.events).filter (fun row => decide (row.1.projectId = projectId) && matchesEvent db projectId f row.1)

/-- `scan`: one bounded page of the events after a cursor, and the cursor to
resume from. `events[-1]` of an empty page is an `IndexError`, which no limit that
`WaitForStateChange` accepts leads to. -/
def scan (db : DB) (projectId : String) (after : Nat) (f : Filters) (limit : Nat) :
    Result (List (Event × Nat) × Nat) := do
  let _ ← projectOf db projectId
  let high := highWater db projectId
  let rows := (span Prod.snd after high (selected db projectId f)).take (limit + 1)
  let events := rows.take limit
  let cursor ← orElse (pageCursor Prod.snd limit after high rows) (.graph "list index out of range")
  return (events, cursor)

section Scope
variable (db : DB) (projectId : String)

/-- The node and attempt filters of a wait, over the attempts. -/
def watched (f : Filters) (a : Attempt) : Bool :=
  let filters := (f.nodeKeys.map (fun keys => decide (a.nodeKey ∈ relevant db projectId keys))).toList ++
    (f.attemptIds.map (fun ids => decide (a.attemptId ∈ ids))).toList
  filters.isEmpty || joined f.filterMode filters

/-- A candidate of its node's present revision and contract that no later attempt
follows. -/
def currentCandidate (row : Attempt × Nat) : Bool :=
  db.nodes.any (fun n => decide (n.id = row.1.node ∧ n.revision = row.1.nodeRevision ∧
    n.contractHash = row.1.contractHash ∧ n.status ≠ .SUPERSEDED)) &&
  !(sequenced db.attempts).any (fun newer => decide (newer.1.node = row.1.node ∧ row.2 < newer.2))

/-- `_candidate_selection`; `attempt_ids` are the explicit watches. -/
def candidateSelection (attemptIds : List String) (row : Attempt × Nat) : Bool :=
  decide (row.1.status ≠ .candidate) || decide (row.1.attemptId ∈ attemptIds) || currentCandidate db row

/-- The attempts `wait_disposition` judges. -/
def judgedRows (f : Filters) : List (Attempt × Nat) :=
  (sequenced db.attempts).filter (fun row => decide (row.1.projectId = projectId) &&
    candidateSelection db (f.attemptIds.getD []) row && watched db projectId f row.1)

/-- The attempts a recovery page reconciles. -/
def eligible (f : Filters) (row : Attempt × Nat) : Bool :=
  decide (row.1.projectId = projectId) && row.1.runId.isSome && decide (row.1.executionKind = .skillflow) &&
  (decide (row.1.status ∈ [.running, .paused, .unknown]) ||
    (decide (row.1.status = .candidate) && row.1.artifactRef.isNone)) &&
  candidateSelection db [] row && watched db projectId f row.1

end Scope

inductive Reason
  | driverNoteChanged (noteRevision : Nat)
  | actionRequired (attempts : List String)
  | nothingToWait
  | observationUnavailable
  deriving DecidableEq

inductive Disposition
  | rescan
  | reason (r : Reason)
  | wait
  deriving DecidableEq

/-- The allowlist of terminal statuses; every other attempt is work. -/
def AttemptStatus.over (s : AttemptStatus) : Bool :=
  decide (s ∈ [.candidate, .failed, .superseded, .abandoned])

/-- `wait_disposition`, over one snapshot and the notebook's revision in it. -/
def waitDisposition (db : DB) (projectId : String) (cursor : Nat) (f : Filters) (noteRevision : Nat)
    (current : Stamp) : Disposition :=
  let rows := judgedRows db projectId f
  let paused := rows.filter (fun row => decide (row.1.status = .paused))
  let unpinned := rows.filter (fun row => decide (row.1.status = .candidate) && row.1.artifactRef.isNone)
  let waiting := rows.filter (fun row => !row.1.status.over)
  let ids := fun (rows : List (Attempt × Nat)) => rows.map (fun row => row.1.attemptId)
  if cursor < highWater db projectId then .rescan
  else if f.noteAfterRevision.any (fun n => decide (n < noteRevision)) then .reason (.driverNoteChanged noteRevision)
  else if paused ≠ [] then .reason (.actionRequired (ids paused))
  else if unpinned ≠ [] then .reason (.actionRequired (ids unpinned))
  else if waiting ≠ [] ∧ f.includeLeaseEvents = true ∧
      waiting.all (fun row => decide (leaseState row.1.leaseExpiresAt current = .reclaimable)) = true then
    .reason (.actionRequired (ids waiting))
  else if waiting ≠ [] then .wait
  else if f.noteAfterRevision.isSome then .wait
  else .reason .nothingToWait

/-- The commits of a State database, one snapshot each. Whatever else they write,
the triggers `state_events_no_update` and `state_events_no_delete` leave the event
log append-only. -/
structure Commits where
  snapshot : Nat → DB
  appends : ∀ t, (snapshot t).events <+: (snapshot (t + 1)).events

/-- The page sizes `WaitForStateChange` accepts. -/
abbrev Limit := { n : Nat // 1 ≤ n ∧ n ≤ 500 }

/-- A wait as the loop uses it: `recovering` says that a timeout above zero and an
engine let it reconcile. -/
structure WaitRequest where
  projectId : String
  after : Nat
  filters : Filters
  limit : Limit
  returnWhenIdle : Bool
  recovering : Bool

/-- One page of the recovery sweep: the commit it was read at, the `seq` it was
read from, and the attempts it reconciled. -/
structure PageRead where
  moment : Nat
  start : Nat
  visited : List (Attempt × Nat)
  ok : Bool

/-- How a turn's recovery went: no time was left, another observer was at it, the
deadline passed while it ran, or a page was read `pause` commits later and
reconciling the attempts in `failed` raised. -/
inductive Recovery
  | late
  | busy
  | overran
  | page (pause : Nat) (failed : List String)

/-- What one turn of the loop meets: the commits that pass before each of its
reads (its own lease sweep among them), whether the driver's inbox has messages,
and what the clock and the signal say where the loop asks. -/
structure Turn where
  pause : Nat
  mail : Bool
  recovery : Recovery
  rescanPause : Nat
  signalled : Bool
  sweepLate : Bool
  judgePause : Nat
  noteRevision : Nat
  current : Stamp
  late : Bool

/-- The loop's own variables, with the commit it last read at and the recovery
pages it went through. -/
structure Waiting where
  now : Nat
  cursor : Nat
  recoveryAfter : Nat
  pages : List PageRead

structure Answer where
  events : List (Event × Nat)
  nextAfter : Nat
  timedOut : Bool
  reason : Option Reason

/-- The number of attempts in a recovery page. -/
def pageSize : Nat := 10

/-- `_recover_page`: the page, where the next one starts (0 ends the sweep), and
whether every attempt was reconciled. -/
def recoverPage (db : DB) (projectId : String) (start : Nat) (f : Filters) (failed : List String) :
    Result (List (Attempt × Nat) × Nat × Bool) := do
  let _ ← projectOf db projectId
  let rows := (((sequenced db.attempts).filter (eligible db projectId f)).filter
    (fun row => decide (start < row.2))).take pageSize
  let recovered := rows.all (fun row => decide (row.1.attemptId ∉ failed))
  return (rows, if rows.length = pageSize then ((rows.getLast?).map Prod.snd).getD 0 else 0, recovered)

section Loop
variable (c : Commits) (r : WaitRequest)

/-- The recovery of a turn that has one: `none` is the `TimeoutError`, else
`recovery_ok`. -/
def recover (w : Waiting) : Recovery → Result (Option (Waiting × Option Bool))
  | .late | .busy => return some (w, none)
  | .overran => return none
  | .page pause failed => do
    let now := w.now + pause
    let (rows, next, ok) ← recoverPage (c.snapshot now) r.projectId w.recoveryAfter r.filters failed
    return some ({ w with now := now, recoveryAfter := next, pages := w.pages ++ [⟨now, w.recoveryAfter, rows, ok⟩] },
      some ok)

/-- `recovery_ok` is true where there is nothing to recover with. -/
def recoverIfAble (w : Waiting) (recovery : Recovery) : Result (Option (Waiting × Option Bool)) :=
  if r.recovering = true then recover c r w recovery else return some (w, some true)

/-- The end of a turn: sleep, or answer that the time is over. -/
def rest (w : Waiting) (late : Bool) : Waiting × Option Answer :=
  (w, if late then some ⟨[], w.cursor, true, none⟩ else none)

/-- The scan of a turn, `pause` commits after the last read. -/
def look (w : Waiting) (pause : Nat) : Result (List (Event × Nat) × Waiting) := do
  let (events, cursor) ← scan (c.snapshot (w.now + pause)) r.projectId w.cursor r.filters r.limit
  return (events, { w with now := w.now + pause, cursor := cursor })

/-- The idle decision of a turn. -/
def judge (w : Waiting) (t : Turn) : Waiting × Option Answer :=
  let w := { w with now := w.now + t.judgePause }
  match waitDisposition (c.snapshot w.now) r.projectId w.cursor r.filters t.noteRevision t.current with
  | .rescan => (w, none)
  | .reason reason => (w, some ⟨[], w.cursor, false, some reason⟩)
  | .wait => rest w t.late

/-- What follows a turn's recovery. -/
def settle (w : Waiting) (recoveryOk : Option Bool) (t : Turn) : Result (Waiting × Option Answer) :=
  if r.returnWhenIdle = true ∧ recoveryOk = some false then do
    let (events, w) ← look c r w t.rescanPause
    return (w, some (if events ≠ [] then ⟨events, w.cursor, false, none⟩
      else ⟨[], w.cursor, false, some .observationUnavailable⟩))
  else if t.signalled then return (w, none)
  else if w.recoveryAfter ≠ 0 ∧ recoveryOk ≠ none then return rest w t.sweepLate
  else if r.returnWhenIdle = true ∧ recoveryOk ≠ none then return judge c r w t
  else return rest w t.late

/-- One turn of the loop of `_wait_for_state_change`. -/
def turn (w : Waiting) (t : Turn) : Result (Waiting × Option Answer) := do
  let (events, w) ← look c r w t.pause
  if events ≠ [] ∨ t.mail = true then
    return (w, some ⟨events, w.cursor, false, none⟩)
  else
    match ← recoverIfAble c r w t.recovery with
    | none => return (w, some ⟨[], w.cursor, true, none⟩)
    | some (w, ok) => settle c r w ok t

/-- The loop, for as many turns as it is watched; `none` is a wait that is still
running, or that was cancelled there. -/
def wait (w : Waiting) : List Turn → Result (Option (Waiting × Answer))
  | [] => return none
  | t :: more => do
    match ← turn c r w t with
    | (w, some a) => return some (w, a)
    | (w, none) => wait w more

end Loop

/-- A driver that follows a project: the commit of its last read, its cursor and
the events it was given. -/
structure Follower where
  now : Nat
  cursor : Nat
  got : List (Event × Nat)

inductive Poll
  | scan (pause : Nat) (limit : Limit)
  | wait (limit : Limit) (returnWhenIdle recovering : Bool) (turns : List Turn)

def Poll.limit : Poll → Limit
  | .scan _ limit | .wait limit _ _ _ => limit

/-- What a poll from the follower's cursor answers: the events, the next cursor and
the commit it was read at. A poll that raises or is cancelled answers nothing. -/
def Poll.answer (c : Commits) (projectId : String) (f : Filters) (o : Follower) :
    Poll → Option (List (Event × Nat) × Nat × Nat)
  | .scan pause limit =>
    match State.scan (c.snapshot (o.now + pause)) projectId o.cursor f limit with
    | .ok (events, cursor) => some (events, cursor, o.now + pause)
    | .error _ => none
  | .wait limit idle recovering turns =>
    match State.wait c ⟨projectId, o.cursor, f, limit, idle, recovering⟩ ⟨o.now, o.cursor, 0, []⟩ turns with
    | .ok (some (w, a)) => some (a.events, a.nextAfter, w.now)
    | _ => none

def follow (c : Commits) (projectId : String) (f : Filters) (o : Follower) (p : Poll) : Follower :=
  match p.answer c projectId f o with
  | some (events, cursor, now) => ⟨now, cursor, o.got ++ events⟩
  | none => o

end AItelier.State
