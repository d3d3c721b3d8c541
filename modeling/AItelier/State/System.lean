import AItelier.State.Handoffs
import AItelier.State.Design
import AItelier.Lib.Run

namespace AItelier.State

open AItelier.Lib

/-- What a committed call answers. -/
inductive Reply
  | done
  | project (row : Project)
  | keys (created : List String)
  | change (c : NodeChange)
  | reserved (r : Reserved)
  | attempt (row : Attempt)
  | launched (first : Bool)
  | reconciled (row : Attempt) (staleInputs : Bool)
  | evidence (row : Evidence)
  | receipt (row : Acceptance)
  | observed (row : Attempt) (observation : Observation)
  | claim (row : Option Claim)
  | beaten (items : List Beaten)
  | handoff (row : Handoff)
  | design (row : DesignRevision)
  | baseline (row : DesignBaseline)
  | pending

/-- Requests that are one write transaction. A structural write made through the
service carries its caller and is owner-checked; the store's own is not. -/
inductive Request
  | createProject (projectId title : String) (sourceProjectId : Option String)
  | addNodes (projectId : String) (specs : List NodeSpec)
  | reviseNode (caller : Option Caller) (projectId nodeKey : String) (expectedRevision : Int) (reason : String)
      (goal : Option String) (acceptance : Option (List CheckSpec)) (deps : Option (List String))
  | splitNode (caller : Option Caller) (projectId nodeKey : String) (expectedRevision : Int)
      (children : List NodeSpec) (reason : String)
  | supersedeNode (caller : Option Caller) (projectId nodeKey : String) (expectedRevision : Int) (reason : String)
  | setNodeFacet (caller : Option Caller) (projectId nodeKey facet : String)
  | setNodePriority (projectId nodeKey : String) (priority expectedPriority : Int) (reason : String)
      (actor directorIdentity : Option String)
  | importTasks (projectId sourceProjectId : String) (tasks : List LegacyTask)
  | createRevision (projectId actor createdAt : String) (spec : DesignSpec)
  | createBaseline (projectId actor baselineId : String) (selected : List (String × Int))
      (expectedBaselineId : Option String)
  | bindNode (projectId actor nodeKey : String) (expectedRevision : Int) (baselineId : String)
      (bindings : List BindingSpec) (reason : String)
  | setDispatch (caller : Caller) (projectId : String) (dispatch : Dispatch) (expectedRevision : Int)
      (reason : String)
  | setClaimEnforcement (caller : Caller) (projectId : String) (switch : Switch) (expectedRevision : Int)
      (reason : String)
  | setReviewIndependence (caller : Caller) (projectId : String) (mode : Independence) (expectedRevision : Int)
      (reason : String)
  | setHold (caller : Caller) (projectId nodeKey : String) (held : Bool) (expectedRevision : Int) (reason : String)
  | bindSource (caller : Caller) (projectId repoPath commonDir : String) (expectedRevision : Int)
  | reserve (caller : Caller) (workflow : String) (request : ReserveRequest)
  | register (caller : Caller) (harness externalId : String) (request : ReserveRequest)
  | registerCheck (caller : Caller) (harness externalId : String) (request : ReserveRequest)
  | recordPreflight (attemptId : String) (report : Json) (error : Option String)
  | pinRelay (attemptId : String) (relay : Json)
  | pinPriorCandidate (attemptId : String) (prior : PriorRow) (value : Json)
  | reconcilePriorCandidate (attemptId : String) (expected value : Json)
  | pinHostContract (attemptId : String) (descriptor : HostContract)
  | claimLaunch (caller : Caller) (attemptId : String) (claimId : Option String) (fence : Option Int) (now : Stamp)
  | retireReservation (attemptId reason : String)
  | launchUncertain (attemptId reason : String)
  | recordEvidence (request : EvidenceRequest)
  | verify (projectId nodeKey : String) (expectedRevision : Int) (attemptId reviewer : String)
      (requireReportBytes : Bool) (uid : String)
  | abandon (caller : Caller) (request : AbandonRequest) (kept : Except StateError (String × List UInt8))
      (now : Stamp)
  | takeOverAttempt (caller : Caller) (attemptId : String) (expectedOwnerFence : Int) (reason : String)
      (overrideReason : Option String) (now : Stamp) (ids : Nat → String)
  | claimNode (caller : Caller) (request : ClaimRequest) (claimId : String) (now : Stamp)
  | releaseClaim (caller : Caller) (projectId claimId : String) (fence : Int) (reason : String)
  | heartbeat (caller : Caller) (projectId : String) (claims attempts : List (String × Int))
      (subagents : List String) (now : Stamp)
  | sweep (actor projectId : String) (now : Stamp)
  | takeOverClaim (caller : Caller) (request : ClaimTakeover) (uid : String) (now : Stamp)
  | offerHandoff (caller : Caller) (offer : Offer) (retained : ReportRef → Result Unit) (uid : String) (now : Stamp)
  | acceptHandoff (caller : Caller) (projectId handoffId : String) (expectedOwnerFence : Int) (now : Stamp)
      (ids : Nat → String)
  | declineHandoff (caller : Caller) (projectId handoffId reason : String) (now : Stamp)
  | withdrawHandoff (caller : Caller) (projectId handoffId reason : String) (now : Stamp)
  | declarePresence (driverId : Option String) (offline : Bool) (reason : String) (expectedReturn : Option Stamp)
      (now : Stamp)
  | waitBegin (driverId waitId : String) (timeoutSeconds : Nat) (now : Stamp)
  | waitEnd (waitId : String) (now : Stamp)
  | registry (drivers : List Driver) (projectDrivers : List ProjectDriver)

/-- The halves of calls that read first and commit later. -/
inductive Call
  | bindRun (call : BindCall)
  | reconcile (call : ReconcileCall)
  | observe (call : ObserveCall)
  | register (caller : Caller) (harness externalId : String) (request : ReserveRequest) (source : Source)

inductive Read
  | bindRun (attemptId runId : String) (engine : EngineAnswer)
  | reconcile (attemptId : String) (engine : EngineAnswer) (candidateArtifact actor : Option String)
  | observe (caller : Caller) (request : ObserveRequest) (kept : Retention)

/-- A transaction's answer and database, with the answer as a `Reply`. -/
def answer {α : Type} (x : Result (α × DB)) (reply : α → Reply) : Result (Reply × DB) := do
  let (a, db) ← x
  return (reply a, db)

def done (x : Result DB) : Result (Reply × DB) := do
  let db ← x
  return (.done, db)

/-- A structural write, owner-checked where it came through the service. -/
def structuralBy (caller : Option Caller) (db : DB) (projectId nodeKey action : String)
    (write : DB → Result (NodeChange × DB)) : Result (Reply × DB) :=
  answer (match caller with
    | some c => structural db c projectId nodeKey action write
    | none => write db) .change

def Request.run (host : Host) (db : DB) : Request → Result (Reply × DB)
  | .createProject projectId title source => answer (State.createProject db projectId title source) .project
  | .addNodes projectId specs => answer (add host db projectId specs) .keys
  | .reviseNode caller projectId nodeKey revision reason goal acceptance deps =>
    structuralBy caller db projectId nodeKey "revise_node"
      (fun db => revise host db projectId nodeKey revision reason goal acceptance deps)
  | .splitNode caller projectId nodeKey revision children reason =>
    structuralBy caller db projectId nodeKey "split_node"
      (fun db => split host db projectId nodeKey revision children reason)
  | .supersedeNode caller projectId nodeKey revision reason =>
    structuralBy caller db projectId nodeKey "supersede_node"
      (fun db => supersede db projectId nodeKey revision reason)
  | .setNodeFacet caller projectId nodeKey facet =>
    structuralBy caller db projectId nodeKey "set_node_facet" (fun db => setFacet db projectId nodeKey facet)
  | .setNodePriority projectId nodeKey priority expected reason actor identity =>
    answer (State.setNodePriority db projectId nodeKey priority expected reason actor identity) .change
  | .importTasks projectId source tasks => answer (State.importTasks host db projectId source tasks) .keys
  | .createRevision projectId actor createdAt spec =>
    answer (State.createRevision db projectId host actor createdAt spec) .design
  | .createBaseline projectId actor baselineId selected expected =>
    answer (State.createBaseline db projectId host actor baselineId selected expected) .baseline
  | .bindNode projectId actor nodeKey revision baselineId bindings reason =>
    answer (State.bindNode db projectId host actor nodeKey revision baselineId bindings reason) .change
  | .setDispatch caller projectId dispatch revision reason =>
    done (State.setDispatch db caller projectId dispatch revision reason)
  | .setClaimEnforcement caller projectId switch revision reason =>
    done (State.setClaimEnforcement db caller projectId switch revision reason)
  | .setReviewIndependence caller projectId mode revision reason =>
    done (State.setReviewIndependence db caller projectId mode revision reason)
  | .setHold caller projectId nodeKey held revision reason =>
    done (State.setHold db caller projectId nodeKey held revision reason)
  | .bindSource caller projectId repoPath commonDir revision =>
    done (State.bindSource db caller projectId repoPath commonDir revision)
  | .reserve caller workflow request => answer (State.reserve host db caller workflow request) .reserved
  | .register caller harness externalId request =>
    answer (State.register host db caller harness externalId request .none) .reserved
  | .registerCheck caller harness externalId request =>
    answer (State.register host db caller harness externalId request .check) .reserved
  | .recordPreflight attemptId report error => answer (State.recordPreflight db attemptId report error) .attempt
  | .pinRelay attemptId relay => answer (State.pinRelay db attemptId relay) .attempt
  | .pinPriorCandidate attemptId prior value => answer (State.pinPriorCandidate db attemptId prior value) .attempt
  | .reconcilePriorCandidate attemptId expected value =>
    answer (State.reconcilePriorCandidate db attemptId expected value) .attempt
  | .pinHostContract attemptId descriptor => answer (State.pinHostContract db attemptId descriptor) .attempt
  | .claimLaunch caller attemptId claimId fence now =>
    answer (State.claimLaunch host db caller attemptId claimId fence now) .launched
  | .retireReservation attemptId reason => answer (State.retireReservation db attemptId reason) .attempt
  | .launchUncertain attemptId reason => answer (State.launchUncertain db attemptId reason) .attempt
  | .recordEvidence request => answer (State.recordEvidence host db request) .evidence
  | .verify projectId nodeKey revision attemptId reviewer bytes uid =>
    answer (State.verify host db projectId nodeKey revision attemptId reviewer bytes uid) .receipt
  | .abandon caller request kept now => answer (abandonExternalAttempt host db caller request kept now) .attempt
  | .takeOverAttempt caller attemptId fence reason overrideReason now ids =>
    answer ((State.takeOverAttempt host db caller attemptId fence reason overrideReason now ids).map
      (fun r => (r.1, r.2.2))) .attempt
  | .claimNode caller request claimId now =>
    answer (State.claimNode host db caller request claimId now) (fun c => .claim (some c))
  | .releaseClaim caller projectId claimId fence reason =>
    answer (State.releaseClaim db caller projectId claimId fence reason) (fun c => .claim (some c))
  | .heartbeat caller projectId claims attempts subagents now =>
    answer (State.heartbeat db caller projectId claims attempts subagents now) .beaten
  | .sweep actor projectId now => .ok (.done, State.sweep db actor projectId now none)
  | .takeOverClaim caller request uid now =>
    answer (State.takeOverClaim host db caller request uid now) (fun c => .claim (some c))
  | .offerHandoff caller offer retained uid now =>
    answer (State.offerHandoff host db caller offer retained uid now) .handoff
  | .acceptHandoff caller projectId handoffId fence now ids =>
    answer (State.acceptHandoff host db caller projectId handoffId fence now ids) .claim
  | .declineHandoff caller projectId handoffId reason now =>
    done (State.declineHandoff db caller projectId handoffId reason now)
  | .withdrawHandoff caller projectId handoffId reason now =>
    done (State.withdrawHandoff db caller projectId handoffId reason now)
  | .declarePresence driverId offline reason expectedReturn now =>
    done (declare db driverId offline reason expectedReturn now)
  | .waitBegin driverId waitId timeout now => done (State.waitBegin host db driverId waitId timeout now)
  | .waitEnd waitId now => .ok (.done, State.waitEnd db waitId now)
  | .registry drivers projectDrivers =>
    .ok (.done, { db with drivers := drivers, projectDrivers := projectDrivers })

/-- The committing transaction of a call whose read half has passed. -/
def Call.run (host : Host) (db : DB) (now : Stamp) : Call → Result (Reply × DB)
  | .bindRun call => answer (bindRunWrite db call) .attempt
  | .reconcile call => answer ((reconcileWrite db call).map (fun r => ((r.1, r.2.1), r.2.2)))
      (fun r => .reconciled r.1 r.2)
  | .observe call => answer ((observeWrite host db call now).map (fun r => ((r.1, r.2.1), r.2.2)))
      (fun r => .observed r.1 r.2)
  | .register caller harness externalId request source =>
    answer (State.register host db caller harness externalId request (.entering source)) .reserved

/-- The read half of a call: an immediate answer, or the call to commit later. -/
def Read.run (host : Host) (db : DB) : Read → Result (Reply ⊕ Call)
  | .bindRun attemptId runId engine => do
    let call ← bindRunRead db attemptId runId engine
    return .inr (.bindRun call)
  | .reconcile attemptId engine candidateArtifact actor => do
    let call ← reconcileRead db attemptId engine candidateArtifact actor
    return .inr (.reconcile call)
  | .observe caller request kept => do
    match ← observeRead host db caller request kept with
    | .replayed row observation => return .inl (.observed row observation)
    | .pending call => return .inr (.observe call)

/-- The store with the calls that have read and not yet committed. -/
structure Sys where
  db : DB
  calls : List Call

def Sys.init : Sys := ⟨DB.empty, []⟩

/-- A step of the system: a one-transaction request, the read half of a call, or
the commit of a pending call. SQLite serialises the transactions; any number of
steps may stand between a call's two halves. -/
inductive Op
  | request (r : Request)
  | read (r : Read)
  | commit (index : Nat) (now : Stamp)

abbrev Outcome := Result Reply

/-- The call a checked registration leaves behind. -/
def Request.followUp (reply : Reply) : Request → List Call
  | .registerCheck caller harness externalId request =>
    match reply with
    | .reserved (.source source) => [.register caller harness externalId request source]
    | _ => []
  | _ => []

def stepRequest (host : Host) (s : Sys) (r : Request) : Sys × Outcome :=
  match r.run host s.db with
  | .ok (reply, db) => (⟨db, s.calls ++ r.followUp reply⟩, .ok reply)
  | .error e => (s, .error e)

def stepRead (host : Host) (s : Sys) (r : Read) : Sys × Outcome :=
  match r.run host s.db with
  | .ok (.inl reply) => (s, .ok reply)
  | .ok (.inr call) => ({ s with calls := s.calls ++ [call] }, .ok .pending)
  | .error e => (s, .error e)

def stepCommit (host : Host) (s : Sys) (index : Nat) (now : Stamp) : Sys × Outcome :=
  match s.calls[index]? with
  | none => (s, .error (.notFound "no such call"))
  | some call =>
    match call.run host s.db now with
    | .ok (reply, db) => (⟨db, s.calls.eraseIdx index⟩, .ok reply)
    | .error e => ({ s with calls := s.calls.eraseIdx index }, .error e)

def stepOp (host : Host) (s : Sys) : Op → Sys × Outcome
  | .request r => stepRequest host s r
  | .read r => stepRead host s r
  | .commit index now => stepCommit host s index now

/-- One step of the system, without its answer. -/
def next (host : Host) (s : Sys) (op : Op) : Sys := (stepOp host s op).1

/-- A committed transaction, whichever way it came about. -/
inductive Txn
  | request (r : Request)
  | commit (call : Call) (now : Stamp)

def Txn.run (host : Host) (db : DB) : Txn → Result (Reply × DB)
  | .request r => r.run host db
  | .commit call now => call.run host db now

/-- Every step leaves the database as it is, runs the request it is, or commits a
pending call. -/
theorem next_cases (host : Host) (s : Sys) (op : Op) :
    (next host s op).db = s.db ∨
    (∃ r reply, op = .request r ∧ r.run host s.db = .ok (reply, (next host s op).db)) ∨
    ∃ call now reply, call ∈ s.calls ∧ call.run host s.db now = .ok (reply, (next host s op).db) := by
  cases op with
  | request r =>
    cases h : r.run host s.db with
    | error e => left; simp [next, stepOp, stepRequest, h]
    | ok out => right; left; exact ⟨r, out.1, rfl, by simp [next, stepOp, stepRequest, h]⟩
  | read r =>
    left
    simp only [next, stepOp, stepRead]
    split <;> rfl
  | commit index now =>
    cases hc : s.calls[index]? with
    | none => left; simp [next, stepOp, stepCommit, hc]
    | some call =>
      cases h : call.run host s.db now with
      | error e => left; simp [next, stepOp, stepCommit, hc, h]
      | ok out =>
        right; right
        exact ⟨call, now, out.1, List.mem_of_getElem? hc, by simp [next, stepOp, stepCommit, hc, h]⟩

theorem next_db (host : Host) (s : Sys) (op : Op) :
    (next host s op).db = s.db ∨ ∃ t reply, Txn.run host s.db t = .ok (reply, (next host s op).db) := by
  rcases next_cases host s op with he | ⟨r, reply, _, h⟩ | ⟨call, now, reply, _, h⟩
  · exact .inl he
  · exact .inr ⟨.request r, reply, h⟩
  · exact .inr ⟨.commit call now, reply, h⟩

end AItelier.State
