import AItelier.Proofs.Fencing

namespace AItelier.State

open AItelier.Lib AItelier.Ledger

variable {db db' : DB} {host : Host} {driver owner : String} {a : Attempt} {s : Sys} {op : Op} {fence : Option Int}
  {r : ObserveRequest} {call : ObserveCall} {now : Stamp}

section Late

/-- What a report on the abandoned attempt `a` may do: one late row, one step of the
version, retained bytes, a settled owner row where it attests quiescence, and
the reporter's presence and events. No other table moves. -/
structure Late (db db' : DB) (a : Attempt) (quiescent : Bool) : Prop where
  frame : db' = { db with
    attempts := db'.attempts, observations := db'.observations, owners := db'.owners, blobs := db'.blobs,
    gitArtifacts := db'.gitArtifacts, events := db'.events, declarations := db'.declarations,
    drivers := db'.drivers }
  version : ∃ v, (v = a.observationVersion ∨ v = a.observationVersion + 1) ∧
    db'.attempt? a.attemptId = some { a with observationVersion := v }
  others : ∀ j, j ≠ a.attemptId → db'.attempt? j = db.attempt? j
  appended : db'.observations = db.observations ∨ ∃ row, db'.observations = db.observations ++ [row] ∧
    row.attemptId = a.attemptId ∧ row.lateAfterAbandon = true ∧ row.resultingStatus = .superseded
  settled : db'.owners = db.owners ∨ quiescent = true ∧ ∃ now, db'.owners =
    modifyWhere (fun o => decide (o.attemptId = a.attemptId ∧ o.status = .abandoned))
      (fun o => { o with status := .settled, settledAt := some now }) db.owners
  blobs : db.blobs <+: db'.blobs
  artifacts : db.gitArtifacts <+: db'.gitArtifacts

theorem Late.refl (ha : db.attempt? a.attemptId = some a) (quiescent : Bool) : Late db db a quiescent where
  frame := rfl
  version := ⟨a.observationVersion, .inl rfl, ha⟩
  others := fun _ _ => rfl
  appended := .inl rfl
  settled := .inl rfl
  blobs := List.prefix_rfl
  artifacts := List.prefix_rfl

theorem markBack_frame (db : DB) (driverId : Option String) (now : Stamp) :
    ∃ declarations drivers, markBack db driverId now =
      { db with declarations := declarations, drivers := drivers } := by
  cases driverId with
  | none => exact ⟨db.declarations, db.drivers, rfl⟩
  | some d =>
    unfold markBack
    dsimp only
    split_ifs
    · exact ⟨db.declarations, db.drivers, rfl⟩
    · exact ⟨_, _, rfl⟩

theorem storeReport_ok (h : storeReport db call = .ok db') :
    ∃ blobs, db.blobs <+: blobs ∧ db' = { db with blobs := blobs } := by
  unfold storeReport at h
  split at h
  · unfold storeReportBlob at h
    split at h
    · simp only [bind_ok, pure_ok] at h
      obtain ⟨_, _, rfl⟩ := h
      exact ⟨db.blobs, List.prefix_rfl, rfl⟩
    · rw [pure_ok] at h
      exact ⟨_, List.prefix_append _ _, h.symm⟩
  · rw [pure_ok] at h
    subst h
    exact ⟨db.blobs, List.prefix_rfl, rfl⟩

theorem storeCandidate_ok {artifact : Option GitArtifact} (h : storeCandidate db artifact = .ok db') :
    ∃ artifacts, db.gitArtifacts <+: artifacts ∧ db' = { db with gitArtifacts := artifacts } := by
  unfold storeCandidate at h
  split at h
  · rw [pure_ok] at h
    subst h
    exact ⟨db.gitArtifacts, List.prefix_rfl, rfl⟩
  · split at h
    · simp only [bind_ok, pure_ok] at h
      obtain ⟨_, _, rfl⟩ := h
      exact ⟨db.gitArtifacts, List.prefix_rfl, rfl⟩
    · rw [pure_ok] at h
      exact ⟨_, List.prefix_append _ _, h.symm⟩

theorem appendObservation_ok {row : Observation} (h : appendObservation db call row = .ok db') :
    ∃ blobs artifacts, db.blobs <+: blobs ∧ db.gitArtifacts <+: artifacts ∧
      db' = { db with blobs := blobs, gitArtifacts := artifacts, observations := db.observations ++ [row] } := by
  simp only [appendObservation, bind_ok, pure_ok] at h
  obtain ⟨db₁, h₁, db₂, h₂, _, _, rfl⟩ := h
  obtain ⟨blobs, hb, rfl⟩ := storeReport_ok h₁
  obtain ⟨artifacts, hg, rfl⟩ := storeCandidate_ok h₂
  exact ⟨blobs, artifacts, hb, hg, rfl⟩

theorem settleAbandoned_ok (db : DB) (r : ObserveRequest) (a : Attempt) (now : Stamp) :
    settleAbandoned db r a now = db ∨ r.quiescent = true ∧ settleAbandoned db r a now = { db with
      owners := modifyWhere (fun o => decide (o.attemptId = a.attemptId ∧ o.status = .abandoned))
        (fun o => { o with status := .settled, settledAt := some now }) db.owners } := by
  unfold settleAbandoned
  split_ifs with h
  · rw [settlesOwner, Bool.and_eq_true] at h
    exact .inr ⟨h.1, rfl⟩
  · exact .inl rfl

def atVersion (v : Nat) (x : Attempt) : Attempt := { x with observationVersion := v }

/-- A late row changes nothing else, whatever it reports. -/
theorem writeLate_late {row : Observation} {current : Bool} (ha : db.attempt? a.attemptId = some a)
    (happ : appendObservation (markBack db call.caller.driverId now) call row = .ok db')
    (hrow : row = observationRow host call a .superseded true) :
    Late db (writeLate db' call a row current now) a call.request.quiescent := by
  obtain ⟨declarations, drivers, hback⟩ := markBack_frame db call.caller.driverId now
  rw [hback] at happ
  obtain ⟨blobs, artifacts, hblobs, hgit, rfl⟩ := appendObservation_ok happ
  subst hrow
  have hrows : ∀ j, (db.setAttempt a.attemptId (atVersion (a.observationVersion + 1))).attempt? j =
      if j = a.attemptId then (db.attempt? j).map (atVersion (a.observationVersion + 1)) else db.attempt? j :=
    setAttempt_attempt? (atVersion (a.observationVersion + 1)) (fun _ => rfl)
  have hown := hrows a.attemptId
  rw [if_pos rfl, ha] at hown
  have hothers : ∀ j, j ≠ a.attemptId →
      (db.setAttempt a.attemptId (atVersion (a.observationVersion + 1))).attempt? j = db.attempt? j :=
    fun j hj => (hrows j).trans (if_neg hj)
  unfold writeLate
  dsimp only
  rcases settleAbandoned_ok _ call.request a now with hs | ⟨hq, hs⟩
  · rw [hs]
    exact ⟨rfl, ⟨_, .inr rfl, hown⟩, hothers, .inr ⟨_, rfl, rfl, rfl, rfl⟩, .inl rfl, hblobs, hgit⟩
  · rw [hs]
    exact ⟨rfl, ⟨_, .inr rfl, hown⟩, hothers, .inr ⟨_, rfl, rfl, rfl, rfl⟩, .inr ⟨hq, now, rfl⟩, hblobs, hgit⟩

end Late

section Stale

/-- On an owned attempt that still counts, only its owner reports, and with no
fence but the current one. -/
theorem authorizeReport_current {caller : Caller} {late : Bool} (howner : a.ownerDriverId = some owner)
    (hdriver : caller.driverId = some driver) (hactive : a.status ≠ .abandoned)
    (h : authorizeReport db caller a fence = .ok late) : owner = driver ∧ ∀ f ∈ fence, f = a.ownerFence := by
  simp only [authorizeReport, howner, hdriver, hactive, if_false] at h
  by_cases hne : owner = driver
  · subst hne
    rw [if_neg (fun h => h rfl)] at h
    refine ⟨rfl, fun f hf => ?_⟩
    obtain rfl : fence = some f := hf
    simp only [bind_ok, ensure_ok] at h
    obtain ⟨_, hfence, _⟩ := h
    exact hfence
  · rw [if_pos hne] at h
    split_ifs at h

theorem observeWrite_authorized {out : Attempt} {o : Observation}
    (h : observeWrite host db call now = .ok (out, o, db')) (ha : db.attempt? call.request.attemptId = some a) :
    ∃ late, authorizeReport (markBack db call.caller.driverId now) call.caller a call.request.fence = .ok late := by
  simp only [observeWrite, bind_ok] at h
  obtain ⟨a', hatt, _, _, late, hauth, _⟩ := h
  have hfound := attemptOf_ok hatt
  rw [core_attempt? (core_of_body (markBack_body db call.caller.driverId now)), ha] at hfound
  cases hfound
  exact ⟨late, hauth⟩

/-- `op` is a half of an `observe` call that `driver` makes with `r`. -/
def Observes (s : Sys) (op : Op) (driver : String) (r : ObserveRequest) : Prop :=
  match op with
  | .read (.observe caller request _) => caller.driverId = some driver ∧ request = r
  | .commit index _ => ∃ call, s.calls[index]? = some (.observe call) ∧ call.caller.driverId = some driver ∧
      call.request = r
  | _ => False

theorem next_read_db (host : Host) (s : Sys) (r : Read) : (next host s (.read r)).db = s.db := by
  simp only [next, stepOp, stepRead]
  split <;> rfl

theorem next_commit_db (host : Host) (now : Stamp) {index : Nat} {c : Call} (hc : s.calls[index]? = some c) :
    (next host s (.commit index now)).db = s.db ∨
      ∃ reply, c.run host s.db now = .ok (reply, (next host s (.commit index now)).db) := by
  cases hr : c.run host s.db now with
  | error e =>
    left
    simp only [next, stepOp, stepCommit, hc, hr]
  | ok out =>
    right
    exact ⟨out.1, by simp only [next, stepOp, stepCommit, hc, hr]⟩

/-- A commit of an outdated report leaves the database alone, or is late. -/
theorem observeWrite_outdated {out : Attempt} {o : Observation}
    (h : observeWrite host db call now = .ok (out, o, db')) (ha : db.attempt? call.request.attemptId = some a)
    (howner : a.ownerDriverId = some owner) (hdriver : call.caller.driverId = some driver)
    (hout : a.status = .abandoned ∨ owner ≠ driver ∨ ∃ f ∈ call.request.fence, f ≠ (a.ownerFence : Int)) :
    a.status = .abandoned ∧ Late db db' a call.request.quiescent := by
  obtain ⟨late, hauth⟩ := observeWrite_authorized h ha
  have hab : a.status = .abandoned := by
    by_contra hactive
    obtain ⟨heq, hfence⟩ := authorizeReport_current howner hdriver hactive hauth
    rcases hout with hab | hne | ⟨f, hf, hne⟩
    · exact hactive hab
    · exact hne heq
    · exact hne (hfence f hf)
  have hid : db.attempt? a.attemptId = some a := attempt_id ha ▸ ha
  have hsame : ∀ b n row l, Reported host (markBack db call.caller.driverId now) call b n l row → b = a ∧ l = true := by
    intro b n row l hrep
    have hfound := hrep.found
    rw [core_attempt? (core_of_body (markBack_body db call.caller.driverId now)), ha] at hfound
    cases hfound
    have hlate := authorizeReport_late hrep.authorized
    rw [hab] at hlate
    exact ⟨rfl, hlate⟩
  refine ⟨hab, ?_⟩
  cases observeWrite_result h with
  | replayed =>
    obtain ⟨declarations, drivers, hback⟩ := markBack_frame db call.caller.driverId now
    rw [hback]
    exact ⟨rfl, ⟨_, .inl rfl, hid⟩, fun _ _ => rfl, .inl rfl, .inl rfl, List.prefix_rfl, List.prefix_rfl⟩
  | late b n row db₁ reported appended =>
    obtain ⟨rfl, _⟩ := hsame b n row true reported
    exact writeLate_late hid appended reported.row
  | counted b n row db₁ reported appended =>
    obtain ⟨_, hfalse⟩ := hsame b n row false reported
    cases hfalse

/-- An outdated report changes nothing that counts. In every state the store can
be in, where the attempt is abandoned, owned by another driver, or owned under
another fence than the report names, neither half of an `observe` call moves the
attempt's status, artifact or terminal observation, or any node; unless the attempt is
abandoned, it moves nothing at all. -/
theorem outdated_report (host : Host) (ops : List Op) (op : Op) (driver owner : String) (r : ObserveRequest)
    (a : Attempt) (hop : Observes (after host ops) op driver r)
    (ha : (after host ops).db.attempt? r.attemptId = some a) (howner : a.ownerDriverId = some owner)
    (hout : a.status = .abandoned ∨ owner ≠ driver ∨ ∃ f ∈ r.fence, f ≠ (a.ownerFence : Int)) :
    (∃ a', (next host (after host ops) op).db.attempt? r.attemptId = some a' ∧ a'.status = a.status ∧
      a'.artifactRef = a.artifactRef ∧ a'.artifactKind = a.artifactKind ∧
      a'.terminalObservationId = a.terminalObservationId) ∧
    (next host (after host ops) op).db.nodes = (after host ops).db.nodes ∧
    (a.status ≠ .abandoned → (next host (after host ops) op).db = (after host ops).db) ∧
    (a.status = .abandoned → Late (after host ops).db (next host (after host ops) op).db a r.quiescent) := by
  have hid := attempt_id ha
  have hcases : (next host (after host ops) op).db = (after host ops).db ∨ a.status = .abandoned ∧
      Late (after host ops).db (next host (after host ops) op).db a r.quiescent := by
    cases op with
    | request x => exact hop.elim
    | read x => exact .inl (next_read_db host _ x)
    | commit index now =>
      obtain ⟨call, hcall, hdriver, rfl⟩ := hop
      rcases next_commit_db host now hcall with hsame | ⟨reply, hrun⟩
      · exact .inl hsame
      · obtain ⟨_, _, hx⟩ := observe_ok hrun
        exact .inr (observeWrite_outdated hx ha howner hdriver hout)
  rcases hcases with hsame | ⟨hab, hlate⟩
  · rw [hsame]
    exact ⟨⟨a, ha, rfl, rfl, rfl, rfl⟩, rfl, fun _ => rfl, fun _ => Late.refl (hid ▸ ha) _⟩
  · obtain ⟨v, _, hv⟩ := hlate.version
    rw [hid] at hv
    refine ⟨⟨_, hv, rfl, rfl, rfl, rfl⟩, ?_, fun h => absurd hab h, fun _ => hlate⟩
    rw [hlate.frame]

namespace Sample

def driven (d : String) : Caller := ⟨"driver:" ++ d, some d, false⟩

/-- Two drivers, both members of the project. -/
def team : Op :=
  .request (.registry [⟨"d1", .active, none⟩, ⟨"d2", .active, none⟩] [⟨"p", "d1", .member⟩, ⟨"p", "d2", .member⟩])

def registered (d nodeKey uid : String) : Op :=
  .request (.register (driven d) "harness" ("session-" ++ uid) (reserveRequest nodeKey uid))

def bytes : List UInt8 := [102, 97, 105, 108]

def kept : Retention := ⟨.ok ("reports/1", bytes), .error (.notFound "no such commit")⟩

/-- A quiescent failure report on an attempt that has none yet. -/
def failure (ops : List Op) (uid : String) : ObserveRequest where
  attemptId := "attempt-" ++ uid
  observationId := "observation-1"
  expectedVersion := 0
  contextHash := (((after machine ops).db.attempt? ("attempt-" ++ uid)).map
    (fun a => machine.digest a.context.toJson)).getD ""
  status := .failed
  reportRef := "reports/1"
  reportSha256 := digest bytes
  quiescent := true
  artifact := none
  artifactKind := none
  detail := "gave up"
  fence := none

def owned : List Op := project [spec "a" []] ++ [team, registered "d1" "a" "1"]

/-- The first half of the first owner's report. -/
def reading : Op := .read (.observe (driven "d1") (failure owned "1") kept)

/-- A takeover once the lease and its grace have passed. -/
def takenBy (d : String) (fence : Int) (now : Stamp) : Op :=
  .request (.takeOverAttempt (driven d) "attempt-1" fence "lease lapsed" none now (fun n => d ++ toString n))

def readThenMoved : List Op := owned ++ [reading, takenBy "d2" 1 9000000000]

def moved : List Op := owned ++ [takenBy "d2" 1 9000000000]

def regained : List Op := moved ++ [takenBy "d1" 2 18000000000, reading]

def asObserve : Call → Option ObserveCall
  | .observe call => some call
  | _ => none

/-- Who reports on what with the first pending call. -/
def pending (s : Sys) : Option (Option String × String) :=
  (s.calls[0]?.bind asObserve).map (fun c => (c.caller.driverId, c.request.attemptId))

theorem observes_of_pending {d i : String} (h : pending s = some (some d, i)) (now : Stamp) :
    ∃ r, Observes s (.commit 0 now) d r ∧ r.attemptId = i := by
  obtain ⟨call, hcall, hpair⟩ := Option.map_eq_some_iff.mp h
  obtain ⟨c, hc, hobs⟩ := Option.bind_eq_some_iff.mp hcall
  obtain ⟨hd, hi⟩ := Prod.mk.inj hpair
  cases c with
  | observe x =>
    cases hobs
    exact ⟨call.request, ⟨call, hc, hd, rfl⟩, hi⟩
  | _ => cases hobs

def ownerAndStatus (db : DB) (i : String) : Option (Option String × AttemptStatus) :=
  (db.attempt? i).map (fun a => (a.ownerDriverId, a.status))

end Sample

open Sample in
/-- The owner read, lost the attempt, and committed: nothing moved. -/
theorem outdated_report_moved : ∃ r, r.attemptId = "attempt-1" ∧
    Observes (after machine readThenMoved) (.commit 0 9000000001) "d1" r ∧
    (next machine (after machine readThenMoved) (.commit 0 9000000001)).db = (after machine readThenMoved).db := by
  have ⟨hpending, howner⟩ : pending (after machine readThenMoved) = some (some "d1", "attempt-1") ∧
      ownerAndStatus (after machine readThenMoved).db "attempt-1" = some (some "d2", .running) := by
    decide +kernel
  obtain ⟨r, hop, hi⟩ := observes_of_pending hpending 9000000001
  obtain ⟨a, ha, hpair⟩ := Option.map_eq_some_iff.mp howner
  obtain ⟨ho, hs⟩ := Prod.mk.inj hpair
  have hkeep := (outdated_report machine readThenMoved (.commit 0 9000000001) "d1" "d2" r a hop (hi ▸ ha) ho
    (.inr (.inl (by decide)))).2.2.1
  refine ⟨r, hi, hop, hkeep ?_⟩
  rw [hs]
  decide

open Sample in
/-- A driver that lost its attempt and then took it back reports again, and it counts. -/
theorem regained_report : moved <+: regained ∧
    ownerAndStatus (after machine owned).db "attempt-1" = some (some "d1", .running) ∧
    ownerAndStatus (after machine moved).db "attempt-1" = some (some "d2", .running) ∧
    ownerAndStatus (after machine regained).db "attempt-1" = some (some "d1", .running) ∧
    (∃ r, Observes (after machine regained) (.commit 0 18000000001) "d1" r ∧ r.attemptId = "attempt-1") ∧
    ownerAndStatus (next machine (after machine regained) (.commit 0 18000000001)).db "attempt-1" =
      some (some "d1", .failed) := by
  have ⟨h1, h2, h3, h4, h5⟩ : ownerAndStatus (after machine owned).db "attempt-1" = some (some "d1", .running) ∧
      ownerAndStatus (after machine moved).db "attempt-1" = some (some "d2", .running) ∧
      ownerAndStatus (after machine regained).db "attempt-1" = some (some "d1", .running) ∧
      pending (after machine regained) = some (some "d1", "attempt-1") ∧
      ownerAndStatus (next machine (after machine regained) (.commit 0 18000000001)).db "attempt-1" =
        some (some "d1", .failed) := by
    decide +kernel
  exact ⟨List.prefix_append _ _, h1, h2, h3, observes_of_pending h4 18000000001, h5⟩

end Stale

end AItelier.State
