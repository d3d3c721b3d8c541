import AItelier.Refine.Acceptance

namespace AItelier.State

open AItelier.Lib

variable {db db' : DB} {host : Host} {p k i : String} {caller : Caller}

/-- The tables that hold claims, evidence and reports. -/
def DB.side (db : DB) : List Claim × List Evidence × List Observation :=
  (db.claims, db.evidence, db.observations)

theorem side_claims (h : db'.side = db.side) : db'.claims = db.claims := congrArg Prod.fst h

theorem side_evidence (h : db'.side = db.side) : db'.evidence = db.evidence := congrArg (fun s => s.2.1) h

theorem side_observations (h : db'.side = db.side) : db'.observations = db.observations :=
  congrArg (fun s => s.2.2) h

/-- The side tables and those of the ledger. -/
def DB.tables (db : DB) : DB :=
  { db.core with claims := db.claims, observations := db.observations }

theorem core_of_tables (h : db'.tables = db.tables) : db'.core = db.core := by
  change db'.tables.core = db.tables.core
  rw [h]

theorem side_of_tables (h : db'.tables = db.tables) : db'.side = db.side := by
  change db'.tables.side = db.tables.side
  rw [h]

@[simp] theorem event_side (q : String) (k : Option String) (type : String) (payload : List (String × Json)) :
    (db.event q k type payload).side = db.side := rfl

theorem markBack_side (driverId : Option String) (now : Stamp) : (markBack db driverId now).side = db.side := by
  cases driverId with
  | none => rfl
  | some d =>
    unfold markBack
    dsimp only
    split_ifs <;> rfl

section Graph

theorem createProject_side {title : String} {source : Option String} {row : Project}
    (h : createProject db p title source = .ok (row, db')) : db'.side = db.side := by
  simp only [createProject, bind_ok] at h
  obtain ⟨_, _, title', _, _, _, h⟩ := h
  cases hl : lookup Project.projectId db.projects p with
  | some existing =>
    simp only [hl, bind_ok, pure_ok, Prod.mk.injEq] at h
    obtain ⟨_, _, _, rfl⟩ := h
    rfl
  | none =>
    simp only [hl, pure_ok, Prod.mk.injEq] at h
    obtain ⟨_, rfl⟩ := h
    rfl

theorem add_side {specs : List NodeSpec} {keys : List String} (h : add host db p specs = .ok (keys, db')) :
    db'.side = db.side := by
  obtain ⟨news, rfl, _⟩ := add_ok h
  rfl

variable {c : NodeChange} {reason : String} {rev : Int}

theorem revise_side {goal : Option String} {acceptance : Option (List CheckSpec)}
    {deps : Option (List String)}
    (h : revise host db p k rev reason goal acceptance deps = .ok (c, db')) : db'.side = db.side := by
  simp only [revise, bind_ok, pure_ok, Prod.mk.injEq] at h
  obtain ⟨_, _, _, _, _, _, _, _, _, _, _, _, _, _, _, _, _, _, _, _, _, _, db₁, hsnap, _, rfl⟩ := h
  simp only [snapshotRevision, bind_ok, pure_ok] at hsnap
  obtain ⟨_, _, rfl⟩ := hsnap
  rfl

theorem split_side {children : List NodeSpec}
    (h : split host db p k rev children reason = .ok (c, db')) : db'.side = db.side := by
  simp only [split, bind_ok, pure_ok, Prod.mk.injEq] at h
  obtain ⟨_, _, ⟨keys, db₁⟩, hadd, ⟨c', db₂⟩, hrev, _, rfl⟩ := h
  exact (revise_side hrev).trans (add_side hadd)

theorem supersede_side
    (h : supersede db p k rev reason = .ok (c, db')) : db'.side = db.side := by
  simp only [supersede, bind_ok, pure_ok, ite_ok, Prod.mk.injEq] at h
  obtain ⟨_, _, _, _, _, _, _, _, ⟨_, _, rfl⟩ | ⟨_, _, rfl⟩⟩ := h
  · rfl
  · rfl

theorem setFacet_side {facet : String} (h : setFacet db p k facet = .ok (c, db')) :
    db'.side = db.side := by
  simp only [setFacet, bind_ok, pure_ok, ite_ok, Prod.mk.injEq] at h
  obtain ⟨_, _, _, _, ⟨_, _, rfl⟩ | ⟨_, _, _, _, _, _, rfl⟩⟩ := h
  · rfl
  · rfl

theorem setNodePriority_side {priority expected : Int} {actor identity : Option String}
    (h : setNodePriority db p k priority expected reason actor identity = .ok (c, db')) :
    db'.side = db.side := by
  simp only [setNodePriority, bind_ok, pure_ok, ite_ok, Prod.mk.injEq] at h
  obtain ⟨_, _, _, _, _, _, _, _, _, _, ⟨_, _, rfl⟩ | ⟨_, _, rfl⟩⟩ := h
  · rfl
  · rfl

theorem importTasks_side {source : String} {tasks : List LegacyTask} {keys : List String}
    (h : importTasks host db p source tasks = .ok (keys, db')) : db'.side = db.side := by
  simp only [importTasks, bind_ok, pure_ok, Prod.mk.injEq] at h
  obtain ⟨_, _, _, _, _, _, specs, _, ⟨created, db₁⟩, hadd, _, rfl⟩ := h
  refine (foldl_keeps DB.side (fun d task => ?_) db₁ tasks).trans (add_side hadd)
  unfold legacyStatus
  split_ifs <;> rfl

end Graph

section Attempts
variable {row : Attempt}

theorem recordPreflight_side {report : Json} {error : Option String}
    (h : recordPreflight db i report error = .ok (row, db')) : db'.side = db.side := by
  simp only [recordPreflight, bind_ok] at h
  obtain ⟨_, _, _, _, h⟩ := h
  split at h
  · simp only [bind_ok, pure_ok, Prod.mk.injEq] at h
    obtain ⟨_, _, _, _, _, rfl⟩ := h
    rfl
  · simp only [pure_ok, Prod.mk.injEq] at h
    obtain ⟨_, rfl⟩ := h
    rfl

theorem pinRelay_side {relay : Json} (h : pinRelay db i relay = .ok (row, db')) : db'.side = db.side := by
  simp only [pinRelay, bind_ok] at h
  obtain ⟨_, _, _, _, _, _, h⟩ := h
  split at h
  · simp only [bind_ok, pure_ok, Prod.mk.injEq] at h
    obtain ⟨_, _, _, rfl⟩ := h
    rfl
  · simp only [bind_ok, pure_ok, Prod.mk.injEq] at h
    obtain ⟨_, _, _, _, _, rfl⟩ := h
    rfl

theorem pinPriorCandidate_side {prior : PriorRow} {value : Json}
    (h : pinPriorCandidate db i prior value = .ok (row, db')) : db'.side = db.side := by
  simp only [pinPriorCandidate, bind_ok, ite_ok, pure_ok, Prod.mk.injEq] at h
  obtain ⟨_, _, ⟨_, _, rfl⟩ | ⟨_, h⟩⟩ := h
  · rfl
  · split at h
    · simp only [pure_ok, Prod.mk.injEq] at h
      obtain ⟨_, rfl⟩ := h
      rfl
    · simp only [bind_ok, pure_ok, Prod.mk.injEq] at h
      obtain ⟨_, _, _, rfl⟩ := h
      rfl

theorem reconcilePriorCandidate_side {expected value : Json}
    (h : reconcilePriorCandidate db i expected value = .ok (row, db')) : db'.side = db.side := by
  simp only [reconcilePriorCandidate, bind_ok, ite_ok, pure_ok, Prod.mk.injEq] at h
  obtain ⟨_, _, ⟨_, _, rfl⟩ | ⟨_, _, _, _, rfl⟩⟩ := h
  · rfl
  · rfl

theorem pinHostContract_side {descriptor : HostContract}
    (h : pinHostContract db i descriptor = .ok (row, db')) : db'.side = db.side := by
  simp only [pinHostContract, bind_ok] at h
  obtain ⟨_, _, _, _, _, _, _, _, _, _, h⟩ := h
  split at h
  · simp only [bind_ok, pure_ok, Prod.mk.injEq] at h
    obtain ⟨_, _, _, rfl⟩ := h
    rfl
  · simp only [bind_ok, pure_ok, Prod.mk.injEq] at h
    obtain ⟨_, _, _, _, _, rfl⟩ := h
    rfl

theorem retireReservation_side {reason : String} (h : retireReservation db i reason = .ok (row, db')) :
    db'.side = db.side := by
  simp only [retireReservation, bind_ok, ite_ok, pure_ok, Prod.mk.injEq] at h
  obtain ⟨_, _, _, _, ⟨_, _, rfl⟩ | ⟨_, _, _, _, _, _, rfl⟩⟩ := h
  · rfl
  · rfl

theorem launchUncertain_side {reason : String} (h : launchUncertain db i reason = .ok (row, db')) :
    db'.side = db.side := by
  simp only [launchUncertain, bind_ok, ite_ok, pure_ok, Prod.mk.injEq] at h
  obtain ⟨_, _, _, _, ⟨_, _, rfl⟩ | ⟨_, _, _, _, rfl⟩⟩ := h
  · rfl
  · rfl

theorem bindRunWrite_side {call : BindCall} (h : bindRunWrite db call = .ok (row, db')) : db'.side = db.side := by
  simp only [bindRunWrite, bind_ok] at h
  obtain ⟨_, _, h⟩ := h
  split at h
  · simp only [bind_ok, pure_ok, Prod.mk.injEq] at h
    obtain ⟨_, _, _, rfl⟩ := h
    rfl
  · simp only [bind_ok, pure_ok, Prod.mk.injEq] at h
    obtain ⟨_, _, _, _, _, _, _, rfl⟩ := h
    rfl

theorem storeReportBlob_side {ref sha : String} {bytes : List UInt8}
    (h : storeReportBlob db ref sha bytes = .ok db') : db'.side = db.side := by
  unfold storeReportBlob at h
  split at h
  · simp only [bind_ok, pure_ok] at h
    obtain ⟨_, _, rfl⟩ := h
    rfl
  · rw [pure_ok] at h
    subst h
    rfl

theorem storeOptionalBlob_side {r : EvidenceRequest} (h : storeOptionalBlob db r = .ok db') : db'.side = db.side := by
  unfold storeOptionalBlob at h
  split at h
  · exact storeReportBlob_side h
  · rw [pure_ok] at h
    subst h
    rfl

theorem writeEvidence_side (db : DB) (n : Node) (a : Attempt) (row : Evidence) :
    (writeEvidence db n a row).side = (db.claims, db.evidence ++ [row], db.observations) := by
  unfold writeEvidence
  dsimp only
  split_ifs <;> rfl

theorem recordEvidence_side {r : EvidenceRequest} {out : Evidence}
    (h : recordEvidence host db r = .ok (out, db')) :
    db'.side = db.side ∨ ((∀ o ∈ db.observations, o.reportSha256 ≠ out.reportSha256) ∧
      db'.side = (db.claims, db.evidence ++ [out], db.observations)) := by
  simp only [recordEvidence, bind_ok] at h
  obtain ⟨r', _, a, _, h⟩ := h
  split at h
  · simp only [bind_ok, pure_ok, Prod.mk.injEq] at h
    obtain ⟨_, _, db₁, hblob, _, rfl⟩ := h
    exact .inl (storeOptionalBlob_side hblob)
  · simp only [bind_ok, ensure_ok, orElse_ok, pure_ok, Prod.mk.injEq] at h
    obtain ⟨_, _, _, hind, db₁, hblob, check, _, node, _, rfl, rfl⟩ := h
    refine .inr ⟨fun o ho he => hind (List.any_eq_true.mpr ⟨o, ho, decide_eq_true he⟩), ?_⟩
    have hkept := storeOptionalBlob_side hblob
    rw [event_side, writeEvidence_side, side_claims hkept, side_evidence hkept, side_observations hkept]

theorem verify_side {attemptId reviewer uid : String} {revision : Int} {bytes : Bool} {out : Acceptance}
    (h : verify host db p k revision attemptId reviewer bytes uid = .ok (out, db')) : db'.side = db.side := by
  simp only [verify, bind_ok] at h
  obtain ⟨_, _, _, _, _, _, _, _, _, _, _, _, _, _, _, _, h⟩ := h
  simp only [ite_ok, bind_ok, pure_ok, Prod.mk.injEq] at h
  rcases h with ⟨_, _, _, _, rfl⟩ | ⟨_, _, _, _, rfl⟩
  · rfl
  · rfl

end Attempts

section Policy
variable {reason : String} {revision : Int}

theorem setDispatch_tables {dispatch : Dispatch} (h : setDispatch db caller p dispatch revision reason = .ok db') :
    db'.tables = db.tables := by
  simp only [setDispatch, bind_ok, pure_ok] at h
  obtain ⟨_, _, rfl⟩ := h
  rfl

theorem setClaimEnforcement_tables {switch : Switch}
    (h : setClaimEnforcement db caller p switch revision reason = .ok db') : db'.tables = db.tables := by
  simp only [setClaimEnforcement, bind_ok, pure_ok] at h
  obtain ⟨_, _, _, _, rfl⟩ := h
  rfl

theorem setReviewIndependence_tables {mode : Independence}
    (h : setReviewIndependence db caller p mode revision reason = .ok db') : db'.tables = db.tables := by
  simp only [setReviewIndependence, bind_ok, pure_ok] at h
  obtain ⟨_, _, _, _, rfl⟩ := h
  rfl

theorem setHold_tables {held : Bool} (h : setHold db caller p k held revision reason = .ok db') :
    db'.tables = db.tables := by
  simp only [setHold, bind_ok, pure_ok] at h
  obtain ⟨_, _, _, _, _, _, _, _, rfl⟩ := h
  rfl

theorem bindSource_tables {repoPath commonDir : String}
    (h : bindSource db caller p repoPath commonDir revision = .ok db') : db'.tables = db.tables := by
  simp only [bindSource, bind_ok, pure_ok] at h
  obtain ⟨_, _, _, _, _, _, _, _, rfl⟩ := h
  rfl

theorem waitBegin_tables {driverId waitId : String} {timeout : Nat} {now : Stamp}
    (h : waitBegin host db driverId waitId timeout now = .ok db') : db'.tables = db.tables := by
  simp only [waitBegin, bind_ok, pure_ok] at h
  obtain ⟨_, _, rfl⟩ := h
  rfl

end Policy

section Desk

theorem offerHandoff_tables {o : Offer} {retained : ReportRef → Result Unit} {uid : String}
    {now : Stamp} {row : Handoff} (h : offerHandoff host db caller o retained uid now = .ok (row, db')) :
    db'.tables = db.tables := by
  simp only [offerHandoff, bind_ok] at h
  obtain ⟨driver, _, _, _, _, _, _, _, ⟨attempt, nodeKey⟩, _, _, _, h⟩ := h
  split at h
  · simp only [bind_ok, pure_ok, Prod.mk.injEq] at h
    obtain ⟨_, _, _, rfl⟩ := h
    rfl
  · simp only [bind_ok, pure_ok, Prod.mk.injEq] at h
    obtain ⟨_, _, _, _, _, rfl⟩ := h
    rfl

theorem declineHandoff_tables {p handoffId reason : String} {now : Stamp}
    (h : declineHandoff db caller p handoffId reason now = .ok db') : db'.tables = db.tables := by
  simp only [declineHandoff, bind_ok, pure_ok] at h
  obtain ⟨_, _, _, _, _, _, _, _, _, _, rfl⟩ := h
  rfl

theorem withdrawHandoff_tables {p handoffId reason : String} {now : Stamp}
    (h : withdrawHandoff db caller p handoffId reason now = .ok db') : db'.tables = db.tables := by
  simp only [withdrawHandoff, bind_ok, pure_ok, ite_ok] at h
  obtain ⟨_, _, _, _, _, _, _, _, ⟨_, rfl⟩ | ⟨_, _, _, rfl⟩⟩ := h
  · rfl
  · rfl

theorem declare_tables {driverId : Option String} {offline : Bool} {reason : String} {expected : Option Stamp}
    {now : Stamp} (h : declare db driverId offline reason expected now = .ok db') : db'.tables = db.tables := by
  simp only [declare, bind_ok, ite_ok, pure_ok] at h
  obtain ⟨driver, _, _, _, _, _, _, _, ⟨_, h⟩ | ⟨_, rfl⟩⟩ := h
  · split at h
    · rw [pure_ok] at h
      subst h
      rfl
    · rw [pure_ok] at h
      subst h
      rfl
  · rfl

end Desk

end AItelier.State
