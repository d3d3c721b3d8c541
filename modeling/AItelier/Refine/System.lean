import AItelier.Refine.Side

namespace AItelier.State

open AItelier.Lib AItelier.Ledger

variable {D : Discipline} {db db' : DB} {host : Host}

section Answer
variable {α : Type} {reply : Reply}

theorem answer_ok {x : Result (α × DB)} {f : α → Reply} (h : answer x f = .ok (reply, db')) :
    ∃ out, x = .ok (out, db') := by
  simp only [answer, bind_ok, pure_ok, Prod.mk.injEq] at h
  obtain ⟨⟨out, d⟩, hx, _, rfl⟩ := h
  exact ⟨out, hx⟩

theorem done_ok {x : Result DB} (h : done x = .ok (reply, db')) : x = .ok db' := by
  simp only [done, bind_ok, pure_ok, Prod.mk.injEq] at h
  obtain ⟨d, hx, _, rfl⟩ := h
  exact hx

theorem observe_ok {call : ObserveCall} {now : Stamp} (h : (Call.observe call).run host db now = .ok (reply, db')) :
    ∃ out o, observeWrite host db call now = .ok (out, o, db') := by
  simp only [Call.run] at h
  obtain ⟨_, h⟩ := answer_ok h
  simp only [map_ok, Prod.mk.injEq] at h
  obtain ⟨⟨out, o, d⟩, hx, _, rfl⟩ := h
  exact ⟨out, o, hx⟩

theorem reconcile_ok {call : ReconcileCall} {now : Stamp}
    (h : (Call.reconcile call).run host db now = .ok (reply, db')) :
    ∃ out stale, reconcileWrite db call = .ok (out, stale, db') := by
  simp only [Call.run] at h
  obtain ⟨_, h⟩ := answer_ok h
  simp only [map_ok, Prod.mk.injEq] at h
  obtain ⟨⟨out, stale, d⟩, hx, _, rfl⟩ := h
  exact ⟨out, stale, hx⟩

/-- The owner check writes nothing but the event of an override. -/
theorem structural_ok {caller : Caller} {p k action : String} {write : DB → Result (α × DB)} {out : α}
    (h : structural db caller p k action write = .ok (out, db')) :
    ∃ db₁, write db = .ok (out, db₁) ∧ db'.body = db₁.body ∧ db'.side = db₁.side := by
  simp only [structural, bind_ok, ite_ok, pure_ok, Prod.mk.injEq] at h
  obtain ⟨_, _, ⟨out', db₁⟩, hw, ⟨_, rfl, rfl⟩ | ⟨_, rfl, rfl⟩⟩ := h
  · exact ⟨_, hw, rfl, rfl⟩
  · exact ⟨_, hw, rfl, rfl⟩

theorem structuralBy_ok {caller : Option Caller} {p k action : String} {write : DB → Result (NodeChange × DB)}
    (h : structuralBy caller db p k action write = .ok (reply, db')) :
    ∃ c db₁, write db = .ok (c, db₁) ∧ db'.body = db₁.body ∧ db'.side = db₁.side := by
  obtain ⟨c, hx⟩ := answer_ok h
  cases caller with
  | none => exact ⟨c, db', hx, rfl, rfl⟩
  | some caller =>
    obtain ⟨db₁, hw, hb⟩ := structural_ok hx
    exact ⟨c, db₁, hw, hb⟩

end Answer

theorem Request.refines {r : Request} {reply : Reply}
    (hreview : D.review → ∀ p source tasks, r ≠ .importTasks p source tasks)
    (h : r.run host db = .ok (reply, db')) : Refines D db db' := by
  cases r with
  | createProject p title source =>
    obtain ⟨_, h⟩ := answer_ok h
    exact createProject_refines h
  | addNodes p specs =>
    obtain ⟨_, h⟩ := answer_ok h
    exact add_refines h
  | reviseNode caller p k revision reason goal acceptance deps =>
    obtain ⟨_, db₁, hw, hb, _⟩ := structuralBy_ok h
    exact (revise_refines hw).trans (Refines.of_body hb)
  | splitNode caller p k revision children reason =>
    obtain ⟨_, db₁, hw, hb, _⟩ := structuralBy_ok h
    exact (split_refines hw).trans (Refines.of_body hb)
  | supersedeNode caller p k revision reason =>
    obtain ⟨_, db₁, hw, hb, _⟩ := structuralBy_ok h
    exact (supersede_refines hw).trans (Refines.of_body hb)
  | setNodeFacet caller p k facet =>
    obtain ⟨_, db₁, hw, hb, _⟩ := structuralBy_ok h
    exact (setFacet_refines hw).trans (Refines.of_body hb)
  | setNodePriority p k priority expected reason actor identity =>
    obtain ⟨_, h⟩ := answer_ok h
    exact setNodePriority_refines h
  | importTasks p source tasks =>
    obtain ⟨_, h⟩ := answer_ok h
    exact importTasks_refines (fun hD => hreview hD p source tasks rfl) h
  | createRevision p actor createdAt spec =>
    obtain ⟨_, h⟩ := answer_ok h
    obtain ⟨_, rfl⟩ := createRevision_ok h
    exact Refines.of_core rfl
  | createBaseline p actor baselineId selected expected =>
    obtain ⟨_, h⟩ := answer_ok h
    obtain ⟨_, _, rfl⟩ := createBaseline_ok h
    exact Refines.of_core rfl
  | bindNode p actor k revision baselineId bindings reason =>
    obtain ⟨_, h⟩ := answer_ok h
    exact bindNode_refines h
  | setDispatch caller p dispatch revision reason =>
      exact Refines.of_core (core_of_tables (setDispatch_tables (done_ok h)))
  | setClaimEnforcement caller p switch revision reason =>
    exact Refines.of_core (core_of_tables (setClaimEnforcement_tables (done_ok h)))
  | setReviewIndependence caller p mode revision reason =>
    exact Refines.of_core (core_of_tables (setReviewIndependence_tables (done_ok h)))
  | setHold caller p k held revision reason => exact Refines.of_core (core_of_tables (setHold_tables (done_ok h)))
  | bindSource caller p repoPath commonDir revision =>
      exact Refines.of_core (core_of_tables (bindSource_tables (done_ok h)))
  | reserve caller workflow request =>
    obtain ⟨_, h⟩ := answer_ok h
    obtain ⟨_, _, h⟩ := reserve_ok h
    exact reserveOnce_refines h
  | register caller harness externalId request =>
    obtain ⟨_, h⟩ := answer_ok h
    obtain ⟨_, _, h⟩ := register_ok h
    exact reserveOnce_refines h
  | registerCheck caller harness externalId request =>
    obtain ⟨_, h⟩ := answer_ok h
    obtain ⟨_, _, h⟩ := register_ok h
    exact reserveOnce_refines h
  | recordPreflight i report error =>
    obtain ⟨_, h⟩ := answer_ok h
    exact recordPreflight_refines h
  | pinRelay i relay =>
    obtain ⟨_, h⟩ := answer_ok h
    exact pinRelay_refines h
  | pinPriorCandidate i prior value =>
    obtain ⟨_, h⟩ := answer_ok h
    exact pinPriorCandidate_refines h
  | reconcilePriorCandidate i expected value =>
    obtain ⟨_, h⟩ := answer_ok h
    exact reconcilePriorCandidate_refines h
  | pinHostContract i descriptor =>
    obtain ⟨_, h⟩ := answer_ok h
    exact pinHostContract_refines h
  | claimLaunch caller i claimId fence now =>
    obtain ⟨_, h⟩ := answer_ok h
    exact claimLaunch_refines h
  | retireReservation i reason =>
    obtain ⟨_, h⟩ := answer_ok h
    exact retireReservation_refines h
  | launchUncertain i reason =>
    obtain ⟨_, h⟩ := answer_ok h
    exact launchUncertain_refines h
  | recordEvidence request =>
    obtain ⟨_, h⟩ := answer_ok h
    exact recordEvidence_refines h
  | verify p k revision i reviewer bytes uid =>
    obtain ⟨_, h⟩ := answer_ok h
    exact verify_refines h
  | abandon caller request kept now =>
    obtain ⟨_, h⟩ := answer_ok h
    exact abandonExternalAttempt_refines h
  | takeOverAttempt caller i fence reason overrideReason now ids =>
    obtain ⟨_, hx⟩ := answer_ok h
    simp only [map_ok, Prod.mk.injEq] at hx
    obtain ⟨_, hx, _, rfl⟩ := hx
    exact takeOverAttempt_refines hx
  | claimNode caller request claimId now =>
    simp only [Request.run] at h
    obtain ⟨_, h⟩ := answer_ok h
    exact Refines.of_body (claimNode_body h)
  | releaseClaim caller p claimId fence reason =>
    simp only [Request.run] at h
    obtain ⟨_, h⟩ := answer_ok h
    exact Refines.of_body (releaseClaim_body h)
  | heartbeat caller p claims attempts subagents now =>
    obtain ⟨_, h⟩ := answer_ok h
    exact heartbeat_refines h
  | sweep actor p now =>
    cases h
    exact Refines.of_body (sweep_body ..)
  | takeOverClaim caller request uid now =>
    simp only [Request.run] at h
    obtain ⟨_, h⟩ := answer_ok h
    exact Refines.of_body (takeOverClaim_body h)
  | offerHandoff caller offer retained uid now =>
    obtain ⟨_, h⟩ := answer_ok h
    exact Refines.of_core (core_of_tables (offerHandoff_tables h))
  | acceptHandoff caller p handoffId fence now ids =>
    obtain ⟨_, h⟩ := answer_ok h
    exact acceptHandoff_refines h
  | declineHandoff caller p handoffId reason now =>
      exact Refines.of_core (core_of_tables (declineHandoff_tables (done_ok h)))
  | withdrawHandoff caller p handoffId reason now =>
      exact Refines.of_core (core_of_tables (withdrawHandoff_tables (done_ok h)))
  | declarePresence driverId offline reason expectedReturn now =>
      exact Refines.of_core (core_of_tables (declare_tables (done_ok h)))
  | waitBegin driverId waitId timeout now => exact Refines.of_core (core_of_tables (waitBegin_tables (done_ok h)))
  | waitEnd waitId now =>
    cases h
    exact Refines.of_core rfl
  | registry drivers projectDrivers =>
    cases h
    exact Refines.of_core rfl

/-- The requests that write claims, evidence or reports. -/
def Request.writesSide : Request → Bool
  | .reserve .. | .register .. | .registerCheck .. | .claimLaunch .. | .recordEvidence .. | .abandon ..
  | .takeOverAttempt .. | .claimNode .. | .releaseClaim .. | .heartbeat .. | .sweep .. | .takeOverClaim ..
  | .acceptHandoff .. => true
  | _ => false

theorem Request.keeps_side {r : Request} {reply : Reply} (hq : r.writesSide = false)
    (h : r.run host db = .ok (reply, db')) : db'.side = db.side := by
  cases r with
  | createProject p title source =>
    obtain ⟨_, h⟩ := answer_ok h
    exact createProject_side h
  | addNodes p specs =>
    obtain ⟨_, h⟩ := answer_ok h
    exact add_side h
  | reviseNode caller p k revision reason goal acceptance deps =>
    obtain ⟨_, db₁, hw, _, hs⟩ := structuralBy_ok h
    exact hs.trans (revise_side hw)
  | splitNode caller p k revision children reason =>
    obtain ⟨_, db₁, hw, _, hs⟩ := structuralBy_ok h
    exact hs.trans (split_side hw)
  | supersedeNode caller p k revision reason =>
    obtain ⟨_, db₁, hw, _, hs⟩ := structuralBy_ok h
    exact hs.trans (supersede_side hw)
  | setNodeFacet caller p k facet =>
    obtain ⟨_, db₁, hw, _, hs⟩ := structuralBy_ok h
    exact hs.trans (setFacet_side hw)
  | setNodePriority p k priority expected reason actor identity =>
    obtain ⟨_, h⟩ := answer_ok h
    exact setNodePriority_side h
  | importTasks p source tasks =>
    obtain ⟨_, h⟩ := answer_ok h
    exact importTasks_side h
  | createRevision p actor createdAt spec =>
    obtain ⟨_, h⟩ := answer_ok h
    obtain ⟨_, rfl⟩ := createRevision_ok h
    rfl
  | createBaseline p actor baselineId selected expected =>
    obtain ⟨_, h⟩ := answer_ok h
    obtain ⟨_, _, rfl⟩ := createBaseline_ok h
    rfl
  | bindNode p actor k revision baselineId bindings reason =>
    obtain ⟨_, h⟩ := answer_ok h
    obtain ⟨db₁, _, _, hrev, rfl⟩ := bindNode_ok h
    have hside := revise_side hrev
    exact hside
  | setDispatch caller p dispatch revision reason => exact side_of_tables (setDispatch_tables (done_ok h))
  | setClaimEnforcement caller p switch revision reason =>
    exact side_of_tables (setClaimEnforcement_tables (done_ok h))
  | setReviewIndependence caller p mode revision reason =>
    exact side_of_tables (setReviewIndependence_tables (done_ok h))
  | setHold caller p k held revision reason => exact side_of_tables (setHold_tables (done_ok h))
  | bindSource caller p repoPath commonDir revision => exact side_of_tables (bindSource_tables (done_ok h))
  | recordPreflight i report error =>
    obtain ⟨_, h⟩ := answer_ok h
    exact recordPreflight_side h
  | pinRelay i relay =>
    obtain ⟨_, h⟩ := answer_ok h
    exact pinRelay_side h
  | pinPriorCandidate i prior value =>
    obtain ⟨_, h⟩ := answer_ok h
    exact pinPriorCandidate_side h
  | reconcilePriorCandidate i expected value =>
    obtain ⟨_, h⟩ := answer_ok h
    exact reconcilePriorCandidate_side h
  | pinHostContract i descriptor =>
    obtain ⟨_, h⟩ := answer_ok h
    exact pinHostContract_side h
  | retireReservation i reason =>
    obtain ⟨_, h⟩ := answer_ok h
    exact retireReservation_side h
  | launchUncertain i reason =>
    obtain ⟨_, h⟩ := answer_ok h
    exact launchUncertain_side h
  | verify p k revision i reviewer bytes uid =>
    obtain ⟨_, h⟩ := answer_ok h
    exact verify_side h
  | offerHandoff caller offer retained uid now =>
    obtain ⟨_, h⟩ := answer_ok h
    exact side_of_tables (offerHandoff_tables h)
  | declineHandoff caller p handoffId reason now => exact side_of_tables (declineHandoff_tables (done_ok h))
  | withdrawHandoff caller p handoffId reason now => exact side_of_tables (withdrawHandoff_tables (done_ok h))
  | declarePresence driverId offline reason expectedReturn now => exact side_of_tables (declare_tables (done_ok h))
  | waitBegin driverId waitId timeout now => exact side_of_tables (waitBegin_tables (done_ok h))
  | waitEnd waitId now =>
    cases h
    rfl
  | registry drivers projectDrivers =>
    cases h
    rfl
  | _ => cases hq

/-- The call pins no artifact against the evidence. -/
def Call.ScopeSafe (db : DB) : Call → Prop
  | .reconcile call => call.ScopeSafe db
  | .bindRun _ | .observe _ | .register .. => True

/-- The call offers and withdraws candidates on the latest attempt only. -/
def Call.ReviewSafe (db : DB) : Call → Prop
  | .reconcile call => call.ReviewSafe db
  | .observe call => call.ReviewSafe db
  | .bindRun _ | .register .. => True

instance (db : DB) : ∀ c : Call, Decidable (c.ScopeSafe db)
  | .reconcile call => inferInstanceAs (Decidable (call.ScopeSafe db))
  | .bindRun _ | .observe _ | .register .. => .isTrue trivial

instance (db : DB) : ∀ c : Call, Decidable (c.ReviewSafe db)
  | .reconcile call => inferInstanceAs (Decidable (call.ReviewSafe db))
  | .observe call => inferInstanceAs (Decidable (call.ReviewSafe db))
  | .bindRun _ | .register .. => .isTrue trivial

theorem Call.refines {c : Call} {now : Stamp} {reply : Reply} (hscope : D.scope → c.ScopeSafe db)
    (hreview : D.review → c.ReviewSafe db) (h : c.run host db now = .ok (reply, db')) : Refines D db db' := by
  cases c with
  | bindRun x =>
    obtain ⟨_, hx⟩ := answer_ok h
    exact bindRunWrite_refines hx
  | reconcile x =>
    obtain ⟨_, _, hx⟩ := reconcile_ok h
    exact reconcileWrite_refines hscope hreview hx
  | observe x =>
    obtain ⟨_, _, hx⟩ := observe_ok h
    exact observeWrite_refines hreview hx
  | register caller harness externalId request source =>
    obtain ⟨_, hx⟩ := answer_ok h
    obtain ⟨_, _, hx⟩ := register_ok hx
    exact reserveOnce_refines hx

section Runs
variable {s : Sys} {op : Op} {ops : List Op}

def Op.isImport : Op → Bool
  | .request (.importTasks ..) => true
  | _ => false

/-- The step is no import of legacy tasks. -/
def Op.Native (op : Op) : Prop := op.isImport = false

instance (op : Op) : Decidable op.Native := inferInstanceAs (Decidable (_ = _))

def Sys.ScopeSafe (s : Sys) : Op → Prop
  | .commit index _ => ∀ c ∈ s.calls[index]?, c.ScopeSafe s.db
  | .request _ | .read _ => True

def Sys.ReviewSafe (s : Sys) : Op → Prop
  | .commit index _ => ∀ c ∈ s.calls[index]?, c.ReviewSafe s.db
  | .request _ | .read _ => True

instance (s : Sys) : ∀ op, Decidable (s.ScopeSafe op)
  | .commit index _ => inferInstanceAs (Decidable (∀ c ∈ s.calls[index]?, c.ScopeSafe s.db))
  | .request _ | .read _ => .isTrue trivial

instance (s : Sys) : ∀ op, Decidable (s.ReviewSafe op)
  | .commit index _ => inferInstanceAs (Decidable (∀ c ∈ s.calls[index]?, c.ReviewSafe s.db))
  | .request _ | .read _ => .isTrue trivial

/-- The step keeps the disciplines of `D`. -/
def Sys.Keeps (D : Discipline) (s : Sys) (op : Op) : Prop :=
  (D.scope → s.ScopeSafe op) ∧ (D.review → op.Native ∧ s.ReviewSafe op)

theorem next_refines (h : s.Keeps D op) : Refines D s.db (next host s op).db := by
  obtain ⟨hscope, hreview⟩ := h
  cases op with
  | request r =>
    cases hr : r.run host s.db with
    | error e =>
      simp only [next, stepOp, stepRequest, hr]
      exact Refines.refl _
    | ok out =>
      simp only [next, stepOp, stepRequest, hr]
      refine Request.refines (fun hD p source tasks he => ?_) hr
      subst he
      cases (hreview hD).1
  | read r =>
    have he : (next host s (.read r)).db = s.db := by
      simp only [next, stepOp, stepRead]
      split <;> rfl
    exact Refines.of_eq (congrArg ledger he)
  | commit index now =>
    cases hc : s.calls[index]? with
    | none =>
      simp only [next, stepOp, stepCommit, hc]
      exact Refines.refl _
    | some call =>
      cases hr : call.run host s.db now with
      | error e =>
        simp only [next, stepOp, stepCommit, hc, hr]
        exact Refines.refl _
      | ok out =>
        simp only [next, stepOp, stepCommit, hc, hr]
        exact Call.refines (fun hD => hscope hD call hc) (fun hD => (hreview hD).2 call hc) hr

theorem run_refines (h : Along (Sys.Keeps D) (next host) s ops) :
    Refines D s.db (run (next host) s ops).db := by
  induction ops generalizing s with
  | nil => exact Refines.refl _
  | cons op ops ih => exact (next_refines h.1).trans (ih h.2)

theorem keeps_none (s : Sys) (op : Op) : s.Keeps Discipline.none op :=
  ⟨fun h => h.elim, fun h => h.elim⟩

/-- A state the system can be in. -/
def after (host : Host) (ops : List Op) : Sys := run (next host) Sys.init ops

theorem after_append (host : Host) (xs ys : List Op) :
    after host (xs ++ ys) = run (next host) (after host xs) ys :=
  run_append ..

theorem after_snoc (host : Host) (ops : List Op) (op : Op) :
    after host (ops ++ [op]) = next host (after host ops) op := by
  rw [after_append]
  rfl

theorem after_cons (host : Host) (ops : List Op) (op : Op) (more : List Op) :
    after host (ops ++ op :: more) = after host ((ops ++ [op]) ++ more) := by
  rw [List.append_assoc, List.singleton_append]

theorem run_steps (host : Host) (s : Sys) (ops : List Op) :
    Steps Discipline.none (ledger s.db) (ledger (run (next host) s ops).db) :=
  run_refines (along_of keeps_none s ops)

theorem after_steps (host : Host) (ops : List Op) :
    Steps Discipline.none Ledger.empty (ledger (after host ops).db) :=
  run_steps host Sys.init ops

theorem after_orderly (host : Host) (ops : List Op) : Orderly (ledger (after host ops).db) :=
  Steps.orderly orderly_empty (after_steps host ops)

theorem after_sound (host : Host) (ops : List Op) : Sound (ledger (after host ops).db) :=
  Steps.sound orderly_empty sound_empty (after_steps host ops)

theorem after_pinned (host : Host) (ops : List Op) : Pinned (ledger (after host ops).db) :=
  Steps.pinned orderly_empty sound_empty pinned_empty (after_steps host ops)

end Runs

end AItelier.State
