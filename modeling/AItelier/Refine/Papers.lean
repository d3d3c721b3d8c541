import AItelier.Refine.Claims

namespace AItelier.State

open AItelier.Lib

variable {db db' : DB} {host : Host} {caller : Caller}

/-- The rows of evidence and of external reports. -/
def DB.papers (db : DB) : List Evidence × List Observation := (db.evidence, db.observations)

theorem papers_of_side (h : db'.side = db.side) : db'.papers = db.papers := congrArg Prod.snd h

theorem papers_of_body (h : db'.body = db.body) : db'.papers = db.papers := by
  change db'.body.papers = db.body.papers
  rw [h]

theorem reserveOnce_papers {r : ReserveRequest} {preflight : Preflight} {out : Reserved}
    (h : reserveOnce host db caller r preflight = .ok (out, db')) : db'.papers = db.papers := by
  have hview : (reserveView db caller r).papers = db.papers := papers_of_side (reserveView_side r)
  rcases reserveOnce_ok h with ⟨claim, i, rfl⟩ | ⟨row, node, claim, bg, _, _, hadm⟩
  · exact (papers_of_body (bindClaim_body ..)).trans hview
  · rw [hadm.written, ← hview]
    unfold writeAdmission
    cases claim <;> cases r.external <;> cases row.context.priorCandidate <;> rfl

variable {now : Stamp} {row : Attempt}

theorem claimLaunch_papers {i : String} {claimId : Option String} {fence : Option Int} {b : Bool}
    (h : claimLaunch host db caller i claimId fence now = .ok (b, db')) : db'.papers = db.papers := by
  cases claimLaunch_result h with
  | late a found status => rfl
  | stale a found status _ pins body claims =>
    have hset : (setStatus db i .superseded).papers = db.papers := rfl
    exact (papers_of_body body).trans hset
  | launched a found status _ breakGlass rebind authorized dispatch pins body claims =>
    have hset : (setStatus db i .launching).papers = db.papers := rfl
    exact (papers_of_body body).trans hset

theorem abandonExternalAttempt_papers {r : AbandonRequest} {kept : Except StateError (String × List UInt8)}
    (h : abandonExternalAttempt host db caller r kept now = .ok (row, db')) :
    db'.papers = db.papers := by
  simp only [abandonExternalAttempt, bind_ok, pure_ok, Prod.mk.injEq] at h
  obtain ⟨reason, _, _, _, _, _, report, _, attempt, _, _, _, _, _, db₁, hstore, _, _, _, rfl⟩ := h
  have hmark : (markAbandoned db₁ attempt r.abandonKind reason now).papers = db₁.papers := rfl
  have hwrite := (papers_of_body (writeAbandon_body db₁ caller attempt r.abandonKind reason now)).trans hmark
  exact hwrite.trans (papers_of_side (storeAbandonReport_side hstore))

theorem takeOverAttempt_papers {i : String} {fence : Int} {reason : String} {override : Option String}
    {ids : Nat → String} {c : Option Claim}
    (h : takeOverAttempt host db caller i fence reason override now ids = .ok (row, c, db')) :
    db'.papers = db.papers := by
  simp only [takeOverAttempt, bind_ok, pure_ok, Prod.mk.injEq] at h
  obtain ⟨_, _, _, _, driver, _, _, _, attempt, _, _, _, _, _, ⟨claim, db₁⟩, htr, _, _, _, _, rfl⟩ := h
  have hmoved : db₁.papers = (setOwner db attempt driver now).papers := papers_of_body (transferClaims_body htr)
  exact hmoved

theorem acceptHandoff_papers {p handoffId : String} {fence : Int} {ids : Nat → String}
    {c : Option Claim} (h : acceptHandoff host db caller p handoffId fence now ids = .ok (c, db')) :
    db'.papers = db.papers := by
  simp only [acceptHandoff, bind_ok, pure_ok, Prod.mk.injEq] at h
  obtain ⟨driver, _, hd, _, _, _, _, _, ⟨claim, db₁⟩, hsub, _, rfl⟩ := h
  have hsubject : db₁.papers = db.papers := by
    unfold acceptSubject at hsub
    split at hsub
    · simp only [acceptAttempt, bind_ok, pure_ok, Prod.mk.injEq] at hsub
      obtain ⟨attempt, _, _, _, _, _, ⟨_, db₂⟩, htr, _, rfl⟩ := hsub
      have hmoved : db₂.papers = (setOwner db attempt driver now).papers := papers_of_body (transferClaims_body htr)
      exact hmoved
    · exact papers_of_body (acceptClaim_body hsub)
    · cases hsub
  exact hsubject

theorem beatAll_papers {ι : Type} {f : DB → ι → List Beaten × DB} (hf : ∀ db x, (f db x).2.papers = db.papers)
    (items : List ι) (acc : List Beaten × DB) : (beatAll f items acc).2.papers = acc.2.papers := by
  unfold beatAll
  refine foldl_keeps (fun acc : List Beaten × DB => acc.2.papers) (fun acc x => ?_) acc items
  exact hf acc.2 x

theorem heartbeat_papers {p : String} {claims attempts : List (String × Int)} {subagents : List String}
    {out : List Beaten} (h : heartbeat db caller p claims attempts subagents now = .ok (out, db')) :
    db'.papers = db.papers := by
  simp only [heartbeat, bind_ok, pure_ok] at h
  obtain ⟨driver, _, _, _, _, _, h⟩ := h
  have hdb : _ = db' := congrArg Prod.snd h
  rw [← hdb, beatAll_papers (fun db x => papers_of_body (beatSubagent_body ..)),
    beatAll_papers (fun db x => papers_of_side (beatAttempt_side ..)),
    beatAll_papers (fun db x => papers_of_body (beatClaim_body ..))]
  exact papers_of_body (markBack_body ..)

theorem reconcileWrite_papers {call : ReconcileCall} {stale : Bool}
    (h : reconcileWrite db call = .ok (row, stale, db')) : db'.papers = db.papers := by
  obtain ⟨a, n, fresh, art, _, hbody | ⟨_, hbody⟩⟩ := reconcileWrite_ok h
  · exact papers_of_body hbody
  · exact (papers_of_body hbody).trans (papers_of_side writeReconciled_side)

/-- The report would be a new row of an attempt that still takes reports. -/
def ObserveCall.Appends (db : DB) (call : ObserveCall) : Prop :=
  ∃ a ∈ db.attempt? call.request.attemptId, (a.observationVersion : Int) = call.request.expectedVersion ∧
    a.status ≠ .failed ∧ a.status ≠ .superseded ∧
    observation? db call.request.attemptId call.request.observationId = none

theorem writeObserved_papers (db : DB) (call : ObserveCall) (a : Attempt) (row : Observation) (n : Node)
    (current : Bool) (now : Stamp) : (writeObserved db call a row n current now).papers = db.papers := by
  have hoffer := papers_of_side (offerObserved_side db call.request a row n now)
  exact (papers_of_body (releaseSettled_body ..)).trans hoffer

/-- A committed report adds no row, or one with the report it presents. -/
theorem observeWrite_papers {call : ObserveCall} {out : Attempt} {o : Observation}
    (h : observeWrite host db call now = .ok (out, o, db')) :
    db'.papers = db.papers ∨ ∃ row, call.Appends db ∧ row.reportSha256 = call.request.reportSha256 ∧
      db'.papers = (db.evidence, db.observations ++ [row]) := by
  have hback : (markBack db call.caller.driverId now).side = db.side := markBack_side ..
  have happend : ∀ {row : Observation} {db₁ : DB},
      appendObservation (markBack db call.caller.driverId now) call row = .ok db₁ →
      db₁.papers = (db.evidence, db.observations ++ [row]) := by
    intro row db₁ happ
    have hs := congrArg Prod.snd (appendObservation_side happ)
    rw [side_evidence hback, side_observations hback] at hs
    exact hs
  have hnew : ∀ {a : Attempt} {n : Node} {late : Bool} {row : Observation},
      Reported host (markBack db call.caller.driverId now) call a n late row →
      call.Appends db ∧ row.reportSha256 = call.request.reportSha256 := by
    intro a n late row hrep
    have hfound := hrep.found
    have hid := hrep.new
    rw [core_attempt? (core_of_body (markBack_body ..))] at hfound
    rw [observation?, side_observations hback] at hid
    refine ⟨⟨a, hfound, hrep.version, hrep.unsettled.1, hrep.unsettled.2, hid⟩, ?_⟩
    rw [hrep.row]
    rfl
  cases observeWrite_result h with
  | replayed => exact .inl (papers_of_side hback)
  | late a n row db₁ reported appended =>
    obtain ⟨happends, hsha⟩ := hnew reported
    exact .inr ⟨row, happends, hsha, (papers_of_side (writeLate_side ..)).trans (happend appended)⟩
  | counted a n row db₁ reported appended =>
    obtain ⟨happends, hsha⟩ := hnew reported
    exact .inr ⟨row, happends, hsha, (writeObserved_papers ..).trans (happend appended)⟩

/-- Only a recording of evidence writes a paper among the requests. -/
theorem Request.papers {r : Request} {reply : Reply} (h : r.run host db = .ok (reply, db')) :
    db'.papers = db.papers ∨ ∃ row, (∀ o ∈ db.observations, o.reportSha256 ≠ row.reportSha256) ∧
      db'.papers = (db.evidence ++ [row], db.observations) := by
  cases hq : r.writesSide with
  | false => exact .inl (papers_of_side (r.keeps_side hq h))
  | true =>
    cases r with
    | recordEvidence request =>
      obtain ⟨out, h⟩ := answer_ok h
      rcases recordEvidence_side h with hs | ⟨hind, hs⟩
      · exact .inl (papers_of_side hs)
      · exact .inr ⟨out, hind, congrArg Prod.snd hs⟩
    | reserve caller workflow request =>
      obtain ⟨_, h⟩ := answer_ok h
      obtain ⟨_, _, h⟩ := reserve_ok h
      exact .inl (reserveOnce_papers h)
    | register caller harness externalId request =>
      obtain ⟨_, h⟩ := answer_ok h
      obtain ⟨_, _, h⟩ := register_ok h
      exact .inl (reserveOnce_papers h)
    | registerCheck caller harness externalId request =>
      obtain ⟨_, h⟩ := answer_ok h
      obtain ⟨_, _, h⟩ := register_ok h
      exact .inl (reserveOnce_papers h)
    | claimLaunch caller i claimId fence now =>
      obtain ⟨_, h⟩ := answer_ok h
      exact .inl (claimLaunch_papers h)
    | abandon caller request kept now =>
      obtain ⟨_, h⟩ := answer_ok h
      exact .inl (abandonExternalAttempt_papers h)
    | takeOverAttempt caller i fence reason overrideReason now ids =>
      obtain ⟨_, hx⟩ := answer_ok h
      simp only [map_ok, Prod.mk.injEq] at hx
      obtain ⟨_, hx, _, rfl⟩ := hx
      exact .inl (takeOverAttempt_papers hx)
    | claimNode caller request claimId now =>
      simp only [Request.run] at h
      obtain ⟨_, h⟩ := answer_ok h
      exact .inl (papers_of_body (claimNode_body h))
    | releaseClaim caller p claimId fence reason =>
      simp only [Request.run] at h
      obtain ⟨_, h⟩ := answer_ok h
      exact .inl (papers_of_body (releaseClaim_body h))
    | heartbeat caller p claims attempts subagents now =>
      obtain ⟨_, h⟩ := answer_ok h
      exact .inl (heartbeat_papers h)
    | sweep actor p now =>
      cases h
      exact .inl (papers_of_body (sweep_body ..))
    | takeOverClaim caller request uid now =>
      simp only [Request.run] at h
      obtain ⟨_, h⟩ := answer_ok h
      exact .inl (papers_of_body (takeOverClaim_body h))
    | acceptHandoff caller p handoffId fence now ids =>
      obtain ⟨_, h⟩ := answer_ok h
      exact .inl (acceptHandoff_papers h)
    | _ => cases hq

end AItelier.State
