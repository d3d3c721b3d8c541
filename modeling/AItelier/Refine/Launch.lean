import AItelier.Refine.Attempts

namespace AItelier.State

open AItelier.Lib AItelier.Ledger

variable {D : Discipline} {db db' : DB} {host : Host} {caller : Caller} {i : String} {a : Attempt}

section Preparation

theorem pinContext_refines (f : Context → Context) : Refines D db (pinContext db i f) :=
  Refines.of_eq (ledger_setAttempt_same (fun _ => rfl) (fun _ => rfl))

variable {row : Attempt}

theorem pinRelay_refines {relay : Json} (h : pinRelay db i relay = .ok (row, db')) :
    Refines D db db' := by
  simp only [pinRelay, bind_ok] at h
  obtain ⟨_, _, attempt, _, relayOf, _, h⟩ := h
  split at h
  · simp only [bind_ok, pure_ok, Prod.mk.injEq] at h
    obtain ⟨_, _, _, rfl⟩ := h
    exact Refines.refl _
  · simp only [bind_ok, pure_ok, Prod.mk.injEq] at h
    obtain ⟨_, _, row', _, _, rfl⟩ := h
    exact (pinContext_refines _).event

theorem pinPriorCandidate_refines {prior : PriorRow} {value : Json}
    (h : pinPriorCandidate db i prior value = .ok (row, db')) : Refines D db db' := by
  simp only [pinPriorCandidate, bind_ok, ite_ok, pure_ok, Prod.mk.injEq] at h
  obtain ⟨attempt, _, ⟨_, _, rfl⟩ | ⟨_, h⟩⟩ := h
  · exact Refines.refl _
  · split at h
    · simp only [pure_ok, Prod.mk.injEq] at h
      obtain ⟨_, rfl⟩ := h
      exact Refines.refl _
    · simp only [bind_ok, pure_ok, Prod.mk.injEq] at h
      obtain ⟨row', _, _, rfl⟩ := h
      exact (pinContext_refines _).event

theorem reconcilePriorCandidate_refines {expected value : Json}
    (h : reconcilePriorCandidate db i expected value = .ok (row, db')) : Refines D db db' := by
  simp only [reconcilePriorCandidate, bind_ok, ite_ok, pure_ok, Prod.mk.injEq] at h
  obtain ⟨attempt, _, ⟨_, _, rfl⟩ | ⟨_, row', _, _, rfl⟩⟩ := h
  · exact Refines.refl _
  · exact (pinContext_refines _).event

theorem pinHostContract_refines {descriptor : HostContract}
    (h : pinHostContract db i descriptor = .ok (row, db')) : Refines D db db' := by
  simp only [pinHostContract, bind_ok] at h
  obtain ⟨_, _, _, _, _, _, attempt, _, _, _, h⟩ := h
  split at h
  · simp only [bind_ok, pure_ok, Prod.mk.injEq] at h
    obtain ⟨_, _, _, rfl⟩ := h
    exact Refines.refl _
  · simp only [bind_ok, pure_ok, Prod.mk.injEq] at h
    obtain ⟨_, _, row', _, _, rfl⟩ := h
    exact (pinContext_refines _).event

theorem recordPreflight_refines {report : Json} {error : Option String}
    (h : recordPreflight db i report error = .ok (row, db')) : Refines D db db' := by
  simp only [recordPreflight, bind_ok, ensure_ok] at h
  obtain ⟨attempt, hatt, _, ⟨hres, _⟩, h⟩ := h
  have ha := attemptOf_ok hatt
  split at h
  · simp only [bind_ok, pure_ok, Prod.mk.injEq] at h
    obtain ⟨e, _, row', _, _, rfl⟩ := h
    exact setStatus_refines (f := fun x => { x with status := .failed, error := some e }) ha (fun _ => rfl) rfl
      (fun _ => rfl) (by rw [hres]; rfl) (by intro h; cases h)
  · simp only [pure_ok, Prod.mk.injEq] at h
    obtain ⟨_, rfl⟩ := h
    exact Refines.refl _

end Preparation

section Launching

/-- What a call of `claim_launch` can do. -/
inductive LaunchResult (host : Host) (db : DB) (caller : Caller) (i : String) (claimId : Option String)
    (fence : Option Int) (now : Stamp) : Bool → DB → Prop
  | late (a : Attempt) (found : db.attempt? i = some a) (status : a.status ≠ .reserved) :
      LaunchResult host db caller i claimId fence now false db
  | stale (a : Attempt) (found : db.attempt? i = some a) (status : a.status = .reserved) (db' : DB)
      (pins : pinsCurrent db a = .ok false) (body : db'.body = (setStatus db i .superseded).body)
      (claims : db'.claims = db.claims) :
      LaunchResult host db caller i claimId fence now false db'
  | launched (a : Attempt) (found : db.attempt? i = some a) (status : a.status = .reserved) (db' : DB)
      (breakGlass : Bool) (rebind : Option Claim)
      (authorized : launchAuthorization host db a caller claimId fence now = .ok (breakGlass, rebind))
      (dispatch : requireDispatch db a.node = .ok ()) (pins : pinsCurrent db a = .ok true)
      (body : db'.body = (setStatus db i .launching).body) (claims : db'.claims = (bindClaim db rebind i).claims) :
      LaunchResult host db caller i claimId fence now true db'

theorem claimLaunch_result {claimId : Option String} {fence : Option Int} {now : Stamp} {b : Bool}
    (h : claimLaunch host db caller i claimId fence now = .ok (b, db')) :
    LaunchResult host db caller i claimId fence now b db' := by
  simp only [claimLaunch, bind_ok, ite_ok, pure_ok, Prod.mk.injEq] at h
  obtain ⟨attempt, hatt, ⟨hne, rfl, rfl⟩ | ⟨hres, ⟨bg, rebind⟩, hauth, _, hdisp, fresh, hpins, h⟩⟩ := h
  · exact .late attempt (attemptOf_ok hatt) hne
  · have hst : attempt.status = .reserved := by
      by_contra hc
      exact hres hc
    obtain ⟨rfl, rfl, rfl⟩ | ⟨hfresh, rfl, rfl⟩ := h
    · exact .stale attempt (attemptOf_ok hatt) hst _ hpins rfl rfl
    · rw [Bool.not_eq_false] at hfresh
      subst hfresh
      refine .launched attempt (attemptOf_ok hatt) hst _ bg rebind hauth hdisp hpins ?_ ?_
      · rw [event_body, bindClaim_body]
      · cases rebind <;> rfl

theorem reserved_leaves (ha : db.attempt? i = some a) (hres : a.status = .reserved) {s : AttemptStatus}
    (hs : s ≠ .reserved) : Refines D db (setStatus db i s) :=
  setStatus_refines (f := fun x => { x with status := s }) ha (fun _ => rfl) rfl (fun _ => rfl)
    (by rw [hres]; rfl) (fun h => absurd h hs)

theorem claimLaunch_refines {claimId : Option String} {fence : Option Int} {now : Stamp} {b : Bool}
    (h : claimLaunch host db caller i claimId fence now = .ok (b, db')) : Refines D db db' := by
  cases claimLaunch_result h with
  | late a found status => exact Refines.refl _
  | stale a found status _ pins body claims =>
    exact (reserved_leaves found status (by decide)).trans (Refines.of_body body)
  | launched a found status _ breakGlass rebind authorized dispatch pins body claims =>
    exact (reserved_leaves found status (by decide)).trans (Refines.of_body body)

theorem retireReservation_refines {reason : String} {row : Attempt}
    (h : retireReservation db i reason = .ok (row, db')) : Refines D db db' := by
  simp only [retireReservation, bind_ok, ite_ok, ensure_ok, pure_ok, Prod.mk.injEq] at h
  obtain ⟨reason', _, attempt, hatt, ⟨_, _, rfl⟩ | ⟨_, _, ⟨hres, _⟩, row', _, _, rfl⟩⟩ := h
  · exact Refines.refl _
  · exact setStatus_refines (f := fun x => { x with status := .superseded, error := some reason' })
      (attemptOf_ok hatt) (fun _ => rfl) rfl (fun _ => rfl) (by rw [hres]; rfl) (by intro h; cases h)

theorem launchUncertain_refines {reason : String} {row : Attempt}
    (h : launchUncertain db i reason = .ok (row, db')) : Refines D db db' := by
  simp only [launchUncertain, bind_ok, ite_ok, pure_ok, Prod.mk.injEq] at h
  obtain ⟨reason', _, attempt, hatt, ⟨_, _, rfl⟩ | ⟨hst, row', _, _, rfl⟩⟩ := h
  · exact Refines.refl _
  · have hact : attempt.status.active = true := by
      by_contra hc
      refine hst (.inr ⟨?_, ?_⟩)
      · intro h; rw [h] at hc; exact hc rfl
      · intro h; rw [h] at hc; exact hc rfl
    exact setStatus_refines (f := fun x => { x with status := .unknown, error := some reason' })
      (attemptOf_ok hatt) (fun _ => rfl) rfl (fun _ => rfl) hact (by intro h; cases h)

theorem bindRunWrite_refines {call : BindCall} {row : Attempt} (h : bindRunWrite db call = .ok (row, db')) :
    Refines D db db' := by
  simp only [bindRunWrite, bind_ok] at h
  obtain ⟨current, hatt, h⟩ := h
  have ha := attemptOf_ok hatt
  split at h
  · simp only [bind_ok, pure_ok, Prod.mk.injEq] at h
    obtain ⟨_, _, _, rfl⟩ := h
    exact Refines.refl _
  · next hrun =>
    simp only [bind_ok, ensure_ok, pure_ok, Prod.mk.injEq] at h
    obtain ⟨_, hact, _, hfree, row', _, _, rfl⟩ := h
    refine setAttempt_refines (f := fun a => { a with
      runId := some call.runId, graphVersion := some call.row.graphVersion,
      graphDigest := some call.row.graphDigest,
      status := if call.row.status = "paused" then .paused else .running, error := none })
      ha (fun _ => rfl) (fun _ => rfl) ?_
    refine move_active hact rfl rfl rfl rfl ?_ rfl ?_ (.inl ⟨rfl, Nat.le_refl _⟩)
    · intro hr
      simp only [Attempt.toTry] at hr
      by_cases hp : call.row.status = "paused" <;> simp [hp] at hr
    · refine .inr ⟨hrun, call.runId, rfl, ?_⟩
      intro j u hu
      obtain ⟨x, hx, rfl⟩ := attempt_of_try hu
      intro hc
      exact hfree (List.any_eq_true.mpr ⟨x, lookup_mem hx, decide_eq_true hc⟩)

end Launching

section Ownership

variable {now : Stamp} {fence : Int} {ids : Nat → String} {c : Option Claim}

theorem setOwner_refines {driver : String} (ha : db.attempt? a.attemptId = some a)
    (hact : a.status.active = true) : Refines D db (setOwner db a driver now) := by
  refine setAttempt_refines (f := fun x => { x with
    ownerDriverId := some driver, ownerFence := a.ownerFence + 1,
    leaseExpiresAt := some (addSeconds now defaultLeaseSeconds), lastHeartbeatAt := some now })
    ha (fun _ => rfl) (fun _ => rfl) ?_
  refine move_active hact rfl rfl rfl rfl (fun h => h) rfl (.inl rfl) (.inr ?_)
  exact Nat.lt_succ_self _

theorem reclaimable_active {override : Option String} {takeover : Bool}
    {out : Bool × Option Presence} (h : reclaimable host db caller a fence override now takeover = .ok out) :
    a.status.active = true := by
  simp only [reclaimable, bind_ok, ensure_ok] at h
  obtain ⟨_, hact, _⟩ := h
  exact hact

theorem attemptOf_self (h : attemptOf db i = .ok a) : db.attempt? a.attemptId = some a := by
  have ha := attemptOf_ok h
  rw [attempt_id ha]
  exact ha

theorem takeOverAttempt_refines {reason : String} {override : Option String} {row : Attempt}
    (h : takeOverAttempt host db caller i fence reason override now ids = .ok (row, c, db')) : Refines D db db' := by
  simp only [takeOverAttempt, bind_ok, pure_ok, Prod.mk.injEq] at h
  obtain ⟨_, _, _, _, driver, _, _, _, attempt, hatt, _, _, ⟨bg, offline⟩, hrec, ⟨claim, db₁⟩, htr, row', _, _, _,
    rfl⟩ := h
  have hown : Refines D db (setOwner db attempt driver now) :=
    setOwner_refines (attemptOf_self hatt) (reclaimable_active hrec)
  refine hown.trans (Refines.of_body ?_)
  rw [event_body, voidOpenHandoffs_body]
  exact transferClaims_body htr

theorem storeReportBlob_core {ref sha : String} {bytes : List UInt8}
    (h : storeReportBlob db ref sha bytes = .ok db') : db'.core = db.core := by
  unfold storeReportBlob at h
  split at h
  · simp only [bind_ok, pure_ok] at h
    obtain ⟨_, _, rfl⟩ := h
    rfl
  · rw [pure_ok] at h
    subst h
    rfl

theorem storeAbandonReport_core {report : Option (String × String × List UInt8)}
    (h : storeAbandonReport db report = .ok db') : db'.core = db.core := by
  unfold storeAbandonReport at h
  split at h
  · exact storeReportBlob_core h
  · rw [pure_ok] at h
    subst h
    rfl

theorem writeAbandon_body (db : DB) (caller : Caller) (a : Attempt) (kind : AbandonKind) (reason : String)
    (now : Stamp) :
    (writeAbandon db caller a kind reason now).body = (markAbandoned db a kind reason now).body := by
  rw [writeAbandon, voidOpenHandoffs_body, stopBoundClaims_body]

theorem writeAbandon_refines {kind : AbandonKind} {reason : String}
    (ha : db.attempt? a.attemptId = some a) (hact : a.status.active = true) :
    Refines D db (writeAbandon db caller a kind reason now) := by
  have hmove : Refines D db (db.setAttempt a.attemptId (fun x => { x with
      status := .abandoned, abandonKind := some kind, error := some reason, ownerFence := a.ownerFence + 1 })) := by
    refine setAttempt_refines (f := fun x => { x with
      status := .abandoned, abandonKind := some kind, error := some reason, ownerFence := a.ownerFence + 1 })
      ha (fun _ => rfl) (fun _ => rfl) ?_
    refine move_active hact rfl rfl rfl rfl (fun h => by cases h) rfl (.inl rfl) (.inr ?_)
    exact Nat.lt_succ_self _
  have hmark : Refines D db (markAbandoned db a kind reason now) := hmove.trans (Refines.of_core rfl)
  exact hmark.trans (Refines.of_body (writeAbandon_body ..))

theorem abandonExternalAttempt_refines {r : AbandonRequest} {kept : Except StateError (String × List UInt8)}
    {row : Attempt} (h : abandonExternalAttempt host db caller r kept now = .ok (row, db')) :
    Refines D db db' := by
  simp only [abandonExternalAttempt, bind_ok, pure_ok, Prod.mk.injEq] at h
  obtain ⟨reason, _, _, _, _, _, report, _, attempt, hatt, _, _, ⟨bg, _⟩, hrec, db₁, hstore, row', _, _, rfl⟩ := h
  have hcore := storeAbandonReport_core hstore
  have ha : db₁.attempt? attempt.attemptId = some attempt := by
    rw [core_attempt? hcore]
    exact attemptOf_self hatt
  exact (Refines.of_core hcore).trans (writeAbandon_refines ha (reclaimable_active hrec))

theorem acceptAttempt_refines {hd : Handoff} {driver : String}
    (h : acceptAttempt host db caller hd i driver fence now ids = .ok (c, db')) :
    Refines D db db' := by
  simp only [acceptAttempt, bind_ok, ensure_ok, pure_ok, Prod.mk.injEq] at h
  obtain ⟨attempt, hatt, _, hact, _, _, ⟨claim, db₁⟩, htr, _, rfl⟩ := h
  have hown : Refines D db (setOwner db attempt driver now) := setOwner_refines (attemptOf_self hatt) hact
  refine hown.trans (Refines.of_body ?_)
  rw [event_body]
  exact transferClaims_body htr

theorem acceptHandoff_refines {p handoffId : String}
    (h : acceptHandoff host db caller p handoffId fence now ids = .ok (c, db')) :
    Refines D db db' := by
  simp only [acceptHandoff, bind_ok, pure_ok, Prod.mk.injEq] at h
  obtain ⟨driver, _, hd, _, _, _, _, _, ⟨claim, db₁⟩, hsub, _, rfl⟩ := h
  have hsubject : Refines D db db₁ := by
    unfold acceptSubject at hsub
    split at hsub
    · exact acceptAttempt_refines hsub
    · exact Refines.of_body (acceptClaim_body hsub)
    · cases hsub
  exact hsubject.trans (Refines.of_core rfl)

theorem beatAttempt_ledger (db : DB) (p driver : String) (now : Stamp) (i : String) (fence : Int) :
    ledger (beatAttempt db p driver now i fence).2 = ledger db := by
  unfold beatAttempt
  split
  · rfl
  · split_ifs
    · rfl
    · rfl
    · rfl
    · rfl
    · exact ledger_setAttempt_same (fun _ => rfl) (fun _ => rfl)

theorem renewClaim_body (now : Stamp) (db : DB) (row : Claim) : (renewClaim now db row).body = db.body := rfl

theorem beatClaim_body (db : DB) (p driver : String) (now : Stamp) (claimId : String) (fence : Int) :
    (beatClaim db p driver now claimId fence).2.body = db.body := by
  unfold beatClaim
  split
  · rfl
  · split_ifs <;> rfl

theorem beatSubagent_body (db : DB) (p driver : String) (now : Stamp) (label : String) :
    (beatSubagent db p driver now label).2.body = db.body := by
  unfold beatSubagent
  split
  · rfl
  · dsimp only
    split
    · rfl
    · exact foldl_body (renewClaim_body now) db _

theorem beatAll_ledger {ι : Type} {f : DB → ι → List Beaten × DB} (hf : ∀ db x, ledger (f db x).2 = ledger db)
    (items : List ι) (acc : List Beaten × DB) : ledger (beatAll f items acc).2 = ledger acc.2 := by
  unfold beatAll
  refine foldl_keeps (fun acc : List Beaten × DB => ledger acc.2) (fun acc x => ?_) acc items
  exact hf acc.2 x

theorem heartbeat_refines {p : String} {claims attempts : List (String × Int)} {subagents : List String}
    {out : List Beaten} (h : heartbeat db caller p claims attempts subagents now = .ok (out, db')) :
    Refines D db db' := by
  simp only [heartbeat, bind_ok, pure_ok] at h
  obtain ⟨driver, _, _, _, _, _, h⟩ := h
  have hdb : _ = db' := congrArg Prod.snd h
  refine Refines.of_eq ?_
  rw [← hdb, beatAll_ledger (fun db x => ledger_core (core_of_body (beatSubagent_body ..))),
    beatAll_ledger (fun db x => beatAttempt_ledger ..),
    beatAll_ledger (fun db x => ledger_core (core_of_body (beatClaim_body ..)))]
  exact ledger_core (core_of_body (markBack_body ..))

end Ownership

end AItelier.State
