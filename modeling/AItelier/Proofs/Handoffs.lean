import AItelier.Refine.Handoffs

namespace AItelier.State

open AItelier.Lib

variable {db db' : DB} {host : Host} {caller : Caller}

section Transfer
variable {actor reason driver : String} {a : Attempt} {now : Stamp} {ids : Nat → String}

/-- The driver's live claim on the attempt and its node. -/
def Claim.BoundTo (c : Claim) (a : Attempt) (driver : String) : Prop :=
  c.node = a.node ∧ c.status = .live ∧ c.attemptId = some a.attemptId ∧ c.driverId = driver

variable {c : Claim} {m m' : Moving}

theorem newClaimFor_ok {workspace uid : String} {t : Transfer} {purpose : Purpose} {subagent : Option String}
    (h : newClaimFor host db actor t driver now reason workspace purpose subagent uid = .ok (c, db')) :
    db'.claims = db.claims ++ [c] ∧ c.node = (t.projectId, t.nodeKey) ∧ c.status = .live ∧
      c.attemptId = t.attemptId ∧ c.driverId = driver ∧ c.purpose = purpose ∧
      c.fence = nextFence db (t.projectId, t.nodeKey) := by
  simp only [newClaimFor, bind_ok, pure_ok, Prod.mk.injEq] at h
  obtain ⟨_, _, db₁, hacq, rfl, rfl⟩ := h
  obtain ⟨_, rfl⟩ := acquire_ok hacq
  exact ⟨rfl, rfl, rfl, rfl, rfl, rfl, rfl⟩

/-- Of the claims that stop, none is live afterwards. -/
theorem endBoundClaims_live {newHolder : Option String} {l : List Claim}
    (h : c ∈ (l.foldl (endBoundClaim actor reason a newHolder) db).claims) (hlive : c.status = .live) :
    c ∈ db.claims ∧ c.claimId ∉ l.map Claim.claimId := by
  induction l generalizing db with
  | nil => exact ⟨h, List.not_mem_nil⟩
  | cons x l ih =>
    obtain ⟨hc, hnot⟩ := ih h
    obtain ⟨q, hq, hrow⟩ := mem_modifyWhere.mp hc
    have hne : (if newHolder.isSome = true then ClaimStatus.transferred else .released) ≠ .live := by
      split_ifs <;> decide
    by_cases hid : q.claimId = x.claimId
    · simp only [hid, decide_true, if_true] at hrow
      rw [hrow] at hlive
      exact absurd hlive hne
    · simp only [hid, decide_false, Bool.false_eq_true, if_false] at hrow
      subst hrow
      refine ⟨hq, ?_⟩
      rw [List.map_cons, List.mem_cons]
      exact fun hor => hor.elim hid hnot

/-- A claim that is live after the bound ones stopped was live before, and free
of the attempt. -/
theorem stopBoundClaims_live {newHolder : Option String}
    (h : c ∈ (stopBoundClaims db actor reason a newHolder).claims) (hlive : c.status = .live) :
    c ∈ db.claims ∧ ¬ (c.projectId = a.projectId ∧ c.attemptId = some a.attemptId) := by
  obtain ⟨hc, hnot⟩ := endBoundClaims_live h hlive
  refine ⟨hc, fun hb => hnot (List.mem_map.mpr ⟨c, ?_, rfl⟩)⟩
  exact List.mem_filter.mpr ⟨hc, decide_eq_true ⟨hb.1, hlive, .inl hb.2⟩⟩

/-- A transfer under way: the attempt's live claims are the new holder's, and so
is the claim still to be bound. -/
structure Handing (a : Attempt) (driver : String) (m : Moving) : Prop where
  theirs : ∀ c ∈ m.db.claims, c.projectId = a.projectId → c.status = .live →
    c.attemptId = some a.attemptId → c.driverId = driver
  held : ∀ h ∈ m.held, h ∈ m.db.claims ∧ h.node = a.node ∧ h.status = .live ∧ h.driverId = driver
  created : m.created.isSome = true → ∃ c ∈ m.db.claims, c.BoundTo a driver

theorem Handing.issue (hm : Handing a driver m)
    (hc : c.BoundTo a driver) (hdb : m'.db.claims = m.db.claims ++ [c]) (hheld : m'.held = m.held) :
    Handing a driver m' where
  theirs := by
    intro x hx hp hl hb
    rw [hdb, List.mem_append, List.mem_singleton] at hx
    rcases hx with hx | rfl
    · exact hm.theirs x hx hp hl hb
    · exact hc.2.2.2
  held := by
    intro h hh
    rw [hheld] at hh
    obtain ⟨hmem, hrest⟩ := hm.held h hh
    rw [hdb]
    exact ⟨List.mem_append_left _ hmem, hrest⟩
  created := by
    intro _
    rw [hdb]
    exact ⟨c, List.mem_append_right _ (List.mem_singleton_self c), hc⟩

theorem Handing.bind {held : Claim} (hm : Handing a driver m)
    (hn : (m.db.claims.map Claim.claimId).Nodup) (hheld : held ∈ m.held)
    (hdb : m'.db = (bindHeldClaim m.db actor a held reason).2) (hnone : m'.held = none) : Handing a driver m' := by
  obtain ⟨hmem, hnode, hlive, hdriver⟩ := hm.held held hheld
  have hrows : ∀ c, c ∈ m'.db.claims ↔ ∃ q ∈ m.db.claims, c = if decide (q.claimId = held.claimId) = true then
      { q with attemptId := some a.attemptId, fence := nextFence m.db a.node } else q := by
    intro c
    rw [hdb]
    exact mem_modifyWhere
  refine ⟨?_, ?_, ?_⟩
  · intro c hc hp hl hb
    obtain ⟨q, hq, rfl⟩ := (hrows c).mp hc
    by_cases hid : q.claimId = held.claimId
    · have he : q = held := List.inj_on_of_nodup_map hn hq hmem hid
      simp [he, hdriver]
    · simp only [hid, decide_false, Bool.false_eq_true, if_false] at hp hl hb ⊢
      exact hm.theirs q hq hp hl hb
  · intro h hh
    rw [hnone] at hh
    cases hh
  · intro _
    refine ⟨_, (hrows _).mpr ⟨held, hmem, rfl⟩, ?_⟩
    simp only [decide_true, if_true]
    exact ⟨hnode, hlive, rfl, hdriver⟩

theorem Moves.distinct {m : Moving} (hf : Ticket.Fenced (tickets db)) (hm : Moves db a m) :
    (m.db.claims.map Claim.claimId).Nodup :=
  claimIds_distinct (Ticket.Steps.fenced hf (hm.fences hf))

theorem moveClaim_handing {claim : Claim} (hn : (m.db.claims.map Claim.claimId).Nodup)
    (hm : Handing a driver m) (h : moveClaim host actor reason a driver now ids m claim = .ok m') :
    Handing a driver m' := by
  unfold moveClaim at h
  split at h
  · next held hheld =>
    rw [pure_ok] at h
    subst h
    rw [Option.filter_eq_some_iff] at hheld
    exact hm.bind hn hheld.1 rfl rfl
  · simp only [bind_ok, pure_ok] at h
    obtain ⟨⟨moved, db₁⟩, hnew, rfl⟩ := h
    obtain ⟨hrow, hnode, hlive, hatt, hdriver, _⟩ := newClaimFor_ok hnew
    exact hm.issue ⟨hnode, hlive, hatt, hdriver⟩ hrow rfl

theorem moveDefault_handing (hn : (m.db.claims.map Claim.claimId).Nodup)
    (hm : Handing a driver m) (h : moveDefault host actor reason a driver now ids m = .ok m') :
    Handing a driver m' ∧ m'.created.isSome = true := by
  unfold moveDefault at h
  split at h
  · next hcreated =>
    rw [pure_ok] at h
    subst h
    exact ⟨hm, by rw [hcreated]; rfl⟩
  · next held _ hheld =>
    rw [pure_ok] at h
    subst h
    exact ⟨hm.bind hn hheld rfl rfl, rfl⟩
  · simp only [bind_ok, pure_ok] at h
    obtain ⟨⟨moved, db₁⟩, hnew, rfl⟩ := h
    obtain ⟨hrow, hnode, hlive, hatt, hdriver, _⟩ := newClaimFor_ok hnew
    exact ⟨hm.issue ⟨hnode, hlive, hatt, hdriver⟩ hrow rfl, rfl⟩

theorem Handing.start {m : Moving} (hdb : m.db = stopBoundClaims db actor reason a (some driver))
    (hheld : m.held = m.db.claims.find? (fun c => Claim.liveExclusive a.node c && decide (c.driverId = driver)))
    (hnone : m.created = none) : Moves db a m ∧ Handing a driver m := by
  have hown : ∀ x ∈ m.held, x ∈ m.db.claims ∧ x.node = a.node ∧ x.status = .live ∧ x.driverId = driver := by
    intro x hx
    rw [hheld] at hx
    have hp := List.find?_some hx
    simp only [Claim.liveExclusive, Bool.and_eq_true, decide_eq_true_eq] at hp
    exact ⟨List.mem_of_find?_eq_some hx, hp.1.1.1, hp.1.1.2, hp.2⟩
  refine ⟨⟨?_, ?_⟩, ⟨?_, hown, ?_⟩⟩
  · rw [hdb]
    exact stopBoundClaims_fences db actor reason a (some driver)
  · exact fun x hx => ⟨x, (hown x hx).1, rfl, (hown x hx).2.1⟩
  · intro x hx hp hl hb
    rw [hdb] at hx
    exact absurd ⟨hp, hb⟩ (stopBoundClaims_live hx hl).2
  · intro hc
    rw [hnone] at hc
    cases hc

/-- After a transfer the attempt's live claims are the new holder's, and there is
one. -/
theorem transferClaims_handed {c : Option Claim} (hf : Ticket.Fenced (tickets db))
    (h : transferClaims host db actor reason a driver now ids = .ok (c, db')) :
    (∀ c ∈ db'.claims, c.projectId = a.projectId → c.status = .live → c.attemptId = some a.attemptId →
      c.driverId = driver) ∧ ∃ c ∈ db'.claims, c.BoundTo a driver := by
  simp only [transferClaims, bind_ok, pure_ok, Prod.mk.injEq] at h
  obtain ⟨m₁, hloop, m₂, hlast, _, rfl⟩ := h
  have hmid : Moves db a m₁ ∧ Handing a driver m₁ := by
    refine foldlM_invariant (I := fun m => Moves db a m ∧ Handing a driver m) ?_ (Handing.start rfl rfl rfl) hloop
    intro m x m' hm hx
    exact ⟨moveClaim_moves hm.1 hx, moveClaim_handing (hm.1.distinct hf) hm.2 hx⟩
  obtain ⟨hend, hsome⟩ := moveDefault_handing (hmid.1.distinct hf) hmid.2 hlast
  exact ⟨hend.theirs, hend.created hsome⟩

end Transfer

/-- The same store with other offers standing. -/
def DB.withHandoffs (db : DB) (hs : List Handoff) : DB := { db with handoffs := hs }

section Voiding
variable {actor reason driver : String} {a : Attempt} {now : Stamp} {ids : Nat → String} {hs : List Handoff}

theorem acquire_withHandoffs {claim : Claim} {extra : List (String × Json)}
    (h : acquire db actor claim reason extra = .ok db') :
    acquire (db.withHandoffs hs) actor claim reason extra = .ok (db'.withHandoffs hs) := by
  simp only [acquire, insertClaim, bind_ok, ensure_ok, pure_ok] at h ⊢
  obtain ⟨_, ⟨_, hfree, rfl⟩, rfl⟩ := h
  exact ⟨_, ⟨(), hfree, rfl⟩, rfl⟩

theorem newClaimFor_withHandoffs {workspace uid : String} {t : Transfer} {purpose : Purpose}
    {subagent : Option String} {c : Claim}
    (h : newClaimFor host db actor t driver now reason workspace purpose subagent uid = .ok (c, db')) :
    newClaimFor host (db.withHandoffs hs) actor t driver now reason workspace purpose subagent uid =
      .ok (c, db'.withHandoffs hs) := by
  simp only [newClaimFor, bind_ok, pure_ok, Prod.mk.injEq] at h ⊢
  obtain ⟨_, hfree, db₁, hacq, rfl, rfl⟩ := h
  exact ⟨(), hfree, _, acquire_withHandoffs hacq, rfl, rfl⟩

def Moving.withHandoffs (m : Moving) (hs : List Handoff) : Moving := { m with db := m.db.withHandoffs hs }

theorem moveClaim_withHandoffs {m m' : Moving} {claim : Claim}
    (h : moveClaim host actor reason a driver now ids m claim = .ok m') :
    moveClaim host actor reason a driver now ids (m.withHandoffs hs) claim = .ok (m'.withHandoffs hs) := by
  have hheld : (m.withHandoffs hs).held = m.held := rfl
  unfold moveClaim at h ⊢
  rw [hheld]
  split at h
  · rw [pure_ok] at h
    subst h
    rfl
  · simp only [bind_ok, pure_ok] at h ⊢
    obtain ⟨⟨moved, db₁⟩, hnew, rfl⟩ := h
    exact ⟨_, newClaimFor_withHandoffs hnew, rfl⟩

theorem moveDefault_withHandoffs {m m' : Moving}
    (h : moveDefault host actor reason a driver now ids m = .ok m') :
    moveDefault host actor reason a driver now ids (m.withHandoffs hs) = .ok (m'.withHandoffs hs) := by
  have hheld : (m.withHandoffs hs).held = m.held := rfl
  have hcreated : (m.withHandoffs hs).created = m.created := rfl
  unfold moveDefault at h ⊢
  rw [hheld, hcreated]
  split at h
  · rw [pure_ok] at h
    subst h
    rfl
  · rw [pure_ok] at h
    subst h
    rfl
  · simp only [bind_ok, pure_ok] at h ⊢
    obtain ⟨⟨moved, db₁⟩, hnew, rfl⟩ := h
    exact ⟨_, newClaimFor_withHandoffs hnew, rfl⟩

theorem stopBoundClaims_withHandoffs (newHolder : Option String) :
    stopBoundClaims (db.withHandoffs hs) actor reason a newHolder =
      (stopBoundClaims db actor reason a newHolder).withHandoffs hs := by
  have hloop : ∀ (l : List Claim) (d : DB), l.foldl (endBoundClaim actor reason a newHolder) (d.withHandoffs hs) =
      (l.foldl (endBoundClaim actor reason a newHolder) d).withHandoffs hs := by
    intro l
    induction l with
    | nil => exact fun _ => rfl
    | cons c l ih => exact fun d => ih (endBoundClaim actor reason a newHolder d c)
  exact hloop (boundClaims db a) db

/-- What a transfer does to claims and attempts is the same whatever is offered. -/
theorem transferClaims_withHandoffs {c : Option Claim}
    (h : transferClaims host db actor reason a driver now ids = .ok (c, db')) :
    transferClaims host (db.withHandoffs hs) actor reason a driver now ids = .ok (c, db'.withHandoffs hs) := by
  simp only [transferClaims, bind_ok, pure_ok, Prod.mk.injEq] at h ⊢
  obtain ⟨m₁, hloop, m₂, hlast, rfl, rfl⟩ := h
  rw [stopBoundClaims_withHandoffs]
  exact ⟨m₁.withHandoffs hs, foldlM_map (fun m => m.withHandoffs hs) (fun _ _ _ => moveClaim_withHandoffs) hloop,
    m₂.withHandoffs hs, moveDefault_withHandoffs hlast, rfl, rfl⟩

theorem takeOverAttempt_withHandoffs {i : String} {fence : Int} {override : Option String} {row : Attempt}
    {c : Option Claim} (h : takeOverAttempt host db caller i fence reason override now ids = .ok (row, c, db')) :
    ∃ out, takeOverAttempt host (db.withHandoffs hs) caller i fence reason override now ids = .ok (row, c, out) ∧
      out.attempts = db'.attempts ∧ out.claims = db'.claims := by
  simp only [takeOverAttempt, bind_ok, pure_ok, Prod.mk.injEq] at h
  obtain ⟨reason', hr, override', ho, driver, hd, _, hs₁, attempt, hof, _, hne, ⟨glass, offline⟩, hrec,
    ⟨claim, db₁⟩, htr, row', hrow, rfl, rfl, rfl⟩ := h
  simp only [takeOverAttempt, bind_ok, pure_ok, Prod.mk.injEq]
  exact ⟨_, ⟨reason', hr, override', ho, driver, hd, (), hs₁, attempt, hof, (), hne, ⟨glass, offline⟩, hrec,
    ⟨claim, db₁.withHandoffs hs⟩, transferClaims_withHandoffs htr, row', hrow, rfl, rfl, rfl⟩, rfl, rfl⟩

theorem storeReportBlob_withHandoffs {ref sha : String} {bytes : List UInt8}
    (h : storeReportBlob db ref sha bytes = .ok db') :
    storeReportBlob (db.withHandoffs hs) ref sha bytes = .ok (db'.withHandoffs hs) := by
  have hb : (db.withHandoffs hs).blobs = db.blobs := rfl
  unfold storeReportBlob at h ⊢
  rw [hb]
  split at h
  · simp only [bind_ok, pure_ok] at h ⊢
    obtain ⟨_, hsame, rfl⟩ := h
    exact ⟨(), hsame, rfl⟩
  · rw [pure_ok] at h
    subst h
    rfl

theorem storeAbandonReport_withHandoffs {report : Option (String × String × List UInt8)}
    (h : storeAbandonReport db report = .ok db') :
    storeAbandonReport (db.withHandoffs hs) report = .ok (db'.withHandoffs hs) := by
  unfold storeAbandonReport at h ⊢
  split at h
  · exact storeReportBlob_withHandoffs h
  · rw [pure_ok] at h
    subst h
    rfl

theorem writeAbandon_withHandoffs (kind : AbandonKind) :
    (writeAbandon (db.withHandoffs hs) caller a kind reason now).attempts =
        (writeAbandon db caller a kind reason now).attempts ∧
      (writeAbandon (db.withHandoffs hs) caller a kind reason now).claims =
        (writeAbandon db caller a kind reason now).claims := by
  have hmark : markAbandoned (db.withHandoffs hs) a kind reason now =
    (markAbandoned db a kind reason now).withHandoffs hs := rfl
  simp only [writeAbandon, hmark, stopBoundClaims_withHandoffs]
  exact ⟨rfl, rfl⟩

theorem abandonExternalAttempt_withHandoffs {r : AbandonRequest} {kept : Except StateError (String × List UInt8)}
    {row : Attempt} (h : abandonExternalAttempt host db caller r kept now = .ok (row, db')) :
    ∃ out, abandonExternalAttempt host (db.withHandoffs hs) caller r kept now = .ok (row, out) ∧
      out.attempts = db'.attempts ∧ out.claims = db'.claims := by
  simp only [abandonExternalAttempt, bind_ok, pure_ok, Prod.mk.injEq] at h
  obtain ⟨reason', hr, override', ho, _, hd, report, hrep, attempt, hof, _, hext, ⟨glass, offline⟩, hrec,
    db₁, hst, row', hrow, rfl, rfl⟩ := h
  obtain ⟨hatt, hcl⟩ := @writeAbandon_withHandoffs db₁ caller reason' attempt now hs r.abandonKind
  have hrow' : attemptOf (writeAbandon (db₁.withHandoffs hs) caller attempt r.abandonKind reason' now) r.attemptId =
      .ok row' := by
    rw [← hrow, attemptOf, attemptOf, DB.attempt?, hatt]
    rfl
  simp only [abandonExternalAttempt, bind_ok, pure_ok, Prod.mk.injEq]
  exact ⟨_, ⟨reason', hr, override', ho, (), hd, report, hrep, attempt, hof, (), hext, ⟨glass, offline⟩, hrec,
    db₁.withHandoffs hs, storeAbandonReport_withHandoffs hst, row', hrow', rfl, rfl⟩, hatt, hcl⟩

end Voiding

/-- The offerer's active attempt goes to the receiver: the owner, the fence and
the lease of its row, and every live claim bound to it. -/
structure AttemptMoved (db db' : DB) (h : Handoff) (a : Attempt) (now : Stamp) : Prop where
  active : a.status.active = true
  owner : a.ownerDriverId = some h.fromDriverId
  fence : (a.ownerFence : Int) = h.expectedOwnerFence
  attempts : db'.attempts = modifyWhere (fun x => decide (x.attemptId = a.attemptId)) (fun x => { x with
    ownerDriverId := some h.toDriverId, ownerFence := a.ownerFence + 1,
    leaseExpiresAt := some (addSeconds now defaultLeaseSeconds), lastHeartbeatAt := some now }) db.attempts
  theirs : ∀ c ∈ db'.claims, c.projectId = a.projectId → c.status = .live → c.attemptId = some a.attemptId →
    c.driverId = h.toDriverId
  bound : ∃ c ∈ db'.claims, c.BoundTo a h.toDriverId

/-- The offerer's live claim goes to the receiver: it stops, and one new row
takes its place. -/
structure ClaimMoved (db db' : DB) (h : Handoff) (c : Claim) : Prop where
  live : c.status = .live
  owner : c.driverId = h.fromDriverId
  fence : (c.fence : Int) = h.expectedOwnerFence
  attempts : db'.attempts = db.attempts
  claims : ∃ c', db'.claims = modifyWhere (fun x => decide (x.claimId = c.claimId))
      (fun x => { x with status := .transferred }) db.claims ++ [c'] ∧
    c'.status = .live ∧ c'.driverId = h.toDriverId ∧ c'.nodeKey = c.nodeKey ∧ c'.purpose = c.purpose ∧
    c'.attemptId = c.attemptId

/-- The subject was the offerer's on the terms of the offer, and is the receiver's. -/
def Handoff.Moved (h : Handoff) (db db' : DB) (now : Stamp) : Prop :=
  (∃ i a, h.attemptId = some i ∧ db.attempt? i = some a ∧ AttemptMoved db db' h a now) ∨
    ∃ i c, h.claimId = some i ∧ db.claim? i = some c ∧ ClaimMoved db db' h c

/-- No ownership column changes. -/
def DB.Unmoved (db db' : DB) : Prop := db'.attempts = db.attempts ∧ db'.claims = db.claims

/-- What the request leaves of attempts and claims it leaves whatever is offered. -/
def Regardless (host : Host) (db db' : DB) (r : Request) : Prop :=
  ∀ hs, ∃ reply out, r.run host (db.withHandoffs hs) = .ok (reply, out) ∧ out.attempts = db'.attempts ∧
    out.claims = db'.claims

/-- The ways an open offer is closed. -/
inductive Ruling (host : Host) (db db' : DB) (h h' : Handoff) : Request → Prop
  | accepted {caller : Caller} {p : String} {fence : Int} {now : Stamp} {ids : Nat → String}
      (receiver : caller.driverId = some h.toDriverId) (unexpired : now < h.leaseExpiresAt)
      (moved : h.Moved db db' now) (status : h'.status = .accepted) :
      Ruling host db db' h h' (.acceptHandoff caller p h.handoffId fence now ids)
  | declined {caller : Caller} {p reason : String} {now : Stamp}
      (receiver : caller.driverId = some h.toDriverId) (unexpired : now < h.leaseExpiresAt)
      (kept : DB.Unmoved db db') (status : h'.status = .declined) :
      Ruling host db db' h h' (.declineHandoff caller p h.handoffId reason now)
  | withdrawn {caller : Caller} {p reason : String} {now : Stamp}
      (offerer : caller.driverId = some h.fromDriverId ∨ caller.isAdmin = true) (unexpired : now < h.leaseExpiresAt)
      (kept : DB.Unmoved db db') (status : h'.status = .withdrawn) :
      Ruling host db db' h h' (.withdrawHandoff caller p h.handoffId reason now)
  | takenOver {caller : Caller} {i : String} {fence : Int} {reason : String} {override : Option String} {now : Stamp}
      {ids : Nat → String} (subject : h.attemptId = some i)
      (regardless : Regardless host db db' (.takeOverAttempt caller i fence reason override now ids))
      (status : h'.status = .withdrawn) :
      Ruling host db db' h h' (.takeOverAttempt caller i fence reason override now ids)
  | abandoned {caller : Caller} {request : AbandonRequest} {kept : Except StateError (String × List UInt8)}
      {now : Stamp} (subject : h.attemptId = some request.attemptId)
      (regardless : Regardless host db db' (.abandon caller request kept now)) (status : h'.status = .withdrawn) :
      Ruling host db db' h h' (.abandon caller request kept now)

/-- The requests on offers. -/
def Request.onOffers : Request → Bool
  | .offerHandoff .. | .acceptHandoff .. | .declineHandoff .. | .withdrawHandoff .. => true
  | _ => false

section Rulings
variable {h h' hd : Handoff} {handoffId reason p i : String} {now : Stamp} {reply : Reply}

theorem unmoved_of_tables (ht : db'.tables = db.tables) : DB.Unmoved db db' :=
  ⟨core_attempts (core_of_tables ht), side_claims (side_of_tables ht)⟩

variable {ids : Nat → String} {c : Option Claim} {fence : Int} {r : Request}

theorem acceptAttempt_moved
    (hf : Ticket.Fenced (tickets db))
    (hok : acceptAttempt host db caller h i h.toDriverId fence now ids = .ok (c, db')) :
    ∃ a, db.attempt? i = some a ∧ AttemptMoved db db' h a now := by
  simp only [acceptAttempt, bind_ok, ensure_ok, pure_ok, Prod.mk.injEq] at hok
  obtain ⟨a, hof, _, hactive, _, ⟨howner, _, hfence⟩, ⟨_, db₁⟩, htr, _, rfl⟩ := hok
  have hf' : Ticket.Fenced (tickets (setOwner db a h.toDriverId now)) := hf
  obtain ⟨htheirs, hbound⟩ := transferClaims_handed hf' htr
  exact ⟨a, attemptOf_ok hof, hactive, howner, hfence, core_attempts (core_of_body (transferClaims_body htr)),
    htheirs, hbound⟩

theorem acceptClaim_moved
    (hok : acceptClaim host db caller h i h.toDriverId fence now ids = .ok (c, db')) :
    ∃ x, db.claim? i = some x ∧ ClaimMoved db db' h x := by
  have hbody := acceptClaim_body hok
  simp only [acceptClaim, bind_ok, ensure_ok, orElse_ok, pure_ok, Prod.mk.injEq] at hok
  obtain ⟨x, hx, _, ⟨hlive, howner, _, hfence⟩, ⟨fresh, db₁⟩, hnew, _, rfl⟩ := hok
  obtain ⟨hrows, hnode, hfl, hatt, hdriver, hpurpose, _⟩ := newClaimFor_ok hnew
  refine ⟨x, hx, hlive, howner, hfence, core_attempts (core_of_body hbody), fresh, hrows, hfl, hdriver, ?_,
    hpurpose, hatt⟩
  exact congrArg Prod.snd hnode

/-- An acceptance moves the subject it found standing. -/
theorem acceptHandoff_moved
    (hf : Ticket.Fenced (tickets db))
    (hok : acceptHandoff host db caller p handoffId fence now ids = .ok (c, db')) :
    ∃ hd, Decides db handoffId now hd ∧ caller.driverId = some hd.toDriverId ∧ hd.Moved db db' now ∧
      db'.handoffs = (decideHandoff db handoffId .accepted hd.toDriverId "accepted").handoffs := by
  obtain ⟨hd, db₁, hdec, hrec, hsub, rfl⟩ := acceptHandoff_ok hok
  refine ⟨hd, hdec, hrec, ?_, ?_⟩
  · unfold acceptSubject at hsub
    split at hsub
    · next i hi =>
      obtain ⟨a, ha, hm⟩ := acceptAttempt_moved hf hsub
      exact .inl ⟨i, a, hi, ha, hm.active, hm.owner, hm.fence, hm.attempts, hm.theirs, hm.bound⟩
    · next i _ hi =>
      obtain ⟨x, hx, hm⟩ := acceptClaim_moved hsub
      exact .inr ⟨i, x, hi, hx, hm.live, hm.owner, hm.fence, hm.attempts, hm.claims⟩
    · cases hsub
  · rw [decideHandoff, decideHandoff, DB.setHandoff, DB.setHandoff, acceptSubject_handoffs hsub]

theorem decided_row {status : HandoffStatus} {by_ : String} (hn : (db.handoffs.map Handoff.handoffId).Nodup)
    (hdec : Decides db handoffId now hd) (hmem : h ∈ db.handoffs)
    (hmem' : h' ∈ (decideHandoff db handoffId status by_ reason).handoffs) (hid : h'.handoffId = h.handoffId)
    (hopen : h.isOpen) (hclosed : ¬ h'.isOpen) : h = hd ∧ h'.status = status := by
  obtain ⟨q, hq, rfl⟩ := mem_modifyWhere.mp hmem'
  by_cases hk : q.handoffId = handoffId
  · simp only [hk, decide_true, if_true] at hid ⊢
    have he : h = hd := List.inj_on_of_nodup_map hn hmem hdec.mem (hid.symm.trans hdec.named.symm)
    exact ⟨he, trivial⟩
  · simp only [hk, decide_false, Bool.false_eq_true, if_false] at hid hclosed
    have he : q = h := List.inj_on_of_nodup_map hn hq hmem hid
    exact absurd (he ▸ hopen) hclosed

theorem voided_row {db₁ : DB} (hn : (db.handoffs.map Handoff.handoffId).Nodup)
    (hkept : db₁.handoffs = db.handoffs) (hvoid : db'.handoffs = (voidOpenHandoffs db₁ i reason).handoffs)
    (hmem : h ∈ db.handoffs) (hmem' : h' ∈ db'.handoffs) (hid : h'.handoffId = h.handoffId) (hopen : h.isOpen)
    (hclosed : ¬ h'.isOpen) : h.attemptId = some i ∧ h'.status = .withdrawn := by
  rw [hvoid, voidOpenHandoffs, hkept] at hmem'
  obtain ⟨q, hq, rfl⟩ := mem_modifyWhere.mp hmem'
  by_cases hk : q.attemptId = some i ∧ q.status = .offered
  · simp only [hk, and_self, decide_true, if_true] at hid ⊢
    have he : q = h := List.inj_on_of_nodup_map hn hq hmem hid
    exact ⟨he ▸ hk.1, trivial⟩
  · simp only [hk, decide_false, Bool.false_eq_true, if_false] at hid hclosed
    have he : q = h := List.inj_on_of_nodup_map hn hq hmem hid
    exact absurd (he ▸ hopen) hclosed

/-- An offer that a request closes is closed in one of the ways there are. -/
theorem Request.ruling (hn : (db.handoffs.map Handoff.handoffId).Nodup)
    (hf : Ticket.Fenced (tickets db)) (hok : r.run host db = .ok (reply, db')) (hmem : h ∈ db.handoffs)
    (hmem' : h' ∈ db'.handoffs) (hid : h'.handoffId = h.handoffId) (hopen : h.isOpen) (hclosed : ¬ h'.isOpen) :
    Ruling host db db' h h' r := by
  have hsame : ∀ q ∈ db.handoffs, q.handoffId = h.handoffId → q.isOpen := by
    intro q hq hk
    rw [List.inj_on_of_nodup_map hn hq hmem hk]
    exact hopen
  by_cases hw : Part.handoffs ∈ r.writes
  · cases r with
    | abandon caller request kept now =>
      obtain ⟨row, hx⟩ := answer_ok hok
      obtain ⟨db₁, hkept, hvoid⟩ := abandonExternalAttempt_ok hx
      obtain ⟨hsub, hst⟩ := voided_row hn hkept hvoid hmem hmem' hid hopen hclosed
      refine .abandoned hsub (fun hs => ?_) hst
      obtain ⟨out, hrun, hatt, hcl⟩ := @abandonExternalAttempt_withHandoffs _ _ _ _ _ hs _ _ _ hx
      exact ⟨.attempt row, out, by simp [Request.run, answer, hrun, bind, Except.bind, pure, Except.pure], hatt, hcl⟩
    | takeOverAttempt caller i fence reason override now ids =>
      obtain ⟨row, hx⟩ := answer_ok hok
      simp only [map_ok, Prod.mk.injEq] at hx
      obtain ⟨⟨row', c, d⟩, hx, rfl, rfl⟩ := hx
      obtain ⟨db₁, hkept, hvoid⟩ := takeOverAttempt_ok hx
      obtain ⟨hsub, hst⟩ := voided_row hn hkept hvoid hmem hmem' hid hopen hclosed
      refine .takenOver hsub (fun hs => ?_) hst
      obtain ⟨out, hrun, hatt, hcl⟩ := @takeOverAttempt_withHandoffs _ _ _ _ _ _ _ hs _ _ _ _ _ hx
      exact ⟨.attempt row', out, by
        simp [Request.run, answer, hrun, Except.map, bind, Except.bind, pure, Except.pure], hatt, hcl⟩
    | offerHandoff caller offer retained uid now =>
      obtain ⟨row, hx⟩ := answer_ok hok
      rcases offerHandoff_ok hx with rfl | ⟨hrow, _, hrows⟩
      · exact absurd (hsame h' hmem' hid) hclosed
      · rw [hrows, List.mem_append, List.mem_singleton] at hmem'
        rcases hmem' with hmem' | rfl
        · exact absurd (hsame h' hmem' hid) hclosed
        · exact absurd hrow hclosed
    | acceptHandoff caller p handoffId fence now ids =>
      obtain ⟨_, hx⟩ := answer_ok hok
      obtain ⟨hd, hdec, hrec, hmoved, hrows⟩ := acceptHandoff_moved hf hx
      rw [hrows] at hmem'
      obtain ⟨rfl, hst⟩ := decided_row hn hdec hmem hmem' hid hopen hclosed
      rw [← hdec.named]
      exact .accepted hrec hdec.unexpired hmoved hst
    | declineHandoff caller p handoffId reason now =>
      have hx := done_ok hok
      obtain ⟨hd, reason', hdec, hrec, hrows⟩ := declineHandoff_ok hx
      rw [hrows] at hmem'
      obtain ⟨rfl, hst⟩ := decided_row hn hdec hmem hmem' hid hopen hclosed
      rw [← hdec.named]
      exact .declined hrec hdec.unexpired (unmoved_of_tables (declineHandoff_tables hx)) hst
    | withdrawHandoff caller p handoffId reason now =>
      have hx := done_ok hok
      rcases withdrawHandoff_ok hx with rfl | ⟨hd, driver, hdec, hdr, hown, hrows⟩
      · exact absurd (hsame h' hmem' hid) hclosed
      · rw [hrows] at hmem'
        obtain ⟨rfl, hst⟩ := decided_row hn hdec hmem hmem' hid hopen hclosed
        rw [← hdec.named]
        refine .withdrawn ?_ hdec.unexpired (unmoved_of_tables (withdrawHandoff_tables hx)) hst
        rcases hown with rfl | hadmin
        · exact .inl hdr
        · exact .inr hadmin
    | _ => simp [Request.writes] at hw
  · rw [(Request.leaves hok).handoffs hw] at hmem'
    exact absurd (hsame h' hmem' hid) hclosed

theorem next_ruling {s : Sys} {op : Op} (hn : (s.db.handoffs.map Handoff.handoffId).Nodup)
    (hf : Ticket.Fenced (tickets s.db)) (hmem : h ∈ s.db.handoffs) (hmem' : h' ∈ (next host s op).db.handoffs)
    (hid : h'.handoffId = h.handoffId) (hopen : h.isOpen) (hclosed : ¬ h'.isOpen) :
    ∃ r, op = .request r ∧ Ruling host s.db (next host s op).db h h' r := by
  have hkept : ¬ (next host s op).db.handoffs = s.db.handoffs := by
    intro he
    rw [he] at hmem'
    rw [List.inj_on_of_nodup_map hn hmem' hmem hid] at hclosed
    exact hclosed hopen
  rcases next_cases host s op with he | ⟨r, reply, rfl, hr⟩ | ⟨call, now, reply, _, hr⟩
  · exact absurd (congrArg DB.handoffs he) hkept
  · exact ⟨r, rfl, Request.ruling hn hf hr hmem hmem' hid hopen hclosed⟩
  · exact absurd ((Call.leaves hr).handoffs (Call.writes_handoffs call)) hkept

theorem stepRequest_db {s : Sys} {db₁ : DB} (hok : r.run host s.db = .ok (reply, db₁)) :
    (next host s (.request r)).db = db₁ := by
  simp [next, stepOp, stepRequest, hok]

/-- A request on offers moves nothing, or accepts an offer. -/
theorem onOffers_moves (hf : Ticket.Fenced (tickets db)) (hr : r.onOffers = true)
    (hok : r.run host db = .ok (reply, db')) :
    DB.Unmoved db db' ∨ ∃ h ∈ db.handoffs, ∃ h' ∈ db'.handoffs, h'.handoffId = h.handoffId ∧ h.isOpen ∧
      h'.status = .accepted ∧ Ruling host db db' h h' r := by
  cases r with
  | offerHandoff caller offer retained uid now =>
    obtain ⟨_, hx⟩ := answer_ok hok
    exact .inl (unmoved_of_tables (offerHandoff_tables hx))
  | declineHandoff caller p handoffId reason now =>
    exact .inl (unmoved_of_tables (declineHandoff_tables (done_ok hok)))
  | withdrawHandoff caller p handoffId reason now =>
    exact .inl (unmoved_of_tables (withdrawHandoff_tables (done_ok hok)))
  | acceptHandoff caller p handoffId fence now ids =>
    obtain ⟨_, hx⟩ := answer_ok hok
    obtain ⟨hd, hdec, hrec, hmoved, hrows⟩ := acceptHandoff_moved hf hx
    refine .inr ⟨hd, hdec.mem,
      { hd with status := .accepted, decidedBy := some hd.toDriverId, decisionReason := some "accepted" },
      ?_, rfl, hdec.offered, rfl, ?_⟩
    · rw [hrows]
      exact mem_modifyWhere.mpr ⟨hd, hdec.mem, by simp [hdec.named]⟩
    · rw [← hdec.named]
      exact .accepted hrec hdec.unexpired hmoved rfl
  | _ => simp [Request.onOffers] at hr

/-- The offer a request decides, and the clock it does so at. -/
def Request.decision : Request → Option (String × Stamp)
  | .acceptHandoff _ _ handoffId _ now _ => some (handoffId, now)
  | .declineHandoff _ _ handoffId _ now => some (handoffId, now)
  | .withdrawHandoff _ _ handoffId _ now => some (handoffId, now)
  | _ => none

/-- Past its lease an offer is not decided any more. -/
theorem decision_lapsed (hn : (db.handoffs.map Handoff.handoffId).Nodup) (hmem : h ∈ db.handoffs)
    (hr : r.decision = some (h.handoffId, now)) (hlapsed : h.leaseExpiresAt ≤ now)
    (hok : r.run host db = .ok (reply, db')) : db' = db ∧ r.followUp reply = [] := by
  have hnone : ∀ hd, ¬ Decides db h.handoffId now hd := by
    intro hd hdec
    have he : hd = h := List.inj_on_of_nodup_map hn hdec.mem hmem hdec.named
    have hlt := hdec.unexpired
    rw [he] at hlt
    exact absurd hlt (Nat.not_lt.mpr hlapsed)
  cases r with
  | acceptHandoff caller p handoffId fence now' ids =>
    simp only [Request.decision, Option.some.injEq, Prod.mk.injEq] at hr
    obtain ⟨rfl, rfl⟩ := hr
    obtain ⟨_, hx⟩ := answer_ok hok
    obtain ⟨hd, _, hdec, _⟩ := acceptHandoff_ok hx
    exact absurd hdec (hnone hd)
  | declineHandoff caller p handoffId reason now' =>
    simp only [Request.decision, Option.some.injEq, Prod.mk.injEq] at hr
    obtain ⟨rfl, rfl⟩ := hr
    obtain ⟨hd, _, hdec, _⟩ := declineHandoff_ok (done_ok hok)
    exact absurd hdec (hnone hd)
  | withdrawHandoff caller p handoffId reason now' =>
    simp only [Request.decision, Option.some.injEq, Prod.mk.injEq] at hr
    obtain ⟨rfl, rfl⟩ := hr
    rcases withdrawHandoff_ok (done_ok hok) with he | ⟨hd, _, hdec, _⟩
    · exact ⟨he, rfl⟩
    · exact absurd hdec (hnone hd)
  | _ => simp [Request.decision] at hr

end Rulings

/-- Offers are decided once, and only an acceptance moves what they are about. In
every run an offer's terms stand and a decision on it is final; an open offer is
closed by its receiver, its offerer or a reclaim of the attempt, and of these only
the acceptance of the receiver, of an unexpired offer whose subject is still the
offerer's at the fence of the offer, changes who owns anything; past its lease the
offer is not decided. -/
theorem handoff_atomic (host : Host) (xs ys : List Op) (op : Op) :
    ((after host xs).db.handoffs.map Handoff.handoffId).Nodup ∧
    Docket.Follows Handoff.handoffId Handoff.terms Handoff.isOpen (after host xs).db.handoffs
      (after host (xs ++ ys)).db.handoffs ∧
    (∀ h ∈ (after host xs).db.handoffs, ∀ h' ∈ (next host (after host xs) op).db.handoffs,
      h'.handoffId = h.handoffId → h.isOpen → ¬ h'.isOpen →
      ∃ r, op = .request r ∧ Ruling host (after host xs).db (next host (after host xs) op).db h h' r) ∧
    (∀ r, op = .request r → r.onOffers = true →
      DB.Unmoved (after host xs).db (next host (after host xs) op).db ∨
      ∃ h ∈ (after host xs).db.handoffs, ∃ h' ∈ (next host (after host xs) op).db.handoffs,
        h'.handoffId = h.handoffId ∧ h.isOpen ∧ h'.status = .accepted ∧
        Ruling host (after host xs).db (next host (after host xs) op).db h h' r) ∧
    (∀ caller p handoffId fence now ids reply, op = .request (.acceptHandoff caller p handoffId fence now ids) →
      (stepOp host (after host xs) op).2 = .ok reply →
      ∃ h ∈ (after host xs).db.handoffs, h.handoffId = handoffId ∧ h.isOpen ∧ now < h.leaseExpiresAt ∧
        caller.driverId = some h.toDriverId ∧
        h.Moved (after host xs).db (next host (after host xs) op).db now) ∧
    (∀ h ∈ (after host xs).db.handoffs, ∀ r now, op = .request r → r.decision = some (h.handoffId, now) →
      h.leaseExpiresAt ≤ now → next host (after host xs) op = after host xs) := by
  have hn := after_handoffIds host xs
  have hf := after_fenced host xs
  refine ⟨hn, after_offers host xs ys, ?_, ?_, ?_, ?_⟩
  · intro h hmem h' hmem' hid hopen hclosed
    exact next_ruling hn hf hmem hmem' hid hopen hclosed
  · rintro r rfl hr
    cases hok : r.run host (after host xs).db with
    | error e =>
      left
      simp [DB.Unmoved, next, stepOp, stepRequest, hok]
    | ok out =>
      rw [stepRequest_db hok]
      exact onOffers_moves hf hr hok
  · rintro caller p handoffId fence now ids reply rfl hreply
    cases hok : Request.run host (after host xs).db (.acceptHandoff caller p handoffId fence now ids) with
    | error e => simp [stepOp, stepRequest, hok] at hreply
    | ok out =>
      rw [stepRequest_db hok]
      obtain ⟨_, hx⟩ := answer_ok hok
      obtain ⟨hd, hdec, hrec, hmoved, _⟩ := acceptHandoff_moved hf hx
      exact ⟨hd, hdec.mem, hdec.named, hdec.offered, hdec.unexpired, hrec, hmoved⟩
  · rintro h hmem r now rfl hr hlapsed
    cases hok : r.run host (after host xs).db with
    | error e => simp [next, stepOp, stepRequest, hok]
    | ok out =>
      obtain ⟨hdb, hcalls⟩ := decision_lapsed hn hmem hr hlapsed hok
      simp [next, stepOp, stepRequest, hok, hdb, hcalls]

end AItelier.State
