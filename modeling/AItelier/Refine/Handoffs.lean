import AItelier.Lib.Docket
import AItelier.Refine.Parts

namespace AItelier.State

open AItelier.Lib

variable {db db' : DB} {host : Host} {caller : Caller} {p : String}

/-- The offer as it was made. -/
def Handoff.terms (h : Handoff) : Handoff :=
  { h with status := .offered, decidedBy := none, decisionReason := none }

def Handoff.isOpen (h : Handoff) : Prop := h.status = .offered

section Checks
variable {h : Handoff} {handoffId : String} {now : Stamp}

theorem requireDriver_ok {message d : String} (hd : requireDriver caller message = .ok d) :
    caller.driverId = some d := by
  rw [requireDriver, orElse_ok, Option.filter_eq_some_iff] at hd
  exact hd.1

theorem handoffOf_ok (hh : handoffOf db p handoffId = .ok h) :
    h ∈ db.handoffs ∧ h.handoffId = handoffId ∧ h.projectId = p := by
  simp only [handoffOf, bind_ok, orElse_ok, Option.filter_eq_some_iff, decide_eq_true_eq] at hh
  obtain ⟨_, _, hl, hp⟩ := hh
  exact ⟨lookup_mem hl, lookup_key hl, hp⟩

theorem handoffOpen_ok {u : Unit} (ho : handoffOpen h now = .ok u) : h.isOpen ∧ now < h.leaseExpiresAt := by
  simp only [handoffOpen, bind_ok, ensure_ok] at ho
  obtain ⟨_, hlapsed, hs⟩ := ho
  refine ⟨hs, Nat.lt_of_not_le (fun hle => hlapsed ⟨hs, hle⟩)⟩

theorem handoffEligible_ok {driver : String} {u : Unit} (he : handoffEligible h driver = .ok u) :
    h.toDriverId = driver := by
  simp only [handoffEligible, bind_ok, ensure_ok] at he
  obtain ⟨_, _, hto⟩ := he
  exact hto

end Checks

/-- A caller decides the offer while it is open. -/
structure Decides (db : DB) (handoffId : String) (now : Stamp) (h : Handoff) : Prop where
  mem : h ∈ db.handoffs
  named : h.handoffId = handoffId
  offered : h.isOpen
  unexpired : now < h.leaseExpiresAt

section Inversions
variable {handoffId reason : String} {now : Stamp}

theorem acceptHandoff_ok {fence : Int} {ids : Nat → String} {c : Option Claim}
    (h : acceptHandoff host db caller p handoffId fence now ids = .ok (c, db')) :
    ∃ hd db₁, Decides db handoffId now hd ∧ caller.driverId = some hd.toDriverId ∧
      acceptSubject host db caller hd hd.toDriverId fence now ids = .ok (c, db₁) ∧
      db' = decideHandoff db₁ handoffId .accepted hd.toDriverId "accepted" := by
  simp only [acceptHandoff, bind_ok, pure_ok, Prod.mk.injEq] at h
  obtain ⟨driver, hdr, hd, hof, _, hel, _, hop, ⟨c', db₁⟩, hsub, rfl, rfl⟩ := h
  obtain ⟨hmem, hid, _⟩ := handoffOf_ok hof
  obtain ⟨hopen, hlease⟩ := handoffOpen_ok hop
  obtain rfl := handoffEligible_ok hel
  exact ⟨hd, db₁, ⟨hmem, hid, hopen, hlease⟩, requireDriver_ok hdr, hsub, rfl⟩

theorem declineHandoff_ok (h : declineHandoff db caller p handoffId reason now = .ok db') :
    ∃ hd reason', Decides db handoffId now hd ∧ caller.driverId = some hd.toDriverId ∧
      db'.handoffs = (decideHandoff db handoffId .declined hd.toDriverId reason').handoffs := by
  simp only [declineHandoff, bind_ok, pure_ok] at h
  obtain ⟨driver, hdr, reason', _, hd, hof, _, hel, _, hop, rfl⟩ := h
  obtain ⟨hmem, hid, _⟩ := handoffOf_ok hof
  obtain ⟨hopen, hlease⟩ := handoffOpen_ok hop
  obtain rfl := handoffEligible_ok hel
  exact ⟨hd, reason', ⟨hmem, hid, hopen, hlease⟩, requireDriver_ok hdr, rfl⟩

theorem withdrawHandoff_ok (h : withdrawHandoff db caller p handoffId reason now = .ok db') :
    db' = db ∨ ∃ hd driver, Decides db handoffId now hd ∧ caller.driverId = some driver ∧
      (hd.fromDriverId = driver ∨ caller.isAdmin = true) ∧
      db'.handoffs = (decideHandoff db handoffId .withdrawn driver reason).handoffs := by
  simp only [withdrawHandoff, bind_ok, pure_ok, ite_ok, ensure_ok] at h
  obtain ⟨driver, hdr, _, _, hd, hof, _, hown, ⟨_, rfl⟩ | ⟨_, _, hop, rfl⟩⟩ := h
  · exact .inl rfl
  · obtain ⟨hmem, hid, _⟩ := handoffOf_ok hof
    obtain ⟨hopen, hlease⟩ := handoffOpen_ok hop
    exact .inr ⟨hd, driver, ⟨hmem, hid, hopen, hlease⟩, requireDriver_ok hdr, hown, rfl⟩

theorem offerHandoff_ok {o : Offer} {retained : ReportRef → Result Unit} {uid : String} {row : Handoff}
    (h : offerHandoff host db caller o retained uid now = .ok (row, db')) :
    db' = db ∨ (row.isOpen ∧ (∀ q ∈ db.handoffs, q.handoffId ≠ row.handoffId) ∧
      db'.handoffs = db.handoffs ++ [row]) := by
  simp only [offerHandoff, bind_ok] at h
  obtain ⟨driver, _, _, _, _, _, _, _, ⟨attempt, nodeKey⟩, _, _, _, h⟩ := h
  split at h
  · simp only [bind_ok, pure_ok, Prod.mk.injEq] at h
    obtain ⟨_, _, _, rfl⟩ := h
    exact .inl rfl
  · simp only [bind_ok, pure_ok, ensure_ok, Prod.mk.injEq] at h
    obtain ⟨_, _, _, hnew, rfl, rfl⟩ := h
    exact .inr ⟨rfl, lookup_eq_none.mp (Option.isNone_iff_eq_none.mp hnew), rfl⟩

end Inversions

/-- Where offers have ids of their own, the transaction enters or decides open ones. -/
def Dockets (db db' : DB) : Prop :=
  (db.handoffs.map Handoff.handoffId).Nodup →
    Docket.Steps Handoff.handoffId Handoff.terms Handoff.isOpen db.handoffs db'.handoffs

section Steps
variable {i reason handoffId : String} {now : Stamp} {reply : Reply}

theorem Dockets.of_eq (h : db'.handoffs = db.handoffs) : Dockets db db' := by
  intro _
  rw [h]

theorem Dockets.trans {db'' : DB} (h : Dockets db db') (h' : Dockets db' db'') : Dockets db db'' :=
  fun hn => (h hn).trans (h' (Docket.Steps.distinct hn (h hn)))

theorem decided_dockets {hd : Handoff} {db₁ : DB} {status : HandoffStatus} {by_ : String}
    (hdec : Decides db handoffId now hd) (hkept : db₁.handoffs = db.handoffs)
    (h : db'.handoffs = (decideHandoff db₁ handoffId status by_ reason).handoffs) : Dockets db db' := by
  intro hn
  rw [h, decideHandoff, DB.setHandoff, hkept]
  refine Relation.ReflTransGen.single (.decide _ _ _ ?_ (fun _ => rfl) (fun _ => rfl))
  intro q hq hid
  have he : q = hd := List.inj_on_of_nodup_map hn hq hdec.mem ((of_decide_eq_true hid).trans hdec.named.symm)
  rw [he]
  exact hdec.offered

theorem voided_dockets {db₁ : DB} (hkept : db₁.handoffs = db.handoffs)
    (h : db'.handoffs = (voidOpenHandoffs db₁ i reason).handoffs) : Dockets db db' := by
  intro _
  rw [h, voidOpenHandoffs, hkept]
  refine Relation.ReflTransGen.single (.decide _ _ _ ?_ (fun _ => rfl) (fun _ => rfl))
  intro q _ hq
  exact (of_decide_eq_true hq).2

theorem acceptSubject_handoffs {hd : Handoff} {driver : String} {fence : Int} {ids : Nat → String}
    {c : Option Claim} (h : acceptSubject host db caller hd driver fence now ids = .ok (c, db')) :
    db'.handoffs = db.handoffs := by
  unfold acceptSubject at h
  split at h
  · simp only [acceptAttempt, bind_ok, pure_ok, Prod.mk.injEq] at h
    obtain ⟨attempt, _, _, _, _, _, ⟨_, db₂⟩, htr, _, rfl⟩ := h
    have htr' : Leaves [] (setOwner db attempt driver now) db₂ := transferClaims_leaves htr
    exact htr'.handoffs (by decide)
  · have hcl : Leaves [] db db' := acceptClaim_leaves h
    exact hcl.handoffs (by decide)
  · cases h

theorem takeOverAttempt_ok {fence : Int} {override : Option String} {ids : Nat → String} {row : Attempt}
    {c : Option Claim} (h : takeOverAttempt host db caller i fence reason override now ids = .ok (row, c, db')) :
    ∃ db₁, db₁.handoffs = db.handoffs ∧
      db'.handoffs = (voidOpenHandoffs db₁ i "attempt taken over").handoffs := by
  simp only [takeOverAttempt, bind_ok, pure_ok, Prod.mk.injEq] at h
  obtain ⟨_, _, _, _, driver, _, _, _, attempt, _, _, _, _, _, ⟨claim, db₁⟩, htr, _, _, _, _, rfl⟩ := h
  have htr' : Leaves [] (setOwner db attempt driver now) db₁ := transferClaims_leaves htr
  exact ⟨db₁, htr'.handoffs (by decide), rfl⟩

theorem abandonExternalAttempt_ok {r : AbandonRequest} {kept : Except StateError (String × List UInt8)}
    {row : Attempt} (h : abandonExternalAttempt host db caller r kept now = .ok (row, db')) :
    ∃ db₁, db₁.handoffs = db.handoffs ∧
      db'.handoffs = (voidOpenHandoffs db₁ r.attemptId "attempt abandoned").handoffs := by
  simp only [abandonExternalAttempt, bind_ok, pure_ok, Prod.mk.injEq] at h
  obtain ⟨reason, _, _, _, _, _, report, _, attempt, hof, _, _, _, _, db₁, hstore, _, _, _, rfl⟩ := h
  have hid : attempt.attemptId = r.attemptId := lookup_key (attemptOf_ok hof)
  have hkept : Leaves [] db db₁ := storeAbandonReport_leaves hstore
  have hstop : Leaves [] (markAbandoned db₁ attempt r.abandonKind reason now) _ :=
    stopBoundClaims_leaves _ caller.actor ("attempt abandoned: " ++ reason) attempt none
  refine ⟨_, (hstop.handoffs (by decide)).trans (hkept.handoffs (by decide)), ?_⟩
  rw [← hid]
  rfl

theorem Request.dockets {r : Request} (h : r.run host db = .ok (reply, db')) : Dockets db db' := by
  by_cases hw : Part.handoffs ∈ r.writes
  · cases r with
    | abandon caller request kept now =>
      obtain ⟨_, h⟩ := answer_ok h
      obtain ⟨db₁, hkept, hvoid⟩ := abandonExternalAttempt_ok h
      exact voided_dockets hkept hvoid
    | takeOverAttempt caller i fence reason override now ids =>
      obtain ⟨_, hx⟩ := answer_ok h
      simp only [map_ok, Prod.mk.injEq] at hx
      obtain ⟨_, hx, _, rfl⟩ := hx
      obtain ⟨db₁, hkept, hvoid⟩ := takeOverAttempt_ok hx
      exact voided_dockets hkept hvoid
    | offerHandoff caller offer retained uid now =>
      obtain ⟨row, h⟩ := answer_ok h
      rcases offerHandoff_ok h with rfl | ⟨_, hnew, hrow⟩
      · exact Dockets.of_eq rfl
      · intro _
        rw [hrow]
        exact Relation.ReflTransGen.single (.enter _ row hnew)
    | acceptHandoff caller p handoffId fence now ids =>
      obtain ⟨_, h⟩ := answer_ok h
      obtain ⟨hd, db₁, hdec, _, hsub, rfl⟩ := acceptHandoff_ok h
      exact decided_dockets hdec (acceptSubject_handoffs hsub) rfl
    | declineHandoff caller p handoffId reason now =>
      obtain ⟨hd, reason', hdec, _, hrow⟩ := declineHandoff_ok (done_ok h)
      exact decided_dockets hdec rfl hrow
    | withdrawHandoff caller p handoffId reason now =>
      rcases withdrawHandoff_ok (done_ok h) with rfl | ⟨hd, driver, hdec, _, _, hrow⟩
      · exact Dockets.of_eq rfl
      · exact decided_dockets hdec rfl hrow
    | _ => simp [Request.writes] at hw
  · exact Dockets.of_eq ((Request.leaves h).handoffs hw)

theorem Call.writes_handoffs (c : Call) : Part.handoffs ∉ c.writes := by
  cases c <;> simp [Call.writes]

theorem next_dockets (host : Host) (s : Sys) (op : Op) : Dockets s.db (next host s op).db := by
  rcases next_db host s op with he | ⟨r | ⟨call, now⟩, reply, h⟩
  · exact Dockets.of_eq (congrArg DB.handoffs he)
  · exact Request.dockets h
  · exact Dockets.of_eq ((Call.leaves h).handoffs (Call.writes_handoffs call))

theorem run_dockets (host : Host) (s : Sys) (ops : List Op) : Dockets s.db (run (next host) s ops).db := by
  induction ops generalizing s with
  | nil => exact Dockets.of_eq rfl
  | cons op ops ih => exact (next_dockets host s op).trans (ih _)

theorem after_handoffIds (host : Host) (ops : List Op) :
    ((after host ops).db.handoffs.map Handoff.handoffId).Nodup := by
  have hn : (Sys.init.db.handoffs.map Handoff.handoffId).Nodup := List.nodup_nil
  exact Docket.Steps.distinct hn (run_dockets host Sys.init ops hn)

/-- Of every offer of an earlier state a later one has the row, decided once. -/
theorem after_offers (host : Host) (xs ys : List Op) :
    Docket.Follows Handoff.handoffId Handoff.terms Handoff.isOpen (after host xs).db.handoffs
      (after host (xs ++ ys)).db.handoffs := by
  rw [after_append]
  exact Docket.Steps.follows (run_dockets host _ ys (after_handoffIds host xs))

end Steps

end AItelier.State
