import AItelier.Refine.Launch

namespace AItelier.State

open AItelier.Lib AItelier.Ledger

variable {D : Discipline} {db db' : DB} {host : Host} {i : String} {a : Attempt} {n : Node}

section Retract
variable {s : AttemptStatus} {reason : String}

theorem acceptedBy_of_rests {k : NodeId} (hn : db.node? k = some n) (h : (ledger db).Rests k i) :
    acceptedBy db n i = true := by
  obtain ⟨f, receipt, r, hf, _, hr, _, hacc, hatt⟩ := h
  have he := hf.symm.trans (ledger_fact hn)
  cases he
  have hn' : n.verifiedReceipt = some receipt := hr
  have hacc' : db.acceptance? receipt = some r := hacc
  simp [acceptedBy, hn', hacc', hatt]

theorem retractAccepted_cases (db : DB) (n : Node) (a : Attempt) (s : AttemptStatus) (reason : String) :
    (retractAccepted db n a s reason = db ∧ (s = .candidate ∨ acceptedBy db n a.attemptId = false)) ∨
    ledger (retractAccepted db n a s reason) = ledger (invalidate db a.projectId a.nodeKey) := by
  unfold retractAccepted
  by_cases h : s ≠ .candidate ∧ acceptedBy db n a.attemptId
  · right
    rw [if_pos h]
    exact ledger_core rfl
  · left
    refine ⟨if_neg h, ?_⟩
    by_cases hs : s = .candidate
    · exact .inl hs
    · right
      cases hb : acceptedBy db n a.attemptId with
      | false => rfl
      | true => exact absurd ⟨hs, hb⟩ h

theorem retractAccepted_refines : Refines D db (retractAccepted db n a s reason) := by
  rcases retractAccepted_cases db n a s reason with ⟨he, _⟩ | he
  · exact Refines.of_eq (by rw [he])
  · exact (invalidate_refines D db a.projectId a.nodeKey).trans (Refines.of_eq he)

theorem retractAccepted_attempts : (retractAccepted db n a s reason).attempts = db.attempts := by
  unfold retractAccepted
  split_ifs <;> rfl

theorem retractAccepted_evidence : (retractAccepted db n a s reason).evidence = db.evidence := by
  unfold retractAccepted
  split_ifs <;> rfl

theorem retractAccepted_attempt? : (retractAccepted db n a s reason).attempt? i = db.attempt? i := by
  rw [DB.attempt?, DB.attempt?, retractAccepted_attempts]

theorem retractAccepted_fact {k : NodeId} {f : Fact}
    (h : (ledger (retractAccepted db n a s reason)).facts k = some f) (h1 : f.status ≠ .STALE)
    (h2 : f.status ≠ .SUPERSEDED) : (ledger db).facts k = some f := by
  rcases retractAccepted_cases db n a s reason with ⟨he, _⟩ | he
  · rwa [he] at h
  · rw [he, ledger_invalidate] at h
    rcases invalidate_some h with ⟨_, g, hg, rfl⟩ | ⟨_, hf⟩
    · rcases @Fact.stale_status g with hst | ⟨hst, hsup⟩
      · exact absurd hst h1
      · rw [hst] at h2
        exact absurd hsup h2
    · exact hf

theorem retractAccepted_unrested (hn : db.node? a.node = some n) (hs : s ≠ .candidate) :
    ¬ (ledger (retractAccepted db n a s reason)).Rests a.node a.attemptId := by
  intro h
  rcases retractAccepted_cases db n a s reason with ⟨he, hc | hc⟩ | he
  · exact hs hc
  · rw [he] at h
    rw [acceptedBy_of_rests hn h] at hc
    cases hc
  · rw [he] at h
    exact invalidate_unrested h

/-- A settlement: the acceptance that stood on the attempt goes where it must,
and the attempt takes its outcome. -/
theorem settle_refines {f : Attempt → Attempt} (art : Option String) (hn : db.node? a.node = some n)
    (ha : db.attempt? a.attemptId = some a) (hf : ∀ x, (f x).attemptId = x.attemptId)
    (hnode : ∀ x, (f x).node = x.node) (ht : (f a).toTry = { a.toTry with status := s, artifact := art })
    (hset : s.active = true → a.status.active = true) (hab : a.status ≠ .abandoned) (hres : s ≠ .reserved)
    (hart : art = a.artifactRef ∨ (s.active = false ∧ (a.artifactRef = none ∨ a.status.active = true)))
    (hscope : D.scope → art ≠ a.artifactRef → a.status.active = false → ∀ e ∈ db.evidence,
      e.attemptId = a.attemptId → art = some e.artifactRef)
    (hreview : D.review → a.status = .candidate → s ≠ .candidate → n.status = .CANDIDATE →
      (db.latestAttempt a.node).map Attempt.attemptId ≠ some a.attemptId) :
    Refines D db ((retractAccepted db n a s reason).setAttempt a.attemptId f) := by
  have ha' : (retractAccepted db n a s reason).attempt? a.attemptId = some a := by
    rw [retractAccepted_attempt?]
    exact ha
  refine retractAccepted_refines.trans (setAttempt_refines ha' hf hnode ?_)
  rw [ht]
  refine ⟨rfl, rfl, rfl, rfl, hset, fun h => absurd h hab, fun h => absurd h hres, hart, .inl rfl,
    .inl ⟨rfl, Nat.le_refl _⟩, fun _ hs => retractAccepted_unrested hn hs, ?_, ?_⟩
  · intro hD hne hact e he hid
    have he' : e ∈ db.evidence := by
      have hm : e ∈ (retractAccepted db n a s reason).evidence := he
      rwa [retractAccepted_evidence] at hm
    exact hscope hD hne hact e he' hid
  · intro hD hc hs g hg hgc hlatest
    have hg' := retractAccepted_fact hg (by rw [hgc]; decide) (by rw [hgc]; decide)
    have he := hg'.symm.trans (ledger_fact hn)
    cases he
    refine hreview hD hc hs hgc ?_
    have hl : ((retractAccepted db n a s reason).latestAttempt a.node).map Attempt.attemptId =
      some a.attemptId := hlatest
    rwa [DB.latestAttempt, retractAccepted_attempts] at hl

/-- A node is offered for review: a step, unless it was already. -/
theorem offer_refines {k : NodeId} {f : Node → Node} (hn : db.node? k = some n) (hid : ∀ m, (f m).id = m.id)
    (hf : f n = { n with status := .CANDIDATE }) (hv : n.status ≠ .VERIFIED) (ho : n.status ≠ .SUPERSEDED)
    (hr : D.review → n.status = .CANDIDATE ∨
      ∃ j t, (ledger db).latest k = some j ∧ (ledger db).tries j = some t ∧ t.status = .candidate) :
    Refines D db (db.setNode k f) := by
  have hset := ledger_setNode hn hid
  rw [hf] at hset
  by_cases hc : n.status = .CANDIDATE
  · refine Refines.of_eq ?_
    have hsame : ({ n with status := .CANDIDATE } : Node).fact = n.fact := by
      simp [Node.fact, hc]
    rw [hset, hsame, Ledger.setFact, ← ledger_fact hn, Function.update_eq_self]
  · refine Refines.of_step ?_
    rw [hset]
    refine .offer k n.fact (ledger_fact hn) hv ho (fun hD => ?_)
    rcases hr hD with h | h
    · exact absurd h hc
    · exact h

end Retract

theorem isLatest_iff : isLatest db a = true ↔ (ledger db).latest a.node = some a.attemptId := by
  simp [isLatest, ledger]

section Reconcile

/-- The artifact a reconcile pins late is the one the evidence already names. -/
def ReconcileCall.ScopeSafe (db : DB) (call : ReconcileCall) : Prop :=
  ∀ a ∈ db.attempt? call.attemptId, ∀ n ∈ db.node? a.node, call.status = .candidate →
    pinsMatch db n a = true → a.artifactRef = none → ∀ c ∈ call.candidateArtifact,
    ∀ e ∈ db.evidence, e.attemptId = call.attemptId → e.artifactRef = c

instance (db : DB) (call : ReconcileCall) : Decidable (call.ScopeSafe db) :=
  inferInstanceAs (Decidable (∀ a ∈ db.attempt? call.attemptId, ∀ n ∈ db.node? a.node, _))

/-- The node's latest attempt is a candidate. -/
def latestIsCandidate (db : DB) (k : NodeId) : Bool :=
  ((db.latestAttempt k).bind (fun b => db.attempt? b.attemptId)).any (fun b => decide (b.status = .candidate))

/-- The reconcile newly records a candidate: the status, or only its artifact. -/
def ReconcileCall.Records (db : DB) (call : ReconcileCall) (a : Attempt) (n : Node) : Prop :=
  call.status = .candidate ∧ pinsMatch db n a = true ∧
    (a.status ≠ .candidate ∨ (a.artifactRef = none ∧ call.candidateArtifact.isSome))

/-- The reconcile takes back the latest candidate of an offered node. -/
def ReconcileCall.Withdraws (db : DB) (call : ReconcileCall) (a : Attempt) (n : Node) : Prop :=
  a.status = .candidate ∧ n.status = .CANDIDATE ∧ isLatest db a = true ∧ call.status.terminal = true ∧
    ¬ (call.status = .candidate ∧ pinsMatch db n a = true)

instance (db : DB) (call : ReconcileCall) (a : Attempt) (n : Node) : Decidable (call.Records db a n) :=
  inferInstanceAs (Decidable (_ ∧ _))

instance (db : DB) (call : ReconcileCall) (a : Attempt) (n : Node) : Decidable (call.Withdraws db a n) :=
  inferInstanceAs (Decidable (_ ∧ _))

/-- A newly recorded candidate leaves the latest attempt one, where the node is
not offered or verified already; and no offered candidate is taken back. -/
def ReconcileCall.ReviewSafe (db : DB) (call : ReconcileCall) : Prop :=
  ∀ a ∈ db.attempt? call.attemptId, ∀ n ∈ db.node? a.node,
    (call.Records db a n → n.status = .VERIFIED ∨ n.status = .CANDIDATE ∨ isLatest db a = true ∨
      latestIsCandidate db a.node = true) ∧ ¬ call.Withdraws db a n

instance (db : DB) (call : ReconcileCall) : Decidable (call.ReviewSafe db) :=
  inferInstanceAs (Decidable (∀ a ∈ db.attempt? call.attemptId, ∀ n ∈ db.node? a.node, _))

theorem latestIsCandidate_iff {k : NodeId} : latestIsCandidate db k = true ↔
    ∃ j t, (ledger db).latest k = some j ∧ (ledger db).tries j = some t ∧ t.status = .candidate := by
  simp only [latestIsCandidate, Option.any_eq_true, Option.bind_eq_some_iff, decide_eq_true_eq, ledger,
    Option.map_eq_some_iff]
  constructor
  · rintro ⟨b, ⟨x, hx, hb⟩, hs⟩
    exact ⟨x.attemptId, b.toTry, ⟨x, hx, rfl⟩, ⟨b, hb, rfl⟩, hs⟩
  · rintro ⟨j, t, ⟨x, hx, rfl⟩, ⟨b, hb, rfl⟩, hs⟩
    exact ⟨b, ⟨x, hx, hb⟩, hs⟩

theorem ReportStatus.status_ne_reserved (s : ReportStatus) : s.status ≠ .reserved := by
  cases s <;> decide

theorem ReportStatus.terminal_iff (s : ReportStatus) : s.terminal = true ↔ s.status.active = false := by
  cases s <;> decide

theorem reconciledStatus_ne_reserved (call : ReconcileCall) (fresh : Bool) :
    reconciledStatus call fresh ≠ .reserved := by
  unfold reconciledStatus
  split_ifs
  · decide
  · exact call.status.status_ne_reserved

variable {call : ReconcileCall} {fresh : Bool} {art : Option String}

theorem reconciledStatus_candidate :
    reconciledStatus call fresh = .candidate ↔ call.status = .candidate ∧ fresh = true := by
  unfold reconciledStatus
  cases hs : call.status <;> cases fresh <;> decide

theorem reconciledStatus_terminal (call : ReconcileCall) (fresh : Bool)
    (h : (reconciledStatus call fresh).active = false) : call.status.terminal = true := by
  unfold reconciledStatus at h
  cases hs : call.status <;> cases fresh <;> rw [hs] at h <;> first | rfl | cases h

theorem reconciledArtifact_ok {s : AttemptStatus}
    (h : reconciledArtifact call a s = .ok art) :
    art = a.artifactRef ∨ (s = .candidate ∧ a.artifactRef = none ∧ art = call.candidateArtifact ∧
      call.candidateArtifact.isSome) := by
  unfold reconciledArtifact at h
  split at h
  · next c hc =>
    simp only [ite_ok, bind_ok, ensure_ok, pure_ok] at h
    obtain ⟨hs, _, hall, rfl⟩ | ⟨_, rfl⟩ := h
    · cases hart : a.artifactRef with
      | none => exact .inr ⟨hs, rfl, hc.symm, by simp [hc]⟩
      | some x => exact .inl (by rw [hall x (by simp [hart])])
    · exact .inl rfl
  · rw [pure_ok] at h
    exact .inl h.symm

/-- What the write half of `reconcile` found and judged. -/
structure Reconciled (db : DB) (call : ReconcileCall) (a : Attempt) (n : Node) (fresh : Bool)
    (art : Option String) : Prop where
  found : db.attempt? call.attemptId = some a
  node : db.node? a.node = some n
  pins : fresh = pinsMatch db n a
  settled : (reconciledStatus call fresh).active = true → a.status.active = true
  standing : a.status ≠ .abandoned
  artifact : reconciledArtifact call a (reconciledStatus call fresh) = .ok art

/-- The observation changed the row, or at least it is no candidate. -/
def Reconciles (call : ReconcileCall) (a : Attempt) (fresh : Bool) (art : Option String) : Prop :=
  a.status ≠ reconciledStatus call fresh ∨ art ≠ a.artifactRef ∨ reconciledStatus call fresh ≠ .candidate

theorem reconcileWrite_ok {row : Attempt} {stale : Bool}
    (h : reconcileWrite db call = .ok (row, stale, db')) :
    ∃ a n fresh art, Reconciled db call a n fresh art ∧
      (db'.body = db.body ∨ (Reconciles call a fresh art ∧
        db'.body = (writeReconciled db n a (reconciledStatus call fresh) art call.row fresh).body)) := by
  simp only [reconcileWrite, bind_ok, ensure_ok, pure_ok, Prod.mk.injEq] at h
  obtain ⟨a, hatt, _, hrun, fresh, hpins, _, hrevive, _, hab, art, hart, n, hnode, row', _, _, _, hdb⟩ := h
  obtain ⟨n', hn', rfl⟩ := pinsCurrent_ok hpins
  have hn := nodeOf_ok hnode
  have he : n' = n := Option.some.inj (hn'.symm.trans hn)
  subst he
  refine ⟨a, n', _, art, ⟨attemptOf_ok hatt, hn', rfl, ?_, hab, hart⟩, ?_⟩
  · intro hs
    cases hact : a.status.active with
    | true => rfl
    | false => exact absurd ⟨hact, hs⟩ hrevive
  · have hrelease : ∀ (c : Bool) (x : DB) (actor : String) (st : AttemptStatus),
        (if c = true then releaseBoundClaims x a actor st else x).body = x.body := by
      intro c x actor st
      cases c
      · rfl
      · exact releaseBoundClaims_body ..
    rw [← hdb, hrelease]
    split_ifs with hch
    · refine .inr ⟨?_, rfl⟩
      simp only [attentionChanged, Bool.or_eq_true, Bool.and_eq_true, decide_eq_true_eq] at hch
      rcases hch with (hs | hs) | ⟨hs | hs | hs, _⟩
      · exact .inl hs
      · exact .inr (.inl hs)
      · exact .inr (.inr (by rw [hs]; decide))
      · exact .inr (.inr (by rw [hs]; decide))
      · exact .inr (.inr (by rw [hs]; decide))
    · exact .inl rfl

theorem Reconciled.settle (row : EngineRow)
    (hscope : D.scope → call.ScopeSafe db) (hreview : D.review → call.ReviewSafe db)
    (h : Reconciled db call a n fresh art) :
    Refines D db (settleRun db n a (reconciledStatus call fresh) art row) := by
  have hid := attempt_id h.found
  have ha : db.attempt? a.attemptId = some a := hid ▸ h.found
  refine settle_refines art h.node ha (fun _ => rfl) (fun _ => rfl) rfl h.settled h.standing
    (reconciledStatus_ne_reserved call fresh) ?_ ?_ ?_
  · rcases reconciledArtifact_ok h.artifact with he | ⟨hs, hnone, _⟩
    · exact .inl he
    · exact .inr ⟨by rw [hs]; rfl, .inl hnone⟩
  · intro hD hne _ e he hea
    rcases reconciledArtifact_ok h.artifact with heq | ⟨hs, hnone, hart, hsome⟩
    · exact absurd heq hne
    · obtain ⟨hcand, hfresh⟩ := reconciledStatus_candidate.mp hs
      obtain ⟨c, hc⟩ := Option.isSome_iff_exists.mp hsome
      have hec := hscope hD a h.found n h.node hcand (h.pins.symm.trans hfresh) hnone c hc e he (hea.trans hid)
      rw [hart, hc, hec]
  · intro hD hc hs hcand hlatest
    have hterm : call.status.terminal = true := by
      refine reconciledStatus_terminal call fresh ?_
      cases hact : (reconciledStatus call fresh).active with
      | false => rfl
      | true =>
        have hbad := h.settled hact
        rw [hc] at hbad
        cases hbad
    have hlat : isLatest db a = true := isLatest_iff.mpr hlatest
    refine (hreview hD a h.found n h.node).2 ⟨hc, hcand, hlat, hterm, ?_⟩
    rintro ⟨h1, h2⟩
    exact hs (reconciledStatus_candidate.mpr ⟨h1, h.pins.trans h2⟩)

/-- A settled candidate leaves its node where it was. -/
theorem settleRun_candidate (art : Option String) (row : EngineRow) (ha : db.attempt? a.attemptId = some a)
    (hn : db.node? a.node = some n) :
    (settleRun db n a .candidate art row).node? a.node = some n ∧
    (ledger (settleRun db n a .candidate art row)).latest = (ledger db).latest ∧
    (ledger (settleRun db n a .candidate art row)).tries =
      Function.update (ledger db).tries a.attemptId (some (settledRow .candidate art row a).toTry) := by
  have hsame : settleRun db n a .candidate art row =
      db.setAttempt a.attemptId (settledRow .candidate art row) := by
    simp [settleRun, retractAccepted]
  have hl := ledger_setAttempt (f := settledRow .candidate art row) ha (fun _ => rfl) (fun _ => rfl)
  rw [hsame]
  refine ⟨hn, ?_, ?_⟩
  · rw [hl]
    rfl
  · rw [hl]
    rfl

theorem Reconciled.offer (row : EngineRow)
    (hreview : D.review → call.ReviewSafe db) (h : Reconciled db call a n fresh art)
    (hch : Reconciles call a fresh art) (hs : reconciledStatus call fresh = .candidate) :
    Refines D (settleRun db n a .candidate art row)
      ((settleRun db n a .candidate art row).setNode a.node offerCandidate) := by
  obtain ⟨hcand, hfresh⟩ := reconciledStatus_candidate.mp hs
  have hpins : pinsMatch db n a = true := h.pins.symm.trans hfresh
  have hid : ∀ m, (offerCandidate m).id = m.id := by
    intro m
    unfold offerCandidate
    split_ifs <;> rfl
  obtain ⟨hn, hlatest, htry⟩ := settleRun_candidate art row (attempt_id h.found ▸ h.found) h.node
  by_cases hv : n.status = .VERIFIED
  · have hsame : offerCandidate n = n := by
      rw [offerCandidate, if_pos hv]
    refine Refines.of_eq ?_
    rw [ledger_setNode hn hid, hsame, Ledger.setFact, ← ledger_fact hn, Function.update_eq_self]
  · refine offer_refines hn hid (by rw [offerCandidate, if_neg hv]) hv (pinsMatch_open hpins) ?_
    intro hD
    have hnew : a.status ≠ .candidate ∨ (a.artifactRef = none ∧ call.candidateArtifact.isSome) := by
      rcases hch with hne | hne | hne
      · exact .inl (hs ▸ hne)
      · rcases reconciledArtifact_ok h.artifact with heq | ⟨_, hnone, _, hsome⟩
        · exact absurd heq hne
        · exact .inr ⟨hnone, hsome⟩
      · exact absurd hs hne
    rcases (hreview hD a h.found n h.node).1 ⟨hcand, hpins, hnew⟩ with h1 | h1 | h1 | h1
    · exact absurd h1 hv
    · exact .inl h1
    · rw [hlatest, htry]
      exact .inr ⟨a.attemptId, _, isLatest_iff.mp h1, Function.update_self .., rfl⟩
    · obtain ⟨j, t, hj, ht, hst⟩ := latestIsCandidate_iff.mp h1
      rw [hlatest, htry]
      by_cases hja : j = a.attemptId
      · subst hja
        exact .inr ⟨a.attemptId, _, hj, Function.update_self .., rfl⟩
      · exact .inr ⟨j, t, hj, by rw [Function.update_of_ne hja]; exact ht, hst⟩

theorem writeReconciled_refines {row : EngineRow}
    (hscope : D.scope → call.ScopeSafe db) (hreview : D.review → call.ReviewSafe db)
    (h : Reconciled db call a n fresh art) (hch : Reconciles call a fresh art) :
    Refines D db (writeReconciled db n a (reconciledStatus call fresh) art row fresh) := by
  have hsettle := h.settle row hscope hreview
  by_cases hs : reconciledStatus call fresh = .candidate
  · have hoffer := h.offer row hreview hch hs
    rw [hs] at hsettle ⊢
    exact (hsettle.trans hoffer).event
  · simp only [writeReconciled, hs, if_false]
    exact hsettle.event

theorem reconcileWrite_refines {row : Attempt} {stale : Bool}
    (hscope : D.scope → call.ScopeSafe db) (hreview : D.review → call.ReviewSafe db)
    (h : reconcileWrite db call = .ok (row, stale, db')) : Refines D db db' := by
  obtain ⟨a, n, fresh, art, hrec, hbody | ⟨hch, hbody⟩⟩ := reconcileWrite_ok h
  · exact Refines.of_body hbody
  · exact (writeReconciled_refines hscope hreview hrec hch).trans (Refines.of_body hbody)

end Reconcile

section Observe

/-- A report does not withdraw the latest candidate of an offered node. -/
def ObserveCall.ReviewSafe (db : DB) (call : ObserveCall) : Prop :=
  ∀ a ∈ db.attempt? call.request.attemptId, ∀ n ∈ db.node? a.node, a.status = .candidate →
    n.status = .CANDIDATE → isLatest db a = true → call.request.status ≠ .failed

instance (db : DB) (call : ObserveCall) : Decidable (call.ReviewSafe db) :=
  inferInstanceAs (Decidable (∀ a ∈ db.attempt? call.request.attemptId, ∀ n ∈ db.node? a.node, _))

/-- A report is late exactly on an abandoned attempt. -/
theorem authorizeReport_late {caller : Caller} {fence : Option Int} {late : Bool}
    (h : authorizeReport db caller a fence = .ok late) : late = decide (a.status = .abandoned) := by
  unfold authorizeReport at h
  dsimp only at h
  split at h
  · by_cases hab : a.status = .abandoned
    · simp only [hab, if_true, bind_ok, pure_ok] at h
      obtain ⟨_, _, rfl⟩ := h
      simp [hab]
    · simp only [hab, if_false, ite_ok, throw_ok, and_false, or_self, false_or] at h
      obtain ⟨_, h⟩ := h
      split at h
      · simp only [bind_ok, pure_ok] at h
        obtain ⟨_, _, rfl⟩ := h
        simp [hab]
      · simp only [bind_ok, pure_ok] at h
        obtain ⟨_, _, rfl⟩ := h
        simp [hab]
  · simp only [bind_ok, pure_ok] at h
    obtain ⟨_, _, _, _, rfl⟩ := h
    rfl

variable {call : ObserveCall} {row : Observation} {now : Stamp}

theorem storeReport_core (h : storeReport db call = .ok db') : db'.core = db.core := by
  unfold storeReport at h
  split at h
  · exact storeReportBlob_core h
  · rw [pure_ok] at h
    subst h
    rfl

theorem storeCandidate_core {artifact : Option GitArtifact} (h : storeCandidate db artifact = .ok db') :
    db'.core = db.core := by
  unfold storeCandidate at h
  split at h
  · rw [pure_ok] at h
    subst h
    rfl
  · split at h
    · simp only [bind_ok, pure_ok] at h
      obtain ⟨_, _, rfl⟩ := h
      rfl
    · rw [pure_ok] at h
      subst h
      rfl

theorem appendObservation_core
    (h : appendObservation db call row = .ok db') : db'.core = db.core := by
  simp only [appendObservation, bind_ok, pure_ok] at h
  obtain ⟨db₁, h₁, db₂, h₂, _, _, rfl⟩ := h
  exact (storeCandidate_core h₂).trans (storeReport_core h₁)

/-- What the write half of `observe` found and judged before it wrote a row. -/
structure Reported (host : Host) (db : DB) (call : ObserveCall) (a : Attempt) (n : Node) (late : Bool)
    (row : Observation) : Prop where
  found : db.attempt? call.request.attemptId = some a
  external : a.executionKind = .external
  authorized : authorizeReport db call.caller a call.request.fence = .ok late
  node : db.node? a.node = some n
  new : observation? db call.request.attemptId call.request.observationId = none
  version : (a.observationVersion : Int) = call.request.expectedVersion
  unsettled : a.status ≠ .failed ∧ a.status ≠ .superseded
  retracts : a.status = .candidate → call.request.status = .failed
  fresh : call.request.status = .candidate → ∀ o ∈ db.observations, o.reportSha256 ≠ call.request.reportSha256
  row : row = observationRow host call a (if late || (call.request.status.terminal && !pinsMatch db n a) then
    .superseded else call.request.status.status) late

/-- The outcomes of a committed report: a replay, a late row, or one that counts. -/
inductive ReportResult (host : Host) (db : DB) (call : ObserveCall) (now : Stamp) : DB → Prop
  | replayed : ReportResult host db call now (markBack db call.caller.driverId now)
  | late (a : Attempt) (n : Node) (row : Observation) (db₁ : DB)
      (reported : Reported host (markBack db call.caller.driverId now) call a n true row)
      (appended : appendObservation (markBack db call.caller.driverId now) call row = .ok db₁) :
      ReportResult host db call now (writeLate db₁ call a row
        (pinsMatch (markBack db call.caller.driverId now) n a) now)
  | counted (a : Attempt) (n : Node) (row : Observation) (db₁ : DB)
      (reported : Reported host (markBack db call.caller.driverId now) call a n false row)
      (appended : appendObservation (markBack db call.caller.driverId now) call row = .ok db₁) :
      ReportResult host db call now
        (writeObserved db₁ call a row n (pinsMatch (markBack db call.caller.driverId now) n a) now)

theorem observeWrite_result {out : Attempt} {o : Observation}
    (h : observeWrite host db call now = .ok (out, o, db')) : ReportResult host db call now db' := by
  simp only [observeWrite, bind_ok, ensure_ok] at h
  obtain ⟨a, hatt, _, hext, late, hauth, _, _, h⟩ := h
  split at h
  · simp only [bind_ok, pure_ok, Prod.mk.injEq] at h
    obtain ⟨_, _, _, _, rfl⟩ := h
    exact .replayed
  · next hnew =>
    simp only [bind_ok, ensure_ok, whenever_ok, freshReport] at h
    obtain ⟨_, _, _, hver, _, hun, _, hret, _, hfresh, current, hpins, db₁, happ, h⟩ := h
    obtain ⟨n, hn, rfl⟩ := pinsCurrent_ok hpins
    have hrep : Reported host (markBack db call.caller.driverId now) call a n late (observationRow host call a
        (if late || (call.request.status.terminal && !pinsMatch (markBack db call.caller.driverId now) n a) then
          .superseded else call.request.status.status) late) := by
      refine ⟨attemptOf_ok hatt, hext, hauth, hn, hnew, hver, hun, hret, ?_, rfl⟩
      intro hc o ho hsha
      exact hfresh hc (List.any_eq_true.mpr ⟨o, ho, decide_eq_true hsha⟩)
    cases late with
    | true =>
      simp only [if_true, bind_ok, pure_ok, Prod.mk.injEq] at h
      obtain ⟨_, _, _, _, rfl⟩ := h
      exact .late a n _ db₁ hrep happ
    | false =>
      simp only [Bool.false_eq_true, if_false, bind_ok, pure_ok, Prod.mk.injEq] at h
      obtain ⟨_, _, node, hnode, _, _, _, _, rfl⟩ := h
      have hn' : db₁.node? a.node = some n := by
        rw [core_node? (appendObservation_core happ)]
        exact hn
      have he : node = n := Option.some.inj ((nodeOf_ok hnode).symm.trans hn')
      subst he
      exact .counted a node _ db₁ hrep happ

theorem settleAbandoned_core (db : DB) (r : ObserveRequest) (a : Attempt) (now : Stamp) :
    (settleAbandoned db r a now).core = db.core := by
  unfold settleAbandoned
  split_ifs <;> rfl

theorem writeLate_ledger (db : DB) (call : ObserveCall) (a : Attempt) (row : Observation) (current : Bool)
    (now : Stamp) : ledger (writeLate db call a row current now) = ledger db := by
  have hset : ledger (db.setAttempt a.attemptId (fun x => { x with observationVersion := row.version })) =
    ledger db := ledger_setAttempt_same (fun _ => rfl) (fun _ => rfl)
  rw [← hset]
  exact ledger_core (settleAbandoned_core _ call.request a now)

theorem releaseSettled_body (db : DB) (call : ObserveCall) (a : Attempt) (row : Observation) :
    (releaseSettled db call a row).body = db.body := by
  unfold releaseSettled
  split_ifs
  · exact releaseBoundClaims_body ..
  · rfl

theorem Reported.standing
    (h : Reported host db call a n false row) : a.status ≠ .abandoned := by
  have hl := authorizeReport_late h.authorized
  simpa using hl

theorem Reported.active_or_candidate
    (h : Reported host db call a n false row) : a.status.active = true ∨ a.status = .candidate := by
  have h1 := h.standing
  obtain ⟨h2, h3⟩ := h.unsettled
  cases hs : a.status with
  | candidate => exact .inr rfl
  | failed => exact absurd hs h2
  | superseded => exact absurd hs h3
  | abandoned => exact absurd hs h1
  | reserved => exact .inl rfl
  | launching => exact .inl rfl
  | running => exact .inl rfl
  | paused => exact .inl rfl
  | unknown => exact .inl rfl

theorem Reported.resulting (h : Reported host db call a n false row) :
    (row.resultingStatus = .superseded ∧ call.request.status.terminal = true) ∨
    (row.resultingStatus = call.request.status.status ∧
      (call.request.status.terminal = true → pinsMatch db n a = true)) := by
  rw [h.row]
  simp only [observationRow, Bool.false_or]
  split_ifs with hc
  · rw [Bool.and_eq_true] at hc
    exact .inl ⟨rfl, hc.1⟩
  · refine .inr ⟨rfl, ?_⟩
    intro ht
    cases hp : pinsMatch db n a with
    | true => rfl
    | false => exact absurd (by simp [ht, hp]) hc

theorem Reported.settle {db₁ : DB}
    (h : Reported host db call a n false row) (hc₁ : db₁.core = db.core)
    (hreview : D.review → a.status = .candidate → n.status = .CANDIDATE → isLatest db a = true →
      call.request.status ≠ .failed) :
    Refines D db₁ (settleObserved db₁ call.request a row n now) := by
  have hid := attempt_id h.found
  have hcore : (settleOwner db₁ a.attemptId (ownerStatusOf row.resultingStatus) now).core = db.core := hc₁
  have ha : (settleOwner db₁ a.attemptId (ownerStatusOf row.resultingStatus) now).attempt? a.attemptId =
      some a := by
    rw [core_attempt? hcore, hid]
    exact h.found
  have hn : (settleOwner db₁ a.attemptId (ownerStatusOf row.resultingStatus) now).node? a.node = some n := by
    rw [core_node? hcore]
    exact h.node
  have hterm : call.request.status.terminal = true → row.resultingStatus.active = false := by
    intro ht
    rcases h.resulting with ⟨hr, _⟩ | ⟨hr, _⟩
    · rw [hr]; rfl
    · rw [hr]
      exact (ReportStatus.terminal_iff _).mp ht
  have hcand : a.status = .candidate → row.resultingStatus.active = false := by
    intro hc
    exact hterm (by rw [h.retracts hc]; rfl)
  refine (Refines.of_core (hcore.trans hc₁.symm)).trans ?_
  refine settle_refines (if call.request.status = .candidate then call.request.artifact else a.artifactRef)
    hn ha (fun _ => rfl) (fun _ => rfl) rfl ?_ h.standing ?_ ?_ ?_ ?_
  · intro hact
    rcases h.active_or_candidate with hs | hs
    · exact hs
    · rw [hcand hs] at hact
      cases hact
  · rcases h.resulting with ⟨hr, _⟩ | ⟨hr, _⟩
    · rw [hr]; decide
    · rw [hr]
      exact ReportStatus.status_ne_reserved _
  · by_cases hc : call.request.status = .candidate
    · right
      refine ⟨hterm (by rw [hc]; rfl), ?_⟩
      rcases h.active_or_candidate with hs | hs
      · exact .inr hs
      · have hf := h.retracts hs
        rw [hc] at hf
        cases hf
    · left
      rw [if_neg hc]
  · intro _ hne hact
    by_cases hc : call.request.status = .candidate
    · rcases h.active_or_candidate with hs | hs
      · rw [hact] at hs
        cases hs
      · have hf := h.retracts hs
        rw [hc] at hf
        cases hf
    · rw [if_neg hc] at hne
      exact absurd rfl hne
  · intro hD hc _ hnc hl
    rw [DB.latestAttempt, core_attempts hcore] at hl
    exact hreview hD hc hnc (isLatest_iff.mpr hl) (h.retracts hc)

/-- A report offers the node only on its latest attempt, which is then a candidate. -/
theorem Reported.offer {db₁ : DB}
    (h : Reported host db call a n false row) (hc₁ : db₁.core = db.core) :
    Refines D (settleObserved db₁ call.request a row n now)
      (offerObserved (settleObserved db₁ call.request a row n now) a row n) := by
  unfold offerObserved
  split_ifs with hc
  · obtain ⟨hs, hl, hv⟩ := hc
    have hopen : n.status ≠ .SUPERSEDED := by
      rcases h.resulting with ⟨hr, _⟩ | ⟨hr, hpins⟩
      · rw [hs] at hr
        cases hr
      · refine pinsMatch_open (hpins ((ReportStatus.terminal_iff _).mpr ?_))
        rw [← hr, hs]
        rfl
    have hsame : settleObserved db₁ call.request a row n now =
        (settleOwner db₁ a.attemptId (ownerStatusOf row.resultingStatus) now).setAttempt a.attemptId
          (observedRow call.request row) := by
      simp [settleObserved, retractAccepted, hs]
    have hcore : (settleOwner db₁ a.attemptId (ownerStatusOf row.resultingStatus) now).core = db.core := hc₁
    have hn : (settleObserved db₁ call.request a row n now).node? a.node = some n := by
      rw [hsame]
      exact (core_node? hcore a.node).trans h.node
    have htry : (settleObserved db₁ call.request a row n now).attempt? a.attemptId =
        some (observedRow call.request row a) := by
      rw [hsame, setAttempt_attempt? (observedRow call.request row) (fun _ => rfl), if_pos rfl,
        core_attempt? hcore, attempt_id h.found, h.found]
      rfl
    refine offer_refines hn (fun _ => rfl) rfl hv hopen (fun _ => .inr ?_)
    exact ⟨a.attemptId, _, isLatest_iff.mp hl, ledger_try htry, hs⟩
  · exact Refines.refl _

theorem observeWrite_refines {out : Attempt} {o : Observation}
    (hreview : D.review → call.ReviewSafe db) (h : observeWrite host db call now = .ok (out, o, db')) :
    Refines D db db' := by
  have hback := markBack_body db call.caller.driverId now
  have hbackCore := core_of_body hback
  cases observeWrite_result h with
  | replayed => exact Refines.of_body hback
  | late a n row db₁ reported appended =>
    refine Refines.of_eq ?_
    rw [writeLate_ledger, ledger_core (appendObservation_core appended), ledger_core hbackCore]
  | counted a n row db₁ reported appended =>
    have hcore := appendObservation_core appended
    have hsettle : Refines D db₁ (settleObserved db₁ call.request a row n now) := by
      refine reported.settle hcore (fun hD hc hnc hl => ?_)
      have hfound := reported.found
      have hnode := reported.node
      rw [core_attempt? hbackCore] at hfound
      rw [core_node? hbackCore] at hnode
      refine hreview hD a hfound n hnode hc hnc ?_
      rw [isLatest_iff] at hl ⊢
      rw [← hl, ledger_core hbackCore]
    have hstart : Refines D db db₁ := Refines.of_core (hcore.trans hbackCore)
    have hwrite := hstart.trans (hsettle.trans (reported.offer hcore))
    exact hwrite.event.trans (Refines.of_body (releaseSettled_body ..))

end Observe

end AItelier.State
