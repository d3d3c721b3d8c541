import AItelier.Refine.Settle

namespace AItelier.State

open AItelier.Lib AItelier.Ledger

variable {D : Discipline} {db db' : DB} {host : Host} {i : String} {a : Attempt} {n : Node}

section Eligible

theorem isHexOf_ne_empty {k : Nat} {s : String} (hk : 0 < k) (h : isHexOf k s = true) : s ≠ "" := by
  rintro rfl
  simp only [isHexOf, isHexList, Bool.and_eq_true, decide_eq_true_eq] at h
  have hl : "".toList.length = 0 := by decide
  omega

theorem artifactRef_ne_empty {s out : String} (h : artifactRef s = .ok out) : s ≠ "" := by
  simp only [artifactRef, bind_ok, ensure_ok] at h
  obtain ⟨_, hh | hh, _⟩ := h
  · exact isHexOf_ne_empty (by decide) hh
  · exact isHexOf_ne_empty (by decide) hh

/-- What passing `_eligible_candidate` means. -/
theorem eligibleCandidate_ok {u : Unit} (h : eligibleCandidate host db a = .ok u) :
    a.status = .candidate ∧ truthy a.artifactRef = true ∧
    (∃ n, db.node? a.node = some n ∧ pinsMatch db n a = true) ∧ isLatest db a = true := by
  simp only [eligibleCandidate, bind_ok, ensure_ok] at h
  obtain ⟨_, _, _, ⟨hs, ht⟩, fresh, hpins, _, hfresh, hl⟩ := h
  obtain ⟨n, hn, rfl⟩ := pinsCurrent_ok hpins
  exact ⟨hs, ht, ⟨n, hn, hfresh⟩, hl⟩

theorem eligibleFailedEvidence_ok {artifact : String} {engine : Option EngineAnswer} {u : Unit}
    (h : eligibleFailedEvidence host db a artifact engine = .ok u) :
    (∃ n, db.node? a.node = some n ∧ pinsMatch db n a = true) ∧ isLatest db a = true ∧
    ∀ s ∈ failedScope db a, s = "" ∨ s = artifact := by
  unfold eligibleFailedEvidence at h
  cases hk : a.executionKind with
  | skillflow =>
    simp only [hk, bind_ok, ensure_ok] at h
    obtain ⟨_, _, fresh, hpins, _, hfresh, _, hl, hscope⟩ := h
    obtain ⟨n, hn, rfl⟩ := pinsCurrent_ok hpins
    exact ⟨⟨n, hn, hfresh⟩, hl, hscope⟩
  | external =>
    simp only [hk, bind_ok, ensure_ok] at h
    obtain ⟨_, _, fresh, hpins, _, hfresh, _, hl, hscope⟩ := h
    obtain ⟨n, hn, rfl⟩ := pinsCurrent_ok hpins
    exact ⟨⟨n, hn, hfresh⟩, hl, hscope⟩

theorem evidenceGuard_ok {r : EvidenceRequest} {u : Unit} (h : evidenceGuard host db a r = .ok u) :
    (∃ n, db.node? a.node = some n ∧ pinsMatch db n a = true) ∧ isLatest db a = true ∧
    ((a.status = .failed ∧ ∀ s ∈ failedScope db a, s = "" ∨ s = r.artifact) ∨
      (a.status = .candidate ∧ truthy a.artifactRef = true ∧ a.artifactRef = some r.artifact)) := by
  simp only [evidenceGuard, ite_ok, bind_ok, ensure_ok] at h
  rcases h with ⟨hs, _, _, _, helig, _⟩ | ⟨_, _, helig, hart⟩
  · obtain ⟨hpins, hl, hscope⟩ := eligibleFailedEvidence_ok helig
    exact ⟨hpins, hl, .inl ⟨hs, hscope⟩⟩
  · obtain ⟨hs, ht, hpins, hl⟩ := eligibleCandidate_ok helig
    exact ⟨hpins, hl, .inr ⟨hs, ht, hart⟩⟩

end Eligible

section Evidence
variable {r r' : EvidenceRequest}

theorem storeOptionalBlob_core (h : storeOptionalBlob db r = .ok db') : db'.core = db.core := by
  unfold storeOptionalBlob at h
  split at h
  · exact storeReportBlob_core h
  · rw [pure_ok] at h
    subst h
    rfl

theorem validate_ok (h : r.validate = .ok r') :
    r'.attemptId = r.attemptId ∧ r'.evidenceId = r.evidenceId ∧ r'.criterionId = r.criterionId ∧
    r'.verdict = r.verdict ∧ r'.artifact = r.artifact ∧ r'.reportSha256 = r.reportSha256 ∧ r.artifact ≠ "" := by
  simp only [EvidenceRequest.validate, bind_ok, ensure_ok, pure_ok] at h
  obtain ⟨_, _, _, _, _, _, _, hart, _, _, _, _, _, _, _, _, rfl⟩ := h
  exact ⟨rfl, rfl, rfl, rfl, rfl, rfl, artifactRef_ne_empty hart⟩

/-- What `record_evidence` found before it wrote a new row. -/
structure Recorded (host : Host) (db : DB) (r : EvidenceRequest) (a : Attempt) (n : Node) (db₁ : DB) : Prop where
  found : db.attempt? r.attemptId = some a
  new : lookup Evidence.evidenceId db.evidence r.evidenceId = none
  guarded : evidenceGuard host db a r = .ok ()
  independent : ∀ o ∈ db.observations, o.reportSha256 ≠ r.reportSha256
  named : r.artifact ≠ ""
  kept : storeOptionalBlob db r = .ok db₁
  node : db.node? a.node = some n

/-- The outcomes of a recording: the old row again, or a new one. -/
theorem recordEvidence_ok {out : Evidence} (h : recordEvidence host db r = .ok (out, db')) :
    ∃ r', r.validate = .ok r' ∧
      ((lookup Evidence.evidenceId db.evidence r.evidenceId = some out ∧ storeOptionalBlob db r' = .ok db') ∨
        ∃ a n kind db₁, Recorded host db r' a n db₁ ∧ out = evidenceRow host r' kind ∧
          db'.body = (writeEvidence db₁ n a out).body) := by
  simp only [recordEvidence, bind_ok] at h
  obtain ⟨r', hval, a, hatt, h⟩ := h
  obtain ⟨hid, heid, _, _, hart, _, hne⟩ := validate_ok hval
  refine ⟨r', hval, ?_⟩
  split at h
  · next prior hprior =>
    simp only [bind_ok, pure_ok, Prod.mk.injEq] at h
    obtain ⟨_, _, db₁, hblob, rfl, rfl⟩ := h
    exact .inl ⟨heid ▸ hprior, hblob⟩
  · next hnone =>
    simp only [bind_ok, ensure_ok, orElse_ok, pure_ok, Prod.mk.injEq] at h
    obtain ⟨_, hguard, _, hind, db₁, hblob, check, _, node, hnode, rfl, rfl⟩ := h
    have hn : db.node? a.node = some node := by
      rw [← core_node? (storeOptionalBlob_core hblob)]
      exact nodeOf_ok hnode
    refine .inr ⟨a, node, check.kind, db₁, ⟨attemptOf_ok hatt, hnone, hguard, ?_, hart ▸ hne, hblob, hn⟩, rfl, rfl⟩
    intro o ho he
    exact hind (List.any_eq_true.mpr ⟨o, ho, decide_eq_true he⟩)

/-- The ledger may take the row a recording writes, wherever the node's
acceptance does not rest on the attempt. -/
theorem Recorded.attests {kind : CheckKind} {db₁ db₂ : DB} (h : Recorded host db r a n db₁)
    (hatt : db₂.attempt? r.attemptId = some a) (hev : db₂.evidence = db.evidence)
    (hrest : a.status = .candidate → ¬ (ledger db₂).Rests a.node r.attemptId) :
    Attests (ledger db₂) a.toTry (evidenceRow host r kind) := by
  have hfresh : ∀ p ∈ db₂.evidence, p.evidenceId ≠ r.evidenceId := by
    rw [hev]
    exact lookup_eq_none.mp h.new
  have hid := attempt_id h.found
  obtain ⟨_, _, hcase⟩ := evidenceGuard_ok h.guarded
  refine ⟨ledger_try hatt, ?_, hfresh, hrest, h.named, ?_, ?_⟩
  · rcases hcase with ⟨hs, _⟩ | ⟨hs, _⟩ <;> simp [Attempt.toTry, hs, AttemptStatus.active]
  · intro art hart hne
    have hart' : a.artifactRef = some art := hart
    rcases hcase with ⟨_, hscope⟩ | ⟨_, _, heq⟩
    · rcases hscope art (by simp [failedScope, hart', hne]) with he | he
      · exact absurd he hne
      · exact he.symm
    · exact (Option.some.inj (hart'.symm.trans heq)).symm
  · intro hno p hp
    have hno' : truthy a.artifactRef = false := hno
    have hp' : db.evidence.find? (fun p => decide (p.attemptId = a.attemptId)) = some p := by
      rw [← hev, hid]
      exact hp
    rcases hcase with ⟨_, hscope⟩ | ⟨_, ht, _⟩
    · refine hscope p.artifactRef ?_
      unfold failedScope failedScope.firstArtifact
      rw [hp']
      cases hart : a.artifactRef with
      | none => rfl
      | some art =>
        have he : art = "" := by simpa [hart, truthy] using hno'
        simp [he]
    · rw [hno'] at ht
      cases ht

theorem writeEvidence_refines {kind : CheckKind} {db₁ : DB} (h : Recorded host db r a n db₁) :
    Refines D db₁ (writeEvidence db₁ n a (evidenceRow host r kind)) := by
  have hcore := storeOptionalBlob_core h.kept
  have hatt : db₁.attempt? r.attemptId = some a := (core_attempt? hcore _).trans h.found
  have hn : db₁.node? a.node = some n := (core_node? hcore _).trans h.node
  have hev : db₁.evidence = db.evidence := by
    have he : db₁.core.evidence = db.core.evidence := congrArg DB.evidence hcore
    exact he
  unfold writeEvidence
  dsimp only
  split_ifs with hc
  · -- the acceptance goes first, so that the row is taken where none rests on the attempt
    have hrow : Attests (ledger (invalidate db₁ a.projectId a.nodeKey)) a.toTry (evidenceRow host r kind) :=
      h.attests hatt hev (fun _ => invalidate_unrested)
    exact Refines.event ((invalidate_refines D db₁ a.projectId a.nodeKey).tail (.attest _ _ hrow))
  · refine Refines.of_step (.attest _ a.toTry (h.attests hatt hev ?_))
    rintro hs ⟨f, receipt, acc, hf, _, hr, hne, _⟩
    have he := hf.symm.trans (ledger_fact hn)
    cases he
    have hr' : n.verifiedReceipt = some receipt := hr
    refine hc ⟨by simp [hr', truthy, hne], ?_⟩
    rw [hs]
    decide

theorem recordEvidence_refines {out : Evidence} (h : recordEvidence host db r = .ok (out, db')) :
    Refines D db db' := by
  obtain ⟨r', _, ⟨_, hblob⟩ | ⟨a, n, kind, db₁, hrec, rfl, hbody⟩⟩ := recordEvidence_ok h
  · exact Refines.of_core (storeOptionalBlob_core hblob)
  · exact (Refines.of_core (storeOptionalBlob_core hrec.kept)).trans
      ((writeEvidence_refines hrec).trans (Refines.of_body hbody))

end Evidence

section Verify
variable {p k attemptId reviewer uid : String} {expectedRevision : Int} {bytes : Bool} {out : Acceptance}

theorem receiptId_ne_empty (uid : String) : "receipt-" ++ uid ≠ "" := by
  intro h
  have hl := congrArg String.length h
  rw [String.length_append] at hl
  have h8 : "receipt-".length = 8 := by decide
  have h0 : "".length = 0 := by decide
  omega

/-- What `verify` judged before it answered. -/
structure Verified (host : Host) (db : DB) (p k attemptId : String) (a : Attempt) (n : Node) : Prop where
  node : db.node? (p, k) = some n
  found : db.attempt? attemptId = some a
  target : a.node = (p, k)
  eligible : eligibleCandidate host db a = .ok ()
  met : unmetCriteria db attemptId n.contract = []

theorem verify_ok (h : verify host db p k expectedRevision attemptId reviewer bytes uid = .ok (out, db')) :
    ∃ a n, Verified host db p k attemptId a n ∧
      ((db' = db ∧ n.verifiedReceipt.bind db.acceptance? = some out ∧ out.attemptId = attemptId) ∨
        (truthy n.verifiedReceipt = false ∧ (db.acceptance? out.receiptId).isNone ∧ out.receiptId ≠ "" ∧
          (∃ by_, out = acceptanceRow db n a by_ out.receiptId) ∧ db'.body = (writeAcceptance db out).body)) := by
  simp only [verify, bind_ok, ensure_ok] at h
  obtain ⟨_, _, reviewer', _, n, hnode, a, hatt, _, ⟨hp, hk, _⟩, _, helig, _, hmet, _, _, h⟩ := h
  have htarget : a.node = (p, k) := by rw [← hp, ← hk]; rfl
  refine ⟨a, n, ⟨nodeOf_ok hnode, attemptOf_ok hatt, htarget, helig, hmet⟩, ?_⟩
  simp only [ite_ok, bind_ok, ensure_ok, orElse_ok, pure_ok, Prod.mk.injEq, Option.filter_eq_some_iff,
    decide_eq_true_eq] at h
  rcases h with ⟨_, _, ⟨hacc, hid, _⟩, rfl, rfl⟩ | ⟨hno, _, hfresh, rfl, rfl⟩
  · exact .inl ⟨rfl, hacc, hid⟩
  · exact .inr ⟨Bool.not_eq_true _ ▸ hno, hfresh, receiptId_ne_empty uid, ⟨reviewer', rfl⟩, rfl⟩

theorem unmetCriteria_nil {required : List Check} (h : unmetCriteria db attemptId required = []) {c : String}
    (hc : c ∈ required.map Check.id) : (latestEvidence db attemptId c).map Evidence.verdict = some .pass := by
  obtain ⟨check, hm, rfl⟩ := List.mem_map.mp hc
  rw [unmetCriteria, List.map_eq_nil_iff, List.filter_eq_nil_iff] at h
  simpa using h check hm

theorem writeAcceptance_refines {by_ : String} (hv : Verified host db p k attemptId a n)
    (hno : truthy n.verifiedReceipt = false) (hfresh : (db.acceptance? out.receiptId).isNone)
    (hne : out.receiptId ≠ "") (hout : out = acceptanceRow db n a by_ out.receiptId) :
    Refines D db (writeAcceptance db out) := by
  obtain ⟨hs, ht, ⟨n', hn', hpins⟩, hl⟩ := eligibleCandidate_ok hv.eligible
  have hnode : db.node? a.node = some n := hv.target ▸ hv.node
  have he : n' = n := Option.some.inj (hn'.symm.trans hnode)
  subst he
  have hid := attempt_id hv.found
  subst hid
  have hnid : n'.id = a.node := node_id hnode
  have hart : a.artifactRef = some (a.artifactRef.getD "") := by
    cases h : a.artifactRef with
    | none => simp [h, truthy] at ht
    | some x => rfl
  have hacc : Accepts (ledger db) out n'.fact a.toTry := by
    rw [hout]
    refine ⟨ledger_try hv.found, hnid.symm, hs, ht, (pinsMatch_iff hnode).mp hpins, isLatest_iff.mp hl, hno,
      rfl, rfl, rfl, hart, fun c hc => unmetCriteria_nil hv.met hc, ?_, Option.isNone_iff_eq_none.mp hfresh, hne⟩
    simp only [acceptanceRow, acceptedEvidenceIds, Node.fact, List.filterMap_map]
    rfl
  have hkey : (out.projectId, out.nodeKey) = a.node := by
    rw [hout]
    exact hnid
  refine Refines.of_step ?_
  have hlookup : { db with acceptances := db.acceptances ++ [out] }.node? a.node = some n' := hnode
  rw [writeAcceptance, hkey, ledger_setNode hlookup]
  · exact .accept out n'.fact a.toTry hacc
  · exact fun _ => rfl

theorem verify_refines (h : verify host db p k expectedRevision attemptId reviewer bytes uid = .ok (out, db')) :
    Refines D db db' := by
  obtain ⟨a, n, hv, ⟨rfl, _⟩ | ⟨hno, hfresh, hne, ⟨by_, hout⟩, hbody⟩⟩ := verify_ok h
  · exact Refines.refl _
  · refine (writeAcceptance_refines hv hno hfresh hne hout).trans (Refines.of_body hbody)

end Verify

end AItelier.State
