import AItelier.Proofs.Dispatch
import AItelier.Refine.Filings

namespace AItelier.State

open AItelier.Lib AItelier.Ledger

variable {db db' : DB} {host : Host} {caller : Caller} {now : Stamp} {s : Sys} {op : Op}

section Slots

/-- What a keyed request is filed under. -/
inductive Slot
  | attempt (node : NodeId) (requestKey : String)
  | claim (node : NodeId) (driver requestKey : String)
  | takeover (project driver requestKey : String)
  | handoff (project driver requestKey : String)
  | observation (attempt observation : String)
  | evidence (evidence : String)
  deriving DecidableEq, Repr

/-- The identity an answer gives: the id of the row, or the row itself where the caller
chose the id. -/
inductive Identity
  | attempt (id : String)
  | claim (id : String)
  | handoff (id : String)
  | observation (row : Observation)
  | evidence (row : Evidence)

/-- A row as the replay tests see it: its identity, the digest of the request that made
it, and the reference its report is retained under. -/
structure Filed where
  identity : Identity
  hash : String
  reportRef : String

def Sheets.filed (sh : Sheets) : Slot → Option Filed
  | .attempt k key => (sh.entries.find? (fun e => decide (e.node = k ∧ e.requestKey = key))).map
      (fun e => ⟨.attempt e.attemptId, e.requestHash, ""⟩)
  | .claim k driver key => (sh.charters.find? (fun c => decide (c.node = k ∧ c.driverId = driver ∧
      c.requestKey = key))).map (fun c => ⟨.claim c.claimId, c.requestHash, ""⟩)
  | .takeover p driver key => (sh.charters.find? (fun c => decide (c.node.1 = p ∧ c.driverId = driver ∧
      c.requestKey = "takeover:" ++ key))).map (fun c => ⟨.claim c.claimId, c.requestHash, ""⟩)
  | .handoff p driver key => (sh.offers.find? (fun h => decide (h.projectId = p ∧ h.fromDriverId = driver ∧
      h.requestKey = key))).map (fun h => ⟨.handoff h.handoffId, h.requestHash, ""⟩)
  | .observation a o => (sh.observations.find? (fun x => decide (x.attemptId = a ∧ x.observationId = o))).map
      (fun x => ⟨.observation x, x.payloadHash, x.reportRef⟩)
  | .evidence e => (lookup Evidence.evidenceId sh.evidence e).map (fun x => ⟨.evidence x, x.payloadHash, ""⟩)

/-- What is filed stays filed. -/
theorem Grows.filed (h : Grows db db') {slot : Slot} {f : Filed} (hf : db.sheets.filed slot = some f) :
    db'.sheets.filed slot = some f := by
  cases slot with
  | attempt k key =>
    obtain ⟨e, he, rfl⟩ := Option.map_eq_some_iff.mp hf
    exact Option.map_eq_some_iff.mpr ⟨e, h.entries.find?_eq_some he, rfl⟩
  | claim k driver key =>
    obtain ⟨c, hc, rfl⟩ := Option.map_eq_some_iff.mp hf
    exact Option.map_eq_some_iff.mpr ⟨c, h.charters.find?_eq_some hc, rfl⟩
  | takeover p driver key =>
    obtain ⟨c, hc, rfl⟩ := Option.map_eq_some_iff.mp hf
    exact Option.map_eq_some_iff.mpr ⟨c, h.charters.find?_eq_some hc, rfl⟩
  | handoff p driver key =>
    obtain ⟨o, ho, rfl⟩ := Option.map_eq_some_iff.mp hf
    exact Option.map_eq_some_iff.mpr ⟨o, h.offers.find?_eq_some ho, rfl⟩
  | observation a o =>
    obtain ⟨x, hx, rfl⟩ := Option.map_eq_some_iff.mp hf
    exact Option.map_eq_some_iff.mpr ⟨x, h.observations.find?_eq_some hx, rfl⟩
  | evidence e =>
    obtain ⟨x, hx, rfl⟩ := Option.map_eq_some_iff.mp hf
    exact Option.map_eq_some_iff.mpr ⟨x, h.evidence.find?_eq_some hx, rfl⟩

/-- An answer to a request filed under `slot`: what was filed there before is what is
answered, with nothing new, and what is answered is filed. -/
structure Answers (host : Host) (slot : Slot) (payload : String → Json) (db db' : DB) (identity : Option Identity) :
    Prop where
  same : ∀ f, db.sheets.filed slot = some f →
    identity = some f.identity ∧ f.hash = host.digest (payload f.reportRef) ∧ db'.sheets = db.sheets
  new : ∀ i, identity = some i → ∃ ref, db'.sheets.filed slot = some ⟨i, host.digest (payload ref), ref⟩

variable {slot : Slot} {payload : String → Json} {i : Identity}

theorem Answers.replay (ref : String) (hf : db.sheets.filed slot = some ⟨i, host.digest (payload ref), ref⟩)
    (hsame : db'.sheets = db.sheets) : Answers host slot payload db db' (some i) := by
  constructor
  · intro f he
    obtain rfl := Option.some.inj (hf.symm.trans he)
    exact ⟨rfl, rfl, hsame⟩
  · intro j hj
    cases hj
    rw [hsame]
    exact ⟨ref, hf⟩

theorem Answers.file (ref : String) (hnone : db.sheets.filed slot = none)
    (hf : db'.sheets.filed slot = some ⟨i, host.digest (payload ref), ref⟩) :
    Answers host slot payload db db' (some i) := by
  constructor
  · intro f he
    rw [hnone] at he
    cases he
  · intro j hj
    cases hj
    exact ⟨ref, hf⟩

theorem Answers.none (hnone : db.sheets.filed slot = none) : Answers host slot payload db db' none := by
  constructor
  · intro f he
    rw [hnone] at he
    cases he
  · intro j hj
    cases hj

end Slots

section Frames

theorem markBack_sheets (db : DB) (driver : Option String) (now : Stamp) :
    (markBack db driver now).sheets = db.sheets := by
  cases driver with
  | none => rfl
  | some d =>
    unfold markBack
    dsimp only
    split_ifs <;> rfl

theorem setClaim_sheets {f : Claim → Claim} (hf : ∀ c, (f c).charter = c.charter) (db : DB) (i : String) :
    (db.setClaim i f).sheets = db.sheets := by
  have h : (db.setClaim i f).claims.map Claim.charter = db.claims.map Claim.charter :=
    map_modifyWhere (fun c _ => hf c) db.claims
  unfold DB.sheets
  rw [h]
  rfl

theorem bindClaim_sheets (db : DB) (claim : Option Claim) (i : String) : (bindClaim db claim i).sheets = db.sheets := by
  cases claim with
  | none => rfl
  | some c => exact setClaim_sheets (f := fun c => { c with attemptId := some i }) (fun _ => rfl) db c.claimId

theorem reserveView_sheets (db : DB) (caller : Caller) (r : ReserveRequest) :
    (reserveView db caller r).sheets = db.sheets := by
  unfold reserveView
  split_ifs
  · exact markBack_sheets ..
  · rfl

theorem storeReportBlob_sheets {ref sha : String} {bytes : List UInt8}
    (h : storeReportBlob db ref sha bytes = .ok db') : db'.sheets = db.sheets := by
  unfold storeReportBlob at h
  split at h
  · simp only [bind_ok, pure_ok] at h
    obtain ⟨_, _, rfl⟩ := h
    rfl
  · rw [pure_ok] at h
    subst h
    rfl

theorem storeOptionalBlob_sheets {r : EvidenceRequest} (h : storeOptionalBlob db r = .ok db') :
    db'.sheets = db.sheets := by
  unfold storeOptionalBlob at h
  split at h
  · exact storeReportBlob_sheets h
  · rw [pure_ok] at h
    subst h
    rfl

end Frames

section Replays

theorem filed_attempt (db : DB) (k : NodeId) (key : String) : db.sheets.filed (.attempt k key) =
    (db.attempts.find? (fun a => decide (a.node = k ∧ a.requestKey = key))).map
      (fun a => ⟨.attempt a.attemptId, a.requestHash, ""⟩) := by
  simp only [Sheets.filed, DB.sheets, DB.entries, List.find?_map, Option.map_map]
  rfl

theorem filed_claim (db : DB) (k : NodeId) (driver key : String) : db.sheets.filed (.claim k driver key) =
    (db.claims.find? (fun c => decide (c.node = k ∧ c.driverId = driver ∧ c.requestKey = key))).map
      (fun c => ⟨.claim c.claimId, c.requestHash, ""⟩) := by
  simp only [Sheets.filed, DB.sheets, List.find?_map, Option.map_map]
  rfl

theorem filed_takeover (db : DB) (p driver key : String) : db.sheets.filed (.takeover p driver key) =
    (db.claims.find? (fun c => decide (c.projectId = p ∧ c.driverId = driver ∧
      c.requestKey = "takeover:" ++ key))).map (fun c => ⟨.claim c.claimId, c.requestHash, ""⟩) := by
  simp only [Sheets.filed, DB.sheets, List.find?_map, Option.map_map]
  rfl

theorem filed_handoff (db : DB) (p driver key : String) : db.sheets.filed (.handoff p driver key) =
    (db.handoffs.find? (fun h => decide (h.projectId = p ∧ h.fromDriverId = driver ∧ h.requestKey = key))).map
      (fun h => ⟨.handoff h.handoffId, h.requestHash, ""⟩) := by
  simp only [Sheets.filed, DB.sheets, List.find?_map, Option.map_map]
  rfl

def Reserved.identity : Reserved → Option Identity
  | .attempt row => some (.attempt row.attemptId)
  | .source _ => none

/-- `_reserve_once` by its request key. -/
theorem reserveOnce_answers {r : ReserveRequest} {preflight : Preflight} {out : Reserved}
    (h : reserveOnce host db caller r preflight = .ok (out, db')) :
    Answers host (.attempt r.node r.requestKey) (fun _ => r.toJson) db db' out.identity := by
  simp only [reserveOnce, bind_ok] at h
  obtain ⟨_, _, node, -, h⟩ := h
  have hview : db.sheets.filed (.attempt r.node r.requestKey) =
      (reserveView db caller r).sheets.filed (.attempt r.node r.requestKey) := by rw [reserveView_sheets]
  split at h
  · next old hold =>
    simp only [bind_ok, pure_ok, Prod.mk.injEq] at h
    obtain ⟨⟨x, db₁⟩, hrep, rfl, rfl⟩ := h
    have hhash : old.requestHash = host.digest r.toJson := by
      simp only [replay, bind_ok, ensure_ok] at hrep
      obtain ⟨_, hhash, -⟩ := hrep
      exact hhash
    obtain ⟨rfl, claim, hdb⟩ := replay_ok hrep
    refine Answers.replay "" ?_ ?_
    · rw [hview, filed_attempt, hold, ← hhash]
      rfl
    · change db₁.sheets = db.sheets
      rw [hdb, bindClaim_sheets, reserveView_sheets]
  · next hnone =>
    have hfree : db.sheets.filed (.attempt r.node r.requestKey) = none := by
      rw [hview, filed_attempt, hnone]
      rfl
    rcases admitNew_ok h with ⟨-, source, rfl⟩ | ⟨row, claim, bg, rfl, hadm⟩
    · exact Answers.none hfree
    · refine Answers.file "" hfree ?_
      obtain ⟨context, hrow⟩ := hadm.made
      have hkey : row.node = r.node ∧ row.requestKey = r.requestKey ∧ row.requestHash = host.digest r.toJson := by
        rw [hrow]
        exact ⟨rfl, rfl, rfl⟩
      rw [filed_attempt, hadm.written, admit_attempts, List.find?_append, hnone]
      simp [hkey]

def ClaimRequest.payload (r : ClaimRequest) : Json :=
  .obj [("purpose", .str r.purpose.text), ("revision", .int r.expectedRevision), ("lease_seconds", .int r.leaseSeconds),
    ("workspace", .str r.workspace), ("subagent", .ofOption r.subagent)]

theorem retireClaim_charters (db : DB) (actor : String) (claim : Claim) (status : ClaimStatus) (reason : String) :
    (retireClaim db actor claim status reason).claims.map Claim.charter = db.claims.map Claim.charter :=
  map_modifyWhere (g := Claim.charter) (f := fun c : Claim => { c with status := status }) (fun _ _ => rfl) db.claims

theorem sweep_charters (db : DB) (actor p : String) (now : Stamp) (nodeKey : Option String) :
    (sweep db actor p now nodeKey).claims.map Claim.charter = db.claims.map Claim.charter := by
  refine foldl_keeps (fun db : DB => db.claims.map Claim.charter) (fun db lapsed => ?_) db _
  cases lapsed with
  | claim row phase =>
    simp only [sweepOne]
    split_ifs
    · exact retireClaim_charters db actor row .expired "lease expired and its grace passed"
    · rfl
  | attempt row phase => rfl

variable {c : Claim} {x : Observation} {a : Attempt} {call : ObserveCall}

/-- A claim that comes in at the end is found where none was. -/
theorem acquired_charter {old : List Claim} {q : Charter → Bool} (hc : db'.claims = old ++ [c])
    (hold : old.map Claim.charter = db.claims.map Claim.charter) (hnone : db.sheets.charters.find? q = none)
    (hq : q c.charter = true) : db'.sheets.charters.find? q = some c.charter := by
  have hcharters : db'.sheets.charters = db.sheets.charters ++ [c.charter] := by
    change db'.claims.map Claim.charter = db.claims.map Claim.charter ++ [c.charter]
    rw [hc, List.map_append, hold]
    rfl
  rw [hcharters, List.find?_append, hnone]
  simp [hq]

/-- `claim_node` by its request key. -/
theorem claimNode_answers {r : ClaimRequest} {uid driver : String} (hd : caller.driverId = some driver)
    (h : claimNode host db caller r uid now = .ok (c, db')) :
    Answers host (.claim (r.projectId, r.nodeKey) driver r.requestKey) (fun _ => r.payload) db db'
      (some (.claim c.claimId)) := by
  simp only [claimNode, bind_ok] at h
  obtain ⟨driver', hdriver, _, _, _, _, _, _, _, _, node, _, h⟩ := h
  obtain rfl : driver = driver' := Option.some.inj (hd.symm.trans (requireDriver_ok hdriver))
  have hback : db.sheets.filed (.claim (r.projectId, r.nodeKey) driver r.requestKey) =
      (markBack db (some driver) now).sheets.filed (.claim (r.projectId, r.nodeKey) driver r.requestKey) := by
    rw [markBack_sheets]
  split at h
  · next old hold =>
    simp only [bind_ok, ensure_ok, pure_ok, Prod.mk.injEq] at h
    obtain ⟨_, hhash, rfl, rfl⟩ := h
    refine Answers.replay "" ?_ (markBack_sheets ..)
    rw [hback, filed_claim, hold]
    simp only [Option.map_some, hhash]
    rfl
  · next hnone =>
    simp only [bind_ok, pure_ok, rescue_ok, Prod.mk.injEq] at h
    obtain ⟨_, _, _, _, _, _, db₁, hacq, rfl, rfl⟩ := h
    refine Answers.file "" ?_ ?_
    · rw [hback, filed_claim, hnone]
      rfl
    · obtain ⟨-, rfl⟩ := acquire_ok hacq
      have hswept := sweep_charters (markBack db (some driver) now) caller.actor r.projectId now (some r.nodeKey)
      have hback' : (markBack db (some driver) now).claims.map Claim.charter = db.claims.map Claim.charter :=
        congrArg Sheets.charters (markBack_sheets ..)
      refine Option.map_eq_some_iff.mpr ⟨_, acquired_charter rfl (hswept.trans hback') ?_ ?_, rfl⟩
      · change (db.claims.map Claim.charter).find? _ = none
        rw [← hback', List.find?_map, Option.map_eq_none_iff]
        exact hnone
      · simp [Claim.charter, Claim.node]

def ClaimTakeover.payload (r : ClaimTakeover) (reason : String) : Json :=
  .obj [("take_over_claim", .str r.claimId), ("expected_fence", .int r.expectedFence), ("reason", .str reason)]

/-- `take_over_claim` by its request key. -/
theorem takeOverClaim_answers {r : ClaimTakeover} {uid driver reason : String}
    (hd : caller.driverId = some driver) (hreason : text r.reason "takeover reason" 300 = .ok reason)
    (h : takeOverClaim host db caller r uid now = .ok (c, db')) :
    Answers host (.takeover r.projectId driver r.requestKey) (fun _ => r.payload reason) db db'
      (some (.claim c.claimId)) := by
  simp only [takeOverClaim, bind_ok] at h
  obtain ⟨driver', hdriver, _, _, reason', hreason', _, _, _, _, _, _, _, _, h⟩ := h
  obtain rfl : driver = driver' := Option.some.inj (hd.symm.trans (requireDriver_ok hdriver))
  obtain rfl : reason = reason' := Except.ok.inj (hreason.symm.trans hreason')
  split at h
  · next old hold =>
    simp only [bind_ok, ensure_ok, pure_ok, Prod.mk.injEq] at h
    obtain ⟨_, hhash, _, _, rfl, rfl⟩ := h
    refine Answers.replay "" ?_ rfl
    rw [filed_takeover, hold]
    simp only [Option.map_some, hhash]
    rfl
  · next hnone =>
    simp only [bind_ok, pure_ok, Prod.mk.injEq] at h
    obtain ⟨x, _, _, _, _, _, old, hold, _, _, _, _, node, _, _, _, _, _, db₁, hacq, rfl, rfl⟩ := h
    refine Answers.file "" ?_ ?_
    · rw [filed_takeover, hnone]
      rfl
    · obtain ⟨-, rfl⟩ := acquire_ok hacq
      have hproject : old.projectId = r.projectId := claimOf_project hold
      have hswept := sweep_charters db caller.actor r.projectId now (some x.nodeKey)
      have hended := retireClaim_charters (sweep db caller.actor r.projectId now (some x.nodeKey)) caller.actor old
        .takenOver ("taken over by " ++ driver ++ ": " ++ reason)
      refine Option.map_eq_some_iff.mpr ⟨_, acquired_charter rfl (hended.trans hswept) ?_ ?_, rfl⟩
      · change (db.claims.map Claim.charter).find? _ = none
        rw [List.find?_map, Option.map_eq_none_iff]
        exact hnone
      · simp [Claim.charter, Claim.node, takenClaim, hproject]

def Offer.payload (o : Offer) : Json :=
  .obj [("attempt_id", .ofOption o.subject.attemptId), ("claim_id", .ofOption o.subject.claimId),
    ("to", .str o.toDriverId), ("fence", .int o.expectedOwnerFence), ("package", o.package.toJson)]

/-- `offer_handoff` by its request key. -/
theorem offerHandoff_answers {o : Offer} {retained : ReportRef → Result Unit} {uid driver : String} {x : Handoff}
    (hd : caller.driverId = some driver) (h : offerHandoff host db caller o retained uid now = .ok (x, db')) :
    Answers host (.handoff o.projectId driver o.requestKey) (fun _ => o.payload) db db'
      (some (.handoff x.handoffId)) := by
  simp only [offerHandoff, bind_ok] at h
  obtain ⟨driver', hdriver, _, _, _, _, _, _, ⟨attempt, nodeKey⟩, _, _, _, h⟩ := h
  obtain rfl : driver = driver' := Option.some.inj (hd.symm.trans (requireDriver_ok hdriver))
  split at h
  · next old hold =>
    simp only [bind_ok, ensure_ok, pure_ok, Prod.mk.injEq] at h
    obtain ⟨_, hhash, rfl, rfl⟩ := h
    refine Answers.replay "" ?_ rfl
    rw [filed_handoff, hold]
    simp only [Option.map_some, hhash]
    rfl
  · next hnone =>
    simp only [bind_ok, pure_ok, Prod.mk.injEq] at h
    obtain ⟨_, _, _, _, rfl, rfl⟩ := h
    refine Answers.file "" ?_ ?_
    · rw [filed_handoff, hnone]
      rfl
    · simp only [filed_handoff, DB.event, List.find?_append, hnone]
      simp [Offer.payload]

/-- `record_evidence` by its id. -/
theorem recordEvidence_answers {r r' : EvidenceRequest} {x : Evidence} (hr : r.validate = .ok r')
    (h : recordEvidence host db r = .ok (x, db')) :
    Answers host (.evidence r'.evidenceId) (fun _ => .obj (evidencePayload r')) db db' (some (.evidence x)) := by
  simp only [recordEvidence, bind_ok] at h
  obtain ⟨r₁, hr₁, a, _, h⟩ := h
  obtain rfl : r' = r₁ := Except.ok.inj (hr.symm.trans hr₁)
  split at h
  · next prior hprior =>
    simp only [bind_ok, ensure_ok, pure_ok, Prod.mk.injEq] at h
    obtain ⟨_, hhash, db₁, hblob, rfl, rfl⟩ := h
    refine Answers.replay "" ?_ (storeOptionalBlob_sheets hblob)
    have hlook : lookup Evidence.evidenceId db.sheets.evidence r'.evidenceId = some prior := hprior
    simp only [Sheets.filed, hlook, Option.map_some, hhash]
  · next hnone =>
    simp only [bind_ok, orElse_ok, pure_ok, Prod.mk.injEq] at h
    obtain ⟨_, _, _, _, db₁, hblob, check, _, node, _, rfl, rfl⟩ := h
    refine Answers.file "" ?_ ?_
    · have hlook : lookup Evidence.evidenceId db.sheets.evidence r'.evidenceId = none := hnone
      simp only [Sheets.filed, hlook, Option.map_none]
    · have hevidence : ∀ payload, ((writeEvidence db₁ node a (evidenceRow host r' check.kind)).event a.projectId
          (some a.nodeKey) "evidence_recorded" payload).sheets.evidence =
            db.evidence ++ [evidenceRow host r' check.kind] := by
        intro payload
        have hside := writeEvidence_side db₁ node a (evidenceRow host r' check.kind)
        have hrows : (writeEvidence db₁ node a (evidenceRow host r' check.kind)).evidence = _ :=
          congrArg (fun x => x.2.1) hside
        rw [side_evidence (storeOptionalBlob_side hblob)] at hrows
        exact hrows
      simp only [Sheets.filed, hevidence, lookup, List.find?_append]
      rw [show db.evidence.find? _ = none from hnone]
      simp [evidenceRow]

/-- The read half of `observe` by the observation's id. -/
theorem observeRead_answers {r : ObserveRequest} {kept : Retention}
    (h : observeRead host db caller r kept = .ok (.replayed a x)) :
    Answers host (.observation r.attemptId r.observationId) (observationPayload caller r) db db
      (some (.observation x)) := by
  simp only [observeRead, bind_ok] at h
  obtain ⟨r', hr, a', _, _, _, late, _, _, _, h⟩ := h
  simp only [ObserveRequest.validate, bind_ok, pure_ok] at hr
  obtain ⟨_, _, _, _, _, _, _, _, reportRef, _, _, _, _, _, rfl⟩ := hr
  split at h
  · next prior hprior =>
    simp only [bind_ok, ensure_ok, pure_ok, Observed.replayed.injEq] at h
    obtain ⟨_, hhash, rfl, rfl⟩ := h
    refine Answers.replay prior.reportRef ?_ rfl
    have hlook : db.sheets.observations.find? (fun x => decide (x.attemptId = r.attemptId ∧
        x.observationId = r.observationId)) = some prior := hprior
    simp only [Sheets.filed, hlook, Option.map_some, ← hhash]
    rfl
  · simp only [bind_ok, pure_ok, reduceCtorEq, and_false, exists_false] at h

theorem observeRead_pending {r : ObserveRequest} {kept : Retention}
    (h : observeRead host db caller r kept = .ok (.pending call)) :
    db.sheets.filed (.observation r.attemptId r.observationId) = none := by
  simp only [observeRead, bind_ok] at h
  obtain ⟨r', hr, a', _, _, _, late, _, _, _, h⟩ := h
  simp only [ObserveRequest.validate, bind_ok, pure_ok] at hr
  obtain ⟨_, _, _, _, _, _, _, _, reportRef, _, _, _, _, _, rfl⟩ := hr
  split at h
  · simp only [bind_ok, pure_ok, reduceCtorEq, and_false, exists_false] at h
  · next hnone =>
    have hlook : db.sheets.observations.find? (fun x => decide (x.attemptId = r.attemptId ∧
        x.observationId = r.observationId)) = none := hnone
    simp only [Sheets.filed, hlook, Option.map_none]

/-- A report that adds its row, late or counted, answers that row. -/
theorem observeWrite_row
    (h : observeWrite host db call now = .ok (a, x, db'))
    (hnone : observation? db call.request.attemptId call.request.observationId = none) :
    db'.observations = db.observations ++ [x] ∧ x.attemptId = call.request.attemptId ∧
      x.observationId = call.request.observationId ∧ x.reportRef = call.reportRef ∧
      x.payloadHash = host.digest (observationPayload call.caller call.request call.reportRef) := by
  have hback : (markBack db call.caller.driverId now).side = db.side := markBack_side ..
  have hfree : observation? (markBack db call.caller.driverId now) call.request.attemptId call.request.observationId =
      none := by rw [observation?, side_observations hback]; exact hnone
  simp only [observeWrite, bind_ok, hfree] at h
  obtain ⟨b, hb, _, _, late, _, _, _, _, _, _, _, _, _, _, _, _, _, current, _, db₁, happ, h⟩ := h
  have hid : b.attemptId = call.request.attemptId := lookup_key (attemptOf_ok hb)
  have hadded : ∀ row, appendObservation (markBack db call.caller.driverId now) call row = .ok db₁ →
      db₁.observations = db.observations ++ [row] := by
    intro row hrow
    have hside := congrArg (fun x => x.2.2) (appendObservation_side hrow)
    rw [side_observations hback] at hside
    exact hside
  have hrows := hadded _ happ
  simp only [ite_ok, bind_ok, pure_ok, Prod.mk.injEq] at h
  rcases h with ⟨-, _, _, -, rfl, rfl⟩ | ⟨-, _, _, node, _, _, _, -, rfl, rfl⟩
  · refine ⟨?_, hid, rfl, rfl, rfl⟩
    rw [← hrows]
    exact side_observations (writeLate_side ..)
  · refine ⟨?_, hid, rfl, rfl, rfl⟩
    rw [← hrows]
    exact congrArg Prod.snd (writeObserved_papers ..)

theorem observeWrite_files
    (h : observeWrite host db call now = .ok (a, x, db'))
    (hnone : observation? db call.request.attemptId call.request.observationId = none) :
    db'.sheets.filed (.observation call.request.attemptId call.request.observationId) = some ⟨.observation x,
      host.digest (observationPayload call.caller call.request call.reportRef), call.reportRef⟩ := by
  obtain ⟨hrows, h₁, h₂, h₃, h₄⟩ := observeWrite_row h hnone
  have hlook : db.sheets.observations.find? (fun x => decide (x.attemptId = call.request.attemptId ∧
      x.observationId = call.request.observationId)) = none := hnone
  have hadded : db'.sheets.observations = db.sheets.observations ++ [x] := hrows
  simp only [Sheets.filed, hadded, List.find?_append, hlook]
  simp [h₁, h₂, h₃, h₄]

/-- The write half of `observe` by the observation's id. -/
theorem observeWrite_answers
    (h : observeWrite host db call now = .ok (a, x, db')) :
    Answers host (.observation call.request.attemptId call.request.observationId)
      (fun _ => observationPayload call.caller call.request call.reportRef) db db' (some (.observation x)) := by
  have hback : (markBack db call.caller.driverId now).side = db.side := markBack_side ..
  cases hobs : observation? db call.request.attemptId call.request.observationId with
  | some prior =>
    have hlook : db.sheets.observations.find? (fun x => decide (x.attemptId = call.request.attemptId ∧
        x.observationId = call.request.observationId)) = some prior := hobs
    have hfound : observation? (markBack db call.caller.driverId now) call.request.attemptId
        call.request.observationId = some prior := by rw [observation?, side_observations hback]; exact hobs
    simp only [observeWrite, bind_ok, hfound, ensure_ok, pure_ok, Prod.mk.injEq] at h
    obtain ⟨_, _, _, _, _, _, _, _, _, hhash, _, rfl, rfl⟩ := h
    refine Answers.replay prior.reportRef ?_ (markBack_sheets ..)
    simp only [Sheets.filed, hlook, Option.map_some, hhash]
  | none =>
    have hlook : db.sheets.observations.find? (fun x => decide (x.attemptId = call.request.attemptId ∧
        x.observationId = call.request.observationId)) = none := hobs
    refine Answers.file call.reportRef ?_ (observeWrite_files h hobs)
    simp only [Sheets.filed, hlook, Option.map_none]

end Replays

section Asks

/-- The identity a registration is made under, normalised. -/
def registrant (caller : Caller) (harness externalId : String) : Result ExternalIdentity := do
  let actor ← text caller.actor "authenticated reporter" 300
  let harness ← key harness "harness"
  let externalId ← text externalId "external execution identity" 500
  return ⟨harness, externalId, actor⟩

/-- Where a request is filed, and the payload it is compared by. The payload of an
observation is taken with the report reference of the row it meets. -/
abbrev Asked := Slot × (String → Json)

def ReserveRequest.asks (r : ReserveRequest) : Asked := (.attempt r.node r.requestKey, fun _ => r.toJson)

def askRegister (caller : Caller) (harness externalId : String) (r : ReserveRequest) : Option Asked :=
  (registrant caller harness externalId).toOption.map (fun x =>
    { r with workflow := none, external := some x }.asks)

def Request.asks : Request → Option Asked
  | .reserve _ workflow r => some { r with workflow := some workflow, external := none }.asks
  | .register caller harness externalId r => askRegister caller harness externalId r
  | .registerCheck caller harness externalId r => askRegister caller harness externalId r
  | .claimNode caller r _ _ =>
    caller.driverId.map (fun d => (.claim (r.projectId, r.nodeKey) d r.requestKey, fun _ => r.payload))
  | .takeOverClaim caller r _ _ => caller.driverId.bind (fun d =>
      (text r.reason "takeover reason" 300).toOption.map (fun reason =>
        (.takeover r.projectId d r.requestKey, fun _ => r.payload reason)))
  | .offerHandoff caller o _ _ _ =>
    caller.driverId.map (fun d => (.handoff o.projectId d o.requestKey, fun _ => o.payload))
  | .recordEvidence r => r.validate.toOption.map (fun r => (.evidence r.evidenceId, fun _ => .obj (evidencePayload r)))
  | _ => none

def Read.asks : Read → Option Asked
  | .observe caller r _ => some (.observation r.attemptId r.observationId, observationPayload caller r)
  | _ => none

def Call.asks : Call → Option Asked
  | .observe call => some (.observation call.request.attemptId call.request.observationId,
      fun _ => observationPayload call.caller call.request call.reportRef)
  | .register caller harness externalId r _ => askRegister caller harness externalId r
  | _ => none

def Sys.asks (s : Sys) : Op → Option Asked
  | .request r => r.asks
  | .read r => r.asks
  | .commit index _ => s.calls[index]?.bind Call.asks

def Reply.identity : Reply → Option Identity
  | .reserved out => out.identity
  | .claim (some c) => some (.claim c.claimId)
  | .handoff h => some (.handoff h.handoffId)
  | .observed _ o => some (.observation o)
  | .evidence e => some (.evidence e)
  | _ => none

variable {slot : Slot} {payload : String → Json} {reply : Reply}

theorem answer_reply {α : Type} {x : Result (α × DB)} {f : α → Reply} (h : answer x f = .ok (reply, db')) :
    ∃ out, x = .ok (out, db') ∧ reply = f out := by
  simp only [answer, bind_ok, pure_ok, Prod.mk.injEq] at h
  obtain ⟨⟨out, d⟩, hx, rfl, rfl⟩ := h
  exact ⟨out, hx, rfl⟩

theorem toOption_some {α : Type} {x : Result α} {a : α} (h : x.toOption = some a) : x = .ok a := by
  cases x with
  | error e => cases h
  | ok b =>
    cases h
    rfl

theorem register_answers {harness externalId : String} {r : ReserveRequest} {preflight : Preflight} {out : Reserved}
    (hasks : askRegister caller harness externalId r = some (slot, payload))
    (h : register host db caller harness externalId r preflight = .ok (out, db')) :
    Answers host slot payload db db' out.identity := by
  obtain ⟨x, hx, hasked⟩ := Option.map_eq_some_iff.mp hasks
  simp only [register, bind_ok] at h
  obtain ⟨actor, ha, har, hh, ext, he, h⟩ := h
  have hid : x = ⟨har, ext, actor⟩ := by
    have hreg := toOption_some hx
    simp only [registrant, ha, hh, he, bind, Except.bind, pure, Except.pure, Except.ok.injEq] at hreg
    exact hreg.symm
  subst hid
  cases hasked
  exact reserveOnce_answers h

theorem Request.answers {r : Request} (hasks : r.asks = some (slot, payload)) (h : r.run host db = .ok (reply, db')) :
    Answers host slot payload db db' reply.identity := by
  cases r with
  | reserve caller workflow r =>
    obtain ⟨out, hx, rfl⟩ := answer_reply h
    simp only [State.reserve, bind_ok] at hx
    obtain ⟨_, _, hx⟩ := hx
    cases hasks
    exact reserveOnce_answers hx
  | register caller harness externalId r =>
    obtain ⟨out, hx, rfl⟩ := answer_reply h
    exact register_answers hasks hx
  | registerCheck caller harness externalId r =>
    obtain ⟨out, hx, rfl⟩ := answer_reply h
    exact register_answers hasks hx
  | claimNode caller r uid now =>
    simp only [Request.run] at h
    obtain ⟨out, hx, rfl⟩ := answer_reply h
    obtain ⟨d, hd, hasked⟩ := Option.map_eq_some_iff.mp hasks
    cases hasked
    exact claimNode_answers hd hx
  | takeOverClaim caller r uid now =>
    simp only [Request.run] at h
    obtain ⟨out, hx, rfl⟩ := answer_reply h
    obtain ⟨d, hd, hasked⟩ := Option.bind_eq_some_iff.mp hasks
    obtain ⟨reason, hr, hasked⟩ := Option.map_eq_some_iff.mp hasked
    cases hasked
    exact takeOverClaim_answers hd (toOption_some hr) hx
  | offerHandoff caller o retained uid now =>
    obtain ⟨out, hx, rfl⟩ := answer_reply h
    obtain ⟨d, hd, hasked⟩ := Option.map_eq_some_iff.mp hasks
    cases hasked
    exact offerHandoff_answers hd hx
  | recordEvidence r =>
    obtain ⟨out, hx, rfl⟩ := answer_reply h
    obtain ⟨r', hr, hasked⟩ := Option.map_eq_some_iff.mp hasks
    cases hasked
    exact recordEvidence_answers (toOption_some hr) hx
  | _ => cases hasks

theorem Call.answers {c : Call} (hasks : c.asks = some (slot, payload)) (h : c.run host db now = .ok (reply, db')) :
    Answers host slot payload db db' reply.identity := by
  cases c with
  | observe call =>
    simp only [Call.run] at h
    obtain ⟨out, hx, rfl⟩ := answer_reply h
    simp only [map_ok, Prod.mk.injEq] at hx
    obtain ⟨⟨a, x, d⟩, hx, rfl, rfl⟩ := hx
    cases hasks
    exact observeWrite_answers hx
  | register caller harness externalId r source =>
    obtain ⟨out, hx, rfl⟩ := answer_reply h
    exact register_answers hasks hx
  | bindRun call => cases hasks
  | reconcile call => cases hasks

/-- Every answer to a keyed request is by its key. -/
theorem step_answers (hasks : s.asks op = some (slot, payload)) (h : (stepOp host s op).2 = .ok reply) :
    Answers host slot payload s.db (next host s op).db reply.identity := by
  cases op with
  | request r =>
    cases hr : r.run host s.db with
    | error e =>
      simp only [stepOp, stepRequest, hr] at h
      cases h
    | ok out =>
      obtain ⟨x, d⟩ := out
      simp only [stepOp, stepRequest, hr, next] at h ⊢
      cases h
      exact Request.answers hasks hr
  | read r =>
    cases r with
    | observe caller r kept =>
      cases hasks
      cases ho : observeRead host s.db caller r kept with
      | error e =>
        simp only [stepOp, stepRead, Read.run, ho, bind, Except.bind] at h
        cases h
      | ok out =>
        cases out with
        | replayed a x =>
          simp only [stepOp, stepRead, Read.run, ho, bind, Except.bind, pure, Except.pure, next] at h ⊢
          cases h
          exact observeRead_answers ho
        | pending call =>
          simp only [stepOp, stepRead, Read.run, ho, bind, Except.bind, pure, Except.pure, next] at h ⊢
          cases h
          exact Answers.none (observeRead_pending ho)
    | bindRun i runId engine => cases hasks
    | reconcile i engine artifact actor => cases hasks
  | commit index now =>
    obtain ⟨call, hcall, hasks⟩ := Option.bind_eq_some_iff.mp hasks
    cases hr : call.run host s.db now with
    | error e =>
      simp only [stepOp, stepCommit, hcall, hr] at h
      cases h
    | ok out =>
      obtain ⟨x, d⟩ := out
      simp only [stepOp, stepCommit, hcall, hr, next] at h ⊢
      cases h
      exact Call.answers hasks hr

theorem refused_db {e : StateError} (h : (stepOp host s op).2 = .error e) : (next host s op).db = s.db := by
  cases op with
  | request r =>
    cases hr : r.run host s.db with
    | error e' => simp [next, stepOp, stepRequest, hr]
    | ok out => simp [stepOp, stepRequest, hr] at h
  | read r => exact next_read_db host s r
  | commit index now =>
    cases hcall : s.calls[index]? with
    | none => simp [next, stepOp, stepCommit, hcall]
    | some call =>
      cases hr : call.run host s.db now with
      | error e' => simp [next, stepOp, stepCommit, hcall, hr]
      | ok out => simp [stepOp, stepCommit, hcall, hr] at h

end Asks

end AItelier.State
