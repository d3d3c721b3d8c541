import AItelier.Mail.Sends
import AItelier.Proofs.Keyed

namespace AItelier.State

open AItelier.Lib AItelier.Ledger

variable {db db' : DB} {host : Host} {caller : Caller} {now : Stamp} {s : Sys} {op : Op}

section Again

theorem nodeOf_again (hg : Grows db db') {p k : String} {n : Node} (h : nodeOf db p k = .ok n) :
    ∃ n', nodeOf db' p k = .ok n' := by
  simp only [nodeOf, bind_ok, orElse_ok] at h
  obtain ⟨_, hp, _, hk, hn⟩ := h
  have hid : (p, k) ∈ db'.ids := hg.ids (mem_ids_iff.mpr (by simp [ledger, hn]))
  obtain ⟨n', hn'⟩ : ∃ n', db'.node? (p, k) = some n' := by
    have hsome := mem_ids_iff.mp hid
    simpa [ledger, Option.isSome_map, Option.isSome_iff_exists] using hsome
  exact ⟨n', by simp [nodeOf, hp, hk, hn', orElse, bind, Except.bind]⟩

theorem projectOf_again (hg : Grows db db') {p : String} {x : Project} (h : projectOf db p = .ok x) :
    projectOf db' p = .ok x := by
  simp only [projectOf, bind_ok, orElse_ok] at h
  obtain ⟨_, hp, hx⟩ := h
  have hx' : lookup Project.projectId db'.projects p = some x := hg.projects.find?_eq_some hx
  simp [projectOf, hp, hx', orElse, bind, Except.bind]

variable {c : Claim} {now' : Stamp}

theorem claimOf_again (hg : Grows db db') {p i : String} (h : claimOf db p i = .ok c) :
    ∃ c', claimOf db' p i = .ok c' := by
  simp only [claimOf, bind_ok, orElse_ok, Option.filter_eq_some_iff, decide_eq_true_eq] at h
  obtain ⟨_, hi, hc, hp⟩ := h
  have hfind : ∀ d : DB, (d.claims.map Claim.charter).find? (fun x => decide (x.claimId = i)) =
      (d.claim? i).map Claim.charter := fun d => List.find?_map
  have hold : (db.claims.map Claim.charter).find? (fun x => decide (x.claimId = i)) = some c.charter := by
    rw [hfind, hc]
    rfl
  have hnew := hg.charters.find?_eq_some hold
  rw [hfind] at hnew
  obtain ⟨c', hc', hcharter⟩ := Option.map_eq_some_iff.mp hnew
  have hp' : c'.projectId = p := (congrArg (fun x : Charter => x.node.1) hcharter).trans hp
  exact ⟨c', by simp [claimOf, hi, hc', hp', orElse, Option.filter, bind, Except.bind]⟩

theorem attemptOf_again (hg : Grows db db') {i : String} {a : Attempt} (h : attemptOf db i = .ok a) :
    ∃ a', attemptOf db' i = .ok a' ∧ a'.executionKind = a.executionKind := by
  simp only [attemptOf, bind_ok, orElse_ok] at h
  obtain ⟨_, hi, ha⟩ := h
  have hfind : ∀ d : DB, d.entries.find? (fun x => decide (x.attemptId = i)) = (d.attempt? i).map Attempt.entry :=
    fun d => List.find?_map
  have hold : db.entries.find? (fun x => decide (x.attemptId = i)) = some a.entry := by
    rw [hfind, ha]
    rfl
  have hnew := hg.entries.find?_eq_some hold
  rw [hfind] at hnew
  obtain ⟨a', ha', hentry⟩ := Option.map_eq_some_iff.mp hnew
  exact ⟨a', by simp [attemptOf, hi, ha', orElse, bind, Except.bind], congrArg Entry.executionKind hentry⟩

/-- The same reservation, whichever claim it names and whatever it draws and reads. -/
def ReserveRequest.Same (r r' : ReserveRequest) : Prop :=
  r' = { r with claimId := r'.claimId, fence := r'.fence, priorAccount := r'.priorAccount, design := r'.design,
                uid := r'.uid, claimNow := r'.claimNow, leaseNow := r'.leaseNow }

/-- What a repeated reservation is still judged on: the attempt of another driver in a
project that enforces claims, a review that must name its claim, and a claim or fence
that it names and that is not live now. -/
inductive ReserveBarred (host : Host) (db : DB) (caller : Caller) (r : ReserveRequest) (old : Attempt) : Prop
  | owner (owned : truthy old.ownerDriverId = true) (other : old.ownerDriverId ≠ caller.driverId)
      (outsider : caller.isAdmin = false) (enforced : enforced db r.projectId = true)
  | pin (pin : ReviewClaim) (review : old.context.reviewClaim = some pin)
      (unnamed : ¬ (r.claimId = some pin.claimId ∧ r.fence = some (pin.fence : Int)))
  | claim (e : StateError) (named : r.claimId.isSome = true ∨ r.fence.isSome = true)
      (judged : old.context.reviewClaim = none ∨ old.status.active = true)
      (refused : dispatchClaim host db r.node caller r.claimId r.fence r.claimNow
        (r.external.isSome && old.context.reviewClaim.isSome) = .error e)

variable {r r' : ReserveRequest} {old : Attempt}

theorem replayClaim_again (hjudged : old.context.reviewClaim = none ∨ old.status.active = true)
    (hb : ¬ ReserveBarred host db caller r old) : ∃ out, replayClaim host db caller r old = .ok out := by
  unfold replayClaim
  split_ifs with hnamed
  · cases hd : dispatchClaim host db r.node caller r.claimId r.fence r.claimNow
      (r.external.isSome && old.context.reviewClaim.isSome) with
    | error e => exact (hb (.claim e hnamed hjudged hd)).elim
    | ok out => exact ⟨_, rfl⟩
  · exact ⟨_, rfl⟩

theorem replay_again (hhash : old.requestHash = host.digest r.toJson) (hb : ¬ ReserveBarred host db caller r old) :
    ∃ out, replay host db caller r old = .ok out := by
  have howner : ¬ (truthy old.ownerDriverId = true ∧ old.ownerDriverId ≠ caller.driverId ∧ caller.isAdmin = false ∧
      enforced db r.projectId = true) := fun h => hb (.owner h.1 h.2.1 h.2.2.1 h.2.2.2)
  unfold replay
  rw [ensure, if_pos hhash, ensure, if_pos howner]
  cases hpin : old.context.reviewClaim with
  | none => exact replayClaim_again (.inl hpin) hb
  | some pin =>
    have hnamed : r.claimId = some pin.claimId ∧ r.fence = some (pin.fence : Int) :=
      not_not.mp (fun hn => hb (.pin pin hpin hn))
    dsimp only
    rw [ensure, if_pos hnamed]
    by_cases hactive : old.status.active = true
    · rw [if_pos hactive]
      exact replayClaim_again (.inr hactive) hb
    · rw [if_neg hactive]
      exact ⟨_, rfl⟩

theorem nodeOf_view (db : DB) (caller : Caller) (r : ReserveRequest) (p k : String) :
    nodeOf (reserveView db caller r) p k = nodeOf db p k := by
  rw [nodeOf, nodeOf, reserveView_node?]

theorem attempt_of_filed {k : NodeId} {key hash ref : String} {i : Identity}
    (h : db.sheets.filed (.attempt k key) = some ⟨i, hash, ref⟩) :
    ∃ a, db.attempts.find? (fun a => decide (a.node = k ∧ a.requestKey = key)) = some a ∧ a.requestHash = hash := by
  rw [filed_attempt] at h
  obtain ⟨a, ha, he⟩ := Option.map_eq_some_iff.mp h
  exact ⟨a, ha, congrArg Filed.hash he⟩

theorem reserveOnce_again {preflight : Preflight} {db₀ db₁ : DB} {out : Reserved} {i : Identity} {ref : String}
    (hsame : r.Same r') (h : reserveOnce host db₀ caller r preflight = .ok (out, db₁)) (hg : Grows db₀ db)
    (hf : db.sheets.filed r.asks.1 = some ⟨i, host.digest (r.asks.2 ref), ref⟩)
    (hb : ∀ old ∈ db.attempts, old.node = r'.node → old.requestKey = r'.requestKey →
      ¬ ReserveBarred host (reserveView db caller r') caller r' old) (preflight' : Preflight) :
    ∃ out, reserveOnce host db caller r' preflight' = .ok out := by
  simp only [reserveOnce, bind_ok] at h
  obtain ⟨_, hv, node, hn, -⟩ := h
  have hv' : r'.validate = .ok () := by
    rw [hsame]
    exact hv
  have hnode : r'.node = r.node ∧ r'.requestKey = r.requestKey ∧ r'.toJson = r.toJson ∧ r'.projectId = r.projectId ∧
      r'.nodeKey = r.nodeKey := by
    rw [hsame]
    exact ⟨rfl, rfl, rfl, rfl, rfl⟩
  obtain ⟨hk, hkey, hjson, hp, hkk⟩ := hnode
  rw [nodeOf_view] at hn
  obtain ⟨n', hn'⟩ := nodeOf_again hg hn
  rw [← hp, ← hkk, ← nodeOf_view db caller r'] at hn'
  obtain ⟨old, hold, hhash⟩ := attempt_of_filed hf
  rw [← hk, ← hkey] at hold
  have hmem : old ∈ db.attempts := List.mem_of_find?_eq_some hold
  have hfound := List.find?_some hold
  simp only [decide_eq_true_eq] at hfound
  have hhash' : old.requestHash = host.digest r'.toJson := by
    rw [hjson]
    exact hhash
  obtain ⟨out, hout⟩ := replay_again hhash' (hb old hmem hfound.1 hfound.2)
  rw [← reserveView_attempts db caller r'] at hold
  refine ⟨(.attempt out.1, out.2), ?_⟩
  simp only [reserveOnce, bind_ok]
  refine ⟨(), hv', n', hn', ?_⟩
  rw [hold]
  simp only [bind_ok]
  exact ⟨out, hout, rfl⟩

variable {driver hash ref : String} {i : Identity} {db₀ db₁ : DB}

theorem claimNode_again {r : ClaimRequest} {uid uid' : String}
    (hd : caller.driverId = some driver) (h : claimNode host db₀ caller r uid now = .ok (c, db₁)) (hg : Grows db₀ db)
    (hf : db.sheets.filed (.claim (r.projectId, r.nodeKey) driver r.requestKey) =
      some ⟨i, host.digest r.payload, ref⟩) :
    ∃ out, claimNode host db caller r uid' now' = .ok out := by
  simp only [claimNode, bind_ok] at h
  obtain ⟨driver', hdriver, _, hlease, _, hkey, _, hbound, _, hsub, node, hn, -⟩ := h
  obtain rfl : driver = driver' := Option.some.inj (hd.symm.trans (requireDriver_ok hdriver))
  have hview : ∀ (d : DB) t, nodeOf (markBack d (some driver) t) r.projectId r.nodeKey =
      nodeOf d r.projectId r.nodeKey := fun d t => by
    rw [nodeOf, nodeOf, core_node? (core_of_body (markBack_body ..))]
  rw [hview] at hn
  obtain ⟨n', hn'⟩ := nodeOf_again hg hn
  rw [← hview db now'] at hn'
  rw [← markBack_sheets db (some driver) now', filed_claim] at hf
  obtain ⟨old, hold, he⟩ := Option.map_eq_some_iff.mp hf
  have hhash : old.requestHash = host.digest r.payload := congrArg Filed.hash he
  rw [ClaimRequest.payload] at hhash
  refine ⟨(old, markBack db (some driver) now'), ?_⟩
  simp only [claimNode, bind_ok]
  refine ⟨driver, hdriver, (), hlease, _, hkey, (), hbound, (), hsub, n', hn', ?_⟩
  rw [hold]
  simp only [bind_ok, ensure_ok]
  exact ⟨(), hhash, rfl⟩

theorem takeOverClaim_again {r : ClaimTakeover} {uid uid' reason : String}
    (hd : caller.driverId = some driver) (hreason : text r.reason "takeover reason" 300 = .ok reason)
    (h : takeOverClaim host db₀ caller r uid now = .ok (c, db₁)) (hg : Grows db₀ db)
    (hf : db.sheets.filed (.takeover r.projectId driver r.requestKey) =
      some ⟨i, host.digest (r.payload reason), ref⟩) :
    ∃ out, takeOverClaim host db caller r uid' now' = .ok out := by
  have hclaim : ∃ old, claimOf db₀ r.projectId r.claimId = .ok old := by
    simp only [takeOverClaim, bind_ok] at h
    obtain ⟨_, _, _, _, _, _, _, _, _, _, _, _, _, _, h⟩ := h
    split at h
    · simp only [bind_ok] at h
      obtain ⟨_, _, old, hold, _⟩ := h
      exact ⟨old, hold⟩
    · simp only [bind_ok] at h
      obtain ⟨old, hold, _⟩ := h
      exact ⟨old, hold⟩
  obtain ⟨old₀, hold₀⟩ := hclaim
  obtain ⟨c', hc'⟩ := claimOf_again hg hold₀
  simp only [takeOverClaim, bind_ok] at h
  obtain ⟨driver', hdriver, _, hshared, reason', hreason', _, hlong, _, hkey, _, hclaimKey, p, hproject, -⟩ := h
  obtain rfl : driver = driver' := Option.some.inj (hd.symm.trans (requireDriver_ok hdriver))
  obtain rfl : reason = reason' := Except.ok.inj (hreason.symm.trans hreason')
  rw [filed_takeover] at hf
  obtain ⟨old, hold, he⟩ := Option.map_eq_some_iff.mp hf
  have hhash : old.requestHash = host.digest (r.payload reason) := congrArg Filed.hash he
  refine ⟨(old, db), ?_⟩
  simp only [takeOverClaim, bind_ok]
  refine ⟨driver, hdriver, (), hshared, reason, hreason, (), hlong, _, hkey, _, hclaimKey, p,
    projectOf_again hg hproject, ?_⟩
  rw [hold]
  simp only [bind_ok, ensure_ok]
  exact ⟨(), hhash, c', hc', rfl⟩

theorem offerHandoff_again {o : Offer} {retained retained' : ReportRef → Result Unit} {uid uid' : String}
    {x : Handoff} (hd : caller.driverId = some driver)
    (h : offerHandoff host db₀ caller o retained uid now = .ok (x, db₁)) (hg : Grows db₀ db)
    (hf : db.sheets.filed (.handoff o.projectId driver o.requestKey) = some ⟨i, host.digest o.payload, ref⟩)
    {subject : Option Attempt × String} (hsubject : offeredSubject db driver o = .ok subject)
    (hpackage : checkPackage host db o.projectId o.package subject.1 retained' = .ok ()) :
    ∃ out, offerHandoff host db caller o retained' uid' now' = .ok out := by
  simp only [offerHandoff, bind_ok] at h
  obtain ⟨driver', hdriver, _, hkey, _, hto, p, hproject, -⟩ := h
  obtain rfl : driver = driver' := Option.some.inj (hd.symm.trans (requireDriver_ok hdriver))
  rw [filed_handoff] at hf
  obtain ⟨old, hold, he⟩ := Option.map_eq_some_iff.mp hf
  have hhash : old.requestHash = host.digest o.payload := congrArg Filed.hash he
  refine ⟨(old, db), ?_⟩
  simp only [offerHandoff, bind_ok]
  refine ⟨driver, hdriver, _, hkey, (), hto, p, projectOf_again hg hproject, subject, hsubject, (), hpackage, ?_⟩
  rw [hold]
  simp only [bind_ok, ensure_ok]
  exact ⟨(), hhash, rfl⟩

theorem validate_again {r r' : EvidenceRequest} (h : r.validate = .ok r') (bytes : Option (List UInt8))
    (engine : Option EngineAnswer) : ({ r with reportBytes := bytes, engine := engine } : EvidenceRequest).validate =
      .ok { r' with reportBytes := bytes, engine := engine } := by
  simp only [EvidenceRequest.validate, bind_ok, pure_ok] at h ⊢
  obtain ⟨identity, h₁, i, h₂, k, h₃, art, h₄, u, h₅, ref, h₆, reviewer, h₇, w, h₈, rfl⟩ := h
  exact ⟨identity, h₁, i, h₂, k, h₃, art, h₄, u, h₅, ref, h₆, reviewer, h₇, w, h₈, rfl⟩

theorem recordEvidence_again {r r' q q' : EvidenceRequest} {x : Evidence} (hr : r.validate = .ok r')
    (hq : q.validate = .ok q') (h : recordEvidence host db₀ r = .ok (x, db₁)) (hg : Grows db₀ db)
    (hsame : q'.attemptId = r'.attemptId ∧ q'.evidenceId = r'.evidenceId ∧ evidencePayload q' = evidencePayload r')
    (hf : db.sheets.filed (.evidence r'.evidenceId) = some ⟨i, host.digest (.obj (evidencePayload r')), ref⟩)
    {db₂ : DB} (hblob : storeOptionalBlob db q' = .ok db₂) : ∃ out, recordEvidence host db q = .ok out := by
  simp only [recordEvidence, bind_ok] at h
  obtain ⟨r₁, hr₁, a, ha, -⟩ := h
  obtain rfl : r' = r₁ := Except.ok.inj (hr.symm.trans hr₁)
  obtain ⟨a', ha', -⟩ := attemptOf_again hg ha
  obtain ⟨hatt, hid, hpayload⟩ := hsame
  obtain ⟨prior, hprior, he⟩ := Option.map_eq_some_iff.mp hf
  have hfound : lookup Evidence.evidenceId db.evidence q'.evidenceId = some prior := by
    rw [hid]
    exact hprior
  have hhash : prior.payloadHash = host.digest (.obj (evidencePayload q')) := by
    rw [hpayload]
    exact congrArg Filed.hash he
  rw [← hatt] at ha'
  refine ⟨(prior, db₂), ?_⟩
  simp only [recordEvidence, bind_ok]
  refine ⟨q', hq, a', ha', ?_⟩
  rw [hfound]
  simp only [bind_ok, ensure_ok]
  exact ⟨(), hhash, db₂, hblob, rfl⟩

/-- The same report, under whatever reference it is presented and with whatever fence. -/
def ObserveRequest.Same (r r' : ObserveRequest) : Prop :=
  r' = { r with reportRef := r'.reportRef, fence := r'.fence }

theorem observeRead_again {call : ObserveCall} {a a' : Attempt} {x : Observation} {q : ObserveRequest}
    {late : Bool} (h : observeWrite host db₀ call now = .ok (a, x, db₁)) (hg : Grows db₀ db)
    (hf : db.sheets.filed (.observation call.request.attemptId call.request.observationId) =
      some ⟨i, host.digest (observationPayload call.caller call.request ref), ref⟩)
    (hsame : call.request.Same q) (hv : ∃ v, q.validate = .ok v)
    (ha' : db.attempt? call.request.attemptId = some a')
    (hauth : authorizeReport db call.caller a' q.fence = .ok late)
    (hcontext : q.contextHash = host.digest a'.context.toJson) (kept : Retention) :
    ∃ x, observeRead host db call.caller q kept = .ok (.replayed a' x) := by
  obtain ⟨v, hv⟩ := hv
  obtain ⟨ref', hvq⟩ : ∃ ref', v = { q with reportRef := ref' } := by
    simp only [ObserveRequest.validate, bind_ok, pure_ok] at hv
    obtain ⟨_, _, _, _, _, _, _, _, reportRef, _, _, _, _, _, rfl⟩ := hv
    exact ⟨reportRef, rfl⟩
  simp only [observeWrite, bind_ok, ensure_ok] at h
  obtain ⟨a₀, ha₀, _, hext, -⟩ := h
  have hback : attemptOf (markBack db₀ call.caller.driverId now) call.request.attemptId =
      attemptOf db₀ call.request.attemptId := by
    rw [attemptOf, attemptOf, core_attempt? (core_of_body (markBack_body ..))]
  rw [hback] at ha₀
  obtain ⟨a₁, ha₁, hkind⟩ := attemptOf_again hg ha₀
  obtain rfl : a' = a₁ := Option.some.inj (ha'.symm.trans (attemptOf_ok ha₁))
  obtain ⟨prior, hprior, he⟩ := Option.map_eq_some_iff.mp hf
  have hhash : prior.payloadHash = host.digest (observationPayload call.caller call.request ref) :=
    congrArg Filed.hash he
  have href : prior.reportRef = ref := congrArg Filed.reportRef he
  have hfields : v.attemptId = call.request.attemptId ∧ v.observationId = call.request.observationId ∧
      v.contextHash = q.contextHash ∧ v.fence = q.fence ∧
      observationPayload call.caller v = observationPayload call.caller call.request := by
    rw [hvq, hsame]
    exact ⟨rfl, rfl, rfl, rfl, rfl⟩
  obtain ⟨h₁, h₂, h₃, h₄, h₅⟩ := hfields
  have hfound : observation? db v.attemptId v.observationId = some prior := by
    rw [h₁, h₂]
    exact hprior
  refine ⟨prior, ?_⟩
  simp only [observeRead, bind_ok, ensure_ok]
  refine ⟨v, hv, a', ?_, (), hkind.trans hext, late, ?_, (), ?_, ?_⟩
  · rw [h₁]
    exact ha₁
  · rw [h₄]
    exact hauth
  · rw [h₃]
    exact hcontext
  · rw [hfound]
    simp only [bind_ok, ensure_ok]
    refine ⟨(), ?_, rfl⟩
    rw [h₅, href, hhash]

end Again

section Runs

/-- `op'`, in a later state, is the call `op` of `s` once more: by the same caller and
with the same arguments. -/
inductive Repeats (s : Sys) : Op → Op → Prop
  | reserve (caller : Caller) (workflow : String) (r r' : ReserveRequest) (same : r.Same r') :
      Repeats s (.request (.reserve caller workflow r)) (.request (.reserve caller workflow r'))
  | register (caller : Caller) (harness externalId : String) (r r' : ReserveRequest) (same : r.Same r') :
      Repeats s (.request (.register caller harness externalId r)) (.request (.register caller harness externalId r'))
  | checked (index : Nat) (now : Stamp) (caller : Caller) (harness externalId : String) (r r' : ReserveRequest)
      (source : Source) (pending : s.calls[index]? = some (.register caller harness externalId r source))
      (same : r.Same r') :
      Repeats s (.commit index now) (.request (.registerCheck caller harness externalId r'))
  | claimNode (caller : Caller) (r : ClaimRequest) (uid uid' : String) (now now' : Stamp) :
      Repeats s (.request (.claimNode caller r uid now)) (.request (.claimNode caller r uid' now'))
  | takeOverClaim (caller : Caller) (r : ClaimTakeover) (uid uid' : String) (now now' : Stamp) :
      Repeats s (.request (.takeOverClaim caller r uid now)) (.request (.takeOverClaim caller r uid' now'))
  | offerHandoff (caller : Caller) (o : Offer) (retained retained' : ReportRef → Result Unit) (uid uid' : String)
      (now now' : Stamp) :
      Repeats s (.request (.offerHandoff caller o retained uid now))
        (.request (.offerHandoff caller o retained' uid' now'))
  | recordEvidence (r : EvidenceRequest) (bytes : Option (List UInt8)) (engine : Option EngineAnswer) :
      Repeats s (.request (.recordEvidence r))
        (.request (.recordEvidence { r with reportBytes := bytes, engine := engine }))
  | observe (index : Nat) (now : Stamp) (call : ObserveCall) (r : ObserveRequest) (kept : Retention)
      (pending : s.calls[index]? = some (.observe call)) (same : call.request.Same r) (valid : ∃ v, r.validate = .ok v)
      (first : s.db.sheets.filed (.observation r.attemptId r.observationId) = none) :
      Repeats s (.commit index now) (.read (.observe call.caller r kept))

def ReserveRequest.Barred (host : Host) (db : DB) (caller : Caller) (r : ReserveRequest) : Prop :=
  ∃ old ∈ db.attempts, old.node = r.node ∧ old.requestKey = r.requestKey ∧
    ReserveBarred host (reserveView db caller r) caller r old

/-- What a repeated call is still judged on before its key is looked at, or beside it. -/
def Barred (host : Host) (db : DB) : Op → Prop
  | .request (.reserve caller workflow r) =>
    ReserveRequest.Barred host db caller { r with workflow := some workflow, external := none }
  | .request (.register caller harness externalId r) | .request (.registerCheck caller harness externalId r) =>
    ∃ x, registrant caller harness externalId = .ok x ∧
      ReserveRequest.Barred host db caller { r with workflow := none, external := some x }
  | .request (.offerHandoff caller o retained _ _) => ∃ driver, caller.driverId = some driver ∧
      ∀ subject, offeredSubject db driver o = .ok subject →
        ∃ e, checkPackage host db o.projectId o.package subject.1 retained = .error e
  | .request (.recordEvidence r) => ∃ r' e, r.validate = .ok r' ∧ storeOptionalBlob db r' = .error e
  | .read (.observe caller r _) => ∀ a, db.attempt? r.attemptId = some a →
      r.contextHash = host.digest a.context.toJson → ∃ e, authorizeReport db caller a r.fence = .error e
  | _ => False

variable {s' : Sys} {op' : Op} {slot : Slot} {payload : String → Json} {reply : Reply}

variable {r r' : ReserveRequest} {harness externalId : String} {i : Identity}

theorem asks_same (h : r.Same r') (w : Option String) (x : Option ExternalIdentity) :
    ({ r' with workflow := w, external := x } : ReserveRequest).asks =
      { r with workflow := w, external := x }.asks := by
  rw [h]
  rfl

theorem askRegister_same (h : r.Same r') :
    askRegister caller harness externalId r' = askRegister caller harness externalId r := by
  unfold askRegister
  simp only [asks_same h]

/-- A repeated call asks for the same. -/
theorem Repeats.asks (h : Repeats s op op') (hasks : s.asks op = some (slot, payload)) (s' : Sys) :
    ∃ payload', s'.asks op' = some (slot, payload') := by
  cases h with
  | reserve caller workflow r r' same =>
    refine ⟨payload, Eq.trans ?_ hasks⟩
    exact congrArg some (asks_same same ..)
  | register caller harness externalId r r' same => exact ⟨payload, (askRegister_same same).trans hasks⟩
  | checked index now caller harness externalId r r' source pending same =>
    have hcall : askRegister caller harness externalId r = some (slot, payload) := by
      rw [Sys.asks, pending] at hasks
      exact hasks
    exact ⟨payload, (askRegister_same same).trans hcall⟩
  | claimNode caller r uid uid' now now' => exact ⟨payload, hasks⟩
  | takeOverClaim caller r uid uid' now now' => exact ⟨payload, hasks⟩
  | offerHandoff caller o retained retained' uid uid' now now' => exact ⟨payload, hasks⟩
  | recordEvidence r bytes engine =>
    obtain ⟨r', hr, hasked⟩ := Option.map_eq_some_iff.mp hasks
    cases hasked
    refine ⟨fun _ => .obj (evidencePayload r'), ?_⟩
    simp only [Sys.asks, Request.asks, validate_again (toOption_some hr) bytes engine]
    rfl
  | observe index now call r kept pending same valid first =>
    rw [Sys.asks, pending] at hasks
    cases hasks
    refine ⟨observationPayload call.caller r, ?_⟩
    rw [same]
    rfl

theorem request_ran {r : Request} (h : (stepOp host s (.request r)).2 = .ok reply) :
    ∃ d, r.run host s.db = .ok (reply, d) := by
  cases hr : r.run host s.db with
  | error e =>
    simp only [stepOp, stepRequest, hr] at h
    cases h
  | ok out =>
    simp only [stepOp, stepRequest, hr] at h
    cases h
    exact ⟨out.2, rfl⟩

theorem request_runs {r : Request} {out : Reply × DB} (h : r.run host s.db = .ok out) :
    ∃ reply, (stepOp host s (.request r)).2 = .ok reply := ⟨out.1, by simp only [stepOp, stepRequest, h]⟩

theorem commit_ran {index : Nat} {call : Call} (hc : s.calls[index]? = some call)
    (h : (stepOp host s (.commit index now)).2 = .ok reply) :
    call.run host s.db now = .ok (reply, (next host s (.commit index now)).db) := by
  cases hr : call.run host s.db now with
  | error e =>
    simp only [stepOp, stepCommit, hc, hr] at h
    cases h
  | ok out =>
    simp only [stepOp, stepCommit, hc, hr, next] at h ⊢
    cases h
    rfl

theorem answer_runs {α : Type} {x : Result (α × DB)} {f : α → Reply} {out : α × DB} (h : x = .ok out) :
    answer x f = .ok (f out.1, out.2) := by
  rw [h]
  rfl

/-- A registration of the same by the same, not barred, is answered. -/
theorem register_again {preflight : Preflight}
    {db₀ db₁ : DB} {out : Reserved} {ref : String} (hsame : r.Same r')
    (hasks : askRegister caller harness externalId r = some (slot, payload))
    (h : register host db₀ caller harness externalId r preflight = .ok (out, db₁)) (hg : Grows db₀ db)
    (hf : db.sheets.filed slot = some ⟨i, host.digest (payload ref), ref⟩)
    (hb : ¬ ∃ x, registrant caller harness externalId = .ok x ∧
      ReserveRequest.Barred host db caller { r' with workflow := none, external := some x }) (preflight' : Preflight) :
    ∃ out, register host db caller harness externalId r' preflight' = .ok out := by
  obtain ⟨x, hx, hasked⟩ := Option.map_eq_some_iff.mp hasks
  have hreg := toOption_some hx
  cases hasked
  simp only [registrant, bind_ok, pure_ok] at hreg
  obtain ⟨actor, hactor, har, hhar, ext, hext, rfl⟩ := hreg
  simp only [register, bind_ok] at h
  obtain ⟨actor', hactor', har', hhar', ext', hext', h⟩ := h
  obtain rfl : actor = actor' := Except.ok.inj (hactor.symm.trans hactor')
  obtain rfl : har = har' := Except.ok.inj (hhar.symm.trans hhar')
  obtain rfl : ext = ext' := Except.ok.inj (hext.symm.trans hext')
  have hsame' : ({ r with workflow := none, external := some ⟨har, ext, actor⟩ } : ReserveRequest).Same
      { r' with workflow := none, external := some ⟨har, ext, actor⟩ } := by
    rw [hsame]
    rfl
  have hfree : ∀ old ∈ db.attempts, _ → _ → _ := fun old hold hn hk hbar =>
    hb ⟨⟨har, ext, actor⟩, toOption_some hx, old, hold, hn, hk, hbar⟩
  obtain ⟨out', hout⟩ := reserveOnce_again hsame' h hg hf hfree preflight'
  refine ⟨out', ?_⟩
  simp only [register, bind_ok]
  exact ⟨actor, hactor, har, hhar, ext, hext, hout⟩

/-- A repeated call that is not barred is answered. -/
theorem Repeats.answered {ref : String} (h : Repeats s op op') (hasks : s.asks op = some (slot, payload))
    (hreply : (stepOp host s op).2 = .ok reply) (hi : reply.identity = some i) (hg : Grows s.db s'.db)
    (hg' : Grows (next host s op).db s'.db)
    (hf : s'.db.sheets.filed slot = some ⟨i, host.digest (payload ref), ref⟩) (hb : ¬ Barred host s'.db op') :
    ∃ reply', (stepOp host s' op').2 = .ok reply' := by
  cases h with
  | reserve caller workflow r r' same =>
    obtain ⟨d, hrun⟩ := request_ran hreply
    obtain ⟨out, hx, -⟩ := answer_reply hrun
    simp only [State.reserve, bind_ok] at hx
    obtain ⟨w, hw, hx⟩ := hx
    cases hasks
    have hsame : ({ r with workflow := some workflow, external := none } : ReserveRequest).Same
        { r' with workflow := some workflow, external := none } := by
      rw [same]
      rfl
    have hfree : ∀ old ∈ s'.db.attempts, _ → _ → _ := fun old hold hn hk hbar => hb ⟨old, hold, hn, hk, hbar⟩
    obtain ⟨out', hout⟩ := reserveOnce_again hsame hx hg hf hfree .none
    have hres : State.reserve host s'.db caller workflow r' = .ok out' := by
      simp only [State.reserve, bind_ok]
      exact ⟨w, hw, hout⟩
    exact request_runs (answer_runs hres)
  | register caller harness externalId r r' same =>
    obtain ⟨d, hrun⟩ := request_ran hreply
    obtain ⟨out, hx, -⟩ := answer_reply hrun
    obtain ⟨out', hout⟩ := register_again same hasks hx hg hf hb .none
    exact request_runs (answer_runs hout)
  | checked index now caller harness externalId r r' source pending same =>
    obtain ⟨out, hx, -⟩ := answer_reply (commit_ran pending hreply)
    have hcall : askRegister caller harness externalId r = some (slot, payload) := by
      rw [Sys.asks, pending] at hasks
      exact hasks
    obtain ⟨out', hout⟩ := register_again same hcall hx hg hf hb .check
    exact request_runs (answer_runs hout)
  | claimNode caller r uid uid' now now' =>
    obtain ⟨d, hrun⟩ := request_ran hreply
    simp only [Request.run] at hrun
    obtain ⟨out, hx, -⟩ := answer_reply hrun
    obtain ⟨driver, hd, hasked⟩ := Option.map_eq_some_iff.mp hasks
    cases hasked
    obtain ⟨out', hout⟩ := claimNode_again hd hx hg hf
    have hrun' : (Request.claimNode caller r uid' now').run host s'.db = .ok (.claim (some out'.1), out'.2) := by
      simp only [Request.run]
      exact answer_runs hout
    exact request_runs hrun'
  | takeOverClaim caller r uid uid' now now' =>
    obtain ⟨d, hrun⟩ := request_ran hreply
    simp only [Request.run] at hrun
    obtain ⟨out, hx, -⟩ := answer_reply hrun
    obtain ⟨driver, hd, hasked⟩ := Option.bind_eq_some_iff.mp hasks
    obtain ⟨reason, hr, hasked⟩ := Option.map_eq_some_iff.mp hasked
    cases hasked
    obtain ⟨out', hout⟩ := takeOverClaim_again hd (toOption_some hr) hx hg hf
    have hrun' : (Request.takeOverClaim caller r uid' now').run host s'.db = .ok (.claim (some out'.1), out'.2) := by
      simp only [Request.run]
      exact answer_runs hout
    exact request_runs hrun'
  | offerHandoff caller o retained retained' uid uid' now now' =>
    obtain ⟨d, hrun⟩ := request_ran hreply
    obtain ⟨out, hx, -⟩ := answer_reply hrun
    obtain ⟨driver, hd, hasked⟩ := Option.map_eq_some_iff.mp hasks
    cases hasked
    obtain ⟨subject, hsubject, hpackage⟩ : ∃ subject, offeredSubject s'.db driver o = .ok subject ∧
        checkPackage host s'.db o.projectId o.package subject.1 retained' = .ok () := by
      by_contra hno
      refine hb ⟨driver, hd, fun subject hsubject => ?_⟩
      cases hp : checkPackage host s'.db o.projectId o.package subject.1 retained' with
      | error e => exact ⟨e, rfl⟩
      | ok u => exact (hno ⟨subject, hsubject, hp⟩).elim
    obtain ⟨out', hout⟩ := offerHandoff_again hd hx hg hf hsubject hpackage
    exact request_runs (answer_runs hout)
  | recordEvidence r bytes engine =>
    obtain ⟨d, hrun⟩ := request_ran hreply
    obtain ⟨out, hx, -⟩ := answer_reply hrun
    obtain ⟨r', hr, hasked⟩ := Option.map_eq_some_iff.mp hasks
    cases hasked
    have hvalid := validate_again (toOption_some hr) bytes engine
    cases hblob : storeOptionalBlob s'.db { r' with reportBytes := bytes, engine := engine } with
    | error e => exact (hb ⟨_, e, hvalid, hblob⟩).elim
    | ok db₂ =>
      obtain ⟨out', hout⟩ := recordEvidence_again (toOption_some hr) hvalid hx hg ⟨rfl, rfl, rfl⟩ hf hblob
      exact request_runs (answer_runs hout)
  | observe index now call r kept pending same valid first =>
    have hrun := commit_ran pending hreply
    simp only [Call.run] at hrun
    obtain ⟨out, hx, rfl⟩ := answer_reply hrun
    simp only [map_ok, Prod.mk.injEq] at hx
    obtain ⟨⟨a, x, d⟩, hx, rfl, rfl⟩ := hx
    rw [Sys.asks, pending] at hasks
    cases hasks
    have hr : r.attemptId = call.request.attemptId ∧ r.observationId = call.request.observationId := by
      rw [same]
      exact ⟨rfl, rfl⟩
    rw [hr.1, hr.2] at first
    have hnone : observation? s.db call.request.attemptId call.request.observationId = none :=
      Option.map_eq_none_iff.mp first
    have href : ref = call.reportRef := by
      have hkept := hg'.filed (observeWrite_files hx hnone)
      exact congrArg Filed.reportRef (Option.some.inj (hf.symm.trans hkept))
    obtain ⟨a', ha', hcontext, late, hauth⟩ : ∃ a', s'.db.attempt? r.attemptId = some a' ∧
        r.contextHash = host.digest a'.context.toJson ∧
        ∃ late, authorizeReport s'.db call.caller a' r.fence = .ok late := by
      by_contra hno
      refine hb (fun b hfound hcontext => ?_)
      cases hauth : authorizeReport s'.db call.caller b r.fence with
      | error e => exact ⟨e, rfl⟩
      | ok late => exact (hno ⟨b, hfound, hcontext, late, hauth⟩).elim
    rw [hr.1] at ha'
    subst href
    obtain ⟨x', hx'⟩ := observeRead_again hx hg hf same valid ha' hauth hcontext kept
    exact ⟨.observed a' x', by simp only [stepOp, stepRead, Read.run, hx', bind, Except.bind, pure, Except.pure]⟩

/-- The keyed calls: reservations and registrations, `claim_node`, `take_over_claim`,
`offer_handoff`, external `observe` and `record_evidence`. -/
def Sys.keyed (s : Sys) : Op → Bool
  | .request (.reserve ..) | .request (.register ..) | .request (.registerCheck ..) | .request (.claimNode ..)
  | .request (.takeOverClaim ..) | .request (.offerHandoff ..) | .request (.recordEvidence _) |
      .read (.observe ..) => true
  | .commit index _ => match s.calls[index]? with
    | some (.observe _) | some (.register ..) => true
    | _ => false
  | _ => false

theorem askRegister_of_ok {r : ReserveRequest} {preflight : Preflight}
    {out : Reserved × DB} (h : register host db caller harness externalId r preflight = .ok out) :
    ∃ asked, askRegister caller harness externalId r = some asked := by
  simp only [register, bind_ok] at h
  obtain ⟨actor, ha, har, hh, ext, he, -⟩ := h
  have hreg : registrant caller harness externalId = .ok ⟨har, ext, actor⟩ := by
    simp only [registrant, bind_ok]
    exact ⟨actor, ha, har, hh, ext, he, rfl⟩
  exact ⟨_, by rw [askRegister, hreg]; rfl⟩

/-- An answered keyed call is filed under a key. -/
theorem keyed_asks (hk : s.keyed op = true) (h : (stepOp host s op).2 = .ok reply) :
    ∃ asked, s.asks op = some asked := by
  cases op with
  | request r =>
    obtain ⟨d, hrun⟩ := request_ran h
    cases r with
    | reserve caller workflow r => exact ⟨_, rfl⟩
    | register caller harness externalId r =>
      obtain ⟨out, hx, -⟩ := answer_reply hrun
      exact askRegister_of_ok hx
    | registerCheck caller harness externalId r =>
      obtain ⟨out, hx, -⟩ := answer_reply hrun
      exact askRegister_of_ok hx
    | claimNode caller r uid now =>
      simp only [Request.run] at hrun
      obtain ⟨out, hx, -⟩ := answer_reply hrun
      simp only [claimNode, bind_ok] at hx
      obtain ⟨driver, hdriver, -⟩ := hx
      exact ⟨_, Option.map_eq_some_iff.mpr ⟨driver, requireDriver_ok hdriver, rfl⟩⟩
    | takeOverClaim caller r uid now =>
      simp only [Request.run] at hrun
      obtain ⟨out, hx, -⟩ := answer_reply hrun
      simp only [takeOverClaim, bind_ok] at hx
      obtain ⟨driver, hdriver, _, _, reason, hreason, -⟩ := hx
      refine ⟨(.takeover r.projectId driver r.requestKey, fun _ => r.payload reason), ?_⟩
      simp only [Sys.asks, Request.asks, requireDriver_ok hdriver, Option.bind_some, hreason]
      rfl
    | offerHandoff caller o retained uid now =>
      obtain ⟨out, hx, -⟩ := answer_reply hrun
      simp only [offerHandoff, bind_ok] at hx
      obtain ⟨driver, hdriver, -⟩ := hx
      exact ⟨_, Option.map_eq_some_iff.mpr ⟨driver, requireDriver_ok hdriver, rfl⟩⟩
    | recordEvidence r =>
      obtain ⟨out, hx, -⟩ := answer_reply hrun
      simp only [recordEvidence, bind_ok] at hx
      obtain ⟨r', hr, -⟩ := hx
      exact ⟨_, by simp only [Sys.asks, Request.asks, hr]; rfl⟩
    | _ => cases hk
  | read r =>
    cases r with
    | observe caller r kept => exact ⟨_, rfl⟩
    | bindRun i runId engine => cases hk
    | reconcile i engine artifact actor => cases hk
  | commit index now =>
    cases hc : s.calls[index]? with
    | none =>
      rw [Sys.keyed, hc] at hk
      cases hk
    | some call =>
      cases call with
      | observe call => exact ⟨_, by rw [Sys.asks, hc]; rfl⟩
      | register caller harness externalId r source =>
        obtain ⟨out, hx, -⟩ := answer_reply (commit_ran hc h)
        obtain ⟨asked, hasked⟩ := askRegister_of_ok hx
        exact ⟨asked, by rw [Sys.asks, hc]; exact hasked⟩
      | bindRun call =>
        rw [Sys.keyed, hc] at hk
        cases hk
      | reconcile call =>
        rw [Sys.keyed, hc] at hk
        cases hk

/-- What a keyed call answered once answers for its key in every later state. -/
structure Settled (host : Host) (s' : Sys) (slot : Slot) (payload : String → Json) (i : Identity) (ref : String) :
    Prop where
  filed : s'.db.sheets.filed slot = some ⟨i, host.digest (payload ref), ref⟩
  answered : ∀ op payload' reply, s'.asks op = some (slot, payload') → (stepOp host s' op).2 = .ok reply →
    reply.identity = some i ∧ (next host s' op).db.sheets = s'.db.sheets ∧
      host.digest (payload' ref) = host.digest (payload ref)
  refused : ∀ op payload', s'.asks op = some (slot, payload') → host.digest (payload' ref) ≠ host.digest (payload ref) →
    (∃ e, (stepOp host s' op).2 = .error e) ∧ (next host s' op).db = s'.db

theorem settled_later (ops : List Op) (hasks : (after host ops).asks op = some (slot, payload))
    (h : (stepOp host (after host ops) op).2 = .ok reply) (hi : reply.identity = some i) (more : List Op) :
    ∃ ref, Settled host (after host (ops ++ op :: more)) slot payload i ref := by
  have hanswers := step_answers hasks h
  obtain ⟨ref, hfiled⟩ := hanswers.new i hi
  have hgrows : Grows (next host (after host ops) op).db (after host (ops ++ op :: more)).db := by
    rw [after_cons, ← after_snoc]
    exact after_grows host (ops ++ [op]) more
  have hkept := hgrows.filed hfiled
  have hanswered : ∀ op' payload' reply', (after host (ops ++ op :: more)).asks op' = some (slot, payload') →
      (stepOp host (after host (ops ++ op :: more)) op').2 = .ok reply' → reply'.identity = some i ∧
        (next host (after host (ops ++ op :: more)) op').db.sheets = (after host (ops ++ op :: more)).db.sheets ∧
        host.digest (payload' ref) = host.digest (payload ref) := by
    intro op' payload' reply' hasks' h'
    obtain ⟨hid, hhash, hsheets⟩ := (step_answers hasks' h').same _ hkept
    exact ⟨hid, hsheets, hhash.symm⟩
  refine ⟨ref, hkept, hanswered, ?_⟩
  intro op' payload' hasks' hne
  cases h' : (stepOp host (after host (ops ++ op :: more)) op').2 with
  | ok reply' => exact (hne (hanswered op' payload' reply' hasks' h').2.2).elim
  | error e => exact ⟨⟨e, rfl⟩, refused_db h'⟩

end Runs

/-- Keyed requests are idempotent, over every run: what an answered call made is filed
under its key for good; in every later state a call with that key is refused and changes
nothing, or answers the same identity, adds no row and has the same payload digest; and
the same call again is answered unless it is barred. The same holds of a message that was
sent, where nothing bars the repeated call. -/
theorem keyed_requests (host : Host) (ops : List Op) (rt : Mail.Runtime) (old : Mail.OldMailbox) (mail : List Mail.Op) :
    (∀ op reply, (after host ops).keyed op = true → (stepOp host (after host ops) op).2 = .ok reply →
      ∃ slot payload, (after host ops).asks op = some (slot, payload) ∧
        ∀ i, reply.identity = some i → ∀ more, ∃ ref,
          Settled host (after host (ops ++ op :: more)) slot payload i ref ∧
          ∀ op', Repeats (after host ops) op op' → ¬ Barred host (after host (ops ++ op :: more)).db op' →
            ∃ reply', (stepOp host (after host (ops ++ op :: more)) op').2 = .ok reply' ∧ reply'.identity = some i ∧
              (next host (after host (ops ++ op :: more)) op').db.sheets = (after host (ops ++ op :: more)).db.sheets) ∧
    ∀ p r reply m', Mail.sendDirectorMessage rt (Mail.after rt old mail) p r = .ok (reply, m') →
      reply.replayed = false →
      ∀ more, ∃ r' destination letter, r.validate rt = .ok (r', destination) ∧ reply.answer.letter = some letter ∧
        Mail.SendSettled rt (Mail.after rt old (mail ++ .send p r :: more)) p.actor r'.senderProjectId r'.requestKey
          r'.payload letter := by
  refine ⟨?_, fun p r reply m' h hnew more => Mail.send_settled rt old mail p r reply m' h hnew more⟩
  intro op reply hkeyed h
  obtain ⟨⟨slot, payload⟩, hasks⟩ := keyed_asks hkeyed h
  refine ⟨slot, payload, hasks, fun i hi more => ?_⟩
  obtain ⟨ref, hsettled⟩ := settled_later ops hasks h hi more
  refine ⟨ref, hsettled, fun op' hrep hb => ?_⟩
  have hg : Grows (after host ops).db (after host (ops ++ op :: more)).db := after_grows host ops (op :: more)
  have hg' : Grows (next host (after host ops) op).db (after host (ops ++ op :: more)).db := by
    rw [after_cons, ← after_snoc]
    exact after_grows host (ops ++ [op]) more
  obtain ⟨payload', hasks'⟩ := hrep.asks hasks (after host (ops ++ op :: more))
  obtain ⟨reply', hreply'⟩ := hrep.answered hasks h hi hg hg' hsettled.filed hb
  obtain ⟨hid, hsheets, -⟩ := hsettled.answered op' payload' reply' hasks' hreply'
  exact ⟨reply', hreply', hid, hsheets⟩

namespace Sample

/-- A registration that names the claim it rides on. -/
def naming : Op :=
  .request (.register (driven "d1") "harness" "session-1"
    { requestAt "1" none 2000000 with claimId := some "claim-k1", fence := some 1 })

end Sample

open Sample in
/-- The same registration again, once its claim is released, is refused. -/
theorem keyed_requests_judged : Repeats (after machine held) naming naming ∧
    (stepOp machine (after machine held) naming).2.isOk = true ∧
    (stepOp machine (after machine (held ++ [naming, .request (.releaseClaim (driven "d1") "p" "claim-k1" 1 "done")]))
      naming).2.isOk = false := by
  refine ⟨Repeats.register _ _ _ _ _ rfl, ?_⟩
  decide +kernel

end AItelier.State
