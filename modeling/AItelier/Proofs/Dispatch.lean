import AItelier.Proofs.Reports

namespace AItelier.State

open AItelier.Lib AItelier.Ledger

variable {db db' : DB} {host : Host} {caller : Caller} {r : ReserveRequest} {s : Sys} {op : Op} {row : Attempt}
  {c : Claim} {k : NodeId} {claimId : Option String} {fence : Option Int} {now : Stamp}

section Claim

/-- The claim a dispatch rides on: the caller's own, live, in its lease or grace, for
implementation or a review it named, and the one that the caller named. -/
structure Rides (db : DB) (k : NodeId) (caller : Caller) (claimId : Option String) (fence : Option Int)
    (now : Stamp) (review : Bool) (c : Claim) : Prop where
  held : c ∈ db.claims
  node : c.node = k
  live : c.status = .live
  lease : now < addSeconds c.leaseExpiresAt graceSeconds
  own : some c.driverId = caller.driverId
  purpose : c.purpose = .implement ∨ (c.purpose = .review ∧ review = true ∧ claimId = some c.claimId)
  named : ∀ i ∈ claimId, i = c.claimId
  fenced : ∀ f ∈ fence, f = (c.fence : Int)

theorem lt_grace_of_lease {expires : Stamp} (h : leaseState (some expires) now ≠ .reclaimable) :
    now < addSeconds expires graceSeconds := by
  unfold leaseState at h
  dsimp only at h
  split_ifs at h with h1 h2
  · exact Nat.lt_of_lt_of_le h1 (Nat.le_add_right ..)
  · exact h2
  · exact absurd rfl h

theorem namedDispatch_ok {live lapsed : Option Claim} {key i : String} {driverId : Option String}
    (h : namedDispatch live lapsed key driverId i fence = .ok c) :
    live = some c ∧ c.claimId = i ∧ some c.driverId = driverId ∧ ∀ f ∈ fence, f = (c.fence : Int) := by
  simp only [namedDispatch, bind_ok, orElse_ok, ensure_ok, pure_ok] at h
  obtain ⟨x, hx, _, hd, _, hf, rfl⟩ := h
  obtain ⟨hl, hi⟩ := Option.filter_eq_some_iff.mp hx
  exact ⟨hl, of_decide_eq_true hi, hd, hf⟩

/-- An ordinary dispatch rides on the node's live implement claim, or on none:
outside an enforced project, or as break glass. -/
theorem implementDispatch_ok {breakGlass : Bool} {claim : Option Claim}
    (h : implementDispatch host db k caller claimId fence now = .ok (claim, breakGlass)) :
    (∀ c ∈ claim, Rides db k caller claimId fence now false c) ∧
    (claim = none → enforced db k.1 = false ∨ caller.isAdmin = true) := by
  have hlive : ∀ {x : Claim}, (liveImplementClaim db k now).1 = some x → some x.driverId = caller.driverId →
      (∀ i ∈ claimId, i = x.claimId) → (∀ f ∈ fence, f = (x.fence : Int)) →
      Rides db k caller claimId fence now false x := by
    intro x hx hd hn hf
    obtain ⟨h1, h2, h3, h4, h5⟩ := liveImplementClaim_live hx
    exact ⟨h1, h2, h3, lt_grace_of_lease h5, hd, .inl h4, hn, hf⟩
  simp only [implementDispatch, bind_ok, optionMapM_ok, ite_ok, pure_ok, Prod.mk.injEq] at h
  obtain ⟨named, hnamed, ⟨he, rfl, _⟩ | ⟨he, h⟩⟩ := h
  · refine ⟨fun c hc => ?_, fun _ => .inl he⟩
    obtain rfl : named = some c := hc
    rcases hnamed with ⟨_, hn⟩ | ⟨i, x, rfl, hx, hn⟩
    · cases hn
    · cases hn
      obtain ⟨hl, hi, hd, hf⟩ := namedDispatch_ok hx
      exact hlive hl hd (fun j hj => (Option.some.inj hj).symm.trans hi.symm) hf
  · have hsame : ∀ x, (liveImplementClaim db k now).1 = some x → ∀ i ∈ claimId, i = x.claimId := by
      intro x hx i hi
      rcases hnamed with ⟨hnone, _⟩ | ⟨j, y, hj, hy, _⟩
      · rw [hnone] at hi
        cases hi
      · obtain ⟨hl, hid, _, _⟩ := namedDispatch_ok hy
        have hxy : x = y := Option.some.inj (hx.symm.trans hl)
        have hij : j = i := Option.some.inj (hj.symm.trans hi)
        rw [hxy, hid, hij]
    split at h
    · next x hx =>
      simp only [ite_ok, bind_ok, ensure_ok, pure_ok, throw_ok, Prod.mk.injEq, and_false, or_false] at h
      rcases h with ⟨hd, _, hf, rfl, _⟩ | ⟨_, hadmin, rfl, _⟩
      · refine ⟨fun c hc => ?_, fun hn => by cases hn⟩
        cases hc
        exact hlive hx hd (hsame x hx) hf
      · exact ⟨fun c hc => (by cases hc), fun _ => .inr hadmin⟩
    · simp only [ite_ok, pure_ok, throw_ok, Prod.mk.injEq, and_false, or_false] at h
      obtain ⟨hadmin, rfl, _⟩ := h
      exact ⟨fun c hc => (by cases hc), fun _ => .inr hadmin⟩

theorem dispatchClaim_ok {review breakGlass : Bool} {claim : Option Claim}
    (h : dispatchClaim host db k caller claimId fence now review = .ok (claim, breakGlass)) :
    (∀ c ∈ claim, Rides db k caller claimId fence now review c) ∧
    (claim = none → enforced db k.1 = false ∨ caller.isAdmin = true) := by
  unfold dispatchClaim at h
  split at h
  · next x hx =>
    obtain ⟨i, hi, hfind⟩ := Option.bind_eq_some_iff.mp hx
    have hp := List.find?_some hfind
    simp only [decide_eq_true_eq] at hp
    simp only [reviewDispatch, bind_ok, ensure_ok, pure_ok, Prod.mk.injEq] at h
    obtain ⟨_, ⟨_, hd, _, hf, _, _, _, hl, _, _, rfl⟩, rfl, _⟩ := h
    split_ifs at hi with hreview
    refine ⟨fun c hc => ?_, fun hn => by cases hn⟩
    cases hc
    refine ⟨List.mem_of_find?_eq_some hfind, hp.2.1, hl.1, lt_grace_of_lease hl.2, hd,
      .inr ⟨hp.2.2, hreview, by rw [hi, hp.1]⟩, ?_, ?_⟩
    · intro j hj
      rw [hi] at hj
      exact (Option.some.inj hj).symm.trans hp.1.symm
    · intro f hfe
      rw [hf] at hfe
      exact (Option.some.inj hfe).symm
  · obtain ⟨hrides, hnone⟩ := implementDispatch_ok h
    refine ⟨fun c hc => ?_, hnone⟩
    obtain ⟨h1, h2, h3, h4, h5, h6 | ⟨_, hfalse, _⟩, h7, h8⟩ := hrides c hc
    · exact ⟨h1, h2, h3, h4, h5, .inl h6, h7, h8⟩
    · cases hfalse

end Claim

section Admission

/-- The caller and request of a step that may admit an attempt. -/
def Sys.admission (s : Sys) : Op → Option (Caller × ReserveRequest)
  | .request (.reserve caller _ r) => some (caller, { r with external := none })
  | .request (.register caller harness externalId r) =>
    some (caller, { r with external := some ⟨harness, externalId, caller.actor⟩ })
  | .commit index _ => s.calls[index]?.bind (fun call => match call with
    | .register caller harness externalId r _ =>
      some (caller, { r with external := some ⟨harness, externalId, caller.actor⟩ })
    | _ => none)
  | _ => none

/-- `out` is what `_reserve_once` makes of `r`, filled in. -/
def Reserves (host : Host) (db : DB) (caller : Caller) (r : ReserveRequest) (db' : DB) : Prop :=
  ∃ w x p out, x.isSome = r.external.isSome ∧
    reserveOnce host db caller { r with workflow := w, external := x } p = .ok (out, db')

theorem register_reserves {harness externalId : String} {preflight : Preflight} {reply : Reply}
    (h : answer (register host db caller harness externalId r preflight) .reserved = .ok (reply, db')) :
    Reserves host db caller { r with external := some ⟨harness, externalId, caller.actor⟩ } db' := by
  obtain ⟨out, h⟩ := answer_ok h
  obtain ⟨e, p, h⟩ := register_ok h
  exact ⟨none, some e, p, out, rfl, h⟩

/-- A step that may admit is refused and changes nothing, or it reserves. -/
theorem admission_step (host : Host) (h : s.admission op = some (caller, r)) :
    ((∃ e, (stepOp host s op).2 = .error e) ∧ (next host s op).db = s.db) ∨
    Reserves host s.db caller r (next host s op).db := by
  cases op with
  | request q =>
    cases hr : q.run host s.db with
    | error e =>
      simp only [next, stepOp, stepRequest, hr]
      exact .inl ⟨⟨e, rfl⟩, trivial⟩
    | ok out =>
      simp only [next, stepOp, stepRequest, hr]
      refine .inr ?_
      cases q with
      | reserve who workflow x =>
        cases h
        obtain ⟨out, hr⟩ := answer_ok hr
        obtain ⟨w, p, hr⟩ := reserve_ok hr
        exact ⟨w, none, p, out, rfl, hr⟩
      | register who harness externalId x =>
        cases h
        exact register_reserves hr
      | _ => cases h
  | read q => cases h
  | commit index now =>
    obtain ⟨call, hc, h⟩ := Option.bind_eq_some_iff.mp h
    cases hr : call.run host s.db now with
    | error e =>
      simp only [next, stepOp, stepCommit, hc, hr]
      exact .inl ⟨⟨e, rfl⟩, trivial⟩
    | ok out =>
      simp only [next, stepOp, stepCommit, hc, hr]
      refine .inr ?_
      cases call with
      | register who harness externalId x source =>
        cases h
        exact register_reserves hr
      | _ => cases h

theorem reserveView_claims (db : DB) (caller : Caller) (r : ReserveRequest) :
    (reserveView db caller r).claims = db.claims := side_claims (reserveView_side r)

theorem reserveView_attempts (db : DB) (caller : Caller) (r : ReserveRequest) :
    (reserveView db caller r).attempts = db.attempts := core_attempts (core_of_body (reserveView_body ..))

theorem reserveView_enforced (db : DB) (caller : Caller) (r : ReserveRequest) (p : String) :
    enforced (reserveView db caller r) p = enforced db p := by
  change enforced (reserveView db caller r).body p = enforced db.body p
  rw [reserveView_body]

theorem reserveView_node? (db : DB) (caller : Caller) (r : ReserveRequest) (k : NodeId) :
    (reserveView db caller r).node? k = db.node? k := core_node? (core_of_body (reserveView_body ..)) k

theorem bindClaim_attempts (db : DB) (claim : Option Claim) (i : String) :
    (bindClaim db claim i).attempts = db.attempts := core_attempts (core_of_body (bindClaim_body ..))

theorem admit_attempts (db : DB) (r : ReserveRequest) (row : Attempt) (claim : Option Claim) (breakGlass : Bool) :
    (writeAdmission db r row claim breakGlass).attempts = db.attempts ++ [row] := by
  unfold writeAdmission
  cases claim <;> cases r.external <;> cases row.context.priorCandidate <;> rfl

theorem admit_claims (db : DB) (r : ReserveRequest) (row : Attempt) (claim : Option Claim) (breakGlass : Bool) :
    (writeAdmission db r row claim breakGlass).claims = (bindClaim db claim row.attemptId).claims := by
  unfold writeAdmission
  cases claim <;> cases r.external <;> cases row.context.priorCandidate <;> rfl

/-- A row that a step adds was admitted by `_reserve_once`. -/
theorem admitted_ok (hcall : s.admission op = some (caller, r)) (hnew : row ∈ (next host s op).db.attempts)
    (hfresh : s.db.attempt? row.attemptId = none) :
    ∃ w x node claim breakGlass, x.isSome = r.external.isSome ∧ s.db.node? r.node = some node ∧
      Admission host (reserveView s.db caller { r with workflow := w, external := x }) caller
        { r with workflow := w, external := x } row node claim breakGlass (next host s op).db := by
  have hnot : row ∉ s.db.attempts := fun h => lookup_eq_none.mp hfresh row h rfl
  rcases admission_step host hcall with ⟨_, hsame⟩ | ⟨w, x, p, out, hx, hok⟩
  · rw [hsame] at hnew
    exact absurd hnew hnot
  · rcases reserveOnce_ok hok with ⟨claim, i, hdb⟩ | ⟨row', node, claim, bg, _, hn, hadm⟩
    · rw [hdb, bindClaim_attempts, reserveView_attempts] at hnew
      exact absurd hnew hnot
    · have hrow : row = row' := by
        rw [hadm.written, admit_attempts, reserveView_attempts] at hnew
        rcases List.mem_append.mp hnew with hold | hlast
        · exact absurd hold hnot
        · exact List.mem_singleton.mp hlast
      subst hrow
      rw [reserveView_node?] at hn
      exact ⟨w, x, node, claim, bg, hx, hn, hadm⟩

end Admission

section Enforced

theorem Rides.of_claims {review : Bool} (hc : db'.claims = db.claims)
    (h : Rides db' k caller claimId fence now review c) : Rides db k caller claimId fence now review c :=
  ⟨hc ▸ h.held, h.node, h.live, h.lease, h.own, h.purpose, h.named, h.fenced⟩

theorem enforced_rides {review breakGlass : Bool} {claim : Option Claim} (he : enforced db r.projectId = true)
    (hadmin : caller.isAdmin = false) (h : dispatchClaim host (reserveView db caller r) r.node caller r.claimId r.fence
      r.claimNow review = .ok (claim, breakGlass)) :
    ∃ c, claim = some c ∧ Rides db r.node caller r.claimId r.fence r.claimNow review c := by
  obtain ⟨hrides, hnone⟩ := dispatchClaim_ok h
  cases claim with
  | none =>
    rcases hnone rfl with hoff | hisAdmin
    · rw [reserveView_enforced] at hoff
      exact absurd (hoff.symm.trans he) Bool.false_ne_true
    · exact absurd (hadmin.symm.trans hisAdmin) Bool.false_ne_true
  | some c => exact ⟨c, rfl, (hrides c rfl).of_claims (reserveView_claims ..)⟩

theorem bindClaim_bound {i : String} (h : c ∈ db.claims) :
    { c with attemptId := some i } ∈ (bindClaim db (some c) i).claims := by
  have hmem := List.mem_map_of_mem (f := fun x : Claim => if decide (x.claimId = c.claimId) then
    { x with attemptId := some i } else x) h
  simp only [decide_true, if_true] at hmem
  exact hmem

/-- A reservation under a new request key has judged its claim. -/
theorem reserveOnce_dispatched {p : Preflight} {out : Reserved}
    (h : reserveOnce host db caller r p = .ok (out, db'))
    (hkey : ∀ a ∈ db.attempts, a.node = r.node → a.requestKey ≠ r.requestKey) :
    ∃ node claim breakGlass, db.node? r.node = some node ∧
      dispatchClaim host (reserveView db caller r) r.node caller r.claimId r.fence r.claimNow
        (r.external.isSome && decide (node.status = .CANDIDATE)) = .ok (claim, breakGlass) := by
  simp only [reserveOnce, bind_ok] at h
  obtain ⟨_, _, node, hnode, h⟩ := h
  have hn := nodeOf_ok hnode
  rw [reserveView_node?] at hn
  split at h
  · next old hold =>
    have hp := List.find?_some hold
    have hmem := List.mem_of_find?_eq_some hold
    simp only [decide_eq_true_eq] at hp
    rw [reserveView_attempts] at hmem
    exact absurd hp.2 (hkey old hmem hp.1)
  · simp only [admitNew, bind_ok] at h
    obtain ⟨_, _, _, _, _, _, ⟨claim, bg⟩, hclaim, _⟩ := h
    exact ⟨node, claim, bg, hn, hclaim⟩

/-- Enforced dispatch. In an enforced project a caller that is no admin is admitted
on a live claim of its own and no other, which ends the transaction bound to the
attempt; without one a new request is refused and nothing changes. -/
theorem enforced_dispatch (host : Host) (ops : List Op) (op : Op) (caller : Caller) (r : ReserveRequest)
    (hcall : (after host ops).admission op = some (caller, r)) (hadmin : caller.isAdmin = false)
    (he : enforced (after host ops).db r.projectId = true) :
    (∀ row ∈ (next host (after host ops) op).db.attempts, (after host ops).db.attempt? row.attemptId = none →
      row.node = r.node ∧ ∃ n c, (after host ops).db.node? r.node = some n ∧
        Rides (after host ops).db r.node caller r.claimId r.fence r.claimNow
          (decide (row.executionKind = .external ∧ n.status = .CANDIDATE)) c ∧
        { c with attemptId := some row.attemptId } ∈ (next host (after host ops) op).db.claims) ∧
    ((∀ a ∈ (after host ops).db.attempts, a.node = r.node → a.requestKey ≠ r.requestKey) →
      (¬ ∃ n c, (after host ops).db.node? r.node = some n ∧
        Rides (after host ops).db r.node caller r.claimId r.fence r.claimNow
          (r.external.isSome && decide (n.status = .CANDIDATE)) c) →
      (∃ e, (stepOp host (after host ops) op).2 = .error e) ∧
        (next host (after host ops) op).db = (after host ops).db) := by
  constructor
  · intro row hnew hfresh
    obtain ⟨w, x, node, claim, bg, hx, hn, hadm⟩ := admitted_ok hcall hnew hfresh
    obtain ⟨context, hrow⟩ := hadm.made
    have hnode : row.node = r.node := by
      rw [hrow]
      rfl
    obtain ⟨c, rfl, hc⟩ := enforced_rides (r := { r with workflow := w, external := x }) he hadmin hadm.claimed
    have hkind : decide (row.executionKind = .external ∧ node.status = .CANDIDATE) =
        (x.isSome && decide (node.status = .CANDIDATE)) := by
      rw [hrow, admittedAttempt]
      cases x <;> simp
    refine ⟨hnode, node, c, hn, ?_, ?_⟩
    · rw [hkind]
      exact hc
    · rw [hadm.written, admit_claims]
      refine bindClaim_bound ?_
      rw [reserveView_claims]
      exact hc.held
  · intro hkey hno
    rcases admission_step host hcall with hrefused | ⟨w, x, p, out, hx, hok⟩
    · exact hrefused
    · obtain ⟨node, claim, bg, hn, hclaim⟩ := reserveOnce_dispatched hok hkey
      obtain ⟨c, _, hc⟩ := enforced_rides (r := { r with workflow := w, external := x }) he hadmin hclaim
      rw [hx] at hc
      exact absurd ⟨node, c, hn, hc⟩ hno

namespace Sample

/-- A project that enforces claims. -/
def guarded : List Op :=
  project [spec "a" []] ++ [team, .request (.setClaimEnforcement owner "p" .on 0 "from now on")]

def claimed (d key workspace : String) (now : Stamp) : Op :=
  .request (.claimNode (driven d) ⟨"p", "a", .implement, 1, key, 7200, workspace, none⟩ ("claim-" ++ key) now)

def requestAt (uid : String) (base : Option String) (now : Stamp) : ReserveRequest :=
  { reserveRequest "a" uid with baseSha := base, claimNow := now, leaseNow := now }

def registeredAt (d uid : String) (now : Stamp) : Op :=
  .request (.register (driven d) "harness" ("session-" ++ uid) (requestAt uid none now))

def held : List Op := guarded ++ [claimed "d1" "k1" "h:/w#one" 1000000]

end Sample

open Sample in
/-- The holder of the claim is admitted on it; a second driver is refused. -/
theorem enforced_dispatch_held :
    (∃ (row : Attempt) (c : Claim), row ∈ (next machine (after machine held)
      (registeredAt "d1" "1" 2000000)).db.attempts ∧
      some c.driverId = (driven "d1").driverId ∧ c.purpose = .implement ∧
      { c with attemptId := some row.attemptId } ∈
        (next machine (after machine held) (registeredAt "d1" "1" 2000000)).db.claims) ∧
    (∃ e, (stepOp machine (after machine held) (registeredAt "d2" "2" 2000000)).2 = .error e) ∧
      (next machine (after machine held) (registeredAt "d2" "2" 2000000)).db = (after machine held).db := by
  have ⟨he, hnew, hnone, hkey, hown, hp⟩ : enforced (after machine held).db "p" = true ∧
      ((next machine (after machine held) (registeredAt "d1" "1" 2000000)).db.attempt? "attempt-1").isSome = true ∧
      ((after machine held).db.attempt? "attempt-1").isNone = true ∧ (after machine held).db.attempts.length = 0 ∧
      (∀ c ∈ (after machine held).db.claims, some c.driverId ≠ (driven "d2").driverId) ∧
      ∀ c ∈ (after machine held).db.claims, c.purpose = .implement := by
    decide
  obtain ⟨row, hrow⟩ := Option.isSome_iff_exists.mp hnew
  have hid : row.attemptId = "attempt-1" := attempt_id hrow
  obtain ⟨hadmitted, _⟩ := enforced_dispatch machine held (registeredAt "d1" "1" 2000000) (driven "d1") _ rfl rfl he
  obtain ⟨_, n, c, _, hc, hbound⟩ := hadmitted row (lookup_mem hrow) (by
    rw [hid]
    exact Option.isNone_iff_eq_none.mp hnone)
  obtain ⟨_, hrefuse⟩ := enforced_dispatch machine held (registeredAt "d2" "2" 2000000) (driven "d2") _ rfl rfl he
  refine ⟨⟨row, c, lookup_mem hrow, hc.own, hp c hc.held, hbound⟩, hrefuse ?_ ?_⟩
  · rw [List.eq_nil_of_length_eq_zero hkey]
    intro a ha
    cases ha
  · rintro ⟨n, c, _, hc⟩
    exact hown c hc.held hc.own

end Enforced

end AItelier.State
