import AItelier.Refine.Projection

namespace AItelier.State

open AItelier.Lib

variable {db db' : DB} {host : Host}

/-- The tables that claims, leases, hand-offs and presence never write. -/
def DB.body (db : DB) : DB :=
  { db with claims := [], claimHistory := [], events := [], handoffs := [], drivers := [], declarations := [] }

theorem core_of_body (h : db'.body = db.body) : db'.core = db.core := by
  change db'.body.core = db.body.core
  rw [h]

theorem node?_of_body (h : db'.body = db.body) : db'.node? = db.node? := by
  funext k
  change lookup Node.id db'.body.nodes k = lookup Node.id db.body.nodes k
  rw [h]

variable {c : Claim} {p claimId : String} {caller : Caller} {now : Stamp}

theorem claimOf_mem (h : claimOf db p claimId = .ok c) : c ∈ db.claims := by
  simp only [claimOf, bind_ok, orElse_ok, Option.filter_eq_some_iff] at h
  obtain ⟨_, _, hc, _⟩ := h
  exact lookup_mem hc

theorem claimOf_id (h : claimOf db p claimId = .ok c) : c.claimId = claimId := by
  simp only [claimOf, bind_ok, orElse_ok, Option.filter_eq_some_iff] at h
  obtain ⟨_, _, h, _⟩ := h
  exact lookup_key h

theorem claimOf_project (h : claimOf db p claimId = .ok c) : c.projectId = p := by
  simp only [claimOf, bind_ok, orElse_ok, Option.filter_eq_some_iff, decide_eq_true_eq] at h
  obtain ⟨_, _, _, hp⟩ := h
  exact hp

section Loops
variable {α : Type*}

theorem foldl_body {f : DB → α → DB} (hf : ∀ db a, (f db a).body = db.body) (db : DB) (l : List α) :
    (l.foldl f db).body = db.body :=
  foldl_keeps DB.body hf db l

end Loops

@[simp] theorem event_body (db : DB) (p : String) (k : Option String) (type : String)
    (payload : List (String × Json)) : (db.event p k type payload).body = db.body := rfl

@[simp] theorem retireClaim_body (db : DB) (actor : String) (claim : Claim) (status : ClaimStatus)
    (reason : String) : (retireClaim db actor claim status reason).body = db.body := rfl

theorem markBack_body (db : DB) (driverId : Option String) (now : Stamp) :
    (markBack db driverId now).body = db.body := by
  cases driverId with
  | none => rfl
  | some d =>
    by_cases h : d = ""
    · simp [markBack, h]
    · simp [markBack, h, DB.body]

theorem bindClaim_body (db : DB) (claim : Option Claim) (attemptId : String) :
    (bindClaim db claim attemptId).body = db.body := by
  cases claim <;> rfl

theorem sweepOne_body (actor p : String) (db : DB) (lapsed : Lapsed) :
    (sweepOne actor p db lapsed).body = db.body := by
  cases lapsed with
  | claim row phase =>
    by_cases h : phase = .reclaimable
    · simp only [sweepOne, h, if_true]
      rfl
    · simp only [sweepOne, h, if_false]
      rfl
  | attempt row phase => rfl

theorem sweep_body (db : DB) (actor p : String) (now : Stamp) (nodeKey : Option String) :
    (sweep db actor p now nodeKey).body = db.body :=
  foldl_body (sweepOne_body actor p) db _

theorem acquire_ok {actor reason : String} {claim : Claim} {extra : List (String × Json)}
    (h : acquire db actor claim reason extra = .ok db') :
    ((db.claim? claim.claimId).isNone ∧
      ¬ (claim.liveExclusive claim.node ∧ (exclusiveHolder db claim.node).isSome)) ∧
    db' = (history { db with claims := db.claims ++ [claim] } actor claim .live reason).event claim.projectId
      (some claim.nodeKey) "claim_acquired" (claimAcquired actor claim ++ extra) := by
  simp only [acquire, insertClaim, bind_ok, ensure_ok, pure_ok] at h
  obtain ⟨_, ⟨_, ⟨h1, _, h3⟩, rfl⟩, rfl⟩ := h
  exact ⟨⟨h1, h3⟩, rfl⟩

theorem acquire_body {actor reason : String} {claim : Claim} {extra : List (String × Json)}
    (h : acquire db actor claim reason extra = .ok db') : db'.body = db.body := by
  obtain ⟨_, rfl⟩ := acquire_ok h
  rfl

theorem claimNode_body {r : ClaimRequest} {claimId : String}
    (h : claimNode host db caller r claimId now = .ok (c, db')) : db'.body = db.body := by
  simp only [claimNode, bind_ok] at h
  obtain ⟨driver, _, _, _, _, _, _, _, _, _, node, _, h⟩ := h
  split at h
  · simp only [bind_ok, pure_ok, Prod.mk.injEq] at h
    obtain ⟨_, _, _, rfl⟩ := h
    exact markBack_body ..
  · simp only [bind_ok, pure_ok, rescue_ok, Prod.mk.injEq] at h
    obtain ⟨_, _, _, _, _, _, _, hacq, _, rfl⟩ := h
    exact (acquire_body hacq).trans ((sweep_body ..).trans (markBack_body ..))

theorem releaseClaim_body {p claimId reason : String} {fence : Int}
    (h : releaseClaim db caller p claimId fence reason = .ok (c, db')) : db'.body = db.body := by
  simp only [releaseClaim, bind_ok, pure_ok, ite_ok, Prod.mk.injEq] at h
  obtain ⟨_, _, _, _, _, _, claim, _, _, _, _, _, ⟨_, _, rfl⟩ | ⟨_, _, _, _, _, _, rfl⟩⟩ := h
  · rfl
  · rfl

theorem releaseBoundClaims_body (db : DB) (attempt : Attempt) (actor : String) (status : AttemptStatus) :
    (releaseBoundClaims db attempt actor status).body = db.body := by
  unfold releaseBoundClaims
  refine foldl_body (fun db claim => ?_) db _
  rw [releaseBoundOne, event_body, retireClaim_body]

theorem stopBoundClaims_body (db : DB) (actor reason : String) (attempt : Attempt) (newHolder : Option String) :
    (stopBoundClaims db actor reason attempt newHolder).body = db.body := by
  unfold stopBoundClaims
  refine foldl_body (fun db claim => ?_) db _
  rw [endBoundClaim, event_body, retireClaim_body]

@[simp] theorem voidOpenHandoffs_body (db : DB) (attemptId reason : String) :
    (voidOpenHandoffs db attemptId reason).body = db.body := rfl

theorem newClaimFor_body {actor reason workspace driver uid : String} {t : Transfer}
    {purpose : Purpose} {subagent : Option String}
    (h : newClaimFor host db actor t driver now reason workspace purpose subagent uid = .ok (c, db')) :
    db'.body = db.body := by
  simp only [newClaimFor, bind_ok, pure_ok, Prod.mk.injEq] at h
  obtain ⟨_, _, db₁, hacq, _, rfl⟩ := h
  exact acquire_body hacq

section Transfer
variable {actor reason newHolder : String} {attempt : Attempt} {now : Stamp} {ids : Nat → String}

theorem moveClaim_body {m m' : Moving} {claim : Claim}
    (h : moveClaim host actor reason attempt newHolder now ids m claim = .ok m') : m'.db.body = m.db.body := by
  unfold moveClaim at h
  split at h
  · rw [pure_ok] at h
    subst h
    rfl
  · simp only [bind_ok, pure_ok] at h
    obtain ⟨⟨moved, db₁⟩, hnew, rfl⟩ := h
    exact newClaimFor_body hnew

theorem moveDefault_body {m m' : Moving}
    (h : moveDefault host actor reason attempt newHolder now ids m = .ok m') : m'.db.body = m.db.body := by
  unfold moveDefault at h
  split at h
  · rw [pure_ok] at h
    subst h
    rfl
  · rw [pure_ok] at h
    subst h
    rfl
  · simp only [bind_ok, pure_ok] at h
    obtain ⟨⟨moved, db₁⟩, hnew, rfl⟩ := h
    exact newClaimFor_body hnew

theorem transferClaims_body {c : Option Claim}
    (h : transferClaims host db actor reason attempt newHolder now ids = .ok (c, db')) : db'.body = db.body := by
  simp only [transferClaims, bind_ok, pure_ok, Prod.mk.injEq] at h
  obtain ⟨m₁, hloop, m₂, hlast, _, rfl⟩ := h
  have h₀ := stopBoundClaims_body db actor reason attempt (some newHolder)
  have h₁ := foldlM_invariant (I := fun m => m.db.body = db.body)
    (fun m c m' hm hc => (moveClaim_body hc).trans hm) h₀ hloop
  exact (moveDefault_body hlast).trans h₁

end Transfer

theorem takeOverClaim_body {r : ClaimTakeover} {uid : String}
    (h : takeOverClaim host db caller r uid now = .ok (c, db')) : db'.body = db.body := by
  simp only [takeOverClaim, bind_ok] at h
  obtain ⟨driver, _, _, _, reason, _, _, _, _, _, _, _, _, _, h⟩ := h
  split at h
  · simp only [bind_ok, pure_ok, Prod.mk.injEq] at h
    obtain ⟨_, _, _, _, _, rfl⟩ := h
    rfl
  · simp only [bind_ok, pure_ok, Prod.mk.injEq] at h
    obtain ⟨_, _, _, _, _, _, old, _, _, _, _, _, node, _, _, _, _, _, db₁, hacq, _, rfl⟩ := h
    rw [acquire_body hacq, event_body, retireClaim_body, sweep_body]

theorem acceptClaim_body {hd : Handoff} {claimId driver : String} {fence : Int}
    {ids : Nat → String} {c : Option Claim}
    (h : acceptClaim host db caller hd claimId driver fence now ids = .ok (c, db')) : db'.body = db.body := by
  simp only [acceptClaim, bind_ok, pure_ok, Prod.mk.injEq] at h
  obtain ⟨claim, _, _, _, ⟨fresh, db₁⟩, hnew, _, rfl⟩ := h
  rw [newClaimFor_body hnew, event_body, retireClaim_body]

end AItelier.State
