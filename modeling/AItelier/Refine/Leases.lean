import AItelier.Refine.Claims

namespace AItelier.State

open AItelier.Lib

variable {db db' db'' : DB} {host : Host} {caller : Caller}

/-- A reading of a claim that its attempt and its fence do not touch. -/
class Steady {α : Type*} (π : Claim → α) : Prop where
  bound : ∀ c i, π { c with attemptId := i } = π c
  fenced : ∀ c i f, π { c with attemptId := i, fence := f } = π c

/-- The end of the claim `i` does not touch the reading. -/
def Ends {α : Type*} (π : Claim → α) (i : String) : Prop :=
  ∀ c s, c.claimId = i → π { c with status := s } = π c

/-- Nor does the end of any claim that is live. -/
def Spares {α : Type*} (π : Claim → α) (db : DB) : Prop := ∀ c ∈ db.claims, c.status = .live → Ends π c.claimId

/-- The claims keep their reading, in order, with new ones after them; and they
are on nodes of `S` if they were before. -/
structure Keeps {α : Type*} (π : Claim → α) (S : NodeId → Prop) (db db' : DB) : Prop where
  rows : db.claims.map π <+: db'.claims.map π
  nodes : (∀ c ∈ db.claims, S c.node) → ∀ c ∈ db'.claims, S c.node

/-- The claims with the ends of their leases. -/
def leases (db : DB) : List (String × Stamp) := db.claims.map (fun c => (c.claimId, c.leaseExpiresAt))

/-- No lease moves; new claims come after the old ones. -/
def KeepsLeases (db db' : DB) : Prop := leases db <+: leases db'

/-- What a claim was made as, and by which request. -/
structure Charter where
  claimId : String
  node : NodeId
  driverId : String
  purpose : Purpose
  requestKey : String
  requestHash : String
  deriving DecidableEq, Repr

def Claim.charter (c : Claim) : Charter := ⟨c.claimId, c.node, c.driverId, c.purpose, c.requestKey, c.requestHash⟩

instance : Steady (fun c : Claim => (c.claimId, c.leaseExpiresAt)) :=
  ⟨fun _ _ => rfl, fun _ _ _ => rfl⟩

instance : Steady Claim.charter := ⟨fun _ _ => rfl, fun _ _ _ => rfl⟩

theorem charter_spares (db : DB) : Spares Claim.charter db := fun _ _ _ _ _ _ => rfl

variable {α : Type*} {π : Claim → α} {S : NodeId → Prop}

section Rules

theorem Keeps.refl (db : DB) : Keeps π S db db := ⟨List.prefix_refl _, fun h => h⟩

theorem Keeps.trans (h : Keeps π S db db') (h' : Keeps π S db' db'') : Keeps π S db db'' :=
  ⟨h.rows.trans h'.rows, fun hs => h'.nodes (h.nodes hs)⟩

theorem Keeps.of_claims (h : db'.claims = db.claims) : Keeps π S db db' :=
  ⟨by rw [h], by rw [h]; exact fun hs => hs⟩

theorem Keeps.congr {db₁ : DB} (h : Keeps π S db db₁) (hc : db'.claims = db₁.claims) : Keeps π S db db' :=
  h.trans (Keeps.of_claims hc)

theorem Keeps.of_side (h : db'.side = db.side) : Keeps π S db db' := Keeps.of_claims (side_claims h)

theorem Keeps.event {q : String} {k : Option String} {type : String} {payload : List (String × Json)}
    (h : Keeps π S db db') : Keeps π S db (db'.event q k type payload) := ⟨h.rows, h.nodes⟩

theorem Keeps.foldl {β : Type} {f : DB → β → DB} (hf : ∀ db a, Keeps π S db (f db a)) (db : DB)
    (l : List β) : Keeps π S db (l.foldl f db) := by
  induction l generalizing db with
  | nil => exact Keeps.refl db
  | cons a l ih => exact (hf db a).trans (ih (f db a))

theorem Keeps.foldl_mem {β : Type} {f : DB → β → DB} {l : List β} (hf : ∀ a ∈ l, ∀ db, Keeps π S db (f db a))
    (db : DB) : Keeps π S db (l.foldl f db) := by
  induction l generalizing db with
  | nil => exact Keeps.refl db
  | cons a l ih =>
    exact (hf a (List.mem_cons_self ..) db).trans (ih (fun b hb => hf b (List.mem_cons_of_mem a hb)) (f db a))

theorem Spares.congr (h : Spares π db) (hc : db'.claims = db.claims) : Spares π db' := by
  intro c hmem
  rw [hc] at hmem
  exact h c hmem

theorem setClaim_keeps {f : Claim → Claim} (db : DB) (i : String) (hf : ∀ c, c.claimId = i → π (f c) = π c)
    (hn : ∀ c, (f c).node = c.node) : Keeps π S db (db.setClaim i f) := by
  have hrows : (db.setClaim i f).claims.map π = db.claims.map π :=
    map_modifyWhere (fun c hc => hf c (of_decide_eq_true hc)) db.claims
  refine ⟨by rw [hrows], fun hs c hc => ?_⟩
  obtain ⟨c₀, hc₀, rfl⟩ := List.mem_map.mp hc
  by_cases hi : c₀.claimId = i
  · simpa [hi, hn] using hs c₀ hc₀
  · simpa [hi] using hs c₀ hc₀

theorem Keeps.row {c : Claim} (h : Keeps π S db db') (hc : c ∈ db.claims) : ∃ c' ∈ db'.claims, π c' = π c := by
  obtain ⟨c', hc', he⟩ := List.mem_map.mp (h.rows.subset (List.mem_map.mpr ⟨c, hc, rfl⟩))
  exact ⟨c', hc', he⟩

theorem KeepsLeases.row {c : Claim} (h : KeepsLeases db db') (hc : c ∈ db.claims) :
    ∃ c' ∈ db'.claims, c'.claimId = c.claimId ∧ c'.leaseExpiresAt = c.leaseExpiresAt := by
  have hmem : (c.claimId, c.leaseExpiresAt) ∈ leases db := List.mem_map.mpr ⟨c, hc, rfl⟩
  obtain ⟨c', hc', he⟩ := List.mem_map.mp (h.subset hmem)
  rw [Prod.mk.injEq] at he
  exact ⟨c', hc', he.1, he.2⟩

end Rules

variable [Steady π]

section Desk

omit [Steady π] in
theorem retireClaim_keeps {claim : Claim} (he : Ends π claim.claimId) (db : DB) (actor : String)
    (status : ClaimStatus) (reason : String) : Keeps π S db (retireClaim db actor claim status reason) :=
  Keeps.congr (setClaim_keeps db claim.claimId (fun c hc => he c status hc) (fun _ => rfl)) rfl

theorem live_of_retireClaim {actor reason : String} {claim c : Claim} {status : ClaimStatus} (hs : status ≠ .live)
    (hc : c ∈ (retireClaim db actor claim status reason).claims) (hl : c.status = .live) : c ∈ db.claims := by
  obtain ⟨q, hq, rfl⟩ := mem_modifyWhere.mp hc
  split_ifs at hl ⊢ with hid
  · exact (hs hl).elim
  · exact hq

omit [Steady π] in
theorem acquire_keeps {actor reason : String} {claim : Claim} {extra : List (String × Json)}
    (h : acquire db actor claim reason extra = .ok db') (hs : S claim.node) : Keeps π S db db' := by
  obtain ⟨_, rfl⟩ := acquire_ok h
  refine ⟨?_, fun hold c hc => ?_⟩
  · have hrows : db.claims.map π ++ [π claim] = (db.claims ++ [claim]).map π := by simp
    exact ⟨_, hrows⟩
  · rcases List.mem_append.mp hc with hc | hc
    · exact hold c hc
    · rwa [List.mem_singleton.mp hc]

omit [Steady π] in
theorem newClaimFor_keeps {actor reason workspace driver uid : String} {t : Transfer} {now : Stamp}
    {purpose : Purpose} {subagent : Option String} {c : Claim} (hs : S (t.projectId, t.nodeKey))
    (h : newClaimFor host db actor t driver now reason workspace purpose subagent uid = .ok (c, db')) :
    Keeps π S db db' := by
  simp only [newClaimFor, bind_ok, pure_ok, Prod.mk.injEq] at h
  obtain ⟨_, _, db₁, hacq, _, rfl⟩ := h
  exact acquire_keeps hacq hs

theorem bindHeldClaim_keeps (db : DB) (actor reason : String) (attempt : Attempt) (held : Claim) :
    Keeps π S db (bindHeldClaim db actor attempt held reason).2 :=
  Keeps.congr (setClaim_keeps db held.claimId
    (fun c _ => Steady.fenced c (some attempt.attemptId) (nextFence db attempt.node)) (fun _ => rfl)) rfl

omit [Steady π] in
theorem sweepOne_keeps (actor p : String) {lapsed : Lapsed}
    (he : ∀ row phase, lapsed = .claim row phase → Ends π row.claimId) (db : DB) :
    Keeps π S db (sweepOne actor p db lapsed) := by
  cases lapsed with
  | claim row phase =>
    by_cases h : phase = .reclaimable
    · simp only [sweepOne, h, if_true]
      exact (retireClaim_keeps (he row phase rfl) ..).event
    · simp only [sweepOne, h, if_false]
      exact (Keeps.refl _).event
  | attempt row phase => exact (Keeps.refl _).event

theorem due_claim {p : String} {now : Stamp} {nodeKey : Option String} {row : Claim} {phase : LeaseState}
    (h : .claim row phase ∈ due db p now nodeKey) : row ∈ db.claims ∧ row.status = .live := by
  rcases List.mem_append.mp h with h | h
  · obtain ⟨c, hc, hdue⟩ := List.mem_filterMap.mp h
    unfold dueClaim at hdue
    dsimp only at hdue
    split_ifs at hdue with hp
    cases hdue
    simp only [Bool.and_eq_true, decide_eq_true_eq] at hp
    exact ⟨hc, hp.1.1.2.1⟩
  · obtain ⟨a, -, hdue⟩ := List.mem_filterMap.mp h
    unfold dueAttempt at hdue
    split at hdue
    · cases hdue
    · dsimp only at hdue
      split_ifs at hdue
      cases hdue

omit [Steady π] in
theorem sweep_keeps (hsp : Spares π db) (actor p : String) (now : Stamp) (nodeKey : Option String) :
    Keeps π S db (sweep db actor p now nodeKey) := by
  refine Keeps.foldl_mem (fun lapsed hl db₁ => sweepOne_keeps actor p ?_ db₁) db
  rintro row phase rfl
  obtain ⟨hmem, hlive⟩ := due_claim hl
  exact hsp row hmem hlive

theorem live_of_sweep {actor p : String} {now : Stamp} {nodeKey : Option String} {c : Claim}
    (hc : c ∈ (sweep db actor p now nodeKey).claims) (hl : c.status = .live) : c ∈ db.claims := by
  have hfold : ∀ (l : List Lapsed) (db : DB), c ∈ (l.foldl (sweepOne actor p) db).claims → c ∈ db.claims := by
    intro l
    induction l with
    | nil => exact fun _ h => h
    | cons lapsed l ih =>
      intro db h
      have hone := ih _ h
      cases lapsed with
      | claim row phase =>
        by_cases hph : phase = .reclaimable
        · simp only [sweepOne, hph, if_true] at hone
          have hretired : c ∈ (retireClaim db actor row .expired "lease expired and its grace passed").claims := hone
          exact live_of_retireClaim (by decide) hretired hl
        · simp only [sweepOne, hph, if_false] at hone
          exact hone
      | attempt row phase => exact hone
  exact hfold _ _ hc

theorem bindClaim_keeps (db : DB) (claim : Option Claim) (attemptId : String) :
    Keeps π S db (bindClaim db claim attemptId) := by
  cases claim with
  | none => exact Keeps.refl _
  | some c => exact setClaim_keeps db c.claimId (fun c _ => Steady.bound c _) (fun _ => rfl)

omit [Steady π] in
theorem releaseBoundClaims_keeps (hsp : Spares π db) (attempt : Attempt) (actor : String) (status : AttemptStatus) :
    Keeps π S db (releaseBoundClaims db attempt actor status) := by
  unfold releaseBoundClaims
  refine Keeps.foldl_mem (fun claim hc db₁ => ?_) db
  obtain ⟨hmem, hp⟩ := List.mem_filter.mp hc
  have hlive := (of_decide_eq_true hp).2.2
  exact (retireClaim_keeps (hsp claim hmem hlive) db₁ actor _ _).event

omit [Steady π] in
theorem stopBoundClaims_keeps (hsp : Spares π db) (actor reason : String) (attempt : Attempt)
    (newHolder : Option String) : Keeps π S db (stopBoundClaims db actor reason attempt newHolder) := by
  unfold stopBoundClaims
  refine Keeps.foldl_mem (fun claim hc db₁ => ?_) db
  obtain ⟨hmem, hp⟩ := List.mem_filter.mp hc
  have hlive := (of_decide_eq_true hp).2.1
  exact (retireClaim_keeps (hsp claim hmem hlive) db₁ actor _ _).event

end Desk

section Transfer
variable {actor reason newHolder : String} {attempt : Attempt} {now : Stamp} {ids : Nat → String}

theorem moveClaim_keeps {m m' : Moving} {claim : Claim} (hs : S attempt.node)
    (h : moveClaim host actor reason attempt newHolder now ids m claim = .ok m') : Keeps π S m.db m'.db := by
  unfold moveClaim at h
  split at h
  · rw [pure_ok] at h
    subst h
    exact bindHeldClaim_keeps ..
  · simp only [bind_ok, pure_ok] at h
    obtain ⟨⟨moved, db₁⟩, hnew, rfl⟩ := h
    exact newClaimFor_keeps hs hnew

theorem moveDefault_keeps {m m' : Moving} (hs : S attempt.node)
    (h : moveDefault host actor reason attempt newHolder now ids m = .ok m') : Keeps π S m.db m'.db := by
  unfold moveDefault at h
  split at h
  · rw [pure_ok] at h
    subst h
    exact Keeps.refl _
  · rw [pure_ok] at h
    subst h
    exact bindHeldClaim_keeps ..
  · simp only [bind_ok, pure_ok] at h
    obtain ⟨⟨moved, db₁⟩, hnew, rfl⟩ := h
    exact newClaimFor_keeps hs hnew

theorem transferClaims_keeps {c : Option Claim} (hsp : Spares π db) (hs : S attempt.node)
    (h : transferClaims host db actor reason attempt newHolder now ids = .ok (c, db')) : Keeps π S db db' := by
  simp only [transferClaims, bind_ok, pure_ok, Prod.mk.injEq] at h
  obtain ⟨m₁, hloop, m₂, hlast, _, rfl⟩ := h
  have hmid : Keeps π S db m₁.db := by
    refine foldlM_invariant (I := fun m => Keeps π S db m.db) ?_ ?_ hloop
    · exact fun m c m' hm hc => hm.trans (moveClaim_keeps hs hc)
    · exact stopBoundClaims_keeps hsp ..
  exact hmid.trans (moveDefault_keeps hs hlast)

end Transfer

section Holders
variable {now : Stamp}

omit [Steady π] in
theorem claimNode_keeps {r : ClaimRequest} {claimId : String} {c : Claim} (hsp : Spares π db) (hids : ∀ i ∈ db.ids, S i)
    (h : claimNode host db caller r claimId now = .ok (c, db')) : Keeps π S db db' := by
  simp only [claimNode, bind_ok] at h
  obtain ⟨driver, _, _, _, _, _, _, _, _, _, node, hnode, h⟩ := h
  have hs : S (r.projectId, r.nodeKey) := by
    refine hids _ ?_
    have hrow := nodeOf_ok hnode
    rw [node?_of_body (markBack_body db (some driver) now)] at hrow
    exact mem_ids hrow
  split at h
  · simp only [bind_ok, pure_ok, Prod.mk.injEq] at h
    obtain ⟨_, _, _, rfl⟩ := h
    exact Keeps.of_side (markBack_side ..)
  · simp only [bind_ok, pure_ok, rescue_ok, Prod.mk.injEq] at h
    obtain ⟨_, _, _, _, _, _, _, hacq, _, rfl⟩ := h
    have hback := hsp.congr (side_claims (markBack_side (some driver) now))
    exact (Keeps.of_side (markBack_side ..)).trans ((sweep_keeps hback ..).trans (acquire_keeps hacq hs))

variable {fence : Int} {ids : Nat → String} {c : Option Claim}

omit [Steady π] in
theorem releaseClaim_keeps {p claimId reason : String} {c : Claim} (hsp : Spares π db)
    (h : releaseClaim db caller p claimId fence reason = .ok (c, db')) : Keeps π S db db' := by
  simp only [releaseClaim, bind_ok, pure_ok, ite_ok, Prod.mk.injEq] at h
  obtain ⟨_, _, _, _, _, _, claim, hof, _, _, _, _, ⟨_, _, rfl⟩ | ⟨_, _, _, _, hlive, _, rfl⟩⟩ := h
  · exact Keeps.refl _
  · have hmem : claim ∈ db.claims := claimOf_mem hof
    exact (retireClaim_keeps (hsp claim hmem (ensure_ok.mp hlive)) ..).event

omit [Steady π] in
theorem takeOverClaim_keeps {r : ClaimTakeover} {uid : String} {c : Claim} (hsp : Spares π db)
    (hids : ∀ i ∈ db.ids, S i)
    (h : takeOverClaim host db caller r uid now = .ok (c, db')) : Keeps π S db db' := by
  simp only [takeOverClaim, bind_ok] at h
  obtain ⟨driver, _, _, _, reason, _, _, _, _, _, _, _, _, _, h⟩ := h
  split at h
  · simp only [bind_ok, pure_ok, Prod.mk.injEq] at h
    obtain ⟨_, _, _, _, _, rfl⟩ := h
    exact Keeps.refl _
  · simp only [bind_ok, pure_ok, Prod.mk.injEq] at h
    obtain ⟨first, _, _, _, _, _, old, hold, _, _, _, hlive, node, hnode, _, _, _, _, db₁, hacq, _, rfl⟩ := h
    have hend : Ends π old.claimId :=
      hsp old (live_of_sweep (claimOf_mem hold) (ensure_ok.mp hlive)) (ensure_ok.mp hlive)
    have hs : S old.node := by
      refine hids _ ?_
      have hrow := nodeOf_ok hnode
      rw [node?_of_body (sweep_body ..)] at hrow
      have hproject : old.projectId = r.projectId := claimOf_project hold
      rw [Claim.node, hproject]
      exact mem_ids hrow
    exact ((sweep_keeps hsp ..).trans (retireClaim_keeps hend ..)).event.trans (acquire_keeps hacq hs)

omit [Steady π] in
theorem acceptClaim_keeps {hd : Handoff} {claimId driver : String} (hsp : Spares π db)
    (hoffer : ∀ c ∈ db.claims, c.claimId = claimId → S (hd.projectId, c.nodeKey))
    (h : acceptClaim host db caller hd claimId driver fence now ids = .ok (c, db')) : Keeps π S db db' := by
  simp only [acceptClaim, bind_ok, pure_ok, orElse_ok, Prod.mk.injEq] at h
  obtain ⟨claim, hclaim, _, hlive, ⟨fresh, db₁⟩, hnew, _, rfl⟩ := h
  have hend : Ends π claim.claimId := hsp claim (lookup_mem hclaim) (ensure_ok.mp hlive).1
  have hs : S (hd.projectId, claim.nodeKey) := hoffer claim (lookup_mem hclaim) (lookup_key hclaim)
  exact (retireClaim_keeps hend ..).event.trans (newClaimFor_keeps hs hnew)

theorem admit_keeps (r : ReserveRequest) (row : Attempt) (claim : Option Claim) (breakGlass : Bool) :
    Keeps π S db (writeAdmission db r row claim breakGlass) := by
  refine (bindClaim_keeps db claim row.attemptId).trans (Keeps.of_claims ?_)
  unfold writeAdmission
  cases claim <;> cases r.external <;> cases row.context.priorCandidate <;> rfl

theorem reserveOnce_keeps {r : ReserveRequest} {preflight : Preflight} {out : Reserved}
    (h : reserveOnce host db caller r preflight = .ok (out, db')) : Keeps π S db db' := by
  have hview : Keeps π S db (reserveView db caller r) := Keeps.of_side (reserveView_side r)
  rcases reserveOnce_ok h with ⟨claim, i, rfl⟩ | ⟨row, node, claim, bg, _, _, hadm⟩
  · exact hview.trans (bindClaim_keeps _ _ _)
  · rw [hadm.written]
    exact hview.trans (admit_keeps _ _ _ _)

theorem claimLaunch_keeps {i : String} {claimId : Option String} {fence : Option Int} {b : Bool}
    (h : claimLaunch host db caller i claimId fence now = .ok (b, db')) : Keeps π S db db' := by
  cases claimLaunch_result h with
  | late a found status => exact Keeps.refl _
  | stale a found status _ pins body claims => exact Keeps.of_claims claims
  | launched a found status _ breakGlass rebind authorized dispatch pins body claims =>
    exact (bindClaim_keeps db rebind i).trans (Keeps.of_claims claims)

theorem takeOverAttempt_keeps {i : String} {reason : String} {override : Option String} {row : Attempt}
    (hsp : Spares π db) (hattempts : ∀ a ∈ db.attempts, S a.node)
    (h : takeOverAttempt host db caller i fence reason override now ids = .ok (row, c, db')) : Keeps π S db db' := by
  simp only [takeOverAttempt, bind_ok, pure_ok, Prod.mk.injEq] at h
  obtain ⟨_, _, _, _, driver, _, _, _, attempt, hof, _, _, _, _, ⟨claim, db₁⟩, htr, _, _, _, _, rfl⟩ := h
  have hs : S attempt.node := hattempts attempt (lookup_mem (attemptOf_ok hof))
  have hmoved : Keeps π S (setOwner db attempt driver now) db₁ :=
    transferClaims_keeps (hsp.congr rfl) hs htr
  exact ⟨hmoved.rows, hmoved.nodes⟩

omit [Steady π] in
theorem abandonExternalAttempt_keeps {r : AbandonRequest} {kept : Except StateError (String × List UInt8)}
    {row : Attempt} (hsp : Spares π db) (h : abandonExternalAttempt host db caller r kept now =
      .ok (row, db')) : Keeps π S db db' := by
  simp only [abandonExternalAttempt, bind_ok, pure_ok, Prod.mk.injEq] at h
  obtain ⟨reason, _, _, _, _, _, report, _, attempt, _, _, _, _, _, db₁, hstore, _, _, _, rfl⟩ := h
  have hkept : Keeps π S db db₁ := Keeps.of_side (storeAbandonReport_side hstore)
  have hclaims : db₁.claims = db.claims := side_claims (storeAbandonReport_side hstore)
  have hsp' : Spares π (markAbandoned db₁ attempt r.abandonKind reason now) := hsp.congr hclaims
  have hstop : Keeps π S _ _ := stopBoundClaims_keeps hsp' caller.actor ("attempt abandoned: " ++ reason) attempt none
  exact hkept.trans ⟨hstop.rows, hstop.nodes⟩

theorem acceptHandoff_keeps {p handoffId : String}
    (hsp : Spares π db) (hattempts : ∀ a ∈ db.attempts, S a.node)
    (hoffers : ∀ h ∈ db.handoffs, ∀ c ∈ db.claims, h.claimId = some c.claimId → S (h.projectId, c.nodeKey))
    (h : acceptHandoff host db caller p handoffId fence now ids = .ok (c, db')) : Keeps π S db db' := by
  simp only [acceptHandoff, handoffOf, bind_ok, pure_ok, orElse_ok, Option.filter_eq_some_iff, Prod.mk.injEq] at h
  obtain ⟨driver, _, hd, ⟨_, _, hfound, _⟩, _, _, _, _, ⟨claim, db₁⟩, hsub, _, rfl⟩ := h
  have hmem : hd ∈ db.handoffs := lookup_mem hfound
  have hsubject : Keeps π S db db₁ := by
    unfold acceptSubject at hsub
    split at hsub
    · simp only [acceptAttempt, bind_ok, pure_ok, Prod.mk.injEq] at hsub
      obtain ⟨attempt, hof, _, _, _, _, ⟨_, db₂⟩, htr, _, rfl⟩ := hsub
      have hs : S attempt.node := hattempts attempt (lookup_mem (attemptOf_ok hof))
      have hmoved : Keeps π S (setOwner db attempt driver now) db₂ :=
        transferClaims_keeps (hsp.congr rfl) hs htr
      exact Keeps.event ⟨hmoved.rows, hmoved.nodes⟩
    · next _ claimId _ hclaimId =>
      refine acceptClaim_keeps hsp (fun c hc hid => hoffers hd hmem c hc ?_) hsub
      rw [hclaimId, hid]
    · cases hsub
  exact ⟨hsubject.rows, hsubject.nodes⟩

omit [Steady π] in
theorem reconcileWrite_keeps {call : ReconcileCall} {row : Attempt} {stale : Bool} (hsp : Spares π db)
    (h : reconcileWrite db call = .ok (row, stale, db')) : Keeps π S db db' := by
  simp only [reconcileWrite, bind_ok, pure_ok, Prod.mk.injEq] at h
  obtain ⟨a, _, _, _, fresh, _, _, _, _, _, art, _, n, _, _, _, _, _, rfl⟩ := h
  have hchanged : ∀ c : Bool, Keeps π S db
      (if c = true then writeReconciled db n a (reconciledStatus call fresh) art call.row fresh else db) := by
    intro c
    cases c
    · exact Keeps.refl _
    · exact Keeps.of_side writeReconciled_side
  have hrelease : ∀ (c : Bool) (x : DB) (actor : String) (st : AttemptStatus), x.claims = db.claims →
      Keeps π S x (if c = true then releaseBoundClaims x a actor st else x) := by
    intro c x actor st hx
    cases c
    · exact Keeps.refl _
    · exact releaseBoundClaims_keeps (hsp.congr hx) _ _ _
  refine (hchanged _).trans (hrelease _ _ _ _ ?_)
  split_ifs
  · exact side_claims writeReconciled_side
  · rfl

omit [Steady π] in
theorem releaseSettled_keeps (hsp : Spares π db) (call : ObserveCall) (a : Attempt) (row : Observation) :
    Keeps π S db (releaseSettled db call a row) := by
  unfold releaseSettled
  split_ifs
  · exact releaseBoundClaims_keeps hsp _ _ _
  · exact Keeps.refl _

omit [Steady π] in
theorem observeWrite_keeps {call : ObserveCall} {out : Attempt} {o : Observation} (hsp : Spares π db)
    (h : observeWrite host db call now = .ok (out, o, db')) : Keeps π S db db' := by
  have hback : Keeps π S db (markBack db call.caller.driverId now) := Keeps.of_side (markBack_side _ _)
  have happend : ∀ {row : Observation} {db₁ : DB},
      appendObservation (markBack db call.caller.driverId now) call row = .ok db₁ → Keeps π S db db₁ := by
    intro row db₁ happ
    have hside := appendObservation_side happ
    exact hback.trans (Keeps.of_claims (congrArg Prod.fst hside))
  cases observeWrite_result h with
  | replayed => exact hback
  | late a n row db₁ reported appended =>
    exact (happend appended).trans (Keeps.of_side (writeLate_side _ _ _ _ _ _))
  | counted a n row db₁ reported appended =>
    have hoffer := (happend appended).trans (Keeps.of_side (offerObserved_side db₁ call.request a row n now))
    refine hoffer.event.trans (releaseSettled_keeps (hsp.congr ?_) _ _ _)
    have happended : db₁.claims = (markBack db call.caller.driverId now).claims :=
      congrArg Prod.fst (appendObservation_side appended)
    have hclaims : db₁.claims = db.claims := happended.trans (side_claims (markBack_side _ _))
    exact (side_claims (offerObserved_side db₁ call.request a row n now)).trans hclaims

omit [Steady π] in
theorem recordEvidence_keeps {r : EvidenceRequest} {out : Evidence}
    (h : recordEvidence host db r = .ok (out, db')) : Keeps π S db db' := by
  rcases recordEvidence_side h with hs | ⟨_, hs⟩
  · exact Keeps.of_side hs
  · exact Keeps.of_claims (congrArg Prod.fst hs)

/-- Which readings a heartbeat leaves. -/
def Unleased (π : Claim → α) : Prop :=
  ∀ (c : Claim) (e h : Stamp), π { c with leaseExpiresAt := e, lastHeartbeatAt := h } = π c

omit [Steady π] in
-- the stamps stay variables here, so that nothing computes with them
theorem renewed_keeps (hu : Unleased π) (db : DB) (i : String) (e h : Stamp) :
    Keeps π S db (db.setClaim i (fun c => { c with leaseExpiresAt := e, lastHeartbeatAt := h })) :=
  setClaim_keeps db i (fun c _ => hu c e h) (fun _ => rfl)

omit [Steady π] in
theorem renewClaim_keeps (hu : Unleased π) (db : DB) (row : Claim) : Keeps π S db (renewClaim now db row) := by
  unfold renewClaim
  exact renewed_keeps hu db row.claimId _ _

omit [Steady π] in
theorem beatClaim_keeps (now : Stamp) (hu : Unleased π) (db : DB) (p driver claimId : String) (fence : Int) :
    Keeps π S db (beatClaim db p driver now claimId fence).2 := by
  unfold beatClaim
  split
  · exact Keeps.refl _
  · split_ifs
    · exact Keeps.refl _
    · exact Keeps.refl _
    · exact Keeps.refl _
    · exact renewClaim_keeps hu _ _

omit [Steady π] in
theorem beatAttempt_keeps (now : Stamp) (db : DB) (p driver i : String) (fence : Int) :
    Keeps π S db (beatAttempt db p driver now i fence).2 := by
  unfold beatAttempt
  split
  · exact Keeps.refl _
  · split_ifs <;> exact Keeps.of_claims rfl

omit [Steady π] in
theorem beatSubagent_keeps (hu : Unleased π) (db : DB) (p driver label : String) :
    Keeps π S db (beatSubagent db p driver now label).2 := by
  unfold beatSubagent
  dsimp only
  split_ifs
  · exact Keeps.refl _
  · exact Keeps.refl _
  · exact Keeps.foldl (renewClaim_keeps hu) db _

omit [Steady π] in
theorem beatAll_keeps {ι : Type} {f : DB → ι → List Beaten × DB} (hf : ∀ db x, Keeps π S db (f db x).2)
    (items : List ι) (acc : List Beaten × DB) : Keeps π S acc.2 (beatAll f items acc).2 := by
  unfold beatAll
  induction items generalizing acc with
  | nil => exact Keeps.refl acc.2
  | cons x items ih => exact (hf acc.2 x).trans (ih (acc.1 ++ (f acc.2 x).1, (f acc.2 x).2))

omit [Steady π] in
theorem heartbeat_keeps {p : String} {claims attempts : List (String × Int)} {subagents : List String}
    {out : List Beaten} (hu : Unleased π) (h : heartbeat db caller p claims attempts subagents now = .ok (out, db')) :
    Keeps π S db db' := by
  simp only [heartbeat, bind_ok, pure_ok] at h
  obtain ⟨driver, _, _, _, _, _, h⟩ := h
  have hdb : _ = db' := congrArg Prod.snd h
  rw [← hdb]
  have h₀ : Keeps π S db (markBack db (some driver) now) := Keeps.of_side (markBack_side ..)
  have h₁ : Keeps π S _ _ := beatAll_keeps (fun db (x : String × Int) =>
    beatClaim_keeps now hu db p driver x.1 x.2) claims ([], markBack db (some driver) now)
  have h₂ : Keeps π S _ _ := beatAll_keeps (fun db (x : String × Int) =>
    beatAttempt_keeps now db p driver x.1 x.2) attempts
    (beatAll (fun db i => beatClaim db p driver now i.1 i.2) claims ([], markBack db (some driver) now))
  exact ((h₀.trans h₁).trans h₂).trans (beatAll_keeps (fun db x => beatSubagent_keeps hu db p driver x) ..)

end Holders

section Runs
variable {reply : Reply}

/-- Where the nodes of claims come from. -/
structure Grounded (S : NodeId → Prop) (db : DB) : Prop where
  ids : ∀ i ∈ db.ids, S i
  attempts : ∀ a ∈ db.attempts, S a.node
  offers : ∀ h ∈ db.handoffs, ∀ c ∈ db.claims, h.claimId = some c.claimId → S (h.projectId, c.nodeKey)

theorem Request.keeps {r : Request} (hsp : Spares π db) (hs : Grounded S db)
    (hb : Unleased π ∨ ∀ caller p claims attempts subagents now,
    r ≠ .heartbeat caller p claims attempts subagents now) (h : r.run host db = .ok (reply, db')) :
    Keeps π S db db' := by
  cases hq : r.writesSide with
  | false => exact Keeps.of_side (r.keeps_side hq h)
  | true =>
    cases r with
    | reserve caller workflow request =>
      obtain ⟨_, h⟩ := answer_ok h
      obtain ⟨_, _, h⟩ := reserve_ok h
      exact reserveOnce_keeps h
    | register caller harness externalId request =>
      obtain ⟨_, h⟩ := answer_ok h
      obtain ⟨_, _, h⟩ := register_ok h
      exact reserveOnce_keeps h
    | registerCheck caller harness externalId request =>
      obtain ⟨_, h⟩ := answer_ok h
      obtain ⟨_, _, h⟩ := register_ok h
      exact reserveOnce_keeps h
    | claimLaunch caller i claimId fence now =>
      obtain ⟨_, h⟩ := answer_ok h
      exact claimLaunch_keeps h
    | recordEvidence request =>
      obtain ⟨_, h⟩ := answer_ok h
      exact recordEvidence_keeps h
    | abandon caller request kept now =>
      obtain ⟨_, h⟩ := answer_ok h
      exact abandonExternalAttempt_keeps hsp h
    | takeOverAttempt caller i fence reason overrideReason now ids =>
      obtain ⟨_, hx⟩ := answer_ok h
      simp only [map_ok, Prod.mk.injEq] at hx
      obtain ⟨_, hx, _, rfl⟩ := hx
      exact takeOverAttempt_keeps hsp hs.attempts hx
    | claimNode caller request claimId now =>
      simp only [Request.run] at h
      obtain ⟨_, h⟩ := answer_ok h
      exact claimNode_keeps hsp hs.ids h
    | releaseClaim caller p claimId fence reason =>
      simp only [Request.run] at h
      obtain ⟨_, h⟩ := answer_ok h
      exact releaseClaim_keeps hsp h
    | heartbeat caller p claims attempts subagents now =>
      obtain ⟨_, h⟩ := answer_ok h
      rcases hb with hb | hb
      · exact heartbeat_keeps hb h
      · exact absurd rfl (hb _ _ _ _ _ _)
    | sweep actor p now =>
      cases h
      exact sweep_keeps hsp ..
    | takeOverClaim caller request uid now =>
      simp only [Request.run] at h
      obtain ⟨_, h⟩ := answer_ok h
      exact takeOverClaim_keeps hsp hs.ids h
    | acceptHandoff caller p handoffId fence now ids =>
      obtain ⟨_, h⟩ := answer_ok h
      exact acceptHandoff_keeps hsp hs.attempts hs.offers h
    | _ => cases hq

theorem Call.keeps {c : Call} {now : Stamp} (hsp : Spares π db) (h : c.run host db now = .ok (reply, db')) :
    Keeps π S db db' := by
  cases c with
  | bindRun x =>
    obtain ⟨_, hx⟩ := answer_ok h
    exact Keeps.of_side (bindRunWrite_side hx)
  | reconcile x =>
    obtain ⟨_, _, hx⟩ := reconcile_ok h
    exact reconcileWrite_keeps hsp hx
  | observe x =>
    obtain ⟨_, _, hx⟩ := observe_ok h
    exact observeWrite_keeps hsp hx
  | register caller harness externalId request source =>
    obtain ⟨_, hx⟩ := answer_ok h
    obtain ⟨_, _, hx⟩ := register_ok hx
    exact reserveOnce_keeps hx

end Runs

section Leases
variable {reply : Reply}

theorem Request.keeps_leases {r : Request} (hb : ∀ caller p claims attempts subagents now,
    r ≠ .heartbeat caller p claims attempts subagents now) (h : r.run host db = .ok (reply, db')) :
    KeepsLeases db db' := by
  have hs : Grounded (fun _ => True) db :=
    ⟨fun _ _ => trivial, fun _ _ => trivial, fun _ _ _ _ _ => trivial⟩
  have hsp : Spares (fun c : Claim => (c.claimId, c.leaseExpiresAt)) db := fun _ _ _ _ _ _ => rfl
  exact (Request.keeps hsp hs (.inr hb) h).rows

theorem Call.keeps_leases {c : Call} {now : Stamp} (h : c.run host db now = .ok (reply, db')) :
    KeepsLeases db db' := by
  have hk : Keeps (fun c => (c.claimId, c.leaseExpiresAt)) (fun _ => True) db db' :=
    Call.keeps (fun _ _ _ _ _ _ => rfl) h
  exact hk.rows

end Leases

end AItelier.State
