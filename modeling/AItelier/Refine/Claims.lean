import AItelier.Lib.Fence
import AItelier.Refine.System

namespace AItelier.State

open AItelier.Lib

variable {db db' : DB} {host : Host} {caller : Caller}

def Claim.ticket (c : Claim) : Ticket String NodeId String where
  id := c.claimId
  subject := c.node
  holder := c.driverId
  exclusive := c.purpose.exclusive
  live := decide (c.status = .live)
  fence := c.fence

/-- The tickets a database has given out. -/
def tickets (db : DB) : List (Ticket String NodeId String) := db.claims.map Claim.ticket

/-- On a fenced desk the transaction amounts to ticket steps. -/
def Fences (db db' : DB) : Prop := Ticket.Fenced (tickets db) → Ticket.Steps (tickets db) (tickets db')

section Rules

theorem Fences.refl (db : DB) : Fences db db := fun _ => Relation.ReflTransGen.refl

theorem Fences.trans {db₁ db₂ db₃ : DB} (h : Fences db₁ db₂) (h' : Fences db₂ db₃) : Fences db₁ db₃ :=
  fun hf => (h hf).trans (h' (Ticket.Steps.fenced hf (h hf)))

theorem Fences.of_step (h : Ticket.Step (tickets db) (tickets db')) : Fences db db' :=
  fun _ => Relation.ReflTransGen.single h

theorem Fences.of_tickets (h : tickets db' = tickets db) : Fences db db' := by
  intro _
  rw [h]

theorem Fences.of_side (h : db'.side = db.side) : Fences db db' :=
  Fences.of_tickets (by rw [tickets, tickets, side_claims h])

theorem Fences.event {db₁ : DB} {q : String} {k : Option String} {type : String} {payload : List (String × Json)}
    (h : Fences db db₁) : Fences db (db₁.event q k type payload) :=
  h.trans (Fences.of_side rfl)

theorem Fences.foldl {α : Type} {f : DB → α → DB} (hf : ∀ db a, Fences db (f db a)) (db : DB) (l : List α) :
    Fences db (l.foldl f db) := by
  induction l generalizing db with
  | nil => exact Fences.refl db
  | cons a l ih => exact (hf db a).trans (ih (f db a))

theorem tickets_setClaim {f : Claim → Claim} {g : Ticket String NodeId String → Ticket String NodeId String}
    (i : String) (h : ∀ c, (f c).ticket = g c.ticket) :
    tickets (db.setClaim i f) = (tickets db).map (fun t => if t.id = i then g t else t) := by
  simp only [tickets, DB.setClaim, modifyWhere, List.map_map]
  refine List.map_congr_left (fun c _ => ?_)
  have hid : c.ticket.id = c.claimId := rfl
  by_cases hc : c.claimId = i <;> simp [hid, hc, h]

theorem tickets_setClaim_same {f : Claim → Claim} (i : String) (h : ∀ c, (f c).ticket = c.ticket) :
    tickets (db.setClaim i f) = tickets db := by
  rw [tickets_setClaim (g := fun t => t) i h]
  simp

theorem mem_tickets {c : Claim} (h : c ∈ db.claims) : c.ticket ∈ tickets db := List.mem_map.mpr ⟨c, h, rfl⟩

theorem claimIds_distinct (hf : Ticket.Fenced (tickets db)) : (db.claims.map Claim.claimId).Nodup := by
  have hd := hf.distinct
  rwa [tickets, List.map_map] at hd

theorem lt_nextFence {c : Claim} {k : NodeId} (h : c ∈ db.claims) (hk : c.node = k) : c.fence < nextFence db k := by
  have hmem : c.fence ∈ (db.claims.filter (fun c => decide (c.node = k))).map Claim.fence :=
    List.mem_map.mpr ⟨c, List.mem_filter.mpr ⟨h, decide_eq_true hk⟩, rfl⟩
  have hmax := le_foldl_max (m := 0) (.inl hmem)
  unfold nextFence
  omega

end Rules

section Desk

theorem retireClaim_fences (actor : String) (claim : Claim) {status : ClaimStatus} (hs : status ≠ .live)
    (reason : String) : Fences db (retireClaim db actor claim status reason) := by
  have ht : tickets (retireClaim db actor claim status reason) = (tickets db).map (fun t =>
      if decide (t.id = claim.claimId) then { t with live := false } else t) := by
    simp only [decide_eq_true_eq]
    refine tickets_setClaim claim.claimId (f := fun c => { c with status := status })
      (g := fun t => { t with live := false }) (fun c => ?_)
    simp [Claim.ticket, hs, Claim.node]
  refine Fences.of_step ?_
  rw [ht]
  exact .retire _ _

/-- An acquisition on the next fence is an issue. -/
theorem acquire_fences {actor reason : String} {claim : Claim} {extra : List (String × Json)}
    (hlive : claim.status = .live) (hfence : claim.fence = nextFence db claim.node)
    (h : acquire db actor claim reason extra = .ok db') : Fences db db' := by
  obtain ⟨⟨hnew, halone⟩, rfl⟩ := acquire_ok h
  refine Fences.of_step ?_
  have ht : tickets ((history { db with claims := db.claims ++ [claim] } actor claim .live reason).event
      claim.projectId (some claim.nodeKey) "claim_acquired" (claimAcquired actor claim ++ extra)) =
      tickets db ++ [claim.ticket] := by
    simp [tickets, history, DB.event]
  rw [ht]
  refine .issue _ _ ?_ ?_ ?_
  · intro u hu
    obtain ⟨c, hc, rfl⟩ := List.mem_map.mp hu
    exact lookup_eq_none.mp (Option.isNone_iff_eq_none.mp hnew) c hc
  · intro u hu hs
    obtain ⟨c, hc, rfl⟩ := List.mem_map.mp hu
    have hlt : c.fence < nextFence db claim.node := lt_nextFence hc hs
    rw [← hfence] at hlt
    exact hlt
  · intro hex u hu hs hux
    obtain ⟨c, hc, rfl⟩ := List.mem_map.mp hu
    have hex' : claim.purpose.exclusive = true := hex
    have hnode : c.node = claim.node := hs
    cases hl : c.ticket.live with
    | false => rfl
    | true =>
      refine absurd ⟨?_, ?_⟩ halone
      · simp [Claim.liveExclusive, hlive, hex']
      · have hux' : c.purpose.exclusive = true := hux
        have hl' : c.status = .live := of_decide_eq_true hl
        rw [exclusiveHolder, List.find?_isSome]
        exact ⟨c, hc, by simp [Claim.liveExclusive, hnode, hl', hux']⟩

theorem newClaimFor_fences {actor reason workspace driver uid : String} {t : Transfer} {now : Stamp}
    {purpose : Purpose} {subagent : Option String} {c : Claim}
    (h : newClaimFor host db actor t driver now reason workspace purpose subagent uid = .ok (c, db')) :
    Fences db db' := by
  simp only [newClaimFor, bind_ok, pure_ok, Prod.mk.injEq] at h
  obtain ⟨_, _, db₁, hacq, _, rfl⟩ := h
  exact acquire_fences rfl rfl hacq

/-- Where claims are only appended, a claim of the node is still there. -/
theorem newClaimFor_kept {actor reason workspace driver uid : String} {t : Transfer} {now : Stamp}
    {purpose : Purpose} {subagent : Option String} {c : Claim}
    (h : newClaimFor host db actor t driver now reason workspace purpose subagent uid = .ok (c, db')) :
    ∀ x ∈ db.claims, x ∈ db'.claims := by
  simp only [newClaimFor, bind_ok, pure_ok, Prod.mk.injEq] at h
  obtain ⟨_, _, db₁, hacq, _, rfl⟩ := h
  obtain ⟨_, rfl⟩ := acquire_ok hacq
  exact fun x hx => List.mem_append_left _ hx

/-- The holder's own claim is on the node the attempt is on. -/
def HeldOn (db : DB) (k : NodeId) (held : Claim) : Prop :=
  ∃ c ∈ db.claims, c.claimId = held.claimId ∧ c.node = k

theorem bindHeldClaim_fences {actor reason : String} {attempt : Attempt} {held : Claim}
    (hheld : HeldOn db attempt.node held) : Fences db (bindHeldClaim db actor attempt held reason).2 := by
  intro hf
  obtain ⟨c, hc, hid, hnode⟩ := hheld
  have ht : tickets (bindHeldClaim db actor attempt held reason).2 = (tickets db).map (fun t =>
      if t.id = held.claimId then { t with fence := nextFence db attempt.node } else t) :=
    tickets_setClaim held.claimId (f := fun c => { c with
      attemptId := some attempt.attemptId, fence := nextFence db attempt.node })
      (g := fun t => { t with fence := nextFence db attempt.node }) (fun _ => rfl)
  rw [ht]
  refine Relation.ReflTransGen.single (.refence _ _ _ ?_)
  intro t htm hti u hu hs
  have heq : t = c.ticket :=
    List.inj_on_of_nodup_map hf.distinct htm (mem_tickets hc) (hti.trans hid.symm)
  subst heq
  obtain ⟨x, hx, rfl⟩ := List.mem_map.mp hu
  have hxn : x.node = attempt.node := by
    rw [← hnode]
    exact hs
  exact lt_nextFence hx hxn

theorem sweepOne_fences (actor p : String) (db : DB) (lapsed : Lapsed) : Fences db (sweepOne actor p db lapsed) := by
  cases lapsed with
  | claim row phase =>
    by_cases h : phase = .reclaimable
    · simp only [sweepOne, h, if_true]
      exact (retireClaim_fences actor row (by decide) _).event
    · simp only [sweepOne, h, if_false]
      exact Fences.refl _
  | attempt row phase => exact Fences.refl _

theorem sweep_fences (db : DB) (actor p : String) (now : Stamp) (nodeKey : Option String) :
    Fences db (sweep db actor p now nodeKey) :=
  Fences.foldl (sweepOne_fences actor p) db _

theorem bindClaim_fences (db : DB) (claim : Option Claim) (attemptId : String) :
    Fences db (bindClaim db claim attemptId) := by
  cases claim with
  | none => exact Fences.refl _
  | some c => exact Fences.of_tickets (tickets_setClaim_same c.claimId (fun _ => rfl))

theorem releaseBoundClaims_fences (db : DB) (attempt : Attempt) (actor : String) (status : AttemptStatus) :
    Fences db (releaseBoundClaims db attempt actor status) := by
  unfold releaseBoundClaims
  refine Fences.foldl (fun db claim => ?_) db _
  exact (retireClaim_fences actor claim (by decide) _).event

theorem stopBoundClaims_fences (db : DB) (actor reason : String) (attempt : Attempt) (newHolder : Option String) :
    Fences db (stopBoundClaims db actor reason attempt newHolder) := by
  unfold stopBoundClaims
  refine Fences.foldl (fun db claim => ?_) db _
  refine (retireClaim_fences actor claim ?_ _).event
  split_ifs <;> decide

end Desk

section Transfer
variable {actor reason newHolder : String} {attempt : Attempt} {now : Stamp} {ids : Nat → String}

/-- The rounds of a transfer keep to ticket steps, and the new holder's own claim
stays on the node until it is used. -/
structure Moves (db : DB) (attempt : Attempt) (m : Moving) : Prop where
  fences : Fences db m.db
  held : ∀ h ∈ m.held, HeldOn m.db attempt.node h

theorem moveClaim_moves {m m' : Moving} {claim : Claim} (hm : Moves db attempt m)
    (h : moveClaim host actor reason attempt newHolder now ids m claim = .ok m') : Moves db attempt m' := by
  unfold moveClaim at h
  split at h
  · next held hheld =>
    rw [pure_ok] at h
    subst h
    rw [Option.filter_eq_some_iff] at hheld
    refine ⟨hm.fences.trans (bindHeldClaim_fences (hm.held held hheld.1)), ?_⟩
    intro x hx
    cases hx
  · simp only [bind_ok, pure_ok] at h
    obtain ⟨⟨moved, db₁⟩, hnew, rfl⟩ := h
    refine ⟨hm.fences.trans (newClaimFor_fences hnew), ?_⟩
    intro x hx
    obtain ⟨c, hc, hid⟩ := hm.held x hx
    exact ⟨c, newClaimFor_kept hnew c hc, hid⟩

theorem moveDefault_fences {m m' : Moving} (hm : Moves db attempt m)
    (h : moveDefault host actor reason attempt newHolder now ids m = .ok m') : Fences db m'.db := by
  unfold moveDefault at h
  split at h
  · rw [pure_ok] at h
    subst h
    exact hm.fences
  · next held _ hheld =>
    rw [pure_ok] at h
    subst h
    exact hm.fences.trans (bindHeldClaim_fences (hm.held held hheld))
  · simp only [bind_ok, pure_ok] at h
    obtain ⟨⟨moved, db₁⟩, hnew, rfl⟩ := h
    exact hm.fences.trans (newClaimFor_fences hnew)

theorem transferClaims_fences {c : Option Claim}
    (h : transferClaims host db actor reason attempt newHolder now ids = .ok (c, db')) : Fences db db' := by
  simp only [transferClaims, bind_ok, pure_ok, Prod.mk.injEq] at h
  obtain ⟨m₁, hloop, m₂, hlast, _, rfl⟩ := h
  refine moveDefault_fences (foldlM_invariant (I := Moves db attempt) ?_ ?_ hloop) hlast
  · exact fun m c m' hm hc => moveClaim_moves hm hc
  · refine ⟨stopBoundClaims_fences db actor reason attempt (some newHolder), ?_⟩
    intro x hx
    have hp := List.find?_some hx
    simp only [Claim.liveExclusive, Bool.and_eq_true, decide_eq_true_eq] at hp
    exact ⟨x, List.mem_of_find?_eq_some hx, rfl, hp.1.1.1⟩

end Transfer

section Holders

variable {now : Stamp} {fence : Int} {ids : Nat → String} {c : Option Claim}

theorem claimNode_fences {r : ClaimRequest} {claimId : String} {c : Claim}
    (h : claimNode host db caller r claimId now = .ok (c, db')) : Fences db db' := by
  simp only [claimNode, bind_ok] at h
  obtain ⟨driver, _, _, _, _, _, _, _, _, _, node, _, h⟩ := h
  split at h
  · simp only [bind_ok, pure_ok, Prod.mk.injEq] at h
    obtain ⟨_, _, _, rfl⟩ := h
    exact Fences.of_side (markBack_side ..)
  · simp only [bind_ok, pure_ok, rescue_ok, Prod.mk.injEq] at h
    obtain ⟨_, _, _, _, _, _, _, hacq, _, rfl⟩ := h
    exact (Fences.of_side (markBack_side ..)).trans ((sweep_fences _ _ _ _ _).trans (acquire_fences rfl rfl hacq))

theorem releaseClaim_fences {p claimId reason : String} {c : Claim}
    (h : releaseClaim db caller p claimId fence reason = .ok (c, db')) : Fences db db' := by
  simp only [releaseClaim, bind_ok, pure_ok, ite_ok, Prod.mk.injEq] at h
  obtain ⟨_, _, _, _, _, _, claim, _, _, _, _, _, ⟨_, _, rfl⟩ | ⟨_, _, _, _, _, _, rfl⟩⟩ := h
  · exact Fences.refl _
  · exact (retireClaim_fences _ _ (by decide) _).event

theorem takeOverClaim_fences {r : ClaimTakeover} {uid : String} {c : Claim}
    (h : takeOverClaim host db caller r uid now = .ok (c, db')) : Fences db db' := by
  simp only [takeOverClaim, bind_ok] at h
  obtain ⟨driver, _, _, _, reason, _, _, _, _, _, _, _, _, _, h⟩ := h
  split at h
  · simp only [bind_ok, pure_ok, Prod.mk.injEq] at h
    obtain ⟨_, _, _, _, _, rfl⟩ := h
    exact Fences.refl _
  · simp only [bind_ok, pure_ok, Prod.mk.injEq] at h
    obtain ⟨_, _, _, _, _, _, old, _, _, _, _, _, node, _, _, _, _, _, db₁, hacq, _, rfl⟩ := h
    refine Fences.trans ?_ (acquire_fences rfl rfl hacq)
    exact ((sweep_fences _ _ _ _ _).trans (retireClaim_fences _ _ (by decide) _)).event

theorem acceptClaim_fences {hd : Handoff} {claimId driver : String}
    (h : acceptClaim host db caller hd claimId driver fence now ids = .ok (c, db')) : Fences db db' := by
  simp only [acceptClaim, bind_ok, pure_ok, Prod.mk.injEq] at h
  obtain ⟨claim, _, _, _, ⟨fresh, db₁⟩, hnew, _, rfl⟩ := h
  exact ((retireClaim_fences _ _ (by decide) _).event).trans (newClaimFor_fences hnew)

theorem reserveView_side (r : ReserveRequest) : (reserveView db caller r).side = db.side := by
  unfold reserveView
  split_ifs
  · exact markBack_side ..
  · rfl

theorem admit_fences (r : ReserveRequest) (row : Attempt) (claim : Option Claim) (breakGlass : Bool) :
    Fences db (writeAdmission db r row claim breakGlass) := by
  refine (bindClaim_fences db claim row.attemptId).trans (Fences.of_tickets ?_)
  unfold writeAdmission
  cases claim <;> cases r.external <;> cases row.context.priorCandidate <;> rfl

theorem reserveOnce_fences {r : ReserveRequest} {preflight : Preflight} {out : Reserved}
    (h : reserveOnce host db caller r preflight = .ok (out, db')) : Fences db db' := by
  have hview : Fences db (reserveView db caller r) := Fences.of_side (reserveView_side r)
  rcases reserveOnce_ok h with ⟨claim, i, rfl⟩ | ⟨row, node, claim, bg, _, _, hadm⟩
  · exact hview.trans (bindClaim_fences _ _ _)
  · rw [hadm.written]
    exact hview.trans (admit_fences _ _ _ _)

theorem claimLaunch_fences {i : String} {claimId : Option String} {fence : Option Int} {b : Bool}
    (h : claimLaunch host db caller i claimId fence now = .ok (b, db')) : Fences db db' := by
  cases claimLaunch_result h with
  | late a found status => exact Fences.refl _
  | stale a found status _ pins body claims => exact Fences.of_tickets (by rw [tickets, tickets, claims])
  | launched a found status _ breakGlass rebind authorized dispatch pins body claims =>
    exact (bindClaim_fences db rebind i).trans (Fences.of_tickets (by rw [tickets, tickets, claims]))

theorem takeOverAttempt_fences {i : String} {reason : String} {override : Option String} {row : Attempt}
    (h : takeOverAttempt host db caller i fence reason override now ids = .ok (row, c, db')) : Fences db db' := by
  simp only [takeOverAttempt, bind_ok, pure_ok, Prod.mk.injEq] at h
  obtain ⟨_, _, _, _, driver, _, _, _, attempt, _, _, _, _, _, ⟨claim, db₁⟩, htr, _, _, _, _, rfl⟩ := h
  have hown : Fences db (setOwner db attempt driver now) := Fences.of_side rfl
  exact (hown.trans (transferClaims_fences htr)).trans (Fences.of_side rfl)

theorem storeAbandonReport_side {report : Option (String × String × List UInt8)}
    (h : storeAbandonReport db report = .ok db') : db'.side = db.side := by
  unfold storeAbandonReport at h
  split at h
  · exact storeReportBlob_side h
  · rw [pure_ok] at h
    subst h
    rfl

theorem voidOpenHandoffs_side (db : DB) (i reason : String) : (voidOpenHandoffs db i reason).side = db.side := rfl

theorem writeAbandon_fences (db : DB) (attempt : Attempt) (kind : AbandonKind) (reason : String) (now : Stamp) :
    Fences db (writeAbandon db caller attempt kind reason now) := by
  have hmark : Fences db (markAbandoned db attempt kind reason now) := Fences.of_side rfl
  have hstop := stopBoundClaims_fences (markAbandoned db attempt kind reason now) caller.actor
    ("attempt abandoned: " ++ reason) attempt none
  exact (hmark.trans hstop).trans (Fences.of_side (voidOpenHandoffs_side _ _ _))

theorem abandonExternalAttempt_fences {r : AbandonRequest} {kept : Except StateError (String × List UInt8)}
    {row : Attempt} (h : abandonExternalAttempt host db caller r kept now = .ok (row, db')) :
    Fences db db' := by
  simp only [abandonExternalAttempt, bind_ok, pure_ok, Prod.mk.injEq] at h
  obtain ⟨reason, _, _, _, _, _, report, _, attempt, _, _, _, _, _, db₁, hstore, _, _, _, rfl⟩ := h
  have hkept : Fences db db₁ := Fences.of_side (storeAbandonReport_side hstore)
  exact (hkept.trans (writeAbandon_fences db₁ attempt r.abandonKind reason now)).event

theorem acceptHandoff_fences {p handoffId : String}
    (h : acceptHandoff host db caller p handoffId fence now ids = .ok (c, db')) :
    Fences db db' := by
  simp only [acceptHandoff, bind_ok, pure_ok, Prod.mk.injEq] at h
  obtain ⟨driver, _, hd, _, _, _, _, _, ⟨claim, db₁⟩, hsub, _, rfl⟩ := h
  have hsubject : Fences db db₁ := by
    unfold acceptSubject at hsub
    split at hsub
    · simp only [acceptAttempt, bind_ok, pure_ok, Prod.mk.injEq] at hsub
      obtain ⟨attempt, _, _, _, _, _, ⟨_, db₂⟩, htr, _, rfl⟩ := hsub
      have hown : Fences db (setOwner db attempt driver now) := Fences.of_side rfl
      exact (hown.trans (transferClaims_fences htr)).event
    · exact acceptClaim_fences hsub
    · cases hsub
  exact hsubject.trans (Fences.of_side rfl)

theorem renewClaim_tickets (now : Stamp) (db : DB) (row : Claim) : tickets (renewClaim now db row) = tickets db :=
  -- not by `rfl`: that would evaluate the new lease
  tickets_setClaim_same row.claimId (fun _ => by simp only [Claim.ticket, Claim.node])

theorem beatClaim_tickets (db : DB) (p driver : String) (now : Stamp) (claimId : String) (fence : Int) :
    tickets (beatClaim db p driver now claimId fence).2 = tickets db := by
  unfold beatClaim
  split
  · rfl
  · split_ifs
    · rfl
    · rfl
    · rfl
    · exact renewClaim_tickets ..

theorem beatAttempt_side (db : DB) (p driver : String) (now : Stamp) (i : String) (fence : Int) :
    (beatAttempt db p driver now i fence).2.side = db.side := by
  unfold beatAttempt
  split
  · rfl
  · split_ifs <;> rfl

theorem beatSubagent_tickets (db : DB) (p driver : String) (now : Stamp) (label : String) :
    tickets (beatSubagent db p driver now label).2 = tickets db := by
  unfold beatSubagent
  split
  · rfl
  · dsimp only
    split
    · rfl
    · exact foldl_keeps tickets (renewClaim_tickets now) db _

theorem beatAll_tickets {ι : Type} {f : DB → ι → List Beaten × DB} (hf : ∀ db x, tickets (f db x).2 = tickets db)
    (items : List ι) (acc : List Beaten × DB) : tickets (beatAll f items acc).2 = tickets acc.2 := by
  unfold beatAll
  refine foldl_keeps (fun acc : List Beaten × DB => tickets acc.2) (fun acc x => ?_) acc items
  exact hf acc.2 x

theorem heartbeat_fences {p : String} {claims attempts : List (String × Int)} {subagents : List String}
    {out : List Beaten} (h : heartbeat db caller p claims attempts subagents now = .ok (out, db')) :
    Fences db db' := by
  simp only [heartbeat, bind_ok, pure_ok] at h
  obtain ⟨driver, _, _, _, _, _, h⟩ := h
  have hdb : _ = db' := congrArg Prod.snd h
  refine Fences.of_tickets ?_
  rw [← hdb, beatAll_tickets (fun db x => beatSubagent_tickets ..),
    beatAll_tickets (fun db x => by rw [tickets, tickets, side_claims (beatAttempt_side ..)]),
    beatAll_tickets (fun db x => beatClaim_tickets ..), tickets, tickets, side_claims (markBack_side ..)]

end Holders

section Reports

theorem storeReport_side {call : ObserveCall} (h : storeReport db call = .ok db') : db'.side = db.side := by
  unfold storeReport at h
  split at h
  · exact storeReportBlob_side h
  · rw [pure_ok] at h
    subst h
    rfl

theorem storeCandidate_side {artifact : Option GitArtifact} (h : storeCandidate db artifact = .ok db') :
    db'.side = db.side := by
  unfold storeCandidate at h
  split at h
  · rw [pure_ok] at h
    subst h
    rfl
  · split at h
    · simp only [bind_ok, pure_ok] at h
      obtain ⟨_, _, rfl⟩ := h
      rfl
    · rw [pure_ok] at h
      subst h
      rfl

theorem retractAccepted_side {n : Node} {a : Attempt} {s : AttemptStatus} {reason : String} :
    (retractAccepted db n a s reason).side = db.side := by
  unfold retractAccepted
  split_ifs <;> rfl

theorem writeReconciled_side {n : Node} {a : Attempt} {s : AttemptStatus} {art : Option String} {row : EngineRow}
    {fresh : Bool} : (writeReconciled db n a s art row fresh).side = db.side := by
  have hsettle : (settleRun db n a s art row).side = db.side := retractAccepted_side
  unfold writeReconciled
  dsimp only
  rw [event_side, ← hsettle]
  split_ifs <;> rfl

theorem reconcileWrite_fences {call : ReconcileCall} {row : Attempt} {stale : Bool}
    (h : reconcileWrite db call = .ok (row, stale, db')) : Fences db db' := by
  simp only [reconcileWrite, bind_ok, pure_ok, Prod.mk.injEq] at h
  obtain ⟨a, _, _, _, fresh, _, _, _, _, _, art, _, n, _, _, _, _, _, rfl⟩ := h
  have hchanged : ∀ c : Bool, Fences db
      (if c = true then writeReconciled db n a (reconciledStatus call fresh) art call.row fresh else db) := by
    intro c
    cases c
    · exact Fences.refl _
    · exact Fences.of_side writeReconciled_side
  have hrelease : ∀ (c : Bool) (x : DB) (actor : String) (st : AttemptStatus),
      Fences x (if c = true then releaseBoundClaims x a actor st else x) := by
    intro c x actor st
    cases c
    · exact Fences.refl _
    · exact releaseBoundClaims_fences _ _ _ _
  exact (hchanged _).trans (hrelease _ _ _ _)

theorem appendObservation_side {call : ObserveCall} {row : Observation}
    (h : appendObservation db call row = .ok db') :
    db'.side = (db.claims, db.evidence, db.observations ++ [row]) := by
  simp only [appendObservation, bind_ok, pure_ok] at h
  obtain ⟨db₁, h₁, db₂, h₂, _, _, rfl⟩ := h
  have hkept : db₂.side = db.side := (storeCandidate_side h₂).trans (storeReport_side h₁)
  change (db₂.claims, db₂.evidence, db₂.observations ++ [row]) = _
  rw [side_claims hkept, side_evidence hkept, side_observations hkept]

theorem writeLate_side (db : DB) (call : ObserveCall) (a : Attempt) (row : Observation) (current : Bool)
    (now : Stamp) : (writeLate db call a row current now).side = db.side := by
  have hsettle : ∀ x : DB, (settleAbandoned x call.request a now).side = x.side := by
    intro x
    unfold settleAbandoned
    split_ifs <;> rfl
  exact hsettle _

theorem offerObserved_side (db : DB) (r : ObserveRequest) (a : Attempt) (row : Observation) (n : Node)
    (now : Stamp) : (offerObserved (settleObserved db r a row n now) a row n).side = db.side := by
  have hsettle : (settleObserved db r a row n now).side = db.side :=
    retractAccepted_side 
  unfold offerObserved
  split_ifs
  · exact hsettle
  · exact hsettle

theorem releaseSettled_fences (db : DB) (call : ObserveCall) (a : Attempt) (row : Observation) :
    Fences db (releaseSettled db call a row) := by
  unfold releaseSettled
  split_ifs
  · exact releaseBoundClaims_fences _ _ _ _
  · exact Fences.refl _

theorem observeWrite_fences {call : ObserveCall} {now : Stamp} {out : Attempt} {o : Observation}
    (h : observeWrite host db call now = .ok (out, o, db')) : Fences db db' := by
  have hback : Fences db (markBack db call.caller.driverId now) := Fences.of_side (markBack_side _ _)
  have happend : ∀ {row : Observation} {db₁ : DB},
      appendObservation (markBack db call.caller.driverId now) call row = .ok db₁ → Fences db db₁ := by
    intro row db₁ happ
    refine hback.trans (Fences.of_tickets ?_)
    rw [tickets, tickets]
    exact congrArg (fun s : List Claim × List Evidence × List Observation => s.1.map Claim.ticket)
      (appendObservation_side happ)
  cases observeWrite_result h with
  | replayed => exact hback
  | late a n row db₁ reported appended =>
    exact (happend appended).trans (Fences.of_side (writeLate_side _ _ _ _ _ _))
  | counted a n row db₁ reported appended =>
    have hoffer := (happend appended).trans (Fences.of_side (offerObserved_side db₁ call.request a row n now))
    exact hoffer.event.trans (releaseSettled_fences _ _ _ _)

theorem recordEvidence_fences {r : EvidenceRequest} {out : Evidence}
    (h : recordEvidence host db r = .ok (out, db')) : Fences db db' := by
  refine Fences.of_tickets ?_
  have hclaims : db'.claims = db.claims := by
    rcases recordEvidence_side h with hs | ⟨_, hs⟩
    · exact side_claims hs
    · exact congrArg Prod.fst hs
  rw [tickets, tickets, hclaims]

end Reports

section Runs
variable {reply : Reply} {s : Sys} {op : Op} {ops : List Op}

theorem Request.fences {r : Request} (h : r.run host db = .ok (reply, db')) : Fences db db' := by
  cases hq : r.writesSide with
  | false => exact Fences.of_side (r.keeps_side hq h)
  | true =>
    cases r with
    | reserve caller workflow request =>
      obtain ⟨_, h⟩ := answer_ok h
      obtain ⟨_, _, h⟩ := reserve_ok h
      exact reserveOnce_fences h
    | register caller harness externalId request =>
      obtain ⟨_, h⟩ := answer_ok h
      obtain ⟨_, _, h⟩ := register_ok h
      exact reserveOnce_fences h
    | registerCheck caller harness externalId request =>
      obtain ⟨_, h⟩ := answer_ok h
      obtain ⟨_, _, h⟩ := register_ok h
      exact reserveOnce_fences h
    | claimLaunch caller i claimId fence now =>
      obtain ⟨_, h⟩ := answer_ok h
      exact claimLaunch_fences h
    | recordEvidence request =>
      obtain ⟨_, h⟩ := answer_ok h
      exact recordEvidence_fences h
    | abandon caller request kept now =>
      obtain ⟨_, h⟩ := answer_ok h
      exact abandonExternalAttempt_fences h
    | takeOverAttempt caller i fence reason overrideReason now ids =>
      obtain ⟨_, hx⟩ := answer_ok h
      simp only [map_ok, Prod.mk.injEq] at hx
      obtain ⟨_, hx, _, rfl⟩ := hx
      exact takeOverAttempt_fences hx
    | claimNode caller request claimId now =>
      simp only [Request.run] at h
      obtain ⟨_, h⟩ := answer_ok h
      exact claimNode_fences h
    | releaseClaim caller p claimId fence reason =>
      simp only [Request.run] at h
      obtain ⟨_, h⟩ := answer_ok h
      exact releaseClaim_fences h
    | heartbeat caller p claims attempts subagents now =>
      obtain ⟨_, h⟩ := answer_ok h
      exact heartbeat_fences h
    | sweep actor p now =>
      cases h
      exact sweep_fences _ _ _ _ _
    | takeOverClaim caller request uid now =>
      simp only [Request.run] at h
      obtain ⟨_, h⟩ := answer_ok h
      exact takeOverClaim_fences h
    | acceptHandoff caller p handoffId fence now ids =>
      obtain ⟨_, h⟩ := answer_ok h
      exact acceptHandoff_fences h
    | _ => cases hq

theorem Call.fences {c : Call} {now : Stamp} (h : c.run host db now = .ok (reply, db')) : Fences db db' := by
  cases c with
  | bindRun x =>
    obtain ⟨_, hx⟩ := answer_ok h
    exact Fences.of_side (bindRunWrite_side hx)
  | reconcile x =>
    obtain ⟨_, _, hx⟩ := reconcile_ok h
    exact reconcileWrite_fences hx
  | observe x =>
    obtain ⟨_, _, hx⟩ := observe_ok h
    exact observeWrite_fences hx
  | register caller harness externalId request source =>
    obtain ⟨_, hx⟩ := answer_ok h
    obtain ⟨_, _, hx⟩ := register_ok hx
    exact reserveOnce_fences hx

theorem next_fences (host : Host) (s : Sys) (op : Op) : Fences s.db (next host s op).db := by
  rcases next_db host s op with he | ⟨r | ⟨call, now⟩, reply, h⟩
  · exact Fences.of_tickets (congrArg tickets he)
  · exact Request.fences h
  · exact Call.fences h

theorem run_fences (host : Host) (s : Sys) (ops : List Op) : Fences s.db (run (next host) s ops).db := by
  induction ops generalizing s with
  | nil => exact Fences.refl _
  | cons op ops ih => exact (next_fences host s op).trans (ih _)

theorem after_fenced (host : Host) (ops : List Op) : Ticket.Fenced (tickets (after host ops).db) :=
  Ticket.Steps.fenced Ticket.fenced_nil (run_fences host Sys.init ops Ticket.fenced_nil)

theorem after_follows (host : Host) (xs ys : List Op) :
    Ticket.Follows (tickets (after host xs).db) (tickets (after host (xs ++ ys)).db) := by
  rw [after_append]
  exact Ticket.Steps.follows (run_fences host _ ys (after_fenced host xs))

end Runs

end AItelier.State
