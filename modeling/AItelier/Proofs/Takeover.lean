import AItelier.Proofs.Leases
import AItelier.Refine.Placement

namespace AItelier.State

open AItelier.Lib AItelier.Ledger

variable {db db' : DB} {host : Host} {caller : Caller} {now : Stamp} {c d : Claim} {i : String} {s : Sys}

section Presence

/-- What an offline and determinable presence says of the rows: the driver has no wait
in progress, its last one ended longer ago than the grace, and it declared itself
offline or its last sign of life is older than the stale bound. -/
structure OfflineOwner (host : Host) (db : DB) (driver : String) (now : Stamp) : Prop where
  judged : (effectivePresence host db driver now).status = .offline ∧
    (effectivePresence host db driver now).determinable = true
  idle : ∀ w ∈ db.waits, w.driverId = driver →
    ∃ e, w.finish now = some e ∧ addSeconds e host.waitGraceSeconds < now
  gone : (declaration? db driver).isSome = true ∨
    ∃ row seen, driver? db driver = some row ∧ row.lastSeenAt = some seen ∧
      host.onlineSeconds < (now - seen) / 1000000 ∧ host.staleSeconds < (now - seen) / 1000000

theorem max?_of_mem {l : List Nat} {x : Nat} (h : x ∈ l) : ∃ m, l.max? = some m ∧ x ≤ m := by
  cases hm : l.max? with
  | none =>
    rw [List.max?_eq_none_iff] at hm
    rw [hm] at h
    cases h
  | some m => exact ⟨m, rfl, (List.max?_eq_some_iff.mp hm).2 x h⟩

theorem presenceOf_offline {seen : Option Stamp} {age : Nat}
    (h : presenceOf host seen now = (.offline, some age)) :
    ∃ t, seen = some t ∧ host.onlineSeconds < (now - t) / 1000000 ∧ host.staleSeconds < (now - t) / 1000000 := by
  unfold presenceOf at h
  split at h
  · cases h
  · next t =>
    split_ifs at h with hfuture
    · cases h
    · rw [Prod.mk.injEq] at h
      refine ⟨t, rfl, ?_⟩
      split_ifs at h with h1 h2
      · cases h.1
      · cases h.1
      · exact ⟨Nat.lt_of_not_le h1, Nat.lt_of_not_le h2⟩

/-- A wait in progress, or one that ended within the grace. -/
def recentlyWaiting (host : Host) (db : DB) (driver : String) (now : Stamp) : Bool :=
  (waitState db driver now).1 || match (waitState db driver now).2 with
    | some e => decide (now ≤ addSeconds e host.waitGraceSeconds)
    | none => false

theorem idle_of_not_waiting {driver : String} (h : recentlyWaiting host db driver now = false) :
    ∀ w ∈ db.waits, w.driverId = driver → ∃ e, w.finish now = some e ∧ addSeconds e host.waitGraceSeconds < now := by
  intro w hw hd
  have hown : w ∈ db.waits.filter (fun w => decide (w.driverId = driver)) :=
    List.mem_filter.mpr ⟨hw, decide_eq_true hd⟩
  rw [recentlyWaiting, Bool.or_eq_false_iff] at h
  obtain ⟨hnone, hrecent⟩ := h
  cases hf : w.finish now with
  | none =>
    have hany : (waitState db driver now).1 = true := List.any_eq_true.mpr ⟨w, hown, by simp [hf]⟩
    rw [hnone] at hany
    cases hany
  | some e =>
    obtain ⟨m, hm, hle⟩ := max?_of_mem (List.mem_filterMap.mpr ⟨w, hown, hf⟩)
    have hlast : (waitState db driver now).2 = some m := hm
    rw [hlast] at hrecent
    have hlt := Nat.lt_of_not_le (of_decide_eq_false hrecent)
    exact ⟨e, rfl, Nat.lt_of_le_of_lt (Nat.add_le_add_right hle _) hlt⟩

theorem effectivePresence_parts (host : Host) (db : DB) (driver : String) (now : Stamp) :
    let seen := presenceOf host ((driver? db driver).bind Driver.lastSeenAt) now
    let verdict := if recentlyWaiting host db driver now then (PresenceStatus.online, Basis.wait)
      else if (declaration? db driver).isSome then (.offline, .declared) else (seen.1, .lastSeen)
    (effectivePresence host db driver now).status = verdict.1 ∧
      (effectivePresence host db driver now).determinable =
        (decide (verdict.2 ≠ .lastSeen) || ((driver? db driver).isSome && seen.2.isSome)) :=
  ⟨rfl, rfl⟩

theorem OfflineOwner.of_judged {driver : String} (h : ownerIsOffline (effectivePresence host db driver now) = true) :
    OfflineOwner host db driver now := by
  rw [ownerIsOffline, Bool.and_eq_true, decide_eq_true_eq] at h
  obtain ⟨hstatus, hdet⟩ := effectivePresence_parts host db driver now
  have hjudged := h
  rw [hstatus, hdet] at h
  obtain ⟨hoff, hdet⟩ := h
  split_ifs at hoff hdet with hwait hdecl
  · exact ⟨hjudged, idle_of_not_waiting (Bool.eq_false_iff.mpr hwait), .inl hdecl⟩
  · refine ⟨hjudged, idle_of_not_waiting (Bool.eq_false_iff.mpr hwait), .inr ?_⟩
    simp only [ne_eq, not_true_eq_false, decide_false, Bool.false_or, Bool.and_eq_true,
      Option.isSome_iff_exists] at hdet
    obtain ⟨⟨row, hrow⟩, age, hage⟩ := hdet
    obtain ⟨t, ht, hold⟩ := presenceOf_offline (Prod.ext hoff hage)
    rw [hrow] at ht
    exact ⟨row, t, hrow, ht, hold⟩

end Presence

section Ended

/-- A reading that sees of one claim what it was made as and how it stands. -/
def standing (i : String) (c : Claim) : Option (Charter × ClaimStatus) :=
  if c.claimId = i then some (c.charter, c.status) else none

instance : Steady (standing i) := ⟨fun _ _ => rfl, fun _ _ _ => rfl⟩

theorem standing_unleased (i : String) : Unleased (standing i) := fun _ _ _ => rfl

theorem standing_some {p : Charter × ClaimStatus} (h : standing i c = some p) :
    c.claimId = i ∧ c.charter = p.1 ∧ c.status = p.2 := by
  unfold standing at h
  split_ifs at h with hid
  cases h
  exact ⟨hid, rfl, rfl⟩

theorem standing_spares (h : ∀ c ∈ db.claims, c.claimId = i → c.status ≠ .live) : Spares (standing i) db := by
  intro c hc hl x st hx
  have hne : x.claimId ≠ i := fun he => h c hc (hx.symm.trans he) hl
  simp [standing, hne]

/-- A claim that ended is the same claim, ended the same way, ever after. -/
theorem ended_stays {ops : List Op} (hd : d ∈ (after host ops).db.claims) (hs : d.status ≠ .live) (more : List Op) :
    ∃ c ∈ (after host (ops ++ more)).db.claims, c.charter = d.charter ∧ c.status = d.status := by
  induction more using List.reverseRecOn with
  | nil =>
    rw [List.append_nil]
    exact ⟨d, hd, rfl, rfl⟩
  | append_singleton more op ih =>
    obtain ⟨c, hc, hcharter, hstatus⟩ := ih
    have hid : c.claimId = d.claimId := congrArg Charter.claimId hcharter
    have hnext : after host (ops ++ (more ++ [op])) = next host (after host (ops ++ more)) op := by
      rw [← List.append_assoc, after_append]
      rfl
    rw [hnext]
    have hended : ∀ x ∈ (after host (ops ++ more)).db.claims, x.claimId = d.claimId → x.status ≠ .live :=
      fun x hx hxd => claim_stays_ended (List.prefix_append ops more) hd hs hx hxd
    have hsp := standing_spares hended
    have hground : Grounded (fun _ => True) (after host (ops ++ more)).db :=
      ⟨fun _ _ => trivial, fun _ _ => trivial, fun _ _ _ _ _ => trivial⟩
    have hkeeps : Keeps (standing d.claimId) (fun _ => True) (after host (ops ++ more)).db
        (next host (after host (ops ++ more)) op).db := by
      rcases next_db host (after host (ops ++ more)) op with he | ⟨r | ⟨call, t⟩, reply, h⟩
      · exact Keeps.of_claims (by rw [he])
      · exact Request.keeps hsp hground (.inl (standing_unleased _)) h
      · exact Call.keeps hsp h
    obtain ⟨x, hx, hread⟩ := hkeeps.row hc
    have hold : standing d.claimId c = some (c.charter, c.status) := if_pos hid
    rw [hold] at hread
    obtain ⟨-, hxc, hxs⟩ := standing_some hread
    exact ⟨x, hx, hxc.trans hcharter, hxs.trans hstatus⟩

end Ended

section Ousted
variable {p driver : String} {claims attempts : List (String × Int)} {subagents : List String} {out : List Beaten}

theorem beatAll_grows {ι : Type} {f : DB → ι → List Beaten × DB} {items : List ι} {acc : List Beaten × DB}
    {b : Beaten} (hb : b ∈ acc.1) : b ∈ (beatAll f items acc).1 := by
  induction items generalizing acc with
  | nil => exact hb
  | cons y items ih => exact ih (List.mem_append_left _ hb)

theorem beatAll_answers {ι : Type} {f : DB → ι → List Beaten × DB} {I : DB → Prop} {items : List ι}
    (hf : ∀ d, ∀ x ∈ items, I d → I (f d x).2) {acc : List Beaten × DB} (h : I acc.2) {x : ι} (hx : x ∈ items)
    {P : Beaten → Prop} (hans : ∀ d, I d → ∃ b ∈ (f d x).1, P b) : ∃ b ∈ (beatAll f items acc).1, P b := by
  induction items generalizing acc with
  | nil => cases hx
  | cons y items ih =>
    have hrest : ∀ d, ∀ z ∈ items, I d → I (f d z).2 := fun d z hz => hf d z (List.mem_cons_of_mem y hz)
    rcases List.mem_cons.mp hx with rfl | hx
    · obtain ⟨b, hb, hp⟩ := hans acc.2 h
      have hmem : b ∈ (acc.1 ++ (f acc.2 x).1, (f acc.2 x).2).1 := List.mem_append_right _ hb
      exact ⟨b, @beatAll_grows ι f items _ b hmem, hp⟩
    · exact ih hrest (hf acc.2 y (List.mem_cons_self ..) h) hx

/-- A heartbeat refuses an ended claim and leaves its row as it is. -/
theorem ended_heartbeat (hf : Ticket.Fenced (tickets db)) (hc : c ∈ db.claims) (hs : c.status ≠ .live)
    (h : heartbeat db caller p claims attempts subagents now = .ok (out, db')) :
    c ∈ db'.claims ∧ ∀ fence, (c.claimId, fence) ∈ claims → ∃ code, .refused c.claimId code ∈ out := by
  refine ⟨heartbeat_spares hf hc (fun _ _ hb => hs hb.2) h, fun fence hin => ?_⟩
  simp only [heartbeat, bind_ok, pure_ok] at h
  obtain ⟨driver, _, _, _, _, _, h⟩ := h
  have hout : _ = out := congrArg Prod.fst h
  rw [← hout]
  have hfree : ¬ (c.BeatenBy p driver claims subagents ∧ c.status = .live) := fun hb => hs hb.2
  have hback : Spared c (markBack db (some driver) now) := by
    rw [Spared, side_claims (markBack_side ..)]
    exact ⟨hc, claimIds_distinct hf⟩
  have hitem : ∀ d, Spared c d → ∃ b ∈ (beatClaim d p driver now c.claimId fence).1, ∃ code,
      b = .refused c.claimId code := by
    intro d hd
    unfold beatClaim
    split
    · exact ⟨_, List.mem_singleton_self _, _, rfl⟩
    · next row hrow =>
      obtain ⟨hfound, -⟩ := Option.filter_eq_some_iff.mp hrow
      have hrc : row = c := List.inj_on_of_nodup_map hd.2 (lookup_mem hfound) hd.1 (lookup_key hfound)
      split_ifs with h1 h2 h3
      · exact ⟨_, List.mem_singleton_self _, _, rfl⟩
      · exact ⟨_, List.mem_singleton_self _, _, rfl⟩
      · exact ⟨_, List.mem_singleton_self _, _, rfl⟩
      · exact (hs (hrc ▸ not_not.mp h3)).elim
  have hstart : Spared c (([] : List Beaten), markBack db (some driver) now).2 := hback
  obtain ⟨b, hb, code, rfl⟩ := beatAll_answers (fun d x hx hd => beatClaim_spares hx hfree hd) hstart hin hitem
  exact ⟨code, beatAll_grows (beatAll_grows hb)⟩

theorem ended_release (hf : Ticket.Fenced (tickets db)) (hc : c ∈ db.claims) (hs : c.status ≠ .live)
    (hr : c.status ≠ .released) (caller : Caller) (p : String) (fence : Int) (reason : String) :
    ∃ e, releaseClaim db caller p c.claimId fence reason = .error e := by
  cases h : releaseClaim db caller p c.claimId fence reason with
  | error e => exact ⟨e, rfl⟩
  | ok out =>
    obtain ⟨x, db'⟩ := out
    simp only [releaseClaim, bind_ok, pure_ok, ite_ok, ensure_ok, Prod.mk.injEq] at h
    obtain ⟨_, _, _, _, _, _, row, hof, _, _, _, _, h⟩ := h
    have hrc : row = c := claim_eq_of_id hf (claimOf_mem hof) hc (claimOf_id hof)
    rcases h with ⟨hrel, -⟩ | ⟨-, _, _, _, hlive, -⟩
    · exact (hr (hrc ▸ hrel)).elim
    · exact (hs (hrc ▸ hlive)).elim

/-- A dispatch that names a claim rides on it, whoever asks. -/
theorem named_dispatch_rides {k : NodeId} {fence : Option Int} {review breakGlass : Bool} {claim : Option Claim}
    (h : dispatchClaim host db k caller (some i) fence now review = .ok (claim, breakGlass)) :
    ∃ c, claim = some c ∧ c ∈ db.claims ∧ c.claimId = i ∧ c.status = .live := by
  suffices hsome : ∃ c, claim = some c by
    obtain ⟨c, rfl⟩ := hsome
    have hrides := (dispatchClaim_ok h).1 c rfl
    exact ⟨c, rfl, hrides.held, (hrides.named i rfl).symm, hrides.live⟩
  unfold dispatchClaim at h
  split at h
  · simp only [bind_ok, pure_ok, Prod.mk.injEq] at h
    obtain ⟨x, -, rfl, -⟩ := h
    exact ⟨x, rfl⟩
  · simp only [implementDispatch, bind_ok, optionMapM_ok, ite_ok, pure_ok, Prod.mk.injEq] at h
    obtain ⟨named, ⟨hnone, -⟩ | ⟨j, x, -, hx, rfl⟩, h⟩ := h
    · cases hnone
    · obtain ⟨hlive, -, hown, -⟩ := namedDispatch_ok hx
      rcases h with ⟨-, rfl, -⟩ | ⟨-, h⟩
      · exact ⟨x, rfl⟩
      · -- the caller's own live claim is there, so it is not break glass
        rw [hlive] at h
        simp only [hown, if_true, bind_ok, pure_ok, Prod.mk.injEq] at h
        obtain ⟨-, -, rfl, -⟩ := h
        exact ⟨x, rfl⟩

theorem ended_dispatch (hf : Ticket.Fenced (tickets db)) (hc : c ∈ db.claims) (hs : c.status ≠ .live) (k : NodeId)
    (caller : Caller) (fence : Option Int) (now : Stamp) (review : Bool) :
    ∃ e, dispatchClaim host db k caller (some c.claimId) fence now review = .error e := by
  cases h : dispatchClaim host db k caller (some c.claimId) fence now review with
  | error e => exact ⟨e, rfl⟩
  | ok out =>
    obtain ⟨claim, bg⟩ := out
    obtain ⟨x, -, hx, hid, hlive⟩ := named_dispatch_rides h
    have hxc : x = c := claim_eq_of_id hf hx hc hid
    exact (hs (hxc ▸ hlive)).elim

/-- Nor does a launch of a caller that is no admin. -/
theorem ended_launch (hf : Ticket.Fenced (tickets db)) (hc : c ∈ db.claims) (hs : c.status ≠ .live) (a : Attempt)
    (hadmin : caller.isAdmin = false) (fence : Option Int) (now : Stamp) :
    ∃ e, launchAuthorization host db a caller (some c.claimId) fence now = .error e := by
  cases h : launchAuthorization host db a caller (some c.claimId) fence now with
  | error e => exact ⟨e, rfl⟩
  | ok out =>
    obtain ⟨e, hdispatch⟩ : ∃ e, dispatchClaim host db a.node caller (some c.claimId) fence now false = .error e :=
      ended_dispatch hf hc hs a.node caller fence now false
    simp only [launchAuthorization, Option.isSome_some, true_or, if_true, hadmin, Bool.false_eq_true, if_false,
      throw_ok, ite_ok, bind_ok, hdispatch, reduceCtorEq, false_and, exists_false, and_false, or_false, false_or] at h
    -- what is left is the owner's own launch, on its live claim
    obtain ⟨-, -, h⟩ := h
    unfold ownerLaunch at h
    split at h
    · simp [hadmin, throw_ok] at h
    · next row hrow =>
      simp only [bind_ok, ensure_ok] at h
      obtain ⟨-, hname, -⟩ := h
      obtain ⟨hlive, -⟩ := Option.filter_eq_some_iff.mp hrow
      obtain ⟨hmem, -, hl, -⟩ := liveImplementClaim_live hlive
      have hrc : row = c := claim_eq_of_id hf hmem hc (hname c.claimId rfl).symm
      exact (hs (hrc ▸ hl)).elim

/-- The claim `i`, held on `k` under `fence` by `owner`, gives nothing any more. -/
structure Ousted (host : Host) (s : Sys) (i owner : String) (k : NodeId) (fence : Nat) : Prop where
  heartbeat : ∀ caller p claims attempts subagents now out db',
    heartbeat s.db caller p claims attempts subagents now = .ok (out, db') →
    (∀ c ∈ s.db.claims, c.claimId = i → c ∈ db'.claims) ∧
      ∀ f, (i, f) ∈ claims → ∃ code, .refused i code ∈ out
  release : ∀ caller p f reason, ∃ e, releaseClaim s.db caller p i f reason = .error e
  dispatch : ∀ k caller f now review, ∃ e, dispatchClaim host s.db k caller (some i) f now review = .error e
  launch : ∀ a caller f now, caller.isAdmin = false →
    ∃ e, launchAuthorization host s.db a caller (some i) f now = .error e
  admitted : ∀ op caller r, s.admission op = some (caller, r) → r.claimId = some i →
    ∀ row ∈ (next host s op).db.attempts, s.db.attempt? row.attemptId ≠ none
  fenced : ∀ caller now review, caller.driverId = some owner → caller.isAdmin = false → enforced s.db k.1 = true →
    ∃ e, dispatchClaim host s.db k caller none (some (fence : Int)) now review = .error e

/-- A claim that was taken over or transferred is ousted in every later state. -/
theorem ousted_of_ended {old : Claim} {past ops : List Op} (hp : past <+: ops)
    (ho : old ∈ (after host past).db.claims) (hd : d ∈ (after host ops).db.claims) (hdo : d.charter = old.charter)
    (hs : d.status = .takenOver ∨ d.status = .transferred) (more : List Op) :
    Ousted host (after host (ops ++ more)) old.claimId old.driverId old.node old.fence := by
  have hlive : d.status ≠ .live := by rcases hs with h | h <;> rw [h] <;> decide
  obtain ⟨c, hc, hcharter, hstatus⟩ := ended_stays hd hlive more
  have hf := after_fenced host (ops ++ more)
  have hid : c.claimId = old.claimId := congrArg Charter.claimId (hcharter.trans hdo)
  have hcl : c.status ≠ .live := hstatus ▸ hlive
  have hcr : c.status ≠ .released := by rw [hstatus]; rcases hs with h | h <;> rw [h] <;> decide
  rw [← hid]
  refine ⟨?_, ?_, ?_, ?_, ?_, ?_⟩
  · intro caller p claims attempts subagents now out db' h
    obtain ⟨hkept, hrefused⟩ := ended_heartbeat hf hc hcl h
    refine ⟨fun x hx hxi => ?_, hrefused⟩
    rw [claim_eq_of_id hf hx hc hxi]
    exact hkept
  · exact fun caller p f reason => ended_release hf hc hcl hcr caller p f reason
  · exact fun k caller f now review => ended_dispatch hf hc hcl k caller f now review
  · exact fun a caller f now hadmin => ended_launch hf hc hcl a hadmin f now
  · intro op caller r hcall hr row hnew hfresh
    obtain ⟨w, x, node, claim, bg, -, -, hadm⟩ := admitted_ok hcall hnew hfresh
    have hclaim := hadm.claimed
    have hnamed : ({ r with workflow := w, external := x } : ReserveRequest).claimId = some c.claimId := hr
    rw [hnamed] at hclaim
    obtain ⟨y, -, hy, hyi, hyl⟩ := named_dispatch_rides hclaim
    rw [reserveView_claims] at hy
    exact hcl (claim_eq_of_id hf hy hc hyi ▸ hyl)
  · intro caller now review howner hadmin henf
    cases h : dispatchClaim host (after host (ops ++ more)).db old.node caller none
      (some (old.fence : Int)) now review with
    | error e => exact ⟨e, rfl⟩
    | ok out =>
      obtain ⟨claim, bg⟩ := out
      obtain ⟨hrides, hnone⟩ := dispatchClaim_ok h
      cases claim with
      | none =>
        rcases hnone rfl with hoff | hisAdmin
        · rw [henf] at hoff
          cases hoff
        · rw [hadmin] at hisAdmin
          cases hisAdmin
      | some x =>
        have hx := hrides x rfl
        have hfence : x.fence = old.fence := by
          have := hx.fenced _ rfl
          omega
        have hxd := (fence_holder (hp.trans (List.prefix_append ops more)) ho hx.held hx.node hfence).1
        exact (hcl (claim_eq_of_id hf hx.held hc (hxd.trans hid.symm) ▸ hx.live)).elim

end Ousted

section Authority

theorem sweep_presence (db : DB) (actor p : String) (now : Stamp) (nodeKey : Option String) :
    (fun db : DB => (db.drivers, db.declarations, db.waits)) (sweep db actor p now nodeKey) =
      (db.drivers, db.declarations, db.waits) := by
  refine foldl_keeps (fun db : DB => (db.drivers, db.declarations, db.waits)) (fun db lapsed => ?_) db _
  cases lapsed with
  | claim row phase =>
    simp only [sweepOne]
    split_ifs <;> rfl
  | attempt row phase => rfl

theorem effectivePresence_congr (h : (db'.drivers, db'.declarations, db'.waits) =
    (db.drivers, db.declarations, db.waits))
    (driver : String) : effectivePresence host db' driver now = effectivePresence host db driver now := by
  simp only [Prod.mk.injEq] at h
  obtain ⟨hdrivers, hdecl, hwaits⟩ := h
  have h₁ : driver? db' driver = driver? db driver := by rw [driver?, driver?, hdrivers]
  have h₂ : declaration? db' driver = declaration? db driver := by rw [declaration?, declaration?, hdecl]
  have h₃ : waitState db' driver now = waitState db driver now := by rw [waitState, waitState, hwaits]
  unfold effectivePresence
  rw [h₁, h₂, h₃]

/-- What lets an active member act before the grace: another driver, the owner, is
offline. -/
structure MayTake (host : Host) (db : DB) (p owner taker : String) (now : Stamp) : Prop where
  offline : OfflineOwner host db owner now
  member : isMember db p taker = true
  other : owner ≠ taker

/-- A claim take-over that goes through is a replay, or a live claim of an offline
owner, named with its fence, becomes `taken_over`. -/
theorem takeOverClaim_cases (hf : Ticket.Fenced (tickets db)) {r : ClaimTakeover} {uid : String}
    (h : takeOverClaim host db caller r uid now = .ok (c, db')) :
    ∃ driver, caller.driverId = some driver ∧
      ((db' = db ∧ c ∈ db.claims ∧ c.projectId = r.projectId ∧ c.driverId = driver ∧
          c.requestKey = "takeover:" ++ r.requestKey) ∨
        ∃ old ∈ db.claims, old.claimId = r.claimId ∧ old.projectId = r.projectId ∧ old.status = .live ∧
          r.expectedFence = (old.fence : Int) ∧ MayTake host db r.projectId old.driverId driver now ∧
          { old with status := .takenOver } ∈ db'.claims) := by
  simp only [takeOverClaim, bind_ok] at h
  obtain ⟨driver, hdriver, _, _, reason, _, _, _, _, _, _, _, _, _, h⟩ := h
  have hcaller : caller.driverId = some driver := by
    rw [claimDriver, requireDriver, orElse_ok, Option.filter_eq_some_iff] at hdriver
    exact hdriver.1
  refine ⟨driver, hcaller, ?_⟩
  split at h
  · next replayed hfind =>
    simp only [bind_ok, pure_ok, Prod.mk.injEq] at h
    obtain ⟨_, _, _, _, rfl, rfl⟩ := h
    have hp := List.find?_some hfind
    simp only [decide_eq_true_eq] at hp
    exact .inl ⟨rfl, List.mem_of_find?_eq_some hfind, hp⟩
  · simp only [bind_ok, ensure_ok, pure_ok, Prod.mk.injEq] at h
    obtain ⟨first, hfirst, _, hmember, _, hother, old, hold, _, hfence, _, hlive, node, _, _, _, _, hoff, db₁, hacq,
      -, rfl⟩ := h
    have hmem : old ∈ db.claims := live_of_sweep (claimOf_mem hold) hlive
    have hsame : first = old :=
      claim_eq_of_id hf (claimOf_mem hfirst) hmem ((claimOf_id hfirst).trans (claimOf_id hold).symm)
    rw [effectivePresence_congr (sweep_presence ..)] at hoff
    refine .inr ⟨old, hmem, claimOf_id hold, claimOf_project hold, hlive, hfence,
      ⟨OfflineOwner.of_judged hoff, hmember, hsame ▸ hother⟩, ?_⟩
    obtain ⟨-, rfl⟩ := acquire_ok hacq
    refine List.mem_append_left _ (mem_modifyWhere.mpr ⟨old, claimOf_mem hold, ?_⟩)
    simp

/-- Before its lease is reclaimable, a caller that is no admin takes an attempt over
from an offline owner only. -/
theorem takeOverAttempt_authority {a : Attempt} {fence : Int} {reason : String} {override : Option String}
    {ids : Nat → String} {row : Attempt} {moved : Option Claim} {expires : Stamp} (hadmin : caller.isAdmin = false)
    (ha : db.attempt? i = some a) (hlease : a.leaseExpiresAt = some expires)
    (hearly : leaseState (some expires) now ≠ .reclaimable)
    (h : takeOverAttempt host db caller i fence reason override now ids = .ok (row, moved, db')) :
    ∃ driver owner, caller.driverId = some driver ∧ a.ownerDriverId = some owner ∧ fence = (a.ownerFence : Int) ∧
      MayTake host db a.projectId owner driver now := by
  simp only [takeOverAttempt, bind_ok] at h
  obtain ⟨_, _, _, _, driver, hdriver, _, _, a', hof, _, _, _, hrec, -⟩ := h
  obtain rfl : a = a' := Option.some.inj (ha.symm.trans (attemptOf_ok hof))
  have hcaller : caller.driverId = some driver := by
    rw [requireDriver, orElse_ok, Option.filter_eq_some_iff] at hdriver
    exact hdriver.1
  simp only [reclaimable, bind_ok, ensure_ok] at hrec
  obtain ⟨_, _, _, _, _, hfence, hrec⟩ := hrec
  rw [leaseReclaimable, hlease] at hrec
  simp only [hearly, if_false, hadmin, Bool.false_eq_true, if_true, bind_ok, ensure_ok] at hrec
  obtain ⟨evidence, hev, _, hsome, -⟩ := hrec
  unfold offlineOwnerEvidence at hev
  split at hev
  · next o t howner htaker =>
    obtain rfl : driver = t := Option.some.inj (hcaller.symm.trans htaker)
    dsimp only at hev
    split_ifs at hev with hself honline
    · rw [pure_ok] at hev
      subst hev
      cases hsome
    · rw [pure_ok] at hev
      subst hev
      cases hsome
    · simp only [bind_ok, ensure_ok, pure_ok] at hev
      obtain ⟨-, -, -, hmember, -⟩ := hev
      refine ⟨driver, o, hcaller, howner, hfence, OfflineOwner.of_judged ?_, hmember, ?_⟩
      · simpa using honline
      · exact fun he => hself (.inr (.inl he))
  · rw [pure_ok] at hev
    subst hev
    cases hsome

end Authority

section Moved
variable {actor reason newHolder : String} {a : Attempt} {ids : Nat → String} {n : Nat}

/-- Every claim of a list of stopped ones is the same claim, transferred. -/
theorem endBound_all {l : List Claim} {newHolder : Option String} (hn : newHolder.isSome = true) (db : DB)
    (h : ∃ d ∈ db.claims, d.charter = c.charter ∧ (d.status = .transferred ∨ c ∈ l)) :
    ∃ d ∈ (l.foldl (endBoundClaim actor reason a newHolder) db).claims, d.charter = c.charter ∧
    d.status = .transferred := by
  induction l generalizing db with
  | nil => simpa using h
  | cons x l ih =>
    obtain ⟨d, hd, hdc, hst⟩ := h
    refine ih _ ?_
    have hstatus : (if newHolder.isSome = true then ClaimStatus.transferred else .released) = .transferred := if_pos hn
    have hclaims : (endBoundClaim actor reason a newHolder db x).claims =
        modifyWhere (fun c => decide (c.claimId = x.claimId))
          (fun c => { c with status := .transferred }) db.claims := by
      rw [← hstatus]
      rfl
    refine ⟨_, hclaims ▸ mem_modifyWhere.mpr ⟨d, hd, rfl⟩, ?_⟩
    by_cases hid : d.claimId = x.claimId
    · rw [if_pos (decide_eq_true hid)]
      exact ⟨hdc, .inl rfl⟩
    · rw [if_neg (fun ht => hid (of_decide_eq_true ht))]
      refine ⟨hdc, hst.imp_right (fun hc => ?_)⟩
      rcases List.mem_cons.mp hc with rfl | hc
      · exact (hid (congrArg Charter.claimId hdc)).elim
      · exact hc

theorem transferClaims_ends {moved : Option Claim} (hc : c ∈ boundClaims db a)
    (h : transferClaims host db actor reason a newHolder now ids = .ok (moved, db')) :
    ∃ d ∈ db'.claims, d.charter = c.charter ∧ d.status = .transferred := by
  simp only [transferClaims, bind_ok, pure_ok, Prod.mk.injEq] at h
  obtain ⟨m₁, hloop, m₂, hlast, _, rfl⟩ := h
  have hmem : c ∈ db.claims := (List.mem_filter.mp hc).1
  obtain ⟨d, hd, hdc, hds⟩ := @endBound_all c actor reason a (boundClaims db a) (some newHolder) rfl db ⟨c,
    hmem, rfl, .inr hc⟩
  have hkeeps : Keeps (standing d.claimId) (fun _ => True)
      (stopBoundClaims db actor reason a (some newHolder)) m₂.db := by
    refine Keeps.trans ?_ (moveDefault_keeps trivial hlast)
    exact foldlM_invariant
      (I := fun m => Keeps (standing d.claimId) (fun _ => True)
        (stopBoundClaims db actor reason a (some newHolder)) m.db)
      (fun m x m' hm hx => hm.trans (moveClaim_keeps trivial hx)) (Keeps.refl _) hloop
  obtain ⟨x, hx, hread⟩ := hkeeps.row hd
  rw [show standing d.claimId d = some (d.charter, d.status) from if_pos rfl] at hread
  obtain ⟨-, hxc, hxs⟩ := standing_some hread
  exact ⟨x, hx, hxc.trans hdc, hxs.trans hds⟩

/-- What a take-over of an attempt leaves behind. -/
theorem takeOverAttempt_ousts {fence : Int} {override : Option String} {row : Attempt} {moved : Option Claim}
    (ha : db.attempt? i = some a)
    (h : takeOverAttempt host db caller i fence reason override now ids = .ok (row, moved, db')) :
    (∃ a', db'.attempt? i = some a' ∧ a'.ownerFence = a.ownerFence + 1) ∧
      ∀ c ∈ boundClaims db a, ∃ d ∈ db'.claims, d.charter = c.charter ∧ d.status = .transferred := by
  simp only [takeOverAttempt, bind_ok, pure_ok, Prod.mk.injEq] at h
  obtain ⟨_, _, _, _, driver, _, _, _, a', hof, _, _, ⟨bg, offline⟩, _, ⟨claim, db₁⟩, hmove, _, _, _, _, rfl⟩ := h
  obtain rfl : a = a' := Option.some.inj (ha.symm.trans (attemptOf_ok hof))
  constructor
  · have hcore : db₁.core = (setOwner db a driver now).core := core_of_body (transferClaims_body hmove)
    have hset : db₁.attempt? i = (setOwner db a driver now).attempt? i := core_attempt? hcore i
    have hid : i = a.attemptId := (lookup_key ha).symm
    rw [setOwner, setAttempt_attempt?, if_pos hid, ha] at hset
    · exact ⟨_, hset, rfl⟩
    · exact fun _ => rfl
  · intro c hc
    have hbound : c ∈ boundClaims (setOwner db a driver now) a := hc
    have hends : ∃ d ∈ db₁.claims, d.charter = c.charter ∧ d.status = .transferred := transferClaims_ends hbound hmove
    exact hends

end Moved

section OldOwner
variable {fence : Nat} {a : Attempt} {p driver : String} {claims attempts : List (String × Int)}
  {subagents : List String} {out : List Beaten}

/-- An owner fence that the attempt has left behind renews nothing. -/
structure OustedOwner (s : Sys) (i : String) (fence : Nat) : Prop where
  heartbeat : ∀ caller p claims attempts subagents now out db',
    heartbeat s.db caller p claims attempts subagents now = .ok (out, db') → (i, (fence : Int)) ∈ attempts →
    (∃ code, .refused i code ∈ out) ∧ ((∀ f, (i, f) ∈ attempts → f = fence) → db'.attempt? i = s.db.attempt? i)

theorem beatAttempt_stale (ha : db.attempt? i = some a) (hf : a.ownerFence ≠ fence) :
    (beatAttempt db p driver now i fence).2 = db ∧ ∃ b ∈ (beatAttempt db p driver now i fence).1, ∃ code,
    b = .refused i code := by
  unfold beatAttempt
  split
  · exact ⟨rfl, _, List.mem_singleton_self _, _, rfl⟩
  · next row hrow =>
    obtain ⟨hfound, -⟩ := Option.filter_eq_some_iff.mp hrow
    obtain rfl : row = a := Option.some.inj (hfound.symm.trans ha)
    have hint : (row.ownerFence : Int) ≠ fence := fun he => hf (Int.ofNat.inj he)
    rw [if_pos hint]
    split_ifs
    · exact ⟨rfl, _, List.mem_singleton_self _, _, rfl⟩
    · exact ⟨rfl, _, List.mem_singleton_self _, _, rfl⟩
    · exact ⟨rfl, _, List.mem_singleton_self _, _, rfl⟩
    · exact ⟨rfl, _, List.mem_singleton_self _, _, rfl⟩

theorem beatAttempt_other {j : String} {f : Int} (hj : i ≠ j) :
    (beatAttempt db p driver now j f).2.attempt? i = db.attempt? i := by
  unfold beatAttempt
  split
  · rfl
  · split_ifs
    · rfl
    · rfl
    · rfl
    · rfl
    · rw [setAttempt_attempt?, if_neg hj]
      exact fun _ => rfl

theorem beatAttempt_fence {n : Nat} {j : String} {f : Int} (h : (db.attempt? i).map Attempt.ownerFence = some n) :
    ((beatAttempt db p driver now j f).2.attempt? i).map Attempt.ownerFence = some n := by
  obtain ⟨a, ha, rfl⟩ := Option.map_eq_some_iff.mp h
  have htry := ledger_try ha
  rw [← beatAttempt_ledger db p driver now j f] at htry
  obtain ⟨b, hb, he⟩ := attempt_of_try htry
  rw [hb]
  exact congrArg some (congrArg Try.fence he)

theorem heartbeat_stale (ha : db.attempt? i = some a) (hf : a.ownerFence ≠ fence)
    (h : heartbeat db caller p claims attempts subagents now = .ok (out, db')) (hi : (i, (fence : Int)) ∈ attempts) :
    (∃ code, .refused i code ∈ out) ∧ ((∀ f, (i, f) ∈ attempts → f = fence) → db'.attempt? i = db.attempt? i) := by
  simp only [heartbeat, bind_ok, pure_ok] at h
  obtain ⟨driver, _, _, _, _, _, h⟩ := h
  have hout : _ = out := congrArg Prod.fst h
  have hdb : _ = db' := congrArg Prod.snd h
  -- the claims come first, and leave the attempts as they are
  have hclaims : ∀ (acc : List Beaten × DB), acc.2.attempt? i = db.attempt? i →
      (beatAll (fun db x => beatClaim db p driver now x.1 x.2) claims acc).2.attempt? i = db.attempt? i := fun acc =>
    beatAll_invariant (I := fun d => d.attempt? i = db.attempt? i)
      (fun d x _ hd => (core_attempt? (core_of_body (beatClaim_body ..)) i).trans hd)
  have hback : (markBack db (some driver) now).attempt? i = db.attempt? i :=
    core_attempt? (core_of_body (markBack_body ..)) i
  have hstart := hclaims ([], markBack db (some driver) now) hback
  constructor
  · rw [← hout]
    have hfence : ∀ d : DB, (d.attempt? i).map Attempt.ownerFence = some a.ownerFence →
        ∃ b ∈ (beatAttempt d p driver now i fence).1, ∃ code, b = .refused i code := by
      intro d hd
      obtain ⟨b, hb, he⟩ := Option.map_eq_some_iff.mp hd
      exact (beatAttempt_stale hb (he ▸ hf)).2
    obtain ⟨b, hb, code, rfl⟩ := beatAll_answers (f := fun d x => beatAttempt d p driver now x.1 x.2)
      (I := fun d => (d.attempt? i).map Attempt.ownerFence = some a.ownerFence)
      (fun d x _ hd => beatAttempt_fence hd) (by rw [hstart, ha]; rfl) hi hfence
    exact ⟨code, beatAll_grows hb⟩
  · intro honly
    rw [← hdb]
    refine beatAll_invariant (I := fun d => d.attempt? i = db.attempt? i)
      (fun d x _ hd => (core_attempt? (core_of_body (beatSubagent_body ..)) i).trans hd) ?_
    refine beatAll_invariant (I := fun d => d.attempt? i = db.attempt? i) (fun d x hx hd => ?_) hstart
    obtain ⟨j, f⟩ := x
    by_cases hj : i = j
    · subst hj
      rw [honly f hx, (beatAttempt_stale (hd.trans ha) hf).1]
      exact hd
    · exact (beatAttempt_other hj).trans hd

theorem ousted_owner {ops : List Op} {a' : Attempt} (ha' : (after host ops).db.attempt? i = some a')
    (hlt : fence < a'.ownerFence) (more : List Op) : OustedOwner (after host (ops ++ more)) i fence := by
  obtain ⟨b, hb, -⟩ := after_kept host ops more ha'
  have hle := (owner_fence (List.prefix_append ops more) ha' hb).1
  exact ⟨fun _ _ _ _ _ _ _ _ h hi => heartbeat_stale hb (Nat.ne_of_gt (Nat.lt_of_lt_of_le hlt hle)) h hi⟩

end OldOwner

/-- Before the grace a driver loses its work only while it is offline, over every run:
a claim take-over that is no replay, and an attempt take-over by a caller that is no
admin while the lease is not reclaimable, go through only for an active member other
than the owner, who is offline in the rows they read, and with the fence those rows
have; and in every later state the old claims and the old owner fence give nothing. -/
theorem offline_takeover (host : Host) (ops : List Op) :
    (∀ caller r uid now c db', takeOverClaim host (after host ops).db caller r uid now = .ok (c, db') →
      ∃ driver, caller.driverId = some driver ∧
        ((db' = (after host ops).db ∧ c ∈ (after host ops).db.claims ∧ c.projectId = r.projectId ∧
            c.driverId = driver ∧ c.requestKey = "takeover:" ++ r.requestKey) ∨
          ∃ old ∈ (after host ops).db.claims, old.claimId = r.claimId ∧ old.projectId = r.projectId ∧
            old.status = .live ∧ r.expectedFence = (old.fence : Int) ∧
            MayTake host (after host ops).db r.projectId old.driverId driver now ∧
            ∀ more, Ousted host (after host (ops ++ .request (.takeOverClaim caller r uid now) :: more))
              old.claimId old.driverId old.node old.fence)) ∧
    ∀ caller i fence reason override now ids row moved db' a expires, caller.isAdmin = false →
      (after host ops).db.attempt? i = some a → a.leaseExpiresAt = some expires →
      leaseState (some expires) now ≠ .reclaimable →
      takeOverAttempt host (after host ops).db caller i fence reason override now ids = .ok (row, moved, db') →
      ∃ driver owner, caller.driverId = some driver ∧ a.ownerDriverId = some owner ∧ fence = (a.ownerFence : Int) ∧
        MayTake host (after host ops).db a.projectId owner driver now ∧
        ∀ more, let s := after host (ops ++ .request (.takeOverAttempt caller i fence reason override now ids) :: more)
          OustedOwner s i a.ownerFence ∧
          ∀ c ∈ boundClaims (after host ops).db a, Ousted host s c.claimId c.driverId c.node c.fence := by
  have hlater : ∀ op more, ops ++ op :: more = (ops ++ [op]) ++ more := fun op more => by
    rw [List.append_assoc, List.singleton_append]
  constructor
  · intro caller r uid now c db' h
    obtain ⟨driver, hdriver, hreplay | ⟨old, hold, hid, hp, hlive, hfence, hmay, htaken⟩⟩ :=
      takeOverClaim_cases (after_fenced host ops) h
    · exact ⟨driver, hdriver, .inl hreplay⟩
    · refine ⟨driver, hdriver, .inr ⟨old, hold, hid, hp, hlive, hfence, hmay, fun more => ?_⟩⟩
      have hdb : (after host (ops ++ [.request (.takeOverClaim caller r uid now)])).db = db' := by
        simp [after_append, run, next, stepOp, stepRequest, Request.run, answer, h, bind, Except.bind,
          pure, Except.pure]
      rw [← hdb] at htaken
      rw [hlater]
      exact ousted_of_ended (List.prefix_append _ _) hold htaken rfl (.inl rfl) more
  · intro caller i fence reason override now ids row moved db' a expires hadmin ha hlease hearly h
    obtain ⟨driver, owner, hdriver, howner, hfence, hmay⟩ := takeOverAttempt_authority hadmin ha hlease hearly h
    obtain ⟨⟨a', ha', hraised⟩, hends⟩ := takeOverAttempt_ousts ha h
    refine ⟨driver, owner, hdriver, howner, hfence, hmay, fun more => ?_⟩
    have hdb : (after host (ops ++ [.request (.takeOverAttempt caller i fence reason override now ids)])).db = db' := by
      simp [after_append, run, next, stepOp, stepRequest, Request.run, answer, h, bind, Except.bind, pure, Except.pure,
        Except.map]
    rw [← hdb] at ha' hends
    rw [hlater]
    constructor
    · have hlt : a.ownerFence < a'.ownerFence := by omega
      exact ousted_owner ha' hlt more
    · intro c hc
      obtain ⟨d, hd, hdc, hds⟩ := hends c hc
      exact ousted_of_ended (List.prefix_append _ _) (List.mem_filter.mp hc).1 hd hdc (.inr hds) more

namespace Sample

def takeover : ClaimTakeover := ⟨"p", "claim-k1", 1, "the holder is away for the week", "t1"⟩

/-- The first driver claims the node, goes away, loses the claim to the second one and
comes back. -/
def comeBack (start : List Op) : List Op :=
  start ++ [claimed "d1" "k1" "h:/w#one" 1000000, .request (.declarePresence (some "d1") true "away" none 2000000),
    .request (.takeOverClaim (driven "d2") takeover "t1" 3000000),
    .request (.declarePresence (some "d1") false "back" none 4000000)]

/-- The owner registers a session of its own: an attempt without driver or lease. -/
def unleased : List Op :=
  project [spec "a" []] ++ [team, .request (.register owner "harness" "session-9" (requestAt "9" none 1000000))]

end Sample

open Sample in
/-- A take-over that is repeated answers again when the driver is back; a member takes
over an attempt without a lease, whose owner no presence tells of; and where claims are
not enforced a dispatch with nothing but the old fence passes. -/
theorem offline_takeover_replayed :
    ((takeOverClaim machine (after machine (comeBack guarded)).db (driven "d2") takeover "t2" 5000000).isOk = true ∧
      ownerIsOffline (effectivePresence machine (after machine (comeBack guarded)).db "d1" 5000000) = false) ∧
    (((after machine unleased).db.attempt? "attempt-9").map (fun a =>
        (a.ownerDriverId, decide (leaseState a.leaseExpiresAt 2000000 = .reclaimable))) = some (none, false) ∧
      (takeOverAttempt machine (after machine unleased).db (driven "d1") "attempt-9" 0 "taken"
        (some "the owner asked for it") 2000000 (fun _ => "1")).isOk = true) ∧
    (after machine (comeBack (project [spec "a" []] ++ [team]))).db.claims.map
      (fun c => (c.driverId, c.fence, c.status)) =
        [("d1", 1, .takenOver), ("d2", 2, .live)] ∧
      (dispatchClaim machine (after machine (comeBack (project [spec "a" []] ++ [team]))).db ("p",
        "a") (driven "d1") none
        (some 1) 5000000 false).isOk = true := by
  decide +kernel

end AItelier.State
