import AItelier.Proofs.Dispatch

namespace AItelier.State

open AItelier.Lib AItelier.Ledger

variable {db db' : DB} {host : Host} {caller : Caller} {r : ReserveRequest} {s : Sys} {op : Op} {row a : Attempt}
  {c : Claim} {k : NodeId} {ops past : List Op} {i w : String}

/-- A quiescent late report has settled the owner row of the attempt. -/
def attested (db : DB) (i : String) : Bool :=
  (lookup ExternalOwner.attemptId db.owners i).any (fun o => decide (o.status = .settled))

/-- The attempt was abandoned with its worker unaccounted for. -/
def Attempt.Lost (a : Attempt) : Prop := a.status = .abandoned ∧ a.abandonKind = some .unknown

/-- The step admits `row` for `caller`, and binds `c` to it. -/
structure AdmitsOn (host : Host) (s : Sys) (op : Op) (caller : Caller) (r : ReserveRequest) (row : Attempt)
    (c : Claim) : Prop where
  call : s.admission op = some (caller, r)
  new : row ∈ (next host s op).db.attempts
  fresh : s.db.attempt? row.attemptId = none
  claim : c ∈ (next host s op).db.claims
  bound : c.attemptId = some row.attemptId
  unbound : ∀ x ∈ s.db.claims, x.claimId = c.claimId → x.attemptId ≠ some row.attemptId

section Guard

theorem afterUnknownAbandon_separate {baseSha : Option String}
    (h : afterUnknownAbandon db k (some c) baseSha false = .ok ()) (hl : db.latestAttempt k = some a)
    (hu : a.abandonKind = some .unknown) (hw : attemptWorkspace db a.attemptId = some w) :
    checkoutOf c.workspace ≠ checkoutOf w := by
  simp only [afterUnknownAbandon, hl, hu, ne_eq, not_true, Bool.false_eq_true, or_self, if_false, ensure_ok] at h
  intro he
  by_cases hne : c.workspace = ""
  · simp [abandonProblems, Option.filter, hne] at h
  · simp [abandonProblems, Option.filter, hne, hw, he] at h

/-- The claim an admission binds is the one it was dispatched on. -/
theorem AdmitsOn.ridden (hd : ∀ x ∈ s.db.claims, ∀ y ∈ s.db.claims, x.claimId = y.claimId → x = y)
    (h : AdmitsOn host s op caller r row c) (hadmin : caller.isAdmin = false)
    (he : enforced s.db r.projectId = true) :
    ∃ x, x ∈ s.db.claims ∧ x.node = r.node ∧ x.status = .live ∧ some x.driverId = caller.driverId ∧
      x.workspace = c.workspace ∧
      ∃ view baseSha, view.attempts = s.db.attempts ∧ view.claims = s.db.claims ∧
        afterUnknownAbandon view r.node (some x) baseSha false = .ok () := by
  obtain ⟨w, e, node, claim, bg, _, _, hadm⟩ := admitted_ok h.call h.new h.fresh
  obtain ⟨x, rfl, hx⟩ := enforced_rides (r := { r with workflow := w, external := e }) he hadmin hadm.claimed
  have hguard := hadm.separate (by rw [reserveView_enforced]; exact he)
  rw [hadmin] at hguard
  refine ⟨x, hx.held, hx.node, hx.live, hx.own, ?_, _, _, reserveView_attempts .., reserveView_claims .., hguard⟩
  have hc := h.claim
  rw [hadm.written, admit_claims] at hc
  obtain ⟨y, hy, hyc⟩ := List.mem_map.mp hc
  rw [reserveView_claims] at hy
  by_cases hid : y.claimId = x.claimId
  · have hyx : y = x := hd y hy x hx.held hid
    subst hyx
    simp only [decide_true, if_true] at hyc
    rw [← hyc]
  · simp only [hid, decide_false, Bool.false_eq_true, if_false] at hyc
    subst hyc
    exact absurd h.bound (h.unbound y hy rfl)

end Guard

/-- The step is no driver's admission with a claim on the checkout of a lost and
unattested attempt that the node's latest attempt hides. -/
def Sys.CheckoutSafe (s : Sys) (op : Op) : Prop :=
  ∀ q ∈ s.admission op, q.1.isAdmin = false → enforced s.db q.2.projectId = true →
    ∀ a ∈ s.db.attempts, a.node = q.2.node → a.Lost → attested s.db a.attemptId = false → isLatest s.db a = false →
      ∀ w ∈ attemptWorkspace s.db a.attemptId, ∀ c ∈ s.db.claims, c.node = q.2.node → c.status = .live →
        some c.driverId = q.1.driverId → checkoutOf c.workspace ≠ checkoutOf w

instance (a : Attempt) : Decidable a.Lost := inferInstanceAs (Decidable (_ ∧ _))

instance (s : Sys) (op : Op) : Decidable (s.CheckoutSafe op) :=
  inferInstanceAs (Decidable (∀ q ∈ s.admission op, _))

/-- No attempt that the step after `ops` admits for a driver shares the checkout of
an attempt of its node that was lost before and is not attested. -/
def Separated (host : Host) (ops : List Op) (op : Op) : Prop :=
  ∀ caller r row c, AdmitsOn host (after host ops) op caller r row c → caller.isAdmin = false →
    enforced (after host ops).db r.projectId = true → ∀ past, past <+: ops → ∀ i a,
      (after host past).db.attempt? i = some a → a.node = row.node → a.Lost →
      attested (after host ops).db i = false → ∀ w ∈ attemptWorkspace (after host ops).db i,
        checkoutOf c.workspace ≠ checkoutOf w

theorem lost_stays (h : past <+: ops) (ha : (after host past).db.attempt? i = some a) (hl : a.Lost) :
    ∃ b, (after host ops).db.attempt? i = some b ∧ b.node = a.node ∧ b.Lost := by
  obtain ⟨more, rfl⟩ := h
  obtain ⟨b, hb, hk⟩ := after_kept host past more ha
  obtain ⟨hs, hkind⟩ := hk.abandoned hl.1
  exact ⟨b, hb, hk.node, hs, hkind.trans hl.2⟩

theorem separated_of_safe (hsafe : (after host ops).CheckoutSafe op) : Separated host ops op := by
  intro caller r row c hadmits hadmin he past hpast i a ha hnode hlost hopen w hw
  have hclaims : ∀ x ∈ (after host ops).db.claims, ∀ y ∈ (after host ops).db.claims, x.claimId = y.claimId → x = y :=
    fun x hx y hy => claim_eq_of_id (after_fenced host ops) hx hy
  obtain ⟨x, hx, hxn, hxl, hxd, hxw, view, base, hviewA, hviewC, hguard⟩ := hadmits.ridden hclaims hadmin he
  obtain ⟨b, hb, hbn, hbl⟩ := lost_stays hpast ha hlost
  have hrow : row.node = r.node := by
    obtain ⟨_, _, _, _, _, _, _, hadm⟩ := admitted_ok hadmits.call hadmits.new hadmits.fresh
    obtain ⟨context, hmade⟩ := hadm.made
    rw [hmade]
    rfl
  have hbk : b.node = r.node := hbn.trans (hnode.trans hrow)
  have hid : b.attemptId = i := attempt_id hb
  rw [← hxw]
  cases hlast : isLatest (after host ops).db b with
  | false =>
    exact hsafe (caller, r) hadmits.call hadmin he b (lookup_mem hb) hbk hbl (hid.symm ▸ hopen) hlast w
      (hid.symm ▸ hw) x hx hxn hxl hxd
  | true =>
    -- the guard looks at the latest attempt only, and here that is the lost one
    have hlatest := isLatest_iff.mp hlast
    obtain ⟨m, hm, hmb⟩ := latestAttempt_of_latest (after_orderly host ops) hlatest
    have hbm : m = b := by
      rw [hid, hb] at hmb
      exact (Option.some.inj hmb).symm
    subst hbm
    refine afterUnknownAbandon_separate hguard ?_ hbl.2 ?_
    · rw [DB.latestAttempt, hviewA, ← hbk]
      exact hm
    · rw [attemptWorkspace, hviewC, hid]
      exact hw

/-- Checkouts stay apart in every run whose admissions ride on no checkout that a
hidden lost attempt may still be written from. -/
theorem checkout_separation (host : Host) (steps : List Op)
    (h : Along Sys.CheckoutSafe (next host) Sys.init steps) (ops : List Op) (op : Op)
    (hrun : ops ++ [op] <+: steps) : Separated host ops op := by
  obtain ⟨rest, rfl⟩ := hrun
  rw [Along.append, Along.append] at h
  exact separated_of_safe h.1.2.1

namespace Sample

/-- An attempt on one checkout, abandoned with its worker unaccounted for. -/
def lost : List Op :=
  held ++ [registeredAt "d1" "1" 1000000,
    .request (.abandon (driven "d2") ⟨"attempt-1", 1, .unknown, "no answer", none, none, none⟩
      (.error (.notFound "no report")) 9000000000)]

/-- The next driver claims another checkout. -/
def apart : List Op := lost ++ [claimed "d2" "k2" "h:/w2#two" 9000000000]

/-- Its reservation, with a declared base. -/
def reservedApart : Op := .request (.reserve (driven "d2") "flow" (requestAt "2" (some artifact) 9000000000))

/-- That attempt is over, and its driver claims the first checkout. -/
def outlived : List Op :=
  apart ++ [reservedApart, .request (.retireReservation "attempt-2" "not needed"),
    .request (.releaseClaim (driven "d2") "p" "claim-k2" 2 "moving"), claimed "d2" "k3" "h:/w#three" 9000000000]

def lostAt (db : DB) (i : String) : Option (NodeId × AttemptStatus × Option AbandonKind) :=
  (db.attempt? i).map (fun a => (a.node, a.status, a.abandonKind))

/-- The claim, its attempt and its checkout. -/
def boundAt (db : DB) (i : String) : Option (Option String × String) :=
  (db.claim? i).map (fun c => (c.attemptId, checkoutOf c.workspace))

theorem lost_of_lostAt (h : lostAt db i = some (("p", "a"), .abandoned, some .unknown)) :
    ∃ a, db.attempt? i = some a ∧ a.node = ("p", "a") ∧ a.Lost := by
  obtain ⟨a, ha, hp⟩ := Option.map_eq_some_iff.mp h
  simp only [Prod.mk.injEq] at hp
  exact ⟨a, ha, hp.1, hp.2⟩

/-- An admission read off the states before and after it. -/
theorem admitsOn_of {o j : String} (hcall : s.admission op = some (caller, r))
    (hnew : ((next machine s op).db.attempt? i).map Attempt.node = some k)
    (hfresh : (s.db.attempt? i).isNone = true) (hbound : boundAt (next machine s op).db j = some (some i, o))
    (hclean : ∀ x ∈ s.db.claims, x.attemptId ≠ some i) :
    ∃ row c, AdmitsOn machine s op caller r row c ∧ row.node = k ∧ checkoutOf c.workspace = o := by
  obtain ⟨row, hrow, hnode⟩ := Option.map_eq_some_iff.mp hnew
  obtain ⟨c, hc, hpair⟩ := Option.map_eq_some_iff.mp hbound
  obtain ⟨hci, hco⟩ := Prod.mk.inj hpair
  have hid : row.attemptId = i := attempt_id hrow
  refine ⟨row, c, ⟨hcall, lookup_mem hrow, ?_, lookup_mem hc, ?_, ?_⟩, hnode, hco⟩
  · rw [hid]
    exact Option.isNone_iff_eq_none.mp hfresh
  · rw [hid]
    exact hci
  · intro x hx _
    rw [hid]
    exact hclean x hx

end Sample

open Sample in
/-- One attempt later, the checkout of the lost worker is given out again. -/
theorem shared_checkout : ¬ Separated machine outlived (registeredAt "d2" "3" 9000000000) := by
  have ⟨hnew, hfresh, hbound, hclean, he, hlost, hopen, hw⟩ :
      ((next machine (after machine outlived) (registeredAt "d2" "3" 9000000000)).db.attempt? "attempt-3").map
        Attempt.node = some ("p", "a") ∧
      ((after machine outlived).db.attempt? "attempt-3").isNone = true ∧
      boundAt (next machine (after machine outlived) (registeredAt "d2" "3" 9000000000)).db "claim-k3" =
        some (some "attempt-3", "h:/w") ∧
      (∀ x ∈ (after machine outlived).db.claims, x.attemptId ≠ some "attempt-3") ∧
      enforced (after machine outlived).db "p" = true ∧
      lostAt (after machine outlived).db "attempt-1" = some (("p", "a"), .abandoned, some .unknown) ∧
      attested (after machine outlived).db "attempt-1" = false ∧
      (attemptWorkspace (after machine outlived).db "attempt-1").map (fun w => (w, checkoutOf w)) =
        some ("h:/w#one", "h:/w") := by
    decide +kernel
  intro hsep
  obtain ⟨row, c, hadmits, hnode, hco⟩ := admitsOn_of rfl hnew hfresh hbound hclean
  obtain ⟨a, ha, han, hal⟩ := lost_of_lostAt hlost
  obtain ⟨w, hw, hpair⟩ := Option.map_eq_some_iff.mp hw
  have hout := (Prod.mk.inj hpair).2
  exact hsep _ _ row c hadmits rfl he outlived List.prefix_rfl "attempt-1" a ha (han.trans hnode.symm) hal hopen w hw
    (hco.trans hout.symm)

open Sample in
/-- The attempt right after the lost one is on another checkout. -/
theorem checkout_separation_apart : ∃ row c, row.node = ("p", "a") ∧
    AdmitsOn machine (after machine apart) reservedApart (driven "d2")
      { requestAt "2" (some artifact) 9000000000 with external := none } row c ∧
    ∀ w ∈ attemptWorkspace (after machine apart).db "attempt-1", checkoutOf c.workspace ≠ checkoutOf w := by
  have ⟨hsafe, hnew, hfresh, hbound, hclean, he, hlost, hopen⟩ :
      Along Sys.CheckoutSafe (next machine) Sys.init (apart ++ [reservedApart]) ∧
      ((next machine (after machine apart) reservedApart).db.attempt? "attempt-2").map Attempt.node = some ("p", "a") ∧
      ((after machine apart).db.attempt? "attempt-2").isNone = true ∧
      boundAt (next machine (after machine apart) reservedApart).db "claim-k2" = some (some "attempt-2", "h:/w2") ∧
      (∀ x ∈ (after machine apart).db.claims, x.attemptId ≠ some "attempt-2") ∧
      enforced (after machine apart).db "p" = true ∧
      lostAt (after machine apart).db "attempt-1" = some (("p", "a"), .abandoned, some .unknown) ∧
      attested (after machine apart).db "attempt-1" = false := by
    decide
  obtain ⟨row, c, hadmits, hnode, _⟩ := admitsOn_of rfl hnew hfresh hbound hclean
  obtain ⟨a, ha, han, hal⟩ := lost_of_lostAt hlost
  refine ⟨row, c, hnode, hadmits, fun w hw => ?_⟩
  exact checkout_separation machine (apart ++ [reservedApart]) hsafe apart reservedApart List.prefix_rfl _ _ row c
    hadmits rfl he apart List.prefix_rfl "attempt-1" a ha (han.trans hnode.symm) hal hopen w hw

end AItelier.State
