import Mathlib.Data.List.Induction
import AItelier.Refine.Leases
import AItelier.Refine.Handoffs

namespace AItelier.Ledger

open AItelier.State

variable {D : Discipline} {L L' : Ledger} {k : NodeId}

/-- No step takes a node away. -/
theorem Step.keeps_facts (h : Step D L L') (hk : (L.facts k).isSome) : (L'.facts k).isSome := by
  have hset : ∀ (M : Ledger) (j : NodeId) (f : Fact), M.facts = L.facts → ((M.setFact j f).facts k).isSome := by
    intro M j f hM
    by_cases he : k = j
    · simp [setFact, he]
    · simpa [setFact, he, hM] using hk
  cases h with
  | grow facts deps grows =>
    obtain ⟨f, hf⟩ := Option.isSome_iff_exists.mp hk
    simp [(grows.kept k f hf).1]
  | invalidate U closed =>
    by_cases hU : k ∈ U <;> simpa [Ledger.invalidate, hU] using hk
  | rewrite j f f' deps fact stale revision status receipt wired => exact hset L j f' rfl
  | close j f fact stale => exact hset L j _ rfl
  | offer j f fact unverified open_ reviewable => exact hset L j _ rfl
  | admission i t f admits => exact hset (L.admission i t) t.node _ rfl
  | move i t t' tried moves => exact hk
  | attest e t attests => exact hk
  | accept r f t accepts => exact hset { L with acceptances := L.acceptances ++ [r] } t.node _ rfl

theorem Steps.keeps_facts (h : Steps D L L') (hk : (L.facts k).isSome) : (L'.facts k).isSome := by
  induction h with
  | refl => exact hk
  | tail _ hstep ih => exact hstep.keeps_facts ih

end AItelier.Ledger

namespace AItelier.State

open AItelier.Lib AItelier.Ledger

variable {db db' : DB} {host : Host} {caller : Caller}

theorem mem_ids_iff {k : NodeId} : k ∈ db.ids ↔ ((ledger db).facts k).isSome := by
  have hfact : ((ledger db).facts k).isSome = (db.node? k).isSome := by simp [ledger]
  rw [hfact]
  constructor
  · intro hk
    obtain ⟨n, hn, rfl⟩ := List.mem_map.mp hk
    exact lookup_isSome_of_mem hn
  · intro hk
    obtain ⟨n, hn⟩ := Option.isSome_iff_exists.mp hk
    exact mem_ids hn

/-- Claims are on nodes that exist, and an offer of a claim is made in the
claim's project. -/
structure Placed (db : DB) : Prop where
  claims : ∀ c ∈ db.claims, c.node ∈ db.ids
  offers : ∀ h ∈ db.handoffs, ∀ i, h.claimId = some i → ∃ c ∈ db.claims, c.claimId = i ∧ c.projectId = h.projectId

section Offers
variable {reply : Reply}

/-- An offer as it stands in the store: from the terms it had, or on a claim of
its project. -/
def Offered (db : DB) (h : Handoff) : Prop :=
  (∃ h₀ ∈ db.handoffs, h₀.terms = h.terms) ∨
    ∀ i, h.claimId = some i → ∃ c ∈ db.claims, c.claimId = i ∧ c.projectId = h.projectId

theorem offered_of_eq (he : db'.handoffs = db.handoffs) : ∀ h ∈ db'.handoffs, Offered db h := by
  intro h hh
  rw [he] at hh
  exact .inl ⟨h, hh, rfl⟩

theorem offered_of_void {db₁ : DB} {i reason : String} (hkept : db₁.handoffs = db.handoffs)
    (h : db'.handoffs = (voidOpenHandoffs db₁ i reason).handoffs) : ∀ h ∈ db'.handoffs, Offered db h := by
  intro q hq
  rw [h, voidOpenHandoffs, hkept] at hq
  obtain ⟨q₀, hq₀, rfl⟩ := mem_modifyWhere.mp hq
  refine .inl ⟨q₀, hq₀, ?_⟩
  split_ifs <;> rfl

theorem offered_of_decide {db₁ : DB} {i by_ reason : String} {status : HandoffStatus}
    (hkept : db₁.handoffs = db.handoffs) (h : db'.handoffs = (decideHandoff db₁ i status by_ reason).handoffs) :
    ∀ h ∈ db'.handoffs, Offered db h := by
  intro q hq
  rw [h, decideHandoff, DB.setHandoff, hkept] at hq
  obtain ⟨q₀, hq₀, rfl⟩ := mem_modifyWhere.mp hq
  refine .inl ⟨q₀, hq₀, ?_⟩
  split_ifs <;> rfl

theorem offerHandoff_offered {o : Offer} {retained : ReportRef → Result Unit} {uid : String} {now : Stamp}
    {row : Handoff} (h : offerHandoff host db caller o retained uid now = .ok (row, db')) :
    ∀ h ∈ db'.handoffs, Offered db h := by
  simp only [offerHandoff, bind_ok] at h
  obtain ⟨driver, _, _, _, _, _, _, _, ⟨attempt, nodeKey⟩, hsub, _, _, h⟩ := h
  split at h
  · simp only [bind_ok, pure_ok, Prod.mk.injEq] at h
    obtain ⟨_, _, _, rfl⟩ := h
    exact offered_of_eq rfl
  · simp only [bind_ok, pure_ok, ensure_ok, Prod.mk.injEq] at h
    obtain ⟨_, _, _, _, rfl, rfl⟩ := h
    intro q hq
    rcases List.mem_append.mp hq with hq | hq
    · exact .inl ⟨q, hq, rfl⟩
    · rw [List.mem_singleton.mp hq]
      refine .inr (fun i hi => ?_)
      cases hsubject : o.subject with
      | attempt a =>
        simp only [hsubject, Subject.claimId] at hi
        cases hi
      | claim c =>
        simp only [hsubject, Subject.claimId, Option.some.injEq] at hi
        subst hi
        simp only [offeredSubject, hsubject, bind_ok, orElse_ok, Option.filter_eq_some_iff,
          decide_eq_true_eq] at hsub
        obtain ⟨_, _, claim, ⟨hclaim, hproject⟩, _⟩ := hsub
        exact ⟨claim, lookup_mem hclaim, lookup_key hclaim, hproject⟩

theorem Request.offered {r : Request} (h : r.run host db = .ok (reply, db')) : ∀ q ∈ db'.handoffs, Offered db q := by
  by_cases hw : Part.handoffs ∈ r.writes
  · cases r with
    | abandon caller request kept now =>
      obtain ⟨_, h⟩ := answer_ok h
      obtain ⟨db₁, hkept, hvoid⟩ := abandonExternalAttempt_ok h
      exact offered_of_void hkept hvoid
    | takeOverAttempt caller i fence reason override now ids =>
      obtain ⟨_, hx⟩ := answer_ok h
      simp only [map_ok, Prod.mk.injEq] at hx
      obtain ⟨_, hx, _, rfl⟩ := hx
      obtain ⟨db₁, hkept, hvoid⟩ := takeOverAttempt_ok hx
      exact offered_of_void hkept hvoid
    | offerHandoff caller offer retained uid now =>
      obtain ⟨row, h⟩ := answer_ok h
      exact offerHandoff_offered h
    | acceptHandoff caller p handoffId fence now ids =>
      obtain ⟨_, h⟩ := answer_ok h
      obtain ⟨hd, db₁, _, _, hsub, rfl⟩ := acceptHandoff_ok h
      exact offered_of_decide (acceptSubject_handoffs hsub) rfl
    | declineHandoff caller p handoffId reason now =>
      obtain ⟨hd, reason', _, _, hrow⟩ := declineHandoff_ok (done_ok h)
      exact offered_of_decide rfl hrow
    | withdrawHandoff caller p handoffId reason now =>
      rcases withdrawHandoff_ok (done_ok h) with rfl | ⟨hd, driver, _, _, _, hrow⟩
      · exact offered_of_eq rfl
      · exact offered_of_decide rfl hrow
    | _ => simp [Request.writes] at hw
  · exact offered_of_eq ((Request.leaves h).handoffs hw)

end Offers

section Runs

theorem charter_unleased : Unleased Claim.charter := fun _ _ _ => rfl

/-- What a transaction that keeps the charters of the claims keeps placed. -/
theorem Placed.step (h : Placed db) (hids : ∀ k ∈ db.ids, k ∈ db'.ids)
    (hkeeps : Keeps Claim.charter (fun k => k ∈ db.ids) db db') (hoffers : ∀ q ∈ db'.handoffs, Offered db q) :
    Placed db' := by
  refine ⟨fun c hc => hids _ (hkeeps.nodes h.claims c hc), ?_⟩
  have hkept : ∀ i p, (∃ c ∈ db.claims, c.claimId = i ∧ c.projectId = p) →
      ∃ c ∈ db'.claims, c.claimId = i ∧ c.projectId = p := by
    rintro i p ⟨c, hc, rfl, rfl⟩
    obtain ⟨c', hc', he⟩ := hkeeps.row hc
    have hnode : c'.node = c.node := congrArg Charter.node he
    exact ⟨c', hc', congrArg Charter.claimId he, congrArg Prod.fst hnode⟩
  intro q hq i hi
  rcases hoffers q hq with ⟨q₀, hq₀, hterms⟩ | hnew
  · have hclaim : q₀.claimId = q.claimId := (Handoff.mk.inj hterms).2.2.2.1
    have hproject : q₀.projectId = q.projectId := (Handoff.mk.inj hterms).2.1
    refine hkept i q.projectId ?_
    rw [← hproject]
    exact h.offers q₀ hq₀ i (hclaim.trans hi)
  · exact hkept i q.projectId (hnew i hi)

theorem Placed.grounded (h : Placed db) (hd : (db.claims.map Claim.claimId).Nodup)
    (hattempts : ∀ a ∈ db.attempts, a.node ∈ db.ids) : Grounded (fun k => k ∈ db.ids) db := by
  refine ⟨fun _ hk => hk, hattempts, ?_⟩
  intro q hq c hc hclaim
  obtain ⟨c₀, hc₀, hid, hproject⟩ := h.offers q hq c.claimId hclaim
  have he : c₀ = c := List.inj_on_of_nodup_map hd hc₀ hc hid
  rw [← hproject, he]
  exact h.claims c hc

theorem after_attempt_node (host : Host) (ops : List Op) :
    ∀ a ∈ (after host ops).db.attempts, a.node ∈ (after host ops).db.ids := by
  intro a ha
  have hd : ((after host ops).db.attempts.map Attempt.attemptId).Nodup := (after_orderly host ops).distinct
  obtain ⟨f, hf, _⟩ := (after_pinned host ops).revision a.attemptId a.toTry (ledger_try (lookup_of_mem hd ha))
  exact mem_ids_iff.mpr (by rw [show a.node = a.toTry.node from rfl, hf]; rfl)

theorem after_placed (host : Host) (ops : List Op) : Placed (after host ops).db := by
  induction ops using List.reverseRecOn with
  | nil =>
    refine ⟨fun c hc => ?_, fun q hq => ?_⟩
    · exact absurd hc List.not_mem_nil
    · exact absurd hq List.not_mem_nil
  | append_singleton ops op ih =>
    have hnext : after host (ops ++ [op]) = next host (after host ops) op := by
      rw [after_append]
      rfl
    rw [hnext]
    have hids : ∀ k ∈ (after host ops).db.ids, k ∈ (next host (after host ops) op).db.ids := by
      intro k hk
      have hsteps : Refines Discipline.none (after host ops).db (next host (after host ops) op).db :=
        next_refines (keeps_none (after host ops) op)
      exact mem_ids_iff.mpr (Steps.keeps_facts hsteps (mem_ids_iff.mp hk))
    have hground := ih.grounded (claimIds_distinct (after_fenced host ops)) (after_attempt_node host ops)
    rcases next_db host (after host ops) op with he | ⟨r | ⟨call, now⟩, reply, h⟩
    · rw [he]
      exact ih
    · exact ih.step hids (Request.keeps (charter_spares _) hground (.inl charter_unleased) h) (Request.offered h)
    · exact ih.step hids (Call.keeps (charter_spares _) h)
        (offered_of_eq ((Call.leaves h).handoffs (Call.writes_handoffs call)))

end Runs

end AItelier.State
