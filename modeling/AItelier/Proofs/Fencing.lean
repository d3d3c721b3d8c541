import AItelier.Proofs.Lifecycle
import AItelier.Refine.Claims

namespace AItelier.State

open AItelier.Lib AItelier.Ledger

variable {db : DB} {host : Host} {i : String} {a b : Attempt} {c d : Claim} {ops past : List Op}

section Claims

theorem claim_eq_of_id (hf : Ticket.Fenced (tickets db)) (hc : c ∈ db.claims) (hd : d ∈ db.claims)
    (hid : c.claimId = d.claimId) : c = d :=
  List.inj_on_of_nodup_map (claimIds_distinct hf) hc hd hid

theorem exclusive_claim_unique (hf : Ticket.Fenced (tickets db)) (hc : c ∈ db.claims) (hd : d ∈ db.claims)
    (hn : c.node = d.node) (hce : c.purpose.exclusive = true) (hde : d.purpose.exclusive = true)
    (hcl : c.status = .live) (hdl : d.status = .live) : c = d :=
  claim_eq_of_id hf hc hd (hf.single c.ticket (mem_tickets hc) d.ticket (mem_tickets hd) hn hce hde
    (decide_eq_true hcl) (decide_eq_true hdl))

/-- A fence that a later state has and an earlier one has not is above all of its
node that the earlier one has. -/
theorem fence_issued (h : past <+: ops) (hc : c ∈ (after host ops).db.claims) :
    (∃ d ∈ (after host past).db.claims, d.claimId = c.claimId ∧ d.node = c.node ∧ d.driverId = c.driverId ∧
      d.fence = c.fence) ∨
    ∀ d ∈ (after host past).db.claims, d.node = c.node → d.fence < c.fence := by
  obtain ⟨more, rfl⟩ := h
  rcases (after_follows host past more).issued c.ticket (mem_tickets hc) with ⟨t, ht, h1, h2, h3, h4⟩ | habove
  · obtain ⟨d, hd, rfl⟩ := List.mem_map.mp ht
    exact .inl ⟨d, hd, h1, h2, h3, h4⟩
  · exact .inr (fun d hd hn => habove d.ticket (mem_tickets hd) hn)

theorem fence_holder (h : past <+: ops) (hd : d ∈ (after host past).db.claims)
    (hc : c ∈ (after host ops).db.claims) (hn : c.node = d.node) (hfence : c.fence = d.fence) :
    c.claimId = d.claimId ∧ c.driverId = d.driverId := by
  rcases fence_issued h hc with ⟨e, he, h1, h2, h3, h4⟩ | habove
  · have hfenced := after_fenced host past
    have hid : e.claimId = d.claimId := hfenced.fences e.ticket (mem_tickets he) d.ticket (mem_tickets hd)
      (h2.trans hn) (h4.trans hfence)
    have hed : e = d := claim_eq_of_id hfenced he hd hid
    subst hed
    exact ⟨h1.symm, h3.symm⟩
  · have hlt := habove d hd hn.symm
    omega

theorem claim_stays_ended (h : past <+: ops) (hd : d ∈ (after host past).db.claims) (hs : d.status ≠ .live)
    (hc : c ∈ (after host ops).db.claims) (hid : c.claimId = d.claimId) : c.status ≠ .live := by
  obtain ⟨more, rfl⟩ := h
  obtain ⟨t, ht, hti, _, _, _, hl⟩ := (after_follows host past more).kept d.ticket (mem_tickets hd)
  obtain ⟨e, he, rfl⟩ := List.mem_map.mp ht
  have hec : e = c := claim_eq_of_id (after_fenced host _) he hc (hti.trans hid.symm)
  subst hec
  exact of_decide_eq_false (hl (decide_eq_false hs))

end Claims

section Owners

theorem owner_fence (h : past <+: ops) (ha : (after host past).db.attempt? i = some a)
    (hb : (after host ops).db.attempt? i = some b) :
    a.ownerFence ≤ b.ownerFence ∧ (b.ownerFence = a.ownerFence → b.ownerDriverId = a.ownerDriverId) := by
  obtain ⟨more, rfl⟩ := h
  obtain ⟨b', hb', hk⟩ := after_kept host past more ha
  have he : b' = b := Option.some.inj (hb'.symm.trans hb)
  subst he
  exact ⟨hk.fence, hk.owner⟩

end Owners

/-- Claims and ownership are fenced, over every run: one live exclusive claim for
each node; a fence that a step issues is above every fence its node ever had, so
that no two holders share one; an ended claim stays ended; and an attempt's owner
fence rises with every change of owner, so that no past pair comes back. -/
theorem claim_fencing (host : Host) (ops : List Op) :
    (∀ c ∈ (after host ops).db.claims, ∀ d ∈ (after host ops).db.claims, c.node = d.node →
      c.purpose.exclusive = true → d.purpose.exclusive = true → c.status = .live → d.status = .live → c = d) ∧
    (∀ op, ∀ c ∈ (after host (ops ++ [op])).db.claims,
      (∃ d ∈ (after host ops).db.claims, d.claimId = c.claimId ∧ d.node = c.node ∧ d.driverId = c.driverId ∧
        d.fence = c.fence) ∨
      ∀ past, past <+: ops → ∀ d ∈ (after host past).db.claims, d.node = c.node → d.fence < c.fence) ∧
    (∀ past, past <+: ops → ∀ d ∈ (after host past).db.claims, ∀ c ∈ (after host ops).db.claims,
      (c.node = d.node → c.fence = d.fence → c.claimId = d.claimId ∧ c.driverId = d.driverId) ∧
      (c.claimId = d.claimId → d.status ≠ .live → c.status ≠ .live)) ∧
    (∀ op i a b, (after host ops).db.attempt? i = some a → (after host (ops ++ [op])).db.attempt? i = some b →
      b.ownerDriverId ≠ a.ownerDriverId → a.ownerFence < b.ownerFence) ∧
    ∀ mid past, mid <+: ops → past <+: mid → ∀ i a b c, (after host past).db.attempt? i = some a →
      (after host mid).db.attempt? i = some b → (after host ops).db.attempt? i = some c →
      (b.ownerDriverId, b.ownerFence) ≠ (a.ownerDriverId, a.ownerFence) →
      (c.ownerDriverId, c.ownerFence) ≠ (a.ownerDriverId, a.ownerFence) := by
  refine ⟨?_, ?_, ?_, ?_, ?_⟩
  · intro c hc d hd hn hce hde hcl hdl
    exact exclusive_claim_unique (after_fenced host ops) hc hd hn hce hde hcl hdl
  · intro op c hc
    by_cases hold : ∃ d ∈ (after host ops).db.claims, d.claimId = c.claimId ∧ d.node = c.node ∧
        d.driverId = c.driverId ∧ d.fence = c.fence
    · exact .inl hold
    · refine .inr (fun past hpast d hd hn => ?_)
      rcases fence_issued (List.prefix_append ops [op]) hc with h | habove
      · exact absurd h hold
      · -- the fence `d` had in the earlier state is at most the one its row has now
        obtain ⟨more, rfl⟩ := hpast
        obtain ⟨t, ht, _, hts, _, hle, _⟩ := (after_follows host past more).kept d.ticket (mem_tickets hd)
        obtain ⟨e, he, rfl⟩ := List.mem_map.mp ht
        have hen : e.node = d.node := hts
        exact Nat.lt_of_le_of_lt hle (habove e he (hen.trans hn))
  · intro past hpast d hd c hc
    exact ⟨fence_holder hpast hd hc, fun hid hs => claim_stays_ended hpast hd hs hc hid⟩
  · intro op i a b ha hb hne
    obtain ⟨hle, howner⟩ := owner_fence (List.prefix_append ops [op]) ha hb
    refine Nat.lt_of_le_of_ne hle (fun he => hne (howner he.symm))
  · intro mid past hmid hpast i a b c ha hb hc hne he
    obtain ⟨hab, howner⟩ := owner_fence hpast ha hb
    obtain ⟨hbc, _⟩ := owner_fence hmid hb hc
    rw [Prod.mk.injEq] at he
    have hfence : b.ownerFence = a.ownerFence := by
      have hca := he.2
      omega
    exact hne (Prod.ext (howner hfence) hfence)

end AItelier.State
