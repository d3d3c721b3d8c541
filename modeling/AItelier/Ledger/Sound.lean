import AItelier.Ledger.Lifecycle

namespace AItelier.Ledger

open AItelier.Lib AItelier.State

variable {D : Discipline} {L L' : Ledger} {k : NodeId} {f : Fact} {receipt : String} {r : Acceptance} {t : Try}

/-- An acceptance that still stands: its receipt names the node as it is, and its
attempt is the latest one, a candidate on current pins with every criterion met. -/
structure Standing (L : Ledger) (k : NodeId) (f : Fact) (receipt : String) (r : Acceptance) (t : Try) : Prop where
  issued : L.acceptance? receipt = some r
  node : (r.projectId, r.nodeKey) = k
  tried : L.tries r.attemptId = some t
  own : t.node = k
  revision : r.nodeRevision = f.revision
  contractHash : r.contractHash = f.contractHash
  latest : L.latest k = some r.attemptId
  candidate : t.status = .candidate
  current : PinsCurrent L t f
  pins : r.dependencySnapshot = t.pins
  met : ∀ c ∈ f.criteria, (L.judged r.attemptId c).map Evidence.verdict = some .pass

/-- The verified-closure invariant. -/
structure Sound (L : Ledger) : Prop where
  wired : ∀ k, ∀ d ∈ L.deps k, (L.facts k).isSome ∧ (L.facts d).isSome
  verified : ∀ k f, L.facts k = some f → (f.receipt.isSome ↔ f.status = .VERIFIED)
  named : ∀ k f, L.facts k = some f → f.receipt ≠ some ""
  standing : ∀ k f receipt, L.facts k = some f → f.receipt = some receipt → ∃ r t, Standing L k f receipt r t

theorem sound_empty : Sound Ledger.empty where
  wired := by intro k d hd; cases hd
  verified := by intro k f h; cases h
  named := by intro k f h; cases h
  standing := by intro k f receipt h; cases h

theorem Sound.receipt_none (hs : Sound L) (hf : L.facts k = some f) (hv : f.status ≠ .VERIFIED) :
    f.receipt = none := by
  cases hr : f.receipt with
  | none => rfl
  | some x => exact absurd ((hs.verified k f hf).mp (by simp [hr])) hv

theorem snapshot_congr (hd : L'.deps k = L.deps k) (hf : ∀ d ∈ L.deps k, L'.facts d = L.facts d) :
    L'.snapshot k = L.snapshot k := by
  unfold Ledger.snapshot
  rw [hd]
  refine List.filterMap_congr (fun d hm => ?_)
  rw [hf d hm]

theorem mem_snapshot {d : NodeId} (hd : d ∈ L.deps k) (hf : L.facts d = some f) :
    f.row d.2 ∈ L.snapshot k := by
  refine List.mem_filterMap.mpr ⟨d, hd, ?_⟩
  simp [hf]

theorem accepted_verified {x : SnapshotRow} (h : x.accepted = true) : x.status = .VERIFIED := by
  simp only [SnapshotRow.accepted, Bool.and_eq_true, decide_eq_true_eq] at h
  exact h.1

theorem PinsCurrent.dep_verified (hp : PinsCurrent L t f) {d : NodeId} {g : Fact} (hd : d ∈ L.deps t.node)
    (hg : L.facts d = some g) : g.status = .VERIFIED := by
  have hm : g.row d.2 ∈ t.pins := hp.snapshot ▸ mem_snapshot hd hg
  exact accepted_verified (hp.accepted _ hm)

theorem PinsCurrent.congr {t' : Try} (hp : PinsCurrent L t f) (hn : t'.node = t.node) (hr : t'.revision = t.revision)
    (hc : t'.contractHash = t.contractHash) (hq : t'.pins = t.pins) (hf : L'.facts t.node = L.facts t.node)
    (hd : L'.deps t.node = L.deps t.node) (hds : ∀ d ∈ L.deps t.node, L'.facts d = L.facts d) :
    PinsCurrent L' t' f where
  fact := by rw [hn, hf, hp.fact]
  revision := hp.revision.trans hr.symm
  contractHash := hp.contractHash.trans hc.symm
  open_ := hp.open_
  snapshot := by rw [hn, hq, snapshot_congr hd hds, hp.snapshot]
  accepted := by rw [hq]; exact hp.accepted

/-- What an acceptance stands on, and nothing else, decides whether it stands. -/
theorem Standing.congr {t' : Try} (h : Standing L k f receipt r t) (hf : L'.facts k = L.facts k)
    (hd : L'.deps k = L.deps k) (hds : ∀ d ∈ L.deps k, L'.facts d = L.facts d) (hl : L'.latest k = L.latest k)
    (ht : L'.tries r.attemptId = some t') (hk : Kept t t') (hs : t'.status = .candidate)
    (ha : L'.acceptance? receipt = some r) (hj : ∀ c, L'.judged r.attemptId c = L.judged r.attemptId c) :
    Standing L' k f receipt r t' where
  issued := ha
  node := h.node
  tried := ht
  own := hk.node.trans h.own
  revision := h.revision
  contractHash := h.contractHash
  latest := hl.trans h.latest
  candidate := hs
  current := by
    have ho := h.own
    exact h.current.congr hk.node hk.revision hk.contractHash hk.pins (ho ▸ hf) (ho ▸ hd) (ho ▸ hds)
  pins := h.pins.trans hk.pins.symm
  met := by
    intro c hc
    rw [hj]
    exact h.met c hc

theorem Standing.dep_ne (h : Standing L k f receipt r t) {k₀ : NodeId} {f₀ : Fact}
    (h₀ : L.facts k₀ = some f₀) (hv : f₀.status ≠ .VERIFIED) : ∀ d ∈ L.deps k, d ≠ k₀ := by
  intro d hd he
  subst he
  exact hv (h.current.dep_verified (h.own ▸ hd) h₀)

/-- A verified node whose acceptance stands is on no changed ground when only an
unverified node is rewritten. -/
theorem sound_setFact {k₀ : NodeId} {f₀ f' : Fact} (hs : Sound L) (h₀ : L.facts k₀ = some f₀)
    (hf : L'.facts = Function.update L.facts k₀ (some f')) (hv : f₀.status ≠ .VERIFIED)
    (hv' : f'.status ≠ .VERIFIED) (hr' : f'.receipt = none) (hd : ∀ k, k ≠ k₀ → L'.deps k = L.deps k)
    (hw : ∀ d ∈ L'.deps k₀, (L.facts d).isSome) (ht : ∀ j u, L.tries j = some u → L'.tries j = some u)
    (hl : ∀ k, k ≠ k₀ → L'.latest k = L.latest k) (he : L'.evidence = L.evidence)
    (ha : L'.acceptances = L.acceptances) : Sound L' where
  wired := by
    have hsome : ∀ d, (L.facts d).isSome → (L'.facts d).isSome := by
      intro d h
      by_cases hk : d = k₀
      · subst hk; simp [hf]
      · rw [hf, Function.update_of_ne hk]; exact h
    intro k d hm
    by_cases hk : k = k₀
    · subst hk
      exact ⟨hsome k (by simp [h₀]), hsome d (hw d hm)⟩
    · rw [hd k hk] at hm
      obtain ⟨h1, h2⟩ := hs.wired k d hm
      exact ⟨hsome k h1, hsome d h2⟩
  verified := by
    intro k g hg
    rw [hf] at hg
    rcases update_some hg with ⟨rfl, rfl⟩ | ⟨_, hg'⟩
    · constructor
      · intro h; rw [hr'] at h; cases h
      · intro h; exact absurd h hv'
    · exact hs.verified k g hg'
  named := by
    intro k g hg
    rw [hf] at hg
    rcases update_some hg with ⟨rfl, rfl⟩ | ⟨_, hg'⟩
    · rw [hr']; simp
    · exact hs.named k g hg'
  standing := by
    intro k g receipt hg hrc
    rw [hf] at hg
    rcases update_some hg with ⟨rfl, rfl⟩ | ⟨hk, hg'⟩
    · rw [hr'] at hrc
      cases hrc
    · obtain ⟨r, t, hst⟩ := hs.standing k g receipt hg' hrc
      refine ⟨r, t, hst.congr ?_ (hd k hk) ?_ (hl k hk) (ht _ _ hst.tried) (Kept.refl t) hst.candidate ?_ ?_⟩
      · rw [hf, Function.update_of_ne hk]
      · intro d hm
        rw [hf, Function.update_of_ne (hst.dep_ne h₀ hv d hm)]
      · rw [Ledger.acceptance?, ha]; exact hst.issued
      · intro c; rw [Ledger.judged, Ledger.judged, he]

theorem sound_grow {facts : NodeId → Option Fact} {deps : NodeId → List NodeId} (hs : Sound L)
    (hgr : Grows D L facts deps) : Sound { L with facts := facts, deps := deps } where
  wired := by
    have hsome : ∀ d, (L.facts d).isSome → (facts d).isSome := by
      intro d h
      obtain ⟨g, hg⟩ := Option.isSome_iff_exists.mp h
      simp [(hgr.kept d g hg).1]
    intro k d hm
    cases hk : L.facts k with
    | none =>
      rcases hgr.wired k hk d hm with h | h
      · have hn := (hs.wired k d h).1
        rw [hk] at hn
        cases hn
      · exact h
    | some g =>
      have hm' : d ∈ L.deps k := (hgr.kept k g hk).2 ▸ hm
      obtain ⟨h1, h2⟩ := hs.wired k d hm'
      exact ⟨hsome k h1, hsome d h2⟩
  verified := by
    intro k g hg
    cases hk : L.facts k with
    | none =>
      obtain ⟨hr, hv, _⟩ := hgr.fresh k g hk hg
      simp [hr, hv]
    | some g' =>
      have he := (hgr.kept k g' hk).1.symm.trans hg
      cases he
      exact hs.verified k g hk
  named := by
    intro k g hg
    cases hk : L.facts k with
    | none => simp [(hgr.fresh k g hk hg).1]
    | some g' =>
      have he := (hgr.kept k g' hk).1.symm.trans hg
      cases he
      exact hs.named k g hk
  standing := by
    intro k g receipt hg hrc
    cases hk : L.facts k with
    | none =>
      rw [(hgr.fresh k g hk hg).1] at hrc
      cases hrc
    | some g' =>
      have he := (hgr.kept k g' hk).1.symm.trans hg
      cases he
      obtain ⟨r, t, hst⟩ := hs.standing k g receipt hk hrc
      refine ⟨r, t, hst.congr (hg.trans hk.symm) (hgr.kept k g hk).2 ?_ rfl hst.tried (Kept.refl t) hst.candidate
        hst.issued (fun c => rfl)⟩
      intro d hd
      obtain ⟨g, hgd⟩ := Option.isSome_iff_exists.mp (hs.wired k d hd).2
      exact (hgr.kept d g hgd).1.trans hgd.symm

theorem Fact.stale_status {f : Fact} : f.stale.status = .STALE ∨ f.stale = f ∧ f.status = .SUPERSEDED := by
  unfold Fact.stale
  by_cases h : f.status = .SUPERSEDED
  · right; simp [h]
  · left; simp [h]

theorem Fact.stale_receipt {f : Fact} (h : f.status = .SUPERSEDED → f.receipt = none) : f.stale.receipt = none := by
  unfold Fact.stale
  by_cases hs : f.status = .SUPERSEDED
  · simp [hs, h hs]
  · simp [hs]

theorem invalidate_some {U : List NodeId} (h : (L.invalidate U).facts k = some f) :
    (k ∈ U ∧ ∃ g, L.facts k = some g ∧ f = g.stale) ∨ (k ∉ U ∧ L.facts k = some f) := by
  unfold Ledger.invalidate at h
  by_cases hk : k ∈ U
  · left
    simp only [hk, if_true, Option.map_eq_some_iff] at h
    obtain ⟨g, hg, rfl⟩ := h
    exact ⟨hk, g, hg, rfl⟩
  · right
    simp only [hk, if_false] at h
    exact ⟨hk, h⟩

theorem sound_invalidate {U : List NodeId} (hs : Sound L) (closed : ∀ k, ∀ d ∈ L.deps k, d ∈ U → k ∈ U) :
    Sound (L.invalidate U) where
  wired := by
    have hsome : ∀ d, (L.facts d).isSome → ((L.invalidate U).facts d).isSome := by
      intro d h
      by_cases hk : d ∈ U <;> simp [Ledger.invalidate, hk, h]
    intro k d hm
    obtain ⟨h1, h2⟩ := hs.wired k d hm
    exact ⟨hsome k h1, hsome d h2⟩
  verified := by
    intro k g hg
    rcases invalidate_some hg with ⟨_, g₀, hg₀, rfl⟩ | ⟨_, hg'⟩
    · have hr : g₀.stale.receipt = none :=
        Fact.stale_receipt (fun h => hs.receipt_none hg₀ (by rw [h]; decide))
      have hv : g₀.stale.status ≠ .VERIFIED := by
        rcases @Fact.stale_status g₀ with h | ⟨h, hsup⟩
        · rw [h]; decide
        · rw [h, hsup]; decide
      simp [hr, hv]
    · exact hs.verified k g hg'
  named := by
    intro k g hg
    rcases invalidate_some hg with ⟨_, g₀, hg₀, rfl⟩ | ⟨_, hg'⟩
    · rw [Fact.stale_receipt (fun h => hs.receipt_none hg₀ (by rw [h]; decide))]
      simp
    · exact hs.named k g hg'
  standing := by
    intro k g receipt hg hrc
    rcases invalidate_some hg with ⟨_, g₀, hg₀, rfl⟩ | ⟨hk, hg'⟩
    · rw [Fact.stale_receipt (fun h => hs.receipt_none hg₀ (by rw [h]; decide))] at hrc
      cases hrc
    · obtain ⟨r, t, hst⟩ := hs.standing k g receipt hg' hrc
      refine ⟨r, t, hst.congr (hg.trans hg'.symm) rfl ?_ rfl hst.tried (Kept.refl t) hst.candidate
        hst.issued (fun c => rfl)⟩
      intro d hd
      have hdU : d ∉ U := fun h => hk (closed k d hd h)
      simp [Ledger.invalidate, hdU]

theorem Standing.rests (hf : L.facts k = some f) (hr : f.receipt = some receipt) (hs : Sound L)
    (h : Standing L k f receipt r t) : L.Rests t.node r.attemptId := by
  have hv := (hs.verified k f hf).mp (by simp [hr])
  have hne : receipt ≠ "" := by
    rintro rfl
    exact hs.named k f hf hr
  exact ⟨f, receipt, r, h.own ▸ hf, hv, hr, hne, h.issued, rfl⟩

theorem sound_move {i : String} {t t' : Try} (ho : Orderly L) (hs : Sound L) (hi : L.tries i = some t)
    (hm : Move D L i t t') : Sound (L.setTry i t') where
  wired := hs.wired
  verified := hs.verified
  named := hs.named
  standing := by
    intro k g receipt hg hrc
    obtain ⟨r, u, hst⟩ := hs.standing k g receipt hg hrc
    by_cases he : r.attemptId = i
    · have hu : u = t := by
        have h := hst.tried
        rw [he, hi] at h
        exact (Option.some.inj h).symm
      subst hu
      have hc : t'.status = .candidate := by
        by_contra hne
        exact hm.protected_ hst.candidate hne (he ▸ hst.rests hg hrc hs)
      exact ⟨r, t', hst.congr rfl rfl (fun _ _ => rfl) rfl (by rw [he]; exact Function.update_self ..)
        (hm.kept ho hi) hc hst.issued (fun _ => rfl)⟩
    · exact ⟨r, u, hst.congr rfl rfl (fun _ _ => rfl) rfl
        ((Function.update_of_ne he ..).trans hst.tried) (Kept.refl u) hst.candidate hst.issued (fun _ => rfl)⟩

theorem judged_append {e : Evidence} {i c : String} (h : e.attemptId ≠ i) :
    ({ L with evidence := L.evidence ++ [e] } : Ledger).judged i c = L.judged i c := by
  simp [Ledger.judged, latest_append_singleton, h]

theorem sound_attest {e : Evidence} (hs : Sound L) (ha : Attests L t e) :
    Sound { L with evidence := L.evidence ++ [e] } where
  wired := hs.wired
  verified := hs.verified
  named := hs.named
  standing := by
    intro k g receipt hg hrc
    obtain ⟨r, u, hst⟩ := hs.standing k g receipt hg hrc
    have hne : e.attemptId ≠ r.attemptId := by
      intro he
      have hu : u = t := by
        have h := hst.tried
        rw [← he, ha.tried] at h
        exact (Option.some.inj h).symm
      subst hu
      exact ha.unrested hst.candidate (he ▸ hst.rests hg hrc hs)
    exact ⟨r, u, hst.congr rfl rfl (fun _ _ => rfl) rfl hst.tried (Kept.refl u) hst.candidate hst.issued
      (fun _ => judged_append hne)⟩

theorem acceptance_append {a : Acceptance} (h : L.acceptance? receipt = some r) :
    ({ L with acceptances := L.acceptances ++ [a] } : Ledger).acceptance? receipt = some r := by
  rw [Ledger.acceptance?] at h ⊢
  rw [lookup_append, h]
  rfl

theorem acceptance_append_self (h : L.acceptance? r.receiptId = none) :
    ({ L with acceptances := L.acceptances ++ [r] } : Ledger).acceptance? r.receiptId = some r := by
  rw [Ledger.acceptance?] at h ⊢
  rw [lookup_append, h, lookup_singleton]
  simp

theorem Accepts.unverified (hs : Sound L) (ha : Accepts L r f t) : f.status ≠ .VERIFIED := by
  intro hv
  have h1 := (hs.verified _ f ha.current.fact).mpr hv
  obtain ⟨x, hx⟩ := Option.isSome_iff_exists.mp h1
  have h2 := ha.unaccepted
  have h3 := hs.named _ f ha.current.fact
  rw [hx] at h2 h3
  simp only [truthy, decide_eq_false_iff_not, not_not] at h2
  exact h3 (by rw [h2])

theorem sound_accept (hs : Sound L) (ha : Accepts L r f t) :
    Sound ({ L with acceptances := L.acceptances ++ [r] }.setFact t.node
      { f with status := .VERIFIED, receipt := some r.receiptId }) where
  wired := by
    have hsome : ∀ d, (L.facts d).isSome → (Function.update L.facts t.node
        (some { f with status := .VERIFIED, receipt := some r.receiptId }) d).isSome := by
      intro d h
      by_cases hk : d = t.node
      · subst hk; simp
      · rw [Function.update_of_ne hk]; exact h
    intro k d hm
    obtain ⟨h1, h2⟩ := hs.wired k d hm
    exact ⟨hsome k h1, hsome d h2⟩
  verified := by
    intro k g hg
    rcases update_some hg with ⟨rfl, rfl⟩ | ⟨_, hg'⟩
    · simp
    · exact hs.verified k g hg'
  named := by
    intro k g hg
    rcases update_some hg with ⟨rfl, rfl⟩ | ⟨_, hg'⟩
    · simp [ha.named]
    · exact hs.named k g hg'
  standing := by
    have hv := ha.unverified hs
    intro k g receipt hg hrc
    rcases update_some hg with ⟨rfl, rfl⟩ | ⟨hk, hg'⟩
    · -- the new acceptance: nothing it pins is the node it verifies
      cases hrc
      have hdep : ∀ d ∈ L.deps t.node, d ≠ t.node := by
        intro d hd he
        exact hv (ha.current.dep_verified hd (he ▸ ha.current.fact))
      exact ⟨r, t,
        { issued := acceptance_append_self ha.fresh
          node := ha.node.symm
          tried := ha.tried
          own := rfl
          revision := ha.revision
          contractHash := ha.contractHash
          latest := ha.latest
          candidate := ha.candidate
          current :=
            { fact := Function.update_self ..
              revision := ha.current.revision
              contractHash := ha.current.contractHash
              open_ := by simp
              snapshot := by
                refine Eq.trans (snapshot_congr (L := L) rfl (fun d hd => ?_)) ha.current.snapshot
                exact Function.update_of_ne (hdep d hd) ..
              accepted := ha.current.accepted }
          pins := ha.pins
          met := ha.met }⟩
    · obtain ⟨r', u, hst⟩ := hs.standing k g receipt hg' hrc
      refine ⟨r', u, hst.congr (Function.update_of_ne hk ..) rfl ?_ rfl hst.tried (Kept.refl u) hst.candidate
        (acceptance_append hst.issued) (fun _ => rfl)⟩
      intro d hd
      exact Function.update_of_ne (hst.dep_ne ha.current.fact hv d hd) ..

theorem Step.sound (ho : Orderly L) (hs : Sound L) (h : Step D L L') : Sound L' := by
  cases h with
  | grow facts deps grows => exact sound_grow hs grows
  | invalidate U closed => exact sound_invalidate hs closed
  | rewrite k f f' deps fact stale revision status receipt wired =>
    have hv : f.status ≠ .VERIFIED := by rw [stale]; decide
    refine sound_setFact hs fact rfl hv (status ▸ hv) (receipt.trans (hs.receipt_none fact hv)) ?_ ?_
      (fun _ _ h => h) (fun _ _ => rfl) rfl rfl
    · intro k' hk'
      exact Function.update_of_ne hk' ..
    · intro d hd
      simp only [Function.update_self] at hd
      exact wired d hd
  | close k f fact stale =>
    have hv : f.status ≠ .VERIFIED := by rw [stale]; decide
    have hr := hs.receipt_none fact hv
    exact sound_setFact hs fact rfl hv (by simp) hr (fun _ _ => rfl)
      (fun d hd => (hs.wired k d hd).2) (fun _ _ h => h) (fun _ _ => rfl) rfl rfl
  | offer k f fact unverified open_ reviewable =>
    have hr := hs.receipt_none fact unverified
    exact sound_setFact hs fact rfl unverified (by simp) hr (fun _ _ => rfl)
      (fun d hd => (hs.wired k d hd).2) (fun _ _ h => h) (fun _ _ => rfl) rfl rfl
  | admission i t f admits =>
    have hr := hs.receipt_none admits.fact admits.unverified
    refine sound_setFact hs admits.fact rfl admits.unverified (by simp) hr (fun _ _ => rfl)
      (fun d hd => (hs.wired t.node d hd).2) ?_ (fun k' hk' => Function.update_of_ne hk' ..) rfl rfl
    intro j u hj
    have hne : j ≠ i := by
      rintro rfl
      rw [admits.fresh] at hj
      cases hj
    exact (Function.update_of_ne hne ..).trans hj
  | move i t t' tried moves => exact sound_move ho hs tried moves
  | attest e t attests => exact sound_attest hs attests
  | accept r f t accepts => exact sound_accept hs accepts

theorem Steps.sound (ho : Orderly L) (hs : Sound L) (h : Steps D L L') : Sound L' := by
  induction h with
  | refl => exact hs
  | tail path st ih => exact st.sound (Steps.orderly ho path) ih

end AItelier.Ledger
