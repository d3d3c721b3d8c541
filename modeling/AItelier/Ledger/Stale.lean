import AItelier.Ledger.Sound

namespace AItelier.Ledger

open AItelier.Lib AItelier.State

variable {D : Discipline} {L L' : Ledger} {k : NodeId} {f : Fact} {i : String} {t t' : Try}

/-- How a step may change the fact of a node. A revision only grows, what it
names changes only with it, and a receipt that appears is a new one. -/
structure Advances (L L' : Ledger) (k : NodeId) (f f' : Fact) : Prop where
  revision : f.revision ≤ f'.revision
  contractHash : f'.revision = f.revision → f'.contractHash = f.contractHash
  deps : f'.revision = f.revision → L'.deps k = L.deps k
  closed : f.status = .SUPERSEDED → f'.status = .SUPERSEDED
  receipt : ∀ x, f'.receipt = some x →
    (f.receipt = some x ∧ f'.revision = f.revision) ∨ L.acceptance? x = none

theorem Advances.same (hd : L'.deps k = L.deps k) : Advances L L' k f f where
  revision := Nat.le_refl _
  contractHash := fun _ => rfl
  deps := fun _ => hd
  closed := id
  receipt := fun _ h => .inl ⟨h, rfl⟩

theorem Advances.stale {U : List NodeId} : Advances L (L.invalidate U) k f f.stale := by
  have hrev : f.stale.revision = f.revision := by
    unfold Fact.stale
    by_cases h : f.status = .SUPERSEDED <;> simp [h]
  have hhash : f.stale.contractHash = f.contractHash := by
    unfold Fact.stale
    by_cases h : f.status = .SUPERSEDED <;> simp [h]
  refine ⟨hrev.ge, fun _ => hhash, fun _ => rfl, ?_, ?_⟩
  · intro h
    simp [Fact.stale, h]
  · intro x hx
    by_cases h : f.status = .SUPERSEDED
    · rw [Fact.stale, if_pos h] at hx
      exact .inl ⟨hx, hrev⟩
    · rw [Fact.stale, if_neg h] at hx
      cases hx

theorem Advances.relabel (s : NodeStatus) (ho : f.status = .SUPERSEDED → s = .SUPERSEDED)
    (hd : L'.deps k = L.deps k) : Advances L L' k f { f with status := s } where
  revision := Nat.le_refl _
  contractHash := fun _ => rfl
  deps := fun _ => hd
  closed := ho
  receipt := fun _ h => .inl ⟨h, rfl⟩

theorem advances_setFact {k₀ : NodeId} {f₀ f' : Fact} (h₀ : L.facts k₀ = some f₀) (hk : L.facts k = some f)
    (hf : L'.facts = Function.update L.facts k₀ (some f')) (hd : k ≠ k₀ → L'.deps k = L.deps k)
    (hadv : Advances L L' k₀ f₀ f') : ∃ g, L'.facts k = some g ∧ Advances L L' k f g := by
  by_cases he : k = k₀
  · subst he
    rw [h₀] at hk
    cases hk
    exact ⟨f', by rw [hf, Function.update_self], hadv⟩
  · exact ⟨f, by rw [hf, Function.update_of_ne he, hk], Advances.same (hd he)⟩

theorem Step.advances (hs : Sound L) (h : Step D L L') (hk : L.facts k = some f) :
    ∃ f', L'.facts k = some f' ∧ Advances L L' k f f' := by
  cases h with
  | grow facts deps grows => exact ⟨f, (grows.kept k f hk).1, Advances.same (grows.kept k f hk).2⟩
  | invalidate U closed =>
    by_cases hU : k ∈ U
    · exact ⟨f.stale, by simp [Ledger.invalidate, hU, hk], Advances.stale⟩
    · exact ⟨f, by simp [Ledger.invalidate, hU, hk], Advances.same rfl⟩
  | rewrite k₀ f₀ f' deps fact stale revision status receipt wired =>
    refine advances_setFact fact hk rfl (fun hne => Function.update_of_ne hne ..) ?_
    have hr : f₀.receipt = none := hs.receipt_none fact (by rw [stale]; decide)
    refine ⟨by omega, ?_, ?_, ?_, ?_⟩
    · intro he; omega
    · intro he; omega
    · intro he; rw [stale] at he; cases he
    · intro x hx; rw [receipt, hr] at hx; cases hx
  | close k₀ f₀ fact stale =>
    exact advances_setFact fact hk rfl (fun _ => rfl) (Advances.relabel _ (fun _ => rfl) rfl)
  | offer k₀ f₀ fact unverified open_ reviewable =>
    exact advances_setFact fact hk rfl (fun _ => rfl) (Advances.relabel _ (fun h => absurd h open_) rfl)
  | admission i t f₀ admits =>
    exact advances_setFact admits.fact hk rfl (fun _ => rfl)
      (Advances.relabel _ (fun h => absurd h admits.open_) rfl)
  | move i t t' tried moves => exact ⟨f, hk, Advances.same rfl⟩
  | attest e t attests => exact ⟨f, hk, Advances.same rfl⟩
  | accept r f₀ t accepts =>
    refine advances_setFact accepts.current.fact hk rfl (fun _ => rfl) ?_
    refine ⟨Nat.le_refl _, fun _ => rfl, fun _ => rfl, fun h => absurd h accepts.current.open_, ?_⟩
    intro x hx
    cases hx
    exact .inr accepts.fresh

theorem Step.issued (h : Step D L L') {x : String} (hx : (L.acceptance? x).isSome) :
    (L'.acceptance? x).isSome := by
  cases h with
  | accept r f t accepts =>
    obtain ⟨a, ha⟩ := Option.isSome_iff_exists.mp hx
    exact Option.isSome_iff_exists.mpr ⟨a, acceptance_append ha⟩
  | _ => exact hx

/-- Attempts pin revisions the node has reached and receipts that were issued. -/
structure Pinned (L : Ledger) : Prop where
  revision : ∀ i t, L.tries i = some t → ∃ f, L.facts t.node = some f ∧ t.revision ≤ f.revision
  receipts : ∀ i t, L.tries i = some t → ∀ row ∈ t.pins, ∀ x, row.verifiedReceipt = some x →
    (L.acceptance? x).isSome

theorem pinned_empty : Pinned Ledger.empty where
  revision := by intro i t h; cases h
  receipts := by intro i t h; cases h

/-- Every attempt after a step is an old one, moved or not, or the one admitted. -/
theorem Step.tried (ho : Orderly L) (h : Step D L L') (hi : L'.tries i = some t') :
    (∃ t, L.tries i = some t ∧ Kept t t') ∨ ∃ f, Admits L i t' f := by
  cases hl : L.tries i with
  | some t =>
    obtain ⟨u, hu, hk⟩ := h.kept ho hl
    rw [hu] at hi
    cases hi
    exact .inl ⟨t, rfl, hk⟩
  | none =>
    rcases h.tries_cases with ⟨ht, _⟩ | ⟨j, u, f, ha, ht, _⟩ | ⟨j, u, u', hj, _, ht, _⟩
    · rw [ht, hl] at hi
      cases hi
    · rw [ht] at hi
      rcases update_some hi with ⟨rfl, rfl⟩ | ⟨_, h'⟩
      · exact .inr ⟨f, ha⟩
      · rw [hl] at h'
        cases h'
    · rw [ht] at hi
      rcases update_some hi with ⟨rfl, rfl⟩ | ⟨_, h'⟩
      · rw [hl] at hj
        cases hj
      · rw [hl] at h'
        cases h'

theorem snapshot_issued (hs : Sound L) {row : SnapshotRow} (hr : row ∈ L.snapshot k) {x : String}
    (hx : row.verifiedReceipt = some x) : (L.acceptance? x).isSome := by
  obtain ⟨d, _, hd⟩ := List.mem_filterMap.mp hr
  obtain ⟨g, hg, rfl⟩ := Option.map_eq_some_iff.mp hd
  obtain ⟨r, t, hst⟩ := hs.standing d g x hg hx
  exact Option.isSome_iff_exists.mpr ⟨r, hst.issued⟩

theorem Step.pinned (ho : Orderly L) (hs : Sound L) (hp : Pinned L) (h : Step D L L') : Pinned L' where
  revision := by
    intro i t' hi
    rcases h.tried ho hi with ⟨t, ht, hk⟩ | ⟨f, ha⟩
    · obtain ⟨f, hf, hle⟩ := hp.revision i t ht
      obtain ⟨f', hf', hadv⟩ := h.advances hs hf
      exact ⟨f', hk.node ▸ hf', by rw [hk.revision]; exact hle.trans hadv.revision⟩
    · obtain ⟨f', hf', hadv⟩ := h.advances hs ha.fact
      exact ⟨f', hf', by rw [ha.revision]; exact hadv.revision⟩
  receipts := by
    intro i t' hi row hrow x hx
    rcases h.tried ho hi with ⟨t, ht, hk⟩ | ⟨f, ha⟩
    · exact h.issued (hp.receipts i t ht row (hk.pins ▸ hrow) x hx)
    · exact h.issued (snapshot_issued hs (ha.pins ▸ hrow) hx)

theorem Steps.pinned (ho : Orderly L) (hs : Sound L) (hp : Pinned L) (h : Steps D L L') : Pinned L' := by
  induction h with
  | refl => exact hp
  | tail path st ih => exact st.pinned (Steps.orderly ho path) (Steps.sound ho hs path) ih

def Fresh (L : Ledger) (t : Try) : Prop := ∃ f, PinsCurrent L t f

/-- The row of an accepted dependency is as old as its receipt: had the step
issued it, no pin could name it. -/
theorem dep_unchanged (hs : Sound L) (hs' : Sound L') (h : Step D L L') {d : NodeId} {g g' : Fact}
    (hg : L.facts d = some g) (hg' : L'.facts d = some g') {x : String} (hx : g'.receipt = some x)
    (hi : (L.acceptance? x).isSome) : g.row d.2 = g'.row d.2 := by
  obtain ⟨g₂, hg₂, hadv⟩ := h.advances hs hg
  rw [hg'] at hg₂
  cases hg₂
  rcases hadv.receipt x hx with ⟨hrec, hrev⟩ | hnone
  · have hv : g.status = .VERIFIED := (hs.verified d g hg).mp (by simp [hrec])
    have hv' : g'.status = .VERIFIED := (hs'.verified d g' hg').mp (by simp [hx])
    simp only [Fact.row, hrev, hadv.contractHash hrev, hv, hv', hrec, hx]
  · rw [hnone] at hi
    cases hi

/-- An attempt on current pins was on current pins before the step. -/
theorem Step.fresh_before (ho : Orderly L) (hs : Sound L) (hp : Pinned L) (h : Step D L L')
    (hi : L.tries i = some t) (hi' : L'.tries i = some t') (hf : Fresh L' t') : Fresh L t := by
  have hs' := h.sound ho hs
  obtain ⟨u, hu, hk⟩ := h.kept ho hi
  rw [hi'] at hu
  cases hu
  obtain ⟨f', hcur⟩ := hf
  obtain ⟨f, hfact, hle⟩ := hp.revision i t hi
  obtain ⟨g, hg, hadv⟩ := h.advances hs hfact
  rw [← hk.node, hcur.fact] at hg
  cases hg
  have hrev : f'.revision = f.revision := by
    have h1 := hcur.revision
    have h2 := hadv.revision
    rw [hk.revision] at h1
    omega
  refine ⟨f, ⟨hfact, ?_, ?_, ?_, ?_, ?_⟩⟩
  · rw [← hrev, hcur.revision, hk.revision]
  · rw [← hadv.contractHash hrev, hcur.contractHash, hk.contractHash]
  · intro hsup
    exact hcur.open_ (hadv.closed hsup)
  · have hsnap : L.snapshot t.node = L'.snapshot t.node := by
      unfold Ledger.snapshot
      rw [hadv.deps hrev]
      refine List.filterMap_congr (fun d hd => ?_)
      obtain ⟨g, hg⟩ := Option.isSome_iff_exists.mp (hs.wired t.node d hd).2
      obtain ⟨g', hg', _⟩ := h.advances hs hg
      have hmem : g'.row d.2 ∈ t'.pins := by
        rw [← hcur.snapshot, hk.node]
        exact mem_snapshot (hadv.deps hrev ▸ hd) hg'
      have hv' : g'.status = .VERIFIED := accepted_verified (hcur.accepted _ hmem)
      obtain ⟨x, hx⟩ := Option.isSome_iff_exists.mp ((hs'.verified d g' hg').mpr hv')
      have hiss := hp.receipts i t hi _ (hk.pins ▸ hmem) x hx
      rw [hg, hg', Option.map_some, Option.map_some, dep_unchanged hs hs' h hg hg' hx hiss]
    rw [hsnap, ← hk.pins, ← hcur.snapshot, hk.node]
  · rw [← hk.pins]
    exact hcur.accepted

theorem Steps.stale_forever (ho : Orderly L) (hs : Sound L) (hp : Pinned L) (h : Steps D L L')
    (hi : L.tries i = some t) (hi' : L'.tries i = some t') (hf : ¬ Fresh L t) : ¬ Fresh L' t' := by
  induction h generalizing t' with
  | refl =>
    rw [hi] at hi'
    cases hi'
    exact hf
  | tail path st ih =>
    intro hfresh
    obtain ⟨u, hu, _⟩ := Steps.kept ho path hi
    exact ih hu (st.fresh_before (Steps.orderly ho path) (Steps.sound ho hs path)
      (Steps.pinned ho hs hp path) hu hi' hfresh)

end AItelier.Ledger
