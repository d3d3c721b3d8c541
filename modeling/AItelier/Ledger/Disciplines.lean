import AItelier.Ledger.Stale

namespace AItelier.Ledger

open AItelier.Lib AItelier.State

variable {D : Discipline} {L L' : Ledger} {i : String} {t t' : Try}

section Scope

/-- The evidence a receipt names is a pass of its own attempt on its own artifact. -/
def InScope (evidence : List Evidence) (r : Acceptance) : Prop :=
  ∀ id ∈ r.evidenceIds, ∃ e ∈ evidence, e.evidenceId = id ∧ e.attemptId = r.attemptId ∧
    e.verdict = .pass ∧ e.artifactRef = r.artifactRef

/-- Evidence is about one artifact for each attempt, and about the pinned one
where the attempt has one. -/
structure Scoped (L : Ledger) : Prop where
  tried : ∀ e ∈ L.evidence, ∃ t, L.tries e.attemptId = some t ∧ t.status.active = false ∧
    ∀ a, t.artifact = some a → a ≠ "" → e.artifactRef = a
  agree : ∀ e ∈ L.evidence, ∀ p ∈ L.evidence, e.attemptId = p.attemptId → e.artifactRef = p.artifactRef
  named : ∀ e ∈ L.evidence, e.artifactRef ≠ ""
  distinct : (L.evidence.map Evidence.evidenceId).Nodup
  receipts : ∀ r ∈ L.acceptances, InScope L.evidence r

theorem scoped_empty : Scoped Ledger.empty where
  tried := by intro e h; cases h
  agree := by intro e h; cases h
  named := by intro e h; cases h
  distinct := List.nodup_nil
  receipts := by intro r h; cases h

/-- A step that leaves the evidence and the receipts alone keeps the scope if it
keeps the pin of every attempt with evidence. -/
theorem scoped_congr (hs : Scoped L) (he : L'.evidence = L.evidence) (ha : L'.acceptances = L.acceptances)
    (ht : ∀ e ∈ L.evidence, ∀ t, L.tries e.attemptId = some t → t.status.active = false →
      (∀ a, t.artifact = some a → a ≠ "" → e.artifactRef = a) →
      ∃ t', L'.tries e.attemptId = some t' ∧ t'.status.active = false ∧
        ∀ a, t'.artifact = some a → a ≠ "" → e.artifactRef = a) : Scoped L' where
  tried := by
    rw [he]
    intro e hm
    obtain ⟨t, h1, h2, h3⟩ := hs.tried e hm
    exact ht e hm t h1 h2 h3
  agree := by rw [he]; exact hs.agree
  named := by rw [he]; exact hs.named
  distinct := by rw [he]; exact hs.distinct
  receipts := by rw [he, ha]; exact hs.receipts

theorem scoped_move (hD : D.scope) (ho : Orderly L) (hs : Scoped L) (hi : L.tries i = some t)
    (hm : Move D L i t t') : Scoped (L.setTry i t') := by
  refine scoped_congr hs rfl rfl ?_
  intro e he u hu hact hart
  by_cases hj : e.attemptId = i
  · rw [hj, hi] at hu
    cases hu
    refine ⟨t', by rw [hj]; exact Function.update_self .., (hm.kept ho hi).settled hact, ?_⟩
    intro a ha hne
    by_cases hsame : t'.artifact = t.artifact
    · exact hart a (hsame ▸ ha) hne
    · have hlate := hm.late hD hsame hact e he hj
      rw [ha] at hlate
      exact (Option.some.inj hlate).symm
  · exact ⟨u, (Function.update_of_ne hj ..).trans hu, hact, hart⟩

theorem Attests.agrees_first {e p : Evidence} (hs : Scoped L) (ha : Attests L t e) (hp : p ∈ L.evidence)
    (he : p.attemptId = e.attemptId) (hn : truthy t.artifact = false) : p.artifactRef = e.artifactRef := by
  cases hq : L.evidence.find? (fun p => decide (p.attemptId = e.attemptId)) with
  | none =>
    have hno := List.find?_eq_none.mp hq p hp
    simp [he] at hno
  | some q =>
    have hqm := List.mem_of_find?_eq_some hq
    have hqa : q.attemptId = e.attemptId := by simpa using List.find?_some hq
    rcases ha.same hn q hq with h | h
    · exact absurd h (hs.named q hqm)
    · exact (hs.agree p hp q hqm (he.trans hqa.symm)).trans h

theorem Attests.agrees {e p : Evidence} (hs : Scoped L) (ha : Attests L t e) (hp : p ∈ L.evidence)
    (he : p.attemptId = e.attemptId) : p.artifactRef = e.artifactRef := by
  obtain ⟨u, hu, _, hart⟩ := hs.tried p hp
  rw [he, ha.tried] at hu
  cases hu
  cases hpin : t.artifact with
  | none => exact ha.agrees_first hs hp he (by simp [hpin, truthy])
  | some a =>
    by_cases hne : a = ""
    · exact ha.agrees_first hs hp he (by simp [hpin, truthy, hne])
    · exact (hart a hpin hne).trans (ha.own a hpin hne).symm

theorem scoped_attest {e : Evidence} (hs : Scoped L) (ha : Attests L t e) :
    Scoped { L with evidence := L.evidence ++ [e] } where
  tried := by
    intro p hp
    rcases List.mem_append.mp hp with hp | hp
    · exact hs.tried p hp
    · rw [List.mem_singleton] at hp
      subst hp
      exact ⟨t, ha.tried, ha.settled, ha.own⟩
  agree := by
    intro p hp q hq he
    rcases List.mem_append.mp hp with hp' | hp'
    · rcases List.mem_append.mp hq with hq' | hq'
      · exact hs.agree p hp' q hq' he
      · rw [List.mem_singleton] at hq'
        rw [hq'] at he ⊢
        exact ha.agrees hs hp' he
    · rw [List.mem_singleton] at hp'
      rw [hp'] at he ⊢
      rcases List.mem_append.mp hq with hq' | hq'
      · exact (ha.agrees hs hq' he.symm).symm
      · rw [List.mem_singleton] at hq'
        rw [hq']
  named := by
    intro p hp
    rcases List.mem_append.mp hp with hp | hp
    · exact hs.named p hp
    · rw [List.mem_singleton] at hp
      exact hp ▸ ha.named
  distinct := by
    rw [List.map_append, List.nodup_append]
    refine ⟨hs.distinct, List.nodup_singleton _, ?_⟩
    intro a hm b hb
    obtain ⟨p, hp, rfl⟩ := List.mem_map.mp hm
    rw [List.map_singleton, List.mem_singleton] at hb
    exact hb ▸ ha.fresh p hp
  receipts := by
    intro r hr id hid
    obtain ⟨p, hp, h⟩ := hs.receipts r hr id hid
    exact ⟨p, List.mem_append_left _ hp, h⟩

theorem Accepts.inScope {r : Acceptance} {f : Fact} (hs : Scoped L) (ha : Accepts L r f t) :
    InScope L.evidence r := by
  intro id hid
  rw [ha.evidence] at hid
  obtain ⟨c, hc, hid⟩ := List.mem_filterMap.mp hid
  obtain ⟨e, he, rfl⟩ := Option.map_eq_some_iff.mp hid
  obtain ⟨hm, hp⟩ := latest_mem he
  have hat : e.attemptId = r.attemptId := (of_decide_eq_true hp).1
  have hpass : e.verdict = .pass := by
    have hmet := ha.met c hc
    rw [he] at hmet
    exact Option.some.inj hmet
  obtain ⟨u, hu, _, hart⟩ := hs.tried e hm
  rw [hat, ha.tried] at hu
  cases hu
  have hne : r.artifactRef ≠ "" := by
    have hp := ha.pinned
    rw [ha.artifact] at hp
    simpa [truthy] using hp
  exact ⟨e, hm, rfl, hat, hpass, hart _ ha.artifact hne⟩

theorem Step.inScope (hD : D.scope) (ho : Orderly L) (hs : Scoped L) (h : Step D L L') : Scoped L' := by
  cases h with
  | grow facts deps grows => exact scoped_congr hs rfl rfl (fun _ _ t h1 h2 h3 => ⟨t, h1, h2, h3⟩)
  | invalidate U closed => exact scoped_congr hs rfl rfl (fun _ _ t h1 h2 h3 => ⟨t, h1, h2, h3⟩)
  | rewrite k f f' deps fact stale revision status receipt wired =>
    exact scoped_congr hs rfl rfl (fun _ _ t h1 h2 h3 => ⟨t, h1, h2, h3⟩)
  | close k f fact stale => exact scoped_congr hs rfl rfl (fun _ _ t h1 h2 h3 => ⟨t, h1, h2, h3⟩)
  | offer k f fact unverified open_ reviewable =>
    exact scoped_congr hs rfl rfl (fun _ _ t h1 h2 h3 => ⟨t, h1, h2, h3⟩)
  | admission i t f admits =>
    refine scoped_congr hs rfl rfl ?_
    intro e _ u hu hact hart
    have hne : e.attemptId ≠ i := by
      intro h
      rw [h, admits.fresh] at hu
      cases hu
    exact ⟨u, (Function.update_of_ne hne ..).trans hu, hact, hart⟩
  | move i t t' tried moves => exact scoped_move hD ho hs tried moves
  | attest e t attests => exact scoped_attest hs attests
  | accept r f t accepts =>
    refine ⟨hs.tried, hs.agree, hs.named, hs.distinct, ?_⟩
    intro r' hr'
    rcases List.mem_append.mp hr' with hold | hnew
    · exact hs.receipts r' hold
    · rw [List.mem_singleton] at hnew
      have hin : InScope L.evidence r := accepts.inScope hs
      rw [hnew]
      exact hin

theorem Steps.inScope (hD : D.scope) (ho : Orderly L) (hs : Scoped L) (h : Steps D L L') : Scoped L' := by
  induction h with
  | refl => exact hs
  | tail path st ih => exact st.inScope hD (Steps.orderly ho path) ih

end Scope

section Review

/-- A node offered for review has a candidate as its latest attempt. -/
def Reviewable (L : Ledger) : Prop :=
  ∀ k f, L.facts k = some f → f.status = .CANDIDATE →
    ∃ i t, L.latest k = some i ∧ L.tries i = some t ∧ t.status = .candidate

theorem reviewable_empty : Reviewable Ledger.empty := by
  intro k f h
  cases h

theorem reviewable_setFact {k₀ : NodeId} {f' : Fact} (hr : Reviewable L)
    (hf : L'.facts = Function.update L.facts k₀ (some f')) (ht : ∀ j u, L.tries j = some u → L'.tries j = some u)
    (hl : ∀ k, k ≠ k₀ → L'.latest k = L.latest k)
    (h₀ : f'.status = .CANDIDATE → ∃ i t, L'.latest k₀ = some i ∧ L'.tries i = some t ∧ t.status = .candidate) :
    Reviewable L' := by
  intro k f hk hs
  rw [hf] at hk
  rcases update_some hk with ⟨rfl, rfl⟩ | ⟨hne, hk'⟩
  · exact h₀ hs
  · obtain ⟨i, t, h1, h2, h3⟩ := hr k f hk' hs
    exact ⟨i, t, (hl k hne).trans h1, ht i t h2, h3⟩

theorem reviewable_move (hD : D.review) (ho : Orderly L) (hr : Reviewable L) (hi : L.tries i = some t)
    (hm : Move D L i t t') : Reviewable (L.setTry i t') := by
  intro k f hk hs
  obtain ⟨j, u, h1, h2, h3⟩ := hr k f hk hs
  by_cases he : j = i
  · subst he
    rw [hi] at h2
    cases h2
    obtain ⟨v, hv, hn⟩ := ho.newest k j h1
    rw [hi] at hv
    cases hv
    have hc : t'.status = .candidate := by
      by_contra hne
      exact hm.reviewed hD h3 hne f (hn ▸ hk) hs (hn ▸ h1)
    exact ⟨j, t', h1, Function.update_self .., hc⟩
  · exact ⟨j, u, h1, (Function.update_of_ne he ..).trans h2, h3⟩

theorem Step.reviewable (hD : D.review) (ho : Orderly L) (hr : Reviewable L) (h : Step D L L') :
    Reviewable L' := by
  cases h with
  | grow facts deps grows =>
    intro k f hk hs
    cases hL : L.facts k with
    | none => exact absurd hs ((grows.fresh k f hL hk).2.2 hD)
    | some g =>
      have he := (grows.kept k g hL).1.symm.trans hk
      cases he
      exact hr k f hL hs
  | invalidate U closed =>
    intro k f hk hs
    rcases invalidate_some hk with ⟨_, g, hg, rfl⟩ | ⟨_, hk'⟩
    · rcases @Fact.stale_status g with h | ⟨h, hsup⟩
      · rw [h] at hs
        cases hs
      · rw [h, hsup] at hs
        cases hs
    · exact hr k f hk' hs
  | rewrite k f f' deps fact stale revision status receipt wired =>
    refine reviewable_setFact hr rfl (fun _ _ h => h) (fun _ _ => rfl) ?_
    intro hc
    rw [status, stale] at hc
    cases hc
  | close k f fact stale => exact reviewable_setFact hr rfl (fun _ _ h => h) (fun _ _ => rfl) (fun hc => by cases hc)
  | offer k f fact unverified open_ reviewable =>
    exact reviewable_setFact hr rfl (fun _ _ h => h) (fun _ _ => rfl) (fun _ => reviewable hD)
  | admission i t f admits =>
    refine reviewable_setFact hr rfl ?_ (fun k hk => Function.update_of_ne hk ..) (fun hc => by cases hc)
    intro j u hj
    have hne : j ≠ i := by
      rintro rfl
      rw [admits.fresh] at hj
      cases hj
    exact (Function.update_of_ne hne ..).trans hj
  | move i t t' tried moves => exact reviewable_move hD ho hr tried moves
  | attest e t attests => exact hr
  | accept r f t accepts =>
    exact reviewable_setFact hr rfl (fun _ _ h => h) (fun _ _ => rfl) (fun hc => by cases hc)

theorem Steps.reviewable (hD : D.review) (ho : Orderly L) (hr : Reviewable L) (h : Steps D L L') :
    Reviewable L' := by
  induction h with
  | refl => exact hr
  | tail path st ih => exact st.reviewable hD (Steps.orderly ho path) ih

end Review

end AItelier.Ledger
