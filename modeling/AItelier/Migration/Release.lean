import Mathlib.Data.List.Nodup
import AItelier.Lib.Acyclic
import AItelier.Migration.Verifier

namespace AItelier.Migration

open AItelier.Lib Relation

/-- The graph of a document: a step leads to the steps that its edges name. -/
def Leads (steps : List Step) (u v : String) : Prop := ∃ s ∈ steps, s.id = u ∧ v ∈ s.targets

/-- What the edges of a list of steps become: the steps keep their ids, and each target of a
step outside `frozen` becomes what `f` makes of it. -/
structure Carries (frozen : List String) (kept : String → Prop) (steps steps' : List Step) : Prop where
  carried : ∀ s ∈ steps, s.id ∉ frozen → ∃ s' ∈ steps', s'.id = s.id ∧ ∃ f : Edge → Edge,
    s'.transitions = s.transitions.map f ∧ (∀ e, (f e).data = e.data) ∧ ∀ e, (∀ t, e.target = some t → kept t) → f e = e

section Edges

variable {steps : List Step} {u v old new id : String} {exclude : List String}

/-- Where an edge of `u` to `x` goes once `old` is replaced. -/
def retarget (old new : String) (exclude : List String) (u x : String) : String :=
  if u ∉ exclude ∧ x = old then new else x

theorem mem_targets {s : Step} : v ∈ s.targets ↔ v ≠ "" ∧ ∃ e ∈ s.transitions, e.target = some v := by
  rw [Step.targets, List.mem_filter, List.mem_filterMap, decide_eq_true_eq]
  exact and_comm

theorem targets_replace (hold : old ≠ "") (hnew : new ≠ "") (s : Step) :
    ({ s with transitions := s.transitions.map (Edge.replace old new) } : Step).targets =
      s.targets.map (fun x => if x = old then new else x) := by
  simp only [Step.targets]
  induction s.transitions with
  | nil => rfl
  | cons e edges ih =>
    rw [List.map_cons, List.filterMap_cons, List.filterMap_cons, Edge.replace]
    cases htarget : e.target with
    | none =>
      rw [if_neg (Option.some_ne_none old).symm, htarget]
      exact ih
    | some x =>
      by_cases hx : x = old
      · subst hx
        rw [if_pos rfl]
        dsimp only
        rw [List.filter_cons, if_pos (decide_eq_true hnew), List.filter_cons,
          if_pos (decide_eq_true hold), List.map_cons,
          if_pos rfl, ih]
      · rw [if_neg (fun he => hx (Option.some.inj he)), htarget]
        dsimp only
        by_cases hempty : x ≠ ""
        · rw [List.filter_cons, if_pos (decide_eq_true hempty), List.filter_cons, if_pos (decide_eq_true hempty),
            List.map_cons, if_neg hx, ih]
        · rw [List.filter_cons, if_neg (by simpa using hempty), List.filter_cons, if_neg (by simpa using hempty), ih]

theorem leads_replaceTargets (hold : old ≠ "") (hnew : new ≠ "") :
    Leads (replaceTargets steps old new exclude) u v ↔ ∃ x, Leads steps u x ∧ v = retarget old new exclude u x := by
  constructor
  · rintro ⟨s', hs', hid, hv⟩
    obtain ⟨s, hs, rfl⟩ := List.mem_map.mp hs'
    by_cases hex : s.id ∈ exclude
    · rw [if_pos hex] at hid hv
      exact ⟨v, ⟨s, hs, hid, hv⟩, by rw [retarget, if_neg (fun h => h.1 (hid ▸ hex))]⟩
    · rw [if_neg hex] at hid hv
      rw [targets_replace hold hnew] at hv
      obtain ⟨x, hx, rfl⟩ := List.mem_map.mp hv
      have hu : u ∉ exclude := fun h => hex (hid ▸ h)
      exact ⟨x, ⟨s, hs, hid, hx⟩, by simp only [retarget, hu, not_false_eq_true, true_and]⟩
  · rintro ⟨x, ⟨s, hs, rfl, hx⟩, rfl⟩
    refine ⟨_, List.mem_map.mpr ⟨s, hs, rfl⟩, ?_, ?_⟩
    · split <;> rfl
    · by_cases hex : s.id ∈ exclude
      · rw [if_pos hex, retarget, if_neg (fun h => h.1 hex)]
        exact hx
      · rw [if_neg hex, targets_replace hold hnew]
        refine List.mem_map.mpr ⟨x, hx, ?_⟩
        simp only [retarget, hex, not_false_eq_true, true_and]

theorem ids_replaceTargets : (replaceTargets steps old new exclude).map Step.id = steps.map Step.id := by
  rw [replaceTargets, List.map_map]
  apply List.map_congr_left
  intro s _
  rw [Function.comp_apply]
  split <;> rfl

theorem leads_withStep {f : Step → Step} (hid : ∀ s, (f s).id = s.id)
    (hedges : ∀ s, (f s).transitions = s.transitions) :
    Leads (withStep id f steps) u v ↔ Leads steps u v := by
  have htargets : ∀ s, (f s).targets = s.targets := fun s => by rw [Step.targets, hedges, Step.targets]
  constructor
  · rintro ⟨s', hs', hu, hv⟩
    obtain ⟨s, hs, rfl⟩ := List.mem_map.mp hs'
    refine ⟨s, hs, ?_, ?_⟩
    · split at hu
      · exact (hid s).symm.trans hu
      · exact hu
    · split at hv
      · exact htargets s ▸ hv
      · exact hv
  · rintro ⟨s, hs, hu, hv⟩
    refine ⟨_, List.mem_map.mpr ⟨s, hs, rfl⟩, ?_, ?_⟩
    · split
      · exact (hid s).trans hu
      · exact hu
    · split
      · exact (htargets s).symm ▸ hv
      · exact hv

/-- A step that is given one edge leads where this edge goes. -/
theorem leads_withEdge {t : String} (ht : t ≠ "") :
    Leads (withStep id (fun s => { s with transitions := [⟨some t, []⟩] }) steps) u v ↔
      if u = id then u ∈ steps.map Step.id ∧ v = t else Leads steps u v := by
  have hone : ∀ s : Step, ({ s with transitions := [⟨some t, []⟩] } : Step).targets = [t] := by
    intro s
    show ([t] : List String).filter _ = [t]
    rw [List.filter_cons, if_pos (decide_eq_true ht)]
    rfl
  constructor
  · rintro ⟨s', hs', hu, hv⟩
    obtain ⟨s, hs, rfl⟩ := List.mem_map.mp hs'
    by_cases hid : s.id = id
    · rw [if_pos hid] at hu hv
      rw [hone] at hv
      have hsu : s.id = u := hu
      rw [if_pos (hsu.symm.trans hid)]
      exact ⟨List.mem_map.mpr ⟨s, hs, hsu⟩, List.mem_singleton.mp hv⟩
    · rw [if_neg hid] at hu hv
      rw [if_neg (fun h => hid (hu.trans h))]
      exact ⟨s, hs, hu, hv⟩
  · intro h
    by_cases hu : u = id
    · rw [if_pos hu] at h
      obtain ⟨hin, rfl⟩ := h
      obtain ⟨s, hs, hsu⟩ := List.mem_map.mp hin
      refine ⟨_, List.mem_map.mpr ⟨s, hs, rfl⟩, ?_, ?_⟩
      · rw [if_pos (hsu.trans hu)]
        exact hsu
      · rw [if_pos (hsu.trans hu), hone]
        exact List.mem_singleton.mpr rfl
    · rw [if_neg hu] at h
      obtain ⟨s, hs, hsu, hv⟩ := h
      have hne : s.id ≠ id := fun he => hu (hsu.symm.trans he)
      exact ⟨s, List.mem_map.mpr ⟨s, hs, if_neg hne⟩, hsu, hv⟩

theorem ids_withStep {f : Step → Step} (hid : ∀ s, (f s).id = s.id) :
    (withStep id f steps).map Step.id = steps.map Step.id := by
  rw [withStep, List.map_map]
  apply List.map_congr_left
  intro s _
  rw [Function.comp_apply]
  split
  · exact hid s
  · rfl

theorem found_withStep {f : Step → Step} (hid : ∀ s, (f s).id = s.id) (steps : List Step) (id k : String) :
    (withStep id f steps).find? (fun s => decide (s.id = k)) =
      (steps.find? (fun s => decide (s.id = k))).map (fun s => if s.id = id then f s else s) := by
  rw [withStep, List.find?_map]
  congr 2
  funext s
  rw [Function.comp_apply]
  split
  · rw [hid]
  · rfl

theorem leads_withFields {g : Step → Dict} :
    Leads (withStep id (fun s => { s with fields := g s }) steps) u v ↔ Leads steps u v :=
  leads_withStep (fun _ => rfl) (fun _ => rfl)

theorem ids_withFields {g : Step → Dict} :
    (withStep id (fun s => { s with fields := g s }) steps).map Step.id = steps.map Step.id :=
  ids_withStep (fun _ => rfl)

theorem ids_withEdge {edges : List Edge} :
    (withStep id (fun s => { s with transitions := edges }) steps).map Step.id = steps.map Step.id :=
  ids_withStep (fun _ => rfl)

theorem leads_append {more : List Step} :
    Leads (steps ++ more) u v ↔ Leads steps u v ∨ ∃ s ∈ more, s.id = u ∧ v ∈ s.targets := by
  simp only [Leads, List.mem_append, or_and_right, exists_or]

theorem singleSuccessor_ok {s : Step} {label t : String} : singleSuccessor s label = .ok t ↔ s.targets = [t] := by
  rw [singleSuccessor]
  split
  · next x hx => rw [hx, Except.ok.injEq, List.cons.injEq, and_iff_left rfl]
  · next hne =>
    constructor
    · exact fun h => (nomatch h)
    · exact fun h => absurd h (hne t)

theorem leads_found {s : Step} (hd : (steps.map Step.id).Nodup)
    (h : steps.find? (fun s => decide (s.id = u)) = some s) :
    Leads steps u v ↔ v ∈ s.targets := by
  have hmem := List.mem_of_find?_eq_some h
  have hid : s.id = u := by simpa using List.find?_some h
  constructor
  · rintro ⟨s', hs', hu, hv⟩
    have hsame : s' = s := List.inj_on_of_nodup_map hd hs' hmem (hu.trans hid.symm)
    exact hsame ▸ hv
  · exact fun hv => ⟨s, hmem, hid, hv⟩

end Edges

section Carried

variable {frozen : List String} {kept : String → Prop} {steps steps₁ steps₂ more : List Step} {old new id : String}
  {exclude : List String}

theorem Carries.trans (h : Carries frozen kept steps steps₁) (h' : Carries frozen kept steps₁ steps₂) :
    Carries frozen kept steps steps₂ := by
  constructor
  intro s hs hfrozen
  obtain ⟨s₁, hs₁, hid₁, f, hf, hdata, hfix⟩ := h.carried s hs hfrozen
  obtain ⟨s₂, hs₂, hid₂, g, hg, hdata', hfix'⟩ := h'.carried s₁ hs₁ (hid₁ ▸ hfrozen)
  refine ⟨s₂, hs₂, hid₂.trans hid₁, g ∘ f, ?_, fun e => (hdata' _).trans (hdata e), ?_⟩
  · rw [hg, hf, List.map_map]
  · intro e he
    rw [Function.comp_apply, hfix e he, hfix' e he]

theorem carries_replaceTargets (hold : ¬ kept old) :
    Carries frozen kept steps (replaceTargets steps old new exclude) := by
  constructor
  intro s hs _
  refine ⟨_, List.mem_map.mpr ⟨s, hs, rfl⟩, by split <;> rfl, ?_⟩
  split
  · exact ⟨(fun e => e), (List.map_id _).symm, fun _ => rfl, fun _ _ => rfl⟩
  · refine ⟨Edge.replace old new, rfl, ?_, ?_⟩
    · intro e
      rw [Edge.replace]
      split <;> rfl
    · intro e he
      rw [Edge.replace, if_neg]
      exact fun htarget => hold (he old htarget)

theorem carries_withStep {f : Step → Step} (hid : ∀ s, (f s).id = s.id)
    (hedges : id ∈ frozen ∨ ∀ s, (f s).transitions = s.transitions) : Carries frozen kept steps
      (withStep id f steps) := by
  constructor
  intro s hs hfrozen
  refine ⟨_, List.mem_map.mpr ⟨s, hs, rfl⟩, ?_, (fun e => e), ?_, fun _ => rfl, fun _ _ => rfl⟩
  · split
    · exact hid s
    · rfl
  · rw [List.map_id']
    split
    · next he =>
      rcases hedges with hin | hsame
      · exact absurd (he ▸ hin) hfrozen
      · exact hsame s
    · rfl

theorem carries_append : Carries frozen kept steps (steps ++ more) :=
  ⟨fun s hs _ => ⟨s, List.mem_append_left _ hs, rfl, (fun e => e), (List.map_id _).symm, fun _ => rfl, fun _ _ => rfl⟩⟩

end Carried

section Moved

/-- Where an edge comes to an end: past the verifier and past the notes on what was learnt, each
of which passes on to its own successor. -/
def settle (knowledge : Prop) [Decidable knowledge] (a b x : String) : String :=
  let y := if x = "5" then a else x
  if knowledge ∧ y = "5_knowledge" then b else y

/-- The graph that the migration makes. -/
def NewLeads (d : Document) (a b u v : String) : Prop :=
  if u = "5_readme" then v = "5_candidate_before"
  else if u = "5_candidate_before" then v = "5"
  else if u = "5" then v = "5_candidate_after"
  else if u = "5_candidate_after" then v = if "5_knowledge" ∈ d.ids then "5_knowledge" else "5_review"
  else if u = "5_knowledge" then "5_knowledge" ∈ d.ids ∧ v = "5_review"
  else ∃ x, Leads d.steps u x ∧
    v = retarget "5_review" "5_readme" ["5_review"] u (settle ("5_knowledge" ∈ d.ids) a b x)

/-- A target that the migration rewrites nowhere. -/
def Elsewhere (t : String) : Prop := t ≠ "5" ∧ t ≠ "5_knowledge" ∧ t ≠ "5_review"

/-- What a migration that changes a document does with its graph; `a` follows the verifier and `b`
follows `5_knowledge`, once its edge to the verifier, if it has one, is rewritten. -/
structure Moved (d made : Document) (a b : String) : Prop where
  verifier : "5" ∈ d.ids
  review : "5_review" ∈ d.ids
  fresh : ∀ id ∈ additions, id ∉ d.ids
  named : a ≠ ""
  after : ∀ x, Leads d.steps "5" x ↔ x = a
  afterKnowledge : "5_knowledge" ∈ d.ids → ∃ x, Leads d.steps "5_knowledge" x ∧ b = if x = "5" then a else x
  knowledgeOnly : ∀ x, Leads d.steps "5_knowledge" x → b = if x = "5" then a else x
  begin : made.begin = d.begin
  leads : ∀ u v, Leads made.steps u v ↔ NewLeads d a b u v
  carried : Carries ["5", "5_knowledge"] Elsewhere d.steps made.steps

theorem readmeOwned_slot {d : Document} {fixed : Dict} {slot : String} (h : readmeOwned d fixed = .ok (some slot)) :
    "5_review" ∈ d.ids ∧ ∀ id ∈ additions, id ∉ d.ids := by
  rw [readmeOwned] at h
  split at h
  · cases h
  · obtain ⟨_, hmissing, h⟩ := bind_ok.mp h
    obtain ⟨_, hcollisions, -⟩ := bind_ok.mp h
    have hall := ensure_ok.mp hmissing
    have hnone := ensure_ok.mp hcollisions
    constructor
    · by_contra hout
      have hin : "5_review" ∈ ["5_review", "task_loop"].filter (fun id => decide (id ∉ d.ids)) :=
        List.mem_filter.mpr ⟨List.mem_cons_self, decide_eq_true hout⟩
      rw [hall] at hin
      exact absurd hin List.not_mem_nil
    · intro id hid hin
      have hmem : id ∈ additions.filter (fun id => decide (id ∈ d.ids)) :=
        List.mem_filter.mpr ⟨hid, decide_eq_true hin⟩
      rw [hnone] at hmem
      exact absurd hmem List.not_mem_nil

theorem aroundKnowledge_ok {steps made : List Step} (hd : (steps.map Step.id).Nodup)
    (h : rewire.aroundKnowledge steps = .ok made) :
    ∃ b, b ≠ "" ∧ ("5_knowledge" ∈ steps.map Step.id → ∀ x, Leads steps "5_knowledge" x ↔ x = b) ∧
      made = if "5_knowledge" ∈ steps.map Step.id then replaceTargets steps "5_knowledge" b ["5_knowledge"]
        else steps := by
  unfold rewire.aroundKnowledge at h
  split at h
  · next hnone =>
    have hout : "5_knowledge" ∉ steps.map Step.id := by
      intro hin
      obtain ⟨s, hs, hid⟩ := List.mem_map.mp hin
      exact List.find?_eq_none.mp hnone s hs (decide_eq_true hid)
    refine ⟨"5", by decide, fun hin => absurd hin hout, ?_⟩
    rw [if_neg hout]
    exact (Except.ok.inj h).symm
  · next knowledge hfound =>
    obtain ⟨b, hb, h⟩ := bind_ok.mp h
    obtain ⟨_, -, h⟩ := bind_ok.mp h
    have htargets := singleSuccessor_ok.mp hb
    have hin : "5_knowledge" ∈ steps.map Step.id :=
      List.mem_map.mpr ⟨knowledge, List.mem_of_find?_eq_some hfound, by simpa using List.find?_some hfound⟩
    have hnamed : b ≠ "" := (mem_targets.mp (htargets ▸ List.mem_singleton.mpr rfl : b ∈ knowledge.targets)).1
    refine ⟨b, hnamed, ?_, ?_⟩
    · intro _ x
      rw [leads_found hd hfound, htargets, List.mem_singleton]
    · rw [if_pos hin]
      exact (Except.ok.inj h).symm

/-- The three rewritings together, as one reading of every edge. -/
theorem rewire_ok {d : Document} {verifier : Step} {steps : List Step} {a : String} (hd : d.ids.Nodup)
    (hfound : d.step? "5" = some verifier) (h : rewire d verifier = .ok (steps, a)) :
    ∃ b, a ≠ "" ∧ (∀ x, Leads d.steps "5" x ↔ x = a) ∧
      ("5_knowledge" ∈ d.ids → ∃ x, Leads d.steps "5_knowledge" x ∧ b = if x = "5" then a else x) ∧
      (∀ x, Leads d.steps "5_knowledge" x → b = if x = "5" then a else x) ∧
      steps.map Step.id = d.ids ∧ Carries ["5", "5_knowledge"] Elsewhere d.steps steps ∧
      ∀ u v, u ≠ "5" → u ≠ "5_knowledge" → (Leads steps u v ↔ ∃ x, Leads d.steps u x ∧
        v = retarget "5_review" "5_readme" ["5_review"] u (settle ("5_knowledge" ∈ d.ids) a b x)) := by
  rw [rewire] at h
  obtain ⟨a', ha, h⟩ := bind_ok.mp h
  obtain ⟨_, -, h⟩ := bind_ok.mp h
  obtain ⟨around, haround, h⟩ := bind_ok.mp h
  obtain ⟨_, -, h⟩ := bind_ok.mp h
  obtain ⟨rfl, rfl⟩ := Prod.mk.inj (Except.ok.inj h)
  have htargets := singleSuccessor_ok.mp ha
  have hnamed : a' ≠ "" := (mem_targets.mp (htargets ▸ List.mem_singleton.mpr rfl : a' ∈ verifier.targets)).1
  have hids : (replaceTargets d.steps "5" a' ["5"]).map Step.id = d.ids := ids_replaceTargets
  obtain ⟨b, hb, honly, rfl⟩ := aroundKnowledge_ok (by rw [hids]; exact hd) haround
  rw [hids] at honly
  have hstep : ∀ x, retarget "5" a' ["5"] "5_knowledge" x = if x = "5" then a' else x := by
    intro x
    rw [retarget]
    by_cases hx5 : x = "5"
    · rw [if_pos hx5, if_pos ⟨by decide, hx5⟩]
    · rw [if_neg hx5, if_neg (fun h => hx5 h.2)]
  refine ⟨b, hnamed, ?_, ?_, ?_, ?_, ?_, ?_⟩
  · intro x
    rw [leads_found hd hfound, htargets, List.mem_singleton]
  · intro hin
    obtain ⟨x, hx, heq⟩ := (leads_replaceTargets (by decide) hnamed).mp ((honly hin b).mpr rfl)
    exact ⟨x, hx, heq.trans (hstep x)⟩
  · intro x hx
    have hin : "5_knowledge" ∈ d.ids := by
      obtain ⟨s, hs, hid, -⟩ := hx
      exact List.mem_map.mpr ⟨s, hs, hid⟩
    have hlead : Leads (replaceTargets d.steps "5" a' ["5"]) "5_knowledge" (if x = "5" then a' else x) :=
      (leads_replaceTargets (by decide) hnamed).mpr ⟨x, hx, (hstep x).symm⟩
    exact ((honly hin _).mp hlead).symm
  · rw [ids_replaceTargets, hids]
    split
    · rw [ids_replaceTargets, hids]
    · exact hids
  · rw [hids]
    have hfirst : Carries ["5", "5_knowledge"] Elsewhere d.steps (replaceTargets d.steps "5" a' ["5"]) :=
      carries_replaceTargets (fun h => h.1 rfl)
    have hlast := fun l : List Step => @carries_replaceTargets ["5", "5_knowledge"] Elsewhere l "5_review" "5_readme"
      ["5_review", "5_knowledge"] (fun h => h.2.2 rfl)
    split
    · exact (hfirst.trans (carries_replaceTargets (fun h => h.2.1 rfl))).trans (hlast _)
    · exact hfirst.trans (hlast _)
  · intro u v hu hk
    rw [leads_replaceTargets (by decide) (by decide), hids]
    have hmid : ∀ y, Leads (if "5_knowledge" ∈ d.ids then
        replaceTargets (replaceTargets d.steps "5" a' ["5"]) "5_knowledge" b ["5_knowledge"]
        else replaceTargets d.steps "5" a' ["5"]) u y ↔
        ∃ x, Leads d.steps u x ∧ y = settle ("5_knowledge" ∈ d.ids) a' b x := by
      intro y
      have hstep : ∀ x, retarget "5" a' ["5"] u x = if x = "5" then a' else x := by
        intro x
        simp only [retarget, List.mem_singleton, hu, not_false_eq_true, true_and]
      split
      · next hin =>
        rw [leads_replaceTargets (by decide) hb]
        constructor
        · rintro ⟨z, hz, rfl⟩
          obtain ⟨x, hx, rfl⟩ := (leads_replaceTargets (by decide) hnamed).mp hz
          refine ⟨x, hx, ?_⟩
          rw [hstep]
          simp only [retarget, settle, List.mem_singleton, hk, hin, not_false_eq_true, true_and]
        · rintro ⟨x, hx, rfl⟩
          refine ⟨_, (leads_replaceTargets (by decide) hnamed).mpr ⟨x, hx, rfl⟩, ?_⟩
          rw [hstep]
          simp only [retarget, settle, List.mem_singleton, hk, hin, not_false_eq_true, true_and]
      · next hout =>
        rw [leads_replaceTargets (by decide) hnamed]
        refine exists_congr (fun x => and_congr_right (fun _ => ?_))
        rw [hstep]
        simp only [settle, hout, false_and, if_false]
    have hreview : ∀ x, retarget "5_review" "5_readme" ["5_review", "5_knowledge"] u x =
        retarget "5_review" "5_readme" ["5_review"] u x := by
      intro x
      simp only [retarget, List.mem_cons, List.not_mem_nil, or_false, hk]
    constructor
    · rintro ⟨y, hy, rfl⟩
      obtain ⟨x, hx, rfl⟩ := (hmid y).mp hy
      exact ⟨x, hx, hreview _⟩
    · rintro ⟨x, hx, rfl⟩
      exact ⟨_, (hmid _).mpr ⟨x, hx, rfl⟩, (hreview _).symm⟩

theorem dropStepContext_id (source : String) (s : Step) : (dropStepContext source s).id = s.id := by
  unfold dropStepContext
  split <;> rfl

theorem dropStepContext_transitions (source : String) (s : Step) :
    (dropStepContext source s).transitions = s.transitions := by
  unfold dropStepContext
  split <;> rfl

theorem isReadme_reportSlot (v : Value) : isReadme (reportSlot v) = isReadme v := by
  cases v with
  | obj d =>
    rw [reportSlot]
    split
    · rw [isReadme, isReadme, Dict.get_put_other (by decide)]
      split
      · rfl
      · rw [Dict.get_put_other (by decide)]
    · rfl
  | _ => rfl

/-- The slot taken out is the one that was the README's. -/
theorem no_readme_left {fixed : Dict} {slot : String} (hkeys : (fixed.map Prod.fst).Nodup)
    (h : (fixed.filter (fun f => isReadme f.2)).map Prod.fst = [slot]) :
    ∀ f ∈ fixed.pop slot, isReadme f.2 = false := by
  intro f hf
  have hin : f ∈ fixed ∧ f.1 ≠ slot := by
    clear h
    induction fixed with
    | nil => exact absurd hf List.not_mem_nil
    | cons g rest ih =>
      rw [List.map_cons, List.nodup_cons] at hkeys
      rw [Dict.pop] at hf
      split at hf
      · next hg =>
        refine ⟨List.mem_cons_of_mem g hf, fun hslot => hkeys.1 ?_⟩
        rw [beq_iff_eq.mp hg, ← hslot]
        exact List.mem_map_of_mem hf
      · next hg =>
        rcases List.mem_cons.mp hf with rfl | hf
        · exact ⟨List.mem_cons_self, fun hslot => hg (beq_iff_eq.mpr hslot)⟩
        · exact (ih hkeys.2 hf).imp_left (List.mem_cons_of_mem g)
  cases hread : isReadme f.2 with
  | false => rfl
  | true =>
    have hname : f.1 ∈ (fixed.filter (fun f => isReadme f.2)).map Prod.fst :=
      List.mem_map_of_mem (List.mem_filter.mpr ⟨hin.1, hread⟩)
    rw [h] at hname
    exact absurd (List.mem_singleton.mp hname) hin.2

theorem readmeOwned_name {d : Document} {fixed : Dict} {slot : String} (h : readmeOwned d fixed = .ok (some slot)) :
    (fixed.filter (fun f => isReadme f.2)).map Prod.fst = [slot] := by
  rw [readmeOwned] at h
  split at h
  · cases h
  · obtain ⟨_, -, h⟩ := bind_ok.mp h
    obtain ⟨_, -, h⟩ := bind_ok.mp h
    split at h
    · next name hname =>
      rw [hname]
      cases h
      rfl
    · cases h

theorem dictOr_ok {v : Value} {d : Dict} (h : dictOr v = .ok d) : v = .obj d ∨ d = [] := by
  unfold dictOr at h
  split at h
  · exact .inl (congrArg Value.obj (Except.ok.inj h))
  · split at h
    · cases h
    · exact .inr (Except.ok.inj h).symm

theorem rebuild_ok {agent slot : String} {d made : Document} {steps : List Step} {verifier review : Step}
    {output fixed : Dict} (h : rebuild agent d steps verifier review output fixed slot = .ok made)
    (hids : steps.map Step.id = d.ids) (hverifier : "5" ∈ d.ids) (hfresh : ∀ id ∈ additions, id ∉ d.ids) :
    made.begin = d.begin ∧ Carries ["5", "5_knowledge"] Elsewhere steps made.steps ∧
      ∀ u v, Leads made.steps u v ↔
        if u = "5_readme" then v = "5_candidate_before"
        else if u = "5_candidate_before" then v = "5"
        else if u = "5" then v = "5_candidate_after"
        else if u = "5_candidate_after" then v = if "5_knowledge" ∈ d.ids then "5_knowledge" else "5_review"
        else if u = "5_knowledge" then "5_knowledge" ∈ d.ids ∧ v = "5_review"
        else Leads steps u v := by
  rw [rebuild] at h
  obtain ⟨context, -, h⟩ := bind_ok.mp h
  obtain ⟨fields, -, h⟩ := bind_ok.mp h
  obtain ⟨review', -, h⟩ := bind_ok.mp h
  have hmade := (Except.ok.inj h).symm
  subst hmade
  refine ⟨rfl, ?_, ?_⟩
  · refine Carries.trans ?_ carries_append
    refine Carries.trans ?_ (carries_withStep (fun _ => rfl) (.inr (fun _ => rfl)))
    refine Carries.trans ?_ (carries_withStep (fun _ => rfl) (.inl (by decide)))
    refine Carries.trans ?_ (carries_withStep (fun _ => rfl) (.inl (by decide)))
    refine Carries.trans ?_ (carries_withStep (fun _ => rfl) (.inr (fun _ => rfl)))
    refine Carries.trans ?_ (carries_withStep (dropStepContext_id _) (.inr (dropStepContext_transitions _)))
    refine Carries.trans ?_ (carries_withStep (dropStepContext_id _) (.inr (dropStepContext_transitions _)))
    exact carries_withStep (dropStepContext_id _) (.inr (dropStepContext_transitions _))
  · intro u v
    have hold : ∀ id ∈ additions, ¬ Leads steps id v := by
      rintro id hid ⟨s, hs, hsid, -⟩
      exact hfresh id hid (hids ▸ List.mem_map.mpr ⟨s, hs, hsid⟩)
    dsimp only
    have hnew : ∀ game target, target ≠ "" →
        ((∃ s ∈ [ownerStep agent context (fixed.get slot) game, beforeStep, afterStep target], s.id = u ∧
          v ∈ s.targets) ↔
          (u = "5_readme" ∧ v = "5_candidate_before") ∨ (u = "5_candidate_before" ∧ v = "5") ∨
            (u = "5_candidate_after" ∧ v = target)) := by
      intro game target htarget
      have howner : (ownerStep agent context (fixed.get slot) game).targets = ["5_candidate_before"] := rfl
      have hbefore : beforeStep.targets = ["5"] := rfl
      have hafter : (afterStep target).targets = [target] := by
        show ([target] : List String).filter _ = [target]
        rw [List.filter_cons, if_pos (decide_eq_true htarget)]
        rfl
      simp only [List.mem_cons, List.not_mem_nil, or_false, exists_eq_or_imp, exists_eq_left, howner, hbefore, hafter]
      constructor
      · rintro (⟨rfl, hv⟩ | ⟨rfl, hv⟩ | ⟨rfl, hv⟩)
        · exact .inl ⟨rfl, hv⟩
        · exact .inr (.inl ⟨rfl, hv⟩)
        · exact .inr (.inr ⟨rfl, hv⟩)
      · rintro (⟨rfl, hv⟩ | ⟨rfl, hv⟩ | ⟨rfl, hv⟩)
        · exact .inl ⟨rfl, hv⟩
        · exact .inr (.inl ⟨rfl, hv⟩)
        · exact .inr (.inr ⟨rfl, hv⟩)
    rw [leads_append, leads_withFields, leads_withEdge (by decide), leads_withEdge (by decide), leads_withFields,
      leads_withStep (dropStepContext_id _) (dropStepContext_transitions _),
      leads_withStep (dropStepContext_id _) (dropStepContext_transitions _),
      leads_withStep (dropStepContext_id _) (dropStepContext_transitions _), ids_withEdge, ids_withFields,
      ids_withStep (dropStepContext_id _), ids_withStep (dropStepContext_id _),
      ids_withStep (dropStepContext_id _), hids,
      hnew _ _ (by split <;> decide)]
    simp only [decide_eq_true_eq]
    by_cases hreadme : u = "5_readme"
    · subst hreadme
      simp [hold "5_readme" (by decide)]
    by_cases hbefore : u = "5_candidate_before"
    · subst hbefore
      simp [hold "5_candidate_before" (by decide)]
    by_cases hself : u = "5"
    · subst hself
      simp [hverifier]
    by_cases hafter : u = "5_candidate_after"
    · subst hafter
      simp [hold "5_candidate_after" (by decide)]
    by_cases hknowledge : u = "5_knowledge"
    · subst hknowledge
      simp
    simp [hreadme, hbefore, hself, hafter, hknowledge]

/-- What a migrated verifier owns: the slots that were not the README's. -/
theorem rebuild_verifier {agent slot : String} {d made : Document} {steps : List Step} {verifier review : Step}
    {output fixed : Dict} (h : rebuild agent d steps verifier review output fixed slot = .ok made)
    (hverifier : "5" ∈ steps.map Step.id) :
    ∃ s, made.step? "5" = some s ∧ ∃ out : Dict, s.fields.get "output" = .obj out ∧
      out.get "fixed" = .obj ((fixed.pop slot).map (fun f => (f.1, reportSlot f.2))) := by
  rw [rebuild] at h
  obtain ⟨context, -, h⟩ := bind_ok.mp h
  obtain ⟨fields, -, h⟩ := bind_ok.mp h
  obtain ⟨review', -, h⟩ := bind_ok.mp h
  obtain rfl := Except.ok.inj h
  obtain ⟨s, hs, hid⟩ := List.mem_map.mp hverifier
  have hfound : (steps.find? (fun s => decide (s.id = "5"))).isSome := by
    rw [List.find?_isSome]
    exact ⟨s, hs, decide_eq_true hid⟩
  obtain ⟨s₀, hs₀⟩ := Option.isSome_iff_exists.mp hfound
  have hdrop : ∀ s : Step, (dropStepContext "5" s).id = s.id := dropStepContext_id "5"
  have hid₀ : s₀.id = "5" := by simpa using List.find?_some hs₀
  rw [Document.step?, List.find?_append, found_withStep, found_withStep, found_withStep, found_withStep, found_withStep,
    found_withStep, found_withStep, hs₀]
  · refine ⟨_, rfl, (output.put "target" (.str "artifact")).put
      "fixed" (.obj ((fixed.pop slot).map (fun f => (f.1, reportSlot f.2)))),
      ?_, Dict.get_put_self⟩
    simp [hid₀]
  all_goals first | exact hdrop | exact fun _ => rfl

/-- A migration that changes a document is one of the graph that `Moved` describes. -/
theorem migrate_moved {agent : String} {d made : Document} {a : String} (hd : d.ids.Nodup)
    (h : migrateReadonlyVerifier agent d = .ok (some (made, a))) : ∃ b, Moved d made a b := by
  rw [migrateReadonlyVerifier] at h
  split at h
  · cases h
  · next verifier hfound =>
    obtain ⟨output, -, h⟩ := bind_ok.mp h
    obtain ⟨fixed, -, h⟩ := bind_ok.mp h
    obtain ⟨owned, howned, h⟩ := bind_ok.mp h
    cases owned with
    | none => cases h
    | some slot =>
      obtain ⟨hreview, hfresh⟩ := readmeOwned_slot howned
      obtain ⟨⟨steps, a'⟩, hrewire, h⟩ := bind_ok.mp h
      dsimp only at h
      split at h
      · cases h
      · next review hreviewFound =>
        obtain ⟨made', hrebuild, h⟩ := bind_ok.mp h
        obtain ⟨rfl, rfl⟩ := Prod.mk.inj (Option.some.inj (Except.ok.inj h))
        have hverifier : "5" ∈ d.ids :=
          List.mem_map.mpr ⟨verifier, List.mem_of_find?_eq_some hfound, by simpa using List.find?_some hfound⟩
        obtain ⟨b, hnamed, hafter, hknowledge, honly, hids, hcarries, hleads⟩ := rewire_ok hd hfound hrewire
        obtain ⟨hbegin, hcarried, hmade⟩ := rebuild_ok hrebuild hids hverifier hfresh
        refine ⟨b, hverifier, hreview, hfresh, hnamed, hafter, hknowledge, honly, hbegin, ?_, hcarries.trans hcarried⟩
        intro u v
        rw [hmade, NewLeads]
        by_cases hreadme : u = "5_readme"
        · rw [if_pos hreadme, if_pos hreadme]
        rw [if_neg hreadme, if_neg hreadme]
        by_cases hbefore : u = "5_candidate_before"
        · rw [if_pos hbefore, if_pos hbefore]
        rw [if_neg hbefore, if_neg hbefore]
        by_cases hself : u = "5"
        · rw [if_pos hself, if_pos hself]
        rw [if_neg hself, if_neg hself]
        by_cases hcompared : u = "5_candidate_after"
        · rw [if_pos hcompared, if_pos hcompared]
        rw [if_neg hcompared, if_neg hcompared]
        by_cases hlearnt : u = "5_knowledge"
        · rw [if_pos hlearnt, if_pos hlearnt]
        rw [if_neg hlearnt, if_neg hlearnt]
        exact hleads u v hself hlearnt

end Moved

end AItelier.Migration
