import AItelier.Migration.Release

namespace AItelier.Migration

open AItelier.Lib Relation

variable {d made : Document} {a b u v : String}

/-- The edges of a document name none of the steps that the migration adds, and the verifier
and `5_knowledge` lead on from each other to some other step. -/
structure Onward (d : Document) : Prop where
  named : ∀ u x, Leads d.steps u x → x ∉ additions
  verifier : ¬ Leads d.steps "5" "5"
  knowledge : ¬ Leads d.steps "5_knowledge" "5_knowledge"
  around : ¬ (Leads d.steps "5" "5_knowledge" ∧ Leads d.steps "5_knowledge" "5")

/-- A step that an edge of the old graph ends at when it is settled. -/
def Settled (d : Document) (y : String) : Prop :=
  y ∉ additions ∧ y ≠ "5" ∧ ("5_knowledge" ∈ d.ids → y ≠ "5_knowledge")

section Targets

theorem Moved.leads_after (hm : Moved d made a b) : Leads d.steps "5" a := (hm.after a).mpr rfl

/-- What follows the verifier or `5_knowledge` is reached through them alone. -/
theorem Moved.settle_cases (hm : Moved d made a b) (x : String) :
    settle ("5_knowledge" ∈ d.ids) a b x = x ∨
      (x = "5" ∧ (Leads d.steps "5" (settle ("5_knowledge" ∈ d.ids) a b x) ∨
        Leads d.steps "5" "5_knowledge" ∧ (Leads d.steps "5_knowledge" (settle ("5_knowledge" ∈ d.ids) a b x) ∨
          settle ("5_knowledge" ∈ d.ids) a b x = "5_knowledge"))) ∨
      (x = "5_knowledge" ∧ (Leads d.steps "5_knowledge" (settle ("5_knowledge" ∈ d.ids) a b x) ∨
        Leads d.steps "5_knowledge" "5" ∧ Leads d.steps "5" (settle ("5_knowledge" ∈ d.ids) a b x))) := by
  unfold settle
  dsimp only
  by_cases hx : x = "5"
  · refine .inr (.inl ⟨hx, ?_⟩)
    rw [if_pos hx]
    split
    · next hk =>
      obtain ⟨y, hy, hb⟩ := hm.afterKnowledge hk.1
      refine .inr ⟨hk.2 ▸ hm.leads_after, ?_⟩
      by_cases hy5 : y = "5"
      · rw [if_pos hy5] at hb
        exact .inr (hb.trans hk.2)
      · rw [if_neg hy5] at hb
        exact .inl (hb ▸ hy)
    · exact .inl hm.leads_after
  · rw [if_neg hx]
    split
    · next hk =>
      obtain ⟨y, hy, hb⟩ := hm.afterKnowledge hk.1
      refine .inr (.inr ⟨hk.2, ?_⟩)
      by_cases hy5 : y = "5"
      · rw [if_pos hy5] at hb
        exact .inr ⟨hy5 ▸ hy, hb ▸ hm.leads_after⟩
      · rw [if_neg hy5] at hb
        exact .inl (hb ▸ hy)
    · exact .inl rfl

theorem Moved.settled (hm : Moved d made a b) (ho : Onward d) {x : String} (hx : Leads d.steps u x) :
    Settled d (settle ("5_knowledge" ∈ d.ids) a b x) := by
  have ha : a ∉ additions ∧ a ≠ "5" := ⟨ho.named _ _ hm.leads_after, fun he => ho.verifier (he ▸ hm.leads_after)⟩
  have hb : "5_knowledge" ∈ d.ids → b ∉ additions ∧ b ≠ "5" ∧ b ≠ "5_knowledge" := by
    intro hin
    obtain ⟨y, hy, hb⟩ := hm.afterKnowledge hin
    by_cases hy5 : y = "5"
    · rw [if_pos hy5] at hb
      refine ⟨hb ▸ ha.1, hb ▸ ha.2, fun he => ho.around ⟨?_, hy5 ▸ hy⟩⟩
      rw [← he, hb]
      exact hm.leads_after
    · rw [if_neg hy5] at hb
      exact ⟨hb ▸ ho.named _ _ hy, hb ▸ hy5, fun he => ho.knowledge ((hb.symm.trans he) ▸ hy)⟩
  have hfirst : (if x = "5" then a else x) ∉ additions ∧ (if x = "5" then a else x) ≠ "5" := by
    split
    · exact ha
    · next hx5 => exact ⟨ho.named _ _ hx, hx5⟩
  rw [settle]
  by_cases hk : "5_knowledge" ∈ d.ids ∧ (if x = "5" then a else x) = "5_knowledge"
  · rw [if_pos hk]
    exact ⟨(hb hk.1).1, (hb hk.1).2.1, fun _ => (hb hk.1).2.2⟩
  · rw [if_neg hk]
    exact ⟨hfirst.1, hfirst.2, fun hin he => hk ⟨hin, he⟩⟩

/-- The edges of the new graph, one by one: those of the release path, and those that come to the
front of it or stay off it. -/
theorem Moved.leads_cases (hm : Moved d made a b) (ho : Onward d) (h : Leads made.steps u v) :
    (u = "5_readme" ∧ v = "5_candidate_before") ∨ (u = "5_candidate_before" ∧ v = "5") ∨
      (u = "5" ∧ v = "5_candidate_after") ∨
      (u = "5_candidate_after" ∧ (v = "5_review" ∨ "5_knowledge" ∈ d.ids ∧ v = "5_knowledge")) ∨
      (u = "5_knowledge" ∧ v = "5_review") ∨ v = "5_readme" ∨ (Settled d v ∧ (v = "5_review" → u = "5_review")) := by
  rw [hm.leads, NewLeads] at h
  split at h
  · next hu => exact .inl ⟨hu, h⟩
  split at h
  · next hu => exact .inr (.inl ⟨hu, h⟩)
  split at h
  · next hu => exact .inr (.inr (.inl ⟨hu, h⟩))
  split at h
  · next hu =>
    refine .inr (.inr (.inr (.inl ⟨hu, ?_⟩)))
    split at h
    · next hin => exact .inr ⟨hin, h⟩
    · exact .inl h
  split at h
  · next hu => exact .inr (.inr (.inr (.inr (.inl ⟨hu, h.2⟩))))
  obtain ⟨x, hx, rfl⟩ := h
  have hsettled := hm.settled ho hx
  unfold retarget
  split
  · exact .inr (.inr (.inr (.inr (.inr (.inl rfl)))))
  · next hstay =>
    refine .inr (.inr (.inr (.inr (.inr (.inr ⟨hsettled, fun he => ?_⟩)))))
    by_contra hu
    exact hstay ⟨fun hin => hu (List.mem_singleton.mp hin), he⟩

end Targets

section Order

/-- The steps of the release path. -/
def releaseSteps : List String :=
  ["5_readme", "5_candidate_before", "5", "5_candidate_after", "5_knowledge", "5_review"]

theorem Moved.into_before (hm : Moved d made a b) (ho : Onward d) (h : Leads made.steps u "5_candidate_before") :
    u = "5_readme" := by
  rcases hm.leads_cases ho h with h | h | h | ⟨-, h | h⟩ | h | h | h
  · exact h.1
  · exact absurd h.2 (by decide)
  · exact absurd h.2 (by decide)
  · exact absurd h (by decide)
  · exact absurd h.2 (by decide)
  · exact absurd h.2 (by decide)
  · exact absurd h (by decide)
  · exact absurd (by decide) h.1.1

theorem Moved.into_verifier (hm : Moved d made a b) (ho : Onward d) (h : Leads made.steps u "5") :
    u = "5_candidate_before" := by
  rcases hm.leads_cases ho h with h | h | h | ⟨-, h | h⟩ | h | h | h
  · exact absurd h.2 (by decide)
  · exact h.1
  · exact absurd h.2 (by decide)
  · exact absurd h (by decide)
  · exact absurd h.2 (by decide)
  · exact absurd h.2 (by decide)
  · exact absurd h (by decide)
  · exact absurd rfl h.1.2.1

theorem Moved.into_after (hm : Moved d made a b) (ho : Onward d) (h : Leads made.steps u "5_candidate_after") :
    u = "5" := by
  rcases hm.leads_cases ho h with h | h | h | ⟨-, h | h⟩ | h | h | h
  · exact absurd h.2 (by decide)
  · exact absurd h.2 (by decide)
  · exact h.1
  · exact absurd h (by decide)
  · exact absurd h.2 (by decide)
  · exact absurd h.2 (by decide)
  · exact absurd h (by decide)
  · exact absurd (by decide) h.1.1

theorem Moved.into_knowledge (hm : Moved d made a b) (ho : Onward d) (hin : "5_knowledge" ∈ d.ids)
    (h : Leads made.steps u "5_knowledge") : u = "5_candidate_after" := by
  rcases hm.leads_cases ho h with h | h | h | ⟨hu, -⟩ | h | h | h
  · exact absurd h.2 (by decide)
  · exact absurd h.2 (by decide)
  · exact absurd h.2 (by decide)
  · exact hu
  · exact absurd h.2 (by decide)
  · exact absurd h (by decide)
  · exact absurd rfl (h.1.2.2 hin)

theorem Moved.into_review (hm : Moved d made a b) (ho : Onward d) (h : Leads made.steps u "5_review") :
    u = "5_review" ∨ u = "5_candidate_after" ∨ ("5_knowledge" ∈ d.ids ∧ u = "5_knowledge") := by
  have hstep := h
  rcases hm.leads_cases ho h with h | h | h | ⟨hu, -⟩ | h | h | h
  · exact absurd h.2 (by decide)
  · exact absurd h.2 (by decide)
  · exact absurd h.2 (by decide)
  · exact .inr (.inl hu)
  · rw [hm.leads, NewLeads, h.1] at hstep
    exact .inr (.inr ⟨hstep.1, h.1⟩)
  · exact absurd h (by decide)
  · exact .inl (h.2 rfl)

/-- A walk from outside that comes to the comparison has the whole path before it. -/
theorem Moved.ends_compared (hm : Moved d made a b) (ho : Onward d) {l : List String}
    (hwalk : IsWalk (Leads made.steps) (l ++ ["5_candidate_after"]))
    (hhead : ∀ u, (l ++ ["5_candidate_after"]).head? = some u → u ∉ releaseSteps) :
    ["5_readme", "5_candidate_before", "5", "5_candidate_after"] <:+ l ++ ["5_candidate_after"] := by
  -- a place of the path is not where the walk starts
  have hlong : ∀ (m : List String) (c : String) (rest : List String), c ∈ releaseSteps →
      l = m ++ c :: rest → m ≠ [] := by
    rintro m c rest hc hl rfl
    rw [hl] at hhead
    exact hhead c rfl hc
  have hne : l ≠ [] := by
    rintro rfl
    exact hhead _ rfl (by decide)
  obtain ⟨l₁, rfl⟩ := hwalk.came_from hne (fun x hx => hm.into_after ho hx)
  have hwalk₁ := hwalk.dropLast_concat
  obtain ⟨l₂, rfl⟩ := hwalk₁.came_from (hlong l₁ "5" [] (by decide) rfl) (fun x hx => hm.into_verifier ho hx)
  have hwalk₂ := hwalk₁.dropLast_concat
  obtain ⟨l₃, rfl⟩ := hwalk₂.came_from (hlong l₂ "5_candidate_before" ["5"] (by decide) (by simp))
    (fun x hx => hm.into_before ho hx)
  exact ⟨l₃, by simp⟩

/-- Every walk from outside to the review goes along the release path. -/
theorem Moved.passes (hm : Moved d made a b) (ho : Onward d) (l : List String)
    (hwalk : IsWalk (Leads made.steps) (l ++ ["5_review"]))
    (hhead : ∀ u, (l ++ ["5_review"]).head? = some u → u ∉ releaseSteps) :
    ["5_readme", "5_candidate_before", "5", "5_candidate_after"] <:+: l ++ ["5_review"] := by
  induction hn : l.length using Nat.strongRecOn generalizing l with
  | ind n ih =>
    have hne : l ≠ [] := by
      rintro rfl
      exact hhead _ rfl (by decide)
    obtain ⟨l', c, rfl⟩ : ∃ l' c, l = l' ++ [c] := ⟨_, _, (List.dropLast_append_getLast hne).symm⟩
    have hhead' : ∀ u, (l' ++ [c]).head? = some u → u ∉ releaseSteps := by
      intro u hu
      apply hhead u
      rw [List.head?_append, hu]
      rfl
    have hstep : Leads made.steps c "5_review" := by
      rw [List.append_assoc, List.singleton_append] at hwalk
      exact (List.isChain_cons_cons.mp (List.isChain_append.mp hwalk).2.1).1
    have hwalk' := hwalk.dropLast_concat
    rcases hm.into_review ho hstep with rfl | rfl | ⟨hin, rfl⟩
    · have hlt : l'.length < n := by
        rw [List.length_append, List.length_singleton] at hn
        omega
      exact (ih _ hlt l' hwalk' hhead' rfl).trans (List.prefix_append _ _).isInfix
    · exact (hm.ends_compared ho hwalk' hhead').isInfix.trans (List.prefix_append _ _).isInfix
    · have hne' : l' ≠ [] := by
        rintro rfl
        exact hhead' _ rfl (by decide)
      obtain ⟨l'', rfl⟩ := hwalk'.came_from hne' (fun x hx => hm.into_knowledge ho hin hx)
      have hhead'' : ∀ u, (l'' ++ ["5_candidate_after"]).head? = some u → u ∉ releaseSteps := by
        intro u hu
        apply hhead' u
        rw [List.head?_append, hu]
        rfl
      have hcompared := hm.ends_compared ho hwalk'.dropLast_concat hhead''
      exact (hcompared.isInfix.trans (List.prefix_append _ _).isInfix).trans (List.prefix_append _ _).isInfix

end Order

section Reach

theorem settle_knowledge (knowledge : Prop) [Decidable knowledge] (a b : String) :
    settle knowledge a b "5_knowledge" = if knowledge then b else "5_knowledge" := by
  have hne : ¬ "5_knowledge" = "5" := by decide
  rw [settle, if_neg hne]
  by_cases hk : knowledge
  · rw [if_pos hk, if_pos ⟨hk, rfl⟩]
  · rw [if_neg hk, if_neg (fun h => hk h.1)]

/-- What was reached is reached where it settles. -/
theorem Moved.reaches_settled (hm : Moved d made a b) (ho : Onward d) (hbegin : d.begin ≠ "5" ∧ d.begin ≠ "5_knowledge")
    {x : String} (h : ReflTransGen (Leads d.steps) d.begin x) :
    ReflTransGen (Leads made.steps) made.begin (settle ("5_knowledge" ∈ d.ids) a b x) := by
  rw [hm.begin]
  have hsettle : ∀ y, y ≠ "5" → y ≠ "5_knowledge" → settle ("5_knowledge" ∈ d.ids) a b y = y := by
    intro y h5 hk
    rw [settle, if_neg h5, if_neg (fun h => hk h.2)]
  have hfinish : ReflTransGen (Leads made.steps) "5_readme" "5_review" := by
    have hreadme : Leads made.steps "5_readme" "5_candidate_before" := (hm.leads _ _).mpr (by rw [NewLeads, if_pos rfl])
    have hbefore : Leads made.steps "5_candidate_before" "5" := (hm.leads _ _).mpr rfl
    have hverifier : Leads made.steps "5" "5_candidate_after" := (hm.leads _ _).mpr rfl
    have hrest : ReflTransGen (Leads made.steps) "5_candidate_after" "5_review" := by
      by_cases hin : "5_knowledge" ∈ d.ids
      · have hcompared : Leads made.steps "5_candidate_after" "5_knowledge" := by
          apply (hm.leads _ _).mpr
          show "5_knowledge" = if "5_knowledge" ∈ d.ids then "5_knowledge" else "5_review"
          rw [if_pos hin]
        have hlearnt : Leads made.steps "5_knowledge" "5_review" := (hm.leads _ _).mpr ⟨hin, rfl⟩
        exact .head hcompared (.single hlearnt)
      · apply ReflTransGen.single
        apply (hm.leads _ _).mpr
        show "5_review" = if "5_knowledge" ∈ d.ids then "5_knowledge" else "5_review"
        rw [if_neg hin]
    exact .head hreadme (.head hbefore (.head hverifier hrest))
  induction h with
  | refl =>
    rw [hsettle _ hbegin.1 hbegin.2]
  | @tail y z hreach hstep ih =>
    have hfresh : y ∉ additions := by
      obtain ⟨s, hs, hid, -⟩ := hstep
      exact fun hin => hm.fresh y hin (List.mem_map.mpr ⟨s, hs, hid⟩)
    by_cases hy5 : y = "5"
    · -- the verifier settles where its one successor does
      subst hy5
      obtain rfl := (hm.after z).mp hstep
      have hne : z ≠ "5" := fun he => ho.verifier (he ▸ hstep)
      have hsame : settle ("5_knowledge" ∈ d.ids) z b "5" = settle ("5_knowledge" ∈ d.ids) z b z := by
        rw [settle, settle, if_pos rfl, if_neg hne]
      exact hsame ▸ ih
    by_cases hyk : y = "5_knowledge"
    · subst hyk
      have hin : "5_knowledge" ∈ d.ids := by
        obtain ⟨s, hs, hid, -⟩ := hstep
        exact List.mem_map.mpr ⟨s, hs, hid⟩
      have hb := hm.knowledgeOnly z hstep
      have hhere : settle ("5_knowledge" ∈ d.ids) a b "5_knowledge" = b := by
        rw [settle_knowledge, if_pos hin]
      have hthere : settle ("5_knowledge" ∈ d.ids) a b z = b := by
        rw [settle, ← hb, if_neg]
        rintro ⟨-, hback⟩
        by_cases hz5 : z = "5"
        · rw [if_pos hz5] at hb
          refine ho.around ⟨?_, hz5 ▸ hstep⟩
          rw [← hback, hb]
          exact hm.leads_after
        · rw [if_neg hz5] at hb
          exact ho.knowledge ((hb.symm.trans hback) ▸ hstep)
      rw [hthere, ← hhere]
      exact ih
    rw [hsettle y hy5 hyk] at ih
    have hout : ∀ id ∈ additions, y ≠ id := fun id hid he => hfresh (he ▸ hid)
    have hlead : Leads made.steps y
        (retarget "5_review" "5_readme" ["5_review"] y (settle ("5_knowledge" ∈ d.ids) a b z)) := by
      rw [hm.leads, NewLeads, if_neg (hout _ (by decide)), if_neg (hout _ (by decide)), if_neg hy5,
        if_neg (hout _ (by decide)), if_neg hyk]
      exact ⟨z, hstep, rfl⟩
    have hnext := ih.tail hlead
    unfold retarget at hnext
    split at hnext
    · next hfires =>
      rw [hfires.2]
      exact hnext.trans hfinish
    · exact hnext

theorem Moved.reaches (hm : Moved d made a b) (ho : Onward d) (hbegin : d.begin ∉ releaseSteps) {x : String}
    (h : ReflTransGen (Leads d.steps) d.begin x)
    (hreview : x = "5" ∨ x = "5_knowledge" → ReflTransGen (Leads d.steps) d.begin "5_review") :
    ReflTransGen (Leads made.steps) made.begin x := by
  have hstart : d.begin ≠ "5" ∧ d.begin ≠ "5_knowledge" :=
    ⟨fun he => hbegin (he ▸ by decide), fun he => hbegin (he ▸ by decide)⟩
  have hsettle : ∀ y, y ≠ "5" → y ≠ "5_knowledge" → settle ("5_knowledge" ∈ d.ids) a b y = y := by
    intro y h5 hk
    rw [settle, if_neg h5, if_neg (fun h => hk h.2)]
  by_cases hx : x = "5" ∨ x = "5_knowledge"
  · -- the review is reached, and the walk to it passes the verifier
    have hend := hm.reaches_settled ho hstart (hreview hx)
    rw [hsettle _ (by decide) (by decide)] at hend
    obtain ⟨l, hwalk, hhead⟩ := exists_walk hend
    have hoff : ∀ u, (l ++ ["5_review"]).head? = some u → u ∉ releaseSteps := by
      intro u hu
      rw [hhead] at hu
      rw [← Option.some.inj hu, hm.begin]
      exact hbegin
    have hpasses := hm.passes ho l hwalk hoff
    rcases hx with rfl | rfl
    · exact hwalk.reaches hhead (hpasses.subset (by decide))
    · by_cases hin : "5_knowledge" ∈ d.ids
      · have hcompared : Leads made.steps "5_candidate_after" "5_knowledge" := by
          apply (hm.leads _ _).mpr
          show "5_knowledge" = if "5_knowledge" ∈ d.ids then "5_knowledge" else "5_review"
          rw [if_pos hin]
        exact (hwalk.reaches hhead (hpasses.subset (by decide))).tail hcompared
      · have hsame : settle ("5_knowledge" ∈ d.ids) a b "5_knowledge" = "5_knowledge" := by
          rw [settle_knowledge, if_neg hin]
        have hdirect := hm.reaches_settled ho hstart h
        rwa [hsame] at hdirect
  · obtain ⟨h5, hk⟩ := not_or.mp hx
    have hdirect := hm.reaches_settled ho hstart h
    rwa [hsettle x h5 hk] at hdirect

end Reach

/-- A step leads to itself by way of the verifier and `5_knowledge` alone. -/
def LoopsAround (d : Document) (u : String) : Prop :=
  (Leads d.steps u "5" ∧ (Leads d.steps "5" u ∨ Leads d.steps "5" "5_knowledge" ∧ Leads d.steps "5_knowledge" u)) ∨
    (Leads d.steps u "5_knowledge" ∧
      (Leads d.steps "5_knowledge" u ∨ Leads d.steps "5_knowledge" "5" ∧ Leads d.steps "5" u))

theorem Moved.no_new_loop (hm : Moved d made a b) (h : Leads made.steps u u) : Leads d.steps u u ∨ LoopsAround d u := by
  rw [hm.leads, NewLeads] at h
  split at h
  · next hu => exact absurd (hu.symm.trans h) (by decide)
  split at h
  · next hu => exact absurd (hu.symm.trans h) (by decide)
  split at h
  · next hu => exact absurd (hu.symm.trans h) (by decide)
  split at h
  · next hu =>
    split at h
    · exact absurd (hu.symm.trans h) (by decide)
    · exact absurd (hu.symm.trans h) (by decide)
  split at h
  · next hu => exact absurd (hu.symm.trans h.2) (by decide)
  · next hreadme _ _ _ hk =>
    obtain ⟨x, hx, hu⟩ := h
    unfold retarget at hu
    split at hu
    · exact absurd hu hreadme
    · have hcases := hm.settle_cases x
      rw [← hu] at hcases
      rcases hcases with he | ⟨rfl, h5 | ⟨h5k, hku | he⟩⟩ | ⟨rfl, hku | ⟨hk5, h5⟩⟩
      · exact .inl (he ▸ hx)
      · exact .inr (.inl ⟨hx, .inl h5⟩)
      · exact .inr (.inl ⟨hx, .inr ⟨h5k, hku⟩⟩)
      · exact absurd he hk
      · exact .inr (.inr ⟨hx, .inl hku⟩)
      · exact .inr (.inr ⟨hx, .inr ⟨hk5, h5⟩⟩)

section Runs

def plainStep (e : String × List String) : Step where
  id := e.1
  transitions := e.2.map (fun t => ⟨some t, []⟩)
  fields := if e.1 = "5" then [("output", .obj [("fixed", .obj [("readme", .str "README.md")])])] else []

/-- A document that begins at its task loop, with a README-owning verifier. -/
def plainDocument (edges : List (String × List String)) : Document := ⟨"task_loop", edges.map plainStep, []⟩

def shape (steps : List Step) : List (String × List String) := steps.map (fun s => (s.id, s.targets))

theorem leads_shape {steps : List Step} : Leads steps u v ↔ ∃ e ∈ shape steps, e.1 = u ∧ v ∈ e.2 := by
  constructor
  · rintro ⟨s, hs, hu, hv⟩
    exact ⟨_, List.mem_map.mpr ⟨s, hs, rfl⟩, hu, hv⟩
  · rintro ⟨e, he, hu, hv⟩
    obtain ⟨s, hs, rfl⟩ := List.mem_map.mp he
    exact ⟨s, hs, hu, hv⟩

def migratedShape (d : Document) : Option (List (String × List String)) :=
  match migrateReadonlyVerifier "delivery_documenter" d with
  | .ok (some r) => some (shape r.1.steps)
  | _ => none

theorem migratedShape_some {edges : List (String × List String)} (h : migratedShape d = some edges) :
    ∃ made moved, migrateReadonlyVerifier "delivery_documenter" d = .ok (some (made, moved)) ∧
      ∀ u v, Leads made.steps u v ↔ ∃ e ∈ edges, e.1 = u ∧ v ∈ e.2 := by
  unfold migratedShape at h
  split at h
  · next r hmigrate =>
    refine ⟨r.1, r.2, hmigrate, fun u v => ?_⟩
    rw [leads_shape, Option.some.inj h]
  · cases h

def tested : Document :=
  plainDocument [("task_loop", ["5"]), ("5", ["5_test"]), ("5_test", ["5_review"]), ("5_review", [])]

def looping : Document := plainDocument [("task_loop", ["5", "5_review"]), ("5", ["5"]), ("5_review", [])]

def aside : Document :=
  plainDocument [("task_loop", ["5"]), ("5", ["done"]), ("done", []), ("other", ["5_review"]), ("5_review", [])]

def rejecting : Document := plainDocument [("task_loop", ["5"]), ("5", ["5_review"]), ("5_review", ["5"])]

/-- The verifier's own edge goes, whatever it named; a verifier that leads to itself is still
reached without its new owner; a verifier that the review was not reached from is lost; and a review
that rejects to the verifier comes to reject to itself. -/
theorem migrate_release_path_limits :
    (∃ made moved, migrateReadonlyVerifier "delivery_documenter" tested = .ok (some (made, moved)) ∧
      Leads tested.steps "5" "5_test" ∧ ¬ Leads made.steps "5" "5_test") ∧
    (∃ made moved, migrateReadonlyVerifier "delivery_documenter" looping = .ok (some (made, moved)) ∧
      IsWalk (Leads made.steps) ["task_loop", "5", "5_candidate_after", "5_review"]) ∧
    (∃ made moved, migrateReadonlyVerifier "delivery_documenter" aside = .ok (some (made, moved)) ∧
      ReflTransGen (Leads aside.steps) "task_loop" "5" ∧ ¬ ReflTransGen (Leads made.steps) "task_loop" "5") ∧
    ∃ made moved, migrateReadonlyVerifier "delivery_documenter" rejecting = .ok (some (made, moved)) ∧
      ¬ Leads rejecting.steps "5_review" "5_review" ∧ Leads made.steps "5_review" "5_review" := by
  refine ⟨?_, ?_, ?_, ?_⟩
  · obtain ⟨made, moved, hmigrate, hleads⟩ := @migratedShape_some tested
      [("task_loop", ["5_test"]), ("5", ["5_candidate_after"]), ("5_test", ["5_readme"]), ("5_review", []),
        ("5_readme", ["5_candidate_before"]), ("5_candidate_before", ["5"]),
        ("5_candidate_after", ["5_review"])] (by decide)
    refine ⟨made, moved, hmigrate, leads_shape.mpr (by decide), ?_⟩
    rw [hleads]
    decide
  · obtain ⟨made, moved, hmigrate, hleads⟩ := @migratedShape_some looping
      [("task_loop", ["5", "5_readme"]), ("5", ["5_candidate_after"]), ("5_review", []),
        ("5_readme", ["5_candidate_before"]), ("5_candidate_before", ["5"]),
        ("5_candidate_after", ["5_review"])] (by decide)
    refine ⟨made, moved, hmigrate, ?_⟩
    simp only [IsWalk, List.isChain_cons_cons, List.isChain_singleton, hleads]
    decide
  · obtain ⟨made, moved, hmigrate, hleads⟩ := @migratedShape_some aside
      [("task_loop", ["done"]), ("5", ["5_candidate_after"]), ("done", []), ("other", ["5_readme"]), ("5_review", []),
        ("5_readme", ["5_candidate_before"]), ("5_candidate_before", ["5"]),
        ("5_candidate_after", ["5_review"])] (by decide)
    refine ⟨made, moved, hmigrate, .single (leads_shape.mpr (by decide)), ?_⟩
    intro hreach
    have hclosed : ∀ x y, (x = "task_loop" ∨ x = "done") → Leads made.steps x y → y = "task_loop" ∨ y = "done" := by
      rintro x y (rfl | rfl) hxy
      · rw [hleads] at hxy
        simp at hxy
        exact .inr hxy
      · rw [hleads] at hxy
        simp at hxy
    exact absurd (mem_of_reaches hclosed (.inl rfl) hreach) (by decide)
  · obtain ⟨made, moved, hmigrate, hleads⟩ := @migratedShape_some rejecting
      [("task_loop", ["5_readme"]), ("5", ["5_candidate_after"]), ("5_review", ["5_review"]),
        ("5_readme", ["5_candidate_before"]), ("5_candidate_before", ["5"]),
        ("5_candidate_after", ["5_review"])] (by decide)
    refine ⟨made, moved, hmigrate, ?_, (hleads _ _).mpr (by decide)⟩
    rw [leads_shape]
    decide

end Runs

/-- The release path that the migration makes: every walk from outside to the review goes along it, what was
reached still is, no step is looped to itself but by way of the steps that were moved, and the edges of the
other steps that name none of these stay. -/
theorem migrate_release_path (agent : String) (d made : Document) (moved : String) (hd : d.ids.Nodup)
    (h : migrateReadonlyVerifier agent d = .ok (some (made, moved))) :
    (Onward d → ∀ l, IsWalk (Leads made.steps) (l ++ ["5_review"]) →
      (∀ u, (l ++ ["5_review"]).head? = some u → u ∉ releaseSteps) →
      ["5_readme", "5_candidate_before", "5", "5_candidate_after"] <:+: l ++ ["5_review"]) ∧
    (Onward d → d.begin ∉ releaseSteps → ∀ x, ReflTransGen (Leads d.steps) d.begin x →
      (x = "5" ∨ x = "5_knowledge" → ReflTransGen (Leads d.steps) d.begin "5_review") →
      ReflTransGen (Leads made.steps) made.begin x) ∧
    (∀ u, Leads made.steps u u → Leads d.steps u u ∨ LoopsAround d u) ∧
    Carries ["5", "5_knowledge"] Elsewhere d.steps made.steps := by
  obtain ⟨b, hm⟩ := migrate_moved hd h
  exact ⟨hm.passes, fun ho hbegin x hx => hm.reaches ho hbegin hx, fun u hu => hm.no_new_loop hu, hm.carried⟩

def delivered : Document :=
  plainDocument [("task_loop", ["5"]), ("5", ["5_knowledge"]), ("5_knowledge", ["5_review"]),
    ("5_review", ["task_loop"])]

theorem migrate_release_path_plain :
    ∃ made moved, migrateReadonlyVerifier "delivery_documenter" delivered = .ok (some (made, moved)) ∧
      ∀ l, IsWalk (Leads made.steps) (l ++ ["5_review"]) →
        (∀ u, (l ++ ["5_review"]).head? = some u → u ∉ releaseSteps) →
        ["5_readme", "5_candidate_before", "5", "5_candidate_after"] <:+: l ++ ["5_review"] := by
  obtain ⟨made, moved, hmigrate, -⟩ := @migratedShape_some delivered
    [("task_loop", ["5_readme"]), ("5", ["5_candidate_after"]), ("5_knowledge", ["5_review"]),
      ("5_review", ["task_loop"]),
      ("5_readme", ["5_candidate_before"]), ("5_candidate_before", ["5"]),
      ("5_candidate_after", ["5_knowledge"])] (by decide)
  have honward : Onward delivered := by
    have hnamed : ∀ e ∈ shape delivered.steps, ∀ x ∈ e.2, x ∉ additions := by decide
    refine ⟨?_, ?_, ?_, ?_⟩
    · intro u x hx
      obtain ⟨e, he, -, hin⟩ := leads_shape.mp hx
      exact hnamed e he x hin
    · rw [leads_shape]
      decide
    · rw [leads_shape]
      decide
    · rw [leads_shape, leads_shape]
      decide
  exact ⟨made, moved, hmigrate,
    (migrate_release_path "delivery_documenter" delivered made moved (by decide) hmigrate).1 honward⟩

/-- A document with distinct step ids that was migrated is left as it is by every later
migration. -/
theorem migration_settles (agent again : String) (d made : Document) (moved : String) (hd : d.ids.Nodup)
    (hslots : ∀ verifier ∈ d.steps, ∀ output fixed : Dict, verifier.fields.get "output" = .obj output →
      output.get "fixed" = .obj fixed → (fixed.map Prod.fst).Nodup)
    (h : migrateReadonlyVerifier agent d = .ok (some (made, moved))) :
    migrateReadonlyVerifier again made = .ok none := by
  rw [migrateReadonlyVerifier] at h
  split at h
  · cases h
  · next verifier hfound =>
    obtain ⟨output, houtput, h⟩ := bind_ok.mp h
    obtain ⟨fixed, hfixed, h⟩ := bind_ok.mp h
    obtain ⟨owned, howned, h⟩ := bind_ok.mp h
    cases owned with
    | none => cases h
    | some slot =>
      obtain ⟨⟨steps, a⟩, hrewire, h⟩ := bind_ok.mp h
      dsimp only at h
      split at h
      · cases h
      · next review hreview =>
        obtain ⟨made', hrebuild, h⟩ := bind_ok.mp h
        obtain ⟨rfl, rfl⟩ := Prod.mk.inj (Option.some.inj (Except.ok.inj h))
        obtain ⟨_, -, -, -, -, hids, -⟩ := rewire_ok hd hfound hrewire
        have hin : verifier ∈ d.steps := List.mem_of_find?_eq_some hfound
        have hverifier : "5" ∈ steps.map Step.id := by
          rw [hids]
          exact List.mem_map.mpr ⟨verifier, hin, by simpa using List.find?_some hfound⟩
        obtain ⟨s, hs, out, hout, hreports⟩ := rebuild_verifier hrebuild hverifier
        have hnone : ((fixed.pop slot).map (fun f => (f.1, reportSlot f.2))).filter (fun f => isReadme f.2) = [] := by
          rw [List.filter_eq_nil_iff]
          intro f hf
          obtain ⟨g, hg, rfl⟩ := List.mem_map.mp hf
          have hname := readmeOwned_name howned
          have hkeys : (fixed.map Prod.fst).Nodup := by
            rcases dictOr_ok houtput with houtput | rfl
            · rcases dictOr_ok hfixed with hfixed | rfl
              · exact hslots verifier hin output fixed houtput hfixed
              · exact List.nodup_nil
            · obtain rfl := Except.ok.inj hfixed
              exact List.nodup_nil
          rw [isReadme_reportSlot, no_readme_left hkeys hname g hg]
          exact Bool.false_ne_true
        rw [migrateReadonlyVerifier, hs]
        dsimp only
        rw [hout]
        change (dictOr (out.get "fixed") >>= _) = _
        rw [hreports]
        change (readmeOwned _ _ >>= _) = _
        rw [readmeOwned, hnone]
        rfl

theorem migration_settles_delivered :
    ∃ made moved, migrateReadonlyVerifier "delivery_documenter" delivered = .ok (some (made, moved)) ∧
      migrateReadonlyVerifier "delivery_documenter" made = .ok none := by
  have hsome : (migratedShape delivered).isSome = true := by decide
  obtain ⟨edges, hedges⟩ := Option.isSome_iff_exists.mp hsome
  obtain ⟨made, moved, hmigrate, -⟩ := migratedShape_some hedges
  refine ⟨made, moved, hmigrate, migration_settles _ _ _ _ _ (by decide) ?_ hmigrate⟩
  intro verifier hin output fixed houtput hfixed
  simp only [delivered, plainDocument, List.map_cons, List.map_nil, List.mem_cons, List.not_mem_nil, or_false] at hin
  rcases hin with rfl | rfl | rfl | rfl
  · cases houtput
  · cases houtput
    cases hfixed
    exact List.nodup_singleton _
  · cases houtput
  · cases houtput

end AItelier.Migration
