import AItelier.Refine.Papers
import AItelier.Refine.Placement
import AItelier.Refine.Registry

namespace AItelier.State

open AItelier.Lib AItelier.Ledger

variable {db db' db'' : DB} {host : Host} {reply : Reply}

/-- What the rows of keyed requests never change: which request made each attempt,
claim and offer, and the observations and the evidence. -/
structure Sheets where
  entries : List Entry
  charters : List Charter
  offers : List Handoff
  observations : List Observation
  evidence : List Evidence

def DB.sheets (db : DB) : Sheets :=
  ⟨db.entries, db.claims.map Claim.charter, db.handoffs.map Handoff.terms, db.observations, db.evidence⟩

/-- Rows come in at the end, and projects and nodes stay. -/
structure Grows (db db' : DB) : Prop where
  projects : db.projects <+: db'.projects
  ids : db.ids ⊆ db'.ids
  entries : db.entries <+: db'.entries
  charters : db.claims.map Claim.charter <+: db'.claims.map Claim.charter
  offers : db.handoffs.map Handoff.terms <+: db'.handoffs.map Handoff.terms
  observations : db.observations <+: db'.observations
  evidence : db.evidence <+: db'.evidence

theorem Grows.refl (db : DB) : Grows db db where
  projects := List.prefix_refl _
  ids := List.Subset.refl _
  entries := List.prefix_refl _
  charters := List.prefix_refl _
  offers := List.prefix_refl _
  observations := List.prefix_refl _
  evidence := List.prefix_refl _

theorem Grows.trans (h : Grows db db') (h' : Grows db' db'') : Grows db db'' where
  projects := h.projects.trans h'.projects
  ids := List.Subset.trans h.ids h'.ids
  entries := h.entries.trans h'.entries
  charters := h.charters.trans h'.charters
  offers := h.offers.trans h'.offers
  observations := h.observations.trans h'.observations
  evidence := h.evidence.trans h'.evidence

section Steps

theorem Request.projects {r : Request} (h : r.run host db = .ok (reply, db')) : db.projects <+: db'.projects := by
  by_cases hw : Part.projects ∈ r.writes
  · cases r with
    | createProject p title source =>
      obtain ⟨_, h⟩ := answer_ok h
      exact (createProject_leaves h).2
    | _ => simp [Request.writes] at hw
  · rw [(Request.leaves h).projects hw]

theorem Call.projects {c : Call} {now : Stamp} (h : c.run host db now = .ok (reply, db')) :
    db'.projects = db.projects := by
  refine (Call.leaves h).projects ?_
  cases c <;> simp [Call.writes]

theorem Call.papers {c : Call} {now : Stamp} (h : c.run host db now = .ok (reply, db')) :
    db'.papers = db.papers ∨ ∃ row, db'.papers = (db.evidence, db.observations ++ [row]) := by
  cases c with
  | bindRun x =>
    obtain ⟨_, hx⟩ := answer_ok h
    exact .inl (papers_of_side (bindRunWrite_side hx))
  | reconcile x =>
    obtain ⟨_, _, hx⟩ := reconcile_ok h
    exact .inl (reconcileWrite_papers hx)
  | observe x =>
    obtain ⟨_, _, hx⟩ := observe_ok h
    exact (observeWrite_papers hx).imp_right (fun ⟨row, _, _, hrow⟩ => ⟨row, hrow⟩)
  | register caller harness externalId request source =>
    obtain ⟨_, hx⟩ := answer_ok h
    obtain ⟨_, _, hx⟩ := register_ok hx
    exact .inl (reserveOnce_papers hx)

theorem papers_grow {E : List Evidence} {O : List Observation} (hp : db'.papers = (E, O)) (he : db.evidence <+: E)
    (ho : db.observations <+: O) : db.observations <+: db'.observations ∧ db.evidence <+: db'.evidence := by
  have h₁ : db'.evidence = E := congrArg Prod.fst hp
  have h₂ : db'.observations = O := congrArg Prod.snd hp
  rw [h₁, h₂]
  exact ⟨ho, he⟩

theorem next_grows {s : Sys} (host : Host) (hs : s.Registered) (hn : (s.db.handoffs.map Handoff.handoffId).Nodup)
    (op : Op) : Grows s.db (next host s op).db := by
  have hground : Grounded (fun _ => True) s.db :=
    ⟨fun _ _ => trivial, fun _ _ => trivial, fun _ _ _ _ _ => trivial⟩
  have hids : s.db.ids ⊆ (next host s op).db.ids := by
    intro k hk
    have hsteps : Refines Discipline.none s.db (next host s op).db := next_refines (keeps_none s op)
    exact mem_ids_iff.mpr (Steps.keeps_facts hsteps (mem_ids_iff.mp hk))
  have hoffers := (next_dockets host s op hn).terms_kept
  rcases next_cases host s op with he | ⟨r, reply, -, h⟩ | ⟨call, now, reply, hc, h⟩
  · rw [he]
    exact Grows.refl _
  · have hpapers : s.db.observations <+: (next host s op).db.observations ∧
        s.db.evidence <+: (next host s op).db.evidence := by
      rcases Request.papers h with hsame | ⟨row, -, hrow⟩
      · exact papers_grow hsame (List.prefix_refl _) (List.prefix_refl _)
      · exact papers_grow hrow (List.prefix_append _ _) (List.prefix_refl _)
    have hkeeps : Keeps Claim.charter (fun _ => True) s.db (next host s op).db :=
      Request.keeps (charter_spares _) hground (.inl charter_unleased) h
    exact ⟨Request.projects h, hids, (Request.registered hs.db h).2, hkeeps.rows, hoffers, hpapers.1, hpapers.2⟩
  · have hpapers : s.db.observations <+: (next host s op).db.observations ∧
        s.db.evidence <+: (next host s op).db.evidence := by
      rcases Call.papers h with hsame | ⟨row, hrow⟩
      · exact papers_grow hsame (List.prefix_refl _) (List.prefix_refl _)
      · exact papers_grow hrow (List.prefix_refl _) (List.prefix_append _ _)
    have hkeeps : Keeps Claim.charter (fun _ => True) s.db (next host s op).db := Call.keeps (charter_spares _) h
    have hprojects : s.db.projects <+: (next host s op).db.projects := by
      rw [Call.projects h]
    exact ⟨hprojects, hids, (Call.registered hs.db (hs.calls call hc) h).2, hkeeps.rows, hoffers, hpapers.1, hpapers.2⟩

theorem after_registered (host : Host) (ops : List Op) : (after host ops).Registered := by
  refine run_registered host ops ⟨⟨⟨List.nodup_nil, List.nodup_nil, ?_, ?_, ?_, ?_⟩, ?_⟩, ?_⟩
  all_goals
    intro x hx
    cases hx

theorem after_grows (host : Host) (ops more : List Op) : Grows (after host ops).db (after host (ops ++ more)).db := by
  induction more using List.reverseRecOn with
  | nil =>
    rw [List.append_nil]
    exact Grows.refl _
  | append_singleton more op ih =>
    have hnext : after host (ops ++ (more ++ [op])) = next host (after host (ops ++ more)) op := by
      rw [← List.append_assoc, after_append]
      rfl
    rw [hnext]
    exact ih.trans (next_grows host (after_registered host _) (after_handoffIds host _) op)

end Steps

end AItelier.State
