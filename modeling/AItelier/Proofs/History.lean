import AItelier.Lib.JsonText
import AItelier.Proofs.Facets
import Mathlib.Data.List.Induction

namespace AItelier.State

open AItelier.Lib

variable {db db' : DB} {host : Host} {caller : Caller} {p k : String} {id : NodeId} {d : Draft}

def Revision.node (r : Revision) : NodeId := (r.projectId, r.nodeKey)

/-- The rows recorded for one node, oldest first. -/
def recorded (db : DB) (id : NodeId) : List Revision :=
  db.revisions.filter (fun r => decide (r.node = id))

/-- The row that records a node as it stands. -/
def Draft.row (d : Draft) (deps : List String) : Revision :=
  ⟨d.id.1, d.id.2, d.revision, d.goal, d.contract, d.contractHash, deps⟩

/-- A node whose revisions are all recorded, the last as it stands. -/
structure Chronicled (host : Host) (db : DB) (d : Draft) : Prop where
  numbered : (recorded db d.id).map Revision.revision = List.range' 1 d.revision
  current : (recorded db d.id).getLast? = some (d.row (depsOf db d.id.1 d.id.2))
  hashed : d.contractHash = contractDigest host d.contract

structure Historic (host : Host) (db : DB) : Prop where
  nodes : ∀ d ∈ db.history.1, Chronicled host db d
  rooted : ∀ r ∈ db.revisions, r.node ∈ db.ids

theorem ids_history : db.ids = db.history.1.map Draft.id := by
  simp [DB.ids, DB.history, Node.draft, Function.comp_def]

theorem Chronicled.of_eq (h : Chronicled host db d) (hrows : recorded db' d.id = recorded db d.id)
    (hdeps : depsOf db' d.id.1 d.id.2 = depsOf db d.id.1 d.id.2) : Chronicled host db' d :=
  ⟨hrows ▸ h.numbered, by rw [hrows, hdeps]; exact h.current, h.hashed⟩

theorem Historic.of_history (h : Historic host db) (hh : db'.history = db.history)
    (hd : db'.dependencies = db.dependencies) : Historic host db' := by
  have hrows : db'.revisions = db.revisions := congrArg Prod.snd hh
  have hids : db'.ids = db.ids := by rw [ids_history, hh, ids_history]
  refine ⟨?_, by rw [hrows, hids]; exact h.rooted⟩
  intro d hdraft
  rw [hh] at hdraft
  refine (h.nodes d hdraft).of_eq (by rw [recorded, hrows, recorded]) (by rw [depsOf, hd, depsOf])

/-- A write that keeps every recorded row and records what it changes. -/
structure Continued (host : Host) (db db' : DB) : Prop where
  historic : Historic host db'
  rows : db.revisions <+: db'.revisions

theorem Continued.of_history (hdb : Historic host db) (hh : db'.history = db.history)
    (hd : db'.dependencies = db.dependencies) : Continued host db db' := by
  have hrows : db'.revisions = db.revisions := congrArg Prod.snd hh
  exact ⟨hdb.of_history hh hd, hrows ▸ List.prefix_refl _⟩

theorem Continued.then {db₁ : DB} (h : Continued host db db₁) (hh : db'.history = db₁.history)
    (hd : db'.dependencies = db₁.dependencies) : Continued host db db' := by
  have hnext := Continued.of_history h.historic hh hd
  exact ⟨hnext.historic, h.rows.trans hnext.rows⟩

section Add
variable {news : List Prepared}

theorem insertNodes_history : (insertNodes host db p news).history =
    (db.history.1 ++ news.map (fun q => (q.node host p).draft),
      db.revisions ++ news.map (Prepared.revision host p)) := by
  simp [DB.history, insertNodes, Function.comp_def]

/-- The edges a node has of its own. -/
def edgesOf (db : DB) (id : NodeId) : List Dependency :=
  db.dependencies.filter (fun e => decide (e.projectId = id.1 ∧ e.nodeKey = id.2))

theorem depsOf_edgesOf : depsOf db p k = sortKeys ((edgesOf db (p, k)).map Dependency.dependencyKey) := rfl

theorem inserted_rows (id : NodeId) : recorded (insertNodes host db p news) id = recorded db id ++
    news.flatMap (fun q => if (p, q.key) = id then [q.revision host p] else []) := by
  have hnew : (news.map (Prepared.revision host p)).filter (fun r => decide (r.node = id)) =
      news.flatMap (fun q => if (p, q.key) = id then [q.revision host p] else []) := by
    rw [List.map_eq_flatMap, List.filter_flatMap]
    congr 1
    funext q
    have hnode : (q.revision host p).node = (p, q.key) := rfl
    by_cases hq : (p, q.key) = id <;> simp [hnode, hq]
  rw [recorded, insertNodes, List.filter_append, hnew, recorded]

theorem inserted_edges (id : NodeId) : edgesOf (insertNodes host db p news) id = edgesOf db id ++
    news.flatMap (fun q => if (p, q.key) = id then q.edges p else []) := by
  have hnew : (news.flatMap (Prepared.edges p)).filter
      (fun e => decide (e.projectId = id.1 ∧ e.nodeKey = id.2)) =
      news.flatMap (fun q => if (p, q.key) = id then q.edges p else []) := by
    rw [List.filter_flatMap]
    congr 1
    funext q
    split_ifs with hq
    · apply List.filter_eq_self.mpr
      intro e he
      obtain ⟨d, _, rfl⟩ := List.mem_map.mp he
      simp [← hq]
    · rw [List.filter_eq_nil_iff]
      intro e he hid
      obtain ⟨d, _, rfl⟩ := List.mem_map.mp he
      exact hq (by simpa [Prod.ext_iff] using hid)
  rw [edgesOf, insertNodes, List.filter_append, hnew, edgesOf]

/-- A node that was there keeps its rows and edges; one of the batch gets the
first row and its own edges. -/
theorem insertNodes_historic {graph : Graph} {facets : Facets} (hdb : Historic host db) (hf : Facetted db)
    (hc : Collected db p (graph, facets, news)) : Historic host (insertNodes host db p news) := by
  constructor
  · intro d hd
    rw [insertNodes_history] at hd
    rcases List.mem_append.mp hd with hd | hd
    · have hid : d.id ∈ db.ids := ids_history ▸ List.mem_map_of_mem hd
      have hne : ∀ q ∈ news, (p, q.key) ≠ d.id := fun q hq he => hc.fresh q hq (he ▸ hid)
      have hnone : ∀ {β : Type} (f : Prepared → List β),
          news.flatMap (fun q => if (p, q.key) = d.id then f q else []) = [] := by
        intro β f
        rw [List.flatMap_eq_nil_iff]
        intro q hq
        exact if_neg (hne q hq)
      refine (hdb.nodes d hd).of_eq ?_ ?_
      · rw [inserted_rows, hnone, List.append_nil]
      · rw [depsOf_edgesOf, depsOf_edgesOf, inserted_edges, hnone, List.append_nil]
    · obtain ⟨q, hq, rfl⟩ := List.mem_map.mp hd
      have honly : ∀ {β : Type} (f : Prepared → List β),
          news.flatMap (fun r => if (p, r.key) = (p, q.key) then f r else []) = f q := by
        intro β f
        rw [flatMap_of_key hc.distinct hq (fun r _ hr => if_neg (by simpa using hr)), if_pos rfl]
      have hrows : recorded db (p, q.key) = [] := by
        rw [recorded, List.filter_eq_nil_iff]
        intro r hr he
        exact hc.fresh q hq (of_decide_eq_true he ▸ hdb.rooted r hr)
      have hedges : edgesOf db (p, q.key) = [] := by
        rw [edgesOf, List.filter_eq_nil_iff]
        intro e he hid
        have hid' : (e.projectId, e.nodeKey) = (p, q.key) := by simpa [Prod.ext_iff] using hid
        exact hc.fresh q hq (hid' ▸ hf.rooted e he)
      have hrecorded : recorded (insertNodes host db p news) (p, q.key) = [q.revision host p] := by
        rw [inserted_rows, honly, hrows, List.nil_append]
      have hdeps : depsOf (insertNodes host db p news) p q.key = q.deps := by
        rw [depsOf_edgesOf, inserted_edges, honly, hedges, List.nil_append, Prepared.edges, List.map_map]
        exact (congrArg sortKeys (List.map_id q.deps)).trans (hc.ordered q hq)
      refine ⟨?_, ?_, rfl⟩
      · change (recorded _ (p, q.key)).map _ = _
        rw [hrecorded]
        rfl
      · change (recorded _ (p, q.key)).getLast? = some (Draft.row _ (depsOf _ p q.key))
        rw [hrecorded, hdeps]
        rfl
  · intro r hr
    rw [insertNodes_ids, List.mem_append]
    rcases List.mem_append.mp hr with hr | hr
    · exact .inl (hdb.rooted r hr)
    · obtain ⟨q, hq, rfl⟩ := List.mem_map.mp hr
      exact .inr (List.mem_map.mpr ⟨q, hq, rfl⟩)

theorem add_continued {specs : List NodeSpec} {keys : List String} (hdb : Historic host db) (hf : Facetted db)
    (h : add host db p specs = .ok (keys, db')) : Continued host db db' := by
  obtain ⟨graph, facets, news, hc, _, _, rfl⟩ := add_collected h
  exact ⟨insertNodes_historic hdb hf hc, List.prefix_append _ _⟩

end Add

section Revise
variable {rev : Int} {reason : String} {goal : Option String} {acceptance : Option (List CheckSpec)}
  {deps : Option (List String)} {c : NodeChange} {old : Node} {own : List String} {newGoal : String}
  {checks : List Check}

theorem revised_history (h : Revised host db db' p k rev goal acceptance deps c old own newGoal checks) :
    db'.history = (db.history.1.map (fun d => if d.id = (p, k) then (revisedNode host old newGoal checks).draft else d),
      db.revisions ++ [revisionRow (revisedNode host old newGoal checks) own]) := by
  have hid : old.id = (p, k) := node_id h.node
  obtain ⟨e, rfl⟩ := h.written
  refine Prod.ext ?_ rfl
  have hinv : (invalidate db p k).history.1 = db.history.1 := map_modifyWhere (fun _ _ => by rfl) db.nodes
  rw [← hinv]
  simp only [DB.history, writeRevision, DB.setNode, modifyWhere, List.map_map]
  apply List.map_congr_left
  intro n _
  by_cases hn : n.id = (p, k)
  · have hold : (n.projectId, n.nodeKey) = (old.projectId, old.nodeKey) := hn.trans hid.symm
    simp [Node.draft, hn, revisedNode]
    exact hold
  · simp [Node.draft, hn]

/-- The node's own edges are replaced, no other node's. -/
theorem revised_edges (h : Revised host db db' p k rev goal acceptance deps c old own newGoal checks) :
    edgesOf db' (p, k) = own.map (fun d => ⟨p, k, d⟩) ∧ ∀ id, id ≠ (p, k) → edgesOf db' id = edgesOf db id := by
  have hdeps : db'.dependencies = _ := congrArg Prod.snd (revised_shape h)
  constructor
  · have hold : (db.dependencies.filter (fun e => decide (¬ (e.projectId = p ∧ e.nodeKey = k)))).filter
        (fun e => decide (e.projectId = p ∧ e.nodeKey = k)) = [] := by
      rw [List.filter_filter, List.filter_eq_nil_iff]
      intro e _
      simp
    rw [edgesOf, hdeps, List.filter_append, hold, List.nil_append]
    apply List.filter_eq_self.mpr
    intro e he
    obtain ⟨d, _, rfl⟩ := List.mem_map.mp he
    simp
  · intro id hid
    have hnew : (own.map (fun d => (⟨p, k, d⟩ : Dependency))).filter
        (fun e => decide (e.projectId = id.1 ∧ e.nodeKey = id.2)) = [] := by
      rw [List.filter_eq_nil_iff]
      intro e he hin
      obtain ⟨d, _, rfl⟩ := List.mem_map.mp he
      have hin := of_decide_eq_true hin
      exact hid (Prod.ext hin.1.symm hin.2.symm)
    rw [edgesOf, hdeps, List.filter_append, hnew, List.append_nil, List.filter_filter, edgesOf]
    apply List.filter_congr
    intro e _
    by_cases he : e.projectId = id.1 ∧ e.nodeKey = id.2
    · have hne : ¬ (id.1 = p ∧ id.2 = k) := fun hc => hid (Prod.ext hc.1 hc.2)
      simp [he, hne]
    · simp [he]

theorem revised_ordered (h : Revised host db db' p k rev goal acceptance deps c old own newGoal checks) :
    sortKeys own = own := by
  have hwired := h.wired
  cases deps with
  | none =>
    simp only [given, Except.ok.injEq] at hwired
    rw [← hwired]
    exact sortKeys_sortKeys _
  | some value => exact dependencies_ordered hwired

theorem revise_historic (hdb : Historic host db)
    (h : revise host db p k rev reason goal acceptance deps = .ok (c, db')) : Historic host db' := by
  obtain ⟨old, own, newGoal, checks, hr⟩ := revise_ok h
  have hhist := revised_history hr
  have hrows : db'.revisions = _ := congrArg Prod.snd hhist
  obtain ⟨hown, hothers⟩ := revised_edges hr
  have hid : old.id = (p, k) := node_id hr.node
  have hrow : (revisionRow (revisedNode host old newGoal checks) own).node = (p, k) := hid
  have hids : db'.ids = db.ids := by
    rw [ids_history, hhist, ids_history, List.map_map]
    apply List.map_congr_left
    intro d _
    by_cases hd : d.id = (p, k)
    · simp [hd, Node.draft, ← hid, revisedNode, Node.id]
    · simp [hd]
  refine ⟨?_, ?_⟩
  · intro d hd
    rw [hhist] at hd
    obtain ⟨d₀, hd₀, rfl⟩ := List.mem_map.mp hd
    by_cases hk : d₀.id = (p, k)
    · have hmem : old.draft ∈ db.history.1 := List.mem_map_of_mem (List.mem_of_find?_eq_some hr.node)
      have hold := hdb.nodes old.draft hmem
      have hrecorded : recorded db' (p, k) = recorded db (p, k) ++
          [revisionRow (revisedNode host old newGoal checks) own] := by
        rw [recorded, hrows, List.filter_append, recorded]
        simp [hrow]
      have hdeps : depsOf db' p k = own := by
        rw [depsOf_edgesOf, hown, List.map_map]
        exact (congrArg sortKeys (List.map_id own)).trans (revised_ordered hr)
      have hnew : (revisedNode host old newGoal checks).draft.id = (p, k) := hid
      have hnumbered := hold.numbered
      rw [show old.draft.id = (p, k) from hid] at hnumbered
      simp only [hk, if_true]
      refine ⟨?_, ?_, rfl⟩
      · rw [hnew, hrecorded, List.map_append, hnumbered]
        simp [revisionRow, revisedNode, Node.draft, List.range'_concat, Nat.add_comm]
      · rw [hnew, hrecorded, hdeps, List.getLast?_concat]
        rfl
    · simp only [hk, if_false]
      refine (hdb.nodes d₀ hd₀).of_eq ?_ ?_
      · have hne : (p, k) ≠ d₀.id := fun he => hk he.symm
        rw [recorded, hrows, List.filter_append, recorded]
        simp [hrow, hne]
      · rw [depsOf_edgesOf, depsOf_edgesOf, hothers _ hk]
  · intro r hmem
    rw [hids]
    rw [hrows] at hmem
    rcases List.mem_append.mp hmem with hmem | hmem
    · exact hdb.rooted r hmem
    · rw [List.mem_singleton.mp hmem, hrow]
      exact mem_ids hr.node

theorem revise_continued (hdb : Historic host db)
    (h : revise host db p k rev reason goal acceptance deps = .ok (c, db')) : Continued host db db' := by
  obtain ⟨old, own, newGoal, checks, hr⟩ := revise_ok h
  have hrows : db'.revisions = _ := congrArg Prod.snd (revised_history hr)
  exact ⟨revise_historic hdb h, hrows ▸ List.prefix_append _ _⟩

theorem split_continued {children : List NodeSpec} (hdb : Historic host db) (hf : Facetted db)
    (h : split host db p k rev children reason = .ok (c, db')) : Continued host db db' := by
  simp only [split, bind_ok, pure_ok, Prod.mk.injEq] at h
  obtain ⟨_, _, ⟨keys, db₁⟩, hadd, ⟨c', db₂⟩, hrev, _, rfl⟩ := h
  have hadded := add_continued hdb hf hadd
  have hrevised := revise_continued hadded.historic hrev
  exact ⟨hrevised.historic, hadded.rows.trans hrevised.rows⟩

theorem importTasks_continued {source : String} {tasks : List LegacyTask} {keys : List String}
    (hdb : Historic host db) (hf : Facetted db)
    (h : importTasks host db p source tasks = .ok (keys, db')) : Continued host db db' := by
  simp only [importTasks, bind_ok, pure_ok, Prod.mk.injEq] at h
  obtain ⟨_, _, _, _, _, _, specs, _, ⟨created, db₁⟩, hadd, _, rfl⟩ := h
  have hstatus : Leaves [] db₁ (tasks.foldl (fun db task => legacyStatus db p source task) db₁) :=
    Leaves.foldl (fun d task => legacyStatus_leaves d source task) db₁ tasks
  exact (add_continued hdb hf hadd).then (hstatus.history (by simp))
    (congrArg Prod.snd (hstatus.shape (by simp)))

theorem setFacet_continued {facet : String} (hdb : Historic host db)
    (h : setFacet db p k facet = .ok (c, db')) : Continued host db db' := by
  refine Continued.of_history hdb ((setFacet_leaves h).history (by simp)) ?_
  simp only [setFacet, bind_ok, pure_ok, ite_ok, Prod.mk.injEq] at h
  obtain ⟨_, _, _, _, ⟨_, _, rfl⟩ | ⟨_, _, _, _, _, _, rfl⟩⟩ := h
  · rfl
  · rfl

end Revise

section Unagreed
variable {rev : Int} {reason : String} {goal : Option String} {deps : Option (List String)} {c : NodeChange}

theorem node?_draft (db : DB) (id : NodeId) :
    (db.node? id).map Node.draft = db.history.1.find? (fun d => decide (d.id = id)) := by
  rw [DB.history, List.find?_map]
  rfl

/-- The node as it stood and as it stands: one revision later, under the
contract it had. -/
def SameContract (db db' : DB) (id : NodeId) : Prop :=
  ∃ n n', db.node? id = some n ∧ db'.node? id = some n' ∧ n'.revision = n.revision + 1 ∧
    n'.contract = n.contract ∧ n'.contractHash = n.contractHash

theorem revise_unagreed (hdb : Historic host db)
    (h : revise host db p k rev reason goal none deps = .ok (c, db')) : SameContract db db' (p, k) := by
  obtain ⟨old, own, newGoal, checks, hr⟩ := revise_ok h
  have hchecks : old.contract = checks := by simpa [given] using hr.agreed
  have hhash : old.contractHash = contractDigest host checks := by
    have hmem : old.draft ∈ db.history.1 := List.mem_map_of_mem (List.mem_of_find?_eq_some hr.node)
    rw [← hchecks]
    exact (hdb.nodes old.draft hmem).hashed
  have hid : old.id = (p, k) := node_id hr.node
  have hstands : (db'.node? (p, k)).map Node.draft = some (revisedNode host old newGoal checks).draft := by
    have hsame : (fun d : Draft => decide (d.id = (p, k))) ∘
        (fun d => if d.id = (p, k) then (revisedNode host old newGoal checks).draft else d) =
        fun d => decide (d.id = (p, k)) := by
      funext d
      have hnew : (revisedNode host old newGoal checks).draft.id = (p, k) := hid
      by_cases hd : d.id = (p, k) <;> simp [hd, hnew]
    have hfound : db.history.1.find? (fun d => decide (d.id = (p, k))) = some old.draft := by
      rw [← node?_draft, hr.node]
      rfl
    rw [node?_draft, revised_history hr, List.find?_map, hsame, hfound]
    exact congrArg some (if_pos hid)
  obtain ⟨n', hn', hdraft⟩ := Option.map_eq_some_iff.mp hstands
  refine ⟨old, n', hr.node, hn', congrArg Draft.revision hdraft, ?_, ?_⟩
  · rw [hchecks]
    exact congrArg Draft.contract hdraft
  · rw [hhash]
    exact congrArg Draft.contractHash hdraft

theorem add_node {specs : List NodeSpec} {keys : List String} {n : Node}
    (h : add host db p specs = .ok (keys, db')) (hn : db.node? id = some n) : db'.node? id = some n := by
  obtain ⟨graph, facets, news, _, _, _, rfl⟩ := add_collected h
  change (db.nodes ++ _).find? _ = some n
  rw [List.find?_append, show db.nodes.find? (fun n => decide (n.id = id)) = some n from hn]
  rfl

theorem split_unagreed {children : List NodeSpec} (hdb : Historic host db) (hf : Facetted db)
    (h : split host db p k rev children reason = .ok (c, db')) : SameContract db db' (p, k) := by
  simp only [split, bind_ok, pure_ok, Prod.mk.injEq] at h
  obtain ⟨old, hold, ⟨keys, db₁⟩, hadd, ⟨c', db₂⟩, hrev, _, rfl⟩ := h
  have hkept := add_node hadd (nodeOf_ok hold)
  obtain ⟨n, n', hn, hrest⟩ := revise_unagreed (add_continued hdb hf hadd).historic hrev
  have hsame : n = old := Option.some.inj (hn.symm.trans hkept)
  exact ⟨n, n', hsame ▸ nodeOf_ok hold, hrest⟩

end Unagreed

section Runs
variable {reply : Reply} {ops : List Op}

theorem Request.continued {r : Request} (hdb : Historic host db) (hf : Facetted db)
    (h : r.run host db = .ok (reply, db')) : Continued host db db' := by
  by_cases hw : .history ∈ r.writes ∨ .shape ∈ r.writes
  · cases r with
    | addNodes p specs =>
      obtain ⟨_, h⟩ := answer_ok h
      exact add_continued hdb hf h
    | reviseNode caller p k revision reason goal acceptance deps =>
      obtain ⟨_, db₁, hx, hlog⟩ := structuralBy_leaves h
      exact (revise_continued hdb hx).then ((hlog []).history (by simp)) (congrArg Prod.snd ((hlog []).shape (by simp)))
    | splitNode caller p k revision children reason =>
      obtain ⟨_, db₁, hx, hlog⟩ := structuralBy_leaves h
      exact (split_continued hdb hf hx).then ((hlog []).history (by simp))
        (congrArg Prod.snd ((hlog []).shape (by simp)))
    | setNodeFacet caller p k facet =>
      obtain ⟨_, db₁, hx, hlog⟩ := structuralBy_leaves h
      exact (setFacet_continued hdb hx).then ((hlog []).history (by simp))
        (congrArg Prod.snd ((hlog []).shape (by simp)))
    | importTasks p source tasks =>
      obtain ⟨_, h⟩ := answer_ok h
      exact importTasks_continued hdb hf h
    | bindNode p actor k revision baselineId bindings reason =>
      obtain ⟨_, h⟩ := answer_ok h
      obtain ⟨db₁, row, e, hrev, rfl⟩ := bindNode_ok h
      exact (revise_continued hdb hrev).then rfl rfl
    | _ => simp [Request.writes] at hw
  · obtain ⟨hhistory, hshape⟩ := not_or.mp hw
    exact Continued.of_history hdb ((Request.leaves h).history hhistory)
      (congrArg Prod.snd ((Request.leaves h).shape hshape))

theorem Call.continued {c : Call} {now : Stamp} (hdb : Historic host db)
    (h : c.run host db now = .ok (reply, db')) : Continued host db db' := by
  refine Continued.of_history hdb ((Call.leaves h).history ?_) (congrArg Prod.snd ((Call.leaves h).shape ?_))
  · cases c <;> simp [Call.writes]
  · cases c <;> simp [Call.writes]

theorem next_continued (host : Host) (s : Sys) (op : Op) (hs : Historic host s.db) (hf : Facetted s.db) :
    Continued host s.db (next host s op).db := by
  rcases next_db host s op with he | ⟨r | ⟨call, now⟩, reply, h⟩
  · rw [he]
    exact Continued.of_history hs rfl rfl
  · exact Request.continued hs hf h
  · exact Call.continued hs h

theorem after_historic (host : Host) (ops : List Op) : Historic host (after host ops).db := by
  induction ops using List.reverseRecOn with
  | nil => exact ⟨fun d hd => (by cases hd), fun r hr => (by cases hr)⟩
  | append_singleton ops op ih =>
    rw [after_append]
    exact (next_continued host _ op ih (after_facetted host ops)).historic

/-- Rows are only ever added. -/
theorem after_revisions (host : Host) (ops more : List Op) :
    (after host ops).db.revisions <+: (after host (ops ++ more)).db.revisions := by
  induction more using List.reverseRecOn with
  | nil => simp
  | append_singleton more op ih =>
    rw [← List.append_assoc, after_append]
    exact ih.trans (next_continued host _ op (after_historic host _) (after_facetted host _)).rows

end Runs

section Contracts

/-- `contract_json`, the column a contract is stored in. -/
def contractJson (checks : List Check) : String := canonical (.arr (checks.map Check.toJson))

theorem distinct_checks (checks : List Check) : Json.DistinctItems (checks.map Check.toJson) := by
  induction checks with
  | nil => trivial
  | cons c checks ih =>
    refine ⟨⟨?_, trivial, trivial, trivial, trivial⟩, ih⟩
    change ["id", "kind", "description"].Nodup
    decide

theorem contractJson_loads (checks : List Check) : ∃ j, Json.loads (contractJson checks) = some j ∧
    canonical j = contractJson checks ∧ host.digest j = contractDigest host checks := by
  obtain ⟨hloads, htext⟩ := Json.loads_canonical (j := .arr (checks.map Check.toJson)) (distinct_checks checks)
  refine ⟨_, hloads, htext, ?_⟩
  rw [contractDigest, Host.digest, Host.digest, htext]

end Contracts

/-- The node that a request revises without passing any acceptance. -/
def Request.revises : Request → Option NodeId
  | .reviseNode _ p k _ _ _ none _ => some (p, k)
  | .splitNode _ p k .. => some (p, k)
  | .bindNode p _ k .. => some (p, k)
  | _ => none

theorem Request.unagreed {r : Request} {reply : Reply} (hdb : Historic host db) (hf : Facetted db)
    (hr : r.revises = some id) (h : r.run host db = .ok (reply, db')) : SameContract db db' id := by
  have hkept : ∀ {db₁ : DB}, (∀ ps, Leaves ps db₁ db') → SameContract db db₁ id → SameContract db db' id := by
    rintro db₁ hlog ⟨n, m, hn, hm, hrev, hcontract, hhash⟩
    have hm' : (db'.node? id).map Node.draft = some m.draft := by
      rw [node?_draft, (hlog []).history (by simp), ← node?_draft, hm]
      rfl
    obtain ⟨n', hn', hdraft⟩ := Option.map_eq_some_iff.mp hm'
    exact ⟨n, n', hn, hn', (congrArg Draft.revision hdraft).trans hrev,
      (congrArg Draft.contract hdraft).trans hcontract,
      (congrArg Draft.contractHash hdraft).trans hhash⟩
  cases r with
  | reviseNode caller p k revision reason goal acceptance deps =>
    cases acceptance with
    | some checks => cases hr
    | none =>
      cases hr
      obtain ⟨_, db₁, hx, hlog⟩ := structuralBy_leaves h
      exact hkept hlog (revise_unagreed hdb hx)
  | splitNode caller p k revision children reason =>
    cases hr
    obtain ⟨_, db₁, hx, hlog⟩ := structuralBy_leaves h
    exact hkept hlog (split_unagreed hdb hf hx)
  | bindNode p actor k revision baselineId bindings reason =>
    cases hr
    obtain ⟨_, h⟩ := answer_ok h
    obtain ⟨db₁, row, e, hrev, rfl⟩ := bindNode_ok h
    have hsame : SameContract db db₁ (p, k) := revise_unagreed hdb hrev
    exact hsame
  | _ => cases hr

/-- The history of one node: the rows are numbered 1..r, row r holds the node as
it stands, and the stored contract hashes to the stored hash when read back. -/
structure Complete (host : Host) (db : DB) (n : Node) : Prop where
  count : (recorded db n.id).length = n.revision
  numbers : (recorded db n.id).map Revision.revision = List.range' 1 n.revision
  current : ∀ r ∈ recorded db n.id, r.revision = n.revision →
    r.goal = n.goal ∧ r.contract = n.contract ∧ r.contractHash = n.contractHash ∧
      r.dependencies = depsOf db n.projectId n.nodeKey
  rehashed : ∃ j, Json.loads (contractJson n.contract) = some j ∧ canonical j = contractJson n.contract ∧
    host.digest j = n.contractHash

theorem Historic.complete (h : Historic host db) {n : Node} (hn : n ∈ db.nodes) : Complete host db n := by
  have hnode := h.nodes n.draft (List.mem_map_of_mem hn)
  have hnumbers : (recorded db n.id).map Revision.revision = List.range' 1 n.revision := hnode.numbered
  have hcount : (recorded db n.id).length = n.revision := by
    simpa using congrArg List.length hnumbers
  refine ⟨hcount, hnumbers, ?_, ?_⟩
  · intro r hr hrev
    -- the numbers are distinct, so the row of the node's revision is the last
    obtain ⟨rows, hrows⟩ := List.getLast?_eq_some_iff.mp hnode.current
    have hdistinct : ((recorded db n.id).map Revision.revision).Nodup := by
      rw [hnumbers]
      exact List.nodup_range'
    have hlast : n.draft.row (depsOf db n.id.1 n.id.2) ∈ recorded db n.id := by
      rw [show recorded db n.id = _ from hrows]
      simp [Node.draft]
    have he := List.inj_on_of_nodup_map hdistinct hr hlast hrev
    subst he
    exact ⟨rfl, rfl, rfl, rfl⟩
  · have hread : ∃ j, Json.loads (contractJson n.contract) = some j ∧
        canonical j = contractJson n.contract ∧ host.digest j = contractDigest host n.contract :=
      contractJson_loads n.contract
    obtain ⟨j, hloads, htext, hdigest⟩ := hread
    exact ⟨j, hloads, htext, hdigest.trans hnode.hashed.symm⟩

/-- In every state a run reaches, every node's revisions are recorded in full and
no later step changes a recorded row; a revision that passes no acceptance, one
by design binding too, keeps the contract and its hash. -/
theorem revisions_complete (host : Host) (ops more : List Op) :
    (∀ n ∈ (after host ops).db.nodes, Complete host (after host ops).db n) ∧
      (after host ops).db.revisions <+: (after host (ops ++ more)).db.revisions ∧
      ∀ (r : Request) (id : NodeId) (reply : Reply) (db' : DB), r.revises = some id →
        r.run host (after host ops).db = .ok (reply, db') → SameContract (after host ops).db db' id := by
  have hdb := after_historic host ops
  refine ⟨fun n hn => hdb.complete hn, after_revisions host ops more, ?_⟩
  intro r id reply db' hr h
  exact Request.unagreed hdb (after_facetted host ops) hr h

end AItelier.State
