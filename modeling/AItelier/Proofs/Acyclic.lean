import AItelier.Refine.Dag
import AItelier.Proofs.Facets

namespace AItelier.State

open AItelier.Lib

variable {db db' : DB} {host : Host} {p k d : String} {g g' : Graph}

/-- Soundness reads the keys and the dependencies as sets. -/
theorem Graph.Sound.congr (h : g.Sound) (hg : g.keys.Nodup) (hkeys : g.keys = g'.keys)
    (hdeps : ∀ k d, d ∈ depsIn g k ↔ d ∈ depsIn g' k) : g'.Sound := by
  have hg' : g'.keys.Nodup := hkeys ▸ hg
  have hedge : g'.Edge = g.Edge := by
    funext k d
    rw [eq_iff_iff, edge_iff hg', edge_iff hg, hkeys, hdeps]
  refine ⟨?_, ?_, by rw [hedge]; exact h.acyclic⟩
  · have hlen : g.keys.length = g'.keys.length := by rw [hkeys]
    simp only [Graph.keys, List.length_map] at hlen
    rw [← hlen]
    exact h.small
  · intro e he d hd
    have hin : g'.Edge e.1 d := ⟨e, he, rfl, hd⟩
    rw [hedge] at hin
    obtain ⟨x, hx, _, hd⟩ := hin
    rw [← hkeys]
    exact h.known x hx d hd

/-- Each node is stored once, each edge is stored once, and every project's graph
is sound. -/
structure Wired (db : DB) : Prop where
  ids : db.ids.Nodup
  edges : db.dependencies.Nodup
  sound : ∀ p, (graphOf db p).Sound

theorem keys_nodup (h : db.ids.Nodup) (p : String) : (graphOf db p).keys.Nodup := by
  have hkeys : (graphOf db p).keys = (projectNodes db p).map Node.nodeKey := by
    simp [Graph.keys, graphOf]
  have hids : ((projectNodes db p).map Node.id).Nodup := (List.filter_sublist.map Node.id).nodup h
  have hpair : (projectNodes db p).map Node.id = ((projectNodes db p).map Node.nodeKey).map (fun k => (p, k)) := by
    rw [List.map_map]
    refine List.map_congr_left (fun n hn => ?_)
    have hp : n.projectId = p := by simpa using (List.mem_filter.mp hn).2
    simp [Node.id, hp]
  rw [hpair] at hids
  rw [hkeys]
  exact hids.of_map _

theorem depsOf_nodup (h : db.dependencies.Nodup) (p k : String) : (depsOf db p k).Nodup := by
  refine (List.perm_insertionSort _ _).nodup_iff.mpr ?_
  refine (h.filter _).map_on ?_
  rintro ⟨p₁, k₁, d₁⟩ h₁ ⟨p₂, k₂, d₂⟩ h₂ hd
  simp only [List.mem_filter, decide_eq_true_eq] at h₁ h₂
  simp only [h₁.2.1, h₁.2.2, h₂.2.1, h₂.2.2, Dependency.mk.injEq, true_and]
  exact hd

section Steps

theorem Wired.of_shape (h : Wired db) (hs : db'.shape = db.shape) : Wired db' := by
  have hids : db'.ids = db.ids := by rw [ids_shape, ids_shape, hs]
  have hdeps : db'.dependencies = db.dependencies := congrArg Prod.snd hs
  refine ⟨hids ▸ h.ids, hdeps ▸ h.edges, fun p => ?_⟩
  have hkeys : ∀ d : DB, (graphOf d p).keys = (facetsOf d p).map Prod.fst := by
    intro d
    simp [Graph.keys, graphOf, facetsOf]
  refine (h.sound p).congr (keys_nodup h.ids p) ?_ ?_
  · rw [hkeys, hkeys, facetsOf_shape, facetsOf_shape, hs]
  · intro k d
    rw [mem_depsIn_graphOf, mem_depsIn_graphOf, hids, hdeps]

theorem Wired.of_rewired (h : Wired db) (hw : Rewired db db' p g) (hids : db'.ids.Nodup)
    (hedges : db'.dependencies.Nodup) (hdag : validateDag g = .ok ()) : Wired db' := by
  refine ⟨hids, hedges, fun q => ?_⟩
  by_cases hq : q = p
  · subst hq
    have hg : g.keys.Nodup := by
      have hk : g.keys = (graphOf db' q).keys := hw.keys
      rw [hk]
      exact keys_nodup hids q
    exact ((validateDag_iff hg).mp hdag).congr hg hw.keys hw.edges
  · have hkeys : ∀ d : DB, (graphOf d q).keys = (facetsOf d q).map Prod.fst := by
      intro d
      simp [Graph.keys, graphOf, facetsOf]
    refine (h.sound q).congr (keys_nodup h.ids q) ?_ (hw.others q hq)
    rw [hkeys, hkeys, hw.labels q hq]

theorem newEdges_nodup {news : List Prepared} (hkeys : (news.map Prepared.key).Nodup)
    (hlists : ∀ q ∈ news, q.deps.Nodup) : (news.flatMap (Prepared.edges p)).Nodup := by
  induction news with
  | nil => exact List.nodup_nil
  | cons q news ih =>
    rw [List.map_cons, List.nodup_cons] at hkeys
    rw [List.flatMap_cons, List.nodup_append]
    refine ⟨?_, ih hkeys.2 (fun r hr => hlists r (List.mem_cons_of_mem _ hr)), ?_⟩
    · refine (hlists q (List.mem_cons_self ..)).map ?_
      intro a b hab
      exact congrArg Dependency.dependencyKey hab
    · rintro e he e' he' rfl
      obtain ⟨d, _, rfl⟩ := List.mem_map.mp he
      obtain ⟨r, hr, d', _, hrow⟩ := mem_newEdges.mp he'
      refine hkeys.1 (List.mem_map.mpr ⟨r, hr, ?_⟩)
      exact (congrArg Dependency.nodeKey hrow).symm

theorem add_wired {specs : List NodeSpec} {keys : List String} (hf : Facetted db) (hdb : Wired db)
    (h : add host db p specs = .ok (keys, db')) : Wired db' := by
  obtain ⟨graph, facets, news, hc, hdag, _, rfl⟩ := add_collected h
  refine hdb.of_rewired (insertNodes_rewired hf hc) ?_ ?_ hdag
  · rw [insertNodes_ids, List.nodup_append]
    refine ⟨hdb.ids, ?_, ?_⟩
    · have hpairs : news.map (fun q => (p, q.key)) = (news.map Prepared.key).map (fun k => (p, k)) := by simp
      rw [hpairs]
      exact hc.distinct.map (fun a b hab => congrArg Prod.snd hab)
    · rintro i hi j hj rfl
      obtain ⟨q, hq, rfl⟩ := List.mem_map.mp hj
      exact hc.fresh q hq hi
  · change (db.dependencies ++ news.flatMap (Prepared.edges p)).Nodup
    rw [List.nodup_append]
    refine ⟨hdb.edges, newEdges_nodup hc.distinct hc.lists, ?_⟩
    rintro e he e' he' rfl
    -- an edge of the batch leaves a key that no stored edge leaves
    obtain ⟨q, hq, d, _, rfl⟩ := mem_newEdges.mp he'
    exact hc.fresh q hq (hf.rooted _ he)

theorem own_nodup {deps : Option (List String)} {own : List String} (hdb : Wired db)
    (h : given deps dependencies (depsOf db p k) = .ok own) : own.Nodup := by
  cases deps with
  | none =>
    cases h
    exact depsOf_nodup hdb.edges p k
  | some value => exact dependencies_nodup h

theorem revise_wired {rev : Int} {reason : String} {goal : Option String} {acceptance : Option (List CheckSpec)}
    {deps : Option (List String)} {c : NodeChange} (hf : Facetted db) (hdb : Wired db)
    (h : revise host db p k rev reason goal acceptance deps = .ok (c, db')) : Wired db' := by
  obtain ⟨old, own, newGoal, checks, hr⟩ := revise_ok h
  have hshape := revised_shape hr
  have hids : db'.ids = db.ids := by rw [ids_shape, hshape, ids_shape]
  have hdeps : db'.dependencies = _ := congrArg Prod.snd hshape
  refine hdb.of_rewired (revised_rewired hf hr).1 (hids ▸ hdb.ids) ?_ hr.dag
  rw [hdeps, List.nodup_append]
  refine ⟨hdb.edges.filter _, (own_nodup hdb hr.wired).map (fun a b hab => congrArg Dependency.dependencyKey hab), ?_⟩
  rintro e he e' he' rfl
  obtain ⟨d, _, rfl⟩ := List.mem_map.mp he'
  simp at he

theorem split_wired {rev : Int} {reason : String} {children : List NodeSpec} {c : NodeChange}
    (hf : Facetted db) (hdb : Wired db) (h : split host db p k rev children reason = .ok (c, db')) : Wired db' := by
  simp only [split, bind_ok, pure_ok, Prod.mk.injEq] at h
  obtain ⟨_, _, ⟨keys, db₁⟩, hadd, ⟨c', db₂⟩, hrev, _, rfl⟩ := h
  exact revise_wired (add_facetted hf hadd) (add_wired hf hdb hadd) hrev

theorem setFacet_wired {facet : String} {c : NodeChange} (hf : Facetted db) (hdb : Wired db)
    (h : setFacet db p k facet = .ok (c, db')) : Wired db' := by
  simp only [setFacet, bind_ok, pure_ok, ite_ok, Prod.mk.injEq] at h
  obtain ⟨label, _, node, _, ⟨_, _, rfl⟩ | ⟨_, _, _, _, _, _, rfl⟩⟩ := h
  · exact hdb
  · have hnext : Wired (db.setNode (p, k) (fun n => { n with facet := label })) := by
      have hids : (db.setNode (p, k) (fun n => { n with facet := label })).ids = db.ids := relabel_ids
      refine hdb.of_rewired (relabel_rewired hf) (hids ▸ hdb.ids) hdb.edges ?_
      exact (validateDag_iff (keys_nodup hdb.ids p)).mpr (hdb.sound p)
    exact hnext.of_shape rfl

theorem importTasks_wired {source : String} {tasks : List LegacyTask} {keys : List String} (hf : Facetted db)
    (hdb : Wired db) (h : importTasks host db p source tasks = .ok (keys, db')) : Wired db' := by
  simp only [importTasks, bind_ok, pure_ok, Prod.mk.injEq] at h
  obtain ⟨_, _, _, _, _, _, specs, _, ⟨created, db₁⟩, hadd, _, rfl⟩ := h
  have hstatus : Leaves [] db₁ (tasks.foldl (fun db task => legacyStatus db p source task) db₁) :=
    Leaves.foldl (fun d task => legacyStatus_leaves d source task) db₁ tasks
  exact (add_wired hf hdb hadd).of_shape (hstatus.shape (by simp))

end Steps

section Runs
variable {reply : Reply}

theorem Request.wired {r : Request} (hf : Facetted db) (hdb : Wired db) (h : r.run host db = .ok (reply, db')) :
    Wired db' := by
  by_cases hw : .shape ∈ r.writes
  · cases r with
    | addNodes p specs =>
      obtain ⟨_, h⟩ := answer_ok h
      exact add_wired hf hdb h
    | reviseNode caller p k revision reason goal acceptance deps =>
      obtain ⟨_, db₁, hx, hlog⟩ := structuralBy_leaves h
      exact (revise_wired hf hdb hx).of_shape ((hlog []).shape (by simp))
    | splitNode caller p k revision children reason =>
      obtain ⟨_, db₁, hx, hlog⟩ := structuralBy_leaves h
      exact (split_wired hf hdb hx).of_shape ((hlog []).shape (by simp))
    | setNodeFacet caller p k facet =>
      obtain ⟨_, db₁, hx, hlog⟩ := structuralBy_leaves h
      exact (setFacet_wired hf hdb hx).of_shape ((hlog []).shape (by simp))
    | importTasks p source tasks =>
      obtain ⟨_, h⟩ := answer_ok h
      exact importTasks_wired hf hdb h
    | bindNode p actor k revision baselineId bindings reason =>
      obtain ⟨_, h⟩ := answer_ok h
      obtain ⟨db₁, row, e, hrev, rfl⟩ := bindNode_ok h
      exact (revise_wired hf hdb hrev).of_shape rfl
    | _ => simp [Request.writes] at hw
  · exact hdb.of_shape ((Request.leaves h).shape hw)

theorem next_wired (host : Host) (s : Sys) (op : Op) (hf : Facetted s.db) (hs : Wired s.db) :
    Wired (next host s op).db := by
  rcases next_db host s op with he | ⟨r | ⟨call, now⟩, reply, h⟩
  · rwa [he]
  · exact Request.wired hf hs h
  · refine hs.of_shape ((Call.leaves h).shape ?_)
    cases call <;> simp [Call.writes]

theorem after_wired (host : Host) (ops : List Op) : Wired (after host ops).db := by
  have hfree : Along (fun _ _ => True) (next host) Sys.init ops := along_of (fun _ _ => trivial) Sys.init ops
  have hboth : Facetted (after host ops).db ∧ Wired (after host ops).db := by
    refine run_invariant (I := fun s => Facetted s.db ∧ Wired s.db) ?_ ?_ hfree
    · rintro s op ⟨hf, hs⟩ _
      exact ⟨next_facetted host s op hf, next_wired host s op hf hs⟩
    · refine ⟨after_facetted host [], List.nodup_nil, List.nodup_nil, fun p => ?_⟩
      exact (validateDag_iff (g := []) List.nodup_nil).mp rfl
  exact hboth.2

end Runs

/-- `_validate_dag` accepts exactly the bounded graphs whose dependencies are
nodes and in which no node reaches itself, and the stored graph of every project
is one of them in every state a run reaches. -/
theorem dag_exact (host : Host) :
    (∀ g : Graph, (g.map Prod.fst).Nodup → (∀ e ∈ g, e.2.Nodup) →
      (validateDag g = .ok () ↔ g.length ≤ 1000 ∧ (∀ e ∈ g, ∀ d ∈ e.2, d ∈ g.map Prod.fst) ∧
        ∀ k, ¬ Relation.TransGen g.Edge k k)) ∧
    ∀ (ops : List Op) (p : String),
      ((graphOf (after host ops).db p).map Prod.fst).Nodup ∧ (∀ e ∈ graphOf (after host ops).db p, e.2.Nodup) ∧
      (graphOf (after host ops).db p).length ≤ 1000 ∧
      (∀ e ∈ graphOf (after host ops).db p, ∀ d ∈ e.2, d ∈ (graphOf (after host ops).db p).map Prod.fst) ∧
      ∀ k, ¬ Relation.TransGen (graphOf (after host ops).db p).Edge k k := by
  constructor
  · intro g hg _
    rw [validateDag_iff hg]
    exact ⟨fun h => ⟨h.small, h.known, h.acyclic⟩, fun h => ⟨h.1, h.2.1, h.2.2⟩⟩
  · intro ops p
    have hdb := after_wired host ops
    refine ⟨keys_nodup hdb.ids p, ?_, (hdb.sound p).small, (hdb.sound p).known, (hdb.sound p).acyclic⟩
    intro e he
    obtain ⟨n, _, rfl⟩ := List.mem_map.mp he
    exact depsOf_nodup hdb.edges p n.nodeKey

end AItelier.State
