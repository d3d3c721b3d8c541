import Mathlib.Data.List.Dedup
import AItelier.Refine.Parts
import AItelier.Proofs.Closure

namespace AItelier.State

open AItelier.Lib

variable {db db' : DB} {host : Host} {p k d : String} {facets : Facets} {g g' : Graph} {own : Facet}

section Rules

/-- The rules of one labelled node. -/
structure Legal (facets : Facets) (graph : Graph) (node : String) (own : Facet) : Prop where
  suffix : suffixViolations node own = []
  edges : ∀ d ∈ depsIn graph node, edgeViolation facets node own d = none
  siblings : siblingViolations facets node own (depsIn graph node) = []

theorem facetViolations_nil :
    facetViolations facets g = [] ↔ ∀ k own, (k, some own) ∈ facets → Legal facets g k own := by
  simp only [facetViolations, List.flatMap_eq_nil_iff]
  constructor
  · intro h k own hk
    have hnone := h (k, some own) hk
    simp only [List.append_eq_nil_iff, List.filterMap_eq_nil_iff, mem_sortKeys, List.mem_dedup] at hnone
    exact ⟨hnone.1.1, hnone.1.2, hnone.2⟩
  · rintro h ⟨k, label⟩ hk
    cases label with
    | none => rfl
    | some own =>
      have hl := h k own hk
      simp only [List.append_eq_nil_iff, List.filterMap_eq_nil_iff, mem_sortKeys, List.mem_dedup]
      exact ⟨⟨hl.suffix, hl.edges⟩, hl.siblings⟩

theorem siblingViolations_congr {ds es : List String} (h : ∀ d, d ∈ ds ↔ d ∈ es) :
    siblingViolations facets k own ds = siblingViolations facets k own es := by
  simp only [siblingViolations, h]

theorem facetViolations_congr (h : ∀ k d, d ∈ depsIn g k ↔ d ∈ depsIn g' k) :
    facetViolations facets g = [] ↔ facetViolations facets g' = [] := by
  have hlegal : ∀ k own, Legal facets g k own ↔ Legal facets g' k own := by
    intro k own
    constructor
    · rintro ⟨hs, he, hb⟩
      exact ⟨hs, fun d hd => he d ((h k d).mpr hd), siblingViolations_congr (h k) ▸ hb⟩
    · rintro ⟨hs, he, hb⟩
      exact ⟨hs, fun d hd => he d ((h k d).mp hd), siblingViolations_congr (h k) ▸ hb⟩
  simp only [facetViolations_nil, hlegal]

theorem checkFacets_ok {u : Unit} (h : checkFacets facets g = .ok u) : facetViolations facets g = [] := by
  simp only [checkFacets, ensure_ok] at h
  exact h

end Rules

section Reads

theorem depsIn_append : depsIn (g ++ g') k = if k ∈ g.map Prod.fst then depsIn g k else depsIn g' k := by
  unfold depsIn
  rw [List.find?_append]
  split_ifs with hk
  · obtain ⟨e, he, rfl⟩ := List.mem_map.mp hk
    have hsome : (g.find? (fun x => decide (x.1 = e.1))).isSome :=
      List.find?_isSome.mpr ⟨e, he, by simp⟩
    obtain ⟨x, hx⟩ := Option.isSome_iff_exists.mp hsome
    rw [hx]
    rfl
  · have hnone : g.find? (fun x => decide (x.1 = k)) = none := by
      rw [List.find?_eq_none]
      intro e he hek
      exact hk (List.mem_map.mpr ⟨e, he, by simpa using hek⟩)
    rw [hnone]
    rfl

theorem depsIn_map {keys : List String} {f : String → List String} :
    depsIn (keys.map (fun k => (k, f k))) k = if k ∈ keys then f k else [] := by
  unfold depsIn
  induction keys with
  | nil => rfl
  | cons j keys ih =>
    by_cases hj : j = k
    · simp [hj]
    · have hj' : k ≠ j := fun he => hj he.symm
      simpa [hj, hj'] using ih

theorem graphOf_eq : graphOf db p = ((projectNodes db p).map Node.nodeKey).map (fun k => (k, depsOf db p k)) := by
  simp [graphOf]

theorem mem_projectKeys : k ∈ (projectNodes db p).map Node.nodeKey ↔ (p, k) ∈ db.ids := by
  simp only [projectNodes, DB.ids, List.mem_map, List.mem_filter, decide_eq_true_eq, Node.id, Prod.mk.injEq]
  constructor
  · rintro ⟨n, ⟨hn, hp⟩, hk⟩
    exact ⟨n, hn, hp, hk⟩
  · rintro ⟨n, hn, hp, hk⟩
    exact ⟨n, ⟨hn, hp⟩, hk⟩

theorem mem_depsOf : d ∈ depsOf db p k ↔ ⟨p, k, d⟩ ∈ db.dependencies := by
  simp only [depsOf, mem_sortKeys, List.mem_map, List.mem_filter, decide_eq_true_eq]
  constructor
  · rintro ⟨e, ⟨he, hp, hk⟩, hd⟩
    obtain ⟨ep, ek, ed⟩ := e
    simp only at hp hk hd
    rwa [hp, hk, hd] at he
  · intro h
    exact ⟨_, ⟨h, rfl, rfl⟩, rfl⟩

theorem mem_depsIn_graphOf : d ∈ depsIn (graphOf db p) k ↔ (p, k) ∈ db.ids ∧ ⟨p, k, d⟩ ∈ db.dependencies := by
  rw [graphOf_eq, depsIn_map, ← mem_projectKeys, ← mem_depsOf]
  split_ifs with hk
  · simp [hk]
  · simp [hk]

theorem facetsOf_shape : facetsOf db p = (db.shape.1.filter (fun x => decide (x.1.1 = p))).map
    (fun x => (x.1.2, x.2)) := by
  simp only [facetsOf, projectNodes, DB.shape, List.filter_map, List.map_map]
  rfl

theorem ids_shape : db.ids = db.shape.1.map Prod.fst := by
  simp [DB.ids, DB.shape, Function.comp_def]

theorem facetOf_facetsOf : facetOf (facetsOf db p) d = (db.node? (p, d)).bind Node.facet := by
  have hid : ∀ n : Node, (n.projectId = p ∧ n.nodeKey = d) ↔ n.id = (p, d) := by
    intro n
    simp [Node.id]
  simp only [facetOf, facetsOf, projectNodes, DB.node?, lookup, List.find?_map, List.find?_filter,
    Function.comp_def, decide_eq_true_eq, hid, Option.map_map]
  cases db.nodes.find? (fun n => decide (n.id = (p, d))) <;> rfl

theorem mem_facetsOf {n : Node} (h : db.node? (p, k) = some n) : (k, n.facet) ∈ facetsOf db p := by
  have hid : n.id = (p, k) := node_id h
  simp only [Node.id, Prod.mk.injEq] at hid
  refine List.mem_map.mpr ⟨n, ?_, by rw [hid.2]⟩
  exact List.mem_filter.mpr ⟨List.mem_of_find?_eq_some h, by simp [hid.1]⟩

end Reads

/-- The labels and edges of every project keep the rules, and no edge leaves a
node that does not exist. -/
structure Facetted (db : DB) : Prop where
  rooted : ∀ e ∈ db.dependencies, (e.projectId, e.nodeKey) ∈ db.ids
  legal : ∀ p, facetViolations (facetsOf db p) (graphOf db p) = []

section Steps

/-- The rules read the labels and edges only. -/
theorem Facetted.of_shape (h : Facetted db) (hs : db'.shape = db.shape) : Facetted db' := by
  have hids : db'.ids = db.ids := by rw [ids_shape, ids_shape, hs]
  have hdeps : db'.dependencies = db.dependencies := congrArg Prod.snd hs
  refine ⟨by rw [hdeps, hids]; exact h.rooted, fun p => ?_⟩
  have hg : ∀ k d, d ∈ depsIn (graphOf db p) k ↔ d ∈ depsIn (graphOf db' p) k := by
    intro k d
    rw [mem_depsIn_graphOf, mem_depsIn_graphOf, hids, hdeps]
  rw [facetsOf_shape, hs, ← facetsOf_shape]
  exact (facetViolations_congr hg).mp (h.legal p)

/-- A write of one project's nodes and edges: `g` is the graph the project has
afterwards, and the other projects keep theirs. -/
structure Rewired (db db' : DB) (p : String) (g : Graph) : Prop where
  rooted : ∀ e ∈ db'.dependencies, (e.projectId, e.nodeKey) ∈ db'.ids
  keys : g.map Prod.fst = (graphOf db' p).map Prod.fst
  edges : ∀ k d, d ∈ depsIn g k ↔ d ∈ depsIn (graphOf db' p) k
  labels : ∀ q, q ≠ p → facetsOf db' q = facetsOf db q
  others : ∀ q, q ≠ p → ∀ k d, d ∈ depsIn (graphOf db q) k ↔ d ∈ depsIn (graphOf db' q) k

theorem Facetted.of_checked (h : Facetted db) (hw : Rewired db db' p g)
    (hchecked : facetViolations (facetsOf db' p) g = []) : Facetted db' := by
  refine ⟨hw.rooted, fun q => ?_⟩
  by_cases hq : q = p
  · subst hq
    exact (facetViolations_congr hw.edges).mp hchecked
  · rw [hw.labels q hq]
    exact (facetViolations_congr (hw.others q hq)).mp (h.legal q)

/-- What the loop of `_add` collects beside the entries. -/
structure Collected (db : DB) (p : String) (acc : Graph × Facets × List Prepared) : Prop where
  graph : acc.1 = graphOf db p ++ acc.2.2.map (fun q => (q.key, q.deps))
  facets : acc.2.1 = facetsOf db p ++ acc.2.2.map (fun q => (q.key, q.facet))
  fresh : ∀ q ∈ acc.2.2, (p, q.key) ∉ db.ids
  distinct : (acc.2.2.map Prepared.key).Nodup
  lists : ∀ q ∈ acc.2.2, q.deps.Nodup
  ordered : ∀ q ∈ acc.2.2, sortKeys q.deps = q.deps

theorem mem_graphOf_ids : k ∈ (graphOf db p).map Prod.fst ↔ (p, k) ∈ db.ids := by
  rw [← mem_projectKeys, graphOf_eq, List.map_map]
  simp [Function.comp_def]

theorem dependencies_nodup {value deps : List String} (h : dependencies value = .ok deps) : deps.Nodup := by
  simp only [dependencies, bind_ok, pure_ok, ensure_ok] at h
  obtain ⟨_, _, keys, _, _, hkeys, rfl⟩ := h
  exact (List.perm_insertionSort _ keys).nodup_iff.mpr hkeys

theorem sortKeys_sortKeys (keys : List String) : sortKeys (sortKeys keys) = sortKeys keys := by
  have htotal : Std.Total (fun a b : String => a.toList ≤ b.toList) := ⟨fun a b => le_total a.toList b.toList⟩
  have htrans : IsTrans String (fun a b => a.toList ≤ b.toList) := ⟨fun _ _ _ => le_trans⟩
  exact (List.pairwise_insertionSort _ keys).insertionSort_eq

theorem dependencies_ordered {value deps : List String} (h : dependencies value = .ok deps) :
    sortKeys deps = deps := by
  simp only [dependencies, bind_ok, pure_ok, ensure_ok] at h
  obtain ⟨_, _, keys, _, _, _, rfl⟩ := h
  exact sortKeys_sortKeys keys

theorem prepareNode_collected {acc acc' : Graph × Facets × List Prepared} {spec : NodeSpec}
    (hc : Collected db p acc) (h : prepareNode db p acc spec = .ok acc') : Collected db p acc' := by
  simp only [prepareNode, bind_ok, pure_ok, ensure_ok] at h
  obtain ⟨nk, _, _, hnew, goal, _, checks, _, deps, hdeps, priority, _, own, _, _, _, rfl⟩ := h
  rw [hc.graph, List.map_append, List.mem_append, mem_graphOf_ids, List.map_map] at hnew
  have hnew' := not_or.mp hnew
  refine ⟨?_, ?_, ?_, ?_, ?_, ?_⟩
  · simp [hc.graph]
  · simp [hc.facets]
  · intro q hq
    rcases List.mem_append.mp hq with hq | hq
    · exact hc.fresh q hq
    · rw [List.mem_singleton.mp hq]
      exact hnew'.1
  · rw [List.map_append, List.nodup_append]
    refine ⟨hc.distinct, List.nodup_singleton _, ?_⟩
    intro a ha b hb hab
    rw [List.map_singleton, List.mem_singleton] at hb
    subst hab hb
    exact hnew'.2 ha
  · intro q hq
    rcases List.mem_append.mp hq with hq | hq
    · exact hc.lists q hq
    · rw [List.mem_singleton.mp hq]
      exact dependencies_nodup hdeps
  · intro q hq
    rcases List.mem_append.mp hq with hq | hq
    · exact hc.ordered q hq
    · rw [List.mem_singleton.mp hq]
      exact dependencies_ordered hdeps

variable {keys : List String} {news : List Prepared} {acceptance : Option (List CheckSpec)} {c : NodeChange}
   {deps : Option (List String)} {goal : Option String} {rev : Int}

theorem add_collected {specs : List NodeSpec} (h : add host db p specs = .ok (keys, db')) :
    ∃ (graph : Graph) (facets : Facets) (news : List Prepared), Collected db p (graph, facets, news) ∧
      validateDag graph = .ok () ∧ facetViolations facets graph = [] ∧ db' = insertNodes host db p news := by
  simp only [add, bind_ok, pure_ok, ensure_ok, Prod.mk.injEq] at h
  obtain ⟨_, _, _, _, ⟨graph, facets, news⟩, hloop, _, hdag, _, hcheck, _, _, _, rfl⟩ := h
  refine ⟨graph, facets, news, ?_, hdag, checkFacets_ok hcheck, rfl⟩
  refine foldlM_invariant (I := Collected db p) (fun _ _ _ => prepareNode_collected) ?_ hloop
  exact ⟨by simp, by simp, by simp, by simp, by simp, by simp⟩

theorem depsIn_news (hd : (news.map Prepared.key).Nodup) :
    d ∈ depsIn (news.map (fun q => (q.key, q.deps))) k ↔ ∃ q ∈ news, q.key = k ∧ d ∈ q.deps := by
  induction news with
  | nil => simp [depsIn]
  | cons q news ih =>
    rw [List.map_cons, List.nodup_cons] at hd
    rw [List.map_cons, ← List.singleton_append, depsIn_append]
    by_cases hk : q.key = k
    · have hrest : ∀ r ∈ news, r.key ≠ k := by
        intro r hr he
        exact hd.1 (List.mem_map.mpr ⟨r, hr, he.trans hk.symm⟩)
      simp only [List.map_singleton, hk, List.mem_cons, exists_eq_or_imp, true_and]
      constructor
      · intro h
        exact .inl (by simpa [depsIn, hk] using h)
      · rintro (h | ⟨r, hr, he, _⟩)
        · simpa [depsIn, hk] using h
        · exact absurd he (hrest r hr)
    · have hk' : k ≠ q.key := fun he => hk he.symm
      simp only [List.map_singleton, List.mem_cons, exists_eq_or_imp, hk, false_and, false_or]
      rw [if_neg (by simpa using hk'), ih hd.2]

theorem insertNodes_facetsOf : facetsOf (insertNodes host db p news) p =
    facetsOf db p ++ news.map (fun q => (q.key, q.facet)) := by
  have hnew : (news.map (Prepared.node host p)).filter (fun n => decide (n.projectId = p)) =
      news.map (Prepared.node host p) := by
    apply List.filter_eq_self.mpr
    intro n hn
    obtain ⟨q, _, rfl⟩ := List.mem_map.mp hn
    simp [Prepared.node]
  simp only [facetsOf, projectNodes, insertNodes, List.filter_append, List.map_append, hnew, List.map_map]
  rfl

theorem insertNodes_ids : (insertNodes host db p news).ids =
    db.ids ++ news.map (fun q => (p, q.key)) := by
  simp only [DB.ids, insertNodes, List.map_append, List.map_map]
  rfl

theorem insertNodes_rewired {graph : Graph} {facets : Facets} (hdb : Facetted db)
    (hc : Collected db p (graph, facets, news)) : Rewired db (insertNodes host db p news) p graph := by
  have hg : graph = _ := hc.graph
  have hedges : ∀ e, e ∈ (insertNodes host db p news).dependencies ↔
      e ∈ db.dependencies ∨ ∃ q ∈ news, ∃ d ∈ q.deps, e = ⟨p, q.key, d⟩ := by
    intro e
    rw [← mem_newEdges, ← List.mem_append]
    rfl
  have hids : ∀ i, i ∈ (insertNodes host db p news).ids ↔ i ∈ db.ids ∨ ∃ q ∈ news, (p, q.key) = i := by
    intro i
    rw [insertNodes_ids, List.mem_append, List.mem_map]
  refine ⟨?_, ?_, ?_, ?_, ?_⟩
  · intro e he
    rcases (hedges e).mp he with he | ⟨q, hq, d, _, rfl⟩
    · exact (hids _).mpr (.inl (hdb.rooted e he))
    · exact (hids _).mpr (.inr ⟨q, hq, rfl⟩)
  · have hkeys : (graphOf (insertNodes host db p news) p).map Prod.fst =
        (facetsOf (insertNodes host db p news) p).map Prod.fst := by simp [graphOf, facetsOf]
    have hold : (graphOf db p).map Prod.fst = (facetsOf db p).map Prod.fst := by simp [graphOf, facetsOf]
    rw [hkeys, insertNodes_facetsOf, hg, List.map_append, List.map_append, hold]
    simp
  · intro k d
    rw [hg, depsIn_append, mem_depsIn_graphOf, hids, hedges]
    split_ifs with hkey
    · -- an old node: no entry of the batch has its key
      have hk := mem_graphOf_ids.mp hkey
      rw [mem_depsIn_graphOf]
      constructor
      · rintro ⟨hid, he⟩
        exact ⟨.inl hid, .inl he⟩
      · rintro ⟨_, he | ⟨q, hq, d', _, he⟩⟩
        · exact ⟨hk, he⟩
        · cases he
          exact absurd hk (hc.fresh q hq)
    · -- a new node: no edge left its key before
      rw [depsIn_news hc.distinct]
      constructor
      · rintro ⟨q, hq, rfl, hd⟩
        exact ⟨.inr ⟨q, hq, rfl⟩, .inr ⟨q, hq, d, hd, rfl⟩⟩
      · rintro ⟨_, he | ⟨q, hq, d', hd, he⟩⟩
        · exact absurd (mem_graphOf_ids.mpr (hdb.rooted _ he)) hkey
        · cases he
          exact ⟨q, hq, rfl, hd⟩
  · intro q hq
    have hnew : (news.map (Prepared.node host p)).filter (fun n => decide (n.projectId = q)) = [] := by
      rw [List.filter_eq_nil_iff]
      intro n hn
      obtain ⟨r, _, rfl⟩ := List.mem_map.mp hn
      have hpq : p ≠ q := fun he => hq he.symm
      simp [Prepared.node, hpq]
    simp only [facetsOf, projectNodes, insertNodes, List.filter_append, hnew, List.append_nil]
  · intro q hq k d
    rw [mem_depsIn_graphOf, mem_depsIn_graphOf, hids, hedges]
    constructor
    · rintro ⟨hid, he⟩
      exact ⟨.inl hid, .inl he⟩
    · rintro ⟨hid | ⟨r, _, hr⟩, he | ⟨r', _, d', _, he⟩⟩
      · exact ⟨hid, he⟩
      · exact absurd (congrArg Dependency.projectId he) hq
      · exact absurd (congrArg Prod.fst hr).symm hq
      · exact absurd (congrArg Prod.fst hr).symm hq

theorem add_facetted {specs : List NodeSpec} (hdb : Facetted db)
    (h : add host db p specs = .ok (keys, db')) : Facetted db' := by
  obtain ⟨graph, facets, news, hc, _, hcheck, rfl⟩ := add_collected h
  refine hdb.of_checked (insertNodes_rewired hdb hc) ?_
  rw [insertNodes_facetsOf]
  have hf : facets = _ := hc.facets
  rwa [← hf]

section Replace
variable {ds : List String}

theorem depsIn_replaced_self (hk : k ∈ g.map Prod.fst) :
    depsIn (g.map (fun e => if e.1 = k then (e.1, ds) else e)) k = ds := by
  unfold depsIn
  induction g with
  | nil => simp at hk
  | cons e g ih =>
    by_cases he : e.1 = k
    · simp [he]
    · rw [List.map_cons, List.mem_cons] at hk
      simpa [he] using ih (hk.resolve_left (fun h => he h.symm))

theorem depsIn_replaced_of_ne (hd : d ≠ k) :
    depsIn (g.map (fun e => if e.1 = k then (e.1, ds) else e)) d = depsIn g d := by
  unfold depsIn
  induction g with
  | nil => rfl
  | cons e g ih =>
    by_cases he : e.1 = k
    · have hkd : k ≠ d := fun h => hd h.symm
      simpa [he, hkd] using ih
    · by_cases hed : e.1 = d
      · simp [hed, hd]
      · simpa [he, hed] using ih

end Replace

theorem writeRevision_shape {node : Node} {deps : List String} :
    (writeRevision db p k node deps).shape = (db.shape.1, db.dependencies.filter
      (fun e => decide (¬ (e.projectId = p ∧ e.nodeKey = k))) ++ deps.map (fun d => ⟨p, k, d⟩)) := by
  refine Prod.ext ?_ rfl
  have hinv : (invalidate db p k).shape.1 = db.shape.1 := map_modifyWhere (fun _ _ => by rfl) db.nodes
  rw [← hinv]
  exact map_modifyWhere (fun _ _ => by rfl) (invalidate db p k).nodes

theorem revised_shape {old : Node} {own : List String} {newGoal : String}
    {checks : List Check} (h : Revised host db db' p k rev goal acceptance deps c old own newGoal checks) :
    db'.shape = (db.shape.1, db.dependencies.filter
      (fun e => decide (¬ (e.projectId = p ∧ e.nodeKey = k))) ++ own.map (fun d => ⟨p, k, d⟩)) := by
  obtain ⟨e, rfl⟩ := h.written
  have hs : (writeRevision db p k (revisedNode host old newGoal checks) own).shape = _ := writeRevision_shape
  exact hs

theorem revised_rewired {old : Node} {own : List String} {newGoal : String}
    {checks : List Check} (hdb : Facetted db)
    (h : Revised host db db' p k rev goal acceptance deps c old own newGoal checks) :
    Rewired db db' p ((graphOf db p).map (fun e => if e.1 = k then (e.1, own) else e)) ∧
      ∀ q, facetsOf db' q = facetsOf db q := by
  have hnode : (p, k) ∈ db.ids :=
    List.mem_map.mpr ⟨old, List.mem_of_find?_eq_some h.node, node_id h.node⟩
  have hshape := revised_shape h
  have hids : db'.ids = db.ids := by rw [ids_shape, hshape, ids_shape]
  have hedges : ∀ e, e ∈ db'.dependencies ↔
      (e ∈ db.dependencies ∧ ¬ (e.projectId = p ∧ e.nodeKey = k)) ∨ ∃ d ∈ own, ⟨p, k, d⟩ = e := by
    intro e
    have hdeps : db'.dependencies = _ := congrArg Prod.snd hshape
    simp only [hdeps, List.mem_append, List.mem_filter, List.mem_map, decide_eq_true_eq]
  have hfacets : ∀ q, facetsOf db' q = facetsOf db q := by
    intro q
    rw [facetsOf_shape, hshape, facetsOf_shape]
  refine ⟨⟨?_, ?_, ?_, fun q _ => hfacets q, ?_⟩, hfacets⟩
  · intro e he
    rw [hids]
    rcases (hedges e).mp he with ⟨he, _⟩ | ⟨d, _, rfl⟩
    · exact hdb.rooted e he
    · exact hnode
  · have hkeys : ∀ d : DB, (graphOf d p).map Prod.fst = (facetsOf d p).map Prod.fst := by
      intro d
      simp [graphOf, facetsOf]
    rw [hkeys db', hfacets p, ← hkeys db, List.map_map]
    refine List.map_congr_left (fun e _ => ?_)
    by_cases he : e.1 = k <;> simp [he]
  · intro j d
    rw [mem_depsIn_graphOf, hids, hedges]
    by_cases hj : j = k
    · subst hj
      rw [depsIn_replaced_self (mem_graphOf_ids.mpr hnode)]
      constructor
      · intro hd
        exact ⟨hnode, .inr ⟨d, hd, rfl⟩⟩
      · rintro ⟨_, ⟨_, hne⟩ | ⟨d', hd, he⟩⟩
        · exact absurd ⟨rfl, rfl⟩ hne
        · cases he
          exact hd
    · rw [depsIn_replaced_of_ne hj, mem_depsIn_graphOf]
      constructor
      · rintro ⟨hid, he⟩
        exact ⟨hid, .inl ⟨he, fun hc => hj hc.2⟩⟩
      · rintro ⟨hid, ⟨he, _⟩ | ⟨d', _, he⟩⟩
        · exact ⟨hid, he⟩
        · exact absurd (congrArg Dependency.nodeKey he).symm hj
  · intro q hq j d
    rw [mem_depsIn_graphOf, mem_depsIn_graphOf, hids, hedges]
    constructor
    · rintro ⟨hid, he⟩
      exact ⟨hid, .inl ⟨he, fun hc => hq hc.1⟩⟩
    · rintro ⟨hid, ⟨he, _⟩ | ⟨d', _, he⟩⟩
      · exact ⟨hid, he⟩
      · exact absurd (congrArg Dependency.projectId he).symm hq

theorem revise_facetted {reason : String} (hdb : Facetted db)
    (h : revise host db p k rev reason goal acceptance deps = .ok (c, db')) : Facetted db' := by
  obtain ⟨old, own, newGoal, checks, hr⟩ := revise_ok h
  obtain ⟨hw, hfacets⟩ := revised_rewired hdb hr
  refine hdb.of_checked hw ?_
  rw [hfacets p]
  exact checkFacets_ok hr.facets

theorem split_facetted {reason : String} {children : List NodeSpec}
    (hdb : Facetted db) (h : split host db p k rev children reason = .ok (c, db')) : Facetted db' := by
  simp only [split, bind_ok, pure_ok, Prod.mk.injEq] at h
  obtain ⟨_, _, ⟨keys, db₁⟩, hadd, ⟨c', db₂⟩, hrev, _, rfl⟩ := h
  exact revise_facetted (add_facetted hdb hadd) hrev

section Relabel
variable {label : Option Facet} {q : String}

theorem relabel_ids : (db.setNode (p, k) (fun n => { n with facet := label })).ids = db.ids :=
  map_modifyWhere (fun _ _ => by rfl) db.nodes

theorem relabel_facetsOf : facetsOf (db.setNode (p, k) (fun n => { n with facet := label })) p =
    (facetsOf db p).map (fun f => if f.1 = k then (f.1, label) else f) := by
  simp only [facetsOf, projectNodes, DB.setNode]
  rw [filter_modifyWhere (f := fun n : Node => { n with facet := label }) (fun _ => rfl), modifyWhere,
    List.map_map, List.map_map]
  apply List.map_congr_left
  intro n hn
  have hp : n.projectId = p := by simpa using (List.mem_filter.mp hn).2
  by_cases hk : n.nodeKey = k
  · simp [Node.id, hp, hk]
  · simp [Node.id, hp, hk]

theorem relabel_facetsOf_of_ne (hq : q ≠ p) :
    facetsOf (db.setNode (p, k) (fun n => { n with facet := label })) q = facetsOf db q := by
  simp only [facetsOf, projectNodes, DB.setNode]
  rw [filter_modifyWhere (f := fun n : Node => { n with facet := label }) (fun _ => rfl), modifyWhere_of_none]
  intro n hn
  have hp : n.projectId = q := by simpa using (List.mem_filter.mp hn).2
  simp [Node.id, hp, hq]

theorem relabel_rewired (hdb : Facetted db) :
    Rewired db (db.setNode (p, k) (fun n => { n with facet := label })) p (graphOf db p) := by
  refine ⟨?_, ?_, ?_, fun q hq => relabel_facetsOf_of_ne hq, ?_⟩
  · rw [relabel_ids]
    exact hdb.rooted
  · have hkeys : ∀ d : DB, (graphOf d p).map Prod.fst = (facetsOf d p).map Prod.fst := by
      intro d
      simp [graphOf, facetsOf]
    rw [hkeys, hkeys, relabel_facetsOf, List.map_map]
    refine List.map_congr_left (fun f _ => ?_)
    by_cases hf : f.1 = k <;> simp [hf]
  · intro j d
    rw [mem_depsIn_graphOf, mem_depsIn_graphOf, relabel_ids]
    rfl
  · intro q _ j d
    rw [mem_depsIn_graphOf, mem_depsIn_graphOf, relabel_ids]
    rfl

end Relabel

theorem setFacet_facetted {facet : String} (hdb : Facetted db)
    (h : setFacet db p k facet = .ok (c, db')) : Facetted db' := by
  simp only [setFacet, bind_ok, pure_ok, ite_ok, Prod.mk.injEq] at h
  obtain ⟨label, _, node, _, ⟨_, _, rfl⟩ | ⟨_, _, _, _, hcheck, _, rfl⟩⟩ := h
  · exact hdb
  · have hnext : Facetted (db.setNode (p, k) (fun n => { n with facet := label })) := by
      refine hdb.of_checked (relabel_rewired hdb) ?_
      rw [relabel_facetsOf]
      exact checkFacets_ok hcheck
    exact hnext.of_shape rfl

theorem importTasks_facetted {source : String} {tasks : List LegacyTask} (hdb : Facetted db)
    (h : importTasks host db p source tasks = .ok (keys, db')) : Facetted db' := by
  simp only [importTasks, bind_ok, pure_ok, Prod.mk.injEq] at h
  obtain ⟨_, _, _, _, _, _, specs, _, ⟨created, db₁⟩, hadd, _, rfl⟩ := h
  have hstatus : Leaves [] db₁ (tasks.foldl (fun db task => legacyStatus db p source task) db₁) :=
    Leaves.foldl (fun d task => legacyStatus_leaves d source task) db₁ tasks
  exact (add_facetted hdb hadd).of_shape (hstatus.shape (by simp))

end Steps

section Runs
variable {reply : Reply} {s : Sys} {op : Op} {ops : List Op}

/-- A request that writes no label and no edge keeps the rules; every other one
checked them on what it writes. -/
theorem Request.facetted {r : Request} (hdb : Facetted db) (h : r.run host db = .ok (reply, db')) : Facetted db' := by
  by_cases hw : .shape ∈ r.writes
  · cases r with
    | addNodes p specs =>
      obtain ⟨_, h⟩ := answer_ok h
      exact add_facetted hdb h
    | reviseNode caller p k revision reason goal acceptance deps =>
      obtain ⟨_, db₁, hx, hlog⟩ := structuralBy_leaves h
      exact (revise_facetted hdb hx).of_shape ((hlog []).shape (by simp))
    | splitNode caller p k revision children reason =>
      obtain ⟨_, db₁, hx, hlog⟩ := structuralBy_leaves h
      exact (split_facetted hdb hx).of_shape ((hlog []).shape (by simp))
    | setNodeFacet caller p k facet =>
      obtain ⟨_, db₁, hx, hlog⟩ := structuralBy_leaves h
      exact (setFacet_facetted hdb hx).of_shape ((hlog []).shape (by simp))
    | importTasks p source tasks =>
      obtain ⟨_, h⟩ := answer_ok h
      exact importTasks_facetted hdb h
    | bindNode p actor k revision baselineId bindings reason =>
      obtain ⟨_, h⟩ := answer_ok h
      obtain ⟨db₁, row, e, hrev, rfl⟩ := bindNode_ok h
      exact (revise_facetted hdb hrev).of_shape rfl
    | _ => simp [Request.writes] at hw
  · exact hdb.of_shape ((Request.leaves h).shape hw)

theorem Call.facetted {c : Call} {now : Stamp} (hdb : Facetted db) (h : c.run host db now = .ok (reply, db')) :
    Facetted db' := by
  refine hdb.of_shape ((Call.leaves h).shape ?_)
  cases c <;> simp [Call.writes]

theorem next_facetted (host : Host) (s : Sys) (op : Op) (hs : Facetted s.db) : Facetted (next host s op).db := by
  rcases next_db host s op with he | ⟨r | ⟨call, now⟩, reply, h⟩
  · rwa [he]
  · exact Request.facetted hs h
  · exact Call.facetted hs h

theorem after_facetted (host : Host) (ops : List Op) : Facetted (after host ops).db := by
  have hfree : Along (fun _ _ => True) (next host) Sys.init ops := along_of (fun _ _ => trivial) Sys.init ops
  refine run_invariant (I := fun s => Facetted s.db) (fun s op hs _ => next_facetted host s op hs) ?_ hfree
  refine ⟨?_, fun p => rfl⟩
  intro e he
  cases he

end Runs

section Consequences
variable {n : Node} {a b : NodeId}

theorem endsIn_testStem (h : endsIn k ".test" = true) : k = testStem k ++ ".test" := by
  have hstem : testStem k = String.ofList (k.toList.take (k.toList.length - 5)) := if_pos h
  have hdrop : k.toList.drop (k.toList.length - 5) = ".test".toList := by simpa [endsIn] using h
  have hl : k.toList = (testStem k ++ ".test").toList := by
    rw [String.toList_append, hstem, String.toList_ofList, ← hdrop, List.take_append_drop]
  exact String.toList_inj.mp hl

theorem Facetted.edge (hdb : Facetted db) (hn : db.node? a = some n) (ho : n.facet = some own)
    (hd : DependsOn db a b) : edgeViolation (facetsOf db a.1) a.2 own b.2 = none ∧ a.1 = b.1 := by
  obtain ⟨key, hkey, rfl⟩ := hd
  obtain ⟨p, k⟩ := a
  have hmem : (k, some own) ∈ facetsOf db p := ho ▸ mem_facetsOf hn
  have hlegal := facetViolations_nil.mp (hdb.legal p) k own hmem
  have he : ⟨p, k, key⟩ ∈ db.dependencies := mem_depsOf.mp hkey
  exact ⟨hlegal.edges key (mem_depsIn_graphOf.mpr ⟨hdb.rooted _ he, he⟩), rfl⟩

theorem Facetted.labelled (hdb : Facetted db) (hn : db.node? a = some n) (ho : n.facet.isSome)
    (hd : DependsOn db a b) : ∃ m, db.node? b = some m ∧ m.facet.isSome := by
  obtain ⟨own, ho⟩ := Option.isSome_iff_exists.mp ho
  obtain ⟨hedge, hproject⟩ := hdb.edge hn ho hd
  cases hf : facetOf (facetsOf db a.1) b.2 with
  | none => simp [edgeViolation, hf] at hedge
  | some target =>
    rw [facetOf_facetsOf, Option.bind_eq_some_iff, hproject] at hf
    obtain ⟨m, hm, hlabel⟩ := hf
    exact ⟨m, hm, by simp [hlabel]⟩

/-- What a node that is no integration may be built on: a design or a contract,
or its own `.contract` or `.test` node. -/
def BuiltOn (a b : NodeId) (target : Node) : Prop :=
  target.facet = some .design ∨ target.facet = some .contract ∨ b.2 = a.2 ++ ".test" ∨ b.2 = a.2 ++ ".contract" ∨
    ∃ stem, a.2 = stem ++ ".test" ∧ b.2 = stem ++ ".contract"

theorem Facetted.builtOn (hdb : Facetted db) (hn : db.node? a = some n) (ho : n.facet = some own)
    (hown : own ≠ .integration) (hd : DependsOn db a b) : ∃ m, db.node? b = some m ∧ BuiltOn a b m := by
  obtain ⟨m, hm, _⟩ := hdb.labelled hn (by simp [ho]) hd
  obtain ⟨hedge, hproject⟩ := hdb.edge hn ho hd
  refine ⟨m, hm, ?_⟩
  have hf : facetOf (facetsOf db a.1) b.2 = m.facet := by
    rw [facetOf_facetsOf, hproject]
    simp [hm]
  unfold edgeViolation at hedge
  rw [hf] at hedge
  cases hlabel : m.facet with
  | none => simp [hlabel] at hedge
  | some target =>
    simp only [hlabel] at hedge
    split_ifs at hedge with hbuild hsibling
    · rcases hbuild with h | rfl | rfl
      · exact absurd h hown
      · exact .inl hlabel
      · exact .inr (.inl hlabel)
    · rcases hsibling with h | h | ⟨hsuffix, h⟩
      · exact .inr (.inr (.inl h))
      · exact .inr (.inr (.inr (.inl h)))
      · exact .inr (.inr (.inr (.inr ⟨_, endsIn_testStem hsuffix, h⟩)))

end Consequences

/-- In every state a run reaches, no project breaks a facet rule: whatever a
labelled node reaches is labelled, and one that is no integration is built on
designs, contracts and its own `.contract` and `.test` nodes only. -/
theorem facets_legal (host : Host) (ops : List Op) :
    (∀ p, facetViolations (facetsOf (after host ops).db p) (graphOf (after host ops).db p) = []) ∧
      (∀ (a b : NodeId) (n : Node), (after host ops).db.node? a = some n → n.facet.isSome →
        Relation.ReflTransGen (DependsOn (after host ops).db) a b →
        ∃ m, (after host ops).db.node? b = some m ∧ m.facet.isSome) ∧
      ∀ (a b : NodeId) (n : Node) (own : Facet), (after host ops).db.node? a = some n → n.facet = some own →
        own ≠ .integration → DependsOn (after host ops).db a b →
        ∃ m, (after host ops).db.node? b = some m ∧ BuiltOn a b m := by
  have hdb := after_facetted host ops
  refine ⟨hdb.legal, ?_, fun a b n own hn ho hown hd => hdb.builtOn hn ho hown hd⟩
  intro a b n hn ho hreach
  induction hreach with
  | refl => exact ⟨n, hn, ho⟩
  | tail _ hd ih =>
    obtain ⟨m, hm, hlabel⟩ := ih
    exact hdb.labelled hm hlabel hd

end AItelier.State
