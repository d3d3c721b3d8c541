import AItelier.Refine.Projection

namespace AItelier.State

open AItelier.Lib AItelier.Ledger

variable {D : Discipline} {db db' : DB} {host : Host} {p k : String}

/-- The transaction amounts to ledger steps. -/
def Refines (D : Discipline) (db db' : DB) : Prop := Steps D (ledger db) (ledger db')

theorem Refines.refl (db : DB) : Refines D db db := Relation.ReflTransGen.refl

theorem Refines.trans {db₁ db₂ db₃ : DB} (h : Refines D db₁ db₂) (h' : Refines D db₂ db₃) : Refines D db₁ db₃ :=
  Relation.ReflTransGen.trans h h'

theorem Refines.of_step (h : Step D (ledger db) (ledger db')) : Refines D db db' :=
  Relation.ReflTransGen.single h

theorem Refines.tail {db₁ db₂ : DB} (h : Refines D db db₁) (h' : Step D (ledger db₁) (ledger db₂)) :
    Refines D db db₂ :=
  Relation.ReflTransGen.tail h h'

theorem Refines.of_eq (h : ledger db' = ledger db) : Refines D db db' := by
  unfold Refines
  rw [h]

theorem Refines.of_core (h : db'.core = db.core) : Refines D db db' := Refines.of_eq (ledger_core h)

theorem Refines.event {db₁ : DB} {q : String} {k : Option String} {type : String} {payload : List (String × Json)}
    (h : Refines D db db₁) : Refines D db (db₁.event q k type payload) :=
  h.trans (Refines.of_core rfl)

theorem nodeOf_ok {n : Node} (h : nodeOf db p k = .ok n) : db.node? (p, k) = some n := by
  simp only [nodeOf, bind_ok, orElse_ok] at h
  obtain ⟨_, _, _, _, h⟩ := h
  exact h

section Invalidate

/-- The nodes `_invalidate` reaches. -/
def reached (db : DB) (p k : String) : List NodeId :=
  (affected db p k).map (fun j => (p, j))

theorem mem_reached {j : NodeId} : j ∈ reached db p k ↔ j.1 = p ∧ j.2 ∈ affected db p k := by
  simp only [reached, List.mem_map]
  constructor
  · rintro ⟨x, hx, rfl⟩
    exact ⟨rfl, hx⟩
  · rintro ⟨h, hm⟩
    exact ⟨j.2, hm, by rw [← h]⟩

theorem self_mem_reached : (p, k) ∈ reached db p k :=
  mem_reached.mpr ⟨rfl, mem_sortKeys.mpr (mem_dependentClosure_self _ _)⟩

theorem mem_deps {j d : NodeId} : d ∈ (ledger db).deps j ↔
    ∃ e ∈ db.dependencies, e.projectId = j.1 ∧ e.nodeKey = j.2 ∧ d = (j.1, e.dependencyKey) := by
  simp only [ledger, depsOf, List.mem_map, mem_sortKeys, List.mem_filter, decide_eq_true_eq]
  constructor
  · rintro ⟨x, ⟨e, ⟨he, hp, hk⟩, rfl⟩, rfl⟩
    exact ⟨e, he, hp, hk, rfl⟩
  · rintro ⟨e, he, hp, hk, rfl⟩
    exact ⟨e.dependencyKey, ⟨e, ⟨he, hp, hk⟩, rfl⟩, rfl⟩

theorem reached_closed : ∀ j, ∀ d ∈ (ledger db).deps j, d ∈ reached db p k → j ∈ reached db p k := by
  intro j d hd hr
  obtain ⟨e, he, hp, hk, rfl⟩ := mem_deps.mp hd
  obtain ⟨hj, hm⟩ := mem_reached.mp hr
  refine mem_reached.mpr ⟨hj, ?_⟩
  have hedge : (e.nodeKey, e.dependencyKey) ∈ projectEdges db p := by
    simp only [projectEdges, List.mem_map, List.mem_filter, decide_eq_true_eq]
    exact ⟨e, ⟨he, hp.trans hj⟩, rfl⟩
  rw [affected, mem_sortKeys] at hm ⊢
  rw [← hk]
  exact upClosed_dependentClosure (projectEdges db p) k _ hedge hm

/-- What `_invalidate` makes of a row it reaches. -/
def Node.stale (n : Node) : Node :=
  if n.status = .SUPERSEDED then n else { n with status := .STALE, verifiedReceipt := none }

theorem Node.stale_fact (n : Node) : n.stale.fact = n.fact.stale := by
  unfold Node.stale Fact.stale Node.fact
  by_cases h : n.status = .SUPERSEDED <;> simp [h]

theorem invalidate_node? (j : NodeId) :
    (invalidate db p k).node? j = if j ∈ reached db p k then (db.node? j).map Node.stale else db.node? j := by
  have h := @lookup_modifyWhere _ _ _ Node.id (fun n => decide (n.projectId = p ∧
    n.nodeKey ∈ affected db p k ∧ n.status ≠ .SUPERSEDED))
    (fun n => { n with status := .STALE, verifiedReceipt := none }) (fun _ => rfl) db.nodes j
  simp only [DB.node?, invalidate, h]
  cases hj : lookup Node.id db.nodes j with
  | none => simp
  | some n =>
    have hn : n.id = j := lookup_key hj
    have h1 : n.projectId = j.1 := congrArg Prod.fst hn
    have h2 : n.nodeKey = j.2 := congrArg Prod.snd hn
    by_cases hr : j ∈ reached db p k
    · obtain ⟨hp, hm⟩ := mem_reached.mp hr
      by_cases hs : n.status = .SUPERSEDED <;> simp [hr, Node.stale, hs, h1, h2, hp, hm]
    · have hno : ¬ (n.projectId = p ∧ n.nodeKey ∈ affected db p k) := by
        rw [h1, h2]
        exact fun hc => hr (mem_reached.mpr hc)
      simp only [hr, if_false, Option.map_some, Option.some.injEq]
      rw [if_neg]
      simp only [decide_eq_true_eq]
      exact fun hc => hno ⟨hc.1, hc.2.1⟩

theorem ledger_invalidate : ledger (invalidate db p k) = (ledger db).invalidate (reached db p k) := by
  have hfacts : (ledger (invalidate db p k)).facts = ((ledger db).invalidate (reached db p k)).facts := by
    funext j
    simp only [ledger, Ledger.invalidate, invalidate_node?]
    by_cases hr : j ∈ reached db p k
    · cases hj : db.node? j with
      | none => simp [hr]
      | some n => simp [hr, Node.stale_fact]
    · simp [hr]
  have heq : ledger (invalidate db p k) = { ledger db with facts := (ledger (invalidate db p k)).facts } := rfl
  rw [heq, hfacts]
  rfl

theorem invalidate_refines (D : Discipline) (db : DB) (p k : String) : Refines D db (invalidate db p k) := by
  refine Refines.of_step ?_
  rw [ledger_invalidate]
  exact .invalidate _ reached_closed

theorem invalidate_self {n : Node} (h : db.node? (p, k) = some n) :
    (invalidate db p k).node? (p, k) = some n.stale := by
  simp [invalidate_node?, self_mem_reached, h]

theorem invalidate_unrested {i : String} : ¬ (ledger (invalidate db p k)).Rests (p, k) i := by
  rintro ⟨f, receipt, acc, hf, hv, _⟩
  rw [ledger_invalidate] at hf
  rcases invalidate_some hf with ⟨_, g, _, rfl⟩ | ⟨hno, _⟩
  · rcases @Fact.stale_status g with hst | ⟨hst, hsup⟩
    · rw [hst] at hv
      cases hv
    · rw [hst, hsup] at hv
      cases hv
  · exact hno self_mem_reached

end Invalidate

section Dag

theorem edgeErrors_ok {g l : Graph} {u : Unit} (h : edgeErrors g l = .ok u) :
    ∀ e ∈ l, ∀ d ∈ e.2, d ∈ g.map Prod.fst := by
  induction l with
  | nil => intro e he; cases he
  | cons a l ih =>
    obtain ⟨node, deps⟩ := a
    simp only [edgeErrors, bind_ok, ensure_ok] at h
    obtain ⟨_, _, _, hall, h⟩ := h
    intro e he d hd
    rcases List.mem_cons.mp he with rfl | he
    · exact of_decide_eq_true (List.all_eq_true.mp hall d hd)
    · exact ih h e he d hd

theorem validateDag_ok {g : Graph} {u : Unit} (h : validateDag g = .ok u) :
    ∀ e ∈ g, ∀ d ∈ e.2, d ∈ g.map Prod.fst := by
  simp only [validateDag, bind_ok] at h
  obtain ⟨_, _, _, he, _⟩ := h
  exact edgeErrors_ok he

theorem mem_graphOf_keys {d : String} : d ∈ (graphOf db p).map Prod.fst ↔ (db.node? (p, d)).isSome := by
  simp only [graphOf, projectNodes, List.map_map, List.mem_map, List.mem_filter, decide_eq_true_eq]
  constructor
  · rintro ⟨n, ⟨hn, hp⟩, rfl⟩
    have h := @lookup_isSome_of_mem _ _ _ Node.id _ _ hn
    rw [← hp]
    exact h
  · intro h
    obtain ⟨n, hn⟩ := Option.isSome_iff_exists.mp h
    have hid := node_id hn
    exact ⟨n, ⟨lookup_mem hn, congrArg Prod.fst hid⟩, congrArg Prod.snd hid⟩

theorem replaced_deps_exist {own : List String} {u : Unit} (hk : (db.node? (p, k)).isSome)
    (h : validateDag ((graphOf db p).map (fun e => if e.1 = k then (e.1, own) else e)) = .ok u) :
    ∀ d ∈ own, (db.node? (p, d)).isSome := by
  intro d hd
  have hkeys : ((graphOf db p).map (fun e => if e.1 = k then (e.1, own) else e)).map Prod.fst =
      (graphOf db p).map Prod.fst := by
    rw [List.map_map]
    refine List.map_congr_left (fun e _ => ?_)
    by_cases he : e.1 = k <;> simp [he]
  obtain ⟨e, he, hek⟩ := List.mem_map.mp (mem_graphOf_keys.mpr hk)
  have hmem : (e.1, own) ∈ (graphOf db p).map (fun e => if e.1 = k then (e.1, own) else e) :=
    List.mem_map.mpr ⟨e, he, by simp [hek]⟩
  have hin := validateDag_ok h _ hmem d hd
  rw [hkeys] at hin
  exact mem_graphOf_keys.mp hin

end Dag

section Revise

theorem writeRevision_deps {node : Node} {own : List String} :
    (ledger (writeRevision db p k node own)).deps =
      Function.update (ledger db).deps (p, k) ((sortKeys own).map (fun d => (p, d))) := by
  funext j
  simp only [ledger, depsOf, writeRevision, invalidate, DB.setNode, List.filter_append, List.filter_filter]
  by_cases hj : j = (p, k)
  · subst hj
    have hold : db.dependencies.filter (fun d => decide (d.projectId = p ∧ d.nodeKey = k) &&
        decide (¬ (d.projectId = p ∧ d.nodeKey = k))) = [] := by
      simp [List.filter_eq_nil_iff]
    have hnew : (own.map (fun d => (⟨p, k, d⟩ : Dependency))).filter (fun d => decide (d.projectId = p ∧
        d.nodeKey = k)) = own.map (fun d => ⟨p, k, d⟩) := by
      simp [List.filter_eq_self]
    rw [Function.update_self, hold, hnew]
    simp [List.map_map, Function.comp_def]
  · have hne : ¬ (j.1 = p ∧ j.2 = k) := fun h => hj (Prod.ext h.1 h.2)
    have hold : ∀ d : Dependency, (decide (d.projectId = j.1 ∧ d.nodeKey = j.2) &&
        decide (¬ (d.projectId = p ∧ d.nodeKey = k))) = decide (d.projectId = j.1 ∧ d.nodeKey = j.2) := by
      intro d
      by_cases hd : d.projectId = j.1 ∧ d.nodeKey = j.2
      · simp [hd, hne]
      · simp [hd]
    have hnew : (own.map (fun d => (⟨p, k, d⟩ : Dependency))).filter (fun d => decide (d.projectId = j.1 ∧
        d.nodeKey = j.2)) = [] := by
      rw [List.filter_eq_nil_iff]
      intro x hx
      obtain ⟨d, _, rfl⟩ := List.mem_map.mp hx
      simp only [decide_eq_true_eq]
      exact fun h => hne ⟨h.1.symm, h.2.symm⟩
    rw [Function.update_of_ne hj, hnew, List.append_nil]
    simp only [hold]

/-- The revised row of a node that was open. -/
theorem writeRevision_refines {old node : Node} {own : List String} (hold : db.node? (p, k) = some old)
    (hopen : old.status ≠ .SUPERSEDED) (hrev : node.revision = old.revision + 1)
    (hdeps : ∀ d ∈ own, (db.node? (p, d)).isSome) : Refines D db (writeRevision db p k node own) := by
  have hstale : old.stale = { old with status := .STALE, verifiedReceipt := none } := by
    simp [Node.stale, hopen]
  have hn := invalidate_self hold
  rw [hstale] at hn
  have hset := ledger_setNode (f := fun n => { n with
    revision := node.revision, goal := node.goal, contract := node.contract,
    contractHash := node.contractHash }) hn (fun _ => rfl)
  have hledger : ledger (writeRevision db p k node own) =
      { ledger ((invalidate db p k).setNode (p, k) (fun n => { n with
          revision := node.revision, goal := node.goal, contract := node.contract,
          contractHash := node.contractHash })) with
        deps := (ledger (writeRevision db p k node own)).deps } := rfl
  refine (invalidate_refines D db p k).tail ?_
  rw [hledger, hset, writeRevision_deps]
  refine Step.rewrite (L := ledger (invalidate db p k)) (p, k) _ _ _ (ledger_fact hn) rfl ?_ rfl rfl ?_
  · exact hrev
  · intro d hd
    obtain ⟨x, hx, rfl⟩ := List.mem_map.mp hd
    have hsome := hdeps x (mem_sortKeys.mp hx)
    obtain ⟨m, hm⟩ := Option.isSome_iff_exists.mp hsome
    rw [ledger_invalidate]
    by_cases hr : (p, x) ∈ reached db p k <;> simp [Ledger.invalidate, hr, ledger_fact hm]

/-- The row `_revise` makes of the old one. -/
def revisedNode (host : Host) (old : Node) (goal : String) (checks : List Check) : Node :=
  { old with
    revision := old.revision + 1, goal := goal, contract := checks, contractHash := contractDigest host checks }

def revisionRow (node : Node) (deps : List String) : Revision :=
  ⟨node.projectId, node.nodeKey, node.revision, node.goal, node.contract, node.contractHash, deps⟩

/-- Everything a revision that went through has checked and written: `own` are
the node's dependencies from now on. -/
structure Revised (host : Host) (db db' : DB) (p k : String) (rev : Int) (goal : Option String)
    (acceptance : Option (List CheckSpec)) (deps : Option (List String)) (c : NodeChange) (old : Node)
    (own : List String) (newGoal : String) (checks : List Check) : Prop where
  node : db.node? (p, k) = some old
  revision : (old.revision : Int) = rev
  unclosed : old.status ≠ .SUPERSEDED
  wired : given deps dependencies (depsOf db p k) = .ok own
  dag : validateDag ((graphOf db p).map (fun e => if e.1 = k then (e.1, own) else e)) = .ok ()
  facets : checkFacets (facetsOf db p) ((graphOf db p).map (fun e => if e.1 = k then (e.1, own) else e)) = .ok ()
  aimed : given goal (fun g => text g "goal" 20000) old.goal = .ok newGoal
  agreed : given acceptance contract old.contract = .ok checks
  unrecorded : ∀ r ∈ db.revisions, ¬ (r.projectId = p ∧ r.nodeKey = k ∧ r.revision = old.revision + 1)
  change : c = ⟨k, old.revision + 1, .STALE, affected db p k, [], true⟩
  written : ∃ e, db' = { writeRevision db p k (revisedNode host old newGoal checks) own with
    revisions := db.revisions ++ [revisionRow (revisedNode host old newGoal checks) own], events := db.events ++ [e] }

theorem revise_ok {rev : Int} {reason : String} {goal : Option String} {acceptance : Option (List CheckSpec)}
    {deps : Option (List String)} {c : NodeChange}
    (h : revise host db p k rev reason goal acceptance deps = .ok (c, db')) :
    ∃ old own newGoal checks, Revised host db db' p k rev goal acceptance deps c old own newGoal checks := by
  simp only [revise, bind_ok, pure_ok, ensure_ok, Prod.mk.injEq] at h
  obtain ⟨old, hold, _, _, _, _, _, hrev, _, hopen, own, hown, _, _, _, hdag, _, hfacets, newGoal, hgoal, checks,
    hchecks, db₁, hsnap, hc, rfl⟩ := h
  have hnode := nodeOf_ok hold
  have hid : old.id = (p, k) := node_id hnode
  simp only [Node.id, Prod.mk.injEq] at hid
  simp only [snapshotRevision, bind_ok, pure_ok, ensure_ok] at hsnap
  obtain ⟨_, hfresh, rfl⟩ := hsnap
  refine ⟨old, own, newGoal, checks, hnode, hrev, hopen, hown, hdag, hfacets, hgoal, hchecks, ?_, hc.symm, ?_⟩
  · intro r hr hkey
    refine hfresh (List.any_eq_true.mpr ⟨r, hr, ?_⟩)
    simpa [hid.1, hid.2] using hkey
  · exact ⟨_, rfl⟩

theorem revise_refines {rev : Int} {reason : String} {goal : Option String} {acceptance : Option (List CheckSpec)}
    {deps : Option (List String)} {c : NodeChange}
    (h : revise host db p k rev reason goal acceptance deps = .ok (c, db')) : Refines D db db' := by
  obtain ⟨old, own, newGoal, checks, hr⟩ := revise_ok h
  obtain ⟨e, rfl⟩ := hr.written
  have hdeps := replaced_deps_exist (by simp [hr.node]) hr.dag
  have hwrite : Refines D db (writeRevision db p k (revisedNode host old newGoal checks) own) :=
    writeRevision_refines hr.node hr.unclosed rfl hdeps
  exact hwrite.trans (Refines.of_core rfl)

theorem supersede_refines {rev : Int} {reason : String} {c : NodeChange}
    (h : supersede db p k rev reason = .ok (c, db')) : Refines D db db' := by
  simp only [supersede, bind_ok, pure_ok, ensure_ok, ite_ok, Prod.mk.injEq] at h
  obtain ⟨old, hold, _, _, _, _, _, _, ⟨_, _, rfl⟩ | ⟨hopen, _, rfl⟩⟩ := h
  · exact Refines.refl db
  · have hn := invalidate_self (nodeOf_ok hold)
    have hstale : old.stale = { old with status := .STALE, verifiedReceipt := none } := by
      simp [Node.stale, hopen]
    rw [hstale] at hn
    have hset := ledger_setNode (f := fun n => { n with status := .SUPERSEDED }) hn (fun _ => rfl)
    refine (invalidate_refines D db p k).tail ?_
    change Step D _ (ledger ((invalidate db p k).setNode (p, k) (fun n => { n with status := .SUPERSEDED })))
    rw [hset]
    exact Step.close (p, k) _ (ledger_fact hn) rfl

end Revise

section Add

/-- What the loop of `_add` collects: the entries in order, each with a new key. -/
theorem prepare_ok {specs : List NodeSpec} {acc acc' : Graph × Facets × List Prepared}
    (h : specs.foldlM (prepareNode db p) acc = .ok acc') :
    ∃ news : List Prepared, acc'.2.2 = acc.2.2 ++ news ∧ news.map Prepared.key = specs.map NodeSpec.key ∧
      acc'.1 = acc.1 ++ news.map (fun q => (q.key, q.deps)) ∧ ∀ q ∈ news, q.key ∉ acc.1.map Prod.fst := by
  induction specs generalizing acc with
  | nil =>
    rw [List.foldlM_nil, pure_ok] at h
    subst h
    exact ⟨[], by simp, rfl, by simp, by simp⟩
  | cons spec specs ih =>
    rw [List.foldlM_cons, bind_ok] at h
    obtain ⟨acc₁, h₁, h⟩ := h
    simp only [prepareNode, key, bind_ok, pure_ok, ensure_ok] at h₁
    obtain ⟨nk, ⟨_, _, rfl⟩, _, hfresh, goal, _, checks, _, deps, _, priority, _, own, _, _, _, rfl⟩ := h₁
    obtain ⟨news, h1, h2, h3, h4⟩ := ih h
    refine ⟨⟨spec.key, goal, checks, deps, priority, own⟩ :: news, ?_, ?_, ?_, ?_⟩
    · simpa using h1
    · simp [h2]
    · simpa using h3
    · intro q hq
      rcases List.mem_cons.mp hq with rfl | hq
      · exact hfresh
      · intro hmem
        refine h4 q hq ?_
        rw [List.map_append]
        exact List.mem_append_left _ hmem

theorem add_ok {specs : List NodeSpec} {keys : List String} (h : add host db p specs = .ok (keys, db')) :
    ∃ news : List Prepared, db' = insertNodes host db p news ∧ news.map Prepared.key = specs.map NodeSpec.key ∧
      (∀ q ∈ news, db.node? (p, q.key) = none) ∧
      ∀ q ∈ news, ∀ d ∈ q.deps, (db.node? (p, d)).isSome ∨ d ∈ news.map Prepared.key := by
  simp only [add, bind_ok, pure_ok, ensure_ok, Prod.mk.injEq] at h
  obtain ⟨_, _, _, _, ⟨graph, facets, prepared⟩, hloop, _, hdag, _, _, _, _, _, rfl⟩ := h
  obtain ⟨news, h1, h2, h3, h4⟩ := prepare_ok hloop
  simp only [List.nil_append] at h1 h3
  subst h1
  refine ⟨prepared, rfl, h2, ?_, ?_⟩
  · intro q hq
    have hno := h4 q hq
    rw [mem_graphOf_keys] at hno
    simpa using hno
  · intro q hq d hd
    have hmem : (q.key, q.deps) ∈ graph := by
      rw [h3]
      exact List.mem_append_right _ (List.mem_map.mpr ⟨q, hq, rfl⟩)
    have hin := validateDag_ok hdag _ hmem d hd
    rw [h3, List.map_append, List.mem_append, mem_graphOf_keys] at hin
    rcases hin with hin | hin
    · exact .inl hin
    · right
      simpa [List.map_map, Function.comp_def] using hin

theorem insertNodes_node? {news : List Prepared} (j : NodeId) : (insertNodes host db p news).node? j =
    (db.node? j).or (lookup Node.id (news.map (Prepared.node host p)) j) :=
  lookup_append Node.id db.nodes _ j

theorem mem_newEdges {news : List Prepared} {e : Dependency} :
    e ∈ news.flatMap (Prepared.edges p) ↔ ∃ q ∈ news, ∃ d ∈ q.deps, e = ⟨p, q.key, d⟩ := by
  simp only [List.mem_flatMap, Prepared.edges, List.mem_map]
  constructor
  · rintro ⟨q, hq, d, hd, rfl⟩
    exact ⟨q, hq, d, hd, rfl⟩
  · rintro ⟨q, hq, d, hd, rfl⟩
    exact ⟨q, hq, d, hd, rfl⟩

theorem insertNodes_grows {news : List Prepared} (hfresh : ∀ q ∈ news, db.node? (p, q.key) = none)
    (hdeps : ∀ q ∈ news, ∀ d ∈ q.deps, (db.node? (p, d)).isSome ∨ d ∈ news.map Prepared.key) :
    Grows D (ledger db) (ledger (insertNodes host db p news)).facts
      (ledger (insertNodes host db p news)).deps where
  kept := by
    intro j f hf
    obtain ⟨n, hn, rfl⟩ := node_of_fact hf
    refine ⟨?_, ?_⟩
    · simp [ledger, insertNodes_node?, hn]
    · have hnone : (news.flatMap (Prepared.edges p)).filter
          (fun d => decide (d.projectId = j.1 ∧ d.nodeKey = j.2)) = [] := by
        rw [List.filter_eq_nil_iff]
        intro e he
        obtain ⟨q, hq, d, _, rfl⟩ := mem_newEdges.mp he
        simp only [decide_eq_true_eq]
        rintro ⟨hp, hk⟩
        have hno := hfresh q hq
        have hj : ((p, q.key) : NodeId) = j := Prod.ext hp hk
        rw [hj, hn] at hno
        cases hno
      simp only [ledger, depsOf, insertNodes, List.filter_append, hnone, List.append_nil]
  fresh := by
    intro j f hnone hf
    obtain ⟨n, hn, rfl⟩ := node_of_fact hf
    rw [insertNodes_node?, ledger_fact_none.mp hnone, Option.none_or] at hn
    obtain ⟨q, _, rfl⟩ := List.mem_map.mp (lookup_mem hn)
    exact ⟨rfl, by simp [Node.fact, Prepared.node], by simp [Node.fact, Prepared.node]⟩
  wired := by
    have hnew : ∀ x ∈ news.map Prepared.key, ((insertNodes host db p news).node? (p, x)).isSome := by
      intro x hx
      obtain ⟨q, hq, rfl⟩ := List.mem_map.mp hx
      have hsome := @lookup_isSome_of_mem _ _ _ Node.id _ _
        (List.mem_map.mpr ⟨q, hq, rfl⟩ : Prepared.node host p q ∈ news.map (Prepared.node host p))
      rw [insertNodes_node?, hfresh q hq, Option.none_or]
      exact hsome
    intro j _ d hd
    obtain ⟨e, he, hp, hk, rfl⟩ := mem_deps.mp hd
    rcases List.mem_append.mp he with he | he
    · exact .inl (mem_deps.mpr ⟨e, he, hp, hk, rfl⟩)
    · obtain ⟨q, hq, x, hx, rfl⟩ := mem_newEdges.mp he
      right
      have hj : j = (p, q.key) := Prod.ext hp.symm hk.symm
      subst hj
      refine ⟨?_, ?_⟩
      · simpa [ledger] using hnew q.key (List.mem_map.mpr ⟨q, hq, rfl⟩)
      · rcases hdeps q hq x hx with hold | hnewx
        · obtain ⟨m, hm⟩ := Option.isSome_iff_exists.mp hold
          simp [ledger, insertNodes_node?, hm]
        · simpa [ledger] using hnew x hnewx

theorem grow_refines (ha : db'.attempts = db.attempts) (he : db'.evidence = db.evidence)
    (hc : db'.acceptances = db.acceptances) (hg : Grows D (ledger db) (ledger db').facts (ledger db').deps) :
    Refines D db db' := by
  have heq : ledger db' = { ledger db with facts := (ledger db').facts, deps := (ledger db').deps } := by
    simp [ledger, DB.attempt?, DB.latestAttempt, ha, he, hc]
  refine Refines.of_step ?_
  rw [heq]
  exact .grow _ _ hg

theorem add_refines {specs : List NodeSpec} {keys : List String} (h : add host db p specs = .ok (keys, db')) :
    Refines D db db' := by
  obtain ⟨news, rfl, _, hfresh, hdeps⟩ := add_ok h
  exact grow_refines rfl rfl rfl (insertNodes_grows hfresh hdeps)

theorem split_refines {rev : Int} {reason : String} {children : List NodeSpec} {c : NodeChange}
    (h : split host db p k rev children reason = .ok (c, db')) : Refines D db db' := by
  simp only [split, bind_ok, pure_ok, Prod.mk.injEq] at h
  obtain ⟨_, _, ⟨keys, db₁⟩, hadd, ⟨c', db₂⟩, hrev, _, rfl⟩ := h
  exact (add_refines hadd).trans (revise_refines hrev)

/-- A node that the growth itself brought in may still change its status. -/
theorem grows_setNode {L : Ledger} {j : NodeId} {f : Node → Node}
    (hg : Grows D L (ledger db).facts (ledger db).deps) (hj : L.facts j = none) (hid : ∀ n, (f n).id = n.id)
    (hr : ∀ n, (f n).verifiedReceipt = n.verifiedReceipt)
    (hs : ∀ n, (f n).status ≠ .VERIFIED ∧ (D.review → (f n).status ≠ .CANDIDATE)) :
    Grows D L (ledger (db.setNode j f)).facts (ledger (db.setNode j f)).deps where
  kept := by
    intro i g hi
    have hne : i ≠ j := by
      rintro rfl
      rw [hj] at hi
      cases hi
    have hkept := hg.kept i g hi
    refine ⟨?_, hkept.2⟩
    simp only [ledger, setNode_node? f hid, if_neg hne]
    exact hkept.1
  fresh := by
    intro i g hi hgi
    obtain ⟨n, hn, rfl⟩ := node_of_fact hgi
    rw [setNode_node? f hid] at hn
    by_cases he : i = j
    · rw [if_pos he, Option.map_eq_some_iff] at hn
      obtain ⟨m, hm, rfl⟩ := hn
      have hm' := (hg.fresh i m.fact hi (ledger_fact hm)).1
      exact ⟨(hr m).trans hm', hs m⟩
    · rw [if_neg he] at hn
      exact hg.fresh i n.fact hi (ledger_fact hn)
  wired := by
    have hsome : ∀ i, ((ledger db).facts i).isSome → ((ledger (db.setNode j f)).facts i).isSome := by
      intro i h
      simp only [ledger, setNode_node? f hid] at h ⊢
      by_cases he : i = j
      · simpa [he] using h
      · simpa [he] using h
    intro i hi d hd
    rcases hg.wired i hi d hd with h | ⟨h1, h2⟩
    · exact .inl h
    · exact .inr ⟨hsome i h1, hsome d h2⟩

theorem legacyStatus_grows {L : Ledger} {source : String} {task : LegacyTask} (hD : ¬ D.review)
    (hg : Grows D L (ledger db).facts (ledger db).deps) (hj : L.facts (p, legacyKey task.id) = none) :
    Grows D L (ledger (legacyStatus db p source task)).facts (ledger (legacyStatus db p source task)).deps := by
  have hset : ∀ s : NodeStatus, s ≠ .VERIFIED →
      Grows D L (ledger (db.setNode (p, legacyKey task.id) (fun n => { n with status := s }))).facts
        (ledger (db.setNode (p, legacyKey task.id) (fun n => { n with status := s }))).deps := by
    intro s hs
    exact grows_setNode hg hj (fun _ => rfl) (fun _ => rfl) (fun _ => ⟨hs, fun h => absurd h hD⟩)
  unfold legacyStatus
  by_cases hc : task.status = "completed"
  · simp only [hc, if_true]
    exact hset .CANDIDATE (by decide)
  · simp only [hc, if_false]
    by_cases hsup : task.status = "superseded"
    · simp only [hsup, if_true]
      exact hset .SUPERSEDED (by decide)
    · simp only [hsup, if_false]
      exact hg

theorem legacyStatus_keeps (db : DB) (p source : String) (task : LegacyTask) :
    ((legacyStatus db p source task).attempts, (legacyStatus db p source task).evidence,
      (legacyStatus db p source task).acceptances) = (db.attempts, db.evidence, db.acceptances) := by
  unfold legacyStatus
  by_cases hc : task.status = "completed"
  · simp only [hc, if_true]
    rfl
  · by_cases hs : task.status = "superseded"
    · simp only [hs, if_true]
      rfl
    · simp only [hc, hs, if_false]
      rfl

theorem legacyTasks_grows {L : Ledger} {source : String} (hD : ¬ D.review) (tasks : List LegacyTask)
    (hj : ∀ task ∈ tasks, L.facts (p, legacyKey task.id) = none)
    (hg : Grows D L (ledger db).facts (ledger db).deps) :
    Grows D L (ledger (tasks.foldl (fun db task => legacyStatus db p source task) db)).facts
      (ledger (tasks.foldl (fun db task => legacyStatus db p source task) db)).deps := by
  induction tasks generalizing db with
  | nil => exact hg
  | cons task tasks ih =>
    refine ih (fun t ht => hj t (List.mem_cons_of_mem _ ht)) ?_
    exact legacyStatus_grows hD hg (hj task (List.mem_cons_self ..))

theorem importTasks_refines {source : String} {tasks : List LegacyTask} {keys : List String} (hD : ¬ D.review)
    (h : importTasks host db p source tasks = .ok (keys, db')) : Refines D db db' := by
  simp only [importTasks, bind_ok, pure_ok, ensure_ok, Prod.mk.injEq] at h
  obtain ⟨_, _, _, _, _, _, specs, hspecs, ⟨created, db₁⟩, hadd, _, rfl⟩ := h
  obtain ⟨news, rfl, hkeys, hfresh, hdeps⟩ := add_ok hadd
  have hlegacy : specs.map NodeSpec.key = tasks.map (fun t => legacyKey t.id) := by
    refine mapM_map (fun t b hb => ?_) hspecs
    simp only [bind_ok, pure_ok] at hb
    obtain ⟨_, _, goal, _, rfl⟩ := hb
    rfl
  have hnone : ∀ task ∈ tasks, (ledger db).facts (p, legacyKey task.id) = none := by
    intro task ht
    have hmem : legacyKey task.id ∈ news.map Prepared.key := by
      rw [hkeys, hlegacy]
      exact List.mem_map.mpr ⟨task, ht, rfl⟩
    obtain ⟨q, hq, hqk⟩ := List.mem_map.mp hmem
    rw [← hqk]
    exact ledger_fact_none.mpr (hfresh q hq)
  have hkept := foldl_keeps (fun d : DB => (d.attempts, d.evidence, d.acceptances))
    (fun d task => legacyStatus_keeps d p source task) (insertNodes host db p news) tasks
  simp only [Prod.mk.injEq] at hkept
  exact grow_refines hkept.1 hkept.2.1 hkept.2.2
    (legacyTasks_grows hD tasks hnone (insertNodes_grows hfresh hdeps))

end Add

section Labels

theorem createProject_refines {title : String} {source : Option String} {row : Project}
    (h : createProject db p title source = .ok (row, db')) : Refines D db db' := by
  simp only [createProject, bind_ok] at h
  obtain ⟨_, _, title', _, _, _, h⟩ := h
  cases hl : lookup Project.projectId db.projects p with
  | some existing =>
    simp only [hl, bind_ok, pure_ok, Prod.mk.injEq] at h
    obtain ⟨_, _, _, rfl⟩ := h
    exact Refines.refl db
  | none =>
    simp only [hl, pure_ok, Prod.mk.injEq] at h
    obtain ⟨_, rfl⟩ := h
    exact Refines.of_core rfl

theorem setFacet_refines {facet : String} {c : NodeChange} (h : setFacet db p k facet = .ok (c, db')) :
    Refines D db db' := by
  simp only [setFacet, bind_ok, pure_ok, ensure_ok, ite_ok, Prod.mk.injEq] at h
  obtain ⟨own, _, node, _, ⟨_, _, rfl⟩ | ⟨_, _, _, _, _, _, rfl⟩⟩ := h
  · exact Refines.refl db
  · exact Refines.of_eq (ledger_setNode_same (fun _ => rfl) (fun _ => rfl))

theorem setNodePriority_refines {priority expected : Int} {reason : String} {actor identity : Option String}
    {c : NodeChange} (h : setNodePriority db p k priority expected reason actor identity = .ok (c, db')) :
    Refines D db db' := by
  simp only [setNodePriority, bind_ok, pure_ok, ensure_ok, ite_ok, Prod.mk.injEq] at h
  obtain ⟨_, _, _, _, _, _, node, _, _, _, ⟨_, _, rfl⟩ | ⟨_, _, rfl⟩⟩ := h
  · exact Refines.refl db
  · exact Refines.of_eq (ledger_setNode_same (fun _ => rfl) (fun _ => rfl))

end Labels

section Design
variable {actor : String}

theorem createRevision_ok {createdAt : String} {spec : DesignSpec} {row : DesignRevision}
    (h : createRevision db p host actor createdAt spec = .ok (row, db')) :
    ∃ e, db' = { db with designRevisions := db.designRevisions ++ [row], events := db.events ++ [e] } := by
  simp only [createRevision, bind_ok, pure_ok, Prod.mk.injEq] at h
  obtain ⟨_, _, _, _, _, _, _, _, _, _, rfl, rfl⟩ := h
  exact ⟨_, rfl⟩

theorem createBaseline_ok {baselineId : String} {selected : List (String × Int)} {expected : Option String}
    {row : DesignBaseline} (h : createBaseline db p host actor baselineId selected expected = .ok (row, db')) :
    ∃ heads e, db' = { db with
      designBaselines := db.designBaselines ++ [row], designHeads := heads, events := db.events ++ [e] } := by
  simp only [createBaseline, bind_ok, pure_ok, Prod.mk.injEq] at h
  obtain ⟨_, _, _, _, _, _, _, _, _, _, _, _, _, _, _, _, _, _, _, _, rfl, rfl⟩ := h
  exact ⟨_, _, rfl⟩

theorem bindNode_ok {rev : Int} {baselineId reason : String} {bindings : List BindingSpec} {c : NodeChange}
    (h : bindNode db p host actor k rev baselineId bindings reason = .ok (c, db')) :
    ∃ db₁ row e, revise host db p k rev reason none none none = .ok (c, db₁) ∧
      db' = { db₁ with designBindings := db₁.designBindings ++ [row], events := db₁.events ++ [e] } := by
  simp only [bindNode, bind_ok, pure_ok, Prod.mk.injEq] at h
  obtain ⟨_, _, _, _, _, _, _, _, _, _, _, _, ⟨c', db₁⟩, hrev, _, _, rfl, rfl⟩ := h
  exact ⟨db₁, _, _, hrev, rfl⟩

theorem bindNode_refines {rev : Int} {baselineId reason : String} {bindings : List BindingSpec} {c : NodeChange}
    (h : bindNode db p host actor k rev baselineId bindings reason = .ok (c, db')) : Refines D db db' := by
  obtain ⟨db₁, row, e, hrev, rfl⟩ := bindNode_ok h
  exact (revise_refines hrev).trans (Refines.of_core rfl)

end Design

end AItelier.State
