import AItelier.Refine.Placement
import AItelier.Proofs.Acyclic

namespace AItelier.State

open AItelier.Lib

variable {db db' : DB} {host : Host} {caller : Caller} {p k : String} {j : NodeId}

section Closure

theorem mem_projectEdges {a b : String} : (a, b) ∈ projectEdges db p ↔ DependsOn db (p, a) (p, b) := by
  simp only [projectEdges, List.mem_map, List.mem_filter, decide_eq_true_eq, Prod.mk.injEq, DependsOn]
  constructor
  · rintro ⟨e, ⟨he, rfl⟩, rfl, rfl⟩
    exact ⟨e.dependencyKey, mem_depsOf.mpr he, trivial, rfl⟩
  · rintro ⟨key, hkey, _, rfl⟩
    exact ⟨_, ⟨mem_depsOf.mp hkey, rfl⟩, rfl, rfl⟩

theorem dependsOn_project {a b : NodeId} (h : DependsOn db a b) : b.1 = a.1 := by
  obtain ⟨_, _, rfl⟩ := h
  rfl

theorem reach_project {a b : NodeId} (h : Relation.ReflTransGen (DependsOn db) a b) : b.1 = a.1 := by
  induction h with
  | refl => rfl
  | tail _ hbc ih => exact (dependsOn_project hbc).trans ih

theorem reach_keys {a b : NodeId} (h : Relation.ReflTransGen (DependsOn db) a b) :
    Relation.ReflTransGen (fun x y => (x, y) ∈ projectEdges db a.1) a.2 b.2 := by
  induction h with
  | refl => exact .refl
  | tail hab hbc ih =>
    refine ih.tail (mem_projectEdges.mpr ?_)
    obtain ⟨key, hkey, rfl⟩ := hbc
    rw [← reach_project hab]
    exact ⟨key, hkey, rfl⟩

theorem mem_reached_iff : j ∈ reached db p k ↔ Relation.ReflTransGen (DependsOn db) j (p, k) := by
  rw [mem_reached, affected, mem_sortKeys, mem_dependentClosure]
  constructor
  · rintro ⟨hp, hr⟩
    have hlift := hr.lift (fun key => (p, key)) (fun a b hab => mem_projectEdges.mp hab)
    rwa [← hp] at hlift ⊢
  · intro hr
    have hp : p = j.1 := reach_project hr
    exact ⟨hp.symm, hp ▸ reach_keys hr⟩

end Closure

section Writes

/-- The write touches the node's status, receipt, revision or edges. -/
def Changed (db db' : DB) (j : NodeId) : Prop :=
  (db'.node? j).map (fun n => (n.status, n.verifiedReceipt, n.revision)) ≠
      (db.node? j).map (fun n => (n.status, n.verifiedReceipt, n.revision)) ∨
    depsOf db' j.1 j.2 ≠ depsOf db j.1 j.2

/-- No other driver holds a live claim or an active attempt of its own there. -/
structure FreeOf (db : DB) (driverId : Option String) (j : NodeId) : Prop where
  claims : ∀ c ∈ db.claims, c.node = j → c.status = .live → some c.driverId = driverId
  attempts : ∀ a ∈ db.attempts, a.node = j → a.status.active = true → ∀ owner, a.ownerDriverId = some owner →
    some owner = driverId

theorem setNode_other {f : Node → Node} {i : NodeId} (hf : ∀ n, (f n).id = n.id) (hne : j ≠ i) :
    (db.setNode i f).node? j = db.node? j := by
  rw [setNode_node? f hf, if_neg hne]

theorem invalidate_unchanged (hj : j ∉ reached db p k) : (invalidate db p k).node? j = db.node? j := by
  rw [invalidate_node?, if_neg hj]

variable {c : NodeChange} {rev : Int} {news : List Prepared}

theorem revised_reached {goal : Option String} {acceptance : Option (List CheckSpec)}
    {deps : Option (List String)} {old : Node} {own : List String} {newGoal : String}
    {checks : List Check} (h : Revised host db db' p k rev goal acceptance deps c old own newGoal checks)
    (hj : Changed db db' j) : j ∈ reached db p k := by
  by_contra hno
  have hne : j ≠ (p, k) := fun he => hno (he ▸ self_mem_reached)
  obtain ⟨e, rfl⟩ := h.written
  rcases hj with hnode | hdeps
  · refine hnode (congrArg _ ?_)
    have hset : ((invalidate db p k).setNode (p, k) (fun n => { n with
        revision := old.revision + 1, goal := newGoal, contract := checks,
        contractHash := contractDigest host checks })).node? j = (invalidate db p k).node? j :=
      setNode_other (fun _ => rfl) hne
    exact hset.trans (invalidate_unchanged hno)
  · refine hdeps ?_
    have hd : (ledger (writeRevision db p k (revisedNode host old newGoal checks) own)).deps j =
        (ledger db).deps j := by
      rw [writeRevision_deps, Function.update_of_ne hne]
    exact List.map_injective_iff.mpr (fun a b hab => congrArg Prod.snd hab) hd

theorem supersede_reached {reason : String}
    (h : supersede db p k rev reason = .ok (c, db')) (hj : Changed db db' j) : j ∈ reached db p k := by
  by_contra hno
  have hne : j ≠ (p, k) := fun he => hno (he ▸ self_mem_reached)
  simp only [supersede, bind_ok, pure_ok, ite_ok, Prod.mk.injEq] at h
  obtain ⟨old, _, _, _, _, _, _, _, ⟨_, _, rfl⟩ | ⟨_, _, rfl⟩⟩ := h
  · rcases hj with hnode | hdeps
    · exact hnode rfl
    · exact hdeps rfl
  · rcases hj with hnode | hdeps
    · refine hnode (congrArg _ ?_)
      have hset : ((invalidate db p k).setNode (p, k) (fun n => { n with status := .SUPERSEDED })).node? j =
          (invalidate db p k).node? j := setNode_other (fun _ => rfl) hne
      exact hset.trans (invalidate_unchanged hno)
    · exact hdeps rfl

theorem Wired.known {b : NodeId} {key : String} (h : Wired db) (hb : b ∈ db.ids)
    (he : ⟨b.1, b.2, key⟩ ∈ db.dependencies) : (b.1, key) ∈ db.ids := by
  have hmem : (b.2, depsOf db b.1 b.2) ∈ graphOf db b.1 := by
    rw [graphOf_eq]
    exact List.mem_map.mpr ⟨b.2, mem_projectKeys.mpr hb, rfl⟩
  exact mem_graphOf_ids.mp ((h.sound b.1).known _ hmem key (mem_depsOf.mpr he))

/-- A path from an old node after an addition is a path before it: old nodes keep
their edges, and these lead to old nodes. -/
theorem insertNodes_reach {graph : Graph} {facets : Facets} {a : NodeId} (hw : Wired db)
    (hc : Collected db p (graph, facets, news)) (ha : a ∈ db.ids)
    (hr : Relation.ReflTransGen (DependsOn (insertNodes host db p news)) a j) :
    Relation.ReflTransGen (DependsOn db) a j ∧ j ∈ db.ids := by
  induction hr with
  | refl => exact ⟨.refl, ha⟩
  | @tail b c _ hbc ih =>
    obtain ⟨hab, hb⟩ := ih
    obtain ⟨key, hkey, rfl⟩ := hbc
    have hedge : ⟨b.1, b.2, key⟩ ∈ (insertNodes host db p news).dependencies := mem_depsOf.mp hkey
    rcases List.mem_append.mp hedge with hold | hnew
    · have hstep : DependsOn db b (b.1, key) := ⟨key, mem_depsOf.mpr hold, rfl⟩
      exact ⟨hab.tail hstep, hw.known hb hold⟩
    · obtain ⟨q, hq, d, _, he⟩ := mem_newEdges.mp hnew
      have hb' : b = (p, q.key) := Prod.ext (congrArg Dependency.projectId he) (congrArg Dependency.nodeKey he)
      exact absurd (hb' ▸ hb) (hc.fresh q hq)

theorem insertNodes_node (hj : j ∈ db.ids) :
    (insertNodes host db p news).node? j = db.node? j := by
  have hsome : (db.node? j).isSome := by
    obtain ⟨n, hn, rfl⟩ := List.mem_map.mp hj
    exact lookup_isSome_of_mem hn
  obtain ⟨n, hn⟩ := Option.isSome_iff_exists.mp hsome
  have hfound : lookup Node.id db.nodes j = some n := hn
  rw [hn]
  simp only [DB.node?, insertNodes, lookup_append, hfound, Option.some_or]

theorem insertNodes_deps {graph : Graph} {facets : Facets}
    (hc : Collected db p (graph, facets, news)) (hj : j ∈ db.ids) :
    depsOf (insertNodes host db p news) j.1 j.2 = depsOf db j.1 j.2 := by
  have hnew : (news.flatMap (Prepared.edges p)).filter (fun d => decide (d.projectId = j.1 ∧ d.nodeKey = j.2)) =
      [] := by
    rw [List.filter_eq_nil_iff]
    intro e he hkey
    obtain ⟨q, hq, d, _, rfl⟩ := mem_newEdges.mp he
    rw [decide_eq_true_eq] at hkey
    exact hc.fresh q hq (by rwa [show (p, q.key) = j from Prod.ext hkey.1 hkey.2])
  simp only [depsOf, insertNodes, List.filter_append, hnew, List.append_nil]

/-- A split touches new nodes and dependents of the node as it was. -/
theorem split_reached {reason : String} {children : List NodeSpec}
    (hw : Wired db) (h : split host db p k rev children reason = .ok (c, db'))
    (hj : Changed db db' j) : j ∉ db.ids ∨ j ∈ reached db p k := by
  by_cases hold : j ∈ db.ids
  · right
    simp only [split, bind_ok, pure_ok, Prod.mk.injEq] at h
    obtain ⟨_, _, ⟨keys, db₁⟩, hadd, ⟨c', db₂⟩, hrev, _, rfl⟩ := h
    obtain ⟨graph, facets, news, hc, _, _, rfl⟩ := add_collected hadd
    obtain ⟨old, own, newGoal, checks, hr⟩ := revise_ok hrev
    have hchanged : Changed (insertNodes host db p news) db₂ j := by
      rcases hj with hnode | hdeps
      · left
        rwa [insertNodes_node hold]
      · right
        rwa [insertNodes_deps hc hold]
    have hreach := mem_reached_iff.mp (revised_reached hr hchanged)
    exact mem_reached_iff.mpr (insertNodes_reach hw hc hold hreach).1
  · exact .inl hold

end Writes

section Guard

/-- Without holders among the dependents, each of them is free of other drivers. -/
theorem free_of_holders (h : holders db p (affected db p k) caller.driverId = []) (hj : j ∈ reached db p k) :
    FreeOf db caller.driverId j := by
  obtain ⟨hp, hk⟩ := mem_reached.mp hj
  obtain ⟨hclaims, hattempts⟩ := List.append_eq_nil_iff.mp h
  rw [List.map_eq_nil_iff, List.filter_eq_nil_iff] at hclaims
  rw [List.filterMap_eq_nil_iff] at hattempts
  constructor
  · intro c hc hnode hlive
    by_contra hother
    have hno := hclaims c hc
    rw [decide_eq_true_eq] at hno
    rw [← hnode] at hp hk
    exact hno ⟨hp, hlive, hk, hother⟩
  · intro a ha hnode hactive owner howner
    by_contra hother
    have hno := hattempts a ha
    rw [← hnode] at hp hk
    have hp' : a.projectId = p := hp
    have hk' : a.nodeKey ∈ affected db p k := hk
    simp [howner, hp', hk', hactive, hother] at hno

theorem holders_of_free (h : ∀ j ∈ reached db p k, FreeOf db caller.driverId j) :
    holders db p (affected db p k) caller.driverId = [] := by
  refine List.append_eq_nil_iff.mpr ⟨?_, ?_⟩
  · rw [List.map_eq_nil_iff, List.filter_eq_nil_iff]
    intro c hc hheld
    rw [decide_eq_true_eq] at hheld
    obtain ⟨hp, hlive, hk, hother⟩ := hheld
    exact hother ((h c.node (mem_reached.mpr ⟨hp, hk⟩)).claims c hc rfl hlive)
  · rw [List.filterMap_eq_nil_iff]
    intro a ha
    cases howner : a.ownerDriverId with
    | none => rfl
    | some owner =>
      refine if_neg ?_
      rintro ⟨hp, hk, hactive, hother⟩
      exact hother ((h a.node (mem_reached.mpr ⟨hp, hk⟩)).attempts a ha rfl hactive owner howner)

/-- The owner check passes exactly where the node and its dependents are free of
other drivers. -/
theorem ownerCheck_iff {action : String} (he : enforced db p = true) (hadmin : caller.isAdmin = false) :
    (∃ held, structuralOwnerCheck db caller p k action = .ok held) ↔
      ∀ j, Relation.ReflTransGen (DependsOn db) j (p, k) → FreeOf db caller.driverId j := by
  simp only [structuralOwnerCheck, he, Bool.true_eq_false, if_false, hadmin, Bool.false_eq_true, or_false,
    ite_ok, pure_ok, throw_ok, and_false, or_false]
  constructor
  · rintro ⟨_, hnone, _⟩ j hj
    exact free_of_holders hnone (mem_reached_iff.mpr hj)
  · intro h
    exact ⟨_, holders_of_free (fun j hj => h j (mem_reached_iff.mp hj)), rfl⟩

theorem structural_guard {α : Type} {action : String} {write : DB → Result (α × DB)} {out : α}
    (he : enforced db p = true) (hadmin : caller.isAdmin = false)
    (h : structural db caller p k action write = .ok (out, db')) :
    holders db p (affected db p k) caller.driverId = [] ∧ write db = .ok (out, db') := by
  simp only [structural, structuralOwnerCheck, he, Bool.true_eq_false, if_false, hadmin, Bool.false_eq_true, or_false,
    bind_ok, ite_ok, pure_ok, throw_ok, and_false, or_false, Prod.mk.injEq] at h
  obtain ⟨held, ⟨hnone, rfl⟩, ⟨out', db₁⟩, hw, ⟨_, rfl, rfl⟩ | ⟨hne, _⟩⟩ := h
  · exact ⟨hnone, hw⟩
  · exact absurd hnone hne

end Guard

/-- The three structural writes the owner check is for. -/
inductive Structural (caller : Caller) (p k : String) : Request → Prop
  | revise (rev : Int) (reason : String) (goal : Option String) (acceptance : Option (List CheckSpec))
      (deps : Option (List String)) : Structural caller p k
        (.reviseNode (some caller) p k rev reason goal acceptance deps)
  | split (rev : Int) (children : List NodeSpec) (reason : String) :
      Structural caller p k (.splitNode (some caller) p k rev children reason)
  | supersede (rev : Int) (reason : String) : Structural caller p k (.supersedeNode (some caller) p k rev reason)

theorem structural_free {r : Request} {reply : Reply} (hw : Wired db) (hplaced : Placed db)
    (hattempts : ∀ a ∈ db.attempts, a.node ∈ db.ids) (hr : Structural caller p k r) (he : enforced db p = true)
    (hadmin : caller.isAdmin = false) (h : r.run host db = .ok (reply, db')) (hj : Changed db db' j) :
    FreeOf db caller.driverId j := by
  cases hr with
  | revise rev reason goal acceptance deps =>
    obtain ⟨c, hx⟩ := answer_ok h
    obtain ⟨hnone, hwrite⟩ := structural_guard he hadmin hx
    obtain ⟨old, own, newGoal, checks, hrev⟩ := revise_ok hwrite
    exact free_of_holders hnone (revised_reached hrev hj)
  | split rev children reason =>
    obtain ⟨c, hx⟩ := answer_ok h
    obtain ⟨hnone, hwrite⟩ := structural_guard he hadmin hx
    rcases split_reached hw hwrite hj with hnew | hreached
    · -- nobody can hold a node that did not exist
      constructor
      · intro c hc hnode
        exact absurd (hnode ▸ hplaced.claims c hc) hnew
      · intro a ha hnode
        exact absurd (hnode ▸ hattempts a ha) hnew
    · exact free_of_holders hnone hreached
  | supersede rev reason =>
    obtain ⟨c, hx⟩ := answer_ok h
    obtain ⟨hnone, hwrite⟩ := structural_guard he hadmin hx
    exact free_of_holders hnone (supersede_reached hwrite hj)

/-- In every state a run reaches, `_invalidate` takes the acceptance of exactly
the nodes that depend on the node and are not superseded, and writes nothing
else; the owner check of an enforced project guards exactly these nodes against a
driver that is no admin, and a structural write of such a driver goes through
only where no other driver holds a node it changes. -/
theorem invalidation_exact (host : Host) (ops : List Op) (p k : String) :
    (∀ j n, (after host ops).db.node? j = some n →
      (Relation.ReflTransGen (DependsOn (after host ops).db) j (p, k) ∧ n.status ≠ .SUPERSEDED →
        (invalidate (after host ops).db p k).node? j = some { n with status := .STALE, verifiedReceipt := none }) ∧
      (¬ (Relation.ReflTransGen (DependsOn (after host ops).db) j (p, k) ∧ n.status ≠ .SUPERSEDED) →
        (invalidate (after host ops).db p k).node? j = some n)) ∧
    (invalidate (after host ops).db p k).ids = (after host ops).db.ids ∧
    { invalidate (after host ops).db p k with nodes := (after host ops).db.nodes } = (after host ops).db ∧
    (∀ (caller : Caller) (action : String), enforced (after host ops).db p = true → caller.isAdmin = false →
      ((∃ held, structuralOwnerCheck (after host ops).db caller p k action = .ok held) ↔
        ∀ j, Relation.ReflTransGen (DependsOn (after host ops).db) j (p, k) →
          FreeOf (after host ops).db caller.driverId j)) ∧
    ∀ (caller : Caller) (r : Request) (reply : Reply) (db' : DB), Structural caller p k r →
      enforced (after host ops).db p = true → caller.isAdmin = false →
      r.run host (after host ops).db = .ok (reply, db') →
      ∀ j, Changed (after host ops).db db' j → FreeOf (after host ops).db caller.driverId j := by
  refine ⟨fun j n hn => ⟨?_, ?_⟩, map_modifyWhere (fun _ _ => by rfl) _, rfl, ?_, ?_⟩
  · rintro ⟨hr, hs⟩
    rw [invalidate_node?, if_pos (mem_reached_iff.mpr hr), hn]
    simp [Node.stale, hs]
  · intro hno
    rw [invalidate_node?]
    split_ifs with hr
    · have hs : n.status = .SUPERSEDED := by
        by_contra hs
        exact hno ⟨mem_reached_iff.mp hr, hs⟩
      simp [hn, Node.stale, hs]
    · exact hn
  · intro caller action he hadmin
    exact ownerCheck_iff he hadmin
  · intro caller r reply db' hr he hadmin h j hj
    exact structural_free (after_wired host ops) (after_placed host ops) (after_attempt_node host ops) hr he hadmin h hj

end AItelier.State
