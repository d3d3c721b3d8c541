import Mathlib.Data.List.Count
import AItelier.Lib.Acyclic
import AItelier.Refine.Graph

namespace AItelier.State

open AItelier.Lib

variable {g : Graph} {k n : String} {f : String → Nat} {done queue : List String}

/-- The keys of a graph. -/
def Graph.keys (g : Graph) : List String := g.map Prod.fst

/-- `k` lists `d` among its dependencies. -/
def Graph.Edge (g : Graph) (k d : String) : Prop := ∃ e ∈ g, e.1 = k ∧ d ∈ e.2

/-- What a project's dependencies must be: bounded, about nodes of the project,
and without a node that reaches itself. -/
structure Graph.Sound (g : Graph) : Prop where
  small : g.length ≤ maxNodes
  known : ∀ e ∈ g, ∀ d ∈ e.2, d ∈ g.keys
  acyclic : Acyclic g.Edge

section Degrees

/-- The degree table that gives each key its value of `f`. -/
def degrees (g : Graph) (f : String → Nat) : List (String × Nat) := g.map (fun e => (e.1, f e.1))

theorem degrees_find (hk : k ∈ g.keys) : (degrees g f).find? (fun d => d.1 = k) = some (k, f k) := by
  unfold degrees Graph.keys at *
  induction g with
  | nil => cases hk
  | cons e g ih =>
    by_cases he : e.1 = k
    · simp [he]
    · rw [List.map_cons, List.mem_cons] at hk
      have hrest := hk.resolve_left (fun h => he h.symm)
      simpa [he] using ih hrest

/-- One visited edge: the child's degree drops by one and the child is queued at
zero. -/
theorem relax_degrees (hk : k ∈ g.keys) : relax (degrees g f, queue) k =
    (degrees g (Function.update f k (f k - 1)), if f k - 1 = 0 then queue ++ [k] else queue) := by
  have hmap : (degrees g f).map (fun d => if d.1 = k then (d.1, d.2 - 1) else d) =
      degrees g (Function.update f k (f k - 1)) := by
    simp only [degrees, List.map_map]
    refine List.map_congr_left (fun e _ => ?_)
    by_cases he : e.1 = k
    · subst he
      simp
    · simp [he]
  have hfind := degrees_find (f := Function.update f k (f k - 1)) hk
  simp only [relax, hmap, hfind, Function.update_self, Option.map_some, Option.some.injEq]
  split_ifs <;> rfl

/-- A round over children that have as many open edges as they are listed: each
loses that many, and those that had no other are queued. -/
theorem foldl_relax {cs : List String} (queue : List String) (hkeys : ∀ c ∈ cs, c ∈ g.keys)
    (hopen : ∀ c, cs.count c ≤ f c) :
    ∃ ready : List String, cs.foldl relax (degrees g f, queue) =
      (degrees g (fun c => f c - cs.count c), queue ++ ready) ∧
      ready.Nodup ∧ ∀ c, c ∈ ready ↔ c ∈ cs ∧ f c = cs.count c := by
  induction cs generalizing f queue with
  | nil => exact ⟨[], by simp, by simp, by simp⟩
  | cons k cs ih =>
    have hk : k ∈ g.keys := hkeys k (List.mem_cons_self ..)
    have hcount : ∀ c, cs.count c ≤ Function.update f k (f k - 1) c := by
      intro c
      have hc := hopen c
      by_cases hck : c = k
      · subst hck
        rw [List.count_cons_self] at hc
        rw [Function.update_self]
        omega
      · rw [List.count_cons_of_ne (Ne.symm hck)] at hc
        rwa [Function.update_of_ne hck]
    have hfun : (fun c => Function.update f k (f k - 1) c - cs.count c) = fun c => f c - (k :: cs).count c := by
      funext c
      by_cases hck : c = k
      · subst hck
        rw [Function.update_self, List.count_cons_self]
        omega
      · rw [Function.update_of_ne hck, List.count_cons_of_ne (Ne.symm hck)]
    have hother : ∀ c, c ≠ k → (Function.update f k (f k - 1) c = cs.count c ↔ f c = (k :: cs).count c) := by
      intro c hck
      rw [Function.update_of_ne hck, List.count_cons_of_ne (Ne.symm hck)]
    have hself := hopen k
    rw [List.count_cons_self] at hself
    rw [List.foldl_cons, relax_degrees hk]
    obtain ⟨ready, hfold, hdistinct, hready⟩ := ih (if f k - 1 = 0 then queue ++ [k] else queue)
      (fun c hc => hkeys c (List.mem_cons_of_mem _ hc)) hcount
    by_cases hzero : f k - 1 = 0
    · -- the last open edge of `k`: it is queued now and not listed again
      have hgone : cs.count k = 0 := by omega
      have hkcs : k ∉ cs := List.count_eq_zero.mp hgone
      have hkr : k ∉ ready := fun hk => hkcs ((hready k).mp hk).1
      refine ⟨k :: ready, ?_, List.nodup_cons.mpr ⟨hkr, hdistinct⟩, ?_⟩
      · rw [hfold, hfun]
        simp [hzero]
      · intro c
        by_cases hck : c = k
        · subst hck
          simp only [List.mem_cons_self, List.count_cons_self, true_and, true_iff]
          omega
        · simp only [List.mem_cons, hck, false_or, hready, hother c hck]
    · refine ⟨ready, ?_, hdistinct, ?_⟩
      · rw [hfold, hfun]
        simp [hzero]
      · intro c
        by_cases hck : c = k
        · subst hck
          rw [hready, Function.update_self, List.count_cons_self]
          constructor
          · rintro ⟨_, he⟩
            exact ⟨List.mem_cons_self .., by omega⟩
          · rintro ⟨_, he⟩
            have hpos : 0 < cs.count c := by omega
            exact ⟨List.count_pos_iff.mp hpos, by omega⟩
        · simp only [List.mem_cons, hck, false_or, hready, hother c hck]

end Degrees

section Counting

theorem depsIn_of_mem (hg : g.keys.Nodup) {e : String × List String} (he : e ∈ g) : depsIn g e.1 = e.2 := by
  unfold depsIn Graph.keys at *
  induction g with
  | nil => cases he
  | cons x g ih =>
    rw [List.map_cons, List.nodup_cons] at hg
    rcases List.mem_cons.mp he with rfl | he
    · simp
    · have hne : x.1 ≠ e.1 := fun h => hg.1 (h ▸ List.mem_map.mpr ⟨e, he, rfl⟩)
      simpa [hne] using ih hg.2 he

/-- A key is listed among the children of `n` once for each time it lists `n`. -/
theorem count_children (hg : g.keys.Nodup) : (children g n).count k = (depsIn g k).count n := by
  unfold children depsIn Graph.keys at *
  induction g with
  | nil => simp
  | cons e g ih =>
    rw [List.map_cons, List.nodup_cons] at hg
    have hconst : ∀ l : List String, (l.map (fun _ => e.1)).count k = if e.1 = k then l.length else 0 := by
      intro l
      induction l with
      | nil => simp
      | cons a l ihl =>
        rw [List.map_cons, List.count_cons, ihl]
        by_cases hk : e.1 = k
        · simp [hk]
        · simp [hk]
    have hfilter : (e.2.filter (fun d => decide (d = n))).length = e.2.count n := by
      rw [List.count_eq_length_filter]
      congr 1
    rw [List.flatMap_cons, List.count_append, ih hg.2, hconst, hfilter]
    by_cases hk : e.1 = k
    · have hnone : g.find? (fun x => decide (x.1 = k)) = none := by
        rw [List.find?_eq_none]
        intro x hx hxk
        rw [decide_eq_true_eq] at hxk
        exact hg.1 (hk ▸ hxk ▸ List.mem_map.mpr ⟨x, hx, rfl⟩)
      simp [hk, hnone]
    · simp [hk]

theorem children_keys {c : String} (hc : c ∈ children g n) : c ∈ g.keys := by
  simp only [children, List.mem_flatMap, List.mem_map] at hc
  obtain ⟨e, he, _, _, rfl⟩ := hc
  exact List.mem_map.mpr ⟨e, he, rfl⟩

/-- The dependencies of `k` that are not visited yet. -/
def remaining (g : Graph) (done : List String) (k : String) : Nat :=
  (depsIn g k).countP (fun d => decide (d ∉ done))

theorem remaining_eq_zero : remaining g done k = 0 ↔ ∀ d ∈ depsIn g k, d ∈ done := by
  simp [remaining, List.countP_eq_zero]

/-- Visiting `n` closes the edges to it. -/
theorem remaining_visit (hn : n ∉ done) : remaining g (done ++ [n]) k + (depsIn g k).count n = remaining g done k := by
  unfold remaining
  induction depsIn g k with
  | nil => rfl
  | cons d l ih =>
    rw [List.countP_cons, List.countP_cons, List.count_cons]
    generalize l.countP (fun d => decide (d ∉ done ++ [n])) = after at *
    generalize l.countP (fun d => decide (d ∉ done)) = before at *
    by_cases hd : d = n
    · subst hd
      simp only [List.mem_append, List.mem_singleton, or_true, not_true_eq_false, decide_false, hn,
        not_false_eq_true, decide_true, BEq.rfl, if_true]
      simp only [Bool.false_eq_true, if_false]
      omega
    · have hmem : d ∈ done ++ [n] ↔ d ∈ done := by simp [hd]
      simp only [hmem, beq_eq_false_iff_ne.mpr hd, Bool.false_eq_true, if_false]
      omega

end Counting

section Traversal

/-- The state of the traversal between two rounds: `done` are the visited nodes,
and exactly the nodes without an open edge were ever queued. -/
structure Visiting (g : Graph) (done queue : List String) : Prop where
  distinct : (done ++ queue).Nodup
  nodes : ∀ k ∈ done ++ queue, k ∈ g.keys
  ready : ∀ k ∈ g.keys, k ∈ done ++ queue ↔ remaining g done k = 0
  settled : Settled g.Edge done

theorem edge_iff (hg : g.keys.Nodup) {d : String} : g.Edge k d ↔ k ∈ g.keys ∧ d ∈ depsIn g k := by
  constructor
  · rintro ⟨e, he, rfl, hd⟩
    exact ⟨List.mem_map.mpr ⟨e, he, rfl⟩, by rwa [depsIn_of_mem hg he]⟩
  · rintro ⟨hk, hd⟩
    obtain ⟨e, he, rfl⟩ := List.mem_map.mp hk
    exact ⟨e, he, rfl, by rwa [depsIn_of_mem hg he] at hd⟩

theorem Visiting.start (hg : g.keys.Nodup) :
    Visiting g [] (((g.map (fun e => (e.1, e.2.length))).filter (fun d => d.2 = 0)).map Prod.fst) := by
  have hqueue : ((g.map (fun e => (e.1, e.2.length))).filter (fun d => d.2 = 0)).map Prod.fst =
      (g.filter (fun e => decide (e.2.length = 0))).map Prod.fst := by
    simp [List.filter_map, Function.comp_def]
  rw [hqueue]
  refine ⟨?_, ?_, ?_, Settled.nil⟩
  · exact (List.filter_sublist.map Prod.fst).nodup hg
  · intro k hk
    obtain ⟨e, he, rfl⟩ := List.mem_map.mp hk
    exact List.mem_map.mpr ⟨e, (List.mem_filter.mp he).1, rfl⟩
  · intro k hk
    obtain ⟨e, he, rfl⟩ := List.mem_map.mp hk
    rw [remaining_eq_zero, depsIn_of_mem hg he, List.nil_append, List.mem_map]
    constructor
    · rintro ⟨x, hx, hxe⟩
      obtain ⟨hx, hlen⟩ := List.mem_filter.mp hx
      have hsame : x.2 = e.2 := by rw [← depsIn_of_mem hg hx, hxe, depsIn_of_mem hg he]
      have hnil : e.2 = [] := by simpa [hsame] using hlen
      simp [hnil]
    · intro hall
      have hnil : e.2 = [] := List.eq_nil_iff_forall_not_mem.mpr (fun d hd => by simpa using hall d hd)
      exact ⟨e, List.mem_filter.mpr ⟨he, by simp [hnil]⟩, rfl⟩

/-- One round: the front of the queue is visited, its edges close, and the nodes
that had no other open edge join the queue. -/
theorem Visiting.step (hg : g.keys.Nodup) (h : Visiting g done (n :: queue)) :
    ∃ ready, (children g n).foldl relax (degrees g (remaining g done), queue) =
      (degrees g (remaining g (done ++ [n])), queue ++ ready) ∧ Visiting g (done ++ [n]) (queue ++ ready) := by
  have hdistinct := h.distinct
  have hn : n ∉ done := by
    intro hmem
    exact (List.disjoint_of_nodup_append hdistinct) hmem (List.mem_cons_self ..)
  have hnkey : n ∈ g.keys := h.nodes n (by simp)
  have hcount : ∀ c, (children g n).count c ≤ remaining g done c := by
    intro c
    rw [count_children hg, ← remaining_visit hn]
    omega
  obtain ⟨ready, hfold, hrdistinct, hready⟩ := foldl_relax queue (fun c => children_keys) hcount
  have hfun : (fun c => remaining g done c - (children g n).count c) = remaining g (done ++ [n]) := by
    funext c
    rw [count_children hg, ← remaining_visit hn]
    omega
  have hnew : ∀ c, c ∈ ready ↔ 0 < (depsIn g c).count n ∧ remaining g (done ++ [n]) c = 0 := by
    intro c
    rw [hready, ← List.count_pos_iff, count_children hg, ← remaining_visit hn]
    omega
  have hlist : done ++ [n] ++ (queue ++ ready) = (done ++ n :: queue) ++ ready := by simp
  refine ⟨ready, by rw [hfold, hfun], ?_, ?_, ?_, ?_⟩
  · rw [hlist, List.nodup_append]
    refine ⟨hdistinct, hrdistinct, ?_⟩
    rintro a ha b hb rfl
    -- a queued node had no open edge, a ready one had the edge to `n`
    have hzero := (h.ready a (h.nodes a ha)).mp ha
    have hopen := (hnew a).mp hb
    rw [← remaining_visit hn] at hzero
    omega
  · rw [hlist]
    intro k hk
    rcases List.mem_append.mp hk with hk | hk
    · exact h.nodes k hk
    · exact children_keys ((hready k).mp hk).1
  · intro k hk
    rw [hlist, List.mem_append, h.ready k hk, hnew, ← remaining_visit hn]
    omega
  · refine h.settled.snoc hn (fun b hb => ?_)
    have hzero := (h.ready n hnkey).mp (by simp)
    exact remaining_eq_zero.mp hzero b ((edge_iff hg).mp hb).2

/-- The whole traversal: with a round for each node the queue runs empty. -/
theorem kahn_visits (hg : g.keys.Nodup) (fuel : Nat) (h : Visiting g done queue)
    (hfuel : g.length ≤ done.length + fuel) : ∃ visited,
      kahn g fuel (degrees g (remaining g done)) queue done.length = visited.length ∧ Visiting g visited [] := by
  induction fuel generalizing done queue with
  | zero =>
    have hlen : (done ++ queue).length ≤ g.keys.length := (List.subperm_of_subset h.distinct h.nodes).length_le
    have hqueue : queue = [] := by
      rw [List.length_append, Graph.keys, List.length_map] at hlen
      exact List.length_eq_zero_iff.mp (by omega)
    subst hqueue
    exact ⟨done, rfl, h⟩
  | succ fuel ih =>
    cases queue with
    | nil => exact ⟨done, rfl, h⟩
    | cons n queue =>
      obtain ⟨ready, hround, hnext⟩ := h.step hg
      have hlen : (done ++ [n]).length = done.length + 1 := by simp
      have hrest := ih hnext (by omega)
      rw [hlen] at hrest
      simpa only [kahn, hround] using hrest

end Traversal

/-- All nodes are visited exactly when no node reaches itself. -/
theorem visiting_all (hg : g.keys.Nodup) (hknown : ∀ e ∈ g, ∀ d ∈ e.2, d ∈ g.keys) (h : Visiting g done []) :
    done.length = g.length ↔ Acyclic g.Edge := by
  have hdistinct : done.Nodup := by simpa using h.distinct
  have hnodes : ∀ k ∈ done, k ∈ g.keys := by simpa using h.nodes
  have hedge : ∀ {k d}, g.Edge k d → k ∈ g.keys := fun hkd => ((edge_iff hg).mp hkd).1
  constructor
  · intro hlen a hcycle
    have hsub : g.keys ⊆ done :=
      ((List.subperm_of_subset hdistinct hnodes).perm_of_length_le (by simp [Graph.keys, hlen])).symm.subset
    obtain ⟨b, hab, _⟩ := Relation.TransGen.head'_iff.mp hcycle
    exact h.settled.acyclic a (hsub (hedge hab)) hcycle
  · intro hacyclic
    have hclosed : DownClosed g.Edge g.keys := by
      rintro a _ b ⟨e, he, _, hb⟩
      exact hknown e he b hb
    have hall := hacyclic.exhausts (s := done) hclosed (by
      intro a ha hin
      have hzero : remaining g done a = 0 :=
        remaining_eq_zero.mpr (fun d hd => hin d ((edge_iff hg).mpr ⟨ha, hd⟩))
      simpa using (h.ready a ha).mpr hzero)
    have hle : g.keys.length ≤ done.length := (List.subperm_of_subset hg hall).length_le
    have hge : done.length ≤ g.keys.length := (List.subperm_of_subset hdistinct hnodes).length_le
    rw [Graph.keys, List.length_map] at hle hge
    omega

theorem edgeErrors_iff {l : Graph} {u : Unit} :
    edgeErrors g l = .ok u ↔ ∀ e ∈ l, e.1 ∉ e.2 ∧ ∀ d ∈ e.2, d ∈ g.keys := by
  induction l with
  | nil => simp [edgeErrors]
  | cons e l ih =>
    obtain ⟨node, deps⟩ := e
    simp only [edgeErrors, bind_ok, ensure_ok, ih, List.all_eq_true, decide_eq_true_eq, List.forall_mem_cons]
    constructor
    · rintro ⟨_, hself, _, hdeps, hrest⟩
      exact ⟨⟨hself, hdeps⟩, hrest⟩
    · rintro ⟨⟨hself, hdeps⟩, hrest⟩
      exact ⟨(), hself, (), hdeps, hrest⟩

/-- `_validate_dag` accepts exactly the sound graphs. -/
theorem validateDag_iff (hg : g.keys.Nodup) : validateDag g = .ok () ↔ g.Sound := by
  have hdegrees : g.map (fun e => (e.1, e.2.length)) = degrees g (remaining g []) := by
    refine List.map_congr_left (fun e he => ?_)
    simp [remaining, depsIn_of_mem hg he]
  obtain ⟨visited, hkahn, hvisited⟩ := kahn_visits hg g.length (Visiting.start hg) (by simp)
  rw [← hdegrees, List.length_nil] at hkahn
  simp only [validateDag, bind_ok, ensure_ok, edgeErrors_iff, hkahn]
  constructor
  · rintro ⟨_, hsmall, _, hedges, hall⟩
    have hknown : ∀ e ∈ g, ∀ d ∈ e.2, d ∈ g.keys := fun e he => (hedges e he).2
    exact ⟨hsmall, hknown, (visiting_all hg hknown hvisited).mp hall⟩
  · intro h
    refine ⟨(), h.small, (), fun e he => ⟨?_, h.known e he⟩, (visiting_all hg h.known hvisited).mpr h.acyclic⟩
    intro hself
    exact h.acyclic e.1 (.single ⟨e, he, rfl, hself⟩)

end AItelier.State
