import AItelier.Todo.Plan

namespace AItelier.Todo

open AItelier.Lib

variable {library : PredicateLibrary} {earlier : List String} {items : List Item} {i last : Item} {b : Binding}
  {plan : TodoPlan} {itemId s : String}

theorem valid_ok {c : Bool} {reason : String} {u : Unit} : valid c reason = .ok u ↔ c = true := by
  unfold valid
  rw [ensure_ok]

theorem text_ok {data : Dict} {key label : String} {empty : Bool} :
    text data key label empty = .ok s ↔ data.get key = .str s ∧ (empty = true ∨ State.strip s ≠ "") := by
  unfold text
  cases data.get key with
  | str t =>
    simp only [bind_ok, valid_ok, pure_ok, exists_const, Bool.or_eq_true, bne_iff_ne, Value.str.injEq]
    constructor
    · rintro ⟨h, rfl⟩
      exact ⟨rfl, h⟩
    · rintro ⟨rfl, h⟩
      exact ⟨h, rfl⟩
  | _ => simp [refuse]

/-- The library can evaluate the binding, and its paths stay in the workspace. -/
structure Bound (library : PredicateLibrary) (itemId : String) (b : Binding) : Prop where
  checked : check library b = .ok ()
  paths : bindingPaths itemId b = .ok ()

theorem parseBinding_bound {entry : Value} (h : parseBinding library itemId entry = .ok b) :
    Bound library itemId b := by
  unfold parseBinding at h
  split at h
  · simp only [bind_ok] at h
    obtain ⟨_, -, h⟩ := h
    split at h
    · split at h
      · next hcheck =>
        simp only [bind_ok, pure_ok] at h
        obtain ⟨_, hpaths, rfl⟩ := h
        exact ⟨hcheck, hpaths⟩
      · split at h <;> cases h
    · cases h
  · cases h

theorem parseBinding_json (h : Bound library itemId b) :
    parseBinding library itemId (TodoPlan.bindingJson b) = .ok b := by
  unfold parseBinding TodoPlan.bindingJson
  simp only [bind_ok, valid_ok]
  refine ⟨(), rfl, ?_⟩
  split
  · next args hargs =>
    have hsame : Value.obj b.args = .obj args := hargs
    obtain rfl := Value.obj.inj hsame
    split
    · change (do
        bindingPaths itemId b
        return b) = _
      simp only [h.paths, ok_bind]
      rfl
    · next exc hcheck => cases hcheck.symm.trans h.checked
  · next hargs => exact absurd rfl (hargs b.args)

structure ItemFits (library : PredicateLibrary) (earlier : List String) (i : Item) : Prop where
  named : State.strip i.id ≠ ""
  plain : State.isKey i.id = true
  notDeliver : i.id ≠ deliver
  fresh : i.id ∉ earlier
  needs : ∀ n ∈ i.needs, n ∈ earlier
  some : i.predicates ≠ []
  few : i.predicates.length ≤ maxPredicates
  bound : ∀ b ∈ i.predicates, Bound library i.id b

theorem parseItem_fits {raw : Value} (h : parseItem library earlier raw = .ok i) : ItemFits library earlier i := by
  unfold parseItem at h
  split at h
  · next fields =>
    simp only [bind_ok, valid_ok, text_ok, Bool.and_eq_true, bne_iff_ne, Bool.not_eq_true', exists_const] at h
    obtain ⟨-, itemId, ⟨-, hnamed⟩, ⟨⟨hplain, hdeliver⟩, hfresh⟩, title, -, h⟩ := h
    split at h
    · next names hnames =>
      simp only [bind_ok, valid_ok, exists_const] at h
      obtain ⟨hneeds, h⟩ := h
      split at h
      · next entries hentries =>
        simp only [bind_ok, valid_ok, ensure_ok, pure_ok, exists_const] at h
        obtain ⟨hsome, hfew, predicates, hpredicates, rfl⟩ := h
        have hlength : predicates.length = entries.length := by
          have hmap := mapM_map (k := fun _ => ()) (g := fun _ => ()) (fun _ _ _ => rfl) hpredicates
          simpa using congrArg List.length hmap
        refine ⟨by simpa using hnamed, hplain, hdeliver, by simpa using hfresh, ?_, ?_, hlength ▸ hfew, ?_⟩
        · intro n hn
          obtain ⟨v, hv, hname⟩ := List.mem_filterMap.mp hn
          obtain ⟨e, he, htext⟩ := List.any_eq_true.mp (List.all_eq_true.mp hneeds v hv)
          rw [Value.isText_iff] at htext
          subst htext
          cases hname
          exact he
        · intro hnil
          change predicates = [] at hnil
          rw [hnil, List.length_nil] at hlength
          rw [List.length_eq_zero_iff.mp hlength.symm] at hsome
          cases hsome
        · intro b hb
          obtain ⟨entry, -, hentry⟩ := mapM_mem hpredicates hb
          exact parseBinding_bound hentry
      · cases h
    · cases h
  · cases h

theorem mapM_json {bs : List Binding} (h : ∀ b ∈ bs, Bound library itemId b) :
    (bs.map TodoPlan.bindingJson).mapM (parseBinding library itemId) = .ok bs := by
  induction bs with
  | nil => rfl
  | cons b bs ih =>
    rw [List.forall_mem_cons] at h
    simp only [List.map_cons, List.mapM_cons, parseBinding_json h.1, ih h.2, ok_bind]
    rfl

theorem names_texts (names : List String) : (names.map Value.str).filterMap nameOf = names := by
  induction names with
  | nil => rfl
  | cons n names ih => simp [nameOf, ih]

theorem parseItem_json (h : ItemFits library earlier i) : parseItem library earlier (TodoPlan.itemJson i) = .ok i := by
  have hneeds : (i.needs.map Value.str).all (fun n => earlier.any n.isText) = true := by
    simp only [List.all_map, List.all_eq_true, Function.comp_apply, List.any_eq_true]
    exact fun n hn => ⟨n, h.needs n hn, beq_self_eq_true n⟩
  have hsome : (i.predicates.map TodoPlan.bindingJson).isEmpty = false := by
    rw [List.isEmpty_eq_false_iff, ne_eq, List.map_eq_nil_iff]
    exact h.some
  unfold parseItem TodoPlan.itemJson
  simp only [bind_ok, valid_ok, text_ok]
  refine ⟨(), rfl, i.id, ⟨rfl, .inr h.named⟩, (), ?_, i.title, ⟨rfl, .inl trivial⟩, ?_⟩
  · simp [h.plain, h.notDeliver, h.fresh]
  · change (do
      valid ((i.needs.map Value.str).all (fun n => earlier.any n.isText)) _
      (do
        valid (!(i.predicates.map TodoPlan.bindingJson).isEmpty) _
        ensure ((i.predicates.map TodoPlan.bindingJson).length ≤ maxPredicates) _
        let predicates ← (i.predicates.map TodoPlan.bindingJson).mapM (parseBinding library i.id)
        return (⟨i.id, i.title, predicates, (i.needs.map Value.str).filterMap nameOf⟩ : Item))) = _
    simp only [bind_ok, valid_ok, ensure_ok, pure_ok, names_texts, List.length_map, hsome]
    exact ⟨(), hneeds, (), rfl, (), h.few, _, mapM_json h.bound, rfl⟩

/-- Each item fits after those before it. -/
def AllFit (library : PredicateLibrary) : List Item → List Item → Prop
  | _, [] => True
  | before, i :: rest => ItemFits library (before.map Item.id) i ∧ AllFit library (before ++ [i]) rest

theorem parseItems_fit {before : List Item} {raws : List Value} (h : parseItems library before raws = .ok items) :
    ∃ new, items = before ++ new ∧ AllFit library before new ∧ new.length = raws.length := by
  induction raws generalizing before with
  | nil =>
    cases h
    exact ⟨[], (List.append_nil _).symm, trivial, rfl⟩
  | cons raw raws ih =>
    simp only [parseItems, bind_ok] at h
    obtain ⟨i, hi, h⟩ := h
    obtain ⟨new, rfl, hfit, hlength⟩ := ih h
    refine ⟨i :: new, by simp, ⟨parseItem_fits hi, hfit⟩, ?_⟩
    rw [List.length_cons, List.length_cons, hlength]

theorem parseItems_json {before : List Item} (h : AllFit library before items) :
    parseItems library before (items.map TodoPlan.itemJson) = .ok (before ++ items) := by
  induction items generalizing before with
  | nil =>
    rw [List.append_nil]
    rfl
  | cons i rest ih =>
    have hrest := ih h.2
    rw [List.append_assoc, List.singleton_append] at hrest
    simp only [List.map_cons, parseItems, parseItem_json h.1, ok_bind, hrest]

/-- The ids of items that fit are new and their own. -/
theorem AllFit.ids {before : List Item} (h : AllFit library before items) :
    (items.map Item.id).Nodup ∧ ∀ i ∈ items, i.id ≠ deliver ∧ i.id ∉ before.map Item.id := by
  induction items generalizing before with
  | nil => exact ⟨List.nodup_nil, fun i hi => absurd hi List.not_mem_nil⟩
  | cons i rest ih =>
    obtain ⟨hfits, hrest⟩ := h
    obtain ⟨hnodup, hnew⟩ := ih hrest
    have hlater : ∀ j ∈ rest, j.id ∉ before.map Item.id ∧ j.id ≠ i.id := by
      intro j hj
      have hout := (hnew j hj).2
      simp only [List.map_append, List.map_cons, List.map_nil, List.mem_append, List.mem_singleton, not_or] at hout
      exact hout
    constructor
    · rw [List.map_cons, List.nodup_cons]
      refine ⟨fun hmem => ?_, hnodup⟩
      obtain ⟨j, hj, heq⟩ := List.mem_map.mp hmem
      exact (hlater j hj).2 heq
    · intro j hj
      rcases List.mem_cons.mp hj with rfl | hj
      · exact ⟨hfits.notDeliver, hfits.fresh⟩
      · exact ⟨(hnew j hj).1, (hlater j hj).1⟩

/-- What a plan that was accepted satisfies. -/
structure PlanFits (library : PredicateLibrary) (plan : TodoPlan) : Prop where
  attempt : State.strip plan.attemptId ≠ "" ∧ State.isKey plan.attemptId = true
  node : State.strip plan.nodeKey ≠ ""
  context : State.strip plan.contextHash ≠ ""
  goal : State.strip plan.goal ≠ ""
  base : State.strip plan.baseSha ≠ "" ∧ (State.isHexOf 40 plan.baseSha || State.isHexOf 64 plan.baseSha) = true
  workspace : State.strip plan.workspace ≠ "" ∧ startsWith '/' plan.workspace = true
  scope : plan.scope ≠ [] ∧ (∀ g ∈ plan.scope, g ≠ "") ∧ ∀ g ∈ plan.scope, relative (.str g) "scope entry" = .ok ()
  items : ∃ items last, plan.items = items ++ [last] ∧ items.length ≤ maxItems ∧ AllFit library [] items ∧
    deliverItem library items plan.baseSha plan.scope = .ok last

theorem texts_of_nonempty {globs : List Value} (h : globs.all isNonemptyText = true) :
    globs = (globs.filterMap nameOf).map .str ∧ ∀ g ∈ globs.filterMap nameOf, g ≠ "" := by
  induction globs with
  | nil => exact ⟨rfl, fun g hg => absurd hg List.not_mem_nil⟩
  | cons v globs ih =>
    rw [List.all_cons, Bool.and_eq_true] at h
    obtain ⟨htexts, hnonempty⟩ := ih h.2
    cases v with
    | str s =>
      have hs : s ≠ "" := by simpa [isNonemptyText] using h.1
      refine ⟨by simp [nameOf, ← htexts], fun g hg => ?_⟩
      rcases List.mem_cons.mp hg with rfl | hg
      · exact hs
      · exact hnonempty g hg
    | _ => simp [isNonemptyText] at h

theorem fromJson_fits {data : Value} (h : TodoPlan.fromJson library data = .ok plan) : PlanFits library plan := by
  unfold TodoPlan.fromJson at h
  split at h
  · next fields =>
    simp only [bind_ok, valid_ok, text_ok, exists_const, Bool.false_eq_true, false_or] at h
    obtain ⟨-, attemptId, ⟨-, hattempt⟩, hplain, nodeKey, ⟨-, hnode⟩, contextHash, ⟨-, hcontext⟩, goal, ⟨-, hgoal⟩,
      baseSha, ⟨-, hbase⟩, hsha, workspace, ⟨-, hworkspace⟩, habsolute, h⟩ := h
    split at h
    · next globs hglobs =>
      simp only [bind_ok, valid_ok, forM_ok, exists_const, Bool.and_eq_true, Bool.not_eq_true',
        List.isEmpty_eq_false_iff] at h
      obtain ⟨⟨hsome, hall⟩, hrelative, h⟩ := h
      obtain ⟨htexts, hnonempty⟩ := texts_of_nonempty hall
      split at h
      · next raws hraws =>
        simp only [bind_ok, ensure_ok, pure_ok, exists_const] at h
        obtain ⟨hfew, items, hitems, last, hlast, rfl⟩ := h
        obtain ⟨new, hnew, hfit, hlength⟩ := parseItems_fit hitems
        rw [List.nil_append] at hnew
        subst hnew
        refine ⟨⟨hattempt, hplain⟩, hnode, hcontext, hgoal, ⟨hbase, hsha⟩, ⟨hworkspace, habsolute⟩,
          ⟨?_, hnonempty, ?_⟩, items, last, rfl, hlength ▸ hfew, hfit, hlast⟩
        · intro hnil
          change globs.filterMap nameOf = [] at hnil
          rw [hnil] at htexts
          exact hsome htexts
        · intro g hg
          exact hrelative _ (htexts ▸ List.mem_map_of_mem hg)
      · cases h
    · cases h
  · cases h

theorem deliverItem_id {sha : String} {scope : List String} (h : deliverItem library items sha scope = .ok last) :
    last.id = deliver := by
  unfold deliverItem at h
  simp only [bind_ok, pure_ok] at h
  obtain ⟨_, -, _, -, rfl⟩ := h
  rfl

theorem PlanFits.ids_nodup (h : PlanFits library plan) : (plan.items.map Item.id).Nodup := by
  obtain ⟨items, last, hitems, -, hfit, hlast⟩ := h.items
  rw [hitems, List.map_append, List.nodup_append]
  refine ⟨hfit.ids.1, List.nodup_singleton _, ?_⟩
  intro a ha b hb heq
  obtain ⟨j, hj, rfl⟩ := List.mem_map.mp ha
  rw [List.map_cons, List.map_nil, List.mem_singleton, deliverItem_id hlast] at hb
  exact (hfit.ids.2 j hj).1 (heq.trans hb)

theorem filter_directors (hfit : AllFit library [] items) (hlast : last.id = deliver) :
    ((items ++ [last]).map TodoPlan.itemJson).filter TodoPlan.isDirectors = items.map TodoPlan.itemJson := by
  have hdirectors (j : Item) : TodoPlan.isDirectors (TodoPlan.itemJson j) = !(j.id == deliver) := rfl
  rw [List.map_append, List.filter_append, List.filter_eq_self.mpr]
  · simp [hdirectors, hlast]
  · intro v hv
    obtain ⟨j, hj, rfl⟩ := List.mem_map.mp hv
    rw [hdirectors]
    simpa using (hfit.ids.2 j hj).1

/-- A plan that fits is read back from its JSON as it is. -/
theorem fromStored_asJson (h : PlanFits library plan) : TodoPlan.fromStored library plan.asJson = .ok plan := by
  obtain ⟨items, last, hitems, hfew, hfit, hlast⟩ := h.items
  have hfilter := filter_directors hfit (deliverItem_id hlast)
  have hstored : TodoPlan.fromStored library plan.asJson = TodoPlan.fromJson library (.obj (plan.asJson.put "items"
      (.arr (items.map TodoPlan.itemJson)))) := by
    rw [← hfilter, ← hitems]
    rfl
  have hglobs : (plan.scope.map Value.str).all isNonemptyText = true := by
    simp only [List.all_map, List.all_eq_true, Function.comp_apply, isNonemptyText, bne_iff_ne]
    exact h.scope.2.1
  have hsome : (plan.scope.map Value.str).isEmpty = false := by
    rw [List.isEmpty_eq_false_iff, ne_eq, List.map_eq_nil_iff]
    exact h.scope.1
  have hparsed := parseItems_json hfit
  rw [List.nil_append] at hparsed
  rw [hstored]
  unfold TodoPlan.fromJson TodoPlan.asJson
  simp only [bind_ok, valid_ok, text_ok]
  refine ⟨(), rfl, plan.attemptId, ⟨rfl, .inr h.attempt.1⟩, (), h.attempt.2, plan.nodeKey, ⟨rfl, .inr h.node⟩,
    plan.contextHash, ⟨rfl, .inr h.context⟩, plan.goal, ⟨rfl, .inr h.goal⟩, plan.baseSha, ⟨rfl, .inr h.base.1⟩, (),
    h.base.2, plan.workspace, ⟨rfl, .inr h.workspace.1⟩, (), h.workspace.2, ?_⟩
  change (do
    valid (!(plan.scope.map Value.str).isEmpty && (plan.scope.map Value.str).all isNonemptyText) _
    (plan.scope.map Value.str).forM fun glob => relative glob "scope entry"
    (do
      ensure ((items.map TodoPlan.itemJson).length ≤ maxItems) _
      let parsed ← parseItems library [] (items.map TodoPlan.itemJson)
      let appended ← deliverItem library parsed plan.baseSha ((plan.scope.map Value.str).filterMap nameOf)
      return (⟨plan.attemptId, plan.nodeKey, plan.contextHash, plan.baseSha, plan.workspace,
        (plan.scope.map Value.str).filterMap nameOf, plan.goal, parsed ++ [appended]⟩ : TodoPlan))) = _
  simp only [bind_ok, valid_ok, ensure_ok, pure_ok, forM_ok, names_texts, List.length_map, hsome, List.forall_mem_map]
  refine ⟨(), ?_, (), h.scope.2.2, (), hfew, items, hparsed, last, hlast, ?_⟩
  · rw [hglobs]
    rfl
  · rw [← hitems]

end AItelier.Todo
