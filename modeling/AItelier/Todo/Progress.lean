import Mathlib.Data.List.Induction
import AItelier.Todo.Restart

namespace AItelier.Todo

open AItelier.Lib

/-- A plan that a command has open: its document and what was read from it. -/
structure Opened where
  document : Dict
  plan : TodoPlan
  run : TodoRun

namespace Opened

/-- `_Open.item`. -/
def item (p : Opened) (itemId : String) : Outcome Item :=
  match p.run.plan.item itemId with
  | .ok item => .ok item
  | .error _ => refuse "unknown_item" ("no item " ++ Value.reprText itemId ++ " in plan " ++ p.plan.attemptId)

/-- `_Open.save`, up to the write of the file. -/
def save (p : Opened) (now : Moment) : Outcome Opened := do
  let document ← letThrough (saveObservations p.document p.plan p.run now)
  return { p with document := document }

end Opened

/-- `report()["done"]`. -/
def TodoRun.done (run : TodoRun) : List String := (run.plan.items.map Item.id).filter run.isComplete

structure BeginArgs where
  item : String
  session : Option String
  rebind : Bool

/-- The session a caller named, where an empty one is none. -/
def BeginArgs.named (args : BeginArgs) : Option String := args.session.filter (fun s => s != "")

/-- The document that names the session from now on. -/
def bindSession (document : Dict) (bound : Value) (session : Option String) : Dict :=
  match session with
  | none => document
  | some s =>
    let document := if bound.truthy && !bound.isText s then document.put "rebound_from" bound else document
    document.put "child_session" (.str s)

/-- `cmd_begin`: whether this is the item's first begin, and the plan as it was saved. -/
def cmdBegin (world : World) (now : Moment) (p : Opened) (args : BeginArgs) : Outcome (Bool × Opened) := do
  let item ← p.item args.item
  let unmet := item.needs.filter (fun n => !p.run.done.contains n)
  ensure (unmet = []) (.refused ⟨"unmet_needs", "item " ++ item.id ++ " needs " ++ listRepr unmet ++ " to pass first",
    [("unmet", .arr (unmet.map .str))]⟩)
  let bound ← letThrough (fieldAt p.document "child_session")
  ensure (args.rebind = false ∨ args.named ≠ none) (.refused ⟨"usage", "--rebind needs --session", []⟩)
  ensure (args.named.all (fun s => !bound.truthy || bound.isText s || args.rebind) = true)
    (.refused ⟨"bound_to_other_session", "plan " ++ p.plan.attemptId ++ " is bound to session " ++ bound.toText ++
      "; pass --rebind only once that session is dead", [("bound_session", bound)]⟩)
  let entries ← letThrough (objectAt p.document "items")
  let entry ← letThrough (objectAt entries item.id)
  let before ← letThrough (fieldAt entry "pre_state")
  let (_, run) ← letThrough (p.run.begin world item.id)
  let saved ← { p with run := run, document := bindSession p.document bound args.named }.save now
  return (before.isNull, saved)

end AItelier.Todo

namespace AItelier.Todo

open AItelier.Lib

variable {library : PredicateLibrary} {plan : TodoPlan} {run : TodoRun} {bounds : Bounds} {items : List Item} {i : Item}

/-- `i` needs, directly or through other items that are not complete, an item that is `bad`. -/
inductive Awaits (run : TodoRun) (bad : Item → Prop) : Item → Prop
  | direct {i j : Item} (item : j ∈ run.plan.items) (need : j.id ∈ i.needs) (found : bad j) : Awaits run bad i
  | through {i j : Item} (item : j ∈ run.plan.items) (need : j.id ∈ i.needs) (remaining : run.isComplete j.id = false)
      (awaits : Awaits run bad j) : Awaits run bad i

/-- Handed back by name: not complete, and not to be measured again. -/
def HandedBack (run : TodoRun) (i : Item) : Prop := run.isComplete i.id = false ∧ run.isUnmeasurable i.id = true

/-- Needs name earlier items only. -/
def Ordered (items : List Item) : Prop :=
  ∀ before i after, items = before ++ i :: after → ∀ n ∈ i.needs, n ∈ before.map Item.id

theorem AllFit.needs {before after : List Item} (h : AllFit library before items) {pre : List Item}
    (hsplit : items = pre ++ i :: after) : ∀ n ∈ i.needs, n ∈ (before ++ pre).map Item.id := by
  induction pre generalizing before items with
  | nil =>
    subst hsplit
    rw [List.append_nil]
    exact h.1.needs
  | cons j pre ih =>
    subst hsplit
    have hrest := ih h.2 rfl
    rw [List.append_assoc] at hrest
    exact hrest

theorem deliverItem_needs {last : Item} {sha : String} {scope : List String}
    (h : deliverItem library items sha scope = .ok last) : last.needs = items.map Item.id := by
  unfold deliverItem at h
  simp only [bind_ok, pure_ok] at h
  obtain ⟨_, -, _, -, rfl⟩ := h
  rfl

theorem PlanFits.ordered (h : PlanFits library plan) : Ordered plan.items := by
  obtain ⟨items, last, hitems, -, hfit, hlast⟩ := h.items
  rw [hitems]
  intro before i after hsplit
  rcases after.eq_nil_or_concat with rfl | ⟨after, b, rfl⟩
  · obtain ⟨rfl, hone⟩ := List.append_inj' hsplit rfl
    cases hone
    rw [deliverItem_needs hlast]
    exact fun n hn => hn
  · rw [List.concat_eq_append, ← List.cons_append, ← List.append_assoc] at hsplit
    obtain ⟨hitems, -⟩ := List.append_inj' hsplit rfl
    exact hfit.needs hitems

/-- Where no item is next, an item that is not complete is handed back or waits for one that
is: by induction over the items before it, which hold all that it needs. -/
theorem awaits_of_none (hordered : Ordered run.plan.items) (hnone : run.nextItem = none) {before after : List Item}
    (hsplit : run.plan.items = before ++ after) :
    ∀ i ∈ before, run.isComplete i.id = false → HandedBack run i ∨ Awaits run (HandedBack run) i := by
  induction before using List.reverseRecOn generalizing after with
  | nil => exact fun i hi => absurd hi List.not_mem_nil
  | append_singleton before last ih =>
    rw [List.append_assoc, List.singleton_append] at hsplit
    intro i hi hopen
    rcases List.mem_append.mp hi with hi | hi
    · exact ih hsplit i hi hopen
    · rw [List.mem_singleton.mp hi] at hopen ⊢
      by_cases hback : run.isUnmeasurable last.id = true
      · exact .inl ⟨hopen, hback⟩
      · have hmem : last ∈ run.plan.items := hsplit ▸ List.mem_append_right _ List.mem_cons_self
        have hunmet := List.find?_eq_none.mp hnone last hmem
        have hback := eq_false_of_ne_true hback
        simp only [hopen, hback, Bool.not_false, Bool.true_and, List.all_eq_true, not_forall] at hunmet
        obtain ⟨n, hn, hmissing⟩ := hunmet
        obtain ⟨j, hj, rfl⟩ := List.mem_map.mp (hordered before last after hsplit n hn)
        have hitem : j ∈ run.plan.items := hsplit ▸ List.mem_append_left _ hj
        have hmissing := eq_false_of_ne_true hmissing
        rcases ih hsplit j hj hmissing with hj | hj
        · exact .inr (.direct hitem hn hj)
        · exact .inr (.through hitem hn hmissing hj)

theorem nextItem_some (h : run.nextItem = some i) :
    i ∈ run.plan.items ∧ run.isComplete i.id = false ∧ run.isUnmeasurable i.id = false ∧
      ∀ n ∈ i.needs, run.isComplete n = true := by
  have hsome := List.find?_some h
  simp only [Bool.and_eq_true, Bool.not_eq_true', List.all_eq_true] at hsome
  exact ⟨List.mem_of_find?_eq_some h, hsome.1.1, hsome.1.2, hsome.2⟩

theorem nextItem_none_iff (hordered : Ordered run.plan.items) :
    run.nextItem = none ↔ ∀ i ∈ run.plan.items, run.isComplete i.id = false →
      HandedBack run i ∨ Awaits run (HandedBack run) i := by
  constructor
  · intro hnone
    exact awaits_of_none hordered hnone (List.append_nil _).symm
  · intro h
    by_contra hsome
    obtain ⟨i, hi⟩ := Option.ne_none_iff_exists'.mp hsome
    obtain ⟨hitem, hopen, hmeasurable, hneeds⟩ := nextItem_some hi
    rcases h i hitem hopen with hback | hawaits
    · exact Bool.false_ne_true (hmeasurable.symm.trans hback.2)
    · cases hawaits with
      | direct _ need hback => exact Bool.false_ne_true (hback.1.symm.trans (hneeds _ need))
      | through _ need remaining => exact Bool.false_ne_true (remaining.symm.trans (hneeds _ need))

/-- Where nothing is handed back, nothing is next only when everything is complete. -/
theorem nextItem_none_finished (hordered : Ordered run.plan.items)
    (hmeasurable : ∀ i ∈ run.plan.items, run.isUnmeasurable i.id = false) :
    run.nextItem = none ↔ run.finished = true := by
  have hnever : ∀ i, ¬ Awaits run (HandedBack run) i := by
    intro i h
    induction h with
    | direct item _ hback => exact Bool.false_ne_true ((hmeasurable _ item).symm.trans hback.2)
    | through _ _ _ _ ih => exact ih
  rw [nextItem_none_iff hordered, TodoRun.finished, List.all_eq_true]
  constructor
  · intro h i hi
    by_contra hopen
    rcases h i hi (eq_false_of_ne_true hopen) with hback | hawaits
    · exact Bool.false_ne_true ((hmeasurable i hi).symm.trans hback.2)
    · exact hnever i hawaits
  · intro h i hi hopen
    exact absurd ((h i hi).symm.trans hopen) Bool.noConfusion

/-- No report is a pass and an absence that was given up at once. -/
def Coherent (run : TodoRun) : Prop := ∀ id, run.isComplete id = true → run.isUnmeasurable id = false

theorem handedBack_iff (h : Coherent run) : HandedBack run i ↔ run.isUnmeasurable i.id = true := by
  refine ⟨fun hback => hback.2, fun hback => ⟨?_, hback⟩⟩
  by_contra hcomplete
  exact Bool.false_ne_true ((h i.id (eq_true_of_ne_false hcomplete)).symm.trans hback)

theorem conclude_reports (bounds : Bounds) (run : TodoRun) (itemId : String) (now : Moment)
    (results : List PredicateResult) :
    ∃ r : ItemReport, (run.conclude bounds itemId now results).2.reports = run.reports.set itemId r ∧
      (r.outcome = .pass → r.unmeasurable = false) := by
  unfold TodoRun.conclude
  simp only
  split
  · exact ⟨_, rfl, fun h => by cases h⟩
  · exact ⟨_, rfl, fun _ => rfl⟩

theorem conclude_coherent (bounds : Bounds) (h : Coherent run) (itemId : String) (now : Moment)
    (results : List PredicateResult) :
    Coherent (run.conclude bounds itemId now results).2 := by
  obtain ⟨r, hreports, hr⟩ := conclude_reports bounds run itemId now results
  intro id
  simp only [TodoRun.isComplete, TodoRun.isUnmeasurable, hreports, Map.set]
  by_cases hid : id = itemId
  · rw [if_pos hid]
    exact fun hpass => hr (of_decide_eq_true hpass)
  · rw [if_neg hid]
    exact h id

variable {world : World} {now : Moment} {id : String} {p : Opened}

theorem observe_coherent {r : ItemReport} {next : TodoRun}
    (h : Coherent run) (hobserve : run.observe bounds world now id = .ok (r, next)) : Coherent next := by
  unfold TodoRun.observe at hobserve
  simp only [bind_ok] at hobserve
  obtain ⟨_, -, _, -, hobserve⟩ := hobserve
  split at hobserve
  · cases hobserve
    exact h
  · simp only [bind_ok, pure_ok] at hobserve
    obtain ⟨results, -, hnext⟩ := hobserve
    have hkept := conclude_coherent bounds h id now results
    rwa [hnext] at hkept

theorem step_coherent (bounds : Bounds) (h : Coherent run) (s : Step) : Coherent (step bounds run s).2 := by
  cases hop : s.op with
  | begin id =>
    cases hbegin : run.begin s.world id with
    | error e => simpa only [step, hop, hbegin] using h
    | ok next =>
      obtain ⟨i, next⟩ := next
      obtain ⟨-, -, captured, rfl⟩ := begin_spec hbegin
      simp only [step, hop, hbegin]
      exact h
  | observe id now =>
    cases hobserve : run.observe bounds s.world now id with
    | error e => simpa only [step, hop, hobserve] using h
    | ok next =>
      obtain ⟨r, next⟩ := next
      simpa only [step, hop, hobserve] using observe_coherent h hobserve

theorem run_coherent (bounds : Bounds) (h : Coherent run) (steps : List Step) :
    Coherent (direct (step bounds) run steps).2 := by
  induction steps generalizing run with
  | nil => exact h
  | cons s rest ih => exact ih (step_coherent bounds h s)

theorem mem_done : id ∈ run.done ↔ id ∈ run.plan.items.map Item.id ∧ run.isComplete id = true :=
  List.mem_filter

theorem item_of_mem (hnodup : (run.plan.items.map Item.id).Nodup) (hi : i ∈ run.plan.items) :
    run.plan.item i.id = .ok i := by
  have hfind : run.plan.items.find? (fun j => j.id == i.id) = some i := by
    obtain ⟨before, after, hsplit⟩ := List.append_of_mem hi
    rw [hsplit, List.map_append, List.map_cons] at hnodup
    have hfirst := (List.nodup_append.mp hnodup).2.2
    rw [hsplit]
    apply List.find?_eq_some_iff_append.mpr
    refine ⟨beq_self_eq_true _, before, after, rfl, ?_⟩
    intro j hj
    have hne := hfirst j.id (List.mem_map_of_mem hj) i.id List.mem_cons_self
    simpa using hne
  rw [Plan.item, hfind]
  rfl

/-- Whatever it is refused with, it is not this code. -/
def Avoids {α : Type} (code : String) (x : Outcome α) : Prop := ∀ r, x = .error (.refused r) → r.code ≠ code

section Avoids
variable {α β : Type} {code : String}

theorem Avoids.bind {x : Outcome α} {f : α → Outcome β} (hx : Avoids code x) (hf : ∀ a, Avoids code (f a)) :
    Avoids code (x >>= f) := by
  intro r h
  rcases bind_error.mp h with h | ⟨a, -, h⟩
  · exact hx r h
  · exact hf a r h

theorem avoids_pure (a : α) : Avoids code (pure a : Outcome α) := fun r h => by cases h

theorem avoids_letThrough (x : Except Raised α) : Avoids code (letThrough x) := by
  intro r h
  cases x with
  | ok a => cases h
  | error exc => cases h

theorem avoids_ensure {c : Prop} [Decidable c] {refusal : Refusal} (h : refusal.code ≠ code) :
    Avoids code (ensure c (.refused refusal)) := by
  intro r hr
  obtain ⟨-, hr⟩ := ensure_error.mp hr
  cases hr
  exact h

theorem avoids_save (p : Opened) (now : Moment) : Avoids code (p.save now) :=
  (avoids_letThrough _).bind (fun _ => avoids_pure _)

end Avoids

theorem avoids_item (p : Opened) (id : String) : Avoids "unmet_needs" (p.item id) := by
  intro r h
  unfold Opened.item at h
  split at h
  · cases h
  · cases h
    exact fun hcode => absurd (show "unknown_item" = "unmet_needs" from hcode) (by decide)

theorem item_opened {i : Item} (h : p.item id = .ok i) : p.run.plan.item id = .ok i := by
  unfold Opened.item at h
  split at h
  · next hitem =>
    cases h
    exact hitem
  · cases h

/-- A begin is refused for its needs only where one of them is not done. -/
theorem cmdBegin_unmet {args : BeginArgs} {r : Refusal}
    (h : cmdBegin world now p args = .error (.refused r)) (hcode : r.code = "unmet_needs") :
    ∃ i, p.run.plan.item args.item = .ok i ∧ ∃ n ∈ i.needs, n ∉ p.run.done := by
  unfold cmdBegin at h
  rcases bind_error.mp h with h | ⟨i, hi, h⟩
  · exact absurd hcode (avoids_item _ _ _ h)
  refine ⟨i, item_opened hi, ?_⟩
  by_contra hmet
  have hnil : i.needs.filter (fun n => !p.run.done.contains n) = [] := by
    rw [List.filter_eq_nil_iff]
    intro n hn hmissing
    exact hmet ⟨n, hn, fun hdone => by simp [hdone] at hmissing⟩
  simp only [hnil, ensure_bind] at h
  refine absurd hcode (Avoids.bind (avoids_letThrough _) (fun bound => ?_) r h)
  refine (avoids_ensure (by decide)).bind (fun _ => (avoids_ensure ?_).bind (fun _ => ?_))
  · exact fun hbound => absurd (show "bound_to_other_session" = "unmet_needs" from hbound) (by decide)
  refine (avoids_letThrough _).bind (fun _ => (avoids_letThrough _).bind (fun _ => ?_))
  refine (avoids_letThrough _).bind (fun _ => (avoids_letThrough _).bind (fun _ => ?_))
  exact (avoids_save _ _).bind (fun _ => avoids_pure _)

theorem next_not_unmet {args : BeginArgs} {r : Refusal}
    (hnodup : (p.run.plan.items.map Item.id).Nodup) (hordered : Ordered p.run.plan.items)
    (h : cmdBegin world now p args = .error (.refused r)) (hcode : r.code = "unmet_needs")
    (hnext : p.run.nextItem = some i) : i.id ≠ args.item := by
  intro hid
  obtain ⟨j, hj, n, hn, hmissing⟩ := cmdBegin_unmet h hcode
  obtain ⟨hitem, -, -, hneeds⟩ := nextItem_some hnext
  rw [← hid, item_of_mem hnodup hitem] at hj
  cases hj
  obtain ⟨before, after, hsplit⟩ := List.append_of_mem hitem
  have hearlier := hordered before i after hsplit n hn
  have hknown : n ∈ p.run.plan.items.map Item.id := by
    rw [hsplit, List.map_append]
    exact List.mem_append_left _ hearlier
  exact hmissing (mem_done.mpr ⟨hknown, hneeds n hn⟩)

/-- Over the items of an accepted plan and any reports of them, no item is next exactly when each
that is not complete is handed back or waits for one that is. Where no report says both pass and
unmeasurable, as in every run of the plan, it is enough to look at the flag. A begin is never
refused for the needs of the item that is next. -/
theorem next_item_progress {data : Value} (hplan : TodoPlan.fromJson library data = .ok plan) :
    (∀ run : TodoRun, run.plan = plan.runtimePlan →
      (run.nextItem = none ↔ ∀ i ∈ plan.items, run.isComplete i.id = false →
        HandedBack run i ∨ Awaits run (HandedBack run) i) ∧
      (Coherent run → (run.nextItem = none ↔ ∀ i ∈ plan.items, run.isComplete i.id = false →
        run.isUnmeasurable i.id = true ∨ Awaits run (fun j => run.isUnmeasurable j.id = true) i)) ∧
      ((∀ i ∈ plan.items, run.isUnmeasurable i.id = false) → (run.nextItem = none ↔ run.finished = true))) ∧
    (∀ bounds steps, Coherent (direct (step bounds) plan.start steps).2) ∧
    (∀ world now p args r, p.run.plan = plan.runtimePlan → cmdBegin world now p args = .error (.refused r) →
      r.code = "unmet_needs" → ∀ i, p.run.nextItem = some i → i.id ≠ args.item) := by
  have hfits := fromJson_fits hplan
  refine ⟨?_, ?_, ?_⟩
  · intro run hrun
    have hitems : run.plan.items = plan.items := by rw [hrun]; rfl
    have hordered : Ordered run.plan.items := hitems ▸ hfits.ordered
    rw [← hitems]
    refine ⟨nextItem_none_iff hordered, fun hcoherent => ?_, nextItem_none_finished hordered⟩
    have hsame : HandedBack run = fun j => run.isUnmeasurable j.id = true := by
      funext j
      exact propext (handedBack_iff hcoherent)
    rw [nextItem_none_iff hordered, hsame]
  · exact fun bounds steps => run_coherent bounds (fun id hid => rfl) steps
  · intro world now p args r hrun h hcode i hnext
    have hitems : p.run.plan.items = plan.items := by rw [hrun]; rfl
    exact next_not_unmet (hitems ▸ hfits.ids_nodup) (hitems ▸ hfits.ordered) h hcode hnext

namespace Sample

/-- What cannot be measured is given up at once. -/
def hasty : Bounds := ⟨fun _ _ => true, fun _ _ => false⟩

def midway : TodoRun := (direct (step hasty) planned.start steps).2

/-- A report that the first item passed and was given up. -/
def contradictory : TodoRun :=
  { planned.start with reports := Map.empty.set "code" ⟨"code", .pass, [], true⟩ }

end Sample

theorem next_item_progress_midway :
    Sample.midway.nextItem = none ∧ ∀ i ∈ Sample.planned.items, Sample.midway.isComplete i.id = false →
      Sample.midway.isUnmeasurable i.id = true ∨
      Awaits Sample.midway (fun j => Sample.midway.isUnmeasurable j.id = true) i := by
  have hprogress := next_item_progress Sample.planned_read
  have hnone : Sample.midway.nextItem = none := by rfl
  exact ⟨hnone, ((hprogress.1 Sample.midway rfl).2.1 (hprogress.2.1 Sample.hasty Sample.steps)).mp hnone⟩

/-- An item that is complete counts as complete, whatever its report says of being given up. -/
theorem passed_though_given_up :
    TodoPlan.fromJson Sample.shipped Sample.data = .ok Sample.planned ∧
      Sample.contradictory.plan = Sample.planned.runtimePlan ∧ Sample.contradictory.nextItem ≠ none ∧
      ∀ i ∈ Sample.planned.items, Sample.contradictory.isComplete i.id = false →
        Sample.contradictory.isUnmeasurable i.id = true ∨
          Awaits Sample.contradictory (fun j => Sample.contradictory.isUnmeasurable j.id = true) i := by
  have hcode : Sample.code ∈ Sample.contradictory.plan.items := List.mem_cons_self
  refine ⟨Sample.planned_read, rfl, by decide, ?_⟩
  refine List.forall_mem_cons.mpr ⟨fun h => ?_,
    List.forall_mem_cons.mpr ⟨fun _ => ?_, List.forall_mem_singleton.mpr fun _ => ?_⟩⟩
  · cases h
  · exact .inr (.direct hcode List.mem_cons_self rfl)
  · exact .inr (.direct hcode List.mem_cons_self rfl)

end AItelier.Todo
