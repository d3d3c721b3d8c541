import AItelier.Todo.Frozen
import AItelier.Todo.Store

namespace AItelier.Todo

open AItelier.Lib

variable {digest : Dict → String} {bounds : Bounds} {library : PredicateLibrary} {plan : TodoPlan} {run run' : TodoRun}
  {document entries : Dict} {episodes : Episodes} {now : Moment} {e : Episode} {r : ItemReport}

inductive Op
  | begin (itemId : String)
  | observe (itemId : String) (now : Moment)

/-- One call, the workspace it finds, and the moment its observations are saved. -/
structure Step where
  op : Op
  world : World
  savedAt : Moment

/-- What a call gives back, and the run after it: an exception leaves the run as it
was. -/
def step (bounds : Bounds) (run : TodoRun) (s : Step) : Except Raised (Item ⊕ ItemReport) × TodoRun :=
  match s.op with
  | .begin itemId =>
    match run.begin s.world itemId with
    | .ok (item, next) => (.ok (.inl item), next)
    | .error exc => (.error exc, run)
  | .observe itemId now =>
    match run.observe bounds s.world now itemId with
    | .ok (report, next) => (.ok (.inr report), next)
    | .error exc => (.error exc, run)

def TodoPlan.start (plan : TodoPlan) : TodoRun := ⟨plan.runtimePlan, Map.empty, Map.empty, Map.empty⟩

/-- A process: the plan it has open, and its run. -/
def processStep (bounds : Bounds) (process : TodoPlan × TodoRun) (s : Step) :
    Except Raised (Item ⊕ ItemReport) × TodoPlan × TodoRun :=
  ((step bounds process.2 s).1, process.1, (step bounds process.2 s).2)

def saveProcess (document : Dict) (process : TodoPlan × TodoRun) (s : Step) : Outcome Dict :=
  letThrough (saveObservations document process.1 process.2 s.savedAt)

/-- A run holds nothing but the items of its plan. -/
structure Within (plan : TodoPlan) (run : TodoRun) : Prop where
  runtime : run.plan = plan.runtimePlan
  preState : ∀ id, run.preState id ≠ none → id ∈ plan.items.map Item.id
  reports : ∀ id r, run.reports id = some r → id ∈ plan.items.map Item.id ∧ r.itemId = id
  episodes : ∀ key, run.episodes key ≠ none → ∃ i ∈ plan.items, key = run.episodeKey i.id

/-- Nothing that was observed is forgotten. -/
structure Grows (run run' : TodoRun) : Prop where
  preState : ∀ id, run.preState id ≠ none → run'.preState id ≠ none
  reports : ∀ id, run.reports id ≠ none → run'.reports id ≠ none

theorem Grows.refl (run : TodoRun) : Grows run run := ⟨fun _ h => h, fun _ h => h⟩

theorem Map.set_ne_none {α : Type} {m : Map α} {key k : String} {a : α} (h : m k ≠ none) : m.set key a k ≠ none := by
  unfold Map.set
  split
  · simp
  · exact h

variable {id : String} {i : Item} {world : World} {fields : Dict}

theorem item_mem {p : Plan} (h : p.item id = .ok i) : i ∈ p.items ∧ i.id = id := by
  unfold Plan.item at h
  rw [orElse_ok] at h
  exact ⟨List.mem_of_find?_eq_some h, by simpa using List.find?_some h⟩

theorem begin_spec (h : run.begin world id = .ok (i, run')) :
    i ∈ run.plan.items ∧ i.id = id ∧ ∃ captured,
    run' = { run with preState := run.preState.setDefault id captured } := by
  unfold TodoRun.begin at h
  simp only [bind_ok, pure_ok, Prod.mk.injEq] at h
  obtain ⟨item, hitem, captured, -, rfl, rfl⟩ := h
  exact ⟨(item_mem hitem).1, (item_mem hitem).2, captured, rfl⟩

/-- Everything an observation can do: read the stored absence again, or conclude
from a measurement. -/
theorem observe_spec (h : run.observe bounds world now id = .ok (r, run')) :
    (∃ i ∈ run.plan.items, i.id = id) ∧
      ((∃ gate key, run' = { run with
          episodes := noteAbsence run.episodes (run.episodeKey id) now gate key 1 }) ∨
        ∃ episodes, run' = { run with episodes := episodes, reports := run.reports.set id r } ∧ r.itemId = id ∧
          ∀ key, key ≠ run.episodeKey id → episodes key = run.episodes key) := by
  unfold TodoRun.observe at h
  simp only [bind_ok] at h
  obtain ⟨i, hitem, preState, -, h⟩ := h
  refine ⟨⟨i, item_mem hitem⟩, ?_⟩
  split at h
  · simp only [pure_ok, Prod.mk.injEq] at h
    exact .inl ⟨_, _, h.2.symm⟩
  · simp only [bind_ok, pure_ok] at h
    obtain ⟨results, -, h⟩ := h
    unfold TodoRun.conclude at h
    simp only at h
    split at h
    · cases h
      refine .inr ⟨_, rfl, rfl, fun key hkey => ?_⟩
      simp [noteAbsence, Map.set, hkey]
    · cases h
      refine .inr ⟨_, rfl, rfl, fun key hkey => ?_⟩
      simp [Map.erase, hkey]

theorem begin_within (hw : Within plan run)
    (h : run.begin world id = .ok (i, run')) : Within plan run' ∧ Grows run run' := by
  obtain ⟨hi, rfl, captured, rfl⟩ := begin_spec h
  have hmem : i.id ∈ plan.items.map Item.id := by
    rw [hw.runtime] at hi
    exact List.mem_map_of_mem hi
  refine ⟨⟨hw.runtime, fun id hid => ?_, hw.reports, hw.episodes⟩, fun id hid => ?_, fun _ h => h⟩
  · by_cases heq : id = i.id
    · exact heq ▸ hmem
    · apply hw.preState id
      simp only [Map.setDefault] at hid
      split at hid
      · exact hid
      · simpa [Map.set, heq] using hid
  · simp only [Map.setDefault]
    split
    · exact hid
    · exact Map.set_ne_none hid

theorem observe_within (hw : Within plan run)
    (h : run.observe bounds world now id = .ok (r, run')) : Within plan run' ∧ Grows run run' := by
  obtain ⟨⟨i, hi, rfl⟩, hout⟩ := observe_spec h
  rw [hw.runtime] at hi
  rcases hout with ⟨gate, key, rfl⟩ | ⟨episodes, rfl, hid, hkept⟩
  · refine ⟨⟨hw.runtime, hw.preState, hw.reports, fun k hk => ?_⟩, fun _ h => h, fun _ h => h⟩
    by_cases heq : k = run.episodeKey i.id
    · exact ⟨i, hi, heq⟩
    · apply hw.episodes k
      simpa [noteAbsence, Map.set, heq] using hk
  · refine ⟨⟨hw.runtime, hw.preState, fun j s hs => ?_, fun k hk => ?_⟩, fun _ h => h, fun j hj => Map.set_ne_none hj⟩
    · by_cases heq : j = i.id
      · have hrs : r = s := by simpa [Map.set, heq] using hs
        exact ⟨heq ▸ List.mem_map_of_mem hi, by rw [← hrs, hid, heq]⟩
      · exact hw.reports j s (by simpa [Map.set, heq] using hs)
    · by_cases heq : k = run.episodeKey i.id
      · exact ⟨i, hi, heq⟩
      · exact hw.episodes k (hkept k heq ▸ hk)

theorem step_within (bounds : Bounds) (hw : Within plan run) (s : Step) :
    Within plan (step bounds run s).2 ∧ Grows run (step bounds run s).2 := by
  unfold step
  split
  · next id _ =>
    cases h : run.begin s.world id with
    | ok out => exact begin_within hw h
    | error exc => exact ⟨hw, .refl run⟩
  · next id now _ =>
    cases h : run.observe bounds s.world now id with
    | ok out => exact observe_within hw h
    | error exc => exact ⟨hw, .refl run⟩

def preStateJson (preState : Option Dict) : Value :=
  match preState with
  | some captured => .obj captured
  | none => .null

/-- The entry of an item says its pre-state and its latest report. -/
structure EntrySays (fields : Dict) (preState : Option Dict) (report : Option ItemReport) : Prop where
  preState : fields.find "pre_state" = some (preStateJson preState)
  blank : report = none → fields.find "outcome" = some .null
  outcome : ∀ r, report = some r → fields.find "outcome" = some (.str r.outcome.text)
  unmeasurable : ∀ r, report = some r → fields.find "unmeasurable" = some (.bool r.unmeasurable)
  results : ∀ r, report = some r → fields.find "results" = some (.arr (r.results.map PredicateResult.asJson))

/-- The entries of a plan's items, one for each, in the plan's order. -/
structure EntriesSay (plan : TodoPlan) (run : TodoRun) (entries : Dict) : Prop where
  keys : entries.map Prod.fst = plan.items.map Item.id
  each : ∀ i ∈ plan.items, ∃ fields, entries.find i.id = some (.obj fields) ∧
    EntrySays fields (run.preState i.id) (run.reports i.id)

/-- Saving a pre-state writes that field, and when it is first noted. -/
theorem savePreState_ok {preState preState' : Option Dict}
    (h : fields.find "pre_state" = some (preStateJson preState)) (hkept : preState ≠ none → preState' ≠ none)
    (now : Moment) :
    ∃ saved, savePreState fields preState' now = .ok saved ∧
      saved.find "pre_state" = some (preStateJson preState') ∧
        ∀ name, name ≠ "pre_state" → name ≠ "begun_at" → saved.find name = fields.find name := by
  cases preState' with
  | none =>
    have hnone : preState = none := by
      by_contra hsome
      exact hkept hsome rfl
    exact ⟨fields, rfl, hnone ▸ h, fun _ _ _ => rfl⟩
  | some captured =>
    unfold savePreState fieldAt
    simp only [h, orElse, ok_bind]
    refine ⟨_, rfl, Dict.find_put_self, fun name hname hbegun => ?_⟩
    rw [Dict.find_put_other hname]
    split
    · exact Dict.find_put_other hbegun
    · rfl

theorem saveReport_other (report : Option ItemReport) {name : String}
    (h : name ≠ "outcome" ∧ name ≠ "unmeasurable" ∧ name ≠ "results") :
    (saveReport fields report).find name = fields.find name := by
  cases report with
  | none => rfl
  | some r =>
    simp only [saveReport, Dict.update, List.foldl_cons, List.foldl_nil]
    rw [Dict.find_put_other h.2.2, Dict.find_put_other h.2.1, Dict.find_put_other h.1]

theorem saveReport_fields (fields : Dict) (r : ItemReport) :
    (saveReport fields (some r)).find "outcome" = some (.str r.outcome.text) ∧
      (saveReport fields (some r)).find "unmeasurable" = some (.bool r.unmeasurable) ∧
      (saveReport fields (some r)).find "results" = some (.arr (r.results.map PredicateResult.asJson)) := by
  simp only [saveReport, Dict.update, List.foldl_cons, List.foldl_nil]
  refine ⟨?_, ?_, Dict.find_put_self⟩
  · rw [Dict.find_put_other (by decide), Dict.find_put_other (by decide), Dict.find_put_self]
  · rw [Dict.find_put_other (by decide), Dict.find_put_self]

theorem saveEntry_says {preState preState' : Option Dict} {report report' : Option ItemReport}
    (h : EntrySays fields preState report) (hpre : preState ≠ none → preState' ≠ none)
    (hreport : report ≠ none → report' ≠ none) (now : Moment) :
    ∃ saved, savePreState fields preState' now = .ok saved ∧
    EntrySays (saveReport saved report') preState' report' := by
  obtain ⟨saved, hsaved, hfield, hother⟩ := savePreState_ok h.preState hpre now
  refine ⟨saved, hsaved, ?_⟩
  cases report' with
  | none =>
    have hnone : report = none := by
      by_contra hsome
      exact hreport hsome rfl
    refine ⟨hfield, fun _ => ?_, by simp, by simp, by simp⟩
    exact (hother "outcome" (by decide) (by decide)).trans (h.blank hnone)
  | some r =>
    obtain ⟨houtcome, hunmeasurable, hresults⟩ := saveReport_fields saved r
    refine ⟨(saveReport_other (some r) (by decide)).trans hfield, by simp, ?_, ?_, ?_⟩
    · intro _ heq
      cases heq
      exact houtcome
    · intro _ heq
      cases heq
      exact hunmeasurable
    · intro _ heq
      cases heq
      exact hresults

theorem objectAt_ok {d : Dict} {name : String} (h : d.find name = some (.obj fields)) :
    objectAt d name = .ok fields := by
  unfold objectAt fieldAt
  simp only [h, orElse, ok_bind]
  rfl

/-- The loop over the items writes each entry and no other. -/
theorem saveEntries_say {items : List Item} (hnodup : (items.map Item.id).Nodup) (hgrows : Grows run run')
    (h : ∀ i ∈ items, ∃ fields, entries.find i.id = some (.obj fields) ∧
      EntrySays fields (run.preState i.id) (run.reports i.id)) (now : Moment) :
    ∃ saved, items.foldlM (saveEntry run' now) entries = .ok saved ∧ saved.map Prod.fst = entries.map Prod.fst ∧
      (∀ i ∈ items, ∃ fields, saved.find i.id = some (.obj fields) ∧
        EntrySays fields (run'.preState i.id) (run'.reports i.id)) ∧
      ∀ name, name ∉ items.map Item.id → saved.find name = entries.find name := by
  induction items generalizing entries with
  | nil => exact ⟨entries, rfl, rfl, by simp, fun _ _ => rfl⟩
  | cons i rest ih =>
    rw [List.map_cons, List.nodup_cons] at hnodup
    rw [List.forall_mem_cons] at h
    obtain ⟨⟨fields, hfind, hsays⟩, hrest⟩ := h
    obtain ⟨saved, hsaved, hsays'⟩ := saveEntry_says hsays (hgrows.preState i.id) (hgrows.reports i.id) now
    generalize hnext : entries.put i.id (.obj (saveReport saved (run'.reports i.id))) = next
    have hround : saveEntry run' now entries i = .ok next := by
      unfold saveEntry
      simp only [objectAt_ok hfind, hsaved, ok_bind, hnext]
      rfl
    have hother : ∀ name, name ≠ i.id → next.find name = entries.find name := by
      intro name hname
      rw [← hnext, Dict.find_put_other hname]
    have hrest' : ∀ j ∈ rest, ∃ fields, next.find j.id = some (.obj fields) ∧
        EntrySays fields (run.preState j.id) (run.reports j.id) := by
      intro j hj
      rw [hother j.id (fun heq => hnodup.1 (heq ▸ List.mem_map_of_mem hj))]
      exact hrest j hj
    obtain ⟨last, hlast, hkeys, heach, hframe⟩ := ih hnodup.2 hrest'
    refine ⟨last, ?_, ?_, ?_, ?_⟩
    · rw [List.foldlM_cons, hround, ok_bind]
      exact hlast
    · rw [hkeys, ← hnext]
      apply Dict.keys_put
      simp [Dict.has, hfind]
    · rw [List.forall_mem_cons]
      refine ⟨⟨_, ?_, hsays'⟩, heach⟩
      rw [hframe i.id hnodup.1, ← hnext, Dict.find_put_self]
    · intro name hname
      rw [List.map_cons, List.mem_cons, not_or] at hname
      rw [hframe name hname.2, hother name hname.1]

theorem readVerdict_text (v : Verdict) : readVerdict (.str v.text) = .ok v := by
  cases v <;> rfl

theorem readResult_asJson (r : PredicateResult) : readResult r.asJson = .ok r := by
  unfold readResult PredicateResult.asJson
  simp only [bind_ok, ensure_ok, pure_ok]
  exact ⟨(), rfl, r.predicate, rfl, r.outcome, readVerdict_text r.outcome, r.detail, rfl, rfl⟩

theorem mapM_back {α β : Type} {read : β → Except Raised α} {write : α → β} (h : ∀ a, read (write a) = .ok a)
    (l : List α) : (l.map write).mapM read = .ok l := by
  induction l with
  | nil => rfl
  | cons a l ih =>
    simp only [List.map_cons, List.mapM_cons, h a, ih, ok_bind]
    rfl

theorem readEntry_says {preState : Option Dict} {report : Option ItemReport}
    (h : EntrySays fields preState report) (hid : ∀ r, report = some r → r.itemId = id) :
    readEntry (id, .obj fields) = .ok (id, preState, report) := by
  have hpre : readPreState fields = .ok preState := by
    unfold readPreState fieldAt
    simp only [h.preState, orElse, ok_bind]
    cases preState <;> rfl
  have hreport : readReport id fields = .ok report := by
    unfold readReport fieldAt
    cases report with
    | none =>
      simp only [h.blank rfl, orElse, ok_bind]
      rfl
    | some r =>
      simp only [h.outcome r rfl, h.results r rfl, h.unmeasurable r rfl, orElse, ok_bind]
      simp only [readVerdict_text, Except.bind, iterate, mapM_back readResult_asJson, readFlag, ok_bind]
      rw [← hid r rfl]
      rfl
  simp only [readEntry, hpre, hreport, ok_bind]
  rfl

theorem lookup_map {α : Type} {m : Map α} {pairs : List (String × Option α)} (h : ∀ p ∈ pairs, p.2 = m p.1)
    (hout : ∀ key, key ∉ pairs.map Prod.fst → m key = none) : lookup pairs = m := by
  funext key
  unfold lookup
  cases hfind : pairs.find? (fun p => p.1 == key) with
  | none =>
    refine (hout key fun hmem => ?_).symm
    obtain ⟨p, hp, rfl⟩ := List.mem_map.mp hmem
    have hne := List.find?_eq_none.mp hfind p hp
    simp at hne
  | some p =>
    have hkey : p.1 = key := by simpa using List.find?_some hfind
    rw [Option.bind_some, h p (List.mem_of_find?_eq_some hfind), hkey]

theorem readKey_json (key : Option (List String)) : readKey (match key with
    | some key => .arr (key.map .str)
    | none => .null) = .ok key := by
  cases key with
  | none => rfl
  | some parts =>
    have hread : ∀ s, readText (.str s) = .ok s := fun _ => rfl
    have hparts : (parts.map Value.str).mapM readText = .ok parts := mapM_back hread parts
    simp only [readKey, iterate, ok_bind, hparts]
    rfl

/-- An episode that is restored where there was none is the one that was stored. -/
theorem restoreEpisode_asDict {planKey id : String} (h : episodes (planKey ++ "/" ++ id) = none) (e : Episode) :
    restoreEpisode planKey episodes (id, e.asDict) = .ok (episodes.set (planKey ++ "/" ++ id) e) := by
  unfold restoreEpisode Episode.asDict fieldAt
  simp only [bind_ok, pure_ok]
  refine ⟨e.startedAt, rfl, e.gate, rfl, e.reportKey, readKey_json e.reportKey, e.gateRuns, rfl, e.lastAbsenceAt, rfl,
    e.absences, rfl, ?_⟩
  rw [h]
  rfl

theorem keyed_inj {planKey id id' : String} (h : planKey ++ "/" ++ id = planKey ++ "/" ++ id') : id = id' := by
  have hlist := congrArg String.toList h
  simp only [String.toList_append] at hlist
  exact String.toList_inj.mp (List.append_cancel_left hlist)

/-- The episodes of a plan's items, restored over none. -/
theorem restoreEpisodes_ok (planKey : String) (m : Episodes) {acc : Episodes} {items : List Item}
    (hnodup : (items.map Item.id).Nodup) (hacc : ∀ i ∈ items, acc (planKey ++ "/" ++ i.id) = none) :
    ∃ restored, (items.filterMap fun i => (m (planKey ++ "/" ++ i.id)).map fun e => (i.id, e.asDict)).foldlM
        (restoreEpisode planKey) acc = .ok restored ∧
      (∀ i ∈ items, restored (planKey ++ "/" ++ i.id) = m (planKey ++ "/" ++ i.id)) ∧
      ∀ key, (∀ i ∈ items, key ≠ planKey ++ "/" ++ i.id) → restored key = acc key := by
  induction items generalizing acc with
  | nil => exact ⟨acc, rfl, by simp, fun _ _ => rfl⟩
  | cons i rest ih =>
    rw [List.map_cons, List.nodup_cons] at hnodup
    rw [List.forall_mem_cons] at hacc
    have hne : ∀ j ∈ rest, planKey ++ "/" ++ j.id ≠ planKey ++ "/" ++ i.id := by
      intro j hj heq
      exact hnodup.1 (keyed_inj heq ▸ List.mem_map_of_mem hj)
    cases hm : m (planKey ++ "/" ++ i.id) with
    | none =>
      obtain ⟨restored, hfold, heach, hframe⟩ := ih hnodup.2 hacc.2
      refine ⟨restored, ?_, ?_, fun key hkey => hframe key fun j hj => hkey j (List.mem_cons_of_mem i hj)⟩
      · rw [List.filterMap_cons, hm]
        exact hfold
      · rw [List.forall_mem_cons]
        refine ⟨?_, heach⟩
        rw [hframe _ fun j hj => (hne j hj).symm, hacc.1, hm]
    | some e =>
      have hacc' : ∀ j ∈ rest, acc.set (planKey ++ "/" ++ i.id) e (planKey ++ "/" ++ j.id) = none := by
        intro j hj
        simp only [Map.set, hne j hj, if_false]
        exact hacc.2 j hj
      obtain ⟨restored, hfold, heach, hframe⟩ := ih hnodup.2 hacc'
      refine ⟨restored, ?_, ?_, fun key hkey => ?_⟩
      · rw [List.filterMap_cons, hm, Option.map_some]
        simp only
        rw [List.foldlM_cons, restoreEpisode_asDict hacc.1 e, ok_bind]
        exact hfold
      · rw [List.forall_mem_cons]
        refine ⟨?_, heach⟩
        rw [hframe _ fun j hj => (hne j hj).symm, hm]
        simp [Map.set]
      · rw [hframe key fun j hj => hkey j (List.mem_cons_of_mem i hj)]
        simp [Map.set, hkey i List.mem_cons_self]

/-- The document holds the plan, and says all that the run holds. -/
structure Filed (digest : Dict → String) (library : PredicateLibrary) (plan : TodoPlan) (document : Dict)
    (run : TodoRun) : Prop where
  within : Within plan run
  version : document.find "library_version" = some (.str library.version)
  frozen : document.find "plan" = some (.obj plan.asJson)
  hash : document.find "plan_hash" = some (.str (plan.planHash digest))
  items : ∃ entries, document.find "items" = some (.obj entries) ∧ EntriesSay plan run entries
  episodes : document.find "episodes" = some (.obj (savedEpisodes plan run))

theorem readEntry_key {f : String × Value} {p : String × Option Dict × Option ItemReport} (h : readEntry f = .ok p) :
    p.1 = f.1 := by
  unfold readEntry at h
  split at h
  · simp only [bind_ok, pure_ok] at h
    obtain ⟨_, -, _, -, rfl⟩ := h
    rfl
  · cases h

theorem readRun_filed (hfits : PlanFits library plan) (h : Filed digest library plan document run) :
    readRun document plan = .ok run := by
  obtain ⟨entries, hentries, hsay⟩ := h.items
  have hnodup : (entries.map Prod.fst).Nodup := hsay.keys ▸ hfits.ids_nodup
  have hread : ∀ f ∈ entries, readEntry f = .ok (f.1, run.preState f.1, run.reports f.1) := by
    intro f hf
    obtain ⟨i, hi, heq⟩ := List.mem_map.mp (hsay.keys ▸ List.mem_map_of_mem hf)
    obtain ⟨fields, hfind, hsays⟩ := hsay.each i hi
    rw [heq, Dict.find_of_mem hnodup hf, Option.some.injEq] at hfind
    have hback := readEntry_says hsays fun r hr => (h.within.reports i.id r hr).2
    rw [heq, ← hfind] at hback
    exact hback
  obtain ⟨read, hmap⟩ := mapM_total.mpr (fun f hf => ⟨_, hread f hf⟩)
  have hpairs : ∀ p ∈ read, p = (p.1, run.preState p.1, run.reports p.1) := by
    intro p hp
    obtain ⟨f, hf, hp⟩ := mapM_mem hmap hp
    rw [hread f hf, Except.ok.injEq] at hp
    rw [← hp]
  have hkeys : read.map Prod.fst = plan.items.map Item.id := by
    rw [← hsay.keys]
    exact mapM_map (fun _ _ hf => readEntry_key hf) hmap
  have hpre : lookup (read.map fun e => (e.1, e.2.1)) = run.preState := by
    apply lookup_map
    · intro q hq
      obtain ⟨p, hp, rfl⟩ := List.mem_map.mp hq
      exact congrArg (fun t => t.2.1) (hpairs p hp)
    · intro key hkey
      by_contra hsome
      rw [List.map_map] at hkey
      exact hkey (hkeys ▸ h.within.preState key hsome)
  have hreports : lookup (read.map fun e => (e.1, e.2.2)) = run.reports := by
    apply lookup_map
    · intro q hq
      obtain ⟨p, hp, rfl⟩ := List.mem_map.mp hq
      exact congrArg (fun t => t.2.2) (hpairs p hp)
    · intro key hkey
      by_contra hsome
      obtain ⟨r, hr⟩ := Option.ne_none_iff_exists'.mp hsome
      rw [List.map_map] at hkey
      exact hkey (hkeys ▸ (h.within.reports key r hr).1)
  have hkey (id : String) : run.episodeKey id = plan.attemptId ++ "/" ++ id := by
    unfold TodoRun.episodeKey
    rw [h.within.runtime]
    rfl
  have hnone : ∀ i ∈ plan.items, (Map.empty : Episodes) (plan.attemptId ++ "/" ++ i.id) = none := fun _ _ => rfl
  obtain ⟨restored, hfold, heach, hframe⟩ := restoreEpisodes_ok plan.attemptId run.episodes hfits.ids_nodup hnone
  have hrestored : restored = run.episodes := by
    funext key
    by_cases hitem : ∃ i ∈ plan.items, key = run.episodeKey i.id
    · obtain ⟨i, hi, rfl⟩ := hitem
      rw [hkey]
      exact heach i hi
    · have hempty : run.episodes key = none := by
        by_contra hsome
        exact hitem (h.within.episodes key hsome)
      rw [hempty]
      refine hframe key fun i hi heq => hitem ⟨i, hi, ?_⟩
      rw [hkey, heq]
  have hsaved : (savedEpisodes plan run).foldlM (restoreEpisode plan.attemptId) Map.empty = .ok run.episodes := by
    rw [← hrestored, ← hfold]
    unfold savedEpisodes
    simp only [hkey]
  unfold readRun
  rw [objectAt_ok hentries, ok_bind, hmap, ok_bind, objectAt_ok h.episodes, ok_bind, hsaved, ok_bind, hpre, hreports,
    ← h.within.runtime]
  rfl

theorem requireLibraryVersion_filed (h : Filed digest library plan document run)
    (hversion : State.strip library.version ≠ "") : requireLibraryVersion document library = .ok library.version := by
  obtain ⟨entries, hentries, -⟩ := h.items
  have hparts : storedParts document = .ok plan.asJson := by
    simp only [storedParts, Dict.get, h.frozen, hentries, Option.getD_some]
  unfold requireLibraryVersion
  simp only [hparts, ok_bind, Dict.get, h.version, Option.getD_some]
  simp only [bind_ok, ensure_ok, pure_ok]
  exact ⟨(), hversion, (), trivial, trivial⟩

theorem openPlan_filed (hfits : PlanFits library plan) (hversion : State.strip library.version ≠ "")
    (h : Filed digest library plan document run) : openPlan digest library document = .ok (plan, run) := by
  have hload : loadRun document plan library = .ok run := by
    simp only [loadRun, requireLibraryVersion_filed h hversion, ok_bind, readRun_filed hfits h, letThrough]
  have hhash : (document.get "plan_hash").isText (plan.planHash digest) = true := by
    rw [Value.isText_iff, Dict.get, h.hash, Option.getD_some]
  unfold openPlan
  simp only [bind_ok, ensure_ok, pure_ok]
  refine ⟨_, requireLibraryVersion_filed h hversion, plan.asJson, ?_, plan, fromStored_asJson hfits, (),
    hhash, run, hload,
    rfl⟩
  rw [objectAt_ok h.frozen]
  rfl

/-- Saving a run that has grown files it. -/
theorem save_filed (hfits : PlanFits library plan) (h : Filed digest library plan document run)
    (hwithin : Within plan run') (hgrows : Grows run run') (now : Moment) :
    ∃ saved, saveObservations document plan run' now = .ok saved ∧ Filed digest library plan saved run' := by
  obtain ⟨entries, hentries, hsay⟩ := h.items
  obtain ⟨saved, hsaved, hkeys, heach, -⟩ := saveEntries_say hfits.ids_nodup hgrows hsay.each now
  refine ⟨(document.put "items" (.obj saved)).put "episodes" (.obj (savedEpisodes plan run')), ?_, ?_⟩
  · simp only [saveObservations, objectAt_ok hentries, hsaved, ok_bind]
    rfl
  · have hother : ∀ name, name ≠ "episodes" → name ≠ "items" → ((document.put "items" (.obj saved)).put "episodes"
        (.obj (savedEpisodes plan run'))).find name = document.find name := by
      intro name hepisodes hitems
      rw [Dict.find_put_other hepisodes, Dict.find_put_other hitems]
    refine ⟨hwithin, ?_, ?_, ?_, ⟨saved, ?_, hkeys.trans hsay.keys, heach⟩, Dict.find_put_self⟩
    · exact (hother _ (by decide) (by decide)).trans h.version
    · exact (hother _ (by decide) (by decide)).trans h.frozen
    · exact (hother _ (by decide) (by decide)).trans h.hash
    · rw [Dict.find_put_other (by decide), Dict.find_put_self]

theorem start_filed (hfits : PlanFits library plan) (now : Moment) (template params : Value) :
    Filed digest library plan (newDocument digest plan library now template params) plan.start := by
  refine ⟨⟨rfl, ?_, ?_, ?_⟩, rfl, rfl, rfl, ⟨_, rfl, ?_, ?_⟩, ?_⟩
  · exact fun id hid => absurd rfl hid
  · exact fun id r hr => by cases hr
  · exact fun key hkey => absurd rfl hkey
  · rw [List.map_map]
    rfl
  · intro i hi
    have hkeys : ((plan.items.map fun i => (i.id, Value.obj blankEntry)).map Prod.fst).Nodup := by
      rw [List.map_map]
      exact hfits.ids_nodup
    refine ⟨blankEntry, Dict.find_of_mem hkeys (List.mem_map_of_mem hi), rfl, fun _ => rfl, ?_, ?_, ?_⟩
    · exact fun r hr => by cases hr
    · exact fun r hr => by cases hr
    · exact fun r hr => by cases hr
  · have hnone : savedEpisodes plan plan.start = [] := by
      unfold savedEpisodes
      rw [List.filterMap_eq_nil_iff]
      exact fun _ _ => rfl
    rw [hnone]
    rfl

theorem direct_process (plan : TodoPlan) (run : TodoRun) (steps : List Step) :
    direct (processStep bounds) (plan, run) steps =
      ((direct (step bounds) run steps).1, plan, (direct (step bounds) run steps).2) := by
  induction steps generalizing run with
  | nil => rfl
  | cons s rest ih =>
    have hstep : processStep bounds (plan, run) s = ((step bounds run s).1, plan, (step bounds run s).2) := rfl
    simp only [direct, hstep, ih]

/-- The document of a process. -/
def Holds (digest : Dict → String) (library : PredicateLibrary) (plan : TodoPlan) (document : Dict)
    (process : TodoPlan × TodoRun) : Prop :=
  process.1 = plan ∧ Filed digest library plan document process.2

theorem Holds.opened {process : TodoPlan × TodoRun} (hfits : PlanFits library plan)
    (hversion : State.strip library.version ≠ "") (h : Holds digest library plan document process) :
    openPlan digest library document = .ok process := by
  obtain ⟨_, run⟩ := process
  obtain ⟨rfl, hfiled⟩ := h
  exact openPlan_filed hfits hversion hfiled

theorem Holds.saved {process : TodoPlan × TodoRun} (hfits : PlanFits library plan) (s : Step)
    (h : Holds digest library plan document process) :
    ∃ saved, saveProcess document (processStep bounds process s).2 s = .ok saved ∧
      Holds digest library plan saved (processStep bounds process s).2 := by
  obtain ⟨_, run⟩ := process
  obtain ⟨rfl, hfiled⟩ := h
  obtain ⟨hwithin, hgrows⟩ := step_within bounds hfiled.within s
  obtain ⟨saved, hsaved, hnext⟩ := save_filed hfits hfiled hwithin hgrows s.savedAt
  refine ⟨saved, ?_, rfl, hnext⟩
  simp only [saveProcess, processStep, hsaved, letThrough]

/-- A plan that was accepted is read back as it is, and a run of it that is saved
and started again after every call goes as one that is not. -/
theorem restart_unseen {data : Value} (hplan : TodoPlan.fromJson library data = .ok plan)
    (hversion : State.strip library.version ≠ "") (digest : Dict → String) (bounds : Bounds) (created : Moment)
    (template params : Value) (steps : List Step) :
    (∃ stored, TodoPlan.fromStored library plan.asJson = .ok stored ∧ stored = plan ∧
        stored.planHash digest = plan.planHash digest) ∧
      ∃ last, restarted (processStep bounds) (openPlan digest library) saveProcess
          (newDocument digest plan library created template params) steps =
          .ok ((direct (step bounds) plan.start steps).1, last) ∧
        openPlan digest library last = .ok (plan, (direct (step bounds) plan.start steps).2) := by
  have hfits := fromJson_fits hplan
  refine ⟨⟨plan, fromStored_asJson hfits, rfl, rfl⟩, ?_⟩
  have hstart : Holds digest library plan (newDocument digest plan library created template params)
      (plan, plan.start) := ⟨rfl, start_filed hfits created template params⟩
  obtain ⟨last, hrestarted, hlast⟩ :=
    restarted_direct (fun h => h.opened hfits hversion) (fun s h => h.saved hfits s) hstart steps
  rw [direct_process] at hrestarted hlast
  exact ⟨last, hrestarted, hlast.opened hfits hversion⟩

namespace Sample

/-- Three predicates of the shipped library: the one that the items below bind, and the two of the appended item. -/
def shipped : PredicateLibrary :=
  ⟨"2", [("files_present", [⟨"pattern", true⟩]), ("git_delivered", [⟨"base", true⟩]),
    ("changes_within", [⟨"scope", true⟩])]⟩

def base : String := "0123456789abcdef0123456789abcdef01234567"

def presence (pattern : String) : Binding := ⟨"files_present", [("pattern", .str pattern)]⟩

def code : Item := ⟨"code", "Write the tool", [presence "src/*.py"], []⟩

def docs : Item := ⟨"docs", "", [presence "docs/*.md"], ["code"]⟩

def data : Value :=
  .obj [("attempt_id", .str "a1"), ("node_key", .str "n1"), ("context_hash", .str "c"), ("base_sha", .str base),
    ("workspace", .str "/work"), ("scope", .arr [.str "src/**", .str "docs/**"]), ("goal", .str "g"),
    ("items", .arr [TodoPlan.itemJson code, TodoPlan.itemJson docs])]

def planned : TodoPlan :=
  ⟨"a1", "n1", "c", base, "/work", ["src/**", "docs/**"], "g",
    [code, docs, ⟨deliver, "Deliver: commit the work, inside the declared scope",
      [⟨"git_delivered", [("base", .str base)]⟩,
        ⟨"changes_within", [("scope", .arr [.str "src/**", .str "docs/**"])]⟩], ["code", "docs"]⟩]⟩

theorem planned_read : TodoPlan.fromJson shipped data = .ok planned := by rfl

def noon : Moment := ⟨"43200.0", some 43200, by decide⟩

/-- A workspace where everything is measured alike. -/
def uniform (outcome : Verdict) : World := ⟨fun _ => .ok none, fun b _ _ => .ok ⟨b.predicate, outcome, ""⟩⟩

/-- Where nothing can be measured. -/
def silent : World := uniform .absent

def tooShort : Bounds := ⟨fun _ _ => false, fun _ _ => true⟩

/-- The first item passes, the second cannot be measured, the last fails. -/
def steps : List Step :=
  [⟨.begin "code", uniform .pass, noon⟩, ⟨.observe "code" noon, uniform .pass, noon⟩, ⟨.begin "docs", silent, noon⟩,
    ⟨.observe "docs" noon, silent, noon⟩, ⟨.observe "docs" noon, silent, noon⟩, ⟨.begin deliver, silent, noon⟩,
    ⟨.observe deliver noon, uniform .fail, noon⟩]

end Sample

theorem restart_unseen_planned :
    (∃ stored, TodoPlan.fromStored Sample.shipped Sample.planned.asJson = .ok stored ∧ stored = Sample.planned ∧
        stored.planHash (fun _ => "") = Sample.planned.planHash (fun _ => "")) ∧
      ∃ last, restarted (processStep Sample.tooShort) (openPlan (fun _ => "") Sample.shipped) saveProcess
          (newDocument (fun _ => "") Sample.planned Sample.shipped Sample.noon .null .null) Sample.steps =
          .ok ((direct (step Sample.tooShort) Sample.planned.start Sample.steps).1, last) ∧
        openPlan (fun _ => "") Sample.shipped last =
          .ok (Sample.planned, (direct (step Sample.tooShort) Sample.planned.start Sample.steps).2) :=
  restart_unseen Sample.planned_read (by decide) (fun _ => "") Sample.tooShort Sample.noon .null .null Sample.steps

end AItelier.Todo
