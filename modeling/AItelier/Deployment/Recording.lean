import AItelier.Deployment.Chronicle

namespace AItelier.Deployment

open AItelier.Lib

variable {β : Type} {host : Host β} {j k e rest latest last : Dict} {d : Disk β} {es : List Value} {draw : Draw}

/-- The events on disk, whether or not the loader accepts them. -/
def recorded (host : Host β) (d : Disk β) : List Value :=
  match readJournalJson host d .journal with
  | .ok (.obj j) => events j
  | _ => []

/-- What every call keeps of the journal on disk. -/
structure Kept (host : Host β) (d : Disk β) : Prop where
  plain : ∀ v, readJournalJson host d .journal = .ok v → v.Plain
  chronicle : Chronicle (recorded host d)

theorem read_congr {d' : Disk β} (h : d'.read .journal = d.read .journal) :
    readJournalJson host d' .journal = readJournalJson host d .journal := by
  rw [readJournalJson, h]
  rfl

theorem recorded_congr {d' : Disk β} (h : d'.read .journal = d.read .journal) : recorded host d' = recorded host d := by
  rw [recorded, read_congr h]
  rfl

theorem Kept.congr {d' : Disk β} (h : Kept host d) (hread : d'.read .journal = d.read .journal) : Kept host d' :=
  ⟨fun v hv => h.plain v (read_congr hread ▸ hv), recorded_congr hread ▸ h.chronicle⟩

/-- A journal that was loaded from the disk, in a call's hands. -/
structure InHand (host : Host β) (d : Disk β) (j : Dict) : Prop where
  formed : Formed host j
  plain : (Value.obj j).Plain
  same : events j = recorded host d

theorem recorded_absent (h : absent d .journal = true) : recorded host d = [] := by
  have hread : d.read .journal = none := by
    rw [Folder.read, show d.inode .journal = none from Option.isNone_iff_eq_none.mp h]
    rfl
  rw [recorded, readJournalJson, hread]

theorem recorded_persist (d : Disk β) (k : Dict) : recorded host (written host d k) = events k := by
  have hread : readJournalJson host (written host d k) .journal = .ok (.obj (chained host k)) := by
    rw [readJournalJson, written, Folder.read_put_same]
    rfl
  rw [recorded, hread]
  exact events_chained host k

theorem Kept.load [DecidableEq β] {id : String} (h : Kept host d) (hload : loadJournal host d id = .ok j) :
    InHand host d j := by
  rcases loadJournal_ok.mp hload with hloaded | ⟨habsent, -, -, -, -, rfl⟩
  · refine ⟨hloaded.valid.sound, h.plain _ hloaded.read, ?_⟩
    rw [recorded, hloaded.read]
  · refine ⟨⟨rfl, rfl, rfl⟩, plain_emptyJournal id, ?_⟩
    rw [recorded_absent habsent]
    rfl

/-- No authorization is left pending. -/
def Rested (es : List Value) : Prop := ∀ prior, es.getLast? = some prior → (field prior "pending").isTrue = false

/-- What an event must be, before its identity, time and predecessor are put in, to
follow the last. -/
structure Enters (es : List Value) (e : Dict) : Prop where
  usable : (e.get "usable").isTrue = true → e.get "status" = .str "completed"
  completed : e.get "status" = .str "completed" → ∃ prior, es.getLast? = some prior ∧ Closes prior (.obj e)
  closing : ∀ prior, es.getLast? = some prior → (field prior "pending").isTrue = true →
    Closes prior (.obj e) ∧ (e.get "status" = .str "completed" ∨ e.get "status" = .str "aborted")
  first : e.find "prior_event_id" = none

theorem Closes.congr {prior ev ev' : Value} (h : Closes prior ev)
    (hfield : ∀ name ∈ ["action", "inventory_digest"], field ev' name = field ev name) : Closes prior ev' := by
  obtain ⟨action, hprior, hev⟩ := h.action
  obtain ⟨digest, hprior', hev'⟩ := h.digest
  refine ⟨h.opened, ⟨action, hprior, ?_⟩, digest, hprior', ?_⟩
  · rw [hfield "action" (by decide), hev]
  · rw [hfield "inventory_digest" (by decide), hev']

theorem Enters.follows (h : Enters (events k) e) {id : String} (hfresh : Unused k id) (now : String) :
    Follows (events k) (.obj (Deployment.completed k e id now)) := by
  have hget : ∀ name, name ≠ "event_id" → name ≠ "at" → name ≠ "prior_event_id" →
      field (.obj (Deployment.completed k e id now)) name = e.get name := by
    intro name h1 h2 h3
    rw [field_obj, Dict.get, Dict.get, get_completed h1 h2 h3 h.first]
  have hcloses : ∀ prior, Closes prior (.obj e) → Closes prior (.obj (Deployment.completed k e id now)) := by
    intro prior hprior
    apply hprior.congr
    intro name hname
    apply hget name
    all_goals
      rintro rfl
      revert hname
      decide
  have hstatus := hget "status" (by decide) (by decide) (by decide)
  refine ⟨?_, ?_, ?_, ?_⟩
  · rw [hget "usable" (by decide) (by decide) (by decide), hstatus]
    exact h.usable
  · rw [hstatus]
    intro hcompleted
    obtain ⟨prior, hprior, hclosed⟩ := h.completed hcompleted
    exact ⟨prior, hprior, hcloses prior hclosed⟩
  · rw [hstatus]
    intro prior hprior hpending
    obtain ⟨hclosed, hs⟩ := h.closing prior hprior hpending
    exact ⟨hcloses prior hclosed, hs⟩
  · intro w hw heq
    rw [field_obj, completed_id h.first] at heq
    have hused : (field w "event_id").isText id = false := by
      have hall := hfresh
      rw [Unused, List.any_eq_false] at hall
      exact Bool.eq_false_of_not_eq_true (hall w hw)
    rw [heq] at hused
    simp at hused

section Flagged

variable {a : Value} {s : String} {p u : Bool}

theorem flagged_status : Dict.get (flagged a s p u ++ rest) "status" = .str s := by simp [Dict.get, Dict.find, flagged]

theorem flagged_usable : Dict.get (flagged a s p u ++ rest) "usable" = .bool u := by simp [Dict.get, Dict.find, flagged]

theorem flagged_action : Dict.get (flagged a s p u ++ rest) "action" = a := by simp [Dict.get, Dict.find, flagged]

theorem flagged_digest : Dict.get (flagged a s p u ++ rest) "inventory_digest" = rest.get "inventory_digest" := by
  rw [Dict.get, find_flagged (by decide)]
  rfl

/-- A decision or a reconciliation, where nothing is left pending. -/
theorem enters_rested (hes : Rested es) (hs : s ≠ "completed") (hfirst : rest.find "prior_event_id" = none) :
    Enters es (flagged a s p false ++ rest) where
  usable := by
    rw [flagged_usable]
    intro h
    cases h
  completed := by
    rw [flagged_status]
    intro h
    exact absurd (Value.str.inj h) hs
  closing := by
    intro prior hprior hpending
    rw [hes prior hprior] at hpending
    cases hpending
  first := by
    rw [find_flagged (by decide)]
    exact hfirst

/-- What closes the authorization that is pending. -/
theorem enters_closing (h : Last host j latest last) (hpending : (latest.get "pending").isTrue = true)
    (hs : s = "completed" ∧ u = true ∨ s = "aborted" ∧ u = false)
    (hdigest : rest.get "inventory_digest" = latest.get "inventory_digest")
    (hfirst : rest.find "prior_event_id" = none) :
    Enters (events j) (flagged (latest.get "action") s false u ++ rest) := by
  obtain ⟨hopened, action, digest, hact, hact', -, hdig, hdig', -⟩ := h.pending hpending
  have hcloses : Closes (.obj last) (.obj (flagged (latest.get "action") s false u ++ rest)) := by
    refine ⟨hopened, ⟨action, hact, ?_⟩, digest, hdig, ?_⟩
    · rw [field_obj, flagged_action, hact']
    · rw [field_obj, flagged_digest, hdigest, hdig']
  refine ⟨?_, ?_, ?_, ?_⟩
  · rw [flagged_usable, flagged_status]
    intro husable
    rcases hs with ⟨rfl, _⟩ | ⟨_, rfl⟩
    · rfl
    · cases husable
  · intro _
    exact ⟨_, h.atEnd, hcloses⟩
  · intro prior hprior _
    rw [h.atEnd] at hprior
    cases hprior
    rw [flagged_status]
    exact ⟨hcloses, hs.imp (fun h => congrArg _ h.1) (fun h => congrArg _ h.1)⟩
  · rw [find_flagged (by decide)]
    exact hfirst

end Flagged

theorem InHand.opened (h : InHand host d j) (hpending : ((latestOf j).get "pending").isTrue = true) :
    ∃ latest last, Last host j latest last ∧ latestOf j = latest := by
  cases hlast : (events j).getLast? with
  | none => exact absurd (h.formed.no_last hlast) (latest_ne_null hpending)
  | some ev =>
    obtain ⟨latest, last, -, hl⟩ := h.formed.last h.plain hlast
    exact ⟨latest, last, hl, latestOf_eq hl⟩

theorem InHand.rested (h : InHand host d j) (hpending : ¬((latestOf j).get "pending").isTrue = true) :
    Rested (events j) := by
  intro prior hprior
  obtain ⟨latest, last, rfl, hl⟩ := h.formed.last h.plain hprior
  rw [latestOf_eq hl] at hpending
  by_contra htrue
  rw [Bool.not_eq_false] at htrue
  apply hpending
  rw [hl.bool.mpr (isTrue_iff.mp htrue)]
  rfl

/-- A journal a call may append to. -/
structure Ready (host : Host β) (d : Disk β) (k : Dict) : Prop where
  plain : (Value.obj k).Plain
  chronicle : Chronicle (events k)
  grown : recorded host d <+: events k

theorem InHand.ready (h : InHand host d j) (hkept : Kept host d) : Ready host d j :=
  ⟨h.plain, h.same ▸ hkept.chronicle, h.same ▸ List.prefix_rfl⟩

theorem Ready.append (h : Ready host d k) (he : Enters (events k) e) (hplain : (Value.obj e).Plain) {id : String}
    (hfresh : Unused k id) (now : String) : Ready host d (appended k (completed k e id now)) where
  plain := plain_appended h.plain (plain_completed hplain h.plain he.first id now)
  chronicle := by
    rw [events_appended]
    exact h.chronicle.append (he.follows hfresh now)
  grown := by
    rw [events_appended]
    exact h.grown.trans (List.prefix_append _ _)

theorem Ready.persist (h : Ready host d k) : Kept host (written host d k) where
  plain := by
    intro v hv
    rw [readJournalJson, written, Folder.read_put_same] at hv
    cases hv
    exact plain_chained h.plain
  chronicle := by
    rw [recorded_persist]
    exact h.chronicle

theorem closed_ready (hkept : Kept host d) (h : InHand host d j) (hclose : closeInterrupted j draw = .ok k) :
    Ready host d k ∧ Rested (events k) := by
  rw [closeInterrupted] at hclose
  split at hclose
  · next hpending =>
    obtain ⟨latest, last, hl, hlatest⟩ := h.opened hpending
    rw [hlatest] at hpending hclose
    obtain ⟨r, happend, rfl⟩ := map_ok.mp hclose
    obtain ⟨hfresh, rfl⟩ := appendTo_ok happend
    have henters : Enters (events j) (interruptedEvent latest) := enters_closing hl hpending (.inr ⟨rfl, rfl⟩) rfl rfl
    refine ⟨(h.ready hkept).append henters (plain_interrupted hl.plainLatest) hfresh draw.stamp, ?_⟩
    intro prior hprior
    rw [events_appended, List.getLast?_concat] at hprior
    cases hprior
    rw [field_obj, Dict.get, get_completed (by decide) (by decide) (by decide) henters.first]
    rfl
  · next hpending =>
    cases hclose
    exact ⟨h.ready hkept, h.rested hpending⟩

end AItelier.Deployment
