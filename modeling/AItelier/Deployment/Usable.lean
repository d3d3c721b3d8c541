import AItelier.Deployment.Writing
import AItelier.Lib.Run

namespace AItelier.Deployment

open AItelier.Lib

variable {β : Type} {host : Host β} {j k e : Dict} {d : Disk β} {draw : Draw}

/-- A journal in order, as Python has it. -/
structure Good (host : Host β) (j : Dict) : Prop where
  sheet : Sheet host j
  plain : (Value.obj j).Plain

/-- No event has the identity yet. -/
def Unused (j : Dict) (id : String) : Prop := (events j).any (fun row => (field row "event_id").isText id) = false

theorem unused_appended {c : Dict} {id other : String} (h : Unused j id) (hc : c.get "event_id" = .str other)
    (hne : other ≠ id) : Unused (appended j c) id := by
  rw [Unused, events_appended, List.any_append, show (events j).any _ = false from h]
  simp [field, hc, hne]

theorem unused_chained {id : String} : Unused (chained host j) id ↔ Unused j id := by
  rw [Unused, Unused, events_chained]

theorem appendTo_new {id : String} (hfresh : Unused j id) (now : String) :
    appendTo j e id now = .ok (appended j (completed j e id now), completed j e id now) := by
  rw [appendTo, if_neg (by rw [show (itemsOf (j.get "events")).any _ = false from hfresh]; decide)]
  rfl

theorem Good.append (h : Good host j) (hfits : Fits (events j) e) (he : (Value.obj e).Plain) {id : String}
    (hid : State.isHexOf 32 id = true) (hfresh : Unused j id) (now : String) :
    appendTo j e id now = .ok (appended j (completed j e id now), completed j e id now) ∧
      Good host (appended j (completed j e id now)) := by
  exact ⟨appendTo_new hfresh now, h.sheet.appended hfits hid hfresh,
    plain_appended h.plain (plain_completed he h.plain hfits.first id now)⟩

/-- The latest event, where there is one. -/
theorem Good.last_of_latest (h : Good host j) (hne : j.get "latest" ≠ .null) :
    ∃ latest last, Last host j latest last := by
  cases hlast : (events j).getLast? with
  | none => exact absurd (h.sheet.formed.no_last hlast) hne
  | some ev =>
    obtain ⟨latest, last, -, hl⟩ := h.sheet.formed.last h.plain hlast
    exact ⟨latest, last, hl⟩

theorem latest_ne_null {name : String} (h : ((latestOf j).get name).isTrue = true) : j.get "latest" ≠ .null := by
  intro hnull
  rw [latestOf, hnull] at h
  cases h

theorem Good.settled (h : Good host j) (hpending : ((latestOf j).get "pending").isTrue = false) :
    Settled (events j) := by
  intro prior hprior
  obtain ⟨latest, last, rfl, hl⟩ := h.sheet.formed.last h.plain hprior
  rw [latestOf_eq hl] at hpending
  rcases hl.settled hpending with hs | hs | hs
  · exact ⟨_, by simp, hs⟩
  · exact ⟨_, by simp, hs⟩
  · exact ⟨_, by simp, hs⟩

/-- The identities a call draws are new. -/
structure Drawn (host : Host β) [DecidableEq β] (d : Disk β) (draw : Draw) : Prop where
  journal : State.isHexOf 32 draw.journalId = true
  interrupted : State.isHexOf 32 draw.interruptedId = true
  event : State.isHexOf 32 draw.eventId = true
  distinct : draw.interruptedId ≠ draw.eventId
  unused : ∀ j, loadJournal host d draw.journalId = .ok j → Unused j draw.interruptedId ∧ Unused j draw.eventId

variable [DecidableEq β]

/-- Closing what was left pending. -/
theorem Good.close (h : Good host j) (hload : loadJournal host d draw.journalId = .ok j) (hdrawn : Drawn host d draw) :
    ∃ k, closeInterrupted j draw = .ok k ∧ Good host k ∧ Extends j k ∧ Settled (events k) ∧ Unused k draw.eventId := by
  obtain ⟨hfirst, hsecond⟩ := hdrawn.unused j hload
  rw [closeInterrupted]
  split
  · next hpending =>
    obtain ⟨latest, last, hl⟩ := h.last_of_latest (latest_ne_null hpending)
    rw [latestOf_eq hl] at hpending ⊢
    have hfits := fits_interrupted hl hpending
    obtain ⟨happend, hgood⟩ := h.append hfits (plain_interrupted hl.plainLatest) hdrawn.interrupted hfirst draw.stamp
    rw [happend]
    refine ⟨_, rfl, hgood, extends_appended j _, ?_, ?_⟩
    · intro prior hprior
      rw [events_appended, List.getLast?_concat] at hprior
      cases hprior
      refine ⟨"aborted", by simp, ?_⟩
      rw [hfits.field_completed (by decide) (by decide) (by decide)]
      rfl
    · exact unused_appended hsecond (completed_id hfits.first _ _) hdrawn.distinct
  · next hpending =>
    exact ⟨j, rfl, h, Extends.refl j, h.settled (by simpa using hpending), hsecond⟩

omit [DecidableEq β] in
/-- The journal with what was left pending closed can be written where it could be. -/
theorem Good.close_writable (h : Good host j) (hj : Writable draw.room j) (hclose : closeInterrupted j draw = .ok k) :
    Writable draw.room k := by
  rw [closeInterrupted] at hclose
  split at hclose
  · next hpending =>
    obtain ⟨latest, last, hl⟩ := h.last_of_latest (latest_ne_null hpending)
    rw [latestOf_eq hl] at hpending hclose
    obtain ⟨r, happend, rfl⟩ := map_ok.mp hclose
    obtain ⟨-, rfl⟩ := appendTo_ok happend
    have hroom := hl.within hj
    exact hj.appended (fitting_completed (fitting_interrupted hl hpending hroom) hj hroom _ _) hroom
  · cases hclose
    exact hj

/-- An observation that can be recorded when it is refused: an object, whose digest is
absent, null, or 64 hexadecimal digits. -/
def Recordable (v : Value) : Prop :=
  isObject v = true ∧ (field v "digest" = .null ∨ State.isHexText 64 (field v "digest") = true)

omit [DecidableEq β] in
theorem objectFault_digest {o : Dict} (h : objectFault host o = none) : State.isHexText 64 (o.get "digest") = true := by
  rw [objectFault] at h
  simp only [firstOf_cons_none, refuse_none] at h
  obtain ⟨-, -, -, -, -, -, -, -, hhex, -⟩ := h
  simpa using hhex

omit [DecidableEq β] in
theorem valid_observation {s : Snapshot} (h : snapshotFault host s = none) :
    ∃ o : Dict, observed s = .obj o ∧ (Value.obj o).Plain ∧ State.isHexText 64 (o.get "digest") = true := by
  have hvalue : ∀ v : Value, validateObservation host v = none → v.Plain →
      ∃ o : Dict, v = .obj o ∧ (Value.obj o).Plain ∧ State.isHexText 64 (o.get "digest") = true := by
    intro v hv hplain
    cases v with
    | obj o => exact ⟨o, rfl, hplain, objectFault_digest hv⟩
    | _ => cases hv
  cases s with
  | ok v => exact hvalue v.value h v.plain
  | error message =>
    rw [snapshotFault] at h
    split at h
    · exact hvalue _ h plain_nil
    · cases h

theorem plain_observed (s : Snapshot) : (observed s).Plain := by
  cases s with
  | ok v => exact v.plain
  | error message => exact plain_nil

theorem plain_overriding (s : Snapshot) : (overriding s).Plain := by
  cases s with
  | ok v => exact v.plain
  | error message => exact plain_cons (plain_text _) plain_nil (by simp)

/-- An observation the gate can judge, and record when it refuses it. -/
structure Judged (host : Host β) (s : Snapshot) : Prop where
  compared : snapshotFault host s ≠ some .unhashable
  recordable : Recordable (observed s)

/-- What an event takes over from an observation can be written in it. -/
structure Shallow (room : Nat) (v : Value) : Prop where
  blockers : (field v "blockers").frames + 3 ≤ room
  runs : (resumableRunRows (field v "runs")).frames + 3 ≤ room
  errors : (field v "errors").frames + 3 ≤ room

/-- What a decision can be recorded of: the journal that is found can be written, and so
can what the event takes over, from the override as well where it grants the action. -/
structure Recording (host : Host β) [DecidableEq β] (d : Disk β) (draw : Draw) (action : String)
    (observation override : Snapshot) (callers : Scope) : Prop where
  judged : Judged host observation
  journal : ∀ j, loadJournal host d draw.journalId = .ok j → Writable draw.room j
  shallow : Shallow draw.room (observed observation)
  audit : decided host action observation override callers draw.now = .ok .audited →
    (Value.obj (auditOf host (dictOf (overriding override)) (dictOf (observed observation)))).frames + 3 ≤ draw.room

/-- An aborted event that waits for a reconciliation. -/
def awaiting (j : Dict) : Bool :=
  (j.get "latest").truthy && !legacyJournalGenesis (j.get "latest") && !((latestOf j).get "pending").isTrue &&
    (field (j.get "latest") "status").isText "aborted"

/-- What a reconciliation records, where it records, can be written. -/
structure Reconcilable (host : Host β) (room : Nat) (j : Dict) (observation : Snapshot) : Prop where
  pending : ((latestOf j).get "pending").isTrue = true → Writable room j
  recordable : awaiting j = true → Writable room j ∧ Recordable (observed observation)
  shallow : awaiting j = true → unreconciledReason (snapshotFault host observation) (observed observation) ≠ none →
    (field (observed observation) "blockers").frames + 3 ≤ room ∧
    (field (observed observation) "errors").frames + 3 ≤ room

/-- What a call must bring for the journal to stay usable. -/
def Meets (host : Host β) (d : Disk β) (c : Draw × Call) : Prop :=
  match c.2 with
  | .authorize action observation override callers =>
    DEPLOY_ACTIONS.contains action = true → callers.count ≤ 1 → Recording host d c.1 action observation override callers
  | .finalize clearance _ _ =>
    ∀ prior, clearanceEvent clearance = .ok prior → (prior.get "status").hashable = true ∧
      ∀ j, loadJournal host d c.1.journalId = .ok j → clearanceFault prior (latestOf j) = none → Writable c.1.room j
  | .reconcile observation =>
    snapshotFault host observation ≠ some .unhashable ∧
      ∀ j, loadJournal host d c.1.journalId = .ok j → Reconcilable host c.1.room j observation

/-- An aborted event for the action, that nothing may use. -/
structure Aborted (action : String) (ev : Dict) : Prop where
  status : ev.get "status" = .str "aborted"
  action : ev.get "action" = .str action
  pending : ev.get "pending" = .bool false
  usable : ev.get "usable" = .bool false

theorem get_completed_of_fits {es : List Value} (h : Fits es e) {name : String} (h1 : name ≠ "event_id")
    (h2 : name ≠ "at")
    (h3 : name ≠ "prior_event_id") (eventId now : String) :
    (completed j e eventId now).get name = e.get name := h.field_completed h1 h2 h3 eventId now

section Authorize

variable {action : String} {observation override : Snapshot} {callers : Scope} {dec : Decided}

/-- The event of a decision fits behind a closed event. -/
theorem decision_fits {es : List Value} (hes : Settled es) (haction : DEPLOY_ACTIONS.contains action = true)
    (hrecording : Recording host d draw action observation override callers)
    (h : decided host action observation override callers draw.now = .ok dec) :
    ∃ e, decisionEvent host action (observed observation) (overriding override) dec = .ok e ∧ Fits es e ∧
      (Value.obj e).Plain ∧ Fitting draw.room e ∧ ∀ reason, dec = .refused reason →
        ∃ o : Dict, observed observation = .obj o ∧ e = refusedEvent action o reason := by
  obtain ⟨hobject, hdigest⟩ := hrecording.judged.recordable
  obtain ⟨o, ho⟩ : ∃ o : Dict, observed observation = .obj o := isObject_iff.mp hobject
  have hone : isOneOf DEPLOY_ACTIONS (.str action) = true := haction
  have hplain : (Value.obj o).Plain := ho ▸ plain_observed observation
  have hvalid : snapshotFault host observation = none → State.isHexText 64 (o.get "digest") = true := by
    intro hnone
    obtain ⟨o', ho', -, hhex⟩ := valid_observation hnone
    rw [ho] at ho'
    cases ho'
    exact hhex
  have hsound : (∀ reason, dec ≠ .refused reason) → State.isHexText 64 (o.get "digest") = true := by
    intro hdec
    rw [decided] at h
    split at h
    · cases h
    · cases h
      exact absurd rfl (hdec _)
    · next hnone => exact hvalid hnone
  have hroom : 3 ≤ draw.room := Nat.le_of_add_left_le hrecording.shallow.blockers
  have hmeasured : Fitting draw.room (measured o) := by
    have hshallow := hrecording.shallow
    rw [ho] at hshallow hdigest
    apply fitting_cons _ (fitting_cons hshallow.blockers
      (fitting_cons hshallow.runs (fitting_cons hshallow.errors fitting_nil)))
    exact digest_frames hdigest ▸ hroom
  have haudit := hrecording.audit
  rw [ho] at haudit ⊢
  cases dec with
  | quiet =>
    refine ⟨_, rfl, ?_, plain_quiet hplain, fitting_append (fitting_flagged hroom) hmeasured, fun _ hr => nomatch hr⟩
    exact fits_settled hes (.inl rfl) rfl hone (.inl (hsound (fun _ hr => nomatch hr))) rfl
  | audited =>
    refine ⟨_, rfl, ?_, plain_audited (plain_dictOf (plain_overriding override)) hplain,
      fitting_append (fitting_append (fitting_flagged hroom) (fitting_cons (haudit h) fitting_nil)) hmeasured,
      fun _ hr => nomatch hr⟩
    rw [auditedEvent, List.append_assoc]
    have hhex := hsound (fun _ hr => nomatch hr)
    split
    · exact fits_settled hes (.inl rfl) rfl hone (.inl hhex) rfl
    · exact fits_settled hes (.inr (.inl rfl)) rfl hone (.inl hhex) rfl
  | refused reason =>
    refine ⟨_, rfl, ?_, plain_refused hplain,
      fitting_append (fitting_append (fitting_flagged hroom)
        (fitting_cons (Nat.zero_add 3 ▸ hroom) fitting_nil)) hmeasured,
      fun r hr => ⟨o, rfl, by cases hr; rfl⟩⟩
    rw [refusedEvent, List.append_assoc]
    apply fits_settled hes (.inr (.inr rfl)) rfl hone _ rfl
    rw [ho] at hdigest
    rcases hdigest with hnull | hhex
    · exact .inr ⟨rfl, hnull⟩
    · exact .inl hhex

/-- What a call under the lock leaves. -/
structure Left (host : Host β) (room : Nat) (j : Dict) (r : Recorded) : Prop where
  good : Good host r.journal
  writable : Writable room r.journal
  room : 3 ≤ room
  grown : Extends j r.journal
  last : (events r.journal).getLast? = some (.obj r.event)

theorem authorize_known (haction : DEPLOY_ACTIONS.contains action = true) (hscopes : callers.count ≤ 1) :
    authorize host d draw action observation override callers =
      settle host draw.room d (authorizeLocked host d draw action observation override callers) := by
  rw [authorize, if_neg (by rw [haction]; decide), if_neg (Nat.not_lt.mpr hscopes)]

/-- A decision under the lock is recorded. -/
theorem authorizeLocked_ok (hload : loadJournal host d draw.journalId = .ok j)
    (hclose : closeInterrupted j draw = .ok k)
    (hdec : decided host action observation override callers draw.now = .ok dec)
    (hevent : decisionEvent host action (observed observation) (overriding override) dec = .ok e)
    (hfresh : Unused k draw.eventId) :
    authorizeLocked host d draw action observation override callers =
      .ok ⟨appended k (completed k e draw.eventId draw.stamp), completed k e draw.eventId draw.stamp,
        dec.answer action (completed k e draw.eventId draw.stamp)⟩ := by
  rw [authorizeLocked, hload, ok_bind, hclose, ok_bind, hdec, ok_bind, hevent, ok_bind, appendTo_new hfresh]
  rfl

theorem authorizeLocked_left (hgood : Good host j) (hload : loadJournal host d draw.journalId = .ok j)
    (hdrawn : Drawn host d draw) (haction : DEPLOY_ACTIONS.contains action = true)
    (hrecording : Recording host d draw action observation override callers) :
    ∃ r, authorizeLocked host d draw action observation override callers = .ok r ∧ Left host draw.room j r ∧
      ((∃ a, r.answer = .ok a) ∨ (∃ m, r.answer = .error (.blocked m)) ∧ Aborted action r.event ∧
        r.event.get "event_id" = .str draw.eventId) := by
  obtain ⟨k, hclose, hk, hext, hsettled, hunused⟩ := hgood.close hload hdrawn
  have hdec : ∃ dec, decided host action observation override callers draw.now = .ok dec := by
    rw [decided]
    split
    · next hfault => exact absurd hfault hrecording.judged.compared
    · exact ⟨_, rfl⟩
    · dsimp only
      split
      · exact ⟨_, rfl⟩
      · split <;> exact ⟨_, rfl⟩
  obtain ⟨dec, hdec⟩ := hdec
  obtain ⟨e, hevent, hfits, hplain, hfitting, hrefused⟩ := decision_fits hsettled haction hrecording hdec
  obtain ⟨-, hgood'⟩ := hk.append hfits hplain hdrawn.event hunused draw.stamp
  have hroom : 3 ≤ draw.room := Nat.le_of_add_left_le hrecording.shallow.blockers
  have hwritable := hgood.close_writable (hrecording.journal j hload) hclose
  refine ⟨⟨appended k (completed k e draw.eventId draw.stamp), completed k e draw.eventId draw.stamp,
    dec.answer action (completed k e draw.eventId draw.stamp)⟩, ?_,
    ⟨hgood', hwritable.appended (fitting_completed hfitting hwritable hroom _ _) hroom, hroom,
      hext.trans (extends_appended k _), ?_⟩, ?_⟩
  · exact authorizeLocked_ok hload hclose hdec hevent hunused
  · rw [events_appended, List.getLast?_concat]
  · cases dec with
    | quiet => exact .inl ⟨_, rfl⟩
    | audited => exact .inl ⟨_, rfl⟩
    | refused reason =>
      obtain ⟨o, -, rfl⟩ := hrefused reason rfl
      refine .inr ⟨⟨_, rfl⟩, ⟨?_, ?_, ?_, ?_⟩, completed_id hfits.first _ _⟩
      all_goals
        rw [get_completed_of_fits hfits (by decide) (by decide) (by decide)]
        rfl

end Authorize

section Settle

omit [DecidableEq β] in
theorem openClearance_event {clearance : Value} {prior : Dict} (h : openClearance clearance = .ok prior) :
    clearanceEvent clearance = .ok prior := by
  rw [openClearance] at h
  split at h
  · cases h
  · next event hevent =>
    split at h
    · cases h
    · split at h
      · cases h
      · cases h
        exact hevent

omit [DecidableEq β] in
theorem clearanceFault_pending {prior latest : Dict} (h : clearanceFault prior latest = none) :
    (latest.get "pending").isTrue = true := by
  rw [clearanceFault] at h
  simp only [firstOf_cons_none, refuse_none] at h
  obtain ⟨-, hopen, -⟩ := h
  rw [Bool.or_eq_false_iff, Bool.not_eq_false', Bool.not_eq_false'] at hopen
  exact hopen.2

theorem finalize_opened {clearance : Value} {prior : Dict} {success : Bool} {error : Option String}
    (hopen : openClearance clearance = .ok prior) : finalize host d draw clearance success error =
      settle host draw.room d (finalizeLocked host d draw prior success error) := by
  rw [finalize, hopen]

theorem finalizeLocked_ok {prior : Dict} (hload : loadJournal host d draw.journalId = .ok j)
    (hfault : clearanceFault prior (latestOf j) = none) (hfresh : Unused j draw.eventId) (success : Bool)
    (error : Option String) : finalizeLocked host d draw prior success error =
      .ok ⟨appended j (completed j (finalEvent (latestOf j) success error) draw.eventId draw.stamp),
        completed j (finalEvent (latestOf j) success error) draw.eventId draw.stamp,
        .ok ⟨success, some (completed j (finalEvent (latestOf j) success error) draw.eventId draw.stamp), none⟩⟩ := by
  rw [finalizeLocked, hload, ok_bind, hfault]
  dsimp only
  rw [appendTo_new hfresh]
  rfl

theorem finalizeLocked_left {prior : Dict} {success : Bool} {error : Option String} (hgood : Good host j)
    (hload : loadJournal host d draw.journalId = .ok j) (hdrawn : Drawn host d draw)
    (hjournal : clearanceFault prior (latestOf j) = none → Writable draw.room j) :
    (∃ m, finalizeLocked host d draw prior success error = .error (.blocked m)) ∨
      ∃ r a, finalizeLocked host d draw prior success error = .ok r ∧ Left host draw.room j r ∧ r.answer = .ok a := by
  rw [finalizeLocked, hload, ok_bind]
  cases hfault : clearanceFault prior (latestOf j) with
  | some message => exact .inl ⟨message, rfl⟩
  | none =>
    right
    have hpending := clearanceFault_pending hfault
    have hwritable := hjournal hfault
    obtain ⟨latest, last, hl⟩ := hgood.last_of_latest (latest_ne_null hpending)
    rw [latestOf_eq hl] at hpending ⊢
    have hroom := hl.within hwritable
    have hfitting := fitting_completed (fitting_final hl hpending hroom success error) hwritable hroom
        draw.eventId draw.stamp
    have hfits := fits_final hl hpending success error
    obtain ⟨happend, hgood'⟩ := hgood.append hfits (plain_final hl.plainLatest success error) hdrawn.event
      (hdrawn.unused j hload).2 draw.stamp
    dsimp only
    rw [happend, ok_bind]
    refine ⟨_, _, rfl, ⟨hgood', hwritable.appended hfitting hroom, hroom, extends_appended j _, ?_⟩, rfl⟩
    rw [events_appended, List.getLast?_concat]

omit [DecidableEq β] in
theorem Last.action {latest last : Dict} (h : Last host j latest last)
    (hlegacy : legacyJournalGenesis (.obj latest) = false) :
    ∃ action, latest.get "action" = .str action ∧ last.get "action" = .str action ∧
      isOneOf DEPLOY_ACTIONS (.str action) = true := by
  rcases h.graded with hg | ⟨p, u, hg⟩
  · rw [h.legacy, hg] at hlegacy
    cases hlegacy
  · obtain ⟨action, haction, hact⟩ := isOneOf_iff.mp hg.action
    exact ⟨action, h.text.mpr hact, hact, isOneOf_iff.mpr ⟨action, haction, rfl⟩⟩

omit [DecidableEq β] in
/-- What a reconciliation records behind an aborted event fits there. -/
theorem fits_aborted {latest last rest : Dict} {s : String} (h : Last host j latest last)
    (hlegacy : legacyJournalGenesis (.obj latest) = false) (haborted : latest.get "status" = .str "aborted")
    (hs : s = "aborted" ∨ s = "reconciled_quiescent") (hstates : statesOf (.str s) = some (false, false))
    (hdigest : State.isHexText 64 (rest.get "inventory_digest") = true ∨
      (s = "aborted" ∧ rest.get "inventory_digest" = .null))
    (hfirst : rest.find "prior_event_id" = none) :
    Fits (events j) (flagged (latest.get "action") s false false ++ rest) := by
  obtain ⟨action, hact, hact', hone⟩ := h.action hlegacy
  have hstatus : last.get "status" = .str "aborted" := h.text.mp haborted
  have hprior : ∀ prior, (events j).getLast? = some prior → prior = .obj last := by
    intro prior hp
    rw [h.atEnd] at hp
    cases hp
    rfl
  rw [hact]
  apply fits_flagged hstates hone hdigest hfirst
  · intro hnil
    have hlast := h.atEnd
    rw [hnil] at hlast
    cases hlast
  · intro prior hp
    rw [hprior prior hp, field_obj, hstatus]
    rcases hs with rfl | rfl <;> decide
  · intro prior hp hopen
    rw [hprior prior hp, field_obj, hstatus] at hopen
    exact absurd hopen (by decide)
  · intro prior hp _
    rw [hprior prior hp, field_obj, hact']
    simp

omit [DecidableEq β] in
/-- What `reconcile` may meet under the lock. -/
theorem reconciliation_left {observation : Snapshot} (hgood : Good host j)
    (hfault : snapshotFault host observation ≠ some .unhashable) (hmeets : Reconcilable host room j observation) :
    (∃ reason, reconciliation (j.get "latest") (snapshotFault host observation) (observed observation)
        ((latestOf j).get "pending").isTrue = .ok (.nothing reason)) ∨
      ∃ e b, reconciliation (j.get "latest") (snapshotFault host observation) (observed observation)
        ((latestOf j).get "pending").isTrue = .ok (.event e b) ∧ Fits (events j) e ∧ (Value.obj e).Plain ∧
        Writable room j ∧ 3 ≤ room ∧ Fitting room e := by
  rw [reconciliation]
  by_cases hlegacy : ((j.get "latest").truthy && legacyJournalGenesis (j.get "latest")) = true
  · rw [if_pos hlegacy]
    exact .inl ⟨_, rfl⟩
  rw [if_neg hlegacy]
  by_cases hpending : ((latestOf j).get "pending").isTrue = true
  · rw [if_pos hpending]
    obtain ⟨latest, last, hl⟩ := hgood.last_of_latest (latest_ne_null hpending)
    have hwritable := hmeets.pending hpending
    have hroom := hl.within hwritable
    rw [latestOf_eq hl] at hpending
    rw [hl.atLatest]
    exact .inr ⟨_, _, rfl, fits_interrupted hl hpending, plain_interrupted hl.plainLatest, hwritable, hroom,
      fitting_interrupted hl hpending hroom⟩
  rw [if_neg hpending]
  by_cases haborted : (!(j.get "latest").truthy || !(field (j.get "latest") "status").isText "aborted") = true
  · rw [if_pos haborted]
    exact .inl ⟨_, rfl⟩
  rw [if_neg haborted]
  rw [Bool.or_eq_true, Bool.not_eq_true', Bool.not_eq_true', not_or, Bool.not_eq_false, Bool.not_eq_false] at haborted
  obtain ⟨htruthy, hstatus⟩ := haborted
  have hnotLegacy : legacyJournalGenesis (j.get "latest") = false := by simpa [htruthy] using hlegacy
  have hawaiting : awaiting j = true := by
    rw [awaiting, htruthy, hnotLegacy, hstatus, Bool.eq_false_of_not_eq_true hpending]
    rfl
  have hnonnull : j.get "latest" ≠ .null := by
    intro hnull
    rw [hnull] at htruthy
    cases htruthy
  obtain ⟨latest, last, hl⟩ := hgood.last_of_latest hnonnull
  obtain ⟨hwritable, hobject, hdigest⟩ := hmeets.recordable hawaiting
  have hshallow := hmeets.shallow hawaiting
  have hroom := hl.within hwritable
  obtain ⟨o, ho⟩ : ∃ o : Dict, observed observation = .obj o := isObject_iff.mp hobject
  have hplain : (Value.obj o).Plain := ho ▸ plain_observed observation
  have htext : latest.get "status" = .str "aborted" := by
    rw [hl.atLatest] at hstatus
    exact Value.isText_iff.mp hstatus
  rw [hl.atLatest] at hnotLegacy ⊢
  obtain ⟨action, hact, -⟩ := hl.action hnotLegacy
  have hflagged : ∀ status pending usable, Fitting room (flagged (latest.get "action") status pending usable) := by
    intro status pending usable
    rw [hact]
    exact fitting_flagged hroom
  right
  cases hreason : unreconciledReason (snapshotFault host observation) (observed observation) with
  | some reason =>
    obtain ⟨hblockers, herrors⟩ := hshallow (by rw [hreason]; exact Option.some_ne_none reason)
    rw [ho] at hdigest hblockers herrors ⊢
    refine ⟨_, _, rfl, ?_, plain_unreconciled hl.plainLatest hplain, hwritable, hroom,
      fitting_append (hflagged _ _ _) (fitting_append (fitting_text hroom reason)
        (fitting_append (fitting_digest hroom hdigest) (fitting_cons hblockers (fitting_cons herrors fitting_nil))))⟩
    apply fits_aborted hl hnotLegacy htext (.inl rfl) rfl _ rfl
    rcases hdigest with hnull | hhex
    · exact .inr ⟨rfl, hnull⟩
    · exact .inl hhex
  | none =>
    rw [ho] at hdigest ⊢
    refine ⟨_, _, rfl, ?_, plain_reconciled hl.plainLatest hplain, hwritable, hroom,
      fitting_append (hflagged _ _ _) (fitting_digest hroom hdigest)⟩
    have hnone : snapshotFault host observation = none := by
      cases hf : snapshotFault host observation with
      | none => rfl
      | some fault =>
        cases fault with
        | message text => rw [hf] at hreason; cases hreason
        | unhashable => exact absurd hf hfault
    obtain ⟨o', ho', -, hhex⟩ := valid_observation hnone
    rw [ho] at ho'
    cases ho'
    exact fits_aborted hl hnotLegacy htext (.inr rfl) rfl (.inl hhex) rfl

theorem reconcileLocked_left {observation : Snapshot} (hgood : Good host j)
    (hload : loadJournal host d draw.journalId = .ok j) (hdrawn : Drawn host d draw)
    (hfault : snapshotFault host observation ≠ some .unhashable) (hmeets : Reconcilable host draw.room j observation) :
    (∃ a, reconcileLocked host d draw (snapshotFault host observation) (observed observation) = .ok (.inl a)) ∨
      ∃ r a, reconcileLocked host d draw (snapshotFault host observation) (observed observation) = .ok (.inr r) ∧
        Left host draw.room j r ∧ r.answer = .ok a := by
  rw [reconcileLocked, hload, ok_bind]
  rcases reconciliation_left hgood hfault hmeets with
    ⟨reason, h⟩ | ⟨e, b, h, hfits, hplain, hwritable, hroom, hfitting⟩
  · rw [h, ok_bind]
    exact .inl ⟨_, rfl⟩
  · obtain ⟨happend, hgood'⟩ := hgood.append hfits hplain hdrawn.event (hdrawn.unused j hload).2 draw.stamp
    rw [h, ok_bind]
    dsimp only
    rw [happend, ok_bind]
    have hcompleted := fitting_completed hfitting hwritable hroom draw.eventId draw.stamp
    refine .inr ⟨_, _, rfl, ⟨hgood', hwritable.appended hcompleted hroom, hroom, extends_appended j _, ?_⟩, rfl⟩
    rw [events_appended, List.getLast?_concat]

end Settle

/-- `_load_journal` accepts what is on disk. -/
def Accepted (host : Host β) (d : Disk β) : Prop :=
  ∀ id, State.isHexOf 32 id = true → ∃ j, loadJournal host d id = .ok j

/-- What is on disk is loaded as a journal in order. -/
def Usable (host : Host β) (d : Disk β) : Prop :=
  ∀ id, State.isHexOf 32 id = true → ∃ j, loadJournal host d id = .ok j ∧ Good host j

/-- The call returned, or raised `DeploymentBlocked` or `ValueError`. -/
def Civil : Except Stop Answer → Prop
  | .ok _ => True
  | .error (.blocked _) => True
  | .error (.value _) => True
  | .error _ => False

/-- The call is answered, and a refusal of a known action leaves an aborted event. -/
structure Answered (host : Host β) (d : Disk β) (c : Draw × Call) : Prop where
  accepted : Accepted host d
  civil : Civil (act host d c).1
  evidence : ∀ action observation override callers message, c.2 = .authorize action observation override callers →
    (act host d c).1 = .error (.blocked message) →
    ∃ (j ev : Dict), Loaded host (step host d c) j ∧ (events j).getLast? = some (.obj ev) ∧ Aborted action ev ∧
      ev.get "event_id" = .str c.1.eventId

omit [DecidableEq β] in
theorem settle_left {d : Disk β} {r : Recorded} (hleft : Left host draw.room j r) :
    settle host draw.room d (.ok r) = (r.answer, written host d r.journal) := by
  rw [settle, persistJournal_ok hleft.writable (Nat.le_of_succ_le hleft.room) d]
  rfl

/-- What a call records is loaded again, and in order. -/
theorem Left.loaded {id : String} {room : Nat} {r : Recorded} (hleft : Left host room j r)
    (hload : loadJournal host d id = .ok j) : Loaded host (written host d r.journal) (chained host r.journal) :=
  load_persist hload hleft.grown hleft.good.sheet (plain_chained hleft.good.plain)

theorem usable_settle {r : Recorded} (hload : loadJournal host d draw.journalId = .ok j)
    (hleft : Left host draw.room j r) :
    Usable host (settle host draw.room d (.ok r)).2 ∧
      Loaded host (settle host draw.room d (.ok r)).2 (chained host r.journal) := by
  have hloaded := hleft.loaded hload
  rw [settle_left hleft]
  refine ⟨fun id _ => ⟨_, loadJournal_ok.mpr (.inl hloaded), hloaded.valid.sheet,
    plain_chained hleft.good.plain⟩, hloaded⟩

theorem Usable.accepted (h : Usable host d) : Accepted host d := by
  intro id hid
  obtain ⟨j, hload, _⟩ := h id hid
  exact ⟨j, hload⟩

theorem authorize_usable {action : String} {observation override : Snapshot} {callers : Scope} (h : Usable host d)
    (hdrawn : Drawn host d draw)
    (hmeets : DEPLOY_ACTIONS.contains action = true → callers.count ≤ 1 →
      Recording host d draw action observation override callers) :
    Usable host (authorize host d draw action observation override callers).2 ∧
      Civil (authorize host d draw action observation override callers).1 ∧
      ∀ m, (authorize host d draw action observation override callers).1 = .error (.blocked m) →
        ∃ (j ev : Dict), Loaded host (authorize host d draw action observation override callers).2 j ∧
          (events j).getLast? = some (.obj ev) ∧ Aborted action ev ∧ ev.get "event_id" = .str draw.eventId := by
  rw [authorize]
  split
  · exact ⟨h, trivial, fun m hm => by cases hm⟩
  next hknown =>
  split
  · exact ⟨h, trivial, fun m hm => by cases hm⟩
  next hscopes =>
  obtain ⟨j, hload, hgood⟩ := h draw.journalId hdrawn.journal
  have haction : DEPLOY_ACTIONS.contains action = true := by simpa using hknown
  obtain ⟨r, hr, hleft, hanswer⟩ : ∃ r, authorizeLocked host d draw action observation override callers = .ok r ∧ _ :=
    authorizeLocked_left hgood hload hdrawn haction (hmeets haction (Nat.not_lt.mp hscopes))
  obtain ⟨husable, hloaded⟩ := usable_settle hload hleft
  have hsettle := settle_left (d := d) hleft
  rw [hr]
  refine ⟨husable, ?_, ?_⟩
  · rw [hsettle]
    rcases hanswer with ⟨a, ha⟩ | ⟨⟨m, hm⟩, _⟩
    · exact (congrArg Civil ha).mpr trivial
    · exact (congrArg Civil hm).mpr trivial
  · intro m hm
    rcases hanswer with ⟨a, ha⟩ | ⟨_, haborted, hid⟩
    · rw [hsettle, ha] at hm
      cases hm
    · refine ⟨_, r.event, hloaded, ?_, haborted, hid⟩
      rw [events_chained]
      exact hleft.last

theorem finalize_usable {clearance : Value} {success : Bool} {error : Option String} (h : Usable host d)
    (hdrawn : Drawn host d draw)
    (hmeets : ∀ prior, clearanceEvent clearance = .ok prior → (prior.get "status").hashable = true ∧
      ∀ j, loadJournal host d draw.journalId = .ok j → clearanceFault prior (latestOf j) = none →
        Writable draw.room j) :
    Usable host (finalize host d draw clearance success error).2 ∧
      Civil (finalize host d draw clearance success error).1 := by
  obtain ⟨j, hload, hgood⟩ := h draw.journalId hdrawn.journal
  rw [finalize]
  cases hopen : openClearance clearance with
  | error stop =>
    refine ⟨h, ?_⟩
    rw [openClearance] at hopen
    split at hopen
    · cases hopen
      trivial
    · next prior hprior =>
      rw [(hmeets prior hprior).1] at hopen
      split at hopen
      · next hfalse => cases hfalse
      · split at hopen
        · cases hopen
          trivial
        · cases hopen
  | ok prior =>
    dsimp only
    have hlocked : (∃ m, finalizeLocked host d draw prior success error = .error (.blocked m)) ∨ _ :=
      finalizeLocked_left hgood hload hdrawn ((hmeets prior (openClearance_event hopen)).2 j hload)
    rcases hlocked with ⟨m, hm⟩ | ⟨r, a, hr, hleft, ha⟩
    · rw [hm]
      exact ⟨h, trivial⟩
    · rw [hr]
      refine ⟨(usable_settle hload hleft).1, ?_⟩
      rw [settle_left hleft]
      exact (congrArg Civil ha).mpr trivial

theorem reconcile_usable {observation : Snapshot} (h : Usable host d) (hdrawn : Drawn host d draw)
    (hfault : snapshotFault host observation ≠ some .unhashable)
    (hmeets : ∀ j, loadJournal host d draw.journalId = .ok j → Reconcilable host draw.room j observation) :
    Usable host (reconcile host d draw observation).2 ∧ Civil (reconcile host d draw observation).1 := by
  obtain ⟨j, hload, hgood⟩ := h draw.journalId hdrawn.journal
  rw [reconcile]
  split
  · next hf => exact absurd hf hfault
  · rcases reconcileLocked_left hgood hload hdrawn hfault (hmeets j hload) with ⟨a, ha⟩ | ⟨r, a, hr, hleft, ha⟩
    · rw [ha]
      exact ⟨h, trivial⟩
    · rw [hr]
      refine ⟨(usable_settle hload hleft).1, ?_⟩
      dsimp only
      rw [settle_left hleft]
      exact (congrArg Civil ha).mpr trivial

/-- One call that meets its condition is answered, and leaves the journal usable. -/
theorem usable_step {c : Draw × Call} (h : Usable host d) (hdrawn : Drawn host d c.1) (hmeets : Meets host d c) :
    Answered host d c ∧ Usable host (step host d c) := by
  obtain ⟨draw, call⟩ := c
  cases call with
  | authorize action observation override callers =>
    have hauthorize : Usable host (authorize host d draw action observation override callers).2 ∧ _ :=
      authorize_usable h hdrawn hmeets
    obtain ⟨husable, hcivil, hevidence⟩ := hauthorize
    refine ⟨⟨h.accepted, hcivil, ?_⟩, husable⟩
    intro _ _ _ _ m heq hm
    cases heq
    exact hevidence m hm
  | finalize clearance success error =>
    have hfinalize : Usable host (finalize host d draw clearance success error).2 ∧ _ := finalize_usable h hdrawn hmeets
    obtain ⟨husable, hcivil⟩ := hfinalize
    exact ⟨⟨h.accepted, hcivil, fun _ _ _ _ _ heq => nomatch heq⟩, husable⟩
  | reconcile observation =>
    obtain ⟨husable, hcivil⟩ := reconcile_usable h hdrawn hmeets.1 hmeets.2
    exact ⟨⟨h.accepted, hcivil, fun _ _ _ _ _ heq => nomatch heq⟩, husable⟩

omit [DecidableEq β] in
theorem plain_emptyJournal (id : String) : (Value.obj (emptyJournal id)).Plain := by
  have hnil : (Value.arr []).Plain := Value.plain_arr.mpr (fun _ hw => absurd hw List.not_mem_nil)
  have htwo : (Value.int 2).Plain := trivial
  apply plain_cons htwo
  · apply plain_cons (plain_text id)
    · apply plain_cons hnil
      · exact plain_cons hnil plain_nil (by simp)
      · simp
    · simp
  · simp

omit [DecidableEq β] in
/-- What was found on disk and decodes has each key of its objects once. -/
theorem found_plain {f : Folder File β} {v : Value} (h : readJournalJson host (found f) .journal = .ok v) :
    v.Plain := by
  rw [readJournalJson] at h
  split at h
  · next c hc =>
    obtain ⟨i, -, hi⟩ := Option.bind_eq_some_iff.mp hc
    obtain ⟨b, -, rfl⟩ := List.mem_map.mp (List.mem_of_getElem? hi)
    rw [Content.decode] at h
    split at h
    · next w hw =>
      cases h
      exact host.unique b _ hw
    · cases h
  · cases h

theorem usable_found {f : Folder File β} {id : String} (h : loadJournal host (found f) id = .ok j) :
    Usable host (found f) := by
  rcases loadJournal_ok.mp h with hloaded | ⟨hj, ha, hb, hs, ht, _⟩
  · have hplain : (Value.obj j).Plain := found_plain hloaded.read
    exact fun id' _ => ⟨j, loadJournal_ok.mpr (.inl hloaded), hloaded.valid.sheet, hplain⟩
  · exact fun id' hid' => ⟨emptyJournal id', loadJournal_ok.mpr (.inr ⟨hj, ha, hb, hs, ht, rfl⟩),
      (emptyJournal_valid hid').sheet, plain_emptyJournal id'⟩

end AItelier.Deployment
