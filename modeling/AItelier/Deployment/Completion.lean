import AItelier.Deployment.Recording

namespace AItelier.Deployment

open AItelier.Lib

variable {β : Type} {host : Host β} {j k e : Dict} {d d' : Disk β} {draw : Draw} {c : Draw × Call}

/-- The event `e` a call records behind the journal `k`, which is `j` with the
authorization left pending closed. -/
inductive Entry (host : Host β) (j : Dict) : Draw × Call → Dict → Dict → Prop
  | decision {draw : Draw} {action : String} {observation override : Snapshot} {callers : Scope} {k : Dict}
      {dec : Decided} {e : Dict} :
      closeInterrupted j draw = .ok k → decided host action observation override callers draw.now = .ok dec →
      decisionEvent host action (observed observation) (overriding override) dec = .ok e →
      Entry host j (draw, .authorize action observation override callers) k e
  | final {draw : Draw} {clearance : Value} {success : Bool} {error : Option String} {prior : Dict} :
      openClearance clearance = .ok prior → clearanceFault prior (latestOf j) = none →
      Entry host j (draw, .finalize clearance success error) j (finalEvent (latestOf j) success error)
  | reconciled {draw : Draw} {observation : Snapshot} {e : Dict} {b : Bool} :
      reconciliation (j.get "latest") (snapshotFault host observation) (observed observation)
          ((latestOf j).get "pending").isTrue = .ok (.event e b) →
      Entry host j (draw, .reconcile observation) j e

variable [DecidableEq β]

/-- A call that records. -/
structure Records (host : Host β) (d : Disk β) (c : Draw × Call) (j k e : Dict) : Prop where
  load : loadJournal host d c.1.journalId = .ok j
  entry : Entry host j c k e
  fresh : Unused k c.1.eventId
  left : step host d c = written host d (appended k (completed k e c.1.eventId c.1.stamp))
  finalized : ∀ clearance success error, c.2 = .finalize clearance success error →
    (act host d c).1 = .ok ⟨success, some (completed k e c.1.eventId c.1.stamp), none⟩

/-- A call that leaves the journal as it is: it returns only where there is nothing to
reconcile. -/
structure Passes (host : Host β) (d : Disk β) (c : Draw × Call) : Prop where
  left : (step host d c).read .journal = d.read .journal
  returned : ∀ a, (act host d c).1 = .ok a → ∃ observation j reason, c.2 = .reconcile observation ∧
    loadJournal host d c.1.journalId = .ok j ∧
    reconciliation (j.get "latest") (snapshotFault host observation) (observed observation)
      ((latestOf j).get "pending").isTrue = .ok (.nothing reason)

omit [DecidableEq β] in
theorem settle_cases (host : Host β) (room : Nat) (d : Disk β) (r : Recorded) :
    settle host room d (.ok r) = (r.answer, written host d r.journal) ∨
      (settle host room d (.ok r)).1 = .error .recursion ∧
        (settle host room d (.ok r)).2.read .journal = d.read .journal := by
  rw [settle]
  rcases persistJournal_cases host room d r.journal with hwritten | ⟨hstop, hleft⟩
  · rw [hwritten]
    exact .inl rfl
  · rw [hstop]
    exact .inr ⟨rfl, hleft⟩

/-- A call that dies while it writes leaves the journal as it is. -/
theorem passes_of_stop {out : Except Stop Answer × Disk β} (hact : act host d c = out) (hstep : step host d c = out.2)
    (hstop : out.1 = .error .recursion) (hleft : out.2.read .journal = d.read .journal) : Passes host d c where
  left := by
    rw [hstep]
    exact hleft
  returned := by
    intro a ha
    rw [hact, hstop] at ha
    cases ha

theorem authorize_cases {action : String} {observation override : Snapshot} {callers : Scope}
    (hc : c.2 = .authorize action observation override callers) :
    Passes host d c ∨ ∃ j k e, Records host d c j k e := by
  obtain ⟨draw, call⟩ := c
  subst hc
  have hact : act host d (draw, .authorize action observation override callers) =
      authorize host d draw action observation override callers := rfl
  have hstep : step host d (draw, .authorize action observation override callers) =
      (authorize host d draw action observation override callers).2 := rfl
  rw [authorize] at hact hstep
  split at hact
  · next hknown =>
    rw [if_pos hknown] at hstep
    exact .inl ⟨congrArg (fun d => d.read .journal) hstep, fun a ha => by rw [hact] at ha; cases ha⟩
  next hknown =>
  rw [if_neg hknown] at hstep
  split at hact
  · next hscopes =>
    rw [if_pos hscopes] at hstep
    exact .inl ⟨congrArg (fun d => d.read .journal) hstep, fun a ha => by rw [hact] at ha; cases ha⟩
  next hscopes =>
  rw [if_neg hscopes] at hstep
  cases hlocked : authorizeLocked host d draw action observation override callers with
  | error stop =>
    rw [hlocked] at hact hstep
    exact .inl ⟨congrArg (fun d => d.read .journal) hstep, fun a ha => by rw [hact] at ha; cases ha⟩
  | ok r =>
    rw [hlocked] at hact hstep
    rcases settle_cases host draw.room d r with hwritten | ⟨hstop, hleft⟩
    · rw [hwritten] at hstep
      right
      rw [authorizeLocked] at hlocked
      simp only [bind_ok, pure_ok] at hlocked
      obtain ⟨j, hload, k, hclose, dec, hdec, e, hevent, s, happend, rfl⟩ := hlocked
      obtain ⟨hfresh, rfl⟩ := appendTo_ok happend
      exact ⟨j, k, e, hload, .decision hclose hdec hevent, hfresh, hstep, fun _ _ _ h => by cases h⟩
    · exact .inl (passes_of_stop hact hstep hstop hleft)

variable {clearance : Value} {prior : Dict}

theorem finalize_cases {success : Bool} {error : Option String}
    (hc : c.2 = .finalize clearance success error) :
    Passes host d c ∨ ∃ j k e, Records host d c j k e := by
  obtain ⟨draw, call⟩ := c
  subst hc
  have hact : act host d (draw, .finalize clearance success error) =
      finalize host d draw clearance success error := rfl
  have hstep : step host d (draw, .finalize clearance success error) =
      (finalize host d draw clearance success error).2 := rfl
  rw [finalize] at hact hstep
  cases hopen : openClearance clearance with
  | error stop =>
    rw [hopen] at hact hstep
    exact .inl ⟨congrArg (fun d => d.read .journal) hstep, fun a ha => by rw [hact] at ha; cases ha⟩
  | ok prior =>
    rw [hopen] at hact hstep
    dsimp only at hact hstep
    cases hlocked : finalizeLocked host d draw prior success error with
    | error stop =>
      rw [hlocked] at hact hstep
      exact .inl ⟨congrArg (fun d => d.read .journal) hstep, fun a ha => by rw [hact] at ha; cases ha⟩
    | ok r =>
      rw [hlocked] at hact hstep
      rcases settle_cases host draw.room d r with hwritten | ⟨hstop, hleft⟩
      · rw [hwritten] at hact hstep
        right
        rw [finalizeLocked, bind_ok] at hlocked
        obtain ⟨j, hload, hlocked⟩ := hlocked
        cases hfault : clearanceFault prior (latestOf j) with
        | some message => rw [hfault] at hlocked; cases hlocked
        | none =>
          rw [hfault] at hlocked
          simp only [bind_ok, pure_ok] at hlocked
          obtain ⟨s, happend, rfl⟩ := hlocked
          obtain ⟨hfresh, rfl⟩ := appendTo_ok happend
          refine ⟨j, j, _, hload, .final hopen hfault, hfresh, hstep, ?_⟩
          intro _ _ _ heq
          cases heq
          exact congrArg Prod.fst hact
      · exact .inl (passes_of_stop hact hstep hstop hleft)

theorem reconcile_cases {observation : Snapshot} (hc : c.2 = .reconcile observation) :
    Passes host d c ∨ ∃ j k e, Records host d c j k e := by
  obtain ⟨draw, call⟩ := c
  subst hc
  have hact : act host d (draw, .reconcile observation) = reconcile host d draw observation := rfl
  have hstep : step host d (draw, .reconcile observation) = (reconcile host d draw observation).2 := rfl
  rw [reconcile] at hact hstep
  split at hact
  · next hfault =>
    rw [hfault] at hstep
    exact .inl ⟨congrArg (fun d => d.read .journal) hstep, fun a ha => by rw [hact] at ha; cases ha⟩
  next hfault =>
  split at hstep
  · next h => exact absurd h hfault
  cases hlocked : reconcileLocked host d draw (snapshotFault host observation) (observed observation) with
  | error stop =>
    rw [hlocked] at hact hstep
    exact .inl ⟨congrArg (fun d => d.read .journal) hstep, fun a ha => by rw [hact] at ha; cases ha⟩
  | ok out =>
    rw [hlocked] at hact hstep
    rw [reconcileLocked, bind_ok] at hlocked
    obtain ⟨j, hload, hlocked⟩ := hlocked
    rw [bind_ok] at hlocked
    obtain ⟨rec, hrec, hlocked⟩ := hlocked
    cases rec with
    | nothing reason =>
      cases hlocked
      exact .inl ⟨congrArg (fun d => d.read .journal) hstep, fun a _ => ⟨observation, j, reason, rfl, hload, hrec⟩⟩
    | event e b =>
      simp only [bind_ok, pure_ok] at hlocked
      obtain ⟨s, happend, rfl⟩ := hlocked
      obtain ⟨hfresh, rfl⟩ := appendTo_ok happend
      dsimp only at hact hstep
      rcases settle_cases host draw.room d ⟨_, _, _⟩ with hwritten | ⟨hstop, hleft⟩
      · rw [hwritten] at hstep
        exact .inr ⟨j, j, e, hload, .reconciled hrec, hfresh, hstep, fun _ _ _ h => by cases h⟩
      · exact .inl (passes_of_stop hact hstep hstop hleft)

theorem step_cases (host : Host β) (d : Disk β) (c : Draw × Call) :
    Passes host d c ∨ ∃ j k e, Records host d c j k e := by
  cases hc : c.2 with
  | authorize action observation override callers => exact authorize_cases hc
  | finalize clearance success error => exact finalize_cases hc
  | reconcile observation => exact reconcile_cases hc

omit [DecidableEq β] in
theorem reconciliation_cases {latest observation : Value} {fault : Option Fault} {interrupted b : Bool}
    (h : reconciliation latest fault observation interrupted = .ok (.event e b)) :
    interrupted = true ∧ e = interruptedEvent (dictOf latest) ∨
      interrupted = false ∧ ∃ s rest, s ≠ "completed" ∧ rest.find "prior_event_id" = none ∧
        e = flagged ((dictOf latest).get "action") s false false ++ rest ∧
        ((Value.obj (dictOf latest)).Plain → observation.Plain → (Value.obj e).Plain) := by
  rw [reconciliation] at h
  split at h
  · cases h
  split at h
  · next hinterrupted =>
    cases h
    exact .inl ⟨hinterrupted, rfl⟩
  next hinterrupted =>
  right
  refine ⟨Bool.eq_false_of_not_eq_true hinterrupted, ?_⟩
  split at h
  · cases h
  split at h
  · split at h
    · cases h
      refine ⟨"aborted", _, by decide, rfl, rfl, fun hlatest hplain => ?_⟩
      exact plain_unreconciled hlatest (plain_dictOf hplain)
    · cases h
  · cases h
    exact ⟨"reconciled_quiescent", _, by decide, rfl, rfl,
      fun hlatest hplain => plain_reconciled hlatest (plain_dictOf hplain)⟩

omit [DecidableEq β] in
/-- What a call records stands behind a journal in order. -/
theorem Entry.ready (h : Entry host j c k e) (hkept : Kept host d) (hj : InHand host d j) :
    Ready host d k ∧ Enters (events k) e ∧ (Value.obj e).Plain := by
  cases h with
  | @decision draw action observation override callers k dec e hclose hdec hevent =>
    obtain ⟨hready, hrested⟩ := closed_ready hkept hj hclose
    have ho := plain_dictOf (plain_observed observation)
    cases dec with
    | quiet =>
      cases hevent
      exact ⟨hready, enters_rested hrested (by decide) rfl, plain_quiet ho⟩
    | audited =>
      cases hevent
      refine ⟨hready, ?_, plain_audited (plain_dictOf (plain_overriding override)) ho⟩
      rw [auditedEvent, List.append_assoc]
      apply enters_rested hrested _ rfl
      split <;> decide
    | refused reason =>
      rw [decisionEvent] at hevent
      split at hevent
      · cases hevent
        refine ⟨hready, ?_, plain_refused ho⟩
        rw [refusedEvent, List.append_assoc]
        exact enters_rested hrested (by decide) rfl
      · cases hevent
  | @final draw clearance success error prior hopen hfault =>
    have hpending := clearanceFault_pending hfault
    obtain ⟨latest, last, hl, hlatest⟩ := hj.opened hpending
    rw [hlatest] at hpending ⊢
    refine ⟨hj.ready hkept, ?_, plain_final hl.plainLatest success error⟩
    rw [finalEvent, List.append_assoc]
    cases success with
    | true => exact enters_closing hl hpending (.inl ⟨rfl, rfl⟩) rfl rfl
    | false => exact enters_closing hl hpending (.inr ⟨rfl, rfl⟩) rfl rfl
  | @reconciled draw observation e b hrec =>
    rcases reconciliation_cases hrec with ⟨hpending, rfl⟩ | ⟨hrested, s, rest, hs, hfirst, rfl, hplain⟩
    · obtain ⟨latest, last, hl, hlatest⟩ := hj.opened hpending
      rw [hlatest] at hpending
      rw [show dictOf (j.get "latest") = latest from hlatest]
      exact ⟨hj.ready hkept, enters_closing hl hpending (.inr ⟨rfl, rfl⟩) rfl rfl, plain_interrupted hl.plainLatest⟩
    · have hrest : Rested (events j) := hj.rested (by rw [hrested]; decide)
      have hlatest := plain_dictOf (Value.plain_get hj.plain "latest")
      exact ⟨hj.ready hkept, enters_rested hrest hs hfirst, hplain hlatest (plain_observed observation)⟩

theorem Records.kept (h : Records host d c j k e) (hkept : Kept host d) : Kept host (step host d c) := by
  obtain ⟨hready, henters, hplain⟩ := h.entry.ready hkept (hkept.load h.load)
  rw [h.left]
  exact (hready.append henters hplain h.fresh c.1.stamp).persist

theorem kept_step (h : Kept host d) (c : Draw × Call) : Kept host (step host d c) := by
  rcases step_cases host d c with hpass | ⟨j, k, e, hrec⟩
  · exact h.congr hpass.left
  · exact hrec.kept h

theorem Records.recorded (h : Records host d c j k e) :
    recorded host (step host d c) = events k ++ [.obj (completed k e c.1.eventId c.1.stamp)] := by
  rw [h.left, recorded_persist, events_appended]

theorem recorded_grows (h : Kept host d) (c : Draw × Call) : recorded host d <+: recorded host (step host d c) := by
  rcases step_cases host d c with hpass | ⟨j, k, e, hrec⟩
  · exact ⟨[], by rw [List.append_nil, recorded_congr hpass.left]⟩
  · obtain ⟨hready, -, -⟩ := hrec.entry.ready h (h.load hrec.load)
    rw [hrec.recorded]
    exact hready.grown.trans (List.prefix_append _ _)

theorem kept_run (h : Kept host d) (calls : List (Draw × Call)) : Kept host (run (step host) d calls) := by
  induction calls generalizing d with
  | nil => exact h
  | cons c calls ih => exact ih (kept_step h c)

theorem recorded_run (h : Kept host d) (calls : List (Draw × Call)) :
    recorded host d <+: recorded host (run (step host) d calls) := by
  induction calls generalizing d with
  | nil => exact List.prefix_rfl
  | cons c calls ih => exact (recorded_grows h c).trans (ih (kept_step h c))

theorem kept_found {f : Folder File β} {id : String} (h : loadJournal host (found f) id = .ok j) :
    Kept host (found f) := by
  refine ⟨fun v hv => found_plain hv, ?_⟩
  rcases loadJournal_ok.mp h with hloaded | ⟨habsent, -⟩
  · rw [Deployment.recorded, hloaded.read]
    exact chronicle_of_sound hloaded.valid.sound.sound
  · rw [recorded_absent habsent]
    intro n ev hev
    simp at hev

/-- A finalization of the clearance for the event `prior` returned. -/
def Finalized (host : Host β) (d : Disk β) (c : Draw × Call) (prior : Dict) (success : Bool) : Prop :=
  ∃ clearance error a, c.2 = .finalize clearance success error ∧ clearanceEvent clearance = .ok prior ∧
    (act host d c).1 = .ok a

/-- The call adds `ev` behind `last`, the event its clearance is for. -/
structure Settles (host : Host β) (d : Disk β) (c : Draw × Call) (prior : Dict) (success : Bool) (es : List Value)
    (last ev : Value) : Prop where
  before : recorded host d = es ++ [last]
  after : recorded host (step host d c) = es ++ [last, ev]
  pending : (field last "pending").isTrue = true
  own : ∀ name ∈ ["event_id", "status", "action", "inventory_digest"], prior.get name = field last name
  closes : Closes last ev
  status : field ev "status" = .str (if success then "completed" else "aborted")

omit [DecidableEq β] in
/-- A clearance that is not refused is that of the last event. -/
theorem clearance_own {prior latest last : Dict} (hformed : Formed host j) (hl : Last host j latest last)
    (h : clearanceFault prior latest = none) :
    ∀ name ∈ ["event_id", "status", "action", "inventory_digest"], prior.get name = last.get name := by
  have hpending := clearanceFault_pending h
  rw [clearanceFault] at h
  simp only [firstOf_cons_none, refuse_none, Bool.not_eq_false', Bool.or_eq_false_iff] at h
  obtain ⟨hid, ⟨hstatus, -⟩, ⟨hstatus', -⟩, haction, hdigest, -⟩ := h
  obtain ⟨-, action, digest, hact, hact', -, hdig, hdig', -⟩ := hl.pending hpending
  have hget : (events j)[(events j).length - 1]? = some (.obj last) := List.getLast?_eq_getElem?.symm.trans hl.atEnd
  have hchecked := eventFault_none.mp (eventsFault_iff.mp hformed.sound _ _ hget)
  obtain ⟨eventId, heventId, -⟩ := isHexText_iff.mp hchecked.identity
  obtain ⟨status, -, hs⟩ := isOneOf_iff.mp hstatus
  intro name hname
  simp only [List.mem_cons, List.not_mem_nil, or_false] at hname
  rcases hname with rfl | rfl | rfl | rfl
  · have hlast : last.get "event_id" = .str eventId := heventId
    rw [hl.text.mpr hlast] at hid
    rw [hlast]
    exact Value.text_pyEq.mp hid
  · rw [hs] at hstatus'
    rw [hl.text.mp hs]
    exact Value.pyEq_text.mp hstatus'
  · rw [hact'] at haction
    rw [hact]
    exact Value.pyEq_text.mp haction
  · rw [hdig'] at hdigest
    rw [hdig]
    exact Value.pyEq_text.mp hdigest

/-- A finalization that returned closed the last event, and its clearance was for it. -/
theorem finalized_settles {success : Bool} (hkept : Kept host d) (h : Finalized host d c prior success) :
    ∃ es last ev, Settles host d c prior success es last ev := by
  obtain ⟨clearance, error, a, hc, hprior, ha⟩ := h
  rcases step_cases host d c with hpass | ⟨j, k, e, hrec⟩
  · obtain ⟨_, _, _, hc', -⟩ := hpass.returned a ha
    rw [hc] at hc'
    cases hc'
  · have hj := hkept.load hrec.load
    have hentry := hrec.entry
    obtain ⟨draw, call⟩ := c
    subst hc
    cases hentry with
    | @final _ _ _ _ prior' hopen hfault =>
      have hsame : prior = prior' := Except.ok.inj (hprior.symm.trans (openClearance_event hopen))
      obtain ⟨latest, last, hl, hlatest⟩ := hj.opened (clearanceFault_pending hfault)
      rw [hlatest] at hfault
      have hfollows := (hrec.entry.ready hkept hj).2.1.follows hrec.fresh draw.stamp
      have hpending : (field (.obj last) "pending").isTrue = true :=
        isTrue_iff.mpr (hl.bool.mp (isTrue_iff.mp (clearanceFault_pending hfault)))
      have hends : events j = (events j).dropLast ++ [.obj last] :=
        (List.dropLast_append_getLast? _ hl.atEnd).symm
      refine ⟨(events j).dropLast, .obj last, .obj (completed j (finalEvent (latestOf j) success error) draw.eventId
        draw.stamp), ?_, ?_, hpending, ?_, (hfollows.closing _ hl.atEnd hpending).1, ?_⟩
      · rw [← hj.same]
        exact hends
      · rw [hrec.recorded]
        exact (congrArg (fun es => es ++ _) hends).trans (List.append_assoc _ _ _)
      · rw [hsame]
        exact clearance_own hj.formed hl hfault
      · have hfirst : (finalEvent (latestOf j) success error).find "prior_event_id" = none :=
          (hrec.entry.ready hkept hj).2.1.first
        rw [field_obj, Dict.get, get_completed (by decide) (by decide) (by decide) hfirst]
        cases success <;> rfl

omit [DecidableEq β] in
/-- Only a finalization records a completion. -/
theorem Entry.completes (h : Entry host j c k e) (hs : e.get "status" = .str "completed") :
    ∃ clearance error prior, c.2 = .finalize clearance true error ∧ clearanceEvent clearance = .ok prior := by
  cases h with
  | @decision draw action observation override callers k dec e hclose hdec hevent =>
    exfalso
    cases dec with
    | quiet =>
      cases hevent
      rw [quietEvent, flagged_status] at hs
      exact absurd (Value.str.inj hs) (by decide)
    | audited =>
      cases hevent
      rw [auditedEvent, List.append_assoc, flagged_status] at hs
      split at hs <;> exact absurd (Value.str.inj hs) (by decide)
    | refused reason =>
      rw [decisionEvent] at hevent
      split at hevent
      · cases hevent
        rw [refusedEvent, List.append_assoc, flagged_status] at hs
        exact absurd (Value.str.inj hs) (by decide)
      · cases hevent
  | @final draw clearance success error prior hopen hfault =>
    cases success with
    | true => exact ⟨clearance, error, prior, rfl, openClearance_event hopen⟩
    | false =>
      rw [finalEvent, List.append_assoc, flagged_status] at hs
      exact absurd (Value.str.inj hs) (by decide)
  | @reconciled draw observation e b hrec =>
    exfalso
    rcases reconciliation_cases hrec with ⟨-, rfl⟩ | ⟨-, s, rest, hne, -, rfl, -⟩
    · rw [interruptedEvent, flagged_status] at hs
      exact absurd (Value.str.inj hs) (by decide)
    · rw [flagged_status] at hs
      exact hne (Value.str.inj hs)

theorem recorded_cases (hkept : Kept host d) (c : Draw × Call) :
    recorded host (step host d c) = recorded host d ∨
      ∃ j k e closed, Records host d c j k e ∧ events k = recorded host d ++ closed ∧
        (∀ ev ∈ closed, field ev "status" = .str "aborted") := by
  rcases step_cases host d c with hpass | ⟨j, k, e, hrec⟩
  · exact .inl (recorded_congr hpass.left)
  right
  have hj := hkept.load hrec.load
  have hsame : ∃ closed, events k = recorded host d ++ closed ∧ ∀ ev ∈ closed, field ev "status" = .str "aborted" := by
    have hself : ∃ closed, events j = recorded host d ++ closed ∧ ∀ ev ∈ closed, field ev "status" = .str "aborted" :=
      ⟨[], by rw [List.append_nil]; exact hj.same, fun ev hev => absurd hev List.not_mem_nil⟩
    have hentry := hrec.entry
    cases hentry with
    | @decision draw action observation override callers k dec e hclose hdec hevent =>
      rw [closeInterrupted] at hclose
      split at hclose
      · obtain ⟨r, happend, rfl⟩ := map_ok.mp hclose
        obtain ⟨hfresh, rfl⟩ := appendTo_ok happend
        refine ⟨_, (events_appended _ _).trans (congrArg (fun es => es ++ _) hj.same), ?_⟩
        intro ev hev
        rw [List.mem_singleton.mp hev, field_obj, Dict.get, get_completed (by decide) (by decide) (by decide) rfl]
        rfl
      · cases hclose
        exact hself
    | final hopen hfault => exact hself
    | reconciled hr => exact hself
  obtain ⟨closed, hclosed, haborted⟩ := hsame
  exact ⟨j, k, e, closed, hrec, hclosed, haborted⟩

/-- What any call does to a journal with what is recorded in it. -/
structure Orderly (host : Host β) (d : Disk β) (c : Draw × Call) : Prop where
  kept : recorded host d <+: recorded host (step host d c)
  settles : ∀ prior success, Finalized host d c prior success → ∃ es last ev, Settles host d c prior success es last ev
  completes : ∀ added, recorded host (step host d c) = recorded host d ++ added →
    (∃ ev ∈ added, field ev "status" = .str "completed") → ∃ prior, Finalized host d c prior true
  superseded : recorded host (step host d c) ≠ recorded host d → ∀ prior, ∀ w ∈ recorded host d,
    field w "event_id" = prior.get "event_id" → ∀ calls c' success,
      ¬Finalized host (run (step host) (step host d c) calls) c' prior success
  returned : ∀ a last, (act host d c).1 = .ok a → (recorded host d).getLast? = some last →
    (field last "pending").isTrue = true → recorded host (step host d c) ≠ recorded host d

theorem Kept.completes (h : Kept host d) {added : List Value}
    (hadded : recorded host (step host d c) = recorded host d ++ added)
    (hev : ∃ ev ∈ added, field ev "status" = .str "completed") : ∃ prior, Finalized host d c prior true := by
  obtain ⟨ev, hev, hs⟩ := hev
  rcases recorded_cases h c with hsame | ⟨j, k, e, closed, hrec, hclosed, haborted⟩
  · rw [hsame] at hadded
    rw [List.self_eq_append_right.mp hadded] at hev
    exact absurd hev List.not_mem_nil
  · obtain ⟨-, henters, -⟩ := hrec.entry.ready h (h.load hrec.load)
    rw [hrec.recorded, hclosed, List.append_assoc] at hadded
    rw [← List.append_cancel_left hadded] at hev
    rcases List.mem_append.mp hev with hev | hev
    · rw [haborted ev hev] at hs
      exact absurd (Value.str.inj hs) (by decide)
    · rw [List.mem_singleton.mp hev, field_obj, Dict.get,
        get_completed (by decide) (by decide) (by decide) henters.first]
        at hs
      obtain ⟨clearance, error, prior, hc, hprior⟩ := hrec.entry.completes hs
      exact ⟨prior, clearance, error, _, hc, hprior, hrec.finalized _ _ _ hc⟩

theorem Kept.superseded (h : Kept host d) (hmore : recorded host (step host d c) ≠ recorded host d) {w : Value}
    (hw : w ∈ recorded host d) (hid : field w "event_id" = prior.get "event_id") (calls : List (Draw × Call))
    (c' : Draw × Call) (success : Bool) : ¬Finalized host (run (step host) (step host d c) calls) c' prior success := by
  intro hfinal
  have hafter := kept_run (kept_step h c) calls
  obtain ⟨es, last, ev, hsettles⟩ := finalized_settles hafter hfinal
  have hgrown := recorded_grows h c
  have hrun := recorded_run (kept_step h c) calls
  rw [hsettles.before] at hrun
  -- what was recorded before the call is a proper part of what stands there now
  have hlt : (recorded host d).length < (recorded host (step host d c)).length := by
    apply Nat.lt_of_le_of_ne hgrown.length_le
    intro hlen
    exact hmore (hgrown.eq_of_length hlen).symm
  have hpart : recorded host d <+: es := by
    rcases List.prefix_concat_iff.mp (hgrown.trans hrun) with heq | hpart
    · have hle := hrun.length_le
      rw [← heq] at hle
      omega
    · exact hpart
  have hchronicle := hafter.chronicle
  rw [hsettles.before] at hchronicle
  apply hchronicle.last_only (hpart.subset hw)
  rw [hid]
  exact hsettles.own "event_id" (by decide)

/-- While an authorization is pending, a call that returns records. -/
theorem Kept.returned (h : Kept host d) {a : Answer} {last : Value} (ha : (act host d c).1 = .ok a)
    (hlast : (recorded host d).getLast? = some last) (hpending : (field last "pending").isTrue = true) :
    recorded host (step host d c) ≠ recorded host d := by
  rcases step_cases host d c with hpass | ⟨j, k, e, hrec⟩
  · exfalso
    obtain ⟨observation, j, reason, -, hload, hrec⟩ := hpass.returned a ha
    have hj := h.load hload
    rw [← hj.same] at hlast
    obtain ⟨latest, w, rfl, hl⟩ := hj.formed.last hj.plain hlast
    have htrue : (latest.get "pending").isTrue = true := isTrue_iff.mpr (hl.bool.mpr (isTrue_iff.mp hpending))
    have hlegacy : legacyJournalGenesis (.obj latest) = false := by
      rw [Bool.eq_false_iff]
      intro hgenesis
      have hnone := (legacy_fields hgenesis).2
      rw [Dict.has, Option.isSome_eq_false_iff, Option.isNone_iff_eq_none] at hnone
      rw [Dict.get, hnone] at htrue
      cases htrue
    rw [latestOf_eq hl, hl.atLatest, reconciliation, hlegacy, Bool.and_false, htrue] at hrec
    cases hrec
  · obtain ⟨hready, -, -⟩ := hrec.entry.ready h (h.load hrec.load)
    rw [hrec.recorded]
    intro hsame
    have hle := hready.grown.length_le
    rw [← hsame, List.length_append, List.length_singleton] at hle
    omega

theorem Kept.orderly (h : Kept host d) (c : Draw × Call) : Orderly host d c where
  kept := recorded_grows h c
  settles := fun _ _ hfinal => finalized_settles h hfinal
  completes := fun _ hadded hev => h.completes hadded hev
  superseded := fun hmore _ _ hw hid => h.superseded hmore hw hid
  returned := fun _ _ ha hlast hpending => h.returned ha hlast hpending

/-- A host whose bytes are texts, that knows one time. -/
def trialHost : Host String where
  path := "/srv/deployment-quiescence/journal.json"
  name := "journal.json"
  utf8 := id
  sha256 := fun _ => ""
  size := fun text => text.utf8ByteSize
  b64encode := id
  b64decode := some
  encode := Value.dumps
  decode := fun _ => .error "Expecting value: line 1 column 1 (char 0)"
  unique := fun _ _ h => nomatch h
  fromisoformat := fun text => List.lookup text [("2026-01-01T00:00:00+00:00", ⟨some 0⟩)]

def emptyFolder : Folder File String := ⟨[], [], List.nodup_nil, fun _ he => absurd he List.not_mem_nil⟩

def firstDraw : Draw :=
  ⟨"00000000000000000000000000000001", "00000000000000000000000000000002", "00000000000000000000000000000003",
    "2026-01-01T00:00:00+00:00", 0, 994⟩

/-- A call of `authorize` with an observation and nothing else. -/
def unaudited (o : Document) : Draw × Call :=
  (firstDraw, .authorize "restart" (.ok o) (.ok ⟨.null, trivial⟩) ⟨false, false, false, false⟩)

def quietDigest : String := "258880a72d2911296e57a849015c1729251ed6f80302bdcf2158c0a39bd357d7"

/-- An observation of nothing, with its digest. -/
def quietObservation : Document :=
  ⟨.obj [("schema_version", .int 1), ("observed_at", .str "2026-01-01T00:00:00+00:00"), ("projects", .arr []),
    ("runs", .arr []), ("sidecar_owners", .arr []), ("external_owners", .arr []),
    ("registered_external_owners", .arr []),
    ("godot_render_owners", .arr []), ("blockers", .obj []), ("errors", .arr []), ("quiescent", .bool true),
    ("digest", .str quietDigest)], by simp [Value.Plain, Value.PlainFields, Value.PlainItems]⟩

def secondDraw : Draw := { firstDraw with eventId := "00000000000000000000000000000004" }

def authorizedQuiet : Dict :=
  completed (emptyJournal firstDraw.journalId) (quietEvent "restart" (dictOf quietObservation.value))
    firstDraw.eventId firstDraw.stamp

/-- The hashes of the texts that are hashed in the runs below, by their length and one
of their bytes: the observation, and of the journal with one to four events its last
link, itself and its checkpoint. -/
def quietHashes : List ((Nat × Option UInt8) × String) :=
  [((227, some 34), quietDigest), ((404, some 111), "96604e179a31e6484558bda6f9c58b4274d581fef3d6a19a7d06c51161f5f948"),
    ((760, some 52), "ff0c2211c0b28fa9e647edea80881e7a819c56f88b637e8c69d23fce6afd51c0"),
    ((320, some 49), "d8cca084aa5d9857e3f5aa89bd504dadc6d57688879e42ad22a242a9e1e1fd54"),
    ((471, some 111), "c723d1776581a4f8d14de6e3ce4706de4491d83381f1ae7261c752c1e9a365b3"),
    ((1138, some 52), "8a524c8dc1ad00df7f56450c86139c39bd4397be2e456ee471543c9c421734c7"),
    ((320, some 50), "0ab79d8e7f331b98b35427323979c7da8b17890e72c156e2774fa0805461ba8b"),
    ((572, some 111), "096695f638c66450ffa02401ad74f245e902131f3c809afab7ac6a76aebe379a"),
    ((1713, some 52), "4c982015871f5223b2ea747df79742665d1c70d62b95dda71b8b6d783a4a5033"),
    ((320, some 51), "e87422a88ad65fdb5525894c62ffb4c887887de3b37f2ebf18cdce79bf478c4d"),
    ((483, some 111), "6eac0c294fa675946f5d9db79acc2f4f8637ed99c0811830eb9aad5e9aa5a362"),
    ((2009, some 52), "dc4d0ba041e7b1d75dd047d4b7e1e3f7f363a86459c482f9036594735249f88c"),
    ((320, some 52), "0972ac5dee6cf29306d3b585c5b18d2779ce09a011622794a175f5de372e0000")]

def quietHost : Host String :=
  { trialHost with sha256 := fun text => (quietHashes.lookup (text.utf8ByteSize, text.toUTF8.data[15]?)).getD "" }

def quietClearance : Value := .obj [("allowed", .bool true), ("replayed", .bool false), ("event", .obj authorizedQuiet)]

/-- An authorization, and one of an action that is not known. -/
def quietAuthorizations : List (Draw × Call) :=
  [unaudited quietObservation,
    (secondDraw, .authorize "launch" (.ok quietObservation) (.ok ⟨.null, trivial⟩) ⟨false, false, false, false⟩)]

def quietFinalization : Draw × Call := (secondDraw, .finalize quietClearance true none)

theorem load_empty (host : Host String) : loadJournal host (found emptyFolder) firstDraw.journalId =
    .ok (emptyJournal firstDraw.journalId) := rfl

def quietJournal : Dict := appended (emptyJournal firstDraw.journalId) authorizedQuiet

theorem drawn_at (hload : loadJournal host d firstDraw.journalId = .ok j) {id : String}
    (hid : State.isHexOf 32 id = true ∧ firstDraw.interruptedId ≠ id)
    (hunused : Unused j firstDraw.interruptedId ∧ Unused j id) : Drawn host d { firstDraw with eventId := id } where
  journal := show State.isHexOf 32 firstDraw.journalId = true from rfl
  interrupted := show State.isHexOf 32 firstDraw.interruptedId = true from rfl
  event := hid.1
  distinct := hid.2
  unused := by
    intro j' hj'
    rw [show loadJournal host d firstDraw.journalId = .ok j' from hj'] at hload
    cases hload
    exact hunused

theorem quiet_valid : snapshotFault quietHost (.ok quietObservation) = none := by decide +kernel

theorem quiet_judged : snapshotFault quietHost (.ok quietObservation) ≠ some .unhashable := by
  rw [quiet_valid]
  decide

theorem quiet_recordable : Recordable (observed (.ok quietObservation)) := ⟨rfl, .inr rfl⟩

theorem quiet_decided : decided quietHost "restart" (.ok quietObservation) (.ok ⟨.null, trivial⟩)
    ⟨false, false, false, false⟩ firstDraw.now = .ok .quiet := by
  rw [decided, quiet_valid]
  rfl

theorem quiet_recording : Recording quietHost (found emptyFolder) firstDraw "restart" (.ok quietObservation)
    (.ok ⟨.null, trivial⟩) ⟨false, false, false, false⟩ where
  judged := ⟨quiet_judged, quiet_recordable⟩
  journal := by
    intro j hj
    rw [load_empty quietHost] at hj
    cases hj
    decide
  shallow := ⟨by decide, by decide, by decide⟩
  audit := by
    rw [quiet_decided]
    intro h
    cases h

theorem quiet_left : Left quietHost firstDraw.room (emptyJournal firstDraw.journalId)
    ⟨quietJournal, authorizedQuiet, .ok ⟨true, some authorizedQuiet, none⟩⟩ := by
  have hgood : Good quietHost (emptyJournal firstDraw.journalId) :=
    ⟨(emptyJournal_valid rfl).sheet, plain_emptyJournal _⟩
  have hdrawn : Drawn quietHost (found emptyFolder) firstDraw :=
    drawn_at (load_empty quietHost) ⟨rfl, by decide⟩ ⟨rfl, rfl⟩
  obtain ⟨r, hr, hleft, -⟩ := authorizeLocked_left hgood (load_empty quietHost) hdrawn (by decide) quiet_recording
  rw [authorizeLocked_ok (load_empty quietHost) rfl quiet_decided rfl rfl] at hr
  cases hr
  exact hleft

theorem step_quiet : step quietHost (found emptyFolder) (unaudited quietObservation) =
    written quietHost (found emptyFolder) quietJournal := by
  have hlocked := authorizeLocked_ok (load_empty quietHost) rfl quiet_decided rfl rfl
  have hfirst : authorize quietHost (found emptyFolder) firstDraw "restart" (.ok quietObservation)
      (.ok ⟨.null, trivial⟩)
      ⟨false, false, false, false⟩ = (.ok ⟨true, some authorizedQuiet, none⟩,
        written quietHost (found emptyFolder) quietJournal) := by
    rw [authorize_known (by decide) (by decide), hlocked]
    exact settle_left quiet_left
  exact congrArg Prod.snd hfirst

theorem run_quiet : run (step quietHost) (found emptyFolder) quietAuthorizations =
    written quietHost (found emptyFolder) quietJournal := by
  -- the second call leaves nothing
  have hstep : ∀ d : Disk String, step quietHost d quietAuthorizations[1] = d := fun _ => rfl
  rw [quietAuthorizations, run_cons, run_cons, run_nil]
  exact (hstep _).trans step_quiet

theorem quiet_loaded : Loaded quietHost (written quietHost (found emptyFolder) quietJournal)
    (chained quietHost quietJournal) := quiet_left.loaded (load_empty quietHost)

theorem load_quiet : loadJournal quietHost (written quietHost (found emptyFolder) quietJournal) secondDraw.journalId =
    .ok (chained quietHost quietJournal) := loadJournal_ok.mpr (.inl quiet_loaded)

theorem quiet_fault : clearanceFault authorizedQuiet (latestOf (chained quietHost quietJournal)) = none := by
  rw [latestOf, get_of_find (find_chained (by decide) quietHost _), quietJournal, latest_appended]
  rfl

/-- The completion of the authorization. -/
def completedQuiet : Dict :=
  completed (chained quietHost quietJournal) (finalEvent (latestOf (chained quietHost quietJournal)) true none)
    secondDraw.eventId secondDraw.stamp

theorem unused_quiet {id : String} (h : firstDraw.eventId ≠ id) : Unused (chained quietHost quietJournal) id :=
  unused_chained.mpr (unused_appended rfl (completed_id rfl _ _) h)

theorem writable_quiet : Writable secondDraw.room (chained quietHost quietJournal) :=
  quiet_left.writable.chained (by decide)

theorem drawn_quiet : Drawn quietHost (written quietHost (found emptyFolder) quietJournal) secondDraw :=
  drawn_at load_quiet ⟨rfl, by decide⟩ ⟨unused_quiet (by decide), unused_quiet (by decide)⟩

theorem final_left : Left quietHost secondDraw.room (chained quietHost quietJournal)
    ⟨appended (chained quietHost quietJournal) completedQuiet, completedQuiet,
      .ok ⟨true, some completedQuiet, none⟩⟩ := by
  have hgood : Good quietHost (chained quietHost quietJournal) :=
    ⟨quiet_loaded.valid.sheet, plain_chained quiet_left.good.plain⟩
  have hlocked := finalizeLocked_ok load_quiet quiet_fault (unused_quiet (by decide)) true none
  rcases finalizeLocked_left hgood load_quiet drawn_quiet (fun _ => writable_quiet) with ⟨m, hm⟩ | ⟨r, a, hr, hleft, -⟩
  · rw [hlocked] at hm
    cases hm
  · rw [hlocked] at hr
    cases hr
    exact hleft

theorem finalize_quiet : act quietHost (written quietHost (found emptyFolder) quietJournal) quietFinalization =
    (.ok ⟨true, some completedQuiet, none⟩, written quietHost (written quietHost (found emptyFolder) quietJournal)
      (appended (chained quietHost quietJournal) completedQuiet)) := by
  have hopen : openClearance quietClearance = .ok authorizedQuiet := rfl
  have hlocked := finalizeLocked_ok load_quiet quiet_fault (unused_quiet (by decide)) true none
  rw [quietFinalization, act]
  dsimp only
  rw [finalize_opened hopen, hlocked]
  exact settle_left final_left

theorem quiet_finalized : Finalized quietHost (run (step quietHost) (found emptyFolder) quietAuthorizations)
    quietFinalization authorizedQuiet true := by
  refine ⟨quietClearance, none, ⟨true, some completedQuiet, none⟩, rfl, rfl, ?_⟩
  rw [run_quiet, finalize_quiet]

end AItelier.Deployment
