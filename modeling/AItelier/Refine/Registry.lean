import AItelier.Refine.Parts

namespace AItelier.State

open AItelier.Lib

variable {db db' : DB} {host : Host} {caller : Caller} {a : Attempt} {i : String} {s : Standing} {o : ExternalOwner}
  {obs : List Observation} {f : Attempt → Attempt}

/-- A quiescent report on the abandoned attempt is on record. -/
def settledLate (obs : List Observation) (i : String) : Bool :=
  obs.any (fun o => decide (o.attemptId = i ∧ o.lateAfterAbandon = true ∧ o.quiescent = true))

/-- The owner status that an attempt's own status determines. -/
def ownerStatusIn (obs : List Observation) (i : String) : AttemptStatus → OwnerStatus
  | .reserved | .launching | .running => .active
  | .paused => .paused
  | .unknown => .unknown
  | .candidate | .failed | .superseded => .settled
  | .abandoned => if settledLate obs i then .settled else .abandoned

/-- The owner row says of the attempt what the attempt says itself. -/
structure Agrees (obs : List Observation) (s : Standing) (o : ExternalOwner) : Prop where
  project : o.projectId = s.projectId
  node : o.nodeKey = s.nodeKey
  harness : s.harness = some o.harness
  externalId : s.externalId = some o.externalId
  status : o.status = ownerStatusIn obs s.attemptId s.status
  settled : o.status = .settled → o.settledAt.isSome

def DB.standings (db : DB) : List Standing := db.attempts.map Attempt.standing

/-- What a row of an external attempt is like, whatever its owner row. -/
structure Standing.External (s : Standing) : Prop where
  admitted : s.status ≠ .reserved ∧ s.status ≠ .launching
  unbound : s.runId = none
  identity : s.harness.isSome ∧ s.externalId.isSome
  kind : s.status = .abandoned → s.abandonKind.isSome

/-- The registry of a database as its schema and its code of any age keep it:
the owner rows there are agree with their attempts. -/
structure Older (db : DB) : Prop where
  distinct : (db.attempts.map Attempt.attemptId).Nodup
  keyed : (db.owners.map ExternalOwner.attemptId).Nodup
  external : ∀ s ∈ db.standings, s.executionKind = .external → s.External
  owners : ∀ o ∈ db.owners, ∃ s ∈ db.standings, s.attemptId = o.attemptId ∧ s.executionKind = .external ∧
    Agrees db.observations s o
  late : ∀ o ∈ db.observations, o.lateAfterAbandon = true → ∃ s ∈ db.standings, s.attemptId = o.attemptId ∧
    s.executionKind = .external ∧ s.status = .abandoned
  unsettled : ∀ s ∈ db.standings, s.executionKind = .external → s.attemptId ∉ db.owners.map ExternalOwner.attemptId →
    settledLate db.observations s.attemptId = false

/-- Every external attempt has its owner row. -/
structure Registered (db : DB) : Prop extends Older db where
  registered : ∀ s ∈ db.standings, s.executionKind = .external →
    s.attemptId ∈ db.owners.map ExternalOwner.attemptId

section Rows

theorem Older.standing_unique (h : Older db) {s t : Standing} (hs : s ∈ db.standings) (ht : t ∈ db.standings)
    (he : s.attemptId = t.attemptId) : s = t := by
  obtain ⟨a, ha, rfl⟩ := List.mem_map.mp hs
  obtain ⟨b, hb, rfl⟩ := List.mem_map.mp ht
  rw [List.inj_on_of_nodup_map h.distinct ha hb he]

theorem standing_mem (h : db.attempt? i = some a) : a.standing ∈ db.standings :=
  List.mem_map.mpr ⟨a, List.mem_of_find?_eq_some h, rfl⟩

/-- The registry reads the external attempts, the owner rows and the reports. -/
theorem Registered.of_external (h : Registered db) (hd : (db'.attempts.map Attempt.attemptId).Nodup)
    (hext : ∀ s : Standing, s.executionKind = .external → (s ∈ db'.standings ↔ s ∈ db.standings))
    (ho : db'.owners = db.owners) (hobs : db'.observations = db.observations) : Registered db' := by
  refine ⟨⟨hd, ?_, ?_, ?_, ?_, ?_⟩, ?_⟩
  · rw [ho]
    exact h.keyed
  · intro s hs hk
    exact h.external s ((hext s hk).mp hs) hk
  · intro o hm
    rw [ho] at hm
    obtain ⟨s, hs, hi, hk, hag⟩ := h.owners o hm
    exact ⟨s, (hext s hk).mpr hs, hi, hk, hobs ▸ hag⟩
  · intro o hm hl
    rw [hobs] at hm
    obtain ⟨s, hs, hi, hk, hst⟩ := h.late o hm hl
    exact ⟨s, (hext s hk).mpr hs, hi, hk, hst⟩
  · intro s hs hk hno
    rw [ho] at hno
    rw [hobs]
    exact h.unsettled s ((hext s hk).mp hs) hk hno
  · intro s hs hk
    rw [ho]
    exact h.registered s ((hext s hk).mp hs) hk

theorem ids_of_standings (h : db'.standings = db.standings) :
    db'.attempts.map Attempt.attemptId = db.attempts.map Attempt.attemptId := by
  have hmap := congrArg (List.map Standing.attemptId) h
  simpa [DB.standings, Function.comp_def, Attempt.standing] using hmap

theorem Registered.of_eq (h : Registered db) (hs : db'.standings = db.standings) (ho : db'.owners = db.owners)
    (hobs : db'.observations = db.observations) : Registered db' := by
  refine h.of_external ?_ (fun s _ => by rw [hs]) ho hobs
  rw [ids_of_standings hs]
  exact h.distinct

theorem Leaves.registered {ps : List Part} (h : Leaves ps db db') (hs : .standings ∉ ps) (ho : .owners ∉ ps)
    (hobs : .observations ∉ ps) (hr : Registered db) : Registered db' :=
  hr.of_eq (h.standings hs) (h.owners ho) (h.observations hobs)

theorem mem_setAttempt_standings : s ∈ (db.setAttempt i f).standings ↔
    ∃ x ∈ db.attempts, s = (if x.attemptId = i then f x else x).standing := by
  simp only [DB.standings, DB.setAttempt, List.mem_map, mem_modifyWhere, decide_eq_true_eq]
  constructor
  · rintro ⟨y, ⟨x, hx, rfl⟩, rfl⟩
    exact ⟨x, hx, rfl⟩
  · rintro ⟨x, hx, rfl⟩
    exact ⟨_, ⟨x, hx, rfl⟩, rfl⟩

/-- What an attempt was admitted as, and by which request. -/
structure Entry where
  attemptId : String
  node : NodeId
  executionKind : ExecutionKind
  requestKey : String
  requestHash : String
  deriving DecidableEq, Repr

def Attempt.entry (a : Attempt) : Entry := ⟨a.attemptId, a.node, a.executionKind, a.requestKey, a.requestHash⟩

/-- The entries of the attempts, which no transaction changes. -/
def DB.entries (db : DB) : List Entry := db.attempts.map Attempt.entry

theorem entries_of_standings (h : db'.standings = db.standings) : db'.entries = db.entries := by
  have hmap := congrArg (List.map (fun s : Standing =>
    (⟨s.attemptId, (s.projectId, s.nodeKey), s.executionKind, s.requestKey, s.requestHash⟩ : Entry))) h
  rw [DB.standings, DB.standings, List.map_map, List.map_map] at hmap
  exact hmap

theorem setAttempt_entries (hf : ∀ x, (f x).entry = x.entry) : (db.setAttempt i f).entries = db.entries :=
  map_modifyWhere (fun x _ => hf x) db.attempts

end Rows

section Moves

/-- The transaction rewrites the row of one attempt. -/
structure Turns (i : String) (f : Attempt → Attempt) (a : Attempt) (db db' : DB) : Prop where
  found : db.attempt? i = some a
  keeps : ∀ x, (f x).entry = x.entry
  standings : db'.standings = (db.setAttempt i f).standings

theorem Turns.ids (h : Turns i f a db db') : db'.attempts.map Attempt.attemptId = db.attempts.map Attempt.attemptId :=
  (ids_of_standings h.standings).trans (map_modifyWhere (g := Attempt.attemptId)
    (fun x _ => congrArg Entry.attemptId (h.keeps x)) db.attempts)

theorem Turns.entries (h : Turns i f a db db') : db'.entries = db.entries :=
  (entries_of_standings h.standings).trans (setAttempt_entries h.keeps)

theorem Turns.mem (h : Turns i f a db db') (hr : Older db) : s ∈ db'.standings ↔
    (s ∈ db.standings ∧ s.attemptId ≠ i) ∨ s = (f a).standing := by
  have hid : a.attemptId = i := lookup_key h.found
  rw [h.standings, mem_setAttempt_standings]
  constructor
  · rintro ⟨x, hx, rfl⟩
    by_cases hxi : x.attemptId = i
    · have hxa : x = a := List.inj_on_of_nodup_map hr.distinct hx (List.mem_of_find?_eq_some h.found)
        (hxi.trans hid.symm)
      exact .inr (by rw [if_pos hxi, hxa])
    · rw [if_neg hxi]
      exact .inl ⟨List.mem_map.mpr ⟨x, hx, rfl⟩, hxi⟩
  · rintro (⟨hs, hne⟩ | rfl)
    · obtain ⟨x, hx, rfl⟩ := List.mem_map.mp hs
      have hxi : x.attemptId ≠ i := hne
      exact ⟨x, hx, by rw [if_neg hxi]⟩
    · exact ⟨a, List.mem_of_find?_eq_some h.found, by rw [if_pos hid]⟩

/-- A turn of an attempt that is no external one, or that leaves it as it stands. -/
theorem Turns.registered (h : Turns i f a db db') (hr : Registered db) (hl : Leaves [.standings] db db')
    (hf : a.executionKind = .external → a.standing.External → (f a).standing = a.standing) : Registered db' := by
  have ha : a.standing ∈ db.standings := standing_mem h.found
  have hid : a.attemptId = i := lookup_key h.found
  have hsame : a.executionKind = .external → (f a).standing = a.standing :=
    fun hk => hf hk (hr.external _ ha hk)
  refine hr.of_external ?_ ?_ (hl.owners (by decide)) (hl.observations (by decide))
  · rw [h.ids]
    exact hr.distinct
  · intro s hk
    rw [h.mem hr.toOlder]
    constructor
    · rintro (⟨hs, _⟩ | rfl)
      · exact hs
      · have hka : a.executionKind = .external := (congrArg Entry.executionKind (h.keeps a)).symm.trans hk
        rw [hsame hka]
        exact ha
    · intro hs
      by_cases hi : s.attemptId = i
      · have hsa : s = a.standing := hr.standing_unique hs ha (hi.trans hid.symm)
        have hka : a.executionKind = .external := by rw [hsa] at hk; exact hk
        exact .inr (by rw [hsame hka, hsa])
      · exact .inl ⟨hs, hi⟩

theorem settledLate_append {new : List Observation} {j : String} (hj : ∀ o ∈ new, o.attemptId ≠ j) :
    settledLate (obs ++ new) j = settledLate obs j := by
  have hnone : new.any (fun o => decide (o.attemptId = j ∧ o.lateAfterAbandon = true ∧ o.quiescent = true)) =
      false := by
    rw [List.any_eq_false]
    intro o ho hc
    exact hj o ho (of_decide_eq_true hc).1
  rw [settledLate, List.any_append, hnone, Bool.or_false]
  rfl

theorem Agrees.append {new : List Observation} (h : Agrees obs s o) (hnew : ∀ o ∈ new, o.attemptId ≠ s.attemptId) :
    Agrees (obs ++ new) s o := by
  refine ⟨h.project, h.node, h.harness, h.externalId, ?_, h.settled⟩
  rw [h.status]
  unfold ownerStatusIn
  rw [settledLate_append hnew]

/-- A report or an abandon: the attempt, its owner row and the reports move together. -/
theorem Turns.moved (h : Turns i f a db db') (hr : Registered db) (hk : a.executionKind = .external)
    {g : ExternalOwner → ExternalOwner} {new : List Observation}
    (ho : db'.owners = modifyWhere (fun o => decide (o.attemptId = i)) g db.owners)
    (hg : ∀ o, (g o).attemptId = o.attemptId) (hobs : db'.observations = db.observations ++ new)
    (hnew : ∀ o ∈ new, o.attemptId = i ∧ (o.lateAfterAbandon = true → (f a).status = .abandoned))
    (hkeep : a.status = .abandoned → (f a).status = .abandoned) (hf : (f a).standing.External)
    (hagree : ∀ o ∈ db.owners, o.attemptId = i → Agrees db.observations a.standing o →
      Agrees db'.observations (f a).standing (g o)) : Registered db' := by
  have ha : a.standing ∈ db.standings := standing_mem h.found
  have hid : a.attemptId = i := lookup_key h.found
  have hfi : (f a).standing.attemptId = i := (congrArg Entry.attemptId (h.keeps a)).trans hid
  have hfk : (f a).standing.executionKind = .external := (congrArg Entry.executionKind (h.keeps a)).trans hk
  have hown : db'.owners.map ExternalOwner.attemptId = db.owners.map ExternalOwner.attemptId := by
    rw [ho]
    exact map_modifyWhere (fun o _ => hg o) db.owners
  have hmoved : (f a).standing ∈ db'.standings := (h.mem hr.toOlder).mpr (.inr rfl)
  -- an attempt beside the moved one stands as before
  have hrest : ∀ s ∈ db.standings, s.attemptId ≠ i → s ∈ db'.standings :=
    fun s hs hi => (h.mem hr.toOlder).mpr (.inl ⟨hs, hi⟩)
  have hreg : ∀ s ∈ db'.standings, s.executionKind = .external →
      s.attemptId ∈ db'.owners.map ExternalOwner.attemptId := by
    intro s hs hks
    rw [hown]
    rcases (h.mem hr.toOlder).mp hs with ⟨hs, _⟩ | rfl
    · exact hr.registered s hs hks
    · have := hr.registered _ ha hk
      rwa [hfi, ← hid]
  refine ⟨⟨?_, ?_, ?_, ?_, ?_, fun s hs hks hno => absurd (hreg s hs hks) hno⟩, hreg⟩
  · rw [h.ids]
    exact hr.distinct
  · rw [hown]
    exact hr.keyed
  · intro s hs hks
    rcases (h.mem hr.toOlder).mp hs with ⟨hs, _⟩ | rfl
    · exact hr.external s hs hks
    · exact hf
  · intro o' ho'
    rw [ho, mem_modifyWhere] at ho'
    obtain ⟨o, hm, rfl⟩ := ho'
    obtain ⟨s, hs, hsi, hks, hag⟩ := hr.owners o hm
    by_cases hoi : o.attemptId = i
    · have hsa : s = a.standing := hr.standing_unique hs ha (hsi.trans (hoi.trans hid.symm))
      rw [hsa] at hag
      simp only [hoi, decide_true, if_true]
      exact ⟨_, hmoved, hfi.trans (((hg o).trans hoi).symm), hfk, hagree o hm hoi hag⟩
    · simp only [hoi, decide_false, Bool.false_eq_true, if_false]
      have hne : s.attemptId ≠ i := fun he => hoi (hsi.symm.trans he)
      refine ⟨s, hrest s hs hne, hsi, hks, ?_⟩
      rw [hobs]
      exact hag.append (fun n hn he => hne (he.symm.trans (hnew n hn).1))
  · intro n hn hl
    rw [hobs] at hn
    rcases List.mem_append.mp hn with hn | hn
    · obtain ⟨s, hs, hsi, hks, hst⟩ := hr.late n hn hl
      by_cases hi : s.attemptId = i
      · have hsa : s = a.standing := hr.standing_unique hs ha (hi.trans hid.symm)
        rw [hsa] at hst
        exact ⟨_, hmoved, hfi.trans (hi.symm.trans hsi), hfk, hkeep hst⟩
      · exact ⟨s, hrest s hs hi, hsi, hks, hst⟩
    · exact ⟨_, hmoved, hfi.trans (hnew n hn).1.symm, hfk, (hnew n hn).2 hl⟩

end Moves

section Internal
variable {row : Attempt}

/-- The transaction rewrites the row of one attempt and leaves an external one as
it stands. -/
def TurnsInside (db db' : DB) : Prop :=
  ∃ i f a, Turns i f a db db' ∧ (a.executionKind = .external → a.standing.External → (f a).standing = a.standing)

theorem TurnsInside.entries (h : TurnsInside db db') : db'.entries = db.entries := by
  obtain ⟨i, f, a, ht, _⟩ := h
  exact ht.entries

theorem TurnsInside.registered (h : TurnsInside db db') (hl : Leaves [.standings] db db') (hr : Registered db) :
    Registered db' := by
  obtain ⟨i, f, a, ht, hf⟩ := h
  exact ht.registered hr hl hf

theorem turnsInside_refl (ha : db.attempt? i = some a) (hs : db'.standings = db.standings) : TurnsInside db db' := by
  refine ⟨i, fun x => x, a, ⟨ha, fun x => rfl, ?_⟩, fun _ _ => rfl⟩
  rw [hs]
  exact (map_modifyWhere (fun _ _ => rfl) db.attempts).symm

theorem recordPreflight_turns {report : Json} {error : Option String}
    (h : recordPreflight db i report error = .ok (row, db')) : TurnsInside db db' := by
  simp only [recordPreflight, bind_ok, ensure_ok] at h
  obtain ⟨a, ha, _, ⟨hres, _⟩, h⟩ := h
  split at h
  · simp only [bind_ok, pure_ok, Prod.mk.injEq] at h
    obtain ⟨e, _, _, _, _, rfl⟩ := h
    refine ⟨i, _, a, ⟨attemptOf_ok ha, ?_, rfl⟩, fun _ hext => absurd hres hext.admitted.1⟩
    exact fun x => rfl
  · simp only [pure_ok, Prod.mk.injEq] at h
    obtain ⟨_, rfl⟩ := h
    exact turnsInside_refl (attemptOf_ok ha) rfl

theorem retireReservation_turns {reason : String} (h : retireReservation db i reason = .ok (row, db')) :
    TurnsInside db db' := by
  simp only [retireReservation, bind_ok, ite_ok, pure_ok, ensure_ok, Prod.mk.injEq] at h
  obtain ⟨_, _, a, ha, ⟨_, _, rfl⟩ | ⟨_, _, ⟨hres, _⟩, _, _, _, rfl⟩⟩ := h
  · exact turnsInside_refl (attemptOf_ok ha) rfl
  · refine ⟨i, _, a, ⟨attemptOf_ok ha, ?_, rfl⟩, fun _ hext => absurd hres hext.admitted.1⟩
    exact fun x => rfl

/-- An external attempt of unknown state stays one; every other one it could
rewrite is still launching. -/
theorem launchUncertain_turns {reason : String} (h : launchUncertain db i reason = .ok (row, db')) :
    TurnsInside db db' := by
  simp only [launchUncertain, bind_ok, ite_ok, pure_ok, Prod.mk.injEq] at h
  obtain ⟨e, _, a, ha, ⟨_, _, rfl⟩ | ⟨hst, _, _, _, rfl⟩⟩ := h
  · exact turnsInside_refl (attemptOf_ok ha) rfl
  · refine ⟨i, fun x => { x with status := .unknown, error := some e }, a, ⟨attemptOf_ok ha, fun x => rfl, rfl⟩, ?_⟩
    intro _ hext
    have hunknown : a.status = .unknown := by
      by_contra hne
      exact hst (.inr ⟨hext.admitted.2, hne⟩)
    simp [Attempt.standing, hunknown]

theorem claimLaunch_turns {claimId : Option String} {fence : Option Int} {now : Stamp} {b : Bool}
    (h : claimLaunch host db caller i claimId fence now = .ok (b, db')) : TurnsInside db db' := by
  simp only [claimLaunch, bind_ok, ite_ok, pure_ok, Prod.mk.injEq] at h
  obtain ⟨a, ha, ⟨_, _, rfl⟩ | ⟨hres, ⟨bg, rebind⟩, _, _, _, _, _, ⟨_, _, rfl⟩ | ⟨_, _, rfl⟩⟩⟩ := h
  · exact turnsInside_refl (attemptOf_ok ha) rfl
  · refine ⟨i, _, a, ⟨attemptOf_ok ha, ?_, rfl⟩, fun _ hext => absurd hext.admitted.1 hres⟩
    exact fun x => rfl
  · refine ⟨i, fun x => { x with status := .launching }, a, ⟨attemptOf_ok ha, fun x => rfl, ?_⟩,
      fun _ hext => absurd hext.admitted.1 hres⟩
    exact (bindClaim_leaves [] (setStatus db i .launching) rebind i).standings (by simp)

/-- The engine binds the run of an attempt that its read half found to be its own. -/
theorem bindRunWrite_turns {call : BindCall}
    (hk : ∃ e ∈ db.entries, e.attemptId = call.attemptId ∧ e.executionKind = .skillflow)
    (hd : (db.attempts.map Attempt.attemptId).Nodup)
      (h : bindRunWrite db call = .ok (row, db')) : TurnsInside db db' := by
  simp only [bindRunWrite, bind_ok] at h
  obtain ⟨a, ha, h⟩ := h
  have hown : a.executionKind ≠ .external := by
    obtain ⟨_, he, hid, hkind⟩ := hk
    obtain ⟨b, hb, rfl⟩ := List.mem_map.mp he
    have hab : b = a := List.inj_on_of_nodup_map hd hb (List.mem_of_find?_eq_some (attemptOf_ok ha))
      (hid.trans (lookup_key (attemptOf_ok ha)).symm)
    have hown : b.executionKind = .skillflow := hkind
    rw [← hab, hown]
    decide
  split at h
  · simp only [bind_ok, pure_ok, Prod.mk.injEq] at h
    obtain ⟨_, _, _, rfl⟩ := h
    exact turnsInside_refl (attemptOf_ok ha) rfl
  · simp only [bind_ok, pure_ok, Prod.mk.injEq] at h
    obtain ⟨_, _, _, _, _, _, _, rfl⟩ := h
    refine ⟨call.attemptId, _, a, ⟨attemptOf_ok ha, ?_, rfl⟩, fun hext => absurd hext hown⟩
    exact fun x => rfl

theorem writeReconciled_attempts (db : DB) (n : Node) (a : Attempt) (s : AttemptStatus) (art : Option String)
    (r : EngineRow) (fresh : Bool) : (writeReconciled db n a s art r fresh).attempts =
      (db.setAttempt a.attemptId (settledRow s art r)).attempts := by
  have hretract : (retractAccepted db n a s
      "accepted workflow no longer has a valid candidate outcome").attempts = db.attempts := by
    unfold retractAccepted
    split_ifs <;> rfl
  unfold writeReconciled settleRun
  dsimp only
  split_ifs
  · simp only [DB.event, DB.setNode, DB.setAttempt, hretract]
  · simp only [DB.event, DB.setAttempt, hretract]

theorem reconcileWrite_turns {call : ReconcileCall} {stale : Bool}
    (h : reconcileWrite db call = .ok (row, stale, db')) : TurnsInside db db' := by
  simp only [reconcileWrite, bind_ok, ensure_ok, pure_ok, Prod.mk.injEq] at h
  obtain ⟨a, ha, _, hrun, fresh, _, _, _, _, _, art, _, n, _, row', _, _, _, rfl⟩ := h
  have hid : a.attemptId = call.attemptId := lookup_key (attemptOf_ok ha)
  have hrelease : ∀ (c : Bool) (x : DB) (actor : String) (st : AttemptStatus),
      (if c = true then releaseBoundClaims x a actor st else x).standings = x.standings := by
    intro c x actor st
    cases c
    · rfl
    · have hleaves : Leaves [] x (releaseBoundClaims x a actor st) := releaseBoundClaims_leaves x a actor st
      exact hleaves.standings (by simp)
  have hbound : a.standing.External → False := fun hext => by
    have hnone : a.runId = none := hext.unbound
    rw [hnone] at hrun
    cases hrun
  generalize hc : (decide (a.status ≠ reconciledStatus call fresh ∨ art ≠ a.artifactRef) ||
    attentionChanged db a (reconciledStatus call fresh) call.row) = changed
  cases changed with
  | false => exact turnsInside_refl (attemptOf_ok ha) (hrelease _ _ _ _)
  | true =>
    refine ⟨call.attemptId, settledRow (reconciledStatus call fresh) art call.row, a,
      ⟨attemptOf_ok ha, fun x => rfl, ?_⟩, fun _ hext => (hbound hext).elim⟩
    refine (hrelease _ _ _ _).trans ?_
    simp only [DB.standings, if_true, writeReconciled_attempts, hid]

end Internal

section External
variable {r : ReserveRequest} {row : Attempt} {claim : Option Claim} {breakGlass : Bool}

/-- The owner row an external admission inserts. -/
def admittedOwner (row : Attempt) (e : ExternalIdentity) : ExternalOwner :=
  ⟨row.attemptId, row.projectId, row.nodeKey, e.harness, e.externalId, .active, none⟩

theorem writeAdmission_rows : (writeAdmission db r row claim breakGlass).attempts = db.attempts ++ [row] ∧
    (writeAdmission db r row claim breakGlass).owners = db.owners ++ (r.external.map (admittedOwner row)).toList ∧
    (writeAdmission db r row claim breakGlass).observations = db.observations := by
  have hbind : ∀ d : DB, (bindClaim d claim row.attemptId).attempts = d.attempts ∧
      (bindClaim d claim row.attemptId).owners = d.owners ∧
      (bindClaim d claim row.attemptId).observations = d.observations := by
    intro d
    cases claim <;> exact ⟨rfl, rfl, rfl⟩
  obtain ⟨h₁, h₂, h₃⟩ := hbind { db with attempts := db.attempts ++ [row] }
  unfold writeAdmission
  cases hext : r.external with
  | none =>
    simp only [insertOwner]
    split
    · exact ⟨h₁, h₂.trans (List.append_nil _).symm, h₃⟩
    · exact ⟨h₁, h₂.trans (List.append_nil _).symm, h₃⟩
  | some e =>
    simp only [insertOwner]
    split
    · exact ⟨h₁, congrArg (· ++ [admittedOwner row e]) h₂, h₃⟩
    · exact ⟨h₁, congrArg (· ++ [admittedOwner row e]) h₂, h₃⟩

theorem admission_registered {node : Node} (hr : Registered db)
    (h : Admission host db caller r row node claim breakGlass db') : Registered db' := by
  obtain ⟨context, hrow⟩ := h.made
  obtain ⟨hfresh, _⟩ := attemptClash_false h.unclashed
  obtain ⟨hatt, hown, hobs⟩ := @writeAdmission_rows db r row claim breakGlass
  rw [← h.written] at hatt hown hobs
  have hids : (db'.attempts.map Attempt.attemptId).Nodup := by
    rw [hatt, List.map_append, List.nodup_append]
    refine ⟨hr.distinct, List.nodup_singleton _, ?_⟩
    intro x hx y hy hxy
    rw [List.map_singleton, List.mem_singleton] at hy
    obtain ⟨b, hb, rfl⟩ := List.mem_map.mp hx
    exact hfresh b hb (hxy.trans hy)
  have hs : ∀ s, s ∈ db'.standings ↔ s ∈ db.standings ∨ s = row.standing := by
    intro s
    rw [DB.standings, hatt, List.map_append, List.mem_append, List.map_singleton, List.mem_singleton]
    rfl
  have hold : ∀ s ∈ db.standings, s.attemptId ≠ row.attemptId := by
    intro s hs
    obtain ⟨b, hb, rfl⟩ := List.mem_map.mp hs
    exact hfresh b hb
  have hnorow : row.attemptId ∉ db.owners.map ExternalOwner.attemptId := by
    intro hm
    obtain ⟨o, ho, he⟩ := List.mem_map.mp hm
    obtain ⟨s, hs, hsi, _⟩ := hr.owners o ho
    exact hold s hs (hsi.trans he)
  cases hext : r.external with
  | none =>
    have hkind : row.executionKind ≠ .external := by simp [hrow, admittedAttempt, hext]
    rw [hext] at hown
    refine hr.of_external hids ?_ (by simpa using hown) hobs
    intro s hk
    rw [hs]
    refine or_iff_left ?_
    rintro rfl
    exact hkind hk
  | some e =>
    rw [hext] at hown
    have hst : row.status = .running := by simp [hrow, admittedAttempt, hext]
    have hk : row.standing.executionKind = .external := by simp [hrow, Attempt.standing, admittedAttempt, hext]
    have hnew : row.standing.External := by
      refine ⟨?_, ?_, ?_, ?_⟩
      · simp [Attempt.standing, hst]
      · simp [hrow, Attempt.standing, admittedAttempt]
      · simp [hrow, Attempt.standing, admittedAttempt, hext]
      · intro hab
        have hrun : row.standing.status = .running := hst
        rw [hrun] at hab
        cases hab
    have hagree : Agrees db.observations row.standing (admittedOwner row e) := by
      refine ⟨rfl, rfl, ?_, ?_, ?_, fun hsettled => by cases hsettled⟩
      · simp [hrow, Attempt.standing, admittedAttempt, hext, admittedOwner]
      · simp [hrow, Attempt.standing, admittedAttempt, hext, admittedOwner]
      · simp [Attempt.standing, hst, admittedOwner, ownerStatusIn]
    have howners : ∀ o, o ∈ db'.owners ↔ o ∈ db.owners ∨ o = admittedOwner row e := by
      intro o
      rw [hown]
      simp
    have hreg : ∀ s ∈ db'.standings, s.executionKind = .external →
        s.attemptId ∈ db'.owners.map ExternalOwner.attemptId := by
      intro s hsm hks
      rcases (hs s).mp hsm with hsm | rfl
      · obtain ⟨o, ho, he⟩ := List.mem_map.mp (hr.registered s hsm hks)
        exact List.mem_map.mpr ⟨o, (howners o).mpr (.inl ho), he⟩
      · exact List.mem_map.mpr ⟨admittedOwner row e, (howners _).mpr (.inr rfl), rfl⟩
    refine ⟨⟨hids, ?_, ?_, ?_, ?_, fun s hsm hks hno => absurd (hreg s hsm hks) hno⟩, hreg⟩
    · rw [hown, List.map_append, List.nodup_append]
      refine ⟨hr.keyed, by simp, ?_⟩
      intro x hx y hy hxy
      simp only [Option.map_some, Option.toList_some, List.map_singleton, List.mem_singleton] at hy
      rw [hxy, hy] at hx
      exact hnorow hx
    · intro s hsm hks
      rcases (hs s).mp hsm with hsm | rfl
      · exact hr.external s hsm hks
      · exact hnew
    · intro o ho
      rcases (howners o).mp ho with ho | rfl
      · obtain ⟨s, hsm, hsi, hks, hag⟩ := hr.owners o ho
        exact ⟨s, (hs s).mpr (.inl hsm), hsi, hks, hobs ▸ hag⟩
      · exact ⟨row.standing, (hs _).mpr (.inr rfl), rfl, hk, hobs ▸ hagree⟩
    · intro n hn hl
      rw [hobs] at hn
      obtain ⟨s, hsm, hsi, hks, hst'⟩ := hr.late n hn hl
      exact ⟨s, (hs s).mpr (.inl hsm), hsi, hks, hst'⟩

theorem admission_entries {node : Node} (h : Admission host db caller r row node claim breakGlass db') :
    db.entries <+: db'.entries := by
  obtain ⟨hatt, _, _⟩ := @writeAdmission_rows db r row claim breakGlass
  rw [← h.written] at hatt
  rw [DB.entries, DB.entries, hatt, List.map_append]
  exact List.prefix_append _ _

theorem reserveOnce_registered {preflight : Preflight} {out : Reserved} (hr : Registered db)
    (h : reserveOnce host db caller r preflight = .ok (out, db')) : Registered db' ∧ db.entries <+: db'.entries := by
  have hview : Leaves [] db (reserveView db caller r) := reserveView_leaves db caller r
  have hv : Registered (reserveView db caller r) := hview.registered (by simp) (by simp) (by simp) hr
  have hentries : (reserveView db caller r).entries = db.entries := entries_of_standings (hview.standings (by simp))
  rcases reserveOnce_ok h with ⟨claim, i, rfl⟩ | ⟨row, node, claim, bg, _, _, hadm⟩
  · have hb := bindClaim_leaves [] (reserveView db caller r) claim i
    refine ⟨hb.registered (by simp) (by simp) (by simp) hv, ?_⟩
    rw [entries_of_standings (hb.standings (by simp)), hentries]
  · refine ⟨admission_registered hv hadm, ?_⟩
    rw [← hentries]
    exact admission_entries hadm

end External

section Reports
variable {call : ObserveCall} {now : Stamp} {n : Node} {row : Observation}

theorem appendObservation_rows (h : appendObservation db call row = .ok db') :
    db'.attempts = db.attempts ∧ db'.owners = db.owners ∧ db'.observations = db.observations ++ [row] := by
  simp only [appendObservation, bind_ok, pure_ok] at h
  obtain ⟨db₁, h₁, db₂, h₂, _, _, rfl⟩ := h
  have hstore : db₁.attempts = db.attempts ∧ db₁.owners = db.owners ∧ db₁.observations = db.observations := by
    unfold storeReport storeReportBlob at h₁
    split at h₁
    · split at h₁
      · simp only [bind_ok, pure_ok] at h₁
        obtain ⟨_, _, rfl⟩ := h₁
        exact ⟨rfl, rfl, rfl⟩
      · rw [pure_ok] at h₁
        subst h₁
        exact ⟨rfl, rfl, rfl⟩
    · rw [pure_ok] at h₁
      subst h₁
      exact ⟨rfl, rfl, rfl⟩
  have hgit : db₂.attempts = db₁.attempts ∧ db₂.owners = db₁.owners ∧ db₂.observations = db₁.observations := by
    unfold storeCandidate at h₂
    split at h₂
    · rw [pure_ok] at h₂
      subst h₂
      exact ⟨rfl, rfl, rfl⟩
    · split at h₂
      · simp only [bind_ok, pure_ok] at h₂
        obtain ⟨_, _, rfl⟩ := h₂
        exact ⟨rfl, rfl, rfl⟩
      · rw [pure_ok] at h₂
        subst h₂
        exact ⟨rfl, rfl, rfl⟩
  refine ⟨hgit.1.trans hstore.1, hgit.2.1.trans hstore.2.1, ?_⟩
  rw [← hstore.2.2, ← hgit.2.2]

theorem writeObserved_rows (db : DB) (call : ObserveCall) (a : Attempt) (row : Observation) (n : Node)
    (current : Bool) (now : Stamp) :
    (writeObserved db call a row n current now).attempts =
        (db.setAttempt a.attemptId (observedRow call.request row)).attempts ∧
      (writeObserved db call a row n current now).owners =
        (settleOwner db a.attemptId (ownerStatusOf row.resultingStatus) now).owners ∧
      (writeObserved db call a row n current now).observations = db.observations := by
  have hretract : ∀ (d : DB) (why : String), (retractAccepted d n a row.resultingStatus why).attempts = d.attempts ∧
      (retractAccepted d n a row.resultingStatus why).owners = d.owners ∧
      (retractAccepted d n a row.resultingStatus why).observations = d.observations := by
    intro d why
    unfold retractAccepted
    split_ifs <;> exact ⟨rfl, rfl, rfl⟩
  have hsettle : (settleObserved db call.request a row n now).attempts =
        (db.setAttempt a.attemptId (observedRow call.request row)).attempts ∧
      (settleObserved db call.request a row n now).owners =
        (settleOwner db a.attemptId (ownerStatusOf row.resultingStatus) now).owners ∧
      (settleObserved db call.request a row n now).observations = db.observations := by
    obtain ⟨h₁, h₂, h₃⟩ := hretract (settleOwner db a.attemptId (ownerStatusOf row.resultingStatus) now)
      "external harness retracted its accepted candidate"
    refine ⟨?_, h₂, h₃⟩
    simp only [settleObserved, DB.setAttempt, h₁]
    rfl
  have hoffer : ∀ d : DB, (offerObserved d a row n).attempts = d.attempts ∧
      (offerObserved d a row n).owners = d.owners ∧ (offerObserved d a row n).observations = d.observations := by
    intro d
    unfold offerObserved
    split_ifs <;> exact ⟨rfl, rfl, rfl⟩
  have hrelease : ∀ d : DB, (releaseSettled d call a row).attempts = d.attempts ∧
      (releaseSettled d call a row).owners = d.owners ∧
      (releaseSettled d call a row).observations = d.observations := by
    intro d
    have hone : ∀ (actor reason : String) (x : DB) (c : Claim),
        (releaseBoundOne actor reason a x c).attempts = x.attempts ∧
        (releaseBoundOne actor reason a x c).owners = x.owners ∧
        (releaseBoundOne actor reason a x c).observations = x.observations := fun _ _ _ _ => ⟨rfl, rfl, rfl⟩
    unfold releaseSettled releaseBoundClaims
    split_ifs
    · exact ⟨foldl_keeps DB.attempts (fun x c => (hone _ _ x c).1) d _,
        foldl_keeps DB.owners (fun x c => (hone _ _ x c).2.1) d _,
        foldl_keeps DB.observations (fun x c => (hone _ _ x c).2.2) d _⟩
    · exact ⟨rfl, rfl, rfl⟩
  obtain ⟨s₁, s₂, s₃⟩ := hsettle
  obtain ⟨o₁, o₂, o₃⟩ := hoffer (settleObserved db call.request a row n now)
  obtain ⟨r₁, r₂, r₃⟩ := hrelease (observedEvent (offerObserved (settleObserved db call.request a row n now) a row n)
    call a row current [])
  exact ⟨r₁.trans (o₁.trans s₁), r₂.trans (o₂.trans s₂), r₃.trans (o₃.trans s₃)⟩

theorem Reported.leavesIn {late : Bool} (h : Reported host db call a n late row) : row.resultingStatus ≠ .reserved ∧
    row.resultingStatus ≠ .launching ∧ row.resultingStatus ≠ .abandoned := by
  rw [h.row]
  simp only [observationRow]
  split_ifs
  · decide
  · cases call.request.status <;> decide

theorem ownerStatusOf_eq {st : AttemptStatus} (h : st ≠ .reserved ∧ st ≠ .launching ∧ st ≠ .abandoned) :
    ownerStatusOf st = ownerStatusIn obs i st := by
  cases st <;> simp_all [ownerStatusOf, ownerStatusIn]

theorem counted_registered {db₁ : DB} {current : Bool} (hr : Registered db)
    (hrep : Reported host db call a n false row) (happ : appendObservation db call row = .ok db₁) :
    Registered (writeObserved db₁ call a row n current now) ∧
      (writeObserved db₁ call a row n current now).entries = db.entries := by
  obtain ⟨a₁, a₂, a₃⟩ := appendObservation_rows happ
  obtain ⟨w₁, w₂, w₃⟩ := writeObserved_rows db₁ call a row n current now
  have hid : a.attemptId = call.request.attemptId := lookup_key hrep.found
  have hrow : row.attemptId = a.attemptId ∧ row.lateAfterAbandon = false := by
    rw [hrep.row]
    exact ⟨rfl, rfl⟩
  have hlate := authorizeReport_late hrep.authorized
  have hres := hrep.leavesIn
  have hturns : Turns a.attemptId (observedRow call.request row) a db (writeObserved db₁ call a row n current now) := by
    refine ⟨hid ▸ hrep.found, fun x => rfl, ?_⟩
    rw [DB.standings, w₁, DB.setAttempt, a₁]
    rfl
  refine ⟨?_, hturns.entries⟩
  have howners : (writeObserved db₁ call a row n current now).owners =
      modifyWhere (fun o => decide (o.attemptId = a.attemptId)) (fun o => { o with
        status := ownerStatusOf row.resultingStatus,
        settledAt := if ownerStatusOf row.resultingStatus = .settled then some now else none }) db.owners := by
    rw [w₂, settleOwner, a₂]
  refine hturns.moved hr hrep.external howners (fun _ => rfl) (w₃.trans a₃) ?_ ?_ ?_ ?_
  · intro o ho
    rw [List.mem_singleton.mp ho]
    refine ⟨hrow.1, fun hl => ?_⟩
    rw [hrow.2] at hl
    cases hl
  · intro hab
    simp [hab] at hlate
  · have hstand := hr.external _ (standing_mem hrep.found) hrep.external
    exact ⟨⟨hres.1, hres.2.1⟩, hstand.unbound, hstand.identity, fun hab => absurd hab hres.2.2⟩
  · intro o _ _ hag
    refine ⟨hag.project, hag.node, hag.harness, hag.externalId, ownerStatusOf_eq hres, ?_⟩
    intro hsettled
    simp only at hsettled
    simp [hsettled]

/-- The late report of a quiescent worker settles the abandoned owner row. -/
def settleLate (r : ObserveRequest) (now : Stamp) (o : ExternalOwner) : ExternalOwner :=
  if r.quiescent = true ∧ o.status = .abandoned then { o with status := .settled, settledAt := some now } else o

theorem settleLate_identity {r : ObserveRequest} : (settleLate r now o).attemptId = o.attemptId ∧
    (settleLate r now o).projectId = o.projectId ∧ (settleLate r now o).nodeKey = o.nodeKey ∧
    (settleLate r now o).harness = o.harness ∧ (settleLate r now o).externalId = o.externalId := by
  unfold settleLate
  split_ifs <;> exact ⟨rfl, rfl, rfl, rfl, rfl⟩

theorem settleAbandoned_owners (hkeyed : (db.owners.map ExternalOwner.attemptId).Nodup) (r : ObserveRequest)
    (a : Attempt) (now : Stamp) : (settleAbandoned db r a now).owners =
      modifyWhere (fun o => decide (o.attemptId = a.attemptId)) (settleLate r now) db.owners := by
  unfold settleAbandoned modifyWhere
  split_ifs with hs
  · have hq : r.quiescent = true := by
      simp only [settlesOwner, Bool.and_eq_true] at hs
      exact hs.1
    apply List.map_congr_left
    intro o _
    by_cases hid : o.attemptId = a.attemptId
    · by_cases hab : o.status = .abandoned
      · simp [hid, hab, settleLate, hq]
      · simp [hid, hab, settleLate]
    · simp [hid]
  · symm
    have hsame : ∀ o ∈ db.owners, (if decide (o.attemptId = a.attemptId) = true then settleLate r now o
        else o) = o := by
      intro o ho
      by_cases hid : o.attemptId = a.attemptId
      · have hl : lookup ExternalOwner.attemptId db.owners a.attemptId = some o := hid ▸ lookup_of_mem hkeyed ho
        simp only [settlesOwner, hl, Option.any_some, Bool.and_eq_true, decide_eq_true_eq] at hs
        simp [hid, settleLate, hs]
      · simp [hid]
    rw [List.map_congr_left hsame, List.map_id']

theorem late_registered {db₁ : DB} {current : Bool} (hr : Registered db)
    (hrep : Reported host db call a n true row) (happ : appendObservation db call row = .ok db₁) :
    Registered (writeLate db₁ call a row current now) ∧
    (writeLate db₁ call a row current now).entries = db.entries := by
  obtain ⟨a₁, a₂, a₃⟩ := appendObservation_rows happ
  have hid : a.attemptId = call.request.attemptId := lookup_key hrep.found
  have hrow : row.attemptId = a.attemptId ∧ row.lateAfterAbandon = true ∧ row.quiescent = call.request.quiescent := by
    rw [hrep.row]
    exact ⟨rfl, rfl, rfl⟩
  have hab : a.status = .abandoned := of_decide_eq_true (authorizeReport_late hrep.authorized).symm
  have hattempts : (writeLate db₁ call a row current now).attempts =
      (db.setAttempt a.attemptId (fun x => { x with observationVersion := row.version })).attempts := by
    have hset : ∀ d : DB, (settleAbandoned d call.request a now).attempts = d.attempts := by
      intro d
      unfold settleAbandoned
      split_ifs <;> rfl
    refine (hset _).trans ?_
    rw [DB.setAttempt, DB.setAttempt, a₁]
  have hobs : (writeLate db₁ call a row current now).observations = db.observations ++ [row] := by
    have hset : ∀ d : DB, (settleAbandoned d call.request a now).observations = d.observations := by
      intro d
      unfold settleAbandoned
      split_ifs <;> rfl
    exact (hset _).trans a₃
  have howners : (writeLate db₁ call a row current now).owners =
      modifyWhere (fun o => decide (o.attemptId = a.attemptId)) (settleLate call.request now) db.owners := by
    rw [← a₂]
    have hkeyed : (db₁.owners.map ExternalOwner.attemptId).Nodup := by
      rw [a₂]
      exact hr.keyed
    exact @settleAbandoned_owners (db₁.setAttempt a.attemptId (fun x => { x with observationVersion := row.version }))
      hkeyed call.request a now
  have hturns : Turns a.attemptId (fun x => { x with observationVersion := row.version }) a db
      (writeLate db₁ call a row current now) := by
    refine ⟨hid ▸ hrep.found, fun x => rfl, ?_⟩
    rw [DB.standings, hattempts]
    rfl
  refine ⟨?_, hturns.entries⟩
  refine hturns.moved hr hrep.external howners (fun _ => settleLate_identity.1) hobs ?_ id ?_ ?_
  · intro o ho
    rw [List.mem_singleton.mp ho]
    exact ⟨hrow.1, fun _ => hab⟩
  · have hstand := hr.external _ (standing_mem hrep.found) hrep.external
    exact hstand
  · intro o _ hoi hag
    have hstatus : o.status = if settledLate db.observations a.attemptId then .settled else .abandoned := by
      have hst := hag.status
      simpa [Attempt.standing, hab, ownerStatusIn] using hst
    have hcount : settledLate (db.observations ++ [row]) a.attemptId =
        (settledLate db.observations a.attemptId || call.request.quiescent) := by
      simp [settledLate, hrow]
    obtain ⟨_, hp, hn, hh, he⟩ := @settleLate_identity o now call.request
    refine ⟨hp.trans hag.project, hn.trans hag.node, hh ▸ hag.harness, he ▸ hag.externalId, ?_, ?_⟩
    · rw [hobs]
      simp only [Attempt.standing, hab, ownerStatusIn, hcount]
      unfold settleLate
      cases hl : settledLate db.observations a.attemptId <;> cases hq : call.request.quiescent <;>
        simp [hstatus, hl]
    · intro hsettled
      unfold settleLate at hsettled ⊢
      split_ifs with hc
      · rfl
      · rw [if_neg hc] at hsettled
        exact hag.settled hsettled

theorem observeWrite_registered {out : Attempt} {x : Observation} (hr : Registered db)
    (h : observeWrite host db call now = .ok (out, x, db')) : Registered db' ∧ db.entries <+: db'.entries := by
  have hback := markBack_leaves [] db call.caller.driverId now
  have hv := hback.registered (by simp) (by simp) (by simp) hr
  have hentries := entries_of_standings (hback.standings (by simp))
  cases observeWrite_result h with
  | replayed =>
    rw [hentries]
    exact ⟨hv, List.prefix_refl _⟩
  | late a n row db₁ reported appended =>
    obtain ⟨hreg, hk⟩ := @late_registered _ host a call now n row db₁ _ hv reported appended
    rw [hk, hentries]
    exact ⟨hreg, List.prefix_refl _⟩
  | counted a n row db₁ reported appended =>
    obtain ⟨hreg, hk⟩ := @counted_registered _ host a call now n row db₁ _ hv reported appended
    rw [hk, hentries]
    exact ⟨hreg, List.prefix_refl _⟩

end Reports

section Abandon

theorem Older.unlate (h : Older db) (ha : db.attempt? i = some a) (hne : a.status ≠ .abandoned) :
    settledLate db.observations i = false := by
  rw [settledLate, List.any_eq_false]
  intro o ho hc
  obtain ⟨hi, hl, _⟩ := of_decide_eq_true hc
  obtain ⟨s, hs, hsi, _, hst⟩ := h.late o ho hl
  have hid : a.attemptId = i := lookup_key ha
  have hsa : s = a.standing := h.standing_unique hs (standing_mem ha) (hsi.trans (hi.trans hid.symm))
  rw [hsa] at hst
  exact hne hst

theorem markAbandoned_registered {kind : AbandonKind} {reason : String} {now : Stamp} (hr : Registered db)
    (ha : db.attempt? a.attemptId = some a) (hk : a.executionKind = .external) (hact : a.status.active = true) :
    Registered (markAbandoned db a kind reason now) ∧ (markAbandoned db a kind reason now).entries = db.entries := by
  have hturns : Turns a.attemptId (fun x => { x with
      status := .abandoned, abandonKind := some kind, error := some reason, ownerFence := a.ownerFence + 1 }) a db
      (markAbandoned db a kind reason now) := ⟨ha, fun x => rfl, rfl⟩
  have hlate : settledLate db.observations a.attemptId = false := by
    refine hr.unlate ha ?_
    intro hab
    rw [hab] at hact
    cases hact
  refine ⟨?_, hturns.entries⟩
  refine hturns.moved hr hk rfl (fun _ => rfl) (List.append_nil _).symm (by simp) (fun _ => rfl) ?_ ?_
  · have hstand := hr.external _ (standing_mem ha) hk
    refine ⟨?_, hstand.unbound, hstand.identity, fun _ => rfl⟩
    simp [Attempt.standing]
  · intro o _ _ hag
    refine ⟨hag.project, hag.node, hag.harness, hag.externalId, ?_, fun _ => rfl⟩
    change OwnerStatus.abandoned = ownerStatusIn db.observations a.attemptId .abandoned
    simp [ownerStatusIn, hlate]

theorem abandon_registered {r : AbandonRequest} {kept : Except StateError (String × List UInt8)} {now : Stamp}
    {out : Attempt} (hr : Registered db) (h : abandonExternalAttempt host db caller r kept now = .ok (out, db')) :
    Registered db' ∧ db.entries <+: db'.entries := by
  simp only [abandonExternalAttempt, bind_ok, ensure_ok, pure_ok, Prod.mk.injEq] at h
  obtain ⟨reason, _, _, _, _, _, report, _, a, hatt, _, hk, ⟨bg, _⟩, hrec, db₁, hstore, row', _, _, rfl⟩ := h
  have hkept : Leaves [] db db₁ := storeAbandonReport_leaves hstore
  have hr₁ := hkept.registered (by simp) (by simp) (by simp) hr
  have ha : db₁.attempt? a.attemptId = some a := by
    rw [core_attempt? (storeAbandonReport_core hstore)]
    exact attemptOf_self hatt
  obtain ⟨hreg, hentries⟩ := @markAbandoned_registered db₁ a r.abandonKind reason now hr₁ ha hk
    (reclaimable_active hrec)
  -- the claims and offers that go with the attempt are outside the registry
  have hrest : Leaves [.handoffs] (markAbandoned db₁ a r.abandonKind reason now)
      (writeAbandon db₁ caller a r.abandonKind reason now) :=
    (stopBoundClaims_leaves ..).trans (voidOpenHandoffs_leaves ..)
  refine ⟨hrest.event.registered (by decide) (by decide) (by decide) hreg, ?_⟩
  have hall : (writeAbandon db₁ caller a r.abandonKind reason now).entries = db.entries :=
    (entries_of_standings (hrest.standings (by decide))).trans
      (hentries.trans (entries_of_standings (hkept.standings (by simp))))
  change db.entries <+: (writeAbandon db₁ caller a r.abandonKind reason now).entries
  rw [hall]

end Abandon

section Runs
variable {reply : Reply} {s : Sys} {op : Op}

theorem Leaves.registers {ps : List Part} (h : Leaves ps db db') (hs : .standings ∉ ps) (ho : .owners ∉ ps)
    (hobs : .observations ∉ ps) (hr : Registered db) : Registered db' ∧ db.entries <+: db'.entries := by
  refine ⟨h.registered hs ho hobs hr, ?_⟩
  rw [entries_of_standings (h.standings hs)]

theorem TurnsInside.registers (h : TurnsInside db db') (hl : Leaves [.standings] db db') (hr : Registered db) :
    Registered db' ∧ db.entries <+: db'.entries := by
  refine ⟨h.registered hl hr, ?_⟩
  rw [h.entries]

theorem Request.registered {r : Request} (hr : Registered db) (h : r.run host db = .ok (reply, db')) :
    Registered db' ∧ db.entries <+: db'.entries := by
  cases r with
  | reserve caller workflow request =>
    obtain ⟨_, h⟩ := answer_ok h
    obtain ⟨_, _, h⟩ := reserve_ok h
    exact reserveOnce_registered hr h
  | register caller harness externalId request =>
    obtain ⟨_, h⟩ := answer_ok h
    obtain ⟨_, _, h⟩ := register_ok h
    exact reserveOnce_registered hr h
  | registerCheck caller harness externalId request =>
    obtain ⟨_, h⟩ := answer_ok h
    obtain ⟨_, _, h⟩ := register_ok h
    exact reserveOnce_registered hr h
  | recordPreflight i report error =>
    obtain ⟨_, h⟩ := answer_ok h
    exact (recordPreflight_turns h).registers (recordPreflight_leaves h) hr
  | claimLaunch caller i claimId fence now =>
    obtain ⟨_, h⟩ := answer_ok h
    exact (claimLaunch_turns h).registers (claimLaunch_leaves h) hr
  | retireReservation i reason =>
    obtain ⟨_, h⟩ := answer_ok h
    exact (retireReservation_turns h).registers (retireReservation_leaves h) hr
  | launchUncertain i reason =>
    obtain ⟨_, h⟩ := answer_ok h
    exact (launchUncertain_turns h).registers (launchUncertain_leaves h) hr
  | abandon caller request kept now =>
    obtain ⟨_, h⟩ := answer_ok h
    exact abandon_registered hr h
  | _ =>
    refine (Request.leaves h).registers ?_ ?_ ?_ hr
    all_goals simp [Request.writes]

/-- A binding that is still to be committed is of an attempt of the engine. -/
def Call.Bound (db : DB) : Call → Prop
  | .bindRun call => ∃ e ∈ db.entries, e.attemptId = call.attemptId ∧ e.executionKind = .skillflow
  | .reconcile _ | .observe _ | .register .. => True

theorem Call.Bound.mono {c : Call} (h : c.Bound db) (hk : db.entries <+: db'.entries) : c.Bound db' := by
  cases c with
  | bindRun call =>
    obtain ⟨e, he, hrest⟩ := h
    exact ⟨e, hk.subset he, hrest⟩
  | _ => trivial

theorem Call.registered {c : Call} {now : Stamp} (hr : Registered db) (hb : c.Bound db)
    (h : c.run host db now = .ok (reply, db')) : Registered db' ∧ db.entries <+: db'.entries := by
  cases c with
  | bindRun x =>
    obtain ⟨_, hx⟩ := answer_ok h
    exact (bindRunWrite_turns hb hr.distinct hx).registers (bindRunWrite_leaves hx) hr
  | reconcile x =>
    obtain ⟨_, _, hx⟩ := reconcile_ok h
    exact (reconcileWrite_turns hx).registers (reconcileWrite_leaves hx) hr
  | observe x =>
    obtain ⟨_, _, hx⟩ := observe_ok h
    exact observeWrite_registered hr hx
  | register caller harness externalId request source =>
    obtain ⟨_, hx⟩ := answer_ok h
    obtain ⟨_, _, hx⟩ := register_ok hx
    exact reserveOnce_registered hr hx

theorem Read.bound {r : Read} {call : Call} (h : r.run host db = .ok (.inr call)) : call.Bound db := by
  cases r with
  | bindRun i runId engine =>
    simp only [Read.run, bindRunRead, bind_ok, ensure_ok, pure_ok] at h
    obtain ⟨_, ⟨_, _, a, ha, _, hk, _, _, rfl⟩, hc⟩ := h
    cases hc
    have hmem : a.entry ∈ db.entries := List.mem_map_of_mem (List.mem_of_find?_eq_some (attemptOf_ok ha))
    have hid : a.attemptId = i := lookup_key (attemptOf_ok ha)
    exact ⟨a.entry, hmem, hid, hk⟩
  | reconcile i engine artifact actor =>
    simp only [Read.run, bind_ok, pure_ok] at h
    obtain ⟨_, _, hc⟩ := h
    cases hc
    trivial
  | observe caller request kept =>
    simp only [Read.run, bind_ok] at h
    obtain ⟨out, _, h⟩ := h
    cases out with
    | replayed row o =>
      rw [pure_ok] at h
      cases h
    | pending c =>
      rw [pure_ok] at h
      cases h
      trivial

/-- The registry, and what the calls still to be committed may write of it. -/
structure Sys.Registered (s : Sys) : Prop where
  db : State.Registered s.db
  calls : ∀ c ∈ s.calls, c.Bound s.db

theorem next_registered (host : Host) (hs : s.Registered) : (next host s op).Registered := by
  cases op with
  | request r =>
    cases h : r.run host s.db with
    | error e => simpa [next, stepOp, stepRequest, h] using hs
    | ok out =>
      obtain ⟨hdb, hk⟩ := Request.registered hs.db h
      refine ⟨by simpa [next, stepOp, stepRequest, h] using hdb, ?_⟩
      intro c hc
      simp only [next, stepOp, stepRequest, h, List.mem_append] at hc ⊢
      rcases hc with hc | hc
      · exact (hs.calls c hc).mono hk
      · unfold Request.followUp at hc
        split at hc
        · split at hc
          · rw [List.mem_singleton.mp hc]
            trivial
          · cases hc
        · cases hc
  | read r =>
    cases h : r.run host s.db with
    | error e => simpa [next, stepOp, stepRead, h] using hs
    | ok out =>
      cases out with
      | inl reply => simpa [next, stepOp, stepRead, h] using hs
      | inr call =>
        refine ⟨by simpa [next, stepOp, stepRead, h] using hs.db, ?_⟩
        intro c hc
        simp only [next, stepOp, stepRead, h, List.mem_append, List.mem_singleton] at hc ⊢
        rcases hc with hc | rfl
        · exact hs.calls c hc
        · exact Read.bound h
  | commit index now =>
    cases hc : s.calls[index]? with
    | none => simpa [next, stepOp, stepCommit, hc] using hs
    | some call =>
      have hb := hs.calls call (List.mem_of_getElem? hc)
      cases h : call.run host s.db now with
      | error e =>
        refine ⟨by simpa [next, stepOp, stepCommit, hc, h] using hs.db, ?_⟩
        intro c hm
        simp only [next, stepOp, stepCommit, hc, h] at hm ⊢
        exact hs.calls c (List.mem_of_mem_eraseIdx hm)
      | ok out =>
        obtain ⟨hdb, hk⟩ := Call.registered hs.db hb h
        refine ⟨by simpa [next, stepOp, stepCommit, hc, h] using hdb, ?_⟩
        intro c hm
        simp only [next, stepOp, stepCommit, hc, h] at hm ⊢
        exact (hs.calls c (List.mem_of_mem_eraseIdx hm)).mono hk

theorem run_registered (host : Host) (ops : List Op) (hs : s.Registered) : (run (next host) s ops).Registered := by
  induction ops generalizing s with
  | nil => exact hs
  | cons op ops ih => exact ih (next_registered host hs)

end Runs

end AItelier.State
