import AItelier.State.Registry
import AItelier.Refine.Registry
import AItelier.Proofs.Closure

namespace AItelier.State

open AItelier.Lib

variable {db : DB} {a : Attempt} {i : String} {o : ExternalOwner}

section Backfill
variable {updatedAt : String → Stamp} {acc : List ExternalOwner}

/-- What the loop of the backfill has collected. -/
structure Filling (db : DB) (acc : List ExternalOwner) : Prop where
  keyed : (acc.map ExternalOwner.attemptId).Nodup
  kept : db.owners.map ExternalOwner.attemptId ⊆ acc.map ExternalOwner.attemptId
  owners : ∀ o ∈ acc, ∃ s ∈ db.standings, s.attemptId = o.attemptId ∧ s.executionKind = .external ∧
    Agrees db.observations s o

theorem lookup_owner_none {owners : List ExternalOwner} :
    (lookup ExternalOwner.attemptId owners i).isSome = false ↔ i ∉ owners.map ExternalOwner.attemptId := by
  rw [Option.isSome_eq_false_iff, Option.isNone_iff_eq_none, lookup_eq_none]
  simp

/-- The row of the backfill agrees with its attempt: one that was abandoned without
an owner row has no late report yet. -/
theorem backfill_agrees (h : Older db) (ha : a ∈ db.attempts) (hk : a.executionKind = .external)
    (hno : a.attemptId ∉ db.owners.map ExternalOwner.attemptId) {harness externalId : String}
    (hh : a.harness = some harness) (he : a.externalId = some externalId) :
    Agrees db.observations a.standing ⟨a.attemptId, a.projectId, a.nodeKey, harness, externalId,
      backfillStatus a.status, backfillSettled a.status (updatedAt a.attemptId)⟩ := by
  have hs : a.standing ∈ db.standings := List.mem_map.mpr ⟨a, ha, rfl⟩
  have hlate : settledLate db.observations a.attemptId = false := h.unsettled a.standing hs hk hno
  refine ⟨rfl, rfl, hh, he, ?_, ?_⟩
  · change backfillStatus a.status = ownerStatusIn db.observations a.attemptId a.status
    cases a.status <;> simp [backfillStatus, ownerStatusIn, hlate]
  · change backfillStatus a.status = .settled → (backfillSettled a.status (updatedAt a.attemptId)).isSome
    cases a.status <;> simp [backfillStatus, backfillSettled]

theorem backfillOwner_filling (h : Older db) (ha : a ∈ db.attempts) (hf : Filling db acc) :
    Filling db (backfillOwner updatedAt acc a) ∧
      acc.map ExternalOwner.attemptId ⊆ (backfillOwner updatedAt acc a).map ExternalOwner.attemptId ∧
      (a.executionKind = .external → a.attemptId ∈ (backfillOwner updatedAt acc a).map ExternalOwner.attemptId) := by
  have hs : a.standing ∈ db.standings := List.mem_map.mpr ⟨a, ha, rfl⟩
  by_cases hk : a.executionKind = .external
  · obtain ⟨hh, he⟩ := (h.external _ hs hk).identity
    obtain ⟨harness, hh⟩ := Option.isSome_iff_exists.mp hh
    obtain ⟨externalId, he⟩ := Option.isSome_iff_exists.mp he
    have hh' : a.harness = some harness := hh
    have he' : a.externalId = some externalId := he
    unfold backfillOwner
    simp only [hk, hh', he']
    split_ifs with hfound
    · refine ⟨hf, List.Subset.refl _, fun _ => ?_⟩
      by_contra hno
      rw [lookup_owner_none.mpr hno] at hfound
      cases hfound
    · have hno := lookup_owner_none.mp (Bool.eq_false_iff.mpr hfound)
      refine ⟨⟨?_, ?_, ?_⟩, ?_, fun _ => by simp⟩
      · rw [List.map_append, List.nodup_append]
        refine ⟨hf.keyed, by simp, ?_⟩
        intro x hx y hy hxy
        rw [List.map_singleton, List.mem_singleton] at hy
        rw [hxy, hy] at hx
        exact hno hx
      · rw [List.map_append]
        exact fun x hx => List.mem_append_left _ (hf.kept hx)
      · intro o ho
        rcases List.mem_append.mp ho with ho | ho
        · exact hf.owners o ho
        · rw [List.mem_singleton.mp ho]
          exact ⟨a.standing, hs, rfl, hk, backfill_agrees h ha hk (fun hm => hno (hf.kept hm)) hh' he'⟩
      · rw [List.map_append]
        exact List.subset_append_left _ _
  · have hskip : backfillOwner updatedAt acc a = acc := by
      unfold backfillOwner
      split
      · next hext _ _ => exact absurd hext hk
      · rfl
    rw [hskip]
    exact ⟨hf, List.Subset.refl _, fun hext => absurd hext hk⟩

theorem backfill_filling (h : Older db) (rows : List Attempt) (hsub : rows ⊆ db.attempts) (hf : Filling db acc) :
    Filling db (rows.foldl (backfillOwner updatedAt) acc) ∧
      acc.map ExternalOwner.attemptId ⊆ (rows.foldl (backfillOwner updatedAt) acc).map ExternalOwner.attemptId ∧
      ∀ a ∈ rows, a.executionKind = .external →
        a.attemptId ∈ (rows.foldl (backfillOwner updatedAt) acc).map ExternalOwner.attemptId := by
  induction rows generalizing acc with
  | nil => exact ⟨hf, List.Subset.refl _, fun a ha => by cases ha⟩
  | cons b rows ih =>
    obtain ⟨hf', hgrow, hmem⟩ := @backfillOwner_filling db b updatedAt acc h (hsub (List.mem_cons_self ..)) hf
    obtain ⟨hend, hrest, hall⟩ := ih (fun x hx => hsub (List.mem_cons_of_mem b hx)) hf'
    refine ⟨hend, fun x hx => hrest (hgrow hx), ?_⟩
    intro a ha hk
    rcases List.mem_cons.mp ha with rfl | ha
    · exact hrest (hmem hk)
    · exact hall a ha hk

theorem initializeOwners_registered (h : Older db) : Registered (initializeOwners updatedAt db) := by
  have hstart : Filling db db.owners := ⟨h.keyed, List.Subset.refl _, h.owners⟩
  obtain ⟨hf, _, hall⟩ := @backfill_filling db updatedAt db.owners h db.attempts (List.Subset.refl _) hstart
  have hreg : ∀ s ∈ (initializeOwners updatedAt db).standings, s.executionKind = .external →
      s.attemptId ∈ (initializeOwners updatedAt db).owners.map ExternalOwner.attemptId := by
    intro s hs hk
    obtain ⟨a, ha, rfl⟩ := List.mem_map.mp hs
    exact hall a ha hk
  exact ⟨⟨h.distinct, hf.keyed, h.external, hf.owners, h.late, fun s hs hk hno => absurd (hreg s hs hk) hno⟩, hreg⟩

end Backfill

section Gate

/-- The external attempts whose worker nobody has reported or attested to be at
rest. -/
def mayBeLive (db : DB) (a : Attempt) : Bool :=
  decide (a.executionKind = .external) &&
    (decide (a.status = .running ∨ a.status = .paused ∨ a.status = .unknown) ||
      (decide (a.status = .abandoned ∧ a.abandonKind = some .unknown) && !settledLate db.observations a.attemptId))

theorem Older.attempt? (h : Older db) (ha : a ∈ db.attempts) : db.attempt? a.attemptId = some a :=
  lookup_of_mem h.distinct ha

theorem Registered.owner (h : Registered db) (ha : a ∈ db.attempts) (hk : a.executionKind = .external) :
    ∃ o ∈ db.owners, o.attemptId = a.attemptId ∧ Agrees db.observations a.standing o := by
  have hs : a.standing ∈ db.standings := List.mem_map.mpr ⟨a, ha, rfl⟩
  obtain ⟨o, ho, hi⟩ := List.mem_map.mp (h.registered _ hs hk)
  obtain ⟨s, hsm, hsi, _, hag⟩ := h.owners o ho
  have hsa : s = a.standing := h.standing_unique hsm hs (hsi.trans hi)
  rw [hsa] at hag
  exact ⟨o, ho, hi, hag⟩

/-- The gate holds a deployment on an owner row exactly where the worker may live. -/
theorem held_iff (h : Registered db) (ha : a ∈ db.attempts) (hk : a.executionKind = .external)
    (hi : o.attemptId = a.attemptId) (hag : Agrees db.observations a.standing o) :
    held db o = true ↔ mayBeLive db a = true := by
  have hrow : (db.attempt? o.attemptId).bind Attempt.abandonKind = a.abandonKind := by
    rw [hi, h.attempt? ha]
    rfl
  have hst : o.status = ownerStatusIn db.observations a.attemptId a.status := hag.status
  have hadm : a.status ≠ .reserved ∧ a.status ≠ .launching :=
    (h.external _ (List.mem_map.mpr ⟨a, ha, rfl⟩) hk).admitted
  simp only [held, mayBeLive, hrow, hst, hk]
  cases hs : a.status with
  | reserved => exact absurd hs hadm.1
  | launching => exact absurd hs hadm.2
  | abandoned => cases hl : settledLate db.observations a.attemptId <;> simp [ownerStatusIn, hl]
  | _ => simp [ownerStatusIn]

theorem externalRegistry_nodup (h : Registered db) : ((externalRegistry db).map RegistryRow.attemptId).Nodup := by
  have hperm : ((externalRegistry db).map RegistryRow.attemptId).Perm
      ((db.owners.filter (held db)).map ExternalOwner.attemptId) := by
    rw [externalRegistry, List.map_map]
    exact (List.perm_insertionSort _ _).map ExternalOwner.attemptId
  rw [hperm.nodup_iff]
  exact h.keyed.sublist ((List.filter_sublist).map _)

theorem mem_externalRegistry {x : RegistryRow} :
    x ∈ externalRegistry db ↔ ∃ o ∈ db.owners, held db o = true ∧ registryRow db o = x := by
  simp only [externalRegistry, List.mem_map, mem_orderRows, List.mem_filter, and_assoc]

/-- The registry has no quarrel with an active attempt. -/
theorem auditAttempt_clean (h : Registered db) (ha : a ∈ activeExternal db) :
    auditAttempt (externalRegistry db) a = ([], []) := by
  rw [activeExternal, mem_orderRows, List.mem_filter, decide_eq_true_eq] at ha
  obtain ⟨ha, hk, hactive⟩ := ha
  obtain ⟨o, ho, hi, hag⟩ := h.owner ha hk
  have hlive : mayBeLive db a = true := by simp [mayBeLive, hk, hactive]
  have hmem : registryRow db o ∈ externalRegistry db :=
    mem_externalRegistry.mpr ⟨o, ho, (held_iff h ha hk hi hag).mpr hlive, rfl⟩
  have hfound : lookup RegistryRow.attemptId (externalRegistry db) a.attemptId = some (registryRow db o) := by
    rw [← hi]
    exact lookup_of_mem (externalRegistry_nodup h) hmem
  have hstatus : (registryRow db o).status = expectedOwner a.status := by
    change o.status = _
    have hst : o.status = ownerStatusIn db.observations a.attemptId a.status := hag.status
    rw [hst]
    rcases hactive with hs | hs | hs <;> simp [hs, ownerStatusIn, expectedOwner]
  have hsame : mismatched (registryRow db o) a = [] := by
    have hp : o.projectId = a.projectId := hag.project
    have hn : o.nodeKey = a.nodeKey := hag.node
    have hh : a.harness = some o.harness := hag.harness
    have he : a.externalId = some o.externalId := hag.externalId
    simp [mismatched, registryRow, hp, hn, hh, he]
  unfold auditAttempt
  rw [hfound]
  simp [hstatus, hsame]

theorem dbRows_eq (h : Registered db) : dbRows db = (externalRegistry db, []) := by
  have hclean : ∀ x ∈ (activeExternal db).map (auditAttempt (externalRegistry db)), x = ([], []) := by
    intro x hx
    obtain ⟨a, ha, rfl⟩ := List.mem_map.mp hx
    exact auditAttempt_clean h ha
  have hrows : ((activeExternal db).map (auditAttempt (externalRegistry db))).flatMap Prod.fst = [] := by
    rw [List.flatMap_eq_nil_iff]
    intro x hx
    rw [hclean x hx]
  have herrors : ((activeExternal db).map (auditAttempt (externalRegistry db))).flatMap Prod.snd = [] := by
    rw [List.flatMap_eq_nil_iff]
    intro x hx
    rw [hclean x hx]
  simp only [dbRows, hrows, herrors, List.append_nil]

theorem mem_registered_ids (h : Registered db) :
    i ∈ (externalRegistry db).map RegistryRow.attemptId ↔ ∃ a ∈ db.attempts, a.attemptId = i ∧
    mayBeLive db a = true := by
  constructor
  · intro hi
    obtain ⟨x, hx, rfl⟩ := List.mem_map.mp hi
    obtain ⟨o, ho, hheld, rfl⟩ := mem_externalRegistry.mp hx
    obtain ⟨s, hs, hsi, hk, hag⟩ := h.owners o ho
    obtain ⟨a, ha, rfl⟩ := List.mem_map.mp hs
    exact ⟨a, ha, hsi, (held_iff h ha hk hsi.symm hag).mp hheld⟩
  · rintro ⟨a, ha, rfl, hlive⟩
    have hk : a.executionKind = .external := by
      simp only [mayBeLive, Bool.and_eq_true, decide_eq_true_eq] at hlive
      exact hlive.1
    obtain ⟨o, ho, hi, hag⟩ := h.owner ha hk
    have hheld := (held_iff h ha hk hi hag).mpr hlive
    exact List.mem_map.mpr ⟨registryRow db o, mem_externalRegistry.mpr ⟨o, ho, hheld, rfl⟩, hi⟩

end Gate

/-- What an attempt's status says of its owner row. -/
inductive OwnedAs (obs : List Observation) (a : Attempt) (o : ExternalOwner) : Prop
  | active (attempt : a.status = .running) (owner : o.status = .active)
  | paused (attempt : a.status = .paused) (owner : o.status = .paused)
  | unknown (attempt : a.status = .unknown) (owner : o.status = .unknown)
  | settled (attempt : a.status = .candidate ∨ a.status = .failed ∨ a.status = .superseded)
      (owner : o.status = .settled) (settledAt : o.settledAt.isSome)
  | abandoned (attempt : a.status = .abandoned) (unsettled : settledLate obs a.attemptId = false)
      (owner : o.status = .abandoned)
  | quiescent (attempt : a.status = .abandoned) (settled : settledLate obs a.attemptId = true)
      (owner : o.status = .settled)

theorem Agrees.ownedAs {obs : List Observation} (h : Agrees obs a.standing o) (hext : a.standing.External) :
    OwnedAs obs a o := by
  have hst : o.status = ownerStatusIn obs a.attemptId a.status := h.status
  have hadm : a.status ≠ .reserved ∧ a.status ≠ .launching := hext.admitted
  cases hs : a.status with
  | reserved => exact absurd hs hadm.1
  | launching => exact absurd hs hadm.2
  | running => exact .active hs (by rw [hst, hs]; rfl)
  | paused => exact .paused hs (by rw [hst, hs]; rfl)
  | unknown => exact .unknown hs (by rw [hst, hs]; rfl)
  | candidate =>
    have ho : o.status = .settled := by rw [hst, hs]; rfl
    exact .settled (.inl hs) ho (h.settled ho)
  | failed =>
    have ho : o.status = .settled := by rw [hst, hs]; rfl
    exact .settled (.inr (.inl hs)) ho (h.settled ho)
  | superseded =>
    have ho : o.status = .settled := by rw [hst, hs]; rfl
    exact .settled (.inr (.inr hs)) ho (h.settled ho)
  | abandoned =>
    cases hl : settledLate obs a.attemptId with
    | false => exact .abandoned hs hl (by rw [hst, hs]; simp [ownerStatusIn, hl])
    | true => exact .quiescent hs hl (by rw [hst, hs]; simp [ownerStatusIn, hl])

/-- The store after schema initialisation of an older database and a run on it. -/
def upgraded (host : Host) (updatedAt : String → Stamp) (db : DB) (ops : List Op) : DB :=
  (run (next host) ⟨initializeOwners updatedAt db, []⟩ ops).db

/-- Every external attempt has exactly one owner row, which its status determines,
and the deployment gate counts exactly the attempts whose worker may be live. -/
theorem owner_registry (host : Host) (updatedAt : String → Stamp) (hold : Older db) (ops : List Op) :
    (∀ a ∈ (upgraded host updatedAt db ops).attempts, a.executionKind = .external →
      ∃ o, (upgraded host updatedAt db ops).owners.filter (fun o => decide (o.attemptId = a.attemptId)) = [o] ∧
        OwnedAs (upgraded host updatedAt db ops).observations a o) ∧
    (dbRows (upgraded host updatedAt db ops)).2 = [] ∧
    ((dbRows (upgraded host updatedAt db ops)).1.map RegistryRow.attemptId).Nodup ∧
    ∀ i, i ∈ (dbRows (upgraded host updatedAt db ops)).1.map RegistryRow.attemptId ↔
      ∃ a ∈ (upgraded host updatedAt db ops).attempts, a.attemptId = i ∧
        mayBeLive (upgraded host updatedAt db ops) a = true := by
  have hstart : Sys.Registered ⟨initializeOwners updatedAt db, []⟩ :=
    ⟨initializeOwners_registered hold, fun c hc => by cases hc⟩
  have hr : Registered (upgraded host updatedAt db ops) := (run_registered host ops hstart).db
  refine ⟨?_, ?_, ?_, ?_⟩
  · intro a ha hk
    obtain ⟨o, ho, hi, hag⟩ := hr.owner ha hk
    refine ⟨o, ?_, hag.ownedAs (hr.external _ (List.mem_map.mpr ⟨a, ha, rfl⟩) hk)⟩
    rw [← hi]
    exact filter_of_mem hr.keyed ho
  · rw [dbRows_eq hr]
  · rw [dbRows_eq hr]
    exact externalRegistry_nodup hr
  · intro i
    rw [dbRows_eq hr]
    exact mem_registered_ids hr

/-- An external attempt of a database that had no owner registry yet. -/
def legacyAttempt (i : String) (status : AttemptStatus) (kind : Option AbandonKind) : Attempt where
  attemptId := i
  projectId := "p"
  nodeKey := i
  nodeRevision := 1
  contractHash := ""
  dependencySnapshot := []
  context := ⟨"p", i, 1, "goal", [], "", [], "", none, none, none, none, none, none, none, none,
    some ⟨"codex", i, "owner"⟩, none, none⟩
  requestKey := "r"
  requestHash := ""
  workflow := none
  executionProjectId := none
  runId := none
  graphVersion := none
  graphDigest := none
  status := status
  artifactRef := none
  error := none
  executionKind := .external
  harness := some "codex"
  externalId := some i
  reportingActor := some "owner"
  observationVersion := 0
  artifactKind := none
  terminalObservationId := none
  abandonKind := kind
  ownerDriverId := none
  ownerFence := 0
  leaseExpiresAt := none
  lastHeartbeatAt := none

def legacy : DB :=
  { DB.empty with attempts := [legacyAttempt "a" .running none, legacyAttempt "b" .candidate none,
    legacyAttempt "c" .abandoned (some .unknown)] }

theorem legacy_older : Older legacy where
  distinct := by decide
  keyed := List.nodup_nil
  external := by
    intro s hs _
    simp only [legacy, DB.standings, List.map_cons, List.map_nil, List.mem_cons, List.not_mem_nil, or_false] at hs
    rcases hs with rfl | rfl | rfl <;> exact ⟨by decide, rfl, by decide, by decide⟩
  owners := fun o ho => by cases ho
  late := fun o ho => by cases ho
  unsettled := fun s _ _ _ => rfl

/-- An upgraded database registers the worker it was running, and the gate counts it
and the one that nobody saw stop. -/
theorem owner_registry_legacy :
    (∃ o, (upgraded Sample.machine (fun _ => 0) legacy []).owners.filter (fun o => decide (o.attemptId = "a")) = [o] ∧
      OwnedAs (upgraded Sample.machine (fun _ => 0) legacy []).observations (legacyAttempt "a" .running none) o) ∧
    "a" ∈ (dbRows (upgraded Sample.machine (fun _ => 0) legacy [])).1.map RegistryRow.attemptId ∧
    "c" ∈ (dbRows (upgraded Sample.machine (fun _ => 0) legacy [])).1.map RegistryRow.attemptId := by
  obtain ⟨hrows, _, _, hgate⟩ := owner_registry Sample.machine (fun _ => 0) legacy_older []
  refine ⟨hrows (legacyAttempt "a" .running none) (List.mem_cons_self ..) rfl, (hgate "a").mpr ?_, (hgate "c").mpr ?_⟩
  · exact ⟨legacyAttempt "a" .running none, List.mem_cons_self .., rfl, rfl⟩
  · exact ⟨legacyAttempt "c" .abandoned (some .unknown), by simp [upgraded, initializeOwners, legacy], rfl, rfl⟩

end AItelier.State
