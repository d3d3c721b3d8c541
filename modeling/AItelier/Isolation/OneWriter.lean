import AItelier.Isolation.Checkouts

namespace AItelier.Isolation

open AItelier.Lib

variable {db db' : DB} {canonical runId configName now owner kind detail : String}

/-- A checkout is one run's, or is written by writers that stand each other. -/
structure OneWriter (db : DB) : Prop where
  single : (db.leases.map Lease.canonicalCheckout).Nodup
  apart : ∀ l ∈ db.leases, ∀ a ∈ db.admissions, a.canonicalCheckout ≠ l.canonicalCheckout
  alone : ∀ a ∈ db.admissions, a.kind = codingWorkspace →
    db.admissions.filter (fun b => decide (b.canonicalCheckout = a.canonicalCheckout)) = [a]

theorem oneWriter_empty : OneWriter .empty where
  single := List.nodup_nil
  apart := by intro l h; cases h
  alone := by intro a h; cases h

section Admissions

theorem OneWriter.admit {row : Admission} (h : OneWriter db)
    (ha : admitWriteUnderFence db canonical now owner kind detail = .ok (row, db')) : OneWriter db' := by
  unfold admitWriteUnderFence at ha
  split at ha
  case h_1 => cases ha
  case h_2 hfree =>
    split at ha
    case h_1 => cases ha
    case h_2 hnone =>
      obtain ⟨rfl, rfl⟩ := Prod.mk.inj (Except.ok.inj ha)
      have hclash : ∀ a ∈ db.admissions, a.canonicalCheckout = canonical →
          kind ≠ codingWorkspace ∧ a.kind ≠ codingWorkspace := by
        intro a hmem hc
        have hnot := List.find?_eq_none.mp hnone a hmem
        rw [decide_eq_true_iff] at hnot
        exact ⟨fun hk => hnot ⟨hc, .inl hk⟩, fun hk => hnot ⟨hc, .inr hk⟩⟩
      refine ⟨h.single, ?_, ?_⟩
      · intro l hl a hmem
        rcases List.mem_append.mp hmem with hmem | hmem
        · exact h.apart l hl a hmem
        · rw [List.mem_singleton.mp hmem]
          exact fun he => lookup_eq_none.mp hfree l hl he.symm
      · intro a hmem hk
        dsimp only
        rw [List.filter_append]
        rcases List.mem_append.mp hmem with hmem | hmem
        · have hother : canonical ≠ a.canonicalCheckout := fun hc => (hclash a hmem hc.symm).2 hk
          rw [h.alone a hmem hk, List.filter_cons_of_neg (by simpa using hother)]
          rfl
        · rw [List.mem_singleton.mp hmem] at hk ⊢
          have hnobody : db.admissions.filter (fun b => decide (b.canonicalCheckout = canonical)) = [] := by
            rw [List.filter_eq_nil_iff]
            intro b hb hc
            exact (hclash b hb (of_decide_eq_true hc)).1 hk
          dsimp only
          rw [hnobody, List.filter_cons_of_pos (by simp)]
          rfl

theorem OneWriter.deleteAdmission (h : OneWriter db) (i : Nat) : OneWriter (deleteAdmission db i) where
  single := h.single
  apart := fun l hl a ha => h.apart l hl a (List.mem_filter.mp ha).1
  alone := by
    intro a ha hk
    obtain ⟨hmem, hid⟩ := List.mem_filter.mp ha
    rw [Isolation.deleteAdmission, List.filter_comm, h.alone a hmem hk]
    exact List.filter_eq_self.mpr (fun b hb => List.mem_singleton.mp hb ▸ hid)

theorem OneWriter.retire (h : OneWriter db) (i : Nat) : OneWriter (retireWrite db i) := by
  unfold retireWrite
  split
  · exact h
  · exact h.deleteAdmission i

/-- Rows may be rewritten where they stand. -/
theorem OneWriter.modify (h : OneWriter db) (p : Admission → Bool) {f : Admission → Admission}
    (hplace : ∀ a, (f a).canonicalCheckout = a.canonicalCheckout) (hkind : ∀ a, (f a).kind = a.kind) :
    OneWriter { db with admissions := modifyWhere p f db.admissions } := by
  have hrow : ∀ b : Admission, (if p b = true then f b else b).canonicalCheckout = b.canonicalCheckout ∧
      (if p b = true then f b else b).kind = b.kind := by
    intro b
    split_ifs
    · exact ⟨hplace b, hkind b⟩
    · exact ⟨rfl, rfl⟩
  refine ⟨h.single, ?_, ?_⟩
  · intro l hl a ha
    obtain ⟨b, hb, rfl⟩ := mem_modifyWhere.mp ha
    rw [(hrow b).1]
    exact h.apart l hl b hb
  · intro a ha hk
    obtain ⟨b, hb, rfl⟩ := mem_modifyWhere.mp ha
    rw [(hrow b).2] at hk
    dsimp only
    rw [(hrow b).1, filter_modifyWhere (fun a => by rw [hplace a]), h.alone b hb hk]
    rfl

theorem OneWriter.markPending (h : OneWriter db) (i : Nat) (evidence : String) :
    OneWriter (markWriteAdmissionPending db i evidence) := by
  unfold markWriteAdmissionPending
  split
  · exact h
  · exact h.modify _ (fun _ => rfl) (fun _ => rfl)

end Admissions

section Leases

theorem nodup_replace {α κ : Type*} [DecidableEq κ] {key : α → κ} {t : List α} (h : (t.map key).Nodup) (r : α) :
    ((replace key t r).map key).Nodup := by
  rw [replace, List.map_append, List.map_singleton, List.nodup_append]
  refine ⟨h.sublist (List.filter_sublist.map key), List.nodup_singleton _, ?_⟩
  intro k hk k' hk'
  obtain ⟨q, hq, rfl⟩ := List.mem_map.mp hk
  rw [List.mem_singleton.mp hk']
  exact of_decide_eq_true (List.mem_filter.mp hq).2

theorem OneWriter.acquire (h : OneWriter db) (ha : acquireLease db canonical runId configName now = .ok db') :
    OneWriter db' := by
  unfold acquireLease at ha
  dsimp only at ha
  split at ha
  case h_1 => cases ha
  case h_2 hquiet =>
    have hnone : ∀ a ∈ db.admissions, a.canonicalCheckout ≠ canonical := by
      intro a hmem hc
      exact List.filter_eq_nil_iff.mp hquiet a hmem (decide_eq_true hc)
    have hinsert : ∀ acquiredAt, OneWriter { db with
        leases := replace Lease.canonicalCheckout db.leases ⟨canonical, runId, configName, acquiredAt⟩ } := by
      intro acquiredAt
      refine ⟨nodup_replace h.single _, ?_, h.alone⟩
      intro l hl a hmem
      rcases List.mem_append.mp hl with hl | hl
      · exact h.apart l (List.mem_filter.mp hl).1 a hmem
      · rw [List.mem_singleton.mp hl]
        exact hnone a hmem
    split at ha
    case h_1 => exact Except.ok.inj ha ▸ hinsert _
    case h_2 =>
      split_ifs at ha
      exact Except.ok.inj ha ▸ hinsert _

theorem OneWriter.release (h : OneWriter db) (disposition : String) : OneWriter (release db runId now disposition) where
  single := h.single.sublist (List.filter_sublist.map _)
  apart := fun l hl => h.apart l (List.mem_filter.mp hl).1
  alone := h.alone

end Leases

/-- Every effect of every call keeps it. -/
theorem OneWriter.act (h : OneWriter db) (phase : Phase) (a : Action) : OneWriter (act db phase a).1 := by
  cases a with
  | call c w =>
    cases c with
    | admitWrite path kind detail =>
      simp only [Isolation.act, firstEffect]
      split
      case h_1 hok => exact h.admit hok
      case h_2 => exact h
    | retireWrite i => exact h.retire i
    | markWriteAdmissionPending i evidence => exact h.markPending i evidence
    | release runId disposition => exact h.release disposition
    | clearWriteAdmission i evidence => exact h
    | ensureForRun q => exact h
    | reconcileRunLease runId => exact h
  | next w =>
    cases phase with
    | clearing i row => exact h.deleteAdmission i
    | leasing canonical row fresh =>
      simp only [Isolation.act, nextEffect]
      split
      case h_1 hok => exact h.acquire hok
      case h_2 => exact h
    | writing row => exact ⟨h.single, h.apart, h.alone⟩
    | releasing runId checkout status => exact h.release autoReleased
    | ended reply => exact h
    | asking runId checkout => exact h
    | auditing runId checkout status => exact h

theorem oneWriter_after (es : List (Nat × Action)) : OneWriter (after es).shared :=
  Callers.shared_invariant (fun _ phase a h => h.act phase a) oneWriter_empty es

section Endings

/-- The run of `l` holds the checkout of `l`. -/
def Holds (l : Lease) (db : DB) : Prop :=
  ∃ l' ∈ db.leases, l'.canonicalCheckout = l.canonicalCheckout ∧ l'.runId = l.runId

theorem holds_of_mem {l : Lease} (hl : l ∈ db.leases) : Holds l db := ⟨l, hl, rfl, rfl⟩

/-- Taking a lease takes nobody's. -/
theorem Holds.acquire {l : Lease} (h : OneWriter db) (hl : l ∈ db.leases)
    (ha : acquireLease db canonical runId configName now = .ok db') : Holds l db' := by
  unfold acquireLease at ha
  dsimp only at ha
  split at ha
  case h_1 => cases ha
  case h_2 =>
    have hkeep : ∀ acquiredAt, l.canonicalCheckout ≠ canonical → Holds l { db with
        leases := replace Lease.canonicalCheckout db.leases ⟨canonical, runId, configName, acquiredAt⟩ } := by
      intro acquiredAt hne
      exact holds_of_mem (List.mem_append_left _ (List.mem_filter.mpr ⟨hl, decide_eq_true hne⟩))
    split at ha
    case h_1 hnone => exact Except.ok.inj ha ▸ hkeep _ (lookup_eq_none.mp hnone l hl)
    case h_2 row hrow =>
      split_ifs at ha with hrun
      rw [← Except.ok.inj ha]
      by_cases hc : l.canonicalCheckout = canonical
      · have hsame : row = l := by
          have hfound := lookup_of_mem h.single hl
          rw [hc] at hfound
          exact Option.some.inj (hrow.symm.trans hfound)
        rw [hsame] at hrun
        exact ⟨_, List.mem_append_right _ (List.mem_singleton.mpr rfl), hc.symm, hrun.symm⟩
      · exact hkeep _ hc

/-- Releasing a run takes only that run's. -/
theorem Holds.release {l : Lease} (hl : l ∈ db.leases) {disposition : String} (hne : l.runId ≠ runId) :
    Holds l (release db runId now disposition) :=
  holds_of_mem (List.mem_filter.mpr ⟨hl, decide_eq_true hne⟩)

/-- The one effect that takes the lease of a run: its release, or the end of its
reconciliation. -/
def Releases (phase : Phase) (runId : String) : Action → Prop
  | .call (.release r _) _ => r = runId
  | .next _ => ∃ checkout status, phase = .releasing runId checkout status
  | _ => False

theorem holds_or_releases {l : Lease} (h : OneWriter db) (hl : l ∈ db.leases) (phase : Phase) (a : Action) :
    Holds l (act db phase a).1 ∨ Releases phase l.runId a := by
  have hsame : ∀ {db'' : DB}, db''.leases = db.leases → Holds l db'' := fun he => holds_of_mem (he ▸ hl)
  cases a with
  | call c w =>
    cases c with
    | admitWrite path kind detail =>
      left
      simp only [act, firstEffect, admitWriteUnderFence]
      split
      case h_1 hok =>
        split at hok
        case h_1 => cases hok
        case h_2 =>
          split at hok
          case h_1 => cases hok
          case h_2 => exact hsame (by rw [← (Prod.mk.inj (Except.ok.inj hok)).2])
      case h_2 => exact holds_of_mem hl
    | retireWrite i =>
      left
      apply hsame
      simp only [act, firstEffect, retireWrite, deleteAdmission]
      split <;> rfl
    | markWriteAdmissionPending i evidence =>
      left
      apply hsame
      simp only [act, firstEffect, markWriteAdmissionPending]
      split <;> rfl
    | release runId disposition =>
      by_cases hr : l.runId = runId
      · exact .inr hr.symm
      · exact .inl (Holds.release hl hr)
    | clearWriteAdmission i evidence => exact .inl (holds_of_mem hl)
    | ensureForRun q => exact .inl (holds_of_mem hl)
    | reconcileRunLease runId => exact .inl (holds_of_mem hl)
  | next w =>
    cases phase with
    | leasing canonical row fresh =>
      left
      simp only [act, nextEffect]
      split
      case h_1 hok => exact Holds.acquire h hl hok
      case h_2 => exact holds_of_mem hl
    | releasing runId checkout status =>
      by_cases hr : l.runId = runId
      · exact .inr ⟨checkout, status, by rw [hr]⟩
      · exact .inl (Holds.release hl hr)
    | clearing i row => exact .inl (holds_of_mem hl)
    | writing row => exact .inl (holds_of_mem hl)
    | ended reply => exact .inl (holds_of_mem hl)
    | asking runId checkout => exact .inl (holds_of_mem hl)
    | auditing runId checkout status => exact .inl (holds_of_mem hl)

end Endings

section Reports

/-- The engine told the process that the run had ended. -/
def Ended (runId : String) (w : Outside) : Prop :=
  ∃ status, w.getRun runId = .ok (some status) ∧ status.getD "" ∈ terminalRunStatuses

/-- And that no operation of it was lost, unknown or alive. -/
def Quiet (runId : String) (w : Outside) : Prop := ∃ audit, w.auditOperationOwners runId = .ok audit ∧ audit.quiet

/-- What a phase tells of what its process did. -/
def Traced : Phase → List Action → Prop
  | .asking runId _, log => ∃ before w, log = before ++ [.call (.reconcileRunLease runId) w]
  | .auditing runId _ _, log => ∃ before w w', log = before ++ [.call (.reconcileRunLease runId) w, .next w'] ∧
      Ended runId w'
  | .releasing runId _ _, log =>
    ∃ before w w' w'', log = before ++ [.call (.reconcileRunLease runId) w, .next w', .next w''] ∧
      Ended runId w' ∧ Quiet runId w''
  | _, _ => True

theorem traced_firstEffect (db : DB) (c : Call) (w : Outside) (log : List Action) :
    Traced (firstEffect db w c).2 (log ++ [.call c w]) := by
  cases c with
  | admitWrite path kind detail =>
    simp only [firstEffect]
    split
    · trivial
    · trivial
  | clearWriteAdmission i evidence =>
    simp only [firstEffect, clearWriteAdmission]
    split
    · trivial
    · trivial
  | ensureForRun q =>
    have hprovisioned : ∀ x, Traced (provisioned x) (log ++ [.call (.ensureForRun q) w]) := by
      intro x
      cases x with
      | ok row => trivial
      | error e => trivial
    simp only [firstEffect, ensureForRun]
    split
    · unfold resumeExisting
      split_ifs <;> trivial
    · unfold provisionForRun provisionWorktree
      dsimp only
      split_ifs
      all_goals first | exact hprovisioned _ | trivial
  | reconcileRunLease runId =>
    simp only [firstEffect, reconcileRunLease]
    split
    · trivial
    · exact ⟨log, w, rfl⟩
  | retireWrite i => trivial
  | markWriteAdmissionPending i evidence => trivial
  | release runId disposition => trivial

theorem traced_nextEffect (db : DB) {phase : Phase} (w : Outside) {log : List Action} (h : Traced phase log) :
    Traced (nextEffect db w phase).2 (log ++ [.next w]) := by
  cases phase with
  | leasing canonical row fresh =>
    simp only [nextEffect]
    split
    · dsimp only
      split_ifs <;> trivial
    · trivial
  | asking runId checkout =>
    obtain ⟨before, w₀, rfl⟩ := h
    simp only [nextEffect]
    cases hrun : w.getRun runId with
    | error e => trivial
    | ok row =>
      cases row with
      | none => trivial
      | some status =>
        simp only [askRun]
        split_ifs with hterminal
        · exact ⟨before, w₀, w, by rw [List.append_assoc]; rfl, status, hrun, hterminal⟩
        · trivial
  | auditing runId checkout status =>
    obtain ⟨before, w₀, w₁, rfl, hended⟩ := h
    simp only [nextEffect]
    cases haudit : w.auditOperationOwners runId with
    | error e => trivial
    | ok audit =>
      simp only [askOwners]
      split_ifs with hnone
      · exact ⟨before, w₀, w₁, w, by rw [List.append_assoc]; rfl, hended, audit, haudit, Audit.quiet_iff.mpr hnone⟩
      · trivial
  | ended reply => trivial
  | clearing i row => trivial
  | writing row => trivial
  | releasing runId checkout status => trivial

theorem traced_after (es : List (Nat × Action)) (p : Nat) : Traced ((after es).phase p) (Callers.own p es) := by
  apply Callers.phase_traced
  · intro db phase a log h
    cases a with
    | call c w => exact traced_firstEffect db c w log
    | next w => exact traced_nextEffect db w h
  · intro p
    trivial

end Reports

/-- What may take the lease of a run: somebody's release of it, or the end of a
reconciliation that the engine told, one answer after the other, that the run was
over and that no operation of it was left. -/
def MayRelease (es : List (Nat × Action)) (runId : String) : Nat × Action → Prop
  | (_, .call (.release r _) _) => r = runId
  | (p, .next _) => ∃ before w w' w'',
      Callers.own p es = before ++ [.call (.reconcileRunLease runId) w, .next w', .next w''] ∧
        Ended runId w' ∧ Quiet runId w''
  | _ => False

/-- One writer per checkout, at every moment of every interleaving. -/
theorem one_writer (es : List (Nat × Action)) :
    (∀ l ∈ (after es).shared.leases, ∀ l' ∈ (after es).shared.leases,
        l'.canonicalCheckout = l.canonicalCheckout → l' = l) ∧
      (∀ l ∈ (after es).shared.leases, ∀ a ∈ (after es).shared.admissions,
        a.canonicalCheckout ≠ l.canonicalCheckout) ∧
      (∀ a ∈ (after es).shared.admissions, a.kind = codingWorkspace →
        (after es).shared.admissions.filter (fun b => decide (b.canonicalCheckout = a.canonicalCheckout)) = [a] ∧
          (after es).shared.lease? a.canonicalCheckout = none) ∧
      ∀ l ∈ (after es).shared.leases, ∀ e, ¬ Holds l (after (es ++ [e])).shared → MayRelease es l.runId e := by
  have hone := oneWriter_after es
  refine ⟨?_, hone.apart, ?_, ?_⟩
  · intro l hl l' hl' hc
    exact List.inj_on_of_nodup_map hone.single hl' hl hc
  · intro a ha hk
    refine ⟨hone.alone a ha hk, lookup_eq_none.mpr ?_⟩
    intro l hl hc
    exact hone.apart l hl a ha hc.symm
  · intro l hl e hlost
    obtain ⟨p, a⟩ := e
    have hnext : (after (es ++ [(p, a)])).shared = (act (after es).shared ((after es).phase p) a).1 := by
      rw [after, run_append]
      rfl
    rw [hnext] at hlost
    have hreleases := (holds_or_releases hone hl ((after es).phase p) a).resolve_left hlost
    cases a with
    | call c w =>
      cases c with
      | release r disposition => exact hreleases
      | _ => exact hreleases.elim
    | next w =>
      obtain ⟨checkout, status, hphase⟩ := hreleases
      have htrace := traced_after es p
      rw [hphase] at htrace
      exact htrace

end AItelier.Isolation
