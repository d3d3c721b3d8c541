import AItelier.Refine.Frame
import AItelier.Refine.Graph

namespace AItelier.State

open AItelier.Lib AItelier.Ledger

variable {D : Discipline} {db db' : DB} {host : Host} {i : String} {a : Attempt} {n : Node}

theorem Refines.of_body (h : db'.body = db.body) : Refines D db db' := Refines.of_core (core_of_body h)

theorem attemptOf_ok (h : attemptOf db i = .ok a) : db.attempt? i = some a := by
  simp only [attemptOf, bind_ok, orElse_ok] at h
  obtain ⟨_, _, h⟩ := h
  exact h

section Pins

/-- `_pins_current` is the ledger's notion. -/
theorem pinsMatch_iff (hn : db.node? a.node = some n) :
    pinsMatch db n a = true ↔ PinsCurrent (ledger db) a.toTry n.fact := by
  have hfact := ledger_fact hn
  have hsnap := ledger_snapshot db a.node
  simp only [pinsMatch, Bool.and_eq_true, decide_eq_true_eq, List.all_eq_true]
  constructor
  · rintro ⟨⟨h1, h2, h3⟩, h4, h5⟩
    refine ⟨hfact, h1, h2, h3, hsnap.trans h4, ?_⟩
    rw [h4] at h5
    exact h5
  · intro h
    have h4 : dependencySnapshot db a.node = a.dependencySnapshot := hsnap.symm.trans h.snapshot
    refine ⟨⟨h.revision, h.contractHash, h.open_⟩, h4, ?_⟩
    rw [h4]
    exact h.accepted

theorem pinsCurrent_ok {b : Bool} (h : pinsCurrent db a = .ok b) :
    ∃ n, db.node? a.node = some n ∧ b = pinsMatch db n a := by
  simp only [pinsCurrent, bind_ok, pure_ok] at h
  obtain ⟨n, hn, rfl⟩ := h
  exact ⟨n, nodeOf_ok hn, rfl⟩

theorem fresh_iff (hn : db.node? a.node = some n) :
    Fresh (ledger db) a.toTry ↔ pinsMatch db n a = true := by
  rw [pinsMatch_iff hn]
  constructor
  · rintro ⟨f, hf⟩
    have he := hf.fact.symm.trans (ledger_fact hn)
    cases he
    exact hf
  · intro h
    exact ⟨n.fact, h⟩

theorem pinsMatch_open (h : pinsMatch db n a = true) : n.status ≠ .SUPERSEDED := by
  simp only [pinsMatch, Bool.and_eq_true, decide_eq_true_eq] at h
  exact h.1.2.2

end Pins

section Moves

/-- An attempt that is still active may take any status but go back to `reserved`. -/
theorem move_active {L : Ledger} {t t' : Try} (ha : t.status.active = true) (hn : t'.node = t.node)
    (hr : t'.revision = t.revision) (hc : t'.contractHash = t.contractHash) (hp : t'.pins = t.pins)
    (hs : t'.status = .reserved → t.status = .reserved) (hart : t'.artifact = t.artifact)
    (hrun : t'.run = t.run ∨ (t.run = none ∧ ∃ r, t'.run = some r ∧ ∀ j u, L.tries j = some u → u.run ≠ some r))
    (ho : (t'.owner = t.owner ∧ t.fence ≤ t'.fence) ∨ t.fence < t'.fence) : Move D L i t t' := by
  have hnc : t.status ≠ .candidate := by
    intro h
    rw [h] at ha
    cases ha
  refine ⟨hn, hr, hc, hp, fun _ => ha, ?_, hs, .inl hart, hrun, ho, ?_, ?_, ?_⟩
  · intro h
    rw [h] at ha
    cases ha
  · intro h
    exact absurd h hnc
  · intro _ h
    exact absurd hart h
  · intro _ h
    exact absurd h hnc

theorem setAttempt_refines {f : Attempt → Attempt} (h : db.attempt? i = some a)
    (hf : ∀ x, (f x).attemptId = x.attemptId) (hn : ∀ x, (f x).node = x.node)
    (hm : Move D (ledger db) i a.toTry (f a).toTry) : Refines D db (db.setAttempt i f) := by
  refine Refines.of_step ?_
  rw [ledger_setAttempt h hf hn]
  exact .move i a.toTry _ (ledger_try h) hm

theorem setStatus_refines {f : Attempt → Attempt} (h : db.attempt? i = some a)
    (hf : ∀ x, (f x).attemptId = x.attemptId) (ht : (f a).toTry = { a.toTry with status := (f a).status })
    (hn : ∀ x, (f x).node = x.node) (ha : a.status.active = true)
    (hs : (f a).status = .reserved → a.status = .reserved) : Refines D db (db.setAttempt i f) := by
  refine setAttempt_refines h hf hn ?_
  rw [ht]
  exact move_active ha rfl rfl rfl rfl hs rfl (.inl rfl) (.inl ⟨rfl, Nat.le_refl _⟩)

end Moves

section Admission
variable {caller : Caller} {r : ReserveRequest} {row : Attempt} {claim : Option Claim}

theorem ledger_append (hfresh : db.attempt? row.attemptId = none) :
    ledger { db with attempts := db.attempts ++ [row] } = (ledger db).admission row.attemptId row.toTry := by
  have htries : (ledger { db with attempts := db.attempts ++ [row] }).tries =
      Function.update (ledger db).tries row.attemptId (some row.toTry) := by
    funext j
    simp only [ledger, DB.attempt?, lookup_append, lookup_singleton]
    by_cases he : j = row.attemptId
    · subst he
      rw [DB.attempt?] at hfresh
      simp [hfresh]
    · have hne : ¬ row.attemptId = j := fun h => he h.symm
      simp [he, hne]
  have hlatest : (ledger { db with attempts := db.attempts ++ [row] }).latest =
      Function.update (ledger db).latest row.node (some row.attemptId) := by
    funext k
    simp only [ledger, DB.latestAttempt, latest_append_singleton, decide_eq_true_eq]
    by_cases he : k = row.node
    · subst he
      simp
    · have hne : ¬ row.node = k := fun h => he h.symm
      simp [he, hne]
  have heq : ledger { db with attempts := db.attempts ++ [row] } =
      { ledger db with
        tries := (ledger { db with attempts := db.attempts ++ [row] }).tries
        order := (ledger { db with attempts := db.attempts ++ [row] }).order
        latest := (ledger { db with attempts := db.attempts ++ [row] }).latest } := rfl
  have horder : (ledger { db with attempts := db.attempts ++ [row] }).order =
      (ledger db).order ++ [row.attemptId] := by
    simp [ledger]
  rw [heq, htries, hlatest, horder]
  rfl

theorem admit_core (breakGlass : Bool) : (writeAdmission db r row claim breakGlass).core =
    ({ db with attempts := db.attempts ++ [row] }.setNode r.node (fun n => { n with status := .OPEN })).core := by
  unfold writeAdmission
  cases claim <;> cases r.external <;> cases row.context.priorCandidate <;> rfl

theorem attemptClash_false (h : attemptClash db row = false) :
    (∀ x ∈ db.attempts, x.attemptId ≠ row.attemptId) ∧
    (row.status.active = true → ∀ x ∈ db.attempts, x.node = row.node → x.status.active = false) := by
  simp only [attemptClash, List.any_eq_false, Bool.or_eq_true, Bool.and_eq_true, decide_eq_true_eq, not_or,
    not_and, Bool.not_eq_true] at h
  refine ⟨fun x hx => (h x hx).1.1.1.1, ?_⟩
  intro hr x hx hn
  cases hxa : x.status.active with
  | false => rfl
  | true =>
    have hno := (h x hx).1.2 ⟨hn, hxa⟩
    rw [hr] at hno
    cases hno

/-- What an admission was granted on, and what it wrote. -/
structure Admission (host : Host) (db : DB) (caller : Caller) (r : ReserveRequest) (row : Attempt) (node : Node)
    (claim : Option Claim) (breakGlass : Bool) (db' : DB) : Prop where
  dispatch : requireDispatch db r.node = .ok ()
  revision : (node.revision : Int) = r.expectedRevision
  unverified : node.status ≠ .VERIFIED
  open_ : node.status ≠ .SUPERSEDED
  accepted : (dependencySnapshot db r.node).all SnapshotRow.accepted = true
  claimed : dispatchClaim host db r.node caller r.claimId r.fence r.claimNow
    (r.external.isSome && decide (node.status = .CANDIDATE)) = .ok (claim, breakGlass)
  separate : enforced db r.projectId = true →
    afterUnknownAbandon db r.node claim r.baseSha caller.isAdmin = .ok ()
  made : ∃ context, row = admittedAttempt host caller r node (dependencySnapshot db r.node) context
  unclashed : attemptClash db row = false
  written : db' = writeAdmission db r row claim breakGlass

theorem insertAttempt_ok {breakGlass : Bool} (h : insertAttempt db r row claim breakGlass = .ok db') :
    attemptClash db row = false ∧ db' = writeAdmission db r row claim breakGlass := by
  simp only [insertAttempt, bind_ok, ensure_ok, pure_ok] at h
  obtain ⟨_, h1, _, _, rfl⟩ := h
  exact ⟨h1, rfl⟩

variable {preflight : Preflight} {out : Reserved}

/-- A new request key is admitted, or only checked. -/
theorem admitNew_ok {node : Node}
    (h : admitNew host db caller r preflight node = .ok (out, db')) :
    db' = db ∧ (∃ source, out = .source source) ∨
    ∃ row claim breakGlass, out = .attempt row ∧ Admission host db caller r row node claim breakGlass db' := by
  simp only [admitNew, bind_ok, ensure_ok, whenever_ok] at h
  obtain ⟨_, hdisp, _, ⟨hrev, hver, hsup⟩, _, hacc, ⟨claim, breakGlass⟩, hclaim, _, hsep, relay, _, h⟩ := h
  cases preflight with
  | check =>
    simp only [bind_ok, pure_ok, Prod.mk.injEq] at h
    obtain ⟨source, _, rfl, rfl⟩ := h
    exact .inl ⟨rfl, source, rfl⟩
  | entering seen =>
    simp only [bind_ok, pure_ok, Prod.mk.injEq] at h
    obtain ⟨_, _, _, _, db₁, hins, rfl, rfl⟩ := h
    obtain ⟨hclash, hw⟩ := insertAttempt_ok hins
    exact .inr ⟨_, claim, breakGlass, rfl, hdisp, hrev, hver, hsup, hacc, hclaim, hsep, ⟨_, rfl⟩, hclash, hw⟩
  | none =>
    simp only [bind_ok, pure_ok, Prod.mk.injEq] at h
    obtain ⟨db₁, hins, rfl, rfl⟩ := h
    obtain ⟨hclash, hw⟩ := insertAttempt_ok hins
    exact .inr ⟨_, claim, breakGlass, rfl, hdisp, hrev, hver, hsup, hacc, hclaim, hsep, ⟨_, rfl⟩, hclash, hw⟩

theorem admission_refines {node : Node} {breakGlass : Bool} (hn : db.node? r.node = some node)
    (h : Admission host db caller r row node claim breakGlass db') : Refines D db db' := by
  obtain ⟨context, hrow⟩ := h.made
  have hnode : row.node = r.node := by rw [hrow]; rfl
  have hact : row.status.active = true := by
    rw [hrow, admittedAttempt]
    cases r.external <;> rfl
  obtain ⟨hids, halone⟩ := attemptClash_false h.unclashed
  have hfresh : db.attempt? row.attemptId = none := lookup_eq_none.mpr hids
  have hn' : ({ db with attempts := db.attempts ++ [row] } : DB).node? r.node = some node := hn
  have hadm : Admits (ledger db) row.attemptId row.toTry node.fact :=
    { fact := by
        change (ledger db).facts row.node = _
        rw [hnode]
        exact ledger_fact hn
      unverified := h.unverified
      open_ := h.open_
      revision := by rw [hrow]; rfl
      contractHash := by rw [hrow]; rfl
      pins := by
        change row.dependencySnapshot = (ledger db).snapshot row.node
        rw [ledger_snapshot, hnode, hrow]
        rfl
      accepted := by
        intro x hx
        have hd : row.dependencySnapshot = dependencySnapshot db r.node := by rw [hrow]; rfl
        exact List.all_eq_true.mp h.accepted x (hd ▸ hx)
      fresh := by simp [ledger, hfresh]
      unlisted := by
        intro hm
        obtain ⟨x, hx, he⟩ := List.mem_map.mp hm
        exact hids x hx he
      active := hact
      artifact := by rw [hrow]; rfl
      run := by rw [hrow]; rfl
      alone := by
        intro j u hj hu
        obtain ⟨x, hx, rfl⟩ := attempt_of_try hj
        exact halone hact x (lookup_mem hx) hu }
  have hcore := @admit_core db r row claim breakGlass
  rw [h.written]
  refine Refines.trans (Refines.of_step ?_) (Refines.of_core hcore)
  rw [ledger_setNode (f := fun n => { n with status := .OPEN }) hn' (fun _ => rfl), ledger_append hfresh, ← hnode]
  exact .admission row.attemptId row.toTry node.fact hadm

theorem replayClaim_ok {old out : Attempt} (h : replayClaim host db caller r old = .ok (out, db')) :
    out = old ∧ ∃ claim, db' = bindClaim db claim old.attemptId := by
  simp only [replayClaim, ite_ok, bind_ok, pure_ok, Prod.mk.injEq] at h
  obtain ⟨_, ⟨named, _⟩, _, rfl, rfl⟩ | ⟨_, rfl, rfl⟩ := h
  · exact ⟨rfl, _, rfl⟩
  · exact ⟨rfl, none, rfl⟩

theorem replay_ok {old out : Attempt} (h : replay host db caller r old = .ok (out, db')) :
    out = old ∧ ∃ claim, db' = bindClaim db claim old.attemptId := by
  simp only [replay, bind_ok] at h
  obtain ⟨_, _, _, _, h⟩ := h
  split at h
  · simp only [bind_ok, ite_ok, pure_ok, Prod.mk.injEq] at h
    obtain ⟨_, _, ⟨_, h⟩ | ⟨_, rfl, rfl⟩⟩ := h
    · exact replayClaim_ok h
    · exact ⟨rfl, none, rfl⟩
  · exact replayClaim_ok h

theorem reserveView_body (db : DB) (caller : Caller) (r : ReserveRequest) :
    (reserveView db caller r).body = db.body := by
  unfold reserveView
  by_cases h : r.external.isSome
  · rw [if_pos h]
    exact markBack_body ..
  · rw [if_neg h]

/-- A reservation replays an old attempt, only checks, or admits a new one. -/
theorem reserveOnce_ok
    (h : reserveOnce host db caller r preflight = .ok (out, db')) :
    (∃ claim i, db' = bindClaim (reserveView db caller r) claim i) ∨
    ∃ row node claim breakGlass, out = .attempt row ∧ (reserveView db caller r).node? r.node = some node ∧
      Admission host (reserveView db caller r) caller r row node claim breakGlass db' := by
  simp only [reserveOnce, bind_ok] at h
  obtain ⟨_, _, node, hnode, h⟩ := h
  split at h
  · next old hold =>
    simp only [bind_ok, pure_ok, Prod.mk.injEq] at h
    obtain ⟨⟨x, db₁⟩, hrep, rfl, rfl⟩ := h
    obtain ⟨_, claim, rfl⟩ := replay_ok hrep
    exact .inl ⟨claim, _, rfl⟩
  · rcases admitNew_ok h with ⟨rfl, source, rfl⟩ | ⟨row, claim, bg, rfl, hadm⟩
    · exact .inl ⟨none, "", rfl⟩
    · exact .inr ⟨row, node, claim, bg, rfl, nodeOf_ok hnode, hadm⟩

theorem reserveOnce_refines
    (h : reserveOnce host db caller r preflight = .ok (out, db')) : Refines D db db' := by
  rcases reserveOnce_ok h with ⟨claim, i, rfl⟩ | ⟨row, node, claim, bg, _, hn, hadm⟩
  · exact Refines.of_body ((bindClaim_body ..).trans (reserveView_body ..))
  · exact (Refines.of_body (reserveView_body ..)).trans (admission_refines hn hadm)

/-- Both kinds of reservation are `_reserve_once` of a filled-in request. -/
theorem reserve_ok {workflow : String} (h : reserve host db caller workflow r = .ok (out, db')) :
    ∃ w preflight, reserveOnce host db caller { r with workflow := w, external := none } preflight =
      .ok (out, db') := by
  simp only [reserve, bind_ok] at h
  obtain ⟨_, _, h⟩ := h
  exact ⟨_, _, h⟩

theorem register_ok {harness externalId : String}
    (h : register host db caller harness externalId r preflight = .ok (out, db')) :
    ∃ e p, reserveOnce host db caller { r with workflow := none, external := some e } p = .ok (out, db') := by
  simp only [register, bind_ok] at h
  obtain ⟨_, _, _, _, _, _, h⟩ := h
  exact ⟨_, _, h⟩

end Admission

end AItelier.State
