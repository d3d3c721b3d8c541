import AItelier.Proofs.Closure

namespace AItelier.State

open AItelier.Lib AItelier.Ledger

variable {db db' : DB} {host : Host} {i : String} {a b : Attempt} {n : Node} {s : Sys} {op : Op}

section Attempts

theorem attempt_mem (ho : Orderly (ledger db)) (h : a ∈ db.attempts) : db.attempt? a.attemptId = some a := by
  have hd : (db.attempts.map Attempt.attemptId).Nodup := ho.distinct
  exact lookup_of_mem hd h

theorem after_kept (host : Host) (ops more : List Op) (ha : (after host ops).db.attempt? i = some a) :
    ∃ a', (after host (ops ++ more)).db.attempt? i = some a' ∧ Kept a.toTry a'.toTry := by
  rw [after_append]
  obtain ⟨t', ht', hk⟩ := Steps.kept (after_orderly host ops) (run_steps host (after host ops) more) (ledger_try ha)
  obtain ⟨a', ha', rfl⟩ := attempt_of_try ht'
  exact ⟨a', ha', hk⟩

/-- The life of an attempt, over every run: one active attempt for each node, no
way back from a settled status or out of abandonment, a run bound once and to
one attempt, an artifact pinned once. -/
theorem attempt_lifecycle (host : Host) (ops more : List Op) :
    (∀ a ∈ (after host ops).db.attempts, ∀ b ∈ (after host ops).db.attempts, a.node = b.node →
      a.status.active = true → b.status.active = true → a = b) ∧
    (∀ a ∈ (after host ops).db.attempts, ∀ b ∈ (after host ops).db.attempts, ∀ r, a.runId = some r →
      b.runId = some r → a = b) ∧
    ∀ a ∈ (after host ops).db.attempts, ∃ a' ∈ (after host (ops ++ more)).db.attempts,
      a'.attemptId = a.attemptId ∧ a'.node = a.node ∧
      (a.status.active = false → a'.status.active = false) ∧
      (a.status = .abandoned → a'.status = .abandoned) ∧
      (∀ r, a.runId = some r → a'.runId = some r) ∧
      ∀ x, a.artifactRef = some x → a'.artifactRef = some x := by
  have ho := after_orderly host ops
  refine ⟨?_, ?_, ?_⟩
  · intro a ha b hb hn h1 h2
    have hi := ho.single _ _ _ _ (ledger_try (attempt_mem ho ha)) (ledger_try (attempt_mem ho hb)) hn h1 h2
    have he := attempt_mem ho ha
    rw [hi, attempt_mem ho hb] at he
    exact (Option.some.inj he).symm
  · intro a ha b hb r h1 h2
    have hi := ho.bound _ _ _ _ r (ledger_try (attempt_mem ho ha)) (ledger_try (attempt_mem ho hb)) h1 h2
    have he := attempt_mem ho ha
    rw [hi, attempt_mem ho hb] at he
    exact (Option.some.inj he).symm
  · intro a ha
    obtain ⟨a', ha', hk⟩ := after_kept host ops more (attempt_mem ho ha)
    exact ⟨a', lookup_mem ha', attempt_id ha', hk.node, hk.settled, fun hs => (hk.abandoned hs).1,
      hk.run, hk.artifact⟩

end Attempts

section Staleness

theorem after_node (host : Host) (ops : List Op) (ha : (after host ops).db.attempt? i = some a) :
    ∃ n, (after host ops).db.node? a.node = some n := by
  obtain ⟨f, hf, _⟩ := (after_pinned host ops).revision i a.toTry (ledger_try ha)
  obtain ⟨n, hn, _⟩ := node_of_fact hf
  exact ⟨n, hn⟩

/-- `_pins_current` never comes back. -/
theorem pins_stay_stale (host : Host) (ops more : List Op) (ha : (after host ops).db.attempt? i = some a)
    (hn : (after host ops).db.node? a.node = some n) (hstale : pinsMatch (after host ops).db n a = false) :
    ∃ a' n', (after host (ops ++ more)).db.attempt? i = some a' ∧ a'.node = a.node ∧
      (after host (ops ++ more)).db.node? a'.node = some n' ∧
      pinsMatch (after host (ops ++ more)).db n' a' = false := by
  obtain ⟨a', ha', hk⟩ := after_kept host ops more ha
  obtain ⟨n', hn'⟩ := after_node host (ops ++ more) ha'
  refine ⟨a', n', ha', hk.node, hn', ?_⟩
  have hsteps : Steps Discipline.none (ledger (after host ops).db) (ledger (after host (ops ++ more)).db) := by
    rw [after_append]
    exact run_steps host _ more
  have hnot : ¬ Fresh (ledger (after host ops).db) a.toTry := by
    rw [fresh_iff hn, hstale]
    exact Bool.false_ne_true
  have hlater := Steps.stale_forever (after_orderly host ops) (after_sound host ops) (after_pinned host ops) hsteps
    (ledger_try ha) (ledger_try ha') hnot
  rw [fresh_iff hn'] at hlater
  exact Bool.not_eq_true _ ▸ hlater

theorem verify_pins {p k reviewer uid : String} {revision : Int} {bytes : Bool} {out : Acceptance}
    (h : verify host db p k revision i reviewer bytes uid = .ok (out, db')) (ha : db.attempt? i = some a)
    (hn : db.node? a.node = some n) : pinsMatch db n a = true := by
  obtain ⟨a', n', hv, _⟩ := verify_ok h
  obtain ⟨_, _, ⟨m, hm, hpins⟩, _⟩ := eligibleCandidate_ok hv.eligible
  have he : a' = a := Option.some.inj (hv.found.symm.trans ha)
  subst he
  rw [hn] at hm
  cases hm
  exact hpins

/-- Stale pins refuse every new row; the id of an old row only answers that row. -/
theorem recordEvidence_stale {r : EvidenceRequest} {out : Evidence}
    (h : recordEvidence host db r = .ok (out, db')) (ha : db.attempt? r.attemptId = some a)
    (hn : db.node? a.node = some n) (hstale : pinsMatch db n a = false) :
    lookup Evidence.evidenceId db.evidence r.evidenceId = some out ∧ db'.evidence = db.evidence := by
  obtain ⟨r', hval, ⟨hold, hblob⟩ | ⟨a', n', kind, db₁, hrec, _⟩⟩ := recordEvidence_ok h
  · refine ⟨hold, ?_⟩
    have he : db'.core.evidence = db.core.evidence := congrArg DB.evidence (storeOptionalBlob_core hblob)
    exact he
  · obtain ⟨⟨m, hm, hpins⟩, _⟩ := evidenceGuard_ok hrec.guarded
    have hfound := hrec.found
    rw [(validate_ok hval).1, ha] at hfound
    cases hfound
    rw [hn] at hm
    cases hm
    rw [hstale] at hpins
    cases hpins

theorem acceptedBy_pins (ho : Orderly (ledger db)) (hs : Sound (ledger db)) (hn : db.node? a.node = some n)
    (h : acceptedBy db n i = true) (ha : db.attempt? i = some a) : pinsMatch db n a = true := by
  cases hr : n.verifiedReceipt with
  | none => simp [acceptedBy, hr] at h
  | some receipt =>
    have hver := (hs.verified _ _ (ledger_fact hn)).mp (by simp [Node.fact, hr])
    obtain ⟨r, x, hin⟩ := inForce_of_sound ho hs hn hver
    have hissued := hin.issued
    rw [hr, Option.bind_some] at hissued
    have hid : r.attemptId = i := by simpa [acceptedBy, hr, hissued] using h
    have hx := latestAttempt_attempt? ho hin.latest
    rw [hin.attempt, hid, ha] at hx
    cases hx
    exact hin.current

/-- Staleness is permanent: from then on the pins stay stale, no verification
and no new evidence succeeds, and no acceptance rests on the attempt. -/
theorem staleness_permanent (host : Host) (ops more : List Op) (i : String) (a : Attempt) (n : Node)
    (ha : (after host ops).db.attempt? i = some a) (hn : (after host ops).db.node? a.node = some n)
    (hstale : pinsMatch (after host ops).db n a = false) :
    ∃ a' n', (after host (ops ++ more)).db.attempt? i = some a' ∧
      (after host (ops ++ more)).db.node? a'.node = some n' ∧
      pinsMatch (after host (ops ++ more)).db n' a' = false ∧
      (∀ p k revision reviewer bytes uid out,
        verify host (after host (ops ++ more)).db p k revision i reviewer bytes uid ≠ .ok out) ∧
      (∀ r out db', r.attemptId = i → recordEvidence host (after host (ops ++ more)).db r = .ok (out, db') →
        lookup Evidence.evidenceId (after host (ops ++ more)).db.evidence r.evidenceId = some out ∧
        db'.evidence = (after host (ops ++ more)).db.evidence) ∧
      acceptedBy (after host (ops ++ more)).db n' i = false := by
  obtain ⟨a', n', ha', _, hn', hstale'⟩ := pins_stay_stale host ops more ha hn hstale
  refine ⟨a', n', ha', hn', hstale', ?_, ?_, ?_⟩
  · rintro p k revision reviewer bytes uid ⟨out, db'⟩ hv
    have hpins := verify_pins hv ha' hn'
    rw [hstale'] at hpins
    cases hpins
  · rintro r out db' rfl hr
    exact recordEvidence_stale hr ha' hn' hstale'
  · cases hacc : acceptedBy (after host (ops ++ more)).db n' i with
    | false => rfl
    | true =>
      have hpins := acceptedBy_pins (after_orderly host _) (after_sound host _) hn' hacc ha'
      rw [hstale'] at hpins
      cases hpins

namespace Sample

/-- An accepted node whose contract is then revised under its attempt. -/
def revised : List Op :=
  project [spec "a" []] ++ accepted "a" "1" ++
    [.request (.reviseNode none "p" "a" 1 "new goal" (some "build it better") none none)]

def replayed : EvidenceRequest := evidence "1" "evidence-1" artifact none

/-- The attempt is there, and what it pinned is gone. -/
def staleAt (db : DB) (i : String) : Bool :=
  (db.attempt? i).any (fun a => (db.node? a.node).any (fun n => !pinsMatch db n a))

end Sample

open Sample in
theorem revised_state : staleAt (after machine revised).db "attempt-1" = true ∧
    (recordEvidence machine (after machine revised).db replayed).toOption.isSome = true := by
  decide +kernel

open Sample in
/-- Evidence already recorded answers again on a stale attempt, with its old row. -/
theorem stale_evidence_replays : staleAt (after machine revised).db replayed.attemptId = true ∧
    ∃ out, recordEvidence machine (after machine revised).db replayed = .ok out := by
  obtain ⟨hs, hr⟩ := revised_state
  refine ⟨hs, ?_⟩
  cases hx : recordEvidence machine (after machine revised).db replayed with
  | error e =>
    rw [hx] at hr
    cases hr
  | ok out => exact ⟨out, rfl⟩

open Sample in
/-- The attempt stays out when its node is taken up again. -/
theorem staleness_permanent_revised :
    ∃ a n, (after machine (revised ++ started owner "a" "2")).db.attempt? "attempt-1" = some a ∧
      (after machine (revised ++ started owner "a" "2")).db.node? a.node = some n ∧
      acceptedBy (after machine (revised ++ started owner "a" "2")).db n "attempt-1" = false := by
  have hs := revised_state.1
  simp only [staleAt, Option.any_eq_true, Bool.not_eq_true'] at hs
  obtain ⟨a, ha, n, hn, hstale⟩ := hs
  obtain ⟨a', n', ha', hn', _, _, _, hacc⟩ :=
    staleness_permanent machine revised (started owner "a" "2") "attempt-1" a n ha hn hstale
  exact ⟨a', n', ha', hn', hacc⟩

end Staleness

section Launch

/-- The step is a call of `claim_launch` that may dispatch the attempt. A start, a
replayed start and a recovery all pass here. -/
def Launches (host : Host) (s : Sys) (op : Op) (i : String) (caller : Caller) (now : Stamp) : Prop :=
  ∃ claimId fence, op = .request (.claimLaunch caller i claimId fence now) ∧
    (stepOp host s op).2 = .ok (.launched true)

/-- The driver holds the node's implement claim, live at `now`. -/
def HoldsImplement (db : DB) (k : NodeId) (driverId : Option String) (now : Stamp) : Prop :=
  ∃ c ∈ db.claims, c.node = k ∧ c.status = .live ∧ c.purpose = .implement ∧
    leaseState (some c.leaseExpiresAt) now ≠ .reclaimable ∧ some c.driverId = driverId

/-- What a launch found. -/
structure Launchable (db : DB) (i : String) (caller : Caller) (now : Stamp) (a : Attempt) (n : Node) : Prop where
  found : db.attempt? i = some a
  node : db.node? a.node = some n
  reserved : a.status = .reserved
  current : pinsMatch db n a = true
  unheld : dispatchBlock db a.node = none
  authorized : enforced db a.projectId = true → truthy a.ownerDriverId = true →
    caller.isAdmin = true ∨ (a.ownerDriverId = caller.driverId ∧ HoldsImplement db a.node caller.driverId now)

variable {now : Stamp} {claimId : Option String} {caller : Caller} {fence : Option Int}

theorem liveImplementClaim_live {k : NodeId} {c : Claim}
    (h : (liveImplementClaim db k now).1 = some c) :
    c ∈ db.claims ∧ c.node = k ∧ c.status = .live ∧ c.purpose = .implement ∧
      leaseState (some c.leaseExpiresAt) now ≠ .reclaimable := by
  unfold liveImplementClaim at h
  split at h
  · cases h
  · next row hrow =>
    have hp := List.find?_some hrow
    simp only [decide_eq_true_eq] at hp
    split_ifs at h with hl
    cases h
    exact ⟨List.mem_of_find?_eq_some hrow, hp.1, hp.2.1, hp.2.2, hl⟩

theorem ownerLaunch_ok {live lapsed : Option Claim}
    {out : Bool × Option Claim} (h : ownerLaunch a caller claimId fence live lapsed = .ok out) :
    caller.isAdmin = true ∨ ∃ c, live = some c ∧ some c.driverId = caller.driverId := by
  unfold ownerLaunch at h
  split at h
  · simp only [ite_ok, throw_ok, and_false, or_false] at h
    exact .inl h.1
  · next row hrow =>
    rw [Option.filter_eq_some_iff] at hrow
    exact .inr ⟨row, hrow.1, of_decide_eq_true hrow.2⟩

theorem launchAuthorization_ok
    {out : Bool × Option Claim} (h : launchAuthorization host db a caller claimId fence now = .ok out)
    (he : enforced db a.projectId = true) (ho : truthy a.ownerDriverId = true) :
    caller.isAdmin = true ∨ (a.ownerDriverId = caller.driverId ∧ HoldsImplement db a.node caller.driverId now) := by
  simp only [launchAuthorization, he, ho, Bool.true_eq_false, or_self, if_false, ite_ok, throw_ok, and_false,
    or_false] at h
  rcases h with ⟨hown, h⟩ | ⟨_, hadmin, _⟩
  · rcases ownerLaunch_ok h with hadmin | ⟨c, hc, hd⟩
    · exact .inl hadmin
    · obtain ⟨h1, h2, h3, h4, h5⟩ := liveImplementClaim_live hc
      exact .inr ⟨hown, c, h1, h2, h3, h4, h5, hd⟩
  · exact .inl hadmin

theorem requireDispatch_ok {k : NodeId} {u : Unit} (h : requireDispatch db k = .ok u) : dispatchBlock db k = none := by
  unfold requireDispatch at h
  split at h
  · cases h
  · assumption

theorem stepRequest_ok {r : Request} {reply : Reply} (h : (stepOp host s (.request r)).2 = .ok reply) :
    r.run host s.db = .ok (reply, (next host s (.request r)).db) := by
  cases hr : r.run host s.db with
  | error e => simp [stepOp, stepRequest, hr] at h
  | ok out =>
    simp only [stepOp, stepRequest, hr, Except.ok.injEq] at h
    simp [next, stepOp, stepRequest, hr, ← h]

theorem claimLaunch_step {b : Bool}
    (h : (stepOp host s (.request (.claimLaunch caller i claimId fence now))).2 = .ok (.launched b)) :
    claimLaunch host s.db caller i claimId fence now =
      .ok (b, (next host s (.request (.claimLaunch caller i claimId fence now))).db) := by
  have hrun := stepRequest_ok h
  simp only [Request.run, answer, bind_ok, pure_ok, Prod.mk.injEq, Reply.launched.injEq] at hrun
  obtain ⟨⟨_, _⟩, hc, rfl, hdb⟩ := hrun
  rw [hc, ← hdb]

theorem Launches.effect (h : Launches host s op i caller now) :
    ∃ a n, Launchable s.db i caller now a n ∧
      ((next host s op).db.attempt? i).map Attempt.status = some .launching := by
  obtain ⟨claimId, fence, rfl, hok⟩ := h
  cases claimLaunch_result (claimLaunch_step hok) with
  | launched a found status _ breakGlass rebind authorized dispatch pins body claims =>
    obtain ⟨n, hn, hp⟩ := pinsCurrent_ok pins
    refine ⟨a, n, ⟨found, hn, status, hp.symm, requireDispatch_ok dispatch, launchAuthorization_ok authorized⟩, ?_⟩
    rw [core_attempt? (core_of_body body), setStatus, setAttempt_attempt? (fun x => { x with status := .launching })
      (fun _ => rfl), if_pos rfl, found]
    rfl

/-- A stale reservation that is called to launch ends superseded. -/
theorem claimLaunch_stale {b : Bool}
    (h : (stepOp host s (.request (.claimLaunch caller i claimId fence now))).2 = .ok (.launched b))
    (ha : s.db.attempt? i = some a) (hn : s.db.node? a.node = some n) (hres : a.status = .reserved)
    (hstale : pinsMatch s.db n a = false) :
    b = false ∧ ((next host s (.request (.claimLaunch caller i claimId fence now))).db.attempt? i).map
      Attempt.status = some .superseded := by
  have hlaunch := claimLaunch_result (claimLaunch_step h)
  generalize (next host s (.request (.claimLaunch caller i claimId fence now))).db = later at hlaunch ⊢
  cases hlaunch with
  | late a' found status =>
    rw [ha] at found
    cases found
    exact absurd hres status
  | stale a' found status _ pins body claims =>
    refine ⟨rfl, ?_⟩
    rw [core_attempt? (core_of_body body), setStatus, setAttempt_attempt? (fun x => { x with status := .superseded })
      (fun _ => rfl), if_pos rfl, found]
    rfl
  | launched a' found status _ breakGlass rebind authorized dispatch pins body claims =>
    rw [ha] at found
    cases found
    obtain ⟨m, hm, hp⟩ := pinsCurrent_ok pins
    rw [hn] at hm
    cases hm
    rw [hstale] at hp
    cases hp

/-- Whatever the interleaving, an attempt is launched at most once, from a
reservation on current pins under an open dispatch, and in an enforced project
by an admin or by its owner on the node's live implement claim, where it has an
owner. On stale pins it ends superseded and is never launched. -/
theorem launch_at_most_once (host : Host) (ops more : List Op) (op op' : Op) (i : String) :
    (∀ caller now, Launches host (after host ops) op i caller now →
      (∃ a n, Launchable (after host ops).db i caller now a n) ∧
      ∀ caller' now', ¬ Launches host (after host (ops ++ op :: more)) op' i caller' now') ∧
    ∀ a n, (after host ops).db.attempt? i = some a → (after host ops).db.node? a.node = some n →
      pinsMatch (after host ops).db n a = false →
      (∀ caller claimId fence now b, a.status = .reserved →
        (stepOp host (after host ops) (.request (.claimLaunch caller i claimId fence now))).2 = .ok (.launched b) →
        b = false ∧ ((next host (after host ops) (.request (.claimLaunch caller i claimId fence now))).db.attempt?
          i).map Attempt.status = some .superseded) ∧
      ∀ caller now, ¬ Launches host (after host (ops ++ more)) op' i caller now := by
  refine ⟨?_, ?_⟩
  · intro caller now h
    obtain ⟨a, n, hl, hlaunched⟩ := h.effect
    refine ⟨⟨a, n, hl⟩, ?_⟩
    intro caller' now' h'
    obtain ⟨a₁, ha₁, hs₁⟩ := Option.map_eq_some_iff.mp hlaunched
    have hstart : (after host (ops ++ [op])).db.attempt? i = some a₁ := by
      rw [after_append]
      exact ha₁
    obtain ⟨a₂, ha₂, hk⟩ := after_kept host (ops ++ [op]) more hstart
    rw [List.append_assoc, List.singleton_append] at ha₂
    obtain ⟨a₃, _, hl₃, _⟩ := h'.effect
    have he : a₂ = a₃ := Option.some.inj (ha₂.symm.trans hl₃.found)
    subst he
    have hne : a₁.status ≠ .reserved := by rw [hs₁]; decide
    exact hk.launched hne hl₃.reserved
  · intro a n ha hn hstale
    refine ⟨fun caller claimId fence now b hres h => claimLaunch_stale h ha hn hres hstale, ?_⟩
    intro caller now h
    obtain ⟨a₁, n₁, ha₁, _, hn₁, hstale₁⟩ := pins_stay_stale host ops more ha hn hstale
    obtain ⟨a₂, n₂, hl, _⟩ := h.effect
    have he : a₁ = a₂ := Option.some.inj (ha₁.symm.trans hl.found)
    subst he
    have he : n₁ = n₂ := Option.some.inj (hn₁.symm.trans hl.node)
    subst he
    have hcur := hl.current
    rw [hstale₁] at hcur
    cases hcur

namespace Sample

def stranger : Caller := ⟨"driver:eve", some "eve", false⟩

/-- The answer of a first launch. -/
def launchedFirst : Outcome → Bool
  | .ok (.launched first) => first
  | _ => false

/-- A reservation made before claims were enforced, by a caller that is no driver. -/
def ownerless : List Op :=
  project [spec "a" []] ++ [.request (.reserve owner "flow" (reserveRequest "a" "1")),
    .request (.setClaimEnforcement owner "p" .on 0 "from now on")]

end Sample

open Sample in
/-- In an enforced project a driver that is neither admin nor owner, and holds no
claim, launches an attempt that has no owner. -/
theorem ownerless_launch : enforced (after machine ownerless).db "p" = true ∧
    Launches machine (after machine ownerless) (.request (.claimLaunch stranger "attempt-1" none none 2000000))
      "attempt-1" stranger 2000000 ∧ stranger.isAdmin = false ∧
    ¬ HoldsImplement (after machine ownerless).db ("p", "a") stranger.driverId 2000000 := by
  obtain ⟨he, hok, hc⟩ : enforced (after machine ownerless).db "p" = true ∧
      launchedFirst (stepOp machine (after machine ownerless)
        (.request (.claimLaunch stranger "attempt-1" none none 2000000))).2 = true ∧
      (after machine ownerless).db.claims.length = 0 := by
    decide +kernel
  refine ⟨he, ⟨none, none, rfl, ?_⟩, rfl, ?_⟩
  · unfold launchedFirst at hok
    split at hok
    · next b hb => rw [hb, hok]
    · cases hok
  · rintro ⟨c, hmem, _⟩
    rw [List.eq_nil_of_length_eq_zero hc] at hmem
    cases hmem

end Launch

end AItelier.State
