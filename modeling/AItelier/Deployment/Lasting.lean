import AItelier.Deployment.Completion

namespace AItelier.Deployment

open AItelier.Lib

variable {β : Type} {host : Host β} {j : Dict} [DecidableEq β]

/-- An observation the gate refuses, with a blocker it records. -/
def malformedObservation : Document :=
  ⟨.obj [("blockers", .obj [("external_active", .arr [.obj [("id", .str "worker")]])])],
    by simp [Value.Plain, Value.PlainFields, Value.PlainItems]⟩

def thirdDraw : Draw := { firstDraw with eventId := "00000000000000000000000000000005" }

def fourthDraw : Draw := { firstDraw with eventId := "00000000000000000000000000000006" }

/-- The journal behind the completion, and the disk it is on. -/
def completedJournal : Dict := chained quietHost (appended (chained quietHost quietJournal) completedQuiet)

def completedDisk : Disk String :=
  written quietHost (written quietHost (found emptyFolder) quietJournal)
    (appended (chained quietHost quietJournal) completedQuiet)

theorem load_completed : loadJournal quietHost completedDisk thirdDraw.journalId = .ok completedJournal :=
  loadJournal_ok.mpr (.inl (final_left.loaded load_quiet))

theorem step_completed : step quietHost (written quietHost (found emptyFolder) quietJournal) quietFinalization =
    completedDisk := by
  rw [step, finalize_quiet, completedDisk]

def malformedReason : String := "observation is malformed: unsupported observation schema_version None"

def refusedMalformed : Dict :=
  completed completedJournal (refusedEvent "restart" (dictOf malformedObservation.value) malformedReason)
    thirdDraw.eventId thirdDraw.stamp

theorem malformed_fault : snapshotFault quietHost (.ok malformedObservation) =
    some (.message "unsupported observation schema_version None") := rfl

theorem malformed_decided : decided quietHost "restart" (.ok malformedObservation) (.ok ⟨.null, trivial⟩)
    ⟨false, false, false, false⟩ thirdDraw.now = .ok (.refused malformedReason) := by
  rw [decided, malformed_fault]
  rfl

theorem malformed_recording : Recording quietHost completedDisk thirdDraw "restart" (.ok malformedObservation)
    (.ok ⟨.null, trivial⟩) ⟨false, false, false, false⟩ where
  judged := ⟨by rw [malformed_fault]; decide, rfl, .inl rfl⟩
  journal := by
    intro j hj
    cases load_completed.symm.trans hj
    exact final_left.writable.chained (by decide)
  shallow := ⟨by decide, by decide, by decide⟩
  audit := by
    rw [malformed_decided]
    intro h
    cases h

theorem unused_completed {id : String} (h : firstDraw.eventId ≠ id) (h' : secondDraw.eventId ≠ id) :
    Unused completedJournal id := unused_chained.mpr (unused_appended (unused_quiet h) (completed_id rfl _ _) h')

theorem drawn_completed : Drawn quietHost completedDisk thirdDraw :=
  drawn_at load_completed ⟨rfl, by decide⟩
    ⟨unused_completed (by decide) (by decide), unused_completed (by decide) (by decide)⟩

theorem malformed_closed : closeInterrupted completedJournal thirdDraw = .ok completedJournal := by
  rw [closeInterrupted, if_neg (by decide)]

theorem malformed_locked : authorizeLocked quietHost completedDisk thirdDraw "restart" (.ok malformedObservation)
    (.ok ⟨.null, trivial⟩) ⟨false, false, false, false⟩ =
      .ok ⟨appended completedJournal refusedMalformed, refusedMalformed,
      Decided.answer "restart" refusedMalformed (.refused malformedReason)⟩ := by
  have hfresh : Unused completedJournal thirdDraw.eventId := unused_completed (by decide) (by decide)
  exact authorizeLocked_ok load_completed malformed_closed malformed_decided rfl hfresh

theorem malformed_left : Left quietHost thirdDraw.room completedJournal ⟨appended completedJournal refusedMalformed,
    refusedMalformed, Decided.answer "restart" refusedMalformed (.refused malformedReason)⟩ := by
  have hgood : Good quietHost completedJournal :=
    ⟨(final_left.loaded load_quiet).valid.sheet, plain_chained final_left.good.plain⟩
  obtain ⟨r, hr, hleft, -⟩ := authorizeLocked_left hgood load_completed drawn_completed (by decide)
    malformed_recording
  rw [malformed_locked] at hr
  cases hr
  exact hleft

def refusedDisk : Disk String := written quietHost completedDisk (appended completedJournal refusedMalformed)

theorem step_refused : step quietHost completedDisk (thirdDraw, (unaudited malformedObservation).2) = refusedDisk := by
  have hleft := settle_left (d := completedDisk) malformed_left
  rw [step, unaudited, act]
  dsimp only
  rw [authorize_known (by decide) (by decide), malformed_locked, hleft, refusedDisk]

theorem load_refused : loadJournal quietHost refusedDisk fourthDraw.journalId =
    .ok (chained quietHost (appended completedJournal refusedMalformed)) :=
  loadJournal_ok.mpr (.inl (malformed_left.loaded load_completed))

theorem drawn_refused : Drawn quietHost refusedDisk fourthDraw := by
  have hunused : ∀ id, firstDraw.eventId ≠ id → secondDraw.eventId ≠ id → thirdDraw.eventId ≠ id →
      Unused (chained quietHost (appended completedJournal refusedMalformed)) id := by
    intro id h h' h''
    exact unused_chained.mpr (unused_appended (unused_completed h h') (completed_id rfl _ _) h'')
  exact drawn_at load_refused ⟨rfl, by decide⟩
    ⟨hunused _ (by decide) (by decide) (by decide), hunused _ (by decide) (by decide) (by decide)⟩

theorem refused_reconcilable : Reconcilable quietHost fourthDraw.room
    (chained quietHost (appended completedJournal refusedMalformed)) (.ok quietObservation) := by
  have hwritable : Writable fourthDraw.room (chained quietHost (appended completedJournal refusedMalformed)) :=
    malformed_left.writable.chained (by decide)
  have hreason : unreconciledReason (snapshotFault quietHost (.ok quietObservation))
      (observed (.ok quietObservation)) = none := by
    rw [quiet_valid]
    rfl
  exact ⟨fun _ => hwritable, fun _ => ⟨hwritable, quiet_recordable⟩, fun _ h => absurd hreason h⟩

/-- An authorization and its completion, a refusal and its reconciliation. -/
def servedCalls : List (Draw × Call) :=
  [unaudited quietObservation, quietFinalization, (thirdDraw, (unaudited malformedObservation).2),
    (fourthDraw, .reconcile (.ok quietObservation))]

def refusesToLoad (host : Host String) (d : Disk String) : Bool :=
  match loadJournal host d firstDraw.journalId with
  | .ok _ => false
  | .error _ => true

/-- A digest that is no digest is copied into the event of its own refusal. -/
def wrongDigest : Document := ⟨.obj [("digest", .str "x")], plain_cons (plain_text "x") plain_nil (by simp)⟩

def unhashableStatus : Document :=
  ⟨.obj [("schema_version", .int 1), ("observed_at", .str "2026-01-01T00:00:00+00:00"), ("projects", .arr []),
    ("runs", .arr [.obj [("run_id", .str "r"), ("project_id", .str "p"), ("status", .arr [])]]),
    ("sidecar_owners", .arr []), ("external_owners", .arr []), ("registered_external_owners", .arr []),
    ("godot_render_owners", .arr [])], by simp [Value.Plain, Value.PlainFields, Value.PlainItems]⟩

def unhashableClearance : Value :=
  .obj [("event", .obj [("event_id", .str "e"), ("action", .str "restart"), ("inventory_digest", .null),
    ("status", .arr []), ("pending", .bool true)])]

def endsUncivilly (c : Draw × Call) : Bool :=
  match (act trialHost (found emptyFolder) c).1 with
  | .error .type | .error .attribute | .error .recursion => true
  | _ => false

def nested : Nat → Value
  | 0 => .null
  | n + 1 => .arr [nested n]

theorem plain_nested (n : Nat) : (nested n).Plain := by
  induction n with
  | zero => trivial
  | succ n ih =>
    rw [nested, Value.plain_arr]
    intro v hv
    rw [List.mem_singleton.mp hv]
    exact ih

/-- Blockers nested as deep as the snapshot of an observation allows. -/
def deepObservation : Document := ⟨.obj [("blockers", nested 992)], plain_cons (plain_nested 992) plain_nil (by simp)⟩

end AItelier.Deployment
