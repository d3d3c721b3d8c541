import AItelier.Proofs.Dispatch
import AItelier.Refine.Parts

namespace AItelier.State

open AItelier.Lib

variable {db db' : DB} {host : Host} {caller : Caller} {p : String}

/-- What one of the three policy calls writes. -/
inductive Setting
  | dispatch (d : Dispatch)
  | claimEnforcement (s : Switch)
  | reviewIndependence (m : Independence)
  deriving DecidableEq, Repr

/-- The policy of a project as `project_policy` reports it: the settings of both
tables under the one revision they share. -/
@[ext] structure Settings where
  revision : Nat
  dispatch : Dispatch
  claimEnforcement : Switch
  reviewIndependence : Independence
  deriving DecidableEq, Repr

def settings (db : DB) (p : String) : Settings :=
  ⟨(projectPolicy db p).revision, (projectPolicy db p).dispatch, claimEnforcement db p, reviewIndependence db p⟩

/-- One setting written: its own field and the revision move, nothing else does. -/
def Settings.set (v : Settings) : Setting → Settings
  | .dispatch d => { v with revision := v.revision + 1, dispatch := d }
  | .claimEnforcement s => { v with revision := v.revision + 1, claimEnforcement := s }
  | .reviewIndependence m => { v with revision := v.revision + 1, reviewIndependence := m }

@[simp] theorem Settings.set_revision (v : Settings) (x : Setting) : (v.set x).revision = v.revision + 1 := by
  cases x <;> rfl

/-- A call of `set_dispatch`, `set_claim_enforcement` or `set_review_independence`. -/
structure SettingCall where
  projectId : String
  setting : Setting
  expectedRevision : Int

def Op.setting? : Op → Option SettingCall
  | .request (.setDispatch _ p d rev _) => some ⟨p, .dispatch d, rev⟩
  | .request (.setClaimEnforcement _ p s rev _) => some ⟨p, .claimEnforcement s, rev⟩
  | .request (.setReviewIndependence _ p m rev _) => some ⟨p, .reviewIndependence m, rev⟩
  | _ => none

/-- The setting a step wrote: it was one of the three calls, and it was answered. -/
def written (host : Host) (s : Sys) (op : Op) : List SettingCall :=
  match op.setting?, (stepOp host s op).2 with
  | some c, .ok _ => [c]
  | _, _ => []

/-- The answered calls of a run, in order. -/
def answered (host : Host) : Sys → List Op → List SettingCall
  | _, [] => []
  | s, op :: ops => written host s op ++ answered host (next host s op) ops

section Reads

theorem settings_of_tables (h : db'.settings = db.settings) (p : String) : settings db' p = settings db p := by
  have hp : db'.policies = db.policies := congrArg Prod.fst h
  have he : db'.enforcement = db.enforcement := congrArg Prod.snd h
  simp only [settings, projectPolicy, claimEnforcement, reviewIndependence, hp, he]

theorem projectPolicy_write (db : DB) (caller : Caller) (p q : String) (d : Dispatch) (reason : String) :
    ((projectPolicy (writePolicy db caller p d reason) q).revision,
      (projectPolicy (writePolicy db caller p d reason) q).dispatch) =
    if p = q then ((projectPolicy db p).revision + 1, d)
    else ((projectPolicy db q).revision, (projectPolicy db q).dispatch) := by
  have hrow := lookup_upsert Policy.projectId db.policies
    ⟨p, (projectPolicy db p).revision + 1, d, reason, caller.actor⟩ q
  by_cases hq : p = q
  · subst hq
    simp only [if_true] at hrow ⊢
    simp only [projectPolicy, writePolicy] at hrow ⊢
    rw [hrow]
    rfl
  · simp only [hq, if_false] at hrow ⊢
    simp only [projectPolicy, writePolicy] at hrow ⊢
    rw [hrow]

theorem enforcement_write (db x : DB) (row : Enforcement) (q : String) :
    (claimEnforcement { x with enforcement := upsert Enforcement.projectId db.enforcement row } q,
      reviewIndependence { x with enforcement := upsert Enforcement.projectId db.enforcement row } q) =
    if row.projectId = q then (row.claimEnforcement, row.reviewIndependence)
    else (claimEnforcement db q, reviewIndependence db q) := by
  have hrow := lookup_upsert Enforcement.projectId db.enforcement row q
  simp only [claimEnforcement, reviewIndependence, hrow]
  by_cases hq : row.projectId = q
  · simp [hq]
  · simp [hq]

end Reads

section Steps
variable {reason label : String} {revision : Int}

theorem policyGuard_ok {old : Policy} {text' : String}
    (h : policyGuard db p revision reason label = .ok (old, text')) :
    old = projectPolicy db p ∧ ((projectPolicy db p).revision : Int) = revision := by
  simp only [policyGuard, bind_ok, ensure_ok, pure_ok, Prod.mk.injEq] at h
  obtain ⟨_, _, _, _, _, _, _, hrev, hold, _⟩ := h
  exact ⟨hold.symm, hrev⟩

/-- What an answered call leaves behind: it named the current revision, and its
own setting is the only one that moved, of its own project only. -/
structure Wrote (db db' : DB) (c : SettingCall) : Prop where
  current : ((settings db c.projectId).revision : Int) = c.expectedRevision
  own : settings db' c.projectId = (settings db c.projectId).set c.setting
  others : ∀ q, q ≠ c.projectId → settings db' q = settings db q

theorem setDispatch_wrote {d : Dispatch} (h : setDispatch db caller p d revision reason = .ok db') :
    Wrote db db' ⟨p, .dispatch d, revision⟩ := by
  simp only [setDispatch, bind_ok, pure_ok] at h
  obtain ⟨⟨old, reason'⟩, hguard, rfl⟩ := h
  obtain ⟨rfl, hrev⟩ := policyGuard_ok hguard
  have hwrite : ∀ q, ((settings (writePolicy db caller p d reason') q).revision,
      (settings (writePolicy db caller p d reason') q).dispatch) = _ :=
    fun q => projectPolicy_write db caller p q d reason'
  refine ⟨hrev, ?_, ?_⟩
  · have hp := hwrite p
    rw [if_pos rfl, Prod.mk.injEq] at hp
    change settings (writePolicy db caller p d reason') p = _
    exact Settings.ext hp.1 hp.2 rfl rfl
  · intro q hq
    have hp := hwrite q
    rw [if_neg (Ne.symm hq), Prod.mk.injEq] at hp
    change settings (writePolicy db caller p d reason') q = _
    exact Settings.ext hp.1 hp.2 rfl rfl

theorem setClaimEnforcement_wrote {x : Switch}
    (h : setClaimEnforcement db caller p x revision reason = .ok db') :
    Wrote db db' ⟨p, .claimEnforcement x, revision⟩ := by
  simp only [setClaimEnforcement, bind_ok, pure_ok] at h
  obtain ⟨_, _, ⟨old, reason'⟩, hguard, rfl⟩ := h
  obtain ⟨rfl, hrev⟩ := policyGuard_ok hguard
  have hpolicy := fun q => projectPolicy_write db caller p q (projectPolicy db p).dispatch reason'
  have hrow := enforcement_write db db ⟨p, x, reason', caller.actor, reviewIndependence db p⟩
  refine ⟨hrev, ?_, ?_⟩
  · have hp := hpolicy p
    have he := hrow p
    rw [if_pos rfl, Prod.mk.injEq] at hp he
    exact Settings.ext hp.1 hp.2 he.1 he.2
  · intro q hq
    have hp := hpolicy q
    have he := hrow q
    rw [if_neg (Ne.symm hq), Prod.mk.injEq] at hp he
    exact Settings.ext hp.1 hp.2 he.1 he.2

theorem setReviewIndependence_wrote {m : Independence}
    (h : setReviewIndependence db caller p m revision reason = .ok db') :
    Wrote db db' ⟨p, .reviewIndependence m, revision⟩ := by
  simp only [setReviewIndependence, bind_ok, pure_ok] at h
  obtain ⟨_, _, ⟨old, reason'⟩, hguard, rfl⟩ := h
  obtain ⟨rfl, hrev⟩ := policyGuard_ok hguard
  have hpolicy := fun q => projectPolicy_write db caller p q (projectPolicy db p).dispatch reason'
  have hrow := enforcement_write db db ⟨p, claimEnforcement db p, reason', caller.actor, m⟩
  refine ⟨hrev, ?_, ?_⟩
  · have hp := hpolicy p
    have he := hrow p
    rw [if_pos rfl, Prod.mk.injEq] at hp he
    exact Settings.ext hp.1 hp.2 he.1 he.2
  · intro q hq
    have hp := hpolicy q
    have he := hrow q
    rw [if_neg (Ne.symm hq), Prod.mk.injEq] at hp he
    exact Settings.ext hp.1 hp.2 he.1 he.2

/-- The request of one of the three calls, with what its answer leaves. -/
theorem setting_wrote {s : Sys} {op : Op} {c : SettingCall} {reply : Reply} (hc : op.setting? = some c)
    (h : (stepOp host s op).2 = .ok reply) : Wrote s.db (next host s op).db c := by
  cases op with
  | read r => cases hc
  | commit index now => cases hc
  | request r =>
    cases hr : r.run host s.db with
    | error e =>
      simp only [stepOp, stepRequest, hr] at h
      cases h
    | ok out =>
      have hdb : (next host s (.request r)).db = out.2 := by simp only [next, stepOp, stepRequest, hr]
      rw [hdb]
      cases r with
      | setDispatch caller p d rev reason =>
        cases hc
        exact setDispatch_wrote (done_ok hr)
      | setClaimEnforcement caller p x rev reason =>
        cases hc
        exact setClaimEnforcement_wrote (done_ok hr)
      | setReviewIndependence caller p m rev reason =>
        cases hc
        exact setReviewIndependence_wrote (done_ok hr)
      | _ => cases hc

theorem setting_refused {s : Sys} {op : Op} {c : SettingCall} {e : StateError} (hc : op.setting? = some c)
    (h : (stepOp host s op).2 = .error e) : next host s op = s := by
  cases op with
  | read r => cases hc
  | commit index now => cases hc
  | request r =>
    cases hr : r.run host s.db with
    | error e' => simp only [next, stepOp, stepRequest, hr]
    | ok out =>
      simp only [stepOp, stepRequest, hr] at h
      cases h

theorem setting_kept {s : Sys} {op : Op} (hc : op.setting? = none) (q : String) :
    settings (next host s op).db q = settings s.db q := by
  rcases next_cases host s op with he | ⟨r, reply, rfl, h⟩ | ⟨call, now, reply, _, h⟩
  · rw [he]
  · apply settings_of_tables
    apply (Request.leaves h).settings
    cases r with
    | setDispatch caller p d rev reason => cases hc
    | setClaimEnforcement caller p x rev reason => cases hc
    | setReviewIndependence caller p m rev reason => cases hc
    | _ => simp [Request.writes]
  · apply settings_of_tables
    apply (Call.leaves h).settings
    cases call <;> simp [Call.writes]

/-- A step writes the settings its answered call names, in its project. -/
theorem step_settings (s : Sys) (op : Op) (q : String) :
    settings (next host s op).db q =
      ((written host s op).filter (fun c => c.projectId == q)).foldl (fun v c => v.set c.setting)
        (settings s.db q) := by
  cases hc : op.setting? with
  | none =>
    simp only [written, hc, List.filter_nil, List.foldl_nil]
    exact setting_kept hc q
  | some c =>
    cases hout : (stepOp host s op).2 with
    | error e =>
      simp only [written, hc, hout, List.filter_nil, List.foldl_nil]
      rw [setting_refused hc hout]
    | ok reply =>
      have hw := setting_wrote hc hout
      simp only [written, hc, hout]
      by_cases hq : q = c.projectId
      · subst hq
        simpa using hw.own
      · rw [hw.others q hq]
        simp [Ne.symm hq]

end Steps

section Runs

theorem run_settings (s : Sys) (ops : List Op) (q : String) :
    settings (run (next host) s ops).db q =
      ((answered host s ops).filter (fun c => c.projectId == q)).foldl (fun v c => v.set c.setting)
        (settings s.db q) := by
  induction ops generalizing s with
  | nil => rfl
  | cons op ops ih =>
    rw [run_cons, ih, step_settings]
    simp only [answered, List.filter_append, List.foldl_append]

/-- What the last answered call for a field wrote, or what stood there. -/
def lastWrite {α : Type} (field : Setting → Option α) (calls : List SettingCall) (was : α) : α :=
  ((calls.filterMap (fun c => field c.setting)).getLast?).getD was

def Setting.dispatch? : Setting → Option Dispatch
  | .dispatch d => some d
  | _ => none

def Setting.claimEnforcement? : Setting → Option Switch
  | .claimEnforcement s => some s
  | _ => none

def Setting.reviewIndependence? : Setting → Option Independence
  | .reviewIndependence m => some m
  | _ => none

/-- A field that each write either sets or keeps ends at its last write. -/
theorem lastWrite_foldl {α : Type} (get : Settings → α) {field : Setting → Option α}
    (hset : ∀ v x, get (v.set x) = (field x).getD (get v)) (calls : List SettingCall) (v : Settings) :
    get (calls.foldl (fun v c => v.set c.setting) v) = lastWrite field calls (get v) := by
  induction calls generalizing v with
  | nil => rfl
  | cons c calls ih =>
    rw [List.foldl_cons, ih, hset]
    unfold lastWrite
    cases hf : field c.setting with
    | none => simp [hf]
    | some a =>
      cases hl : (calls.filterMap (fun c => field c.setting)).getLast? with
      | none => simp [hf, List.getLast?_eq_none_iff.mp hl]
      | some b =>
        obtain ⟨front, hfront⟩ := List.getLast?_eq_some_iff.mp hl
        have hlist : (c :: calls).filterMap (fun c => field c.setting) = (a :: front) ++ [b] := by
          simp [hf, hfront]
        rw [hlist, List.getLast?_append]
        simp

theorem revision_foldl (calls : List SettingCall) (v : Settings) :
    (calls.foldl (fun v c => v.set c.setting) v).revision = v.revision + calls.length := by
  induction calls generalizing v with
  | nil => rfl
  | cons c calls ih =>
    rw [List.foldl_cons, ih, Settings.set_revision, List.length_cons]
    omega

/-- The three policy settings share one compare-and-set revision. In every state
that a run of the store reaches, a call that names another revision than the
current one is refused, a refused call changes nothing, and an answered one moves
the revision by one and writes its own field of its own project alone; so the
revision counts the answered calls, and every field stands as the last answered
call for it wrote it. -/
theorem policy_settings_shared (host : Host) (ops : List Op) (p : String) :
    let s := run (next host) Sys.init ops
    let calls := (answered host Sys.init ops).filter (fun c => c.projectId == p)
    (∀ op c, op.setting? = some c →
      (((settings s.db c.projectId).revision : Int) ≠ c.expectedRevision → ∃ e, (stepOp host s op).2 = .error e) ∧
      (∀ e, (stepOp host s op).2 = .error e → next host s op = s) ∧
      (∀ reply, (stepOp host s op).2 = .ok reply → Wrote s.db (next host s op).db c)) ∧
    (settings s.db p).revision = calls.length ∧
    (settings s.db p).dispatch = lastWrite Setting.dispatch? calls .active ∧
    (settings s.db p).claimEnforcement = lastWrite Setting.claimEnforcement? calls .off ∧
    (settings s.db p).reviewIndependence = lastWrite Setting.reviewIndependence? calls .off := by
  intro s calls
  have hrun : settings s.db p = calls.foldl (fun v c => v.set c.setting) (settings Sys.init.db p) :=
    run_settings Sys.init ops p
  refine ⟨?_, ?_, ?_, ?_, ?_⟩
  · intro op c hc
    refine ⟨?_, fun e he => setting_refused hc he, fun reply hr => setting_wrote hc hr⟩
    intro hstale
    cases hout : (stepOp host s op).2 with
    | error e => exact ⟨e, rfl⟩
    | ok reply => exact absurd (setting_wrote hc hout).current hstale
  · rw [hrun, revision_foldl]
    exact Nat.zero_add _
  · rw [hrun]
    exact lastWrite_foldl Settings.dispatch (fun v x => by cases x <;> rfl) calls _
  · rw [hrun]
    exact lastWrite_foldl Settings.claimEnforcement (fun v x => by cases x <;> rfl) calls _
  · rw [hrun]
    exact lastWrite_foldl Settings.reviewIndependence (fun v x => by cases x <;> rfl) calls _

theorem Call.writes_outcomes (c : Call) : c.writes ⊆ [.standings, .owners, .observations] := by
  cases c <;> simp [Call.writes]

namespace Sample

/-- A project with an edge, a setting, a design revision, and a claim that is offered on. -/
def furnished : List Op :=
  project [spec "a" [], spec "b" [], spec "c" ["a"], spec "d" []] ++
    [team, .request (.setReviewIndependence owner "p" .advisory 0 "from now on"),
      .request (.createRevision "p" "ann" "t1"
        ⟨"rule", 0, "Title", "Statement", "Rationale", [], [("area", "core")], "draft", "rule", []⟩),
      claimed "d1" "k1" "h:/w#one" 1000000,
      .request (.offerHandoff (driven "d1")
        ⟨"p", "o1", 1, ⟨none, none, none, none, none, none, none, none, none, none, none, none, none⟩,
          .claim "claim-k1", "d2"⟩ (fun _ => .ok ()) "1" 1000000)]

/-- Two runs launched, bound and settled, each with its halves across the other's. -/
def crossing : List Op :=
  [.request (.reserve owner "flow" (reserveRequest "b" "1")),
    .request (.claimLaunch owner "attempt-1" none none 1000000),
    .request (.reserve owner "flow" (reserveRequest "d" "2")),
    .request (.claimLaunch owner "attempt-2" none none 1000000),
    .read (.bindRun "attempt-1" "run-1" (engine "1" "running")),
    .read (.bindRun "attempt-2" "run-2" (engine "2" "running")),
    .commit 1 1000000, .commit 0 1000000, .read (.reconcile "attempt-1" (engine "1" "completed") (some artifact) none),
    .read (.reconcile "attempt-2" (engine "2" "failed") none none), .commit 1 1000000, .commit 0 1000000]

/-- What stands in the store beside its runs. -/
def beside (db : DB) : List Nat :=
  [db.projects.length, db.dependencies.length, db.revisions.length, db.policies.length, db.designRevisions.length,
    db.handoffs.length]

end Sample

end Runs

end AItelier.State
