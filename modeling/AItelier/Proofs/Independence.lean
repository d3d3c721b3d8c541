import AItelier.Proofs.Reports
import AItelier.Refine.Papers

namespace AItelier.State

open AItelier.Lib

variable {db db' : DB} {host : Host} {s : Sys} {op : Op}

/-- No evidence rests on the report of an external observation. -/
def Independent (db : DB) : Prop :=
  ∀ e ∈ db.evidence, ∀ o ∈ db.observations, e.reportSha256 ≠ o.reportSha256

theorem Independent.of_papers (hi : Independent db) (h : db'.papers = db.papers) : Independent db' := by
  obtain ⟨he, ho⟩ := Prod.mk.inj h
  intro e hem o hom
  rw [he] at hem
  rw [ho] at hom
  exact hi e hem o hom

theorem Independent.evidence {row : Evidence} (hi : Independent db)
    (hrow : ∀ o ∈ db.observations, o.reportSha256 ≠ row.reportSha256)
    (h : db'.papers = (db.evidence ++ [row], db.observations)) : Independent db' := by
  obtain ⟨he, ho⟩ := Prod.mk.inj h
  intro e hem o hom
  rw [ho] at hom
  rw [he] at hem
  rcases List.mem_append.mp hem with hem | hem
  · exact hi e hem o hom
  · rw [List.mem_singleton.mp hem]
    exact (hrow o hom).symm

theorem Independent.observation {row : Observation} (hi : Independent db)
    (hrow : ∀ e ∈ db.evidence, e.reportSha256 ≠ row.reportSha256)
    (h : db'.papers = (db.evidence, db.observations ++ [row])) : Independent db' := by
  obtain ⟨he, ho⟩ := Prod.mk.inj h
  intro e hem o hom
  rw [he] at hem
  rw [ho] at hom
  rcases List.mem_append.mp hom with hom | hom
  · exact hi e hem o hom
  · rw [List.mem_singleton.mp hom]
    exact hrow e hem

/-- A new report is none that evidence was recorded with. `observe` does not check this. -/
def ObserveCall.ReportSafe (db : DB) (call : ObserveCall) : Prop :=
  call.Appends db → ∀ e ∈ db.evidence, e.reportSha256 ≠ call.request.reportSha256

def Call.ReportSafe (db : DB) : Call → Prop
  | .observe call => call.ReportSafe db
  | .bindRun _ | .reconcile _ | .register .. => True

def Sys.ReportSafe (s : Sys) : Op → Prop
  | .commit index _ => ∀ c ∈ s.calls[index]?, c.ReportSafe s.db
  | .request _ | .read _ => True

section Decide

instance (db : DB) (call : ObserveCall) : Decidable (call.Appends db) :=
  inferInstanceAs (Decidable (∃ a ∈ db.attempt? call.request.attemptId, _))

instance (db : DB) (call : ObserveCall) : Decidable (call.ReportSafe db) :=
  inferInstanceAs (Decidable (_ → _))

instance (db : DB) : ∀ c : Call, Decidable (c.ReportSafe db)
  | .observe call => inferInstanceAs (Decidable (call.ReportSafe db))
  | .bindRun _ | .reconcile _ | .register .. => .isTrue trivial

instance (s : Sys) : ∀ op, Decidable (s.ReportSafe op)
  | .commit index _ => inferInstanceAs (Decidable (∀ c ∈ s.calls[index]?, c.ReportSafe s.db))
  | .request _ | .read _ => .isTrue trivial

end Decide

theorem Call.independent {c : Call} {now : Stamp} {reply : Reply} (hi : Independent db) (hsafe : c.ReportSafe db)
    (h : c.run host db now = .ok (reply, db')) : Independent db' := by
  cases c with
  | bindRun x =>
    obtain ⟨_, hx⟩ := answer_ok h
    exact hi.of_papers (papers_of_side (bindRunWrite_side hx))
  | reconcile x =>
    obtain ⟨_, _, hx⟩ := reconcile_ok h
    exact hi.of_papers (reconcileWrite_papers hx)
  | observe x =>
    obtain ⟨_, _, hx⟩ := observe_ok h
    rcases observeWrite_papers hx with hsame | ⟨row, happends, hsha, hpapers⟩
    · exact hi.of_papers hsame
    · exact hi.observation (fun e he => hsha ▸ hsafe happends e he) hpapers
  | register caller harness externalId request source =>
    obtain ⟨_, hx⟩ := answer_ok h
    obtain ⟨_, _, hx⟩ := register_ok hx
    exact hi.of_papers (reserveOnce_papers hx)

theorem next_independent (hi : Independent s.db) (hsafe : s.ReportSafe op) : Independent (next host s op).db := by
  cases op with
  | request r =>
    cases hr : r.run host s.db with
    | error e => simpa only [next, stepOp, stepRequest, hr] using hi
    | ok out =>
      simp only [next, stepOp, stepRequest, hr]
      rcases Request.papers hr with hsame | ⟨row, hind, hpapers⟩
      · exact hi.of_papers hsame
      · exact hi.evidence hind hpapers
  | read r =>
    rw [next_read_db]
    exact hi
  | commit index now =>
    cases hc : s.calls[index]? with
    | none => simpa only [next, stepOp, stepCommit, hc] using hi
    | some call =>
      rcases next_commit_db host now hc with hsame | ⟨reply, hrun⟩
      · rw [hsame]
        exact hi
      · exact Call.independent hi (hsafe call hc) hrun

/-- Evidence and external reports stay independent along every run in which no
new report is one that evidence already carries. -/
theorem reports_independent (host : Host) (ops : List Op) (h : Along Sys.ReportSafe (next host) Sys.init ops) :
    Independent (after host ops).db := by
  refine run_invariant (I := fun s : Sys => Independent s.db) (fun s op hi hsafe => next_independent hi hsafe) ?_ h
  intro e he
  cases he

namespace Sample

def candidate (ops : List Op) (uid : String) : ObserveRequest :=
  { failure ops uid with
    status := .candidate, artifact := some report, artifactKind := some .sha256, detail := "done" }

/-- One node reviewed with a report, and an external attempt of another. -/
def reviewedWith (sha : String) : List Op :=
  project [spec "a" [], spec "b" []] ++ [team] ++ started owner "a" "1" ++
    reconciled "1" "completed" (some artifact) ++
    [.request (.recordEvidence { evidence "1" "evidence-1" artifact none with reportSha256 := sha }),
      registered "d1" "b" "2"]

/-- The external attempt's own report, after the review. -/
def reportedAfter (sha : String) : List Op :=
  reviewedWith sha ++ [.read (.observe (driven "d1") (candidate (reviewedWith sha) "2") kept), .commit 0 2000000]

end Sample

open Sample in
/-- The report of a review comes back as the report of a candidate. -/
theorem reused_report : ∃ e ∈ (after machine (reportedAfter (digest bytes))).db.evidence,
    ∃ o ∈ (after machine (reportedAfter (digest bytes))).db.observations,
      o.status = .candidate ∧ e.reportSha256 = o.reportSha256 := by
  decide +kernel

open Sample in
theorem reports_independent_sample : (after machine (reportedAfter report)).db.evidence.length = 1 ∧
    (after machine (reportedAfter report)).db.observations.length = 1 ∧
    Independent (after machine (reportedAfter report)).db := by
  have ⟨he, ho, hsafe⟩ : (after machine (reportedAfter report)).db.evidence.length = 1 ∧
      (after machine (reportedAfter report)).db.observations.length = 1 ∧
      Along Sys.ReportSafe (next machine) Sys.init (reportedAfter report) := by
    decide +kernel
  exact ⟨he, ho, reports_independent machine (reportedAfter report) hsafe⟩

end AItelier.State
