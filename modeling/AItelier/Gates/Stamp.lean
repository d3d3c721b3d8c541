import AItelier.Gates.Evidence

namespace AItelier.Gates

open AItelier.Lib

variable {report other : Dict}

/-- The fields a stamp may write. -/
def stampFields : List String :=
  ["run_id", "evidence_generated_at", "evidence_cycle_id", "evidence_state", "release_evidence"]

/-- Two reports that differ in stamp fields only. -/
def SameReads (report other : Dict) : Prop :=
  ∀ name, name ∉ stampFields → other.find name = report.find name

theorem SameReads.refl (report : Dict) : SameReads report report := fun _ _ => rfl

theorem SameReads.trans {third : Dict} (h : SameReads report other) (h' : SameReads other third) :
    SameReads report third :=
  fun name hn => (h' name hn).trans (h name hn)

variable {name : String} {dir : GraphDir}

theorem SameReads.get (h : SameReads report other) (hn : name ∉ stampFields) :
    other.get name = report.get name := by
  simp only [Dict.get, h name hn]

theorem SameReads.has (h : SameReads report other) (hn : name ∉ stampFields) :
    other.has name = report.has name := by
  simp only [Dict.has, h name hn]

theorem SameReads.put (h : SameReads report other) (hn : name ∈ stampFields) (v : Value) :
    SameReads report (other.put name v) := by
  intro n hout
  have hne : n ≠ name := by
    rintro rfl
    exact hout hn
  rw [Dict.find_put_other hne]
  exact h n hout

theorem rawPassed_congr (h : SameReads report other) : rawPassed other = rawPassed report := by
  unfold rawPassed
  rw [h "passed" (by decide), h.get (by decide)]

theorem provisionalRedIsMeasured_congr (h : SameReads report other) :
    provisionalRedIsMeasured other = provisionalRedIsMeasured report := by
  have hg : ∀ name, name ∉ stampFields → other.get name = report.get name := fun _ hn => h.get hn
  unfold provisionalRedIsMeasured provisionalProducer
  rw [rawPassed_congr h]
  simp (disch := decide) only [hg]

/-- The state word is the only stamp field the absence vocabulary reads. -/
theorem absenceState_congr (h : SameReads report other) (hs : statusOf other = statusOf report) (raw : Value) :
    absenceState other raw = absenceState report raw := by
  have hg : ∀ name, name ∉ stampFields → other.get name = report.get name := fun _ hn => h.get hn
  have hmarks : skipMarkers.any (fun name => (other.get name).truthy) =
      skipMarkers.any (fun name => (report.get name).truthy) := by
    unfold skipMarkers
    simp (disch := decide) only [List.any_cons, List.any_nil, hg]
  unfold absenceState
  rw [hs, hmarks]
  simp (disch := decide) only [hg]

theorem reportState_congr (h : SameReads report other) (hs : statusOf other = statusOf report) :
    reportState other = reportState report := by
  have hg : ∀ name, name ∉ stampFields → other.get name = report.get name := fun _ hn => h.get hn
  unfold reportState
  simp (disch := decide) only [rawPassed_congr h, provisionalRedIsMeasured_congr h, absenceState_congr h hs, hg]

theorem releaseDisposition_congr (h : SameReads report other) (hs : reportState other = reportState report) :
    releaseDisposition other = releaseDisposition report := by
  have hg : ∀ name, name ∉ stampFields → other.get name = report.get name := fun _ hn => h.get hn
  have hh : ∀ name, name ∉ stampFields → other.has name = report.has name := fun _ hn => h.has hn
  unfold releaseDisposition releaseState coverageRefusal
  rw [hs, provisionalRedIsMeasured_congr h]
  simp (disch := decide) only [hg, hh]

theorem statusOf_put (hn : name ∈ stampFields) (hne : name ≠ "evidence_state") (v : Value) :
    statusOf (report.put name v) = statusOf report := by
  have hstatus : "status" ≠ name := by
    rintro rfl
    exact absurd hn (by decide)
  unfold statusOf
  rw [Dict.get_put_other hne.symm, Dict.get_put_other hstatus]

theorem reportState_put (hn : name ∈ stampFields) (hne : name ≠ "evidence_state") (v : Value) :
    reportState (report.put name v) = reportState report :=
  reportState_congr ((SameReads.refl report).put hn v) (statusOf_put hn hne v)

/-- The label is written where it reads back as itself, and otherwise the report
is left as its producer wrote it. -/
theorem writeState_eq (report : Dict) (state : ReportState) :
    writeState report state =
      if reportState (report.put "evidence_state" (.str state.text)) = state then
        report.put "evidence_state" (.str state.text)
      else report := by
  dsimp only [writeState]
  congr 1
  split
  case h_1 prior hprior => exact Dict.put_put.trans (Dict.put_self hprior)
  case h_2 hnone => exact Dict.pop_put hnone

theorem writeState_reads (report : Dict) (state : ReportState) : SameReads report (writeState report state) := by
  rw [writeState_eq]
  split
  · exact (SameReads.refl report).put (by decide) _
  · exact SameReads.refl report

theorem reportState_writeState (report : Dict) :
    reportState (writeState report (reportState report)) = reportState report := by
  rw [writeState_eq]
  split
  · assumption
  · rfl

/-- Where the label was kept out once it is kept out again: what decides it reads
nothing the stamp wrote in between. -/
theorem writeState_again {state : ReportState} (v : Value) :
    writeState ((writeState report state).put "release_evidence" v) state =
      (writeState report state).put "release_evidence" v := by
  rw [writeState_eq report]
  split
  case isTrue hreads =>
    have hlabel : ((report.put "evidence_state" (.str state.text)).put "release_evidence" v).find "evidence_state" =
        some (.str state.text) := by
      rw [Dict.find_put_other (by decide), Dict.find_put_self]
    rw [writeState_eq, Dict.put_self hlabel]
    simp only [ite_self]
  case isFalse hkept =>
    have hstatus : statusOf ((report.put "release_evidence" v).put "evidence_state" (.str state.text)) =
        statusOf (report.put "evidence_state" (.str state.text)) := by
      unfold statusOf
      rw [Dict.get_put_self, Dict.get_put_self, Dict.get_put_other (by decide), Dict.get_put_other (by decide),
        Dict.get_put_other (by decide)]
    have hreads : SameReads (report.put "evidence_state" (.str state.text))
        ((report.put "release_evidence" v).put "evidence_state" (.str state.text)) := by
      intro name hn
      have he : name ≠ "evidence_state" := by rintro rfl; exact hn (by decide)
      have hr : name ≠ "release_evidence" := by rintro rfl; exact hn (by decide)
      rw [Dict.find_put_other he, Dict.find_put_other hr, Dict.find_put_other he]
    rw [writeState_eq, reportState_congr hreads hstatus, if_neg hkept]

theorem writeState_writeState (report : Dict) (state : ReportState) :
    writeState (writeState report state) state = writeState report state := by
  rw [writeState_eq report]
  split
  case isTrue hreads =>
    rw [writeState_eq, Dict.put_put, if_pos hreads]
  case isFalse hkept =>
    rw [writeState_eq, if_neg hkept]

/-- The half of a restatement that writes the state. -/
def labelled (report : Dict) (create : Bool) (state : ReportState) : Dict :=
  if create || report.has "evidence_state" then writeState report state else report

/-- The half that writes the disposition. -/
def recorded (report : Dict) (create : Bool) (disposition : Disposition) : Dict :=
  if create || report.has "release_evidence" then report.put "release_evidence" (.str disposition.text) else report

theorem restate_eq (report : Dict) (create : Bool) :
    restateClassification report create =
      recorded (labelled report create (reportState report)) create (releaseDisposition report) := rfl

theorem labelled_reads (report : Dict) (create : Bool) (state : ReportState) :
    SameReads report (labelled report create state) := by
  unfold labelled
  split
  · exact writeState_reads report state
  · exact SameReads.refl report

theorem recorded_reads (report : Dict) (create : Bool) (disposition : Disposition) :
    SameReads report (recorded report create disposition) := by
  unfold recorded
  split
  · exact (SameReads.refl report).put (by decide) _
  · exact SameReads.refl report

theorem reportState_labelled (report : Dict) (create : Bool) :
    reportState (labelled report create (reportState report)) = reportState report := by
  unfold labelled
  split
  · exact reportState_writeState report
  · rfl

theorem reportState_recorded (report : Dict) (create : Bool) (disposition : Disposition) :
    reportState (recorded report create disposition) = reportState report := by
  unfold recorded
  split
  · exact reportState_put (by decide) (by decide) _
  · rfl

theorem restate_reads (report : Dict) (create : Bool) :
    SameReads report (restateClassification report create) :=
  (labelled_reads report create _).trans (recorded_reads _ create _)

/-- A restatement leaves every field but its two answers. -/
theorem restate_other (h : name ∉ ["evidence_state", "release_evidence"]) (report : Dict)
    (create : Bool) : (restateClassification report create).get name = report.get name := by
  have hstate : name ≠ "evidence_state" := fun h' => h (by simp [h'])
  have hrelease : name ≠ "release_evidence" := fun h' => h (by simp [h'])
  have hwrite : (labelled report create (reportState report)).get name = report.get name := by
    unfold labelled
    rw [writeState_eq]
    split <;> try split
    all_goals first | exact Dict.get_put_other hstate | rfl
  rw [restate_eq]
  unfold recorded
  split
  · exact (Dict.get_put_other hrelease).trans hwrite
  · exact hwrite

theorem reportState_restate (report : Dict) (create : Bool) :
    reportState (restateClassification report create) = reportState report := by
  rw [restate_eq, reportState_recorded, reportState_labelled]

theorem releaseDisposition_restate (report : Dict) (create : Bool) :
    releaseDisposition (restateClassification report create) = releaseDisposition report :=
  releaseDisposition_congr (restate_reads report create) (reportState_restate report create)

/-- A state written once is not written again, whatever disposition was recorded
after it. -/
theorem labelled_recorded (report : Dict) (create : Bool) (state : ReportState) (disposition : Disposition) :
    labelled (recorded (labelled report create state) create disposition) create state =
      recorded (labelled report create state) create disposition := by
  by_cases hlabel : (create || report.has "evidence_state") = true
  · have hwritten : labelled report create state = writeState report state := if_pos hlabel
    rw [hwritten]
    unfold labelled recorded
    split
    · rw [writeState_again, ite_self]
    · rw [writeState_writeState, ite_self]
  · have hnone : labelled report create state = report := if_neg hlabel
    rw [hnone]
    unfold labelled recorded
    split
    · have hput (v : Value) : (report.put "release_evidence" v).has "evidence_state" = report.has "evidence_state" := by
        simp only [Dict.has]
        rw [Dict.find_put_other (by decide)]
      rw [hput, if_neg hlabel]
    · rfl

theorem recorded_recorded (report : Dict) (create : Bool) (disposition : Disposition) :
    recorded (recorded report create disposition) create disposition = recorded report create disposition := by
  by_cases hrecord : (create || report.has "release_evidence") = true
  · have hwritten : recorded report create disposition =
        report.put "release_evidence" (.str disposition.text) := if_pos hrecord
    rw [hwritten]
    unfold recorded
    rw [Dict.put_put, ite_self]
  · have hnone : recorded report create disposition = report := if_neg hrecord
    rw [hnone, hnone]

/-- The second restating finds both answers as the first one wrote them. -/
theorem restate_restate (report : Dict) (create : Bool) :
    restateClassification (restateClassification report create) create = restateClassification report create := by
  calc restateClassification (restateClassification report create) create
      = recorded (labelled (restateClassification report create) create (reportState report)) create
          (releaseDisposition report) := by
        rw [restate_eq, reportState_restate, releaseDisposition_restate]
    _ = recorded (restateClassification report create) create (releaseDisposition report) := by
        rw [restate_eq report, labelled_recorded]
    _ = restateClassification report create := by
        rw [restate_eq report, recorded_recorded]

theorem markRun_reads (report : Dict) (runId generatedAt : String) :
    SameReads report (markRun report runId generatedAt) :=
  ((SameReads.refl report).put (by decide) _).put (by decide) _

theorem statusOf_markRun (report : Dict) (runId generatedAt : String) :
    statusOf (markRun report runId generatedAt) = statusOf report := by
  unfold markRun
  rw [statusOf_put (by decide) (by decide), statusOf_put (by decide) (by decide)]

/-- What a stamp writes in a cycle before it classifies. -/
def inCycle (report : Dict) (runId generatedAt cycle : String) : Dict :=
  (markRun report runId generatedAt).put "evidence_cycle_id" (.str cycle)

theorem reportState_inCycle (report : Dict) (runId generatedAt cycle : String) :
    reportState (inCycle report runId generatedAt cycle) = reportState report := by
  unfold inCycle
  rw [reportState_put (by decide) (by decide)]
  exact reportState_congr (markRun_reads report runId generatedAt) (statusOf_markRun report runId generatedAt)

theorem releaseDisposition_inCycle (report : Dict) (runId generatedAt cycle : String) :
    releaseDisposition (inCycle report runId generatedAt cycle) = releaseDisposition report := by
  have hreads : SameReads report (inCycle report runId generatedAt cycle) :=
    (markRun_reads report runId generatedAt).put (by decide) _
  exact releaseDisposition_congr hreads (reportState_inCycle report runId generatedAt cycle)

theorem stampReport_inCycle {runId cycle : String} (h : currentCycle dir runId = .ok cycle)
    (report : Dict) (generatedAt : String) :
    stampReport dir report runId generatedAt =
      restateClassification (inCycle report runId generatedAt cycle) true := by
  unfold stampReport
  rw [h]
  rfl

@[simp] theorem file_write_self (dir : GraphDir) (path : String × String) (content : Content) :
    (dir.write path content).file path = some content := by
  simp [GraphDir.write, GraphDir.file]

theorem file_write_other {path other : String × String} (h : other ≠ path) (content : Content) :
    (dir.write path content).file other = dir.file other := by
  simp [GraphDir.write, GraphDir.file, Ne.symm h]

theorem stampFile_file {path : String × String} {report : Dict}
    (h : dir.file path = some (.object report)) (runId generatedAt : String) :
    (stampFile dir path runId generatedAt).file path =
      some (.object (stampReport dir report runId generatedAt)) := by
  unfold stampFile
  rw [h, file_write_self]

/-- A report stamped in the current cycle reads, from its file, as it read before;
the first report of a cycle does too, and stamping again writes nothing new. -/
theorem stamp_keeps_reading (dir : GraphDir) (path : String × String) (report : Dict)
    (runId generatedAt uid cycle : String) (hcycle : currentCycle dir runId = .ok cycle)
    (hfile : dir.file path = some (.object report)) :
    (∃ stamped, (stampFile dir path runId generatedAt).file path = some (.object stamped) ∧
      reportState stamped = reportState report ∧ releaseDisposition stamped = releaseDisposition report ∧
      restateClassification stamped true = stamped) ∧
    (∃ stamped opened, startCycle dir report runId generatedAt uid = (stamped, opened) ∧
      reportState stamped = reportState report ∧ releaseDisposition stamped = releaseDisposition report ∧
      restateClassification stamped true = stamped) ∧
    ∀ create, restateClassification (restateClassification report create) create =
      restateClassification report create := by
  refine ⟨⟨_, stampFile_file hfile runId generatedAt, ?_⟩, ⟨_, _, rfl, ?_⟩, restate_restate report⟩
  · rw [stampReport_inCycle hcycle]
    refine ⟨?_, ?_, restate_restate _ true⟩
    · rw [reportState_restate, reportState_inCycle]
    · rw [releaseDisposition_restate, releaseDisposition_inCycle]
  · refine ⟨?_, ?_, restate_restate _ true⟩
    · exact (reportState_restate _ true).trans (reportState_inCycle report runId generatedAt _)
    · exact (releaseDisposition_restate _ true).trans (releaseDisposition_inCycle report runId generatedAt _)

/-- A green suite whose repository gate was not run, in an open cycle. -/
def notRunReport : Dict := [("passed", .bool false), ("evidence_state", .str "not_run")]

def openDir : GraphDir where
  manifest := some (.object [("run_id", .str "run-1"), ("evidence_cycle_id", .str "run-1:a")])
  files := [(("5_test", "test_report.json"), .object notRunReport)]

theorem stamp_keeps_reading_notRun :
    ∃ stamped, (stampFile openDir ("5_test", "test_report.json") "run-1" "t1").file ("5_test", "test_report.json") =
        some (.object stamped) ∧
      reportState stamped = reportState notRunReport ∧
      releaseDisposition stamped = releaseDisposition notRunReport ∧
      restateClassification stamped true = stamped :=
  (stamp_keeps_reading openDir ("5_test", "test_report.json") notRunReport "run-1" "t1" "b" "run-1:a" rfl rfl).1

end AItelier.Gates
