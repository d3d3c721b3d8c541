import AItelier.Gates.Stamp

namespace AItelier.Gates

open AItelier.Lib

variable {report : Dict} {dir : GraphDir} {path : String × String} {runId cycle : String}

/-- A report of the run's current cycle. -/
structure Current (report : Dict) (runId cycle : String) : Prop where
  run : report.get "run_id" = .str runId
  cycle : report.get "evidence_cycle_id" = .str cycle

/-- The audit lets a gate through exactly on a pass its coverage may publish. -/
def auditPasses (report : Dict) : Bool :=
  reportState report == .passed && (coverageRefusal report).isNone

/-- The state the audit gives a current report. -/
def auditState (report : Dict) : String :=
  if reportState report = .passed ∧ (coverageRefusal report).isSome then "coverage_incomplete"
  else (reportState report).text

/-- The state text a marker behind this report is given. -/
def passedOn (report : Dict) : String :=
  if (report.get "upstream_state").truthy then (report.get "upstream_state").toText else auditState report

/-- A marker names a gate this way. -/
def gateName (path : String × String) : String := stripSlashes (path.1 ++ "/" ++ path.2)

/-- The keys of an audit entry that name its gate. -/
def entryNames : List String := ["step", "file", "upstream_state"]

theorem noteEntry_names {name : String} (h : name ∈ entryNames) (entry report : Dict) :
    (noteEntry entry report).get name = entry.get name := by
  have hput (d : Dict) (key : String) (v : Value) (hk : key ∉ entryNames) : (d.put key v).get name = d.get name := by
    apply Dict.get_put_other
    rintro rfl
    exact hk h
  dsimp only [noteEntry]
  cases coverageRefusal report <;> simp only <;> split <;> split <;> try split
  all_goals simp (disch := decide) only [hput]

theorem judgeEntry_reads (entry report : Dict) (where_ : String) :
    (judgeEntry entry report where_).get "passed" = .bool (auditPasses report) ∧
      (judgeEntry entry report where_).get "state" = .str (auditState report) ∧
      ∀ name ∈ entryNames, (judgeEntry entry report where_).get name = entry.get name := by
  have hput (d : Dict) (key name : String) (v : Value) (hk : name ≠ key) : (d.put key v).get name = d.get name :=
    Dict.get_put_other hk
  have hnote (name : String) (h : name ∈ entryNames) : (noteEntry entry report).get name = entry.get name :=
    noteEntry_names h entry report
  have hkept (d keys : Dict) (hkeys : ∀ f ∈ keys, f.1 ∉ entryNames) (name : String) (hn : name ∈ entryNames) :
      (d.update keys).get name = d.get name := by
    apply Dict.get_update_other
    rintro f hf rfl
    exact hkeys f hf hn
  unfold auditPasses auditState
  dsimp only [judgeEntry]
  by_cases hpassed : reportState report = .passed
  · cases hrefusal : coverageRefusal report with
    | some error =>
      simp only [hpassed, ↓reduceIte]
      refine ⟨?_, ?_, fun name hn => (hkept _ _ (by simp [entryNames]) name hn).trans (hnote name hn)⟩
      · simp (disch := decide) [Dict.update, hput]
      · simp (disch := decide) [Dict.update, hput]
    | none =>
      simp only [hpassed, ↓reduceIte, reduceCtorEq]
      refine ⟨?_, ?_, fun name hn => (hkept _ _ (by simp [entryNames]) name hn).trans (hnote name hn)⟩
      · simp (disch := decide) [Dict.update, hput]
      · simp (disch := decide) [Dict.update, hput]
  · simp only [hpassed, ↓reduceIte]
    split
    case isTrue hunreadable =>
      refine ⟨?_, ?_, fun name hn => (hkept _ _ (by simp [entryNames]) name hn).trans (hnote name hn)⟩
      · simp (disch := decide) [Dict.update, hput, hunreadable]
      · simp (disch := decide) [Dict.update, hput, hunreadable, ReportState.text]
    case isFalse hreadable =>
      refine ⟨?_, ?_, fun name hn => (hkept _ _ (by simp [entryNames]) name hn).trans (hnote name hn)⟩
      · simp (disch := decide) [Dict.update, hput, hpassed]
      · simp (disch := decide) [Dict.update, hput]

/-- The audit of a current report is its judgement. -/
theorem auditOne_current (hfile : dir.file path = some (.object report)) (hcurrent : Current report runId cycle)
    (hcycle : cycle ≠ "") :
    ((auditOne dir path runId cycle).get "passed" = .bool (auditPasses report) ∧
      (auditOne dir path runId cycle).get "state" = .str (auditState report)) ∧
    (auditOne dir path runId cycle).get "step" = .str path.1 ∧
      (auditOne dir path runId cycle).get "file" = .str path.2 ∧
      (auditOne dir path runId cycle).get "upstream_state" = .null := by
  have hjudged : auditOne dir path runId cycle =
      judgeEntry (((freshEntry path.1 path.2).put "run_id" (report.get "run_id")).put "evidence_cycle_id"
        (report.get "evidence_cycle_id")) report (path.1 ++ "/" ++ path.2) := by
    simp [auditOne, hfile, hcurrent.run, hcurrent.cycle, hcycle]
  obtain ⟨hpassed, hstate, hnames⟩ := judgeEntry_reads
    (((freshEntry path.1 path.2).put "run_id" (report.get "run_id")).put "evidence_cycle_id"
      (report.get "evidence_cycle_id")) report (path.1 ++ "/" ++ path.2)
  rw [hjudged]
  refine ⟨⟨hpassed, hstate⟩, ?_, ?_, ?_⟩
  · rw [hnames "step" (by decide)]
    rfl
  · rw [hnames "file" (by decide)]
    rfl
  · rw [hnames "upstream_state" (by decide)]
    rfl

theorem auditState_ne_empty (report : Dict) : auditState report ≠ "" := by
  unfold auditState
  split
  · decide
  · cases reportState report <;> decide

theorem auditState_ne_passed (h : auditPasses report = false) : auditState report ≠ "passed" := by
  unfold auditState
  split
  · decide
  · rename_i hstate
    cases hs : reportState report <;> simp_all [auditPasses, ReportState.text]

/-- What a current blocker tells the markers behind it. -/
theorem withUpstream_current (hfile : dir.file path = some (.object report)) (hcurrent : Current report runId cycle)
    (hcycle : cycle ≠ "") :
    upstreamState (withUpstream dir path (auditOne dir path runId cycle)) = passedOn report ∧
      upstreamName (withUpstream dir path (auditOne dir path runId cycle)) = gateName path := by
  obtain ⟨⟨-, hstate⟩, hstep, hname, hupstream⟩ := auditOne_current hfile hcurrent hcycle
  have hput (d : Dict) (key name : String) (v : Value) (hk : name ≠ key) : (d.put key v).get name = d.get name :=
    Dict.get_put_other hk
  unfold withUpstream passedOn
  simp only [hfile]
  split
  case isTrue hcarries =>
    constructor
    · unfold upstreamState
      rw [Dict.get_put_self]
      rw [Value.orElse_truthy hcarries, Value.orElse_truthy hcarries]
    · unfold upstreamName gateName
      rw [hput _ _ _ _ (by decide), hput _ _ _ _ (by decide), hstep, hname]
      rfl
  case isFalse hnone =>
    constructor
    · unfold upstreamState
      have hstated : (Value.str (auditState report)).truthy = true := by simp [auditState_ne_empty]
      rw [hupstream, hstate, Value.orElse_falsy (v := .null) (by simp [Value.truthy]),
        Value.orElse_truthy hstated, Value.toText_str]
    · unfold upstreamName gateName
      rw [hstep, hname]
      rfl

theorem upstreamState_ne_empty (blocker : Dict) : upstreamState blocker ≠ "" := by
  apply Value.toText_ne_empty
  exact Value.truthy_orElse _ rfl

/-- A marker reads as a gate that was skipped for the state it was passed. -/
theorem upstreamFailedReport_reads (blocker : Dict) (gate : String) :
    reportState (upstreamFailedReport blocker gate) = .skipped ∧
      releaseDisposition (upstreamFailedReport blocker gate) = dispositionOf (upstreamState blocker) false ∧
      (upstreamFailedReport blocker gate).get "upstream_state" = .str (upstreamState blocker) ∧
      (upstreamFailedReport blocker gate).get "upstream_gate" = .str (upstreamName blocker) := by
  have hupstream : (upstreamFailedReport blocker gate).get "upstream_state" = .str (upstreamState blocker) := rfl
  have hpurpose : (upstreamFailedReport blocker gate).get "purpose" = .null := rfl
  have hraw : rawPassed (upstreamFailedReport blocker gate) = .bool false := rfl
  have hcoverage : coverageRefusal (upstreamFailedReport blocker gate) = none := rfl
  have habsent : absenceState (upstreamFailedReport blocker gate) (.bool false) = some .skipped := by
    have hstatus : statusOf (upstreamFailedReport blocker gate) = "" := by
      have hword : statusOf (upstreamFailedReport blocker gate) = statusWord (.str "") := rfl
      rw [hword]
      decide
    have hnone : ∀ name ∈ ["pending", "infrastructure_unavailable", "blind", "blind_builder", "node_unmeasured"],
        (upstreamFailedReport blocker gate).get name = .null := by
      intro name hn
      simp only [List.mem_cons, List.not_mem_nil, or_false] at hn
      rcases hn with rfl | rfl | rfl | rfl | rfl <;> rfl
    have hskipped : (upstreamFailedReport blocker gate).get "gate_skipped" = .bool true := rfl
    unfold absenceState
    simp (disch := decide) [hstatus, hnone, hskipped, skipMarkers, Value.isTrue, Value.truthy, pendingStatuses,
      infraStatuses, unattributableStatuses]
  refine ⟨?_, ?_, rfl, rfl⟩
  · simp [reportState, hraw, hpurpose, habsent, provisionalRedIsMeasured, Value.isText, Value.isFalse]
  · simp [releaseDisposition, releaseState, hpurpose, hupstream, hcoverage, upstreamState_ne_empty, Value.isText]

/-- A stamped marker: current, blocking, and passing on the state it was passed. -/
theorem stamped_marker (hcycle : currentCycle dir runId = .ok cycle) (blocker : Dict) (gate generatedAt : String) :
    let marker := stampReport dir (upstreamFailedReport blocker gate) runId generatedAt
    Current marker runId cycle ∧ reportState marker = .skipped ∧
      releaseDisposition marker = dispositionOf (upstreamState blocker) false ∧
      marker.get "upstream_state" = .str (upstreamState blocker) ∧
      marker.get "upstream_gate" = .str (upstreamName blocker) := by
  intro marker
  obtain ⟨hstate, hdisposition, hupstream, hgate⟩ := upstreamFailedReport_reads blocker gate
  have hmarker : marker = restateClassification
      (inCycle (upstreamFailedReport blocker gate) runId generatedAt cycle) true :=
    stampReport_inCycle hcycle _ generatedAt
  have hreads : SameReads (upstreamFailedReport blocker gate) marker := by
    rw [hmarker]
    exact ((markRun_reads _ runId generatedAt).put (by decide) _).trans (restate_reads _ true)
  refine ⟨⟨?_, ?_⟩, ?_, ?_, ?_, ?_⟩
  · rw [hmarker, restate_other (by decide)]
    unfold inCycle markRun
    rw [Dict.get_put_other (by decide), Dict.get_put_other (by decide), Dict.get_put_self]
  · rw [hmarker, restate_other (by decide)]
    exact Dict.get_put_self
  · rw [hmarker, reportState_restate, reportState_inCycle, hstate]
  · rw [hmarker, releaseDisposition_restate, releaseDisposition_inCycle, hdisposition]
  · rw [hreads.get (by decide), hupstream]
  · rw [hreads.get (by decide), hgate]

/-- A later gate of a release chain: the reports it declares, and how it signs the
marker it writes instead of running. -/
structure Gate where
  path : String × String
  label : String
  declared : List (String × String)
  generatedAt : String

def Gate.pairs (gate : Gate) : List Value :=
  gate.declared.map fun p => .arr [.str p.1, .str p.2]

/-- A gate that does not run behind a blocker: the marker is written, then
stamped. -/
def skipGate (runId : String) (dir : GraphDir) (gate : Gate) : GraphDir :=
  match firstUpstreamBlocker dir runId (.ok gate.pairs) with
  | some blocker =>
    stampFile (dir.write gate.path (.object (upstreamFailedReport blocker gate.label))) gate.path runId
      gate.generatedAt
  | none => dir

def skipGates (runId : String) (dir : GraphDir) (gates : List Gate) : GraphDir :=
  gates.foldl (skipGate runId) dir

/-- Every gate writes a report of its own, and declares reports of the chain before
it, beside ones outside the chain that pass. -/
def Chained (clean : List (String × String)) : List (String × String) → List Gate → Prop
  | _, [] => True
  | earlier, gate :: rest =>
    gate.path ∉ earlier ∧ gate.path ∉ clean ∧ (∀ p ∈ gate.declared, p ∈ earlier ∨ p ∈ clean) ∧
      (∃ p ∈ gate.declared, p ∉ clean) ∧ Chained clean (gate.path :: earlier) rest

/-- The report at a path of the chain: it blocks, and passes `state` on. -/
def Carries (dir : GraphDir) (runId cycle state : String) (path : String × String) : Prop :=
  ∃ report, dir.file path = some (.object report) ∧ Current report runId cycle ∧ auditPasses report = false ∧
    passedOn report = state

def Clean (dir : GraphDir) (runId cycle : String) (path : String × String) : Prop :=
  ((auditOne dir path runId cycle).get "passed").truthy = true

theorem auditOne_congr {dir' : GraphDir} (h : dir'.file path = dir.file path) :
    auditOne dir' path runId cycle = auditOne dir path runId cycle := by
  unfold auditOne
  rw [h]

theorem currentCycle_ne_empty (h : currentCycle dir runId = .ok cycle) : cycle ≠ "" := by
  unfold currentCycle at h
  split at h
  · cases h
  · split at h
    · cases h
    · cases h
    · split at h
      · split at h
        · cases h
        · rename_i hok
          simp only [Bool.or_eq_true, beq_iff_eq, not_or] at hok
          cases h
          exact hok.2
      · cases h

theorem firstUpstreamBlocker_cycle (h : currentCycle dir runId = .ok cycle) {gates : List Value} (hne : gates ≠ []) :
    firstUpstreamBlocker dir runId (.ok gates) = blockerAmong dir runId cycle gates := by
  cases gates with
  | nil => exact absurd rfl hne
  | cons pair rest => simp only [firstUpstreamBlocker, h]

variable {state : String} {clean : List (String × String)} {gate : Gate}

/-- The first declared gate outside the clean ones is the blocker. -/
theorem blockerAmong_chain {earlier clean declared : List (String × String)}
    (hcycle : cycle ≠ "") (hclean : ∀ p ∈ clean, Clean dir runId cycle p)
    (hcarries : ∀ p ∈ earlier, Carries dir runId cycle state p)
    (hdeclared : ∀ p ∈ declared, p ∈ earlier ∨ p ∈ clean)
    (hfirst : declared.find? (fun p => !clean.contains p) = some path) :
    blockerAmong dir runId cycle (declared.map fun p => .arr [.str p.1, .str p.2]) =
        some (withUpstream dir path (auditOne dir path runId cycle)) ∧
      path ∈ earlier := by
  induction declared with
  | nil => simp at hfirst
  | cons p rest ih =>
    have hentry : blockerAmong dir runId cycle ((p :: rest).map fun p => .arr [.str p.1, .str p.2]) =
        if ((auditOne dir p runId cycle).get "passed").truthy then
          blockerAmong dir runId cycle (rest.map fun p => .arr [.str p.1, .str p.2])
        else some (withUpstream dir p (auditOne dir p runId cycle)) := rfl
    rw [hentry]
    by_cases hin : p ∈ clean
    · have hrest : rest.find? (fun p => !clean.contains p) = some path := by
        simpa [hin] using hfirst
      have hpasses : ((auditOne dir p runId cycle).get "passed").truthy = true := hclean p hin
      rw [if_pos hpasses]
      exact ih (fun q hq => hdeclared q (List.mem_cons_of_mem p hq)) hrest
    · have hpath : p = path := by simpa [hin] using hfirst
      have hearlier : p ∈ earlier := (hdeclared p List.mem_cons_self).resolve_right hin
      obtain ⟨report, hfile, hcurrent, hblocks, -⟩ := hcarries p hearlier
      obtain ⟨⟨hpassed, -⟩, -⟩ := auditOne_current hfile hcurrent hcycle
      rw [hpassed, hblocks, if_neg (by simp [Value.truthy])]
      subst hpath
      exact ⟨rfl, hearlier⟩

/-- The marker at a gate of the chain. -/
structure Marks (dir : GraphDir) (runId cycle state : String) (clean : List (String × String)) (gate : Gate)
    (marker : Dict) : Prop where
  file : dir.file gate.path = some (.object marker)
  current : Current marker runId cycle
  skipped : reportState marker = .skipped
  disposition : releaseDisposition marker = dispositionOf state false
  passes : marker.get "upstream_state" = .str state
  names : ∃ p, gate.declared.find? (fun p => !clean.contains p) = some p ∧
    marker.get "upstream_gate" = .str (gateName p)

theorem auditPasses_skipped (h : reportState report = .skipped) : auditPasses report = false := by
  simp [auditPasses, h]

theorem Marks.carries {marker : Dict}
    (h : Marks dir runId cycle state clean gate marker) (hstate : state ≠ "") :
    Carries dir runId cycle state gate.path := by
  refine ⟨marker, h.file, h.current, auditPasses_skipped h.skipped, ?_⟩
  have htruthy : (Value.str state).truthy = true := by simp [hstate]
  unfold passedOn
  rw [h.passes, if_pos htruthy, Value.toText_str]

theorem passedOn_ne_empty (report : Dict) : passedOn report ≠ "" := by
  unfold passedOn
  split
  · exact Value.toText_ne_empty (by assumption)
  · exact auditState_ne_empty report

/-- One gate behind a blocker: its marker stands, and nothing else was touched. -/
theorem skipGate_marks {earlier clean : List (String × String)}
    (hcycle : currentCycle dir runId = .ok cycle) (hclean : ∀ p ∈ clean, Clean dir runId cycle p)
    (hcarries : ∀ p ∈ earlier, Carries dir runId cycle state p)
    (hdeclared : ∀ p ∈ gate.declared, p ∈ earlier ∨ p ∈ clean) (hsome : ∃ p ∈ gate.declared, p ∉ clean) :
    (∃ marker, Marks (skipGate runId dir gate) runId cycle state clean gate marker) ∧
      (skipGate runId dir gate).manifest = dir.manifest ∧
      ∀ p, p ≠ gate.path → (skipGate runId dir gate).file p = dir.file p := by
  have hnonempty : cycle ≠ "" := currentCycle_ne_empty hcycle
  obtain ⟨path, hfirst⟩ : ∃ path, gate.declared.find? (fun p => !clean.contains p) = some path := by
    obtain ⟨p, hp, hout⟩ := hsome
    apply Option.isSome_iff_exists.mp
    exact List.find?_isSome.mpr ⟨p, hp, by simpa using hout⟩
  obtain ⟨hblocker, hearlier⟩ := blockerAmong_chain hnonempty hclean hcarries hdeclared hfirst
  obtain ⟨report, hfile, hcurrent, hblocks, hpasses⟩ := hcarries path hearlier
  obtain ⟨hstate, hname⟩ := withUpstream_current hfile hcurrent hnonempty
  generalize hb : withUpstream dir path (auditOne dir path runId cycle) = blocker at hblocker hstate hname
  have hfound : firstUpstreamBlocker dir runId (.ok gate.pairs) = some blocker := by
    rw [firstUpstreamBlocker_cycle hcycle]
    · exact hblocker
    · intro hpairs
      rw [List.map_eq_nil_iff.mp hpairs] at hfirst
      simp at hfirst
  have hskip : skipGate runId dir gate =
      stampFile (dir.write gate.path (.object (upstreamFailedReport blocker gate.label))) gate.path runId
        gate.generatedAt := by
    unfold skipGate
    rw [hfound]
  have hopen : currentCycle (dir.write gate.path (.object (upstreamFailedReport blocker gate.label))) runId =
      .ok cycle := hcycle
  obtain ⟨hmark, hskipped, hdisposition, hupstream, hgate⟩ := stamped_marker hopen blocker gate.label gate.generatedAt
  rw [hskip]
  refine ⟨⟨_, ⟨stampFile_file (file_write_self _ _ _) _ _, hmark, hskipped, ?_, ?_, path, hfirst, ?_⟩⟩, rfl, ?_⟩
  · rw [hdisposition, hstate, hpasses]
  · rw [hupstream, hstate, hpasses]
  · rw [hgate, hname]
  · intro p hp
    exact (file_write_other hp _).trans (file_write_other hp _)

theorem Marks.other {dir' : GraphDir} {marker : Dict}
    (h : Marks dir runId cycle state clean gate marker) (hfile : dir'.file gate.path = dir.file gate.path) :
    Marks dir' runId cycle state clean gate marker :=
  { h with file := hfile.trans h.file }

/-- The whole chain, by induction over the gates that follow the blocker: what the
reports so far pass on is what the next marker is given. -/
theorem skipGates_marks (hstate : state ≠ "") {gates : List Gate} :
    ∀ {dir : GraphDir} {earlier : List (String × String)}, currentCycle dir runId = .ok cycle →
      (∀ p ∈ clean, Clean dir runId cycle p) → (∀ p ∈ earlier, Carries dir runId cycle state p) →
      Chained clean earlier gates →
      (∀ gate ∈ gates, ∃ marker, Marks (skipGates runId dir gates) runId cycle state clean gate marker) ∧
        ∀ p ∈ earlier, (skipGates runId dir gates).file p = dir.file p := by
  induction gates with
  | nil =>
    intro dir earlier _ _ _ _
    exact ⟨fun gate hgate => absurd hgate List.not_mem_nil, fun _ _ => rfl⟩
  | cons gate rest ih =>
    intro dir earlier hcycle hclean hcarries hchained
    obtain ⟨hnew, hout, hdeclared, hsome, hrest⟩ := hchained
    obtain ⟨⟨marker, hmarks⟩, hmanifest, hother⟩ := skipGate_marks hcycle hclean hcarries hdeclared hsome
    have hopen : currentCycle (skipGate runId dir gate) runId = .ok cycle := by
      rw [← hcycle]
      unfold currentCycle
      rw [hmanifest]
    have hstill : ∀ p ∈ clean, Clean (skipGate runId dir gate) runId cycle p := by
      intro p hp
      have hne : p ≠ gate.path := fun h => hout (h ▸ hp)
      unfold Clean
      rw [auditOne_congr (hother p hne)]
      exact hclean p hp
    have hcarry : ∀ p ∈ gate.path :: earlier, Carries (skipGate runId dir gate) runId cycle state p := by
      intro p hp
      rcases List.mem_cons.mp hp with rfl | hp
      · exact hmarks.carries hstate
      · obtain ⟨report, hfile, hreport⟩ := hcarries p hp
        have hne : p ≠ gate.path := fun h => hnew (h ▸ hp)
        exact ⟨report, (hother p hne).trans hfile, hreport⟩
    obtain ⟨hmarked, hkept⟩ := ih hopen hstill hcarry hrest
    refine ⟨?_, ?_⟩
    · intro g hg
      rcases List.mem_cons.mp hg with rfl | hg
      · exact ⟨marker, hmarks.other (hkept _ List.mem_cons_self)⟩
      · exact hmarked g hg
    · intro p hp
      have hne : p ≠ gate.path := fun h => hnew (h ▸ hp)
      exact (hkept p (List.mem_cons_of_mem _ hp)).trans (hother p hne)

/-- A provisional round whose producer measured no red. -/
def provisionalRound (report : Dict) : Bool :=
  (report.get "purpose").isText provisionalPurpose && !provisionalRedIsMeasured report

/-- A root that says of itself what it passes on: no upstream state that reads as
a pass, no failed one on a provisional round, and no inherited failure
without the state it was inherited with. -/
structure Consistent (report : Dict) : Prop where
  not_passed : (report.get "upstream_state").truthy = true → (report.get "upstream_state").toText ≠ "passed"
  provisional : provisionalRound report = true → (report.get "upstream_state").truthy = true →
    (report.get "upstream_state").toText ≠ "failed" ∧ (report.get "upstream_state").toText ≠ "known_failure"
  inherited : provisionalRound report = false → (report.get "upstream_state").truthy = false →
    report.get "skipped_because" = .str "upstream_failed" →
    reportState report = .failed ∨ reportState report = .knownFailure

theorem dispositionOf_unresolved {refused : Bool} (hp : state ≠ "passed") (hf : state ≠ "failed")
    (hk : state ≠ "known_failure") : dispositionOf state refused = .unresolved := by
  simp [dispositionOf, hp, hf, hk]

theorem dispositionOf_refused (hp : state ≠ "passed") (refused : Bool) :
    dispositionOf state refused = dispositionOf state false := by
  simp [dispositionOf, hp]

theorem reportState_provisional (h : provisionalRound report = true) : reportState report = .provisional := by
  unfold provisionalRound at h
  simp [reportState, h]

theorem auditState_disposition (h : auditPasses report = false) :
    dispositionOf (reportState report).text (coverageRefusal report).isSome =
      dispositionOf (auditState report) false := by
  by_cases hpassed : reportState report = .passed
  · have hrefused : (coverageRefusal report).isSome = true := by
      cases hr : coverageRefusal report <;> simp_all [auditPasses]
    unfold auditState
    rw [if_pos ⟨hpassed, hrefused⟩, hpassed, hrefused]
    rfl
  · unfold auditState
    rw [if_neg (fun h => hpassed h.1)]
    apply dispositionOf_refused
    cases hs : reportState report <;> simp_all [ReportState.text]

/-- A consistent blocker is released as the state it passes on is. -/
theorem Consistent.disposition (h : Consistent report) (hblocks : auditPasses report = false) :
    releaseDisposition report = dispositionOf (passedOn report) false ∧ passedOn report ≠ "passed" := by
  have hround : releaseDisposition report = if provisionalRound report then .unresolved
      else dispositionOf (releaseState report) (coverageRefusal report).isSome := rfl
  rw [hround]
  unfold passedOn releaseState
  cases hupstream : (report.get "upstream_state").truthy with
  | true =>
    simp only [↓reduceIte]
    have hne := h.not_passed hupstream
    refine ⟨?_, hne⟩
    cases hprov : provisionalRound report with
    | true =>
      obtain ⟨hf, hk⟩ := h.provisional hprov hupstream
      exact (dispositionOf_unresolved hne hf hk).symm
    | false => exact dispositionOf_refused hne _
  | false =>
    simp only [Bool.false_eq_true, ↓reduceIte]
    refine ⟨?_, auditState_ne_passed hblocks⟩
    cases hprov : provisionalRound report with
    | true =>
      rw [if_pos rfl, auditState, reportState_provisional hprov]
      rfl
    | false =>
      rw [if_neg Bool.false_ne_true, ← auditState_disposition hblocks]
      split
      case isTrue hinherited =>
        rcases h.inherited hprov hupstream (Value.isText_iff.mp hinherited) with hs | hs <;> rw [hs] <;> rfl
      case isFalse => rfl

/-- A chain of skipped gates keeps the verdict of its root, whatever its length:
every marker is released as the root is, none reads as a pass, and each names
the first declared gate that did not pass. -/
theorem chain_keeps_verdict {clean : List (String × String)} {gates : List Gate}
    (hcycle : currentCycle dir runId = .ok cycle) (hroot : dir.file path = some (.object report))
    (hcurrent : Current report runId cycle) (hblocks : ¬Clean dir runId cycle path) (hconsistent : Consistent report)
    (hclean : ∀ p ∈ clean, Clean dir runId cycle p) (hchained : Chained clean [path] gates) :
    ∀ gate ∈ gates, ∃ marker p, (skipGates runId dir gates).file gate.path = some (.object marker) ∧
      releaseDisposition marker = releaseDisposition report ∧
      reportState marker = .skipped ∧ releaseDisposition marker ≠ .passed ∧
      (auditOne (skipGates runId dir gates) gate.path runId cycle).get "passed" = .bool false ∧
      gate.declared.find? (fun p => !clean.contains p) = some p ∧
      marker.get "upstream_gate" = .str (gateName p) := by
  have hnonempty : cycle ≠ "" := currentCycle_ne_empty hcycle
  have hblocked : auditPasses report = false := by
    obtain ⟨⟨hpassed, -⟩, -⟩ := auditOne_current hroot hcurrent hnonempty
    unfold Clean at hblocks
    rw [hpassed] at hblocks
    simpa [Value.truthy] using hblocks
  obtain ⟨hdisposition, hnot⟩ := hconsistent.disposition hblocked
  have hcarries : ∀ p ∈ [path], Carries dir runId cycle (passedOn report) p := by
    intro p hp
    rw [List.mem_singleton.mp hp]
    exact ⟨report, hroot, hcurrent, hblocked, rfl⟩
  obtain ⟨hmarks, -⟩ := skipGates_marks (passedOn_ne_empty report) hcycle hclean hcarries hchained
  intro gate hgate
  obtain ⟨marker, hmark⟩ := hmarks gate hgate
  obtain ⟨p, hfirst, hname⟩ := hmark.names
  have hneverPassed : dispositionOf (passedOn report) false ≠ .passed := by
    unfold dispositionOf
    simp only [beq_iff_eq, hnot, ↓reduceIte]
    split <;> simp
  obtain ⟨⟨haudit, -⟩, -⟩ := auditOne_current hmark.file hmark.current hnonempty
  refine ⟨marker, p, hmark.file, ?_, hmark.skipped, ?_, ?_, hfirst, hname⟩
  · rw [hmark.disposition, hdisposition]
  · rw [hmark.disposition]
    exact hneverPassed
  · rw [haudit, auditPasses_skipped hmark.skipped]

/-- A confirmed failure of the first gate, in an open cycle. -/
def failedReport : Dict :=
  [("passed", .bool false), ("run_id", .str "run-1"), ("evidence_cycle_id", .str "run-1:a")]

def failedDir : GraphDir where
  manifest := some (.object [("run_id", .str "run-1"), ("evidence_cycle_id", .str "run-1:a")])
  files := [(("5_test", "test_report.json"), .object failedReport)]

/-- The compile gate declares the test report, the vision gate the compile report. -/
def shippedGates : List Gate :=
  [{ path := ("5_compile", "compile_report.json"), label := "Godot compile",
     declared := [("5_test", "test_report.json")], generatedAt := "t1" },
   { path := ("5_vision", "vision_report.json"), label := "Godot vision",
     declared := [("5_compile", "compile_report.json")], generatedAt := "t2" }]

theorem failedDir_cycle : currentCycle failedDir "run-1" = .ok "run-1:a" := rfl

theorem failedDir_file : failedDir.file ("5_test", "test_report.json") = some (.object failedReport) := rfl

theorem failedReport_blocks : ¬Clean failedDir "run-1" "run-1:a" ("5_test", "test_report.json") := by
  unfold Clean
  decide

theorem failedReport_consistent : Consistent failedReport where
  not_passed := by decide
  provisional := by decide
  inherited := fun _ _ h => by cases h

theorem shippedGates_chained : Chained [] [("5_test", "test_report.json")] shippedGates := by
  simp [Chained, shippedGates]

theorem chain_keeps_verdict_shipped : ∃ marker p,
    (skipGates "run-1" failedDir shippedGates).file ("5_vision", "vision_report.json") = some (.object marker) ∧
      releaseDisposition marker = releaseDisposition failedReport ∧
      reportState marker = .skipped ∧ releaseDisposition marker ≠ .passed ∧
      (auditOne (skipGates "run-1" failedDir shippedGates) ("5_vision", "vision_report.json") "run-1" "run-1:a").get
        "passed" = .bool false ∧
      [("5_compile", "compile_report.json")].find? (fun p => !([] : List (String × String)).contains p) = some p ∧
      marker.get "upstream_gate" = .str (gateName p) :=
  chain_keeps_verdict failedDir_cycle failedDir_file ⟨rfl, rfl⟩
    failedReport_blocks failedReport_consistent (fun _ h => absurd h List.not_mem_nil) shippedGates_chained
    { path := ("5_vision", "vision_report.json"), label := "Godot vision",
      declared := [("5_compile", "compile_report.json")], generatedAt := "t2" }
    (List.mem_cons_of_mem _ (List.mem_singleton_self _))

/-- The vision marker of a failed test gate names the compile gate. -/
theorem shipped_vision_names_compile :
    ¬∀ gate ∈ shippedGates, ∃ marker,
      (skipGates "run-1" failedDir shippedGates).file gate.path = some (.object marker) ∧
        marker.get "upstream_gate" = .str (gateName ("5_test", "test_report.json")) := by
  intro h
  obtain ⟨marker, hfile, hname⟩ := h shippedGates[1] (by simp [shippedGates])
  obtain ⟨report, hreport, hcompile⟩ : ∃ report, (skipGates "run-1" failedDir shippedGates).file
      ("5_vision", "vision_report.json") = some (.object report) ∧
      report.get "upstream_gate" = .str "5_compile/compile_report.json" := ⟨_, rfl, rfl⟩
  have hvision : (skipGates "run-1" failedDir shippedGates).file ("5_vision", "vision_report.json") =
      some (.object marker) := hfile
  rw [hvision] at hreport
  cases hreport
  exact absurd (Value.str.inj (hname.symm.trans hcompile)) (by decide)

end AItelier.Gates
