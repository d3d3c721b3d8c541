import AItelier.Gates.Chain

namespace AItelier.Gates

open AItelier.Lib

/-- The lists of a verdict a gate that does not pass is put in. -/
inductive Bucket
  | staleReports | missingReports | skippedGates | failedGates | knownFailures | pendingGates | blindGates
  | infrastructureUnavailableGates | incompleteCoverageGates
  deriving DecidableEq, Repr

def bucketRows : List (String × Bucket) :=
  [("stale", .staleReports), ("unreadable", .staleReports), ("missing", .missingReports), ("skipped", .skippedGates),
    ("failed", .failedGates), ("known_failure", .knownFailures), ("pending", .pendingGates), ("blind", .blindGates),
    ("infrastructure_unavailable", .infrastructureUnavailableGates),
    ("coverage_incomplete", .incompleteCoverageGates), ("partial", .incompleteCoverageGates),
    ("provisional", .incompleteCoverageGates)]

/-- A state with no row of its own is charged to the code. -/
def bucketOf (state : String) : Bucket :=
  match bucketRows.find? (fun row => row.1 == state) with
  | some row => row.2
  | none => .failedGates

/-- The order in which a verdict that does not pass is named after its buckets. -/
def verdictStates : List (String × Bucket) :=
  [("stale", .staleReports), ("missing", .missingReports),
    ("infrastructure_unavailable", .infrastructureUnavailableGates), ("blind", .blindGates), ("pending", .pendingGates),
    ("known_failure", .knownFailures), ("failed", .failedGates), ("coverage_incomplete", .incompleteCoverageGates),
    ("skipped", .skippedGates)]

structure Verdict where
  runId : String
  cycle : String
  state : String
  passed : Bool
  summary : Option String
  bucket : Bucket → List Dict
  audited : List Dict

def Verdict.fresh (runId : String) : Verdict := ⟨runId, "", "fresh", true, none, fun _ => [], []⟩

def auditGate (dir : GraphDir) (runId cycle : String) (pair : Value) : Dict :=
  match gatePath pair with
  | none => invalidGate pair
  | some path => auditOne dir path runId cycle

def Verdict.add (v : Verdict) (entry : Dict) : Verdict :=
  let v := { v with audited := v.audited ++ [entry] }
  if (entry.get "passed").truthy then v
  else
    let mine := bucketOf (entry.get "state").toText
    { v with passed := false, bucket := fun b => if b = mine then v.bucket b ++ [entry] else v.bucket b }

/-- The verdict is named after the first of its buckets that holds a gate. -/
def Verdict.named (v : Verdict) : Verdict :=
  if v.passed then v
  else
    match verdictStates.find? (fun row => !(v.bucket row.2).isEmpty) with
    | some row => { v with state := row.1 }
    | none => v

/-- The verdict before its gates: a cycle that cannot be established fails it. -/
def Verdict.opened (dir : GraphDir) (runId : String) : Verdict :=
  match currentCycle dir runId with
  | .ok cycle => { Verdict.fresh runId with cycle := cycle }
  | .error exc => { Verdict.fresh runId with
      state := "stale", passed := false, summary := some ("Cannot establish current evidence cycle: " ++ exc) }

/-- `audit_evidence`. -/
def auditEvidence (dir : GraphDir) (runId : String) (gates : List Value) : Verdict :=
  if gates.isEmpty then
    { Verdict.fresh runId with
      state := "audit_error", passed := false,
      summary := some "No gate reports were declared; zero evidence cannot pass." }
  else
    let start := Verdict.opened dir runId
    (gates.foldl (fun v pair => v.add (auditGate dir runId start.cycle pair)) start).named

variable {report : Dict} {dir : GraphDir} {path : String × String} {runId cycle : String} {pair : Value}
  {gates : List Value}

/-- The report of a declared gate, where it is of the run's current cycle. -/
structure CurrentReport (dir : GraphDir) (runId : String) (pair : Value) (report : Dict) : Prop where
  file : ∃ path, gatePath pair = some path ∧ dir.file path = some (.object report)
  current : ∃ cycle, currentCycle dir runId = .ok cycle ∧ Current report runId cycle

/-- The entry of a gate in the verdict. -/
def entryOf (dir : GraphDir) (runId : String) (pair : Value) : Dict :=
  auditGate dir runId (Verdict.opened dir runId).cycle pair

/-- Only measured failures are charged, only released passes pass, and every other gate
stands in one bucket. -/
structure Charges (dir : GraphDir) (runId : String) (gates : List Value) : Prop where
  failed : ∀ pair ∈ gates, entryOf dir runId pair ∈ (auditEvidence dir runId gates).bucket .failedGates →
    ∃ report, CurrentReport dir runId pair report ∧ reportState report = .failed
  passed : ∀ pair ∈ gates, (entryOf dir runId pair).get "passed" = .bool true ↔
    ∃ report, CurrentReport dir runId pair report ∧ releaseDisposition report = .passed
  audited : (auditEvidence dir runId gates).audited = gates.map (entryOf dir runId)
  once : ∀ pair ∈ gates, (entryOf dir runId pair).get "passed" ≠ .bool true →
    ∃! b, entryOf dir runId pair ∈ (auditEvidence dir runId gates).bucket b
  out : ∀ pair ∈ gates, (entryOf dir runId pair).get "passed" = .bool true →
    ∀ b, entryOf dir runId pair ∉ (auditEvidence dir runId gates).bucket b

/-- A report whose state has a bucket, and whose upstream state, if it names one, is not
another verdict than its own. -/
structure Chargeable (report : Dict) : Prop where
  attributed : reportState report ≠ .unattributed ∧ reportState report ≠ .unattributable
  upstream : (report.get "upstream_state").truthy = true → (coverageRefusal report).isSome ∨
    provisionalRound report = true ∨ ((report.get "upstream_state").toText = "passed" ↔ reportState report = .passed)

theorem auditOne_stale (h : ¬ ∃ report, dir.file path = some (.object report) ∧
    Current report runId cycle ∧ cycle ≠ "") :
    (auditOne dir path runId cycle).get "passed" = .bool false ∧
      ∃ s ∈ ["missing", "unreadable", "stale"], (auditOne dir path runId cycle).get "state" = .str s := by
  cases hfile : dir.file path with
  | none =>
    simp only [auditOne, hfile]
    exact ⟨rfl, "missing", by decide, rfl⟩
  | some content =>
    cases content with
    | unreadable exc =>
      simp only [auditOne, hfile]
      exact ⟨rfl, "unreadable", by decide, rfl⟩
    | object report =>
      have hold : (cycle == "" || !(report.get "run_id").isText runId ||
          !(report.get "evidence_cycle_id").isText cycle) = true := by
        by_contra hnew
        simp only [Bool.or_eq_true, not_or, Bool.not_eq_true', beq_iff_eq, Bool.not_eq_false, Value.isText_iff] at hnew
        exact h ⟨report, hfile, ⟨hnew.1.2, hnew.2⟩, hnew.1.1⟩
      simp only [auditOne, hfile, hold, if_true]
      exact ⟨rfl, "stale", by decide, rfl⟩

theorem opened_cycle (h : currentCycle dir runId = .ok cycle) : (Verdict.opened dir runId).cycle = cycle := by
  rw [Verdict.opened, h]

theorem entry_current (h : CurrentReport dir runId pair report) :
    (entryOf dir runId pair).get "passed" = .bool (auditPasses report) ∧
      (entryOf dir runId pair).get "state" = .str (auditState report) := by
  obtain ⟨⟨path, hpath, hfile⟩, cycle, hcycle, hcurrent⟩ := h
  have hone := auditOne_current hfile hcurrent (currentCycle_ne_empty hcycle)
  rw [entryOf, auditGate, hpath, opened_cycle hcycle]
  exact hone.1

theorem entry_stale (h : ¬ ∃ report, CurrentReport dir runId pair report) :
    (entryOf dir runId pair).get "passed" = .bool false ∧
      ∃ s ∈ ["missing", "unreadable", "stale"], (entryOf dir runId pair).get "state" = .str s := by
  rw [entryOf, auditGate]
  cases hpath : gatePath pair with
  | none => exact ⟨rfl, "unreadable", by decide, rfl⟩
  | some path =>
    apply auditOne_stale
    rintro ⟨report, hfile, hcurrent, hne⟩
    cases hcycle : currentCycle dir runId with
    | error exc =>
      rw [Verdict.opened, hcycle] at hne
      exact hne rfl
    | ok cycle =>
      rw [opened_cycle hcycle] at hcurrent
      exact h ⟨report, ⟨path, hpath, hfile⟩, cycle, hcycle, hcurrent⟩

theorem CurrentReport.unique {other : Dict} (h : CurrentReport dir runId pair report)
    (h' : CurrentReport dir runId pair other) : report = other := by
  obtain ⟨path, hpath, hfile⟩ := h.file
  obtain ⟨path', hpath', hfile'⟩ := h'.file
  obtain rfl := Option.some.inj (hpath.symm.trans hpath')
  cases hfile.symm.trans hfile'
  rfl

def Charged (b : Bucket) (entry : Dict) : Bool :=
  !(entry.get "passed").truthy && decide (bucketOf (entry.get "state").toText = b)

theorem foldl_add (v : Verdict) (entries : List Dict) :
    (entries.foldl Verdict.add v).audited = v.audited ++ entries ∧
      ∀ b, (entries.foldl Verdict.add v).bucket b = v.bucket b ++ entries.filter (Charged b) := by
  induction entries generalizing v with
  | nil => simp
  | cons entry entries ih =>
    obtain ⟨haudited, hbucket⟩ := ih (v.add entry)
    have hadd : (v.add entry).audited = v.audited ++ [entry] := by
      unfold Verdict.add
      simp only
      split <;> rfl
    have hone (b : Bucket) : (v.add entry).bucket b = v.bucket b ++ if Charged b entry then [entry] else [] := by
      unfold Verdict.add Charged
      simp only
      split
      · next hp => simp [hp]
      · next hp =>
        by_cases hb : b = bucketOf (entry.get "state").toText
        · simp [hp, hb]
        · simp [hp, hb, Ne.symm hb]
    rw [List.foldl_cons]
    refine ⟨?_, fun b => ?_⟩
    · rw [haudited, hadd, List.append_assoc, List.singleton_append]
    · rw [hbucket, hone, List.append_assoc, List.filter_cons]
      split <;> rfl

theorem named_lists (v : Verdict) : v.named.audited = v.audited ∧ v.named.bucket = v.bucket := by
  unfold Verdict.named
  split
  · exact ⟨rfl, rfl⟩
  · split <;> exact ⟨rfl, rfl⟩

theorem opened_lists (dir : GraphDir) (runId : String) :
    (Verdict.opened dir runId).audited = [] ∧ ∀ b, (Verdict.opened dir runId).bucket b = [] := by
  unfold Verdict.opened
  split <;> exact ⟨rfl, fun _ => rfl⟩

/-- The lists of a verdict: every gate's entry, and in a bucket those charged to it. -/
theorem verdict_lists (dir : GraphDir) (runId : String) (gates : List Value) :
    (auditEvidence dir runId gates).audited = gates.map (entryOf dir runId) ∧
      ∀ b, (auditEvidence dir runId gates).bucket b = (gates.map (entryOf dir runId)).filter (Charged b) := by
  unfold auditEvidence
  split
  · next hnil =>
    rw [List.isEmpty_iff.mp hnil]
    exact ⟨rfl, fun _ => rfl⟩
  · simp only
    rw [(named_lists _).1, (named_lists _).2]
    have hfold : gates.foldl (fun v pair => v.add (auditGate dir runId (Verdict.opened dir runId).cycle pair))
        (Verdict.opened dir runId) = (gates.map (entryOf dir runId)).foldl Verdict.add (Verdict.opened dir runId) := by
      rw [List.foldl_map]
      rfl
    obtain ⟨haudited, hbucket⟩ := foldl_add (Verdict.opened dir runId) (gates.map (entryOf dir runId))
    rw [hfold, haudited, (opened_lists dir runId).1]
    refine ⟨rfl, fun b => ?_⟩
    rw [hbucket, (opened_lists dir runId).2]
    rfl

theorem mem_bucket {b : Bucket} (hpair : pair ∈ gates) :
    entryOf dir runId pair ∈ (auditEvidence dir runId gates).bucket b ↔ Charged b (entryOf dir runId pair) = true := by
  rw [(verdict_lists dir runId gates).2, List.mem_filter]
  exact and_iff_right (List.mem_map_of_mem hpair)

theorem bucketOf_failed (hblocks : auditPasses report = false) : bucketOf (auditState report) = .failedGates ↔
    reportState report = .failed ∨ reportState report = .unattributed ∨ reportState report = .unattributable := by
  unfold auditState
  split
  · next h =>
    rw [h.1]
    decide
  · next hfull =>
    unfold auditPasses at hblocks
    cases hstate : reportState report with
    | passed =>
      rw [hstate] at hblocks hfull
      simp_all
    | _ => decide

theorem reportState_absent (h : reportState report = .passed) : (report.get "skipped_because").truthy = false := by
  by_contra hskip
  rw [Bool.not_eq_false] at hskip
  have hany : skipMarkers.any (fun name => (report.get name).truthy) = true :=
    List.any_eq_true.mpr ⟨"skipped_because", by decide, hskip⟩
  have habsent : ∃ s, absenceState report (rawPassed report) = some s ∧ s ≠ .passed := by
    unfold absenceState
    simp only [hany, Bool.true_or, if_true]
    repeat' split
    all_goals exact ⟨_, rfl, by decide⟩
  obtain ⟨s, hs, hne⟩ := habsent
  unfold reportState at h
  simp only [hs] at h
  split at h
  · cases h
  split at h
  · cases h
  split at h
  · next heq =>
    split at heq
    · cases heq
    · cases heq
      exact hne h
  · next heq =>
    split at heq
    · next hred =>
      have hfalse : (rawPassed report).isFalse = true := by
        simp only [provisionalRedIsMeasured, Bool.and_eq_true] at hred
        exact hred.1.1.1.1
      rw [if_pos hfalse] at h
      split at h
      · split at h <;> cases h
      · cases h
    · cases heq

theorem dispositionOf_passed {state : String} {refused : Bool} :
    dispositionOf state refused = .passed ↔ state = "passed" ∧ refused = false := by
  unfold dispositionOf
  split
  · next h =>
    rw [beq_iff_eq] at h
    cases refused <;> simp [h]
  · next h =>
    rw [beq_iff_eq] at h
    split <;> simp [h]

/-- The audit and the release agree on a pass. -/
theorem passes_iff (report : Dict) : (auditPasses report = true ↔ releaseDisposition report = .passed) ↔
    ((report.get "upstream_state").truthy = true → (coverageRefusal report).isSome ∨
      provisionalRound report = true ∨
        ((report.get "upstream_state").toText = "passed" ↔ reportState report = .passed)) := by
  have hround : releaseDisposition report = if provisionalRound report then .unresolved
      else dispositionOf (releaseState report) (coverageRefusal report).isSome := rfl
  have hpasses : auditPasses report = true ↔ reportState report = .passed ∧
      (coverageRefusal report).isSome = false := by
    rw [auditPasses, Bool.and_eq_true, beq_iff_eq, ← Option.not_isSome, Bool.not_eq_true']
  cases hrefused : (coverageRefusal report).isSome with
  | true =>
    rw [hround, hpasses, hrefused]
    simp only [Bool.true_eq_false, and_false, true_or, implies_true, iff_true, false_iff]
    split
    · decide
    · rw [dispositionOf_passed]
      simp
  | false =>
    cases hr : provisionalRound report with
    | true =>
      rw [hround, hpasses, hr, reportState_provisional hr]
      simp
    | false =>
      rw [hround, hpasses, hr, hrefused]
      simp only [Bool.false_eq_true, if_false, dispositionOf_passed, and_true, false_or]
      cases hup : (report.get "upstream_state").truthy with
      | true =>
        rw [releaseState, if_pos hup]
        exact ⟨fun h _ => h.symm, fun h => (h rfl).symm⟩
      | false =>
        refine ⟨fun _ h => (by cases h), fun _ => ?_⟩
        rw [releaseState, if_neg (by rw [hup]; decide)]
        by_cases hskip : (report.get "skipped_because").isText "upstream_failed" = true
        · rw [if_pos hskip]
          refine ⟨fun hp => ?_, fun h => absurd h (by decide)⟩
          have habsent := reportState_absent hp
          rw [Value.isText_iff.mp hskip] at habsent
          exact absurd habsent (by decide)
        · rw [if_neg hskip]
          cases reportState report <;> decide

theorem unattributed_charged (h : CurrentReport dir runId pair report)
    (hstate : reportState report = .unattributed ∨ reportState report = .unattributable) :
    Charged .failedGates (entryOf dir runId pair) = true := by
  obtain ⟨hpassed, hst⟩ := entry_current h
  have hblocks : auditPasses report = false := by
    unfold auditPasses
    rcases hstate with hs | hs <;> rw [hs] <;> rfl
  rw [Charged, hpassed, hst, hblocks, Bool.and_eq_true]
  exact ⟨rfl, decide_eq_true ((bucketOf_failed hblocks).mpr (.inr hstate))⟩

theorem truthy_bool {entry : Dict} (h : entry.get "passed" ≠ .bool true)
    (hb : ∃ b, entry.get "passed" = .bool b) : (entry.get "passed").truthy = false := by
  obtain ⟨b, hb⟩ := hb
  cases b with
  | true => exact absurd hb h
  | false =>
    rw [hb]
    rfl

theorem entry_bool (dir : GraphDir) (runId : String) (pair : Value) :
    ∃ b, (entryOf dir runId pair).get "passed" = .bool b := by
  by_cases h : ∃ report, CurrentReport dir runId pair report
  · obtain ⟨report, h⟩ := h
    exact ⟨_, (entry_current h).1⟩
  · exact ⟨_, (entry_stale h).1⟩

/-- A verdict charges only measured failures exactly where the state of every current
report has a bucket and no report names an upstream state of another verdict. -/
theorem audit_charges_measured (dir : GraphDir) (runId : String) (gates : List Value) :
    Charges dir runId gates ↔
      ∀ pair ∈ gates, ∀ report, CurrentReport dir runId pair report → Chargeable report := by
  constructor
  · intro h pair hpair report hcurrent
    refine ⟨?_, (passes_iff report).mp ?_⟩
    · have hmeasured (hstate : reportState report = .unattributed ∨ reportState report = .unattributable) : False := by
        obtain ⟨other, hother, hfailed⟩ :=
          h.failed pair hpair ((mem_bucket hpair).mpr (unattributed_charged hcurrent hstate))
        rw [← hcurrent.unique hother] at hfailed
        rcases hstate with hs | hs <;> rw [hs] at hfailed <;> cases hfailed
      exact ⟨fun hs => hmeasured (.inl hs), fun hs => hmeasured (.inr hs)⟩
    · have hpassed := h.passed pair hpair
      rw [(entry_current hcurrent).1, Value.bool.injEq] at hpassed
      refine hpassed.trans ⟨?_, fun hp => ⟨report, hcurrent, hp⟩⟩
      rintro ⟨other, hother, hp⟩
      rwa [hcurrent.unique hother]
  · intro h
    refine ⟨fun pair hpair hin => ?_, fun pair hpair => ?_, (verdict_lists dir runId gates).1,
      fun pair hpair hout => ?_, fun pair hpair hpass b hin => ?_⟩
    · have hcharged := (mem_bucket hpair).mp hin
      rw [Charged, Bool.and_eq_true, decide_eq_true_eq] at hcharged
      by_cases hc : ∃ report, CurrentReport dir runId pair report
      · obtain ⟨report, hc⟩ := hc
        rw [(entry_current hc).1, (entry_current hc).2] at hcharged
        have hblocks : auditPasses report = false := by simpa [Value.truthy] using hcharged.1
        obtain ⟨hattributed, -⟩ := h pair hpair report hc
        rcases (bucketOf_failed hblocks).mp hcharged.2 with hs | hs | hs
        · exact ⟨report, hc, hs⟩
        · exact absurd hs hattributed.1
        · exact absurd hs hattributed.2
      · obtain ⟨-, s, hs, hstate⟩ := entry_stale hc
        rw [hstate] at hcharged
        have hnone : ∀ s ∈ ["missing", "unreadable", "stale"], bucketOf s ≠ .failedGates := by decide
        exact absurd hcharged.2 (hnone s hs)
    · by_cases hc : ∃ report, CurrentReport dir runId pair report
      · obtain ⟨report, hc⟩ := hc
        rw [(entry_current hc).1, Value.bool.injEq, (passes_iff report).mpr (h pair hpair report hc).upstream]
        refine ⟨fun hp => ⟨report, hc, hp⟩, ?_⟩
        rintro ⟨other, hother, hp⟩
        rwa [hc.unique hother]
      · rw [(entry_stale hc).1]
        refine ⟨fun hp => (by cases hp), ?_⟩
        rintro ⟨report, hreport, -⟩
        exact absurd ⟨report, hreport⟩ hc
    · have hfalse := truthy_bool hout (entry_bool dir runId pair)
      refine ⟨bucketOf ((entryOf dir runId pair).get "state").toText, ?_, fun b hb => ?_⟩
      · apply (mem_bucket hpair).mpr
        rw [Charged, hfalse]
        simp
      · have hcharged := (mem_bucket hpair).mp hb
        rw [Charged, Bool.and_eq_true, decide_eq_true_eq] at hcharged
        exact hcharged.2.symm
    · have hcharged := (mem_bucket hpair).mp hin
      rw [Charged, hpass, Bool.and_eq_true] at hcharged
      exact absurd hcharged.1 (by decide)

/-- A relative pass with no baseline behind it, of the current cycle. -/
def unattributedDir : GraphDir where
  manifest := some (.object [("run_id", .str "run-1"), ("evidence_cycle_id", .str "run-1:a")])
  files := [(("5_test", "test_report.json"), .object [("run_id", .str "run-1"), ("evidence_cycle_id", .str "run-1:a"),
    ("passed", .bool false), ("passed_relative", .bool true)])]

/-- It is charged as a failure. -/
theorem unattributed_charged_as_failed :
    ¬ Charges unattributedDir "run-1" [.arr [.str "5_test", .str "test_report.json"]] := by
  intro h
  have hcharged : Charged .failedGates
      (entryOf unattributedDir "run-1" (.arr [.str "5_test", .str "test_report.json"])) = true := by decide
  obtain ⟨report, hreport, hfailed⟩ := h.failed _ List.mem_cons_self ((mem_bucket List.mem_cons_self).mpr hcharged)
  obtain ⟨path, hpath, hfile⟩ := hreport.file
  cases hpath
  cases hfile
  exact absurd hfailed (by decide)

end AItelier.Gates
