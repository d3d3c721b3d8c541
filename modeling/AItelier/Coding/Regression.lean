import AItelier.Coding.Outcome

namespace AItelier.Coding

open AItelier.Lib

variable {name : String} {v x : Value} {bytes : β}

theorem item_ok : item v name = .ok x ↔ ∃ d, v = .obj d ∧ Dict.find d name = some x := by
  cases v with
  | obj d => simp [item, orElse_ok]
  | _ => simp [item]

theorem field_of_item (h : item v name = .ok x) : field v name = x := by
  obtain ⟨d, rfl, hx⟩ := item_ok.mp h
  rw [field, Dict.get, hx]
  rfl

theorem fieldsOf_ok {v : Value} {d : Dict} : fieldsOf v = .ok d ↔ v = .obj d := by
  cases v <;> simp [fieldsOf]

/-- Fields that do not differ are there on both sides, and equal. -/
theorem same_of_differs {a b : Value} {names : List String} (h : differs a b names = .ok false) :
    ∀ name ∈ names, (field a name).pyEq (field b name) = true := by
  induction names with
  | nil => exact fun name hn => absurd hn List.not_mem_nil
  | cons name names ih =>
    simp only [differs, bind_ok] at h
    obtain ⟨x, hx, y, hy, h⟩ := h
    split at h
    · next heq =>
      intro other hother
      rcases List.mem_cons.mp hother with rfl | hother
      · rw [field_of_item hx, field_of_item hy]
        exact heq
      · exact ih h other hother
    · exact absurd (pure_ok.mp h) (by simp)

theorem failing_of_pyEq {previous case : Value} (h : previous.pyEq case = true) (hf : isFailing case = true) :
    isFailing previous = true ∧ (field previous "observation").pyEq (field case "observation") = true := by
  cases case with
  | obj e =>
    obtain ⟨d, rfl, -⟩ := Dict.pyEq_obj h
    refine ⟨?_, Value.get_pyEq h "observation"⟩
    simp only [isFailing, field, Bool.or_eq_true, Value.isText_iff] at hf ⊢
    exact hf.imp (Value.get_text_iff h).mpr (Value.get_text_iff h).mpr
  | _ => simp [isFailing, field, Value.isText] at hf

theorem found_of_failing {old : Dict} {key : String} {case : Value} (h : (Dict.get old key).pyEq case = true)
    (hf : isFailing case = true) : ∃ previous, Dict.find old key = some previous ∧ previous.pyEq case = true := by
  cases hfind : Dict.find old key with
  | some previous =>
    rw [Dict.get, hfind] at h
    exact ⟨previous, rfl, h⟩
  | none =>
    rw [Dict.get, hfind] at h
    rw [Value.null_pyEq.mp h] at hf
    exact absurd hf (by simp [isFailing, field, Value.isText])

/-- The cases the loop goes through leave the failing ones behind, in their order, and each
of them was there before. -/
theorem compareCases_ok {old cases : Dict} {failed out : List String} (h : compareCases old cases failed = .ok out) :
    out = failed ++ (cases.filter (fun c => isFailing c.2)).map Prod.fst ∧
      ∀ c ∈ cases, isFailing c.2 = true → (Dict.get old c.1).pyEq c.2 = true := by
  induction cases generalizing failed with
  | nil =>
    have hout : failed = out := by simpa [compareCases] using h
    exact ⟨by simp [hout], fun c hc => absurd hc List.not_mem_nil⟩
  | cons c cases ih =>
    obtain ⟨key, case⟩ := c
    rw [compareCases, bind_ok] at h
    obtain ⟨status, hstatus, h⟩ := h
    have hgot := field_of_item hstatus
    by_cases hskip : status.isText "skipped" = true
    · have hpass : isFailing case = false := by
        rw [isFailing, hgot, Value.isText_iff.mp hskip]
        rfl
      rw [if_pos hskip, bind_ok] at h
      obtain ⟨-, -, h⟩ := h
      obtain ⟨hout, hrest⟩ := ih h
      refine ⟨by simp [hout, hpass], fun c hc hf => ?_⟩
      rcases List.mem_cons.mp hc with rfl | hc
      · exact absurd hf (by simp [hpass])
      · exact hrest c hc hf
    · rw [if_neg hskip, bind_ok] at h
      obtain ⟨-, -, h⟩ := h
      by_cases hf : isFailing case = true
      · rw [if_pos hf, bind_ok] at h
        obtain ⟨u, hsame, h⟩ := h
        obtain ⟨hout, hrest⟩ := ih h
        refine ⟨by simp [hout, hf], fun c hc hcf => ?_⟩
        rcases List.mem_cons.mp hc with rfl | hc
        · exact ensure_ok.mp hsame
        · exact hrest c hc hcf
      · rw [if_neg hf] at h
        obtain ⟨hout, hrest⟩ := ih h
        refine ⟨by simp [hout, hf], fun c hc hcf => ?_⟩
        rcases List.mem_cons.mp hc with rfl | hc
        · exact absurd hcf hf
        · exact hrest c hc hcf

/-- A failing case of the candidate has one before the change that failed with the same
observation, no case is lost, and what was tested, how and where is the same. -/
structure NoRegression (baseline candidate : Value) (unresolved : List String) : Prop where
  cases : ∃ old new : Dict, field baseline "cases" = .obj old ∧ field candidate "cases" = .obj new ∧
    unresolved = (new.filter (fun c => isFailing c.2)).map Prod.fst ∧ unresolved ≠ [] ∧
    (∀ c ∈ new, isFailing c.2 = true → ∃ previous, Dict.find old c.1 = some previous ∧ isFailing previous = true ∧
      previous.pyEq c.2 = true ∧ (field previous "observation").pyEq (field c.2 "observation") = true) ∧
    ∀ c ∈ old, Dict.has new c.1 = true
  same : ∀ name ∈ ["profile", "inventory", "legs"], (field baseline name).pyEq (field candidate name) = true

theorem unresolved_outcome (binding : Dict) (failed : List String) (sha : String) :
    textItems (field (.obj (outcomeFields binding failed sha)) "unresolved_failures") = failed := by
  have hne : ("unresolved_failures" : String) ≠ "new_observed_failures" := by decide
  rw [outcomeFields, field, Dict.get_put_other hne, Dict.get_put_self, textItems, List.map_map]
  exact List.map_id failed

theorem noRegression_of_compare {baseline candidate out : Value} {sha : String}
    (h : compare baseline candidate sha = .ok out) :
    NoRegression baseline candidate (textItems (field out "unresolved_failures")) := by
  simp only [compare, bind_ok, pure_ok, ensure_ok, fieldsOf_ok] at h
  obtain ⟨-, -, old, -, new, -, h⟩ := h
  -- the two bindings; nothing of them is needed beyond that the comparison went on
  obtain ⟨moved, -, -, -, oldSha, -, baseSha, -, oldTree, -, baseTree, -, -, -, h⟩ := h
  obtain ⟨changed, hsame, -, rfl, h⟩ := h
  obtain ⟨oldCases, hold, oldFields, rfl, cases, hcases, fields, rfl, -, hkept, h⟩ := h
  obtain ⟨failed, hloop, -, hfailed, binding, -, rfl⟩ := h
  obtain ⟨hout, hprevious⟩ := compareCases_ok hloop
  rw [List.nil_append] at hout
  refine ⟨⟨oldFields, fields, field_of_item hold, field_of_item hcases, ?_, ?_, ?_, ?_⟩, same_of_differs hsame⟩
  · rw [unresolved_outcome, hout]
  · rw [unresolved_outcome]
    exact hfailed
  · intro c hc hf
    obtain ⟨previous, hfind, heq⟩ := found_of_failing (hprevious c hc hf) hf
    obtain ⟨hpf, hobs⟩ := failing_of_pyEq heq hf
    exact ⟨previous, hfind, hpf, heq, hobs⟩
  · exact List.all_eq_true.mp hkept

/-- The files an accepted outcome was read from: each is there, each digest is that of the bytes
it stands for, and the outcome is what the comparison says of the two envelopes. -/
structure Evidence (host : Host β) (files : Files β) (bytes : β) (envelope candidate : Value) : Prop where
  read : files.report = some bytes
  compared : ∃ base full, files.baseline = some base ∧ files.fullBaseline = some full ∧ host.loads base = .ok envelope ∧
    field envelope "report_sha256" = .str (host.sha256 full) ∧
    ∃ report outcome again, host.loads bytes = .ok report ∧ item report "coding_outcome" = .ok outcome ∧
      field outcome "baseline_artifact_sha256" = .str (host.sha256 base) ∧
      compare envelope candidate (host.sha256 base) = .ok again ∧ again.pyEq outcome = true
  loaded : ∃ stored, files.candidate = some stored ∧ host.loads stored = .ok candidate
  digested : field candidate "report_sha256" = .str (host.sha256 bytes)

theorem evidence_of_loadFailed {host : Host β} {binding : Dict} {files : Files β} {report : Value}
    {result : Dict} (hbytes : files.report = some bytes) (hreport : host.loads bytes = .ok report)
    (h : loadFailed host binding files bytes report = .ok result) :
    ∃ envelope candidate outcome fields, Evidence host files bytes envelope candidate ∧
    result = accepted outcome fields := by
  simp only [loadFailed, bind_ok, pure_ok, ensure_ok, fieldsOf_ok, orElse_ok] at h
  obtain ⟨-, -, outcome, houtcome, -, -, -, -, -, -, h⟩ := h
  obtain ⟨base, hbase, statedBase, hstatedBase, -, hbaseSha, envelope, henvelope, h⟩ := h
  obtain ⟨bound, -, -, -, -, -, full, hfull, statedFull, hstatedFull, -, hfullSha, h⟩ := h
  obtain ⟨stored, hstored, candidate, hcandidate, statedReport, hstatedReport, -, hreportSha, h⟩ := h
  obtain ⟨again, hagain, -, hequal, fields, -, rfl⟩ := h
  refine ⟨envelope, candidate, outcome, fields, ⟨hbytes, ?_, ⟨stored, hstored, hcandidate⟩, ?_⟩, rfl⟩
  · refine ⟨base, full, hbase, hfull, henvelope, ?_, report, outcome, again, hreport, houtcome, ?_, hagain, hequal⟩
    · rw [field_of_item hstatedFull]
      exact Value.isText_iff.mp hfullSha
    · rw [field_of_item hstatedBase]
      exact Value.isText_iff.mp hbaseSha
  · rw [field_of_item hstatedReport]
    exact Value.isText_iff.mp hreportSha

theorem report_of_readReport {host : Host β} {binding : Dict} {report : Value}
    (h : readReport host binding bytes = .ok report) : host.loads bytes = .ok report := by
  simp only [readReport, bind_ok, pure_ok] at h
  obtain ⟨loaded, hloads, -, -, -, -, -, -, -, -, rfl⟩ := h
  exact hloads

/-- The reader has nothing to say, or refuses, or accepts on evidence. -/
theorem load_cases (host : Host β) (run : Dict) (binding : Except String Dict) (files : Files β) :
    loadCodingOutcome host run binding files = [] ∨ loadCodingOutcome host run binding files = invalid ∨
      ∃ bytes envelope candidate outcome fields, Evidence host files bytes envelope candidate ∧
        loadCodingOutcome host run binding files = accepted outcome fields := by
  rw [loadCodingOutcome]
  split
  · exact .inl rfl
  · cases h : loadChecked host binding files with
    | error e => exact .inr (.inl rfl)
    | ok result =>
      simp only [loadChecked, bind_ok, orElse_ok] at h
      obtain ⟨binding, -, bytes, hbytes, report, hread, h⟩ := h
      split at h
      · exact .inl (pure_ok.mp h).symm
      · obtain ⟨envelope, candidate, outcome, fields, hevidence, rfl⟩ :=
          evidence_of_loadFailed hbytes (report_of_readReport hread) h
        exact .inr (.inr ⟨bytes, envelope, candidate, outcome, fields, hevidence, rfl⟩)

theorem plain_filter {d : Dict} (h : Value.Plain (.obj d)) (p : String × Value → Bool) :
    Value.Plain (.obj (d.filter p)) := by
  rw [Value.plain_obj] at h ⊢
  exact ⟨h.1.sublist (List.filter_sublist.map Prod.fst), fun f hf => h.2 f (List.mem_filter.mp hf).1⟩

theorem plain_item (h : v.Plain) (hx : item v name = .ok x) : x.Plain := by
  obtain ⟨d, rfl, hfind⟩ := item_ok.mp hx
  have hget : Dict.get d name = x := by rw [Dict.get, hfind]; rfl
  exact hget ▸ Value.plain_get h name

theorem plain_inventory {host : Host β} {snapshot cases inputs : Value} (h : snapshot.Plain)
    (hin : inventory host snapshot cases = .ok inputs) : inputs.Plain := by
  simp only [inventory, bind_ok, pure_ok, fieldsOf_ok] at hin
  obtain ⟨-, -, modules, -, files, hfiles, fields, rfl, repo, -, -, -, rfl⟩ := hin
  exact plain_filter (plain_item h hfiles) _

theorem plain_measurement {host : Host β} {report before after cases profile current : Value} (hbefore : before.Plain)
    (hcases : cases.Plain) (hprofile : profile.Plain)
      (h : measurement host report before after cases profile = .ok current) :
    current.Plain := by
  simp only [measurement, bind_ok, pure_ok, fieldsOf_ok] at h
  obtain ⟨-, -, -, -, -, -, observed, -, failing, -, -, -, binding, rfl, inputs, hinputs, rfl⟩ := h
  refine Value.plain_obj.mpr ⟨by simp, fun f hf => ?_⟩
  simp only [List.mem_cons, List.not_mem_nil, or_false] at hf
  rcases hf with rfl | rfl | rfl | rfl | rfl | rfl | rfl
  · exact trivial
  · exact plain_filter hbefore _
  · exact plain_inventory hbefore hinputs
  · exact hcases
  · exact hprofile
  · exact Value.plain_obj.mpr ⟨by simp, by simp [Value.Plain]⟩
  · exact trivial

/-- A published candidate envelope carries the digest of the report as it is written. -/
theorem written_of_finish {host : Host β} {report before after cases profile : Value} {capture : Bool} {source : String}
    {baseline full : Option β} {finished : Finished β} (hbefore : before.Plain) (hcases : cases.Plain)
    (hprofile : profile.Plain)
    (h : finishMeasurement host report before after cases profile capture source baseline full = .ok finished)
    (hpublished : finished.published = true) :
    ∃ envelope : Value, envelope.Plain ∧ finished.candidate = some (host.dumpsEnvelope envelope) ∧
      field envelope "report_sha256" = .str (host.sha256 (host.dumpsReport finished.report)) := by
  rw [finishMeasurement, bind_ok] at h
  obtain ⟨current, hcurrent, h⟩ := h
  have hplain := plain_measurement hbefore hcases hprofile hcurrent
  split at h
  · rw [← pure_ok.mp h] at hpublished
    exact absurd hpublished Bool.false_ne_true
  · split at h
    · simp only [bind_ok, pure_ok, fieldsOf_ok] at h
      obtain ⟨-, -, -, -, -, -, -, -, -, -, outcome, -, fields, -, envelope, rfl, rfl⟩ := h
      have hsha : Value.Plain (.str (host.sha256
          (host.dumpsReport (.obj (Dict.put fields "coding_outcome" outcome))))) := trivial
      exact ⟨_, Value.plain_put hplain hsha, rfl, Dict.get_put_self⟩
    · rw [← pure_ok.mp h] at hpublished
      exact absurd hpublished Bool.false_ne_true

/-- The report bytes of accepted evidence are those that were digested when its candidate
envelope was written, or they are a collision with them. -/
theorem report_bytes {host : Host β} (hloads : ∀ v : Value, v.Plain → host.loads (host.dumpsEnvelope v) = .ok v)
    {files : Files β} {envelope candidate written : Value} {report : Value}
    (h : Evidence host files bytes envelope candidate) (hplain : written.Plain)
    (hwritten : files.candidate = some (host.dumpsEnvelope written))
    (hsha : field written "report_sha256" = .str (host.sha256 (host.dumpsReport report))) :
    bytes = host.dumpsReport report ∨
      bytes ≠ host.dumpsReport report ∧ host.sha256 bytes = host.sha256 (host.dumpsReport report) := by
  obtain ⟨stored, hstored, hcandidate⟩ := h.loaded
  rw [hwritten, Option.some.injEq] at hstored
  subst hstored
  have hsame : written = candidate := Except.ok.inj ((hloads written hplain).symm.trans hcandidate)
  have hdigest : Value.str (host.sha256 bytes) = .str (host.sha256 (host.dumpsReport report)) := by
    rw [← h.digested, ← hsame, hsha]
  by_cases heq : bytes = host.dumpsReport report
  · exact .inl heq
  · exact .inr ⟨heq, Value.str.inj hdigest⟩

/-- The result says that the candidate failed. -/
def Accepted (result : Dict) : Prop := (Dict.get result "status").isText "candidate_tests_failed" = true

instance (result : Dict) : Decidable (Accepted result) := inferInstanceAs (Decidable (_ = true))

/-- Comparing hides no regression. What is read back never says that tests or a release passed,
and an outcome is accepted only on evidence that agrees with itself: bytes under the digests
that stand for them, and a comparison that comes out the same. Where its candidate envelope
is one that was written, so are the bytes of its report, short of a collision. -/
theorem coding_outcome_hides_nothing (host : Host β)
    (hloads : ∀ v : Value, v.Plain → host.loads (host.dumpsEnvelope v) = .ok v) :
    (∀ baseline candidate out sha, compare baseline candidate sha = .ok out →
      NoRegression baseline candidate (textItems (field out "unresolved_failures"))) ∧
    ∀ run binding files,
      (Dict.get (loadCodingOutcome host run binding files) "tests_passed").isTrue = false ∧
      (Dict.get (loadCodingOutcome host run binding files) "release_passed").isTrue = false ∧
      (Accepted (loadCodingOutcome host run binding files) →
        ∃ bytes envelope candidate, Evidence host files bytes envelope candidate ∧
          (∃ unresolved, NoRegression envelope candidate unresolved) ∧
          ∀ report before after cases profile capture source baseline full finished,
            before.Plain → cases.Plain → profile.Plain →
            finishMeasurement host report before after cases profile capture source baseline full = .ok finished →
            finished.published = true → finished.candidate = files.candidate →
            bytes = host.dumpsReport finished.report ∨
              bytes ≠ host.dumpsReport finished.report ∧
                host.sha256 bytes = host.sha256 (host.dumpsReport finished.report)) := by
  refine ⟨fun baseline candidate out sha => noRegression_of_compare, fun run binding files => ?_⟩
  rcases load_cases host run binding files with h | h | ⟨bytes, envelope, candidate, outcome, fields, hevidence, h⟩
  · rw [h]
    exact ⟨rfl, rfl, fun ha => absurd ha (by decide)⟩
  · rw [h]
    exact ⟨rfl, rfl, fun ha => absurd ha (by decide)⟩
  · rw [h]
    refine ⟨rfl, rfl, fun _ => ⟨bytes, envelope, candidate, hevidence, ?_, ?_⟩⟩
    · obtain ⟨base, full, -, -, -, -, report, outcome, again, -, -, -, hcompare, -⟩ := hevidence.compared
      exact ⟨_, noRegression_of_compare hcompare⟩
    · intro report before after cases profile capture source baseline full finished hbefore hcases hprofile hfinish
        hpublished hsame
      obtain ⟨written, hplain, hwritten, hsha⟩ := written_of_finish hbefore hcases hprofile hfinish hpublished
      exact report_bytes hloads hevidence hplain (hsame ▸ hwritten) hsha

namespace Sample

/-- Documents with the blank lines after them; the length of the text stands for its digest. -/
def host : Host (Value × Nat) where
  sha256 file := Nat.repr (file.1.render.length + file.2)
  dumpsReport v := (v, 0)
  dumpsEnvelope v := (v, 0)
  loads file := .ok file.1
  linked _ _ := false
  valid _ := true

def run : Dict := [("graph_name", .str "coding_impl"), ("status", .str "completed")]

def binding : Dict :=
  [("run_id", .str "R1"), ("project_id", .str "P1"), ("config_name", .str "coding_impl"), ("config_version", .int 3),
    ("config_digest", .str "c0")]

def snapshot (commit tree : String) : Value :=
  .obj (binding ++ [("repo", .str "/w"), ("base_sha", .str "b0"), ("base_tree", .str "t0"),
    ("candidate_sha", .str commit),
    ("candidate_tree", .str tree), ("files", .obj [("pytest.ini", .str "f1"), ("tests/test_a.py", .str "f2")])])

def cases : Value :=
  .obj [("[\"tests/test_a.py\",\"\",\"test_a\"]", .obj [("module", .str "tests/test_a.py"), ("status", .str "failure"),
    ("observation", .obj [("type", .str ""), ("message", .str "assert 1 == 2"), ("body", .str "")])])]

def profile : Value := .obj [("image", .str "sha256:00")]

def report : Value :=
  .obj [("run_binding", .obj binding), ("summary", .str "1 failed"), ("failures", .arr [.str "test_a"]),
    ("passed", .bool false), ("returncode", .int 1)]

def captured : Option (Value × Nat) :=
  match finishMeasurement host report (snapshot "b0" "t0") (snapshot "b0" "t0") cases profile true "" none none with
  | .ok finished => finished.prechange
  | .error _ => none

def unfinished : Finished (Value × Nat) := ⟨false, .null, none, none⟩

def finished : Finished (Value × Nat) :=
  (finishMeasurement host report (snapshot "c1" "t1") (snapshot "c1" "t1") cases profile false "baseline" captured
    (some (report, 0))).toOption.getD unfinished

/-- What the two steps left. -/
def files : Files (Value × Nat) := ⟨some (finished.report, 0), finished.candidate, captured, some (report, 0)⟩

/-- The report with a blank line after it, and the candidate envelope with its digest. -/
def rewritten : Files (Value × Nat) :=
  { files with
    report := some (finished.report, 1)
    candidate := finished.candidate.map (fun file =>
      (.obj (Dict.put ((fieldsOf file.1).toOption.getD [])
        "report_sha256" (.str (host.sha256 (finished.report, 1)))), 0)) }

end Sample

theorem finish_of_published {x : Except String (Finished (Value × Nat))}
    (h : (x.toOption.getD Sample.unfinished).published = true) : x = .ok (x.toOption.getD Sample.unfinished) := by
  cases x with
  | error e => cases h
  | ok finished => rfl

/-- What was written is accepted, and the theorem reads its evidence off: its bytes are those
of the report, short of a collision. -/
theorem coding_outcome_hides_nothing_sample :
    Accepted (loadCodingOutcome Sample.host Sample.run (.ok Sample.binding) Sample.files) ∧
      ∃ bytes envelope candidate, Evidence Sample.host Sample.files bytes envelope candidate ∧
        (∃ unresolved, NoRegression envelope candidate unresolved) ∧
        (bytes = Sample.host.dumpsReport Sample.finished.report ∨
          bytes ≠ Sample.host.dumpsReport Sample.finished.report ∧
            Sample.host.sha256 bytes = Sample.host.sha256 (Sample.host.dumpsReport Sample.finished.report)) := by
  have haccepted : Accepted (loadCodingOutcome Sample.host Sample.run (.ok Sample.binding) Sample.files) := by
    decide +kernel
  have hpublished : Sample.finished.published = true := by decide +kernel
  refine ⟨haccepted, ?_⟩
  obtain ⟨bytes, envelope, candidate, hevidence, hcompared, hwritten⟩ :=
    ((coding_outcome_hides_nothing Sample.host (fun _ _ => rfl)).2 Sample.run (.ok Sample.binding)
      Sample.files).2.2 haccepted
  refine ⟨bytes, envelope, candidate, hevidence, hcompared, ?_⟩
  have hsame : Sample.finished.candidate = Sample.files.candidate := by dsimp only [Sample.files]
  refine hwritten _ _ _ _ _ _ _ _ _ _ ?_ ?_ ?_ (finish_of_published hpublished) hpublished hsame
  · simp [Sample.snapshot, Sample.binding, Value.Plain, Value.PlainFields]
  · simp [Sample.cases, Value.Plain, Value.PlainFields]
  · simp [Sample.profile, Value.Plain, Value.PlainFields]

/-- A report that no measurement wrote, with a candidate envelope that states its digest, is
accepted: no blank line ever follows what is written. -/
theorem rewritten_report_accepted :
    ¬ ∀ run binding files, Accepted (loadCodingOutcome Sample.host run binding files) →
      ∃ report before after cases profile capture source baseline full finished,
        finishMeasurement Sample.host report before after cases profile capture source baseline full = .ok finished ∧
          files.report = some (Sample.host.dumpsReport finished.report) := by
  intro h
  have haccepted : Accepted (loadCodingOutcome Sample.host Sample.run (.ok Sample.binding) Sample.rewritten) := by
    decide +kernel
  obtain ⟨report, before, after, cases, profile, capture, source, baseline, full, finished, -, hreport⟩ :=
    h Sample.run (.ok Sample.binding) Sample.rewritten haccepted
  have hblank : (1 : Nat) = 0 := congrArg Prod.snd (Option.some.inj hreport)
  exact Nat.one_ne_zero hblank

end AItelier.Coding
