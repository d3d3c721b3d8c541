import Mathlib.Algebra.Order.Ring.Rat
import Mathlib.Tactic.Linarith
import AItelier.Lib.Binary64
import AItelier.Todo.Restart

namespace AItelier.Todo

open AItelier.Lib

/-- What a moment's text is worth in seconds, `wait_seconds()` and `episode_max_seconds()`: floats. -/
structure Clock where
  seconds : String → ℚ
  wait : ℚ
  ceiling : ℚ
  floats : ∀ text, Binary64.round (seconds text) = seconds text
  wait_pos : 0 < wait
  ceiling_pos : 0 < ceiling

namespace Clock

def time (c : Clock) (m : Moment) : ℚ := c.seconds m.text

/-- `episode_seconds`. -/
def episodeSeconds (c : Clock) (startedAt now : Moment) : ℚ := max 0 (Binary64.round (c.time now - c.time startedAt))

/-- `hold_remaining`. -/
def holdRemaining (c : Clock) (lastAbsenceAt now : Moment) : ℚ :=
  max 0 (Binary64.round (Binary64.round (c.time lastAbsenceAt + c.wait) - c.time now))

def bounds (c : Clock) : Bounds where
  late startedAt now := decide (c.ceiling < c.episodeSeconds startedAt now)
  waiting lastAbsenceAt now := decide (0 < c.holdRemaining lastAbsenceAt now)

/-- `t` exceeds `t0` by more than the ceiling. -/
def Past (c : Clock) (t0 t : Moment) : Prop := c.ceiling < c.time t - c.time t0

instance decidablePast (c : Clock) (t0 t : Moment) : Decidable (c.Past t0 t) :=
  inferInstanceAs (Decidable (c.ceiling < c.time t - c.time t0))

/-- `t` is a wait after `last`, or past the ceiling. -/
def Due (c : Clock) (t0 last t : Moment) : Prop := c.time last + c.wait ≤ c.time t ∨ c.Past t0 t

instance decidableDue (c : Clock) (t0 last t : Moment) : Decidable (c.Due t0 last t) :=
  inferInstanceAs (Decidable (c.time last + c.wait ≤ c.time t ∨ c.Past t0 t))

variable {c : Clock} {t t' t0 : Moment}

theorem Past.mono (h : c.Past t0 t) (hle : c.time t ≤ c.time t') : c.Past t0 t' := by
  unfold Past at *
  linarith

theorem not_past_self (c : Clock) (t : Moment) : ¬ c.Past t t := by
  have := c.ceiling_pos
  unfold Past
  linarith

theorem not_late_self (c : Clock) (t : Moment) : c.bounds.late t t = false := by
  have hnone : c.episodeSeconds t t = 0 := by rw [episodeSeconds, sub_self, Binary64.round_zero, max_self]
  rw [bounds, decide_eq_false_iff_not, hnone]
  exact not_lt_of_gt c.ceiling_pos

end Clock

structure Call where
  moment : Moment
  world : World

/-- An observe call and what it gave: whether the predicates were evaluated for it, and
the episode's count of gate runs after it. -/
structure Seen where
  call : Call
  evaluated : Bool
  report : ItemReport
  gateRuns : Nat

namespace TodoRun

def gateRuns (run : TodoRun) (id : String) : Nat :=
  match run.episodes (run.episodeKey id) with
  | some e => e.gateRuns
  | none => 0

def look (bounds : Bounds) (id : String) (run : TodoRun) (call : Call) : Except Raised (Seen × TodoRun) := do
  let (report, next) ← run.observe bounds call.world call.moment id
  return (⟨call, (run.held bounds id call.moment).isNone, report, next.gateRuns id⟩, next)

def watch (bounds : Bounds) (id : String) : TodoRun → List Call → Except Raised (List Seen × TodoRun)
  | run, [] => .ok ([], run)
  | run, call :: rest => do
    let (s, next) ← run.look bounds id call
    let (seen, last) ← watch bounds id next rest
    return (s :: seen, last)

/-- What evaluating the item's predicates gives at a call. -/
def evaluation (run : TodoRun) (id : String) (call : Call) : Except Raised (List PredicateResult) := do
  let item ← run.plan.item id
  let preState ← orElse (run.preState id) ⟨"RuntimeError", "observe(" ++ Value.reprText id ++
    ") before begin(): no pre-state to compare against"⟩
  item.predicates.mapM fun binding => call.world.evaluate binding preState run.plan.baseSha

end TodoRun

/-- The predicates that could not be measured. -/
def absentNames (results : List PredicateResult) : List String :=
  (results.filter (fun r => r.outcome = .absent)).map PredicateResult.predicate

def absentAt (run : TodoRun) (id : String) (call : Call) : List String :=
  match run.evaluation id call with
  | .ok results => absentNames results
  | .error _ => []

/-- No failure and at least one absence. -/
def AbsenceOnly (results : List PredicateResult) : Prop :=
  (∀ r ∈ results, r.outcome ≠ .fail) ∧ ∃ r ∈ results, r.outcome = .absent

instance (results : List PredicateResult) : Decidable (AbsenceOnly results) :=
  inferInstanceAs (Decidable ((∀ r ∈ results, r.outcome ≠ .fail) ∧ ∃ r ∈ results, r.outcome = .absent))

/-- When the predicates were last evaluated. -/
def lastEvaluation (t : Moment) (seen : List Seen) : Moment :=
  seen.foldl (fun t s => if s.evaluated then s.call.moment else t) t

/-- What an absence that starts at `t0` is to look like. -/
structure OneEpisode (c : Clock) (t0 : Moment) (seen : List Seen) : Prop where
  unmeasurable : ∀ s ∈ seen, s.report.unmeasurable = true ↔ c.Past t0 s.call.moment
  evaluated : ∀ pre s post, seen = pre ++ s :: post → (s.evaluated = true ↔
    pre = [] ∨ c.time (lastEvaluation t0 pre) + c.wait ≤ c.time s.call.moment ∨ c.Past t0 s.call.moment)
  counted : ∀ pre s post, seen = pre ++ s :: post → s.gateRuns = ((pre ++ [s]).filter Seen.evaluated).length

/-- A verdict ends the episode, and the next absence starts one at its own time. -/
def VerdictEnds (c : Clock) (id : String) : Prop :=
  ∀ run call s next, TodoRun.look c.bounds id run call = .ok (s, next) → s.evaluated = true →
    (s.report.outcome ≠ .absent → next.episodes (next.episodeKey id) = none) ∧
    (s.report.outcome = .absent → run.episodes (run.episodeKey id) = none →
      ∃ e, next.episodes (next.episodeKey id) = some e ∧ e.startedAt = call.moment ∧ e.lastAbsenceAt = call.moment ∧
        e.absences = 1 ∧ e.gateRuns = 1)

/-- Two calls past the ceiling, at one moment and with the same predicates absent. -/
def Repeats (c : Clock) (run : TodoRun) (id : String) (t0 : Moment) (a b : Call) : Prop :=
  c.Past t0 a.moment ∧ c.Past t0 b.moment ∧ a.moment.text = b.moment.text ∧ absentAt run id a = absentAt run id b

/-- The rounding of a difference puts no call on the other side of the ceiling or, before the ceiling, of the wait
since the call that was last due. -/
def Timely (c : Clock) (t0 : Moment) : Moment → List Call → Prop
  | _, [] => True
  | last, call :: rest =>
    (c.bounds.late t0 call.moment = true ↔ c.Past t0 call.moment) ∧
    (c.Past t0 call.moment ∨ (c.bounds.waiting last call.moment = true ↔ c.time call.moment < c.time last + c.wait)) ∧
    Timely c t0 (if c.Due t0 last call.moment then call.moment else last) rest

section Call
variable {bounds : Bounds} {run next : TodoRun} {id : String} {now : Moment} {call : Call} {s : Seen}
  {results : List PredicateResult} {c : Clock}

theorem conclude_absence (h : AbsenceOnly results) :
    ∃ episodes gate, episodes = noteAbsence run.episodes (run.episodeKey id) now gate
        (some (absentNames results ++ ["measured@" ++ now.text])) 1 ∧
      run.conclude bounds id now results =
        (⟨id, .absent, results, expired bounds episodes (run.episodeKey id) now⟩,
          { run with
            episodes := episodes
            reports := run.reports.set id
              ⟨id, .absent, results, expired bounds episodes (run.episodeKey id) now⟩ }) := by
  have hfailed : results.any (fun r => r.outcome = .fail) = false := by
    rw [List.any_eq_false]
    exact fun r hr hfail => h.1 r hr (of_decide_eq_true hfail)
  obtain ⟨r, hr, habsent⟩ := h.2
  have hmem : r ∈ results.filter (fun r => r.outcome = .absent) := List.mem_filter.mpr ⟨hr, decide_eq_true habsent⟩
  cases hfilter : results.filter (fun r => r.outcome = .absent) with
  | nil =>
    rw [hfilter] at hmem
    exact absurd hmem List.not_mem_nil
  | cons first rest =>
    refine ⟨_, first.predicate, rfl, ?_⟩
    unfold TodoRun.conclude absentNames
    simp only [hfailed, hfilter]

theorem conclude_verdict (h : (run.conclude bounds id now results).1.outcome ≠ .absent) :
    (run.conclude bounds id now results).2.episodes = run.episodes.erase (run.episodeKey id) ∧
      (run.conclude bounds id now results).2.plan = run.plan := by
  unfold TodoRun.conclude at h ⊢
  simp only at h ⊢
  split
  · next hfailed hfilter =>
    rw [hfailed, hfilter] at h
    exact absurd rfl h
  · exact ⟨rfl, rfl⟩

theorem conclude_results : (run.conclude bounds id now results).1.results = results := by
  unfold TodoRun.conclude
  simp only
  split <;> rfl

theorem absenceOnly_of_absent (h : (run.conclude bounds id now results).1.outcome = .absent) : AbsenceOnly results := by
  unfold TodoRun.conclude at h
  simp only at h
  split at h
  · next first rest hfailed hfilter =>
    have hmem : first ∈ results.filter (fun r => r.outcome = .absent) := hfilter ▸ List.mem_cons_self
    obtain ⟨hfirst, habsent⟩ := List.mem_filter.mp hmem
    refine ⟨fun r hr hfail => ?_, first, hfirst, of_decide_eq_true habsent⟩
    exact (List.any_eq_false.mp hfailed) r hr (decide_eq_true hfail)
  · exfalso
    split at h <;> cases h

/-- A call reads the stored absence again, or evaluates the predicates and concludes. -/
theorem look_spec (h : run.look bounds id call = .ok (s, next)) :
    s.call = call ∧ s.gateRuns = next.gateRuns id ∧
      ((∃ stored episode, run.held bounds id call.moment = some (stored, episode) ∧ s.evaluated = false ∧
          s.report = stored ∧
          next = { run with
            episodes := noteAbsence run.episodes (run.episodeKey id) call.moment episode.gate episode.reportKey 1 }) ∨
        ∃ results, run.held bounds id call.moment = none ∧ s.evaluated = true ∧
          run.evaluation id call = .ok results ∧ (s.report, next) = run.conclude bounds id call.moment results) := by
  unfold TodoRun.look TodoRun.observe at h
  simp only [bind_ok] at h
  obtain ⟨⟨report, next'⟩, ⟨item, hitem, preState, hpre, h⟩, hseen⟩ := h
  cases hseen
  refine ⟨rfl, rfl, ?_⟩
  split at h
  · next stored episode hheld =>
    cases h
    exact .inl ⟨_, episode, hheld, by rw [hheld]; rfl, rfl, rfl⟩
  · next hheld =>
    simp only [bind_ok, pure_ok] at h
    obtain ⟨results, hresults, h⟩ := h
    refine .inr ⟨results, hheld, by rw [hheld]; rfl, ?_, h.symm⟩
    simp only [TodoRun.evaluation, hitem, hpre, ok_bind]
    exact hresults

theorem held_some {stored : ItemReport} {episode : Episode} (h : run.held bounds id now = some (stored, episode)) :
    run.reports id = some stored ∧ run.episodes (run.episodeKey id) = some episode ∧ stored.outcome = .absent ∧
      stored.unmeasurable = false ∧ bounds.late episode.startedAt now = false ∧
      bounds.waiting episode.lastAbsenceAt now = true := by
  unfold TodoRun.held at h
  split at h
  · next stored' episode' hreport hepisode =>
    split at h
    · next hwaits =>
      cases h
      simp only [deferring, expired, hepisode, Bool.and_eq_true, Bool.not_eq_true', decide_eq_true_eq] at hwaits
      obtain ⟨⟨houtcome, hmeasurable⟩, hlate, hwaiting⟩ := hwaits
      exact ⟨hreport, hepisode, houtcome, hmeasurable, hlate, hwaiting⟩
    · cases h
  · cases h

theorem held_none {stored : ItemReport} {episode : Episode} (h : run.held bounds id now = none)
    (hreport : run.reports id = some stored) (hepisode : run.episodes (run.episodeKey id) = some episode)
    (houtcome : stored.outcome = .absent) (hmeasurable : stored.unmeasurable = false) :
    bounds.late episode.startedAt now = true ∨ bounds.waiting episode.lastAbsenceAt now = false := by
  by_contra hneither
  rw [not_or, Bool.not_eq_true, Bool.not_eq_false] at hneither
  unfold TodoRun.held at h
  simp only [hreport, hepisode, houtcome, hmeasurable, deferring, expired, hneither.1, hneither.2,
    decide_true, Bool.not_false, Bool.and_self, if_true] at h
  cases h

end Call

end AItelier.Todo
