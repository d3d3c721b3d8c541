import AItelier.Todo.Absence

namespace AItelier.Todo

open AItelier.Lib

variable {c : Clock} {start run next : TodoRun} {id : String} {t0 : Moment} {prev last call : Call} {s : Seen}
  {calls : List Call} {seen : List Seen}

/-- An absence that started at `t0`: `prev` is the latest call, `last` the latest one that the
predicates were evaluated for, which the float clock tells from the ceiling as it stands to it.
Past the ceiling every call evaluates them, so there the two are one. -/
structure Ongoing (c : Clock) (start : TodoRun) (id : String) (t0 : Moment) (run : TodoRun) (prev last : Call) :
    Prop where
  plan : run.plan = start.plan
  preState : run.preState = start.preState
  episode : ∃ e, run.episodes (run.episodeKey id) = some e ∧ e.startedAt = t0 ∧
    c.time e.lastAbsenceAt = c.time last.moment ∧
    e.reportKey = some (absentAt start id last ++ ["measured@" ++ last.moment.text])
  report : ∃ r, run.reports id = some r ∧ r.outcome = .absent ∧ r.unmeasurable = c.bounds.late t0 last.moment
  exact : c.bounds.late t0 last.moment = true ↔ c.Past t0 last.moment
  order : c.time last.moment ≤ c.time prev.moment
  late : c.Past t0 prev.moment → last = prev

theorem evaluation_congr (hplan : run.plan = start.plan) (hpre : run.preState = start.preState) :
    run.evaluation id call = start.evaluation id call := by
  unfold TodoRun.evaluation
  rw [hplan, hpre]

variable {reportKey : Option (List String)} {now : Moment} {e : Episode}

theorem expired_noted {episodes : Episodes} {key gate : String} :
    expired c.bounds (noteAbsence episodes key now gate reportKey 1) key now =
      c.bounds.late (match episodes key with | some e => e.startedAt | none => now) now := by
  unfold expired noteAbsence Map.set notedEpisode
  rw [if_pos rfl]
  cases hepisode : episodes key with
  | none => rfl
  | some e =>
    simp only
    split <;> rfl

theorem notedEpisode_same {gate : String}
    (hsome : reportKey ≠ none) (hkey : e.reportKey = reportKey) :
    notedEpisode (some e) now gate reportKey 1 =
      { e with absences := e.absences + 1, gate := if gate = "" then e.gate else gate } := by
  have hsame : ¬ (reportKey = none ∨ reportKey ≠ e.reportKey) := not_or.mpr ⟨hsome, fun h => h hkey.symm⟩
  simp only [notedEpisode, if_neg hsame]

theorem notedEpisode_other {gate : String}
    (hkey : e.reportKey ≠ reportKey) :
    notedEpisode (some e) now gate reportKey 1 =
      { e with lastAbsenceAt := now, reportKey := reportKey, gateRuns := e.gateRuns + 1, absences := e.absences + 1,
               gate := if gate = "" then e.gate else gate } := by
  simp only [notedEpisode, if_pos (Or.inr (Ne.symm hkey) : reportKey = none ∨ reportKey ≠ e.reportKey)]

theorem absentAt_of {results : List PredicateResult} (h : start.evaluation id call = .ok results) :
    absentAt start id call = absentNames results := by
  rw [absentAt, h]

/-- What an evaluation that is an absence leaves. -/
structure Absent (c : Clock) (run next : TodoRun) (id : String) (s : Seen) : Prop where
  evaluated : s.evaluated = true
  plan : next.plan = run.plan
  preState : next.preState = run.preState
  episode : ∃ gate, next.episodes (next.episodeKey id) = some (notedEpisode (run.episodes (run.episodeKey id))
    s.call.moment gate (some (absentAt run id s.call ++ ["measured@" ++ s.call.moment.text])) 1)
  report : next.reports id = some s.report
  outcome : s.report.outcome = .absent
  unmeasurable : s.report.unmeasurable = c.bounds.late (match run.episodes (run.episodeKey id) with
    | some e => e.startedAt
    | none => s.call.moment) s.call.moment

theorem evaluated_absent {results : List PredicateResult} (hcall : s.call = call) (hevaluated : s.evaluated = true)
    (hresults : run.evaluation id call = .ok results)
    (hconclude : (s.report, next) = run.conclude c.bounds id call.moment results)
    (habsent : AbsenceOnly results) : Absent c run next id s := by
  obtain ⟨episodes, gate, hepisodes, hspec⟩ := @conclude_absence c.bounds run id call.moment results habsent
  rw [hspec, Prod.mk.injEq] at hconclude
  obtain ⟨hreport, rfl⟩ := hconclude
  subst hcall
  refine ⟨hevaluated, rfl, rfl, ⟨gate, ?_⟩, ?_, hreport ▸ rfl, ?_⟩
  · rw [hepisodes, absentAt_of hresults]
    exact if_pos rfl
  · rw [hreport]
    exact if_pos rfl
  · rw [hreport, hepisodes]
    exact expired_noted

/-- A call while no verdict is reached: the stored absence is read again, or a new one is noted. -/
theorem look_absence (h : run.look c.bounds id call = .ok (s, next)) (habsent : AbsenceOnly s.report.results) :
    s.call = call ∧ s.gateRuns = next.gateRuns id ∧
      ((∃ stored episode, run.held c.bounds id call.moment = some (stored, episode) ∧ s.evaluated = false ∧
          s.report = stored ∧
          next = { run with
            episodes := noteAbsence run.episodes (run.episodeKey id) call.moment episode.gate episode.reportKey 1 }) ∨
        run.held c.bounds id call.moment = none ∧ Absent c run next id s) := by
  obtain ⟨hcall, hruns, hstep⟩ := look_spec h
  refine ⟨hcall, hruns, ?_⟩
  rcases hstep with hheld | ⟨results, hnone, hevaluated, hresults, hconclude⟩
  · exact .inl hheld
  · have hreport : s.report.results = results := by
      have hfirst := congrArg Prod.fst hconclude
      rw [show s.report = (run.conclude c.bounds id call.moment results).1 from hfirst]
      exact conclude_results
    exact .inr ⟨hnone, evaluated_absent hcall hevaluated hresults hconclude (hreport ▸ habsent)⟩

theorem gateRuns_of (h : run.episodes (run.episodeKey id) = some e) :
    run.gateRuns id = e.gateRuns := by
  rw [TodoRun.gateRuns, h]

/-- The first absence starts the episode. -/
theorem look_fresh (h : run.look c.bounds id call = .ok (s, next)) (hfresh : run.episodes (run.episodeKey id) = none)
    (habsent : AbsenceOnly s.report.results) :
    s.call = call ∧ s.evaluated = true ∧ s.report.unmeasurable = false ∧ s.gateRuns = 1 ∧ next.gateRuns id = 1 ∧
      Ongoing c run id call.moment next call call := by
  obtain ⟨rfl, hruns, hstep⟩ := look_absence h habsent
  rcases hstep with ⟨stored, episode, hheld, -⟩ | ⟨-, hnew⟩
  · obtain ⟨-, hepisode, -⟩ := held_some hheld
    rw [hfresh] at hepisode
    cases hepisode
  obtain ⟨gate, hepisode⟩ := hnew.episode
  have hmeasurable := hnew.unmeasurable
  rw [hfresh] at hepisode hmeasurable
  have hone : next.gateRuns id = 1 := gateRuns_of hepisode
  refine ⟨rfl, hnew.evaluated, ?_, hruns.trans hone, hone, ?_⟩
  · exact hmeasurable.trans (c.not_late_self _)
  · refine ⟨hnew.plan, hnew.preState, ⟨_, hepisode, rfl, rfl, rfl⟩, ⟨_, hnew.report, hnew.outcome, hmeasurable⟩, ?_,
      le_refl _, fun _ => rfl⟩
    rw [c.not_late_self]
    exact iff_of_false Bool.false_ne_true (c.not_past_self _)

theorem absentAt_congr (hplan : run.plan = start.plan) (hpre : run.preState = start.preState) :
    absentAt run id call = absentAt start id call := by
  unfold absentAt
  rw [evaluation_congr hplan hpre]

/-- A report of the same name comes from a call at the same moment, which is due only past the ceiling. -/
theorem repeats_of_key (hon : Ongoing c start id t0 run prev last) (hle : c.time prev.moment ≤ c.time call.moment)
    (hdue : c.Due t0 last.moment call.moment)
    (hkey : some (absentAt start id last ++ ["measured@" ++ last.moment.text]) =
      some (absentAt start id call ++ ["measured@" ++ call.moment.text])) : Repeats c start id t0 prev call := by
  obtain ⟨hnames, hmeasured⟩ := List.append_inj' (Option.some.inj hkey) rfl
  have htext : last.moment.text = call.moment.text := by
    have htexts := congrArg String.toList (List.cons.inj hmeasured).1
    rw [String.toList_append, String.toList_append] at htexts
    exact String.toList_injective (List.append_cancel_left htexts)
  have htime : c.time last.moment = c.time call.moment := by rw [Clock.time, htext]; rfl
  have hpast : c.Past t0 call.moment := by
    refine hdue.resolve_left (fun hwait => ?_)
    have := c.wait_pos
    linarith
  have hprev : c.time prev.moment = c.time call.moment := le_antisymm hle (htime ▸ hon.order)
  have hlate : c.Past t0 prev.moment := by
    unfold Clock.Past at *
    rw [hprev]
    exact hpast
  have hone := hon.late hlate
  subst hone
  exact ⟨hlate, hpast, htext, hnames⟩

theorem waiting_congr {a b t : Moment} (h : c.time a = c.time b) : c.bounds.waiting a t = c.bounds.waiting b t :=
  congrArg (fun x => decide (0 < max 0 (Binary64.round (Binary64.round (x + c.wait) - c.time t)))) h

/-- What one call while the absence lasts tells, by the float clock: past the ceiling nothing is held. -/
theorem look_flags (hon : Ongoing c start id t0 run prev last) (h : run.look c.bounds id call = .ok (s, next))
    (hle : c.time prev.moment ≤ c.time call.moment) (habsent : AbsenceOnly s.report.results) :
    s.report.unmeasurable = c.bounds.late t0 call.moment ∧
      ((c.bounds.late t0 call.moment = true ↔ c.Past t0 call.moment) →
        (s.evaluated = true ↔ c.bounds.waiting last.moment call.moment = false ∨ c.Past t0 call.moment)) := by
  obtain ⟨e, hepisode, hstarted, hlast, -⟩ := hon.episode
  obtain ⟨r, hreport, houtcome, hunmeasurable⟩ := hon.report
  obtain ⟨rfl, -, hstep⟩ := look_absence h habsent
  rcases hstep with ⟨stored, episode, hheld, hevaluated, hstored, -⟩ | ⟨hnone, hnew⟩
  · obtain ⟨-, hepisode', -, hmeasurable, hlate, hwaiting⟩ := held_some hheld
    rw [hepisode, Option.some.injEq] at hepisode'
    subst hepisode'
    rw [hstarted] at hlate
    rw [waiting_congr hlast] at hwaiting
    refine ⟨by rw [hstored, hmeasurable, hlate], fun hexact => ?_⟩
    rw [hevaluated, hwaiting, ← hexact, hlate]
    simp
  · have hlate := hnew.unmeasurable
    rw [hepisode] at hlate
    simp only [hstarted] at hlate
    refine ⟨hlate, fun hexact => iff_of_true hnew.evaluated ?_⟩
    by_cases hpast : c.Past t0 last.moment
    · exact .inr (hpast.mono (le_trans hon.order hle))
    · have hmeasurable : r.unmeasurable = false :=
        eq_false_of_ne_true (fun h => hpast (hon.exact.mp (hunmeasurable.symm.trans h)))
      have hdue := held_none hnone hreport hepisode houtcome hmeasurable
      rw [hstarted, waiting_congr hlast, hexact] at hdue
      exact hdue.symm

/-- What one call while the absence lasts does, by whether it is due: past the ceiling, or
a wait after the last evaluation. -/
theorem look_ongoing (hon : Ongoing c start id t0 run prev last) (h : run.look c.bounds id call = .ok (s, next))
    (hle : c.time prev.moment ≤ c.time call.moment) (habsent : AbsenceOnly s.report.results)
    (hexact : c.bounds.late t0 call.moment = true ↔ c.Past t0 call.moment)
    (hevaluated : s.evaluated = true ↔ c.Due t0 last.moment call.moment) :
    s.call = call ∧ s.gateRuns = next.gateRuns id ∧
      ((¬ c.Due t0 last.moment call.moment ∧ next.gateRuns id = run.gateRuns id ∧
          Ongoing c start id t0 next call last) ∨
        (c.Due t0 last.moment call.moment ∧
          (Repeats c start id t0 prev call → next.gateRuns id = run.gateRuns id) ∧
          (¬ Repeats c start id t0 prev call → next.gateRuns id = run.gateRuns id + 1) ∧
          Ongoing c start id t0 next call call)) := by
  obtain ⟨e, hepisode, hstarted, hlast, hkey⟩ := hon.episode
  obtain ⟨rfl, hruns, hstep⟩ := look_absence h habsent
  refine ⟨rfl, hruns, ?_⟩
  rcases hstep with ⟨stored, episode, hheld, hnot, -, rfl⟩ | ⟨-, hnew⟩
  · have hidle : ¬ c.Due t0 last.moment s.call.moment :=
      fun h => Bool.false_ne_true (hnot.symm.trans (hevaluated.mpr h))
    obtain ⟨-, hepisode', -⟩ := held_some hheld
    rw [hepisode, Option.some.injEq] at hepisode'
    subst hepisode'
    have hagain (gate : String) : noteAbsence run.episodes (run.episodeKey id) s.call.moment gate e.reportKey 1
        (run.episodeKey id) = some { e with
          absences := e.absences + 1, gate := if gate = "" then e.gate else gate } := by
      rw [noteAbsence, hepisode, notedEpisode_same (hkey ▸ Option.some_ne_none _) rfl]
      exact if_pos rfl
    refine .inl ⟨hidle, ?_, ?_⟩
    · rw [gateRuns_of hepisode, gateRuns_of (hagain e.gate)]
    · exact ⟨hon.plan, hon.preState, ⟨_, hagain e.gate, hstarted, hlast, hkey⟩, hon.report, hon.exact,
        le_trans hon.order hle, fun hlate => absurd (.inr hlate) hidle⟩
  · obtain ⟨gate, hnoted⟩ := hnew.episode
    have hlate := hnew.unmeasurable
    rw [hepisode] at hnoted hlate
    simp only [hstarted] at hlate
    rw [absentAt_congr hon.plan hon.preState] at hnoted
    have hdue := hevaluated.mp hnew.evaluated
    have hnext (e' : Episode) (hnoted : next.episodes (next.episodeKey id) = some e') (hstart : e'.startedAt = t0)
        (hat : c.time e'.lastAbsenceAt = c.time s.call.moment)
        (hreported : e'.reportKey = some (absentAt start id s.call ++ ["measured@" ++ s.call.moment.text])) :
        Ongoing c start id t0 next s.call s.call :=
      ⟨hnew.plan.trans hon.plan, hnew.preState.trans hon.preState, ⟨e', hnoted, hstart, hat, hreported⟩,
        ⟨s.report, hnew.report, hnew.outcome, hlate⟩, hexact, le_refl _, fun _ => rfl⟩
    refine .inr ⟨hdue, ?_⟩
    by_cases hsame : e.reportKey = some (absentAt start id s.call ++ ["measured@" ++ s.call.moment.text])
    · -- the same report once more: the call is at the last evaluation's moment, so past the ceiling
      have hrepeats : Repeats c start id t0 prev s.call := repeats_of_key hon hle hdue (hkey.symm.trans hsame)
      rw [notedEpisode_same (Option.some_ne_none _) hsame] at hnoted
      have htime : c.time last.moment = c.time s.call.moment := by
        rw [hon.late hrepeats.1, Clock.time, hrepeats.2.2.1]
        rfl
      refine ⟨fun _ => ?_, fun hnot => absurd hrepeats hnot, ?_⟩
      · rw [gateRuns_of hepisode, gateRuns_of hnoted]
      · exact hnext _ hnoted hstarted (hlast.trans htime) hsame
    · rw [notedEpisode_other hsame] at hnoted
      refine ⟨fun hrepeats => ?_, fun _ => ?_, ?_⟩
      · refine absurd (hkey.trans ?_) hsame
        rw [hon.late hrepeats.1, hrepeats.2.2.2, hrepeats.2.2.1]
      · rw [gateRuns_of hepisode, gateRuns_of hnoted]
      · exact hnext _ hnoted hstarted rfl rfl

theorem forall_split_cons {α : Type} {P : List α → α → Prop} {a : α} {l : List α} :
    (∀ pre b post, a :: l = pre ++ b :: post → P pre b) ↔
      P [] a ∧ ∀ pre b post, l = pre ++ b :: post → P (a :: pre) b := by
  constructor
  · exact fun h => ⟨h [] a l rfl, fun pre b post hl => h (a :: pre) b post (hl ▸ rfl)⟩
  · rintro ⟨hhead, htail⟩ pre b post hl
    cases pre with
    | nil =>
      cases hl
      exact hhead
    | cons a' pre =>
      obtain ⟨rfl, hrest⟩ := List.cons.inj hl
      exact htail pre b post hrest

/-- Before the ceiling a call is due where the wait is over. -/
theorem due_iff {last t : Moment} (h : ¬ c.Past t0 t) : c.Due t0 last t ↔ ¬ c.time t < c.time last + c.wait := by
  rw [Clock.Due, or_iff_left h, not_lt]

/-- What is told of calls after one that was due at `last`, when `n` runs of the gate were counted. -/
structure Told (c : Clock) (t0 last : Moment) (n : Nat) (seen : List Seen) : Prop where
  unmeasurable : ∀ s ∈ seen, s.report.unmeasurable = true ↔ c.Past t0 s.call.moment
  evaluated : ∀ pre s post, seen = pre ++ s :: post →
    (s.evaluated = true ↔ c.Due t0 (lastEvaluation last pre) s.call.moment)
  counted : ∀ pre s post, seen = pre ++ s :: post → s.gateRuns = n + ((pre ++ [s]).filter Seen.evaluated).length

theorem evaluations_cons (s s' : Seen) (pre : List Seen) : ((s :: pre ++ [s']).filter Seen.evaluated).length =
    (if s.evaluated then 1 else 0) + ((pre ++ [s']).filter Seen.evaluated).length := by
  rw [List.cons_append, List.filter_cons]
  split
  · rw [List.length_cons, Nat.add_comm]
  · rw [Nat.zero_add]

theorem evaluations_single (s : Seen) :
    (([] ++ [s] : List Seen).filter Seen.evaluated).length = if s.evaluated then 1 else 0 := by
  rw [List.nil_append, List.filter_cons]
  split <;> rfl

theorem told_cons {last : Moment} {n : Nat} : Told c t0 last n (s :: seen) ↔
    (s.report.unmeasurable = true ↔ c.Past t0 s.call.moment) ∧
    (s.evaluated = true ↔ c.Due t0 last s.call.moment) ∧ s.gateRuns = n + (if s.evaluated then 1 else 0) ∧
    Told c t0 (if s.evaluated then s.call.moment else last) (n + if s.evaluated then 1 else 0) seen := by
  constructor
  · intro h
    have hone := h.counted [] s seen rfl
    rw [evaluations_single] at hone
    refine ⟨h.unmeasurable s List.mem_cons_self, h.evaluated [] s seen rfl, hone,
      fun s' hs' => h.unmeasurable s' (List.mem_cons_of_mem s hs'),
      fun pre s' post hsplit => h.evaluated (s :: pre) s' post (hsplit ▸ rfl), fun pre s' post hsplit => ?_⟩
    rw [h.counted (s :: pre) s' post (hsplit ▸ rfl), evaluations_cons, Nat.add_assoc]
  · rintro ⟨hunmeasurable, hevaluated, hone, h⟩
    refine ⟨List.forall_mem_cons.mpr ⟨hunmeasurable, h.unmeasurable⟩,
      forall_split_cons.mpr ⟨hevaluated, h.evaluated⟩, forall_split_cons.mpr ⟨?_, fun pre s' post hsplit => ?_⟩⟩
    · rw [evaluations_single]
      exact hone
    · rw [h.counted pre s' post hsplit, evaluations_cons, Nat.add_assoc]

/-- What holds of the calls that follow `prev`, by induction on them. -/
theorem watch_ongoing (hon : Ongoing c start id t0 run prev last) {final : TodoRun}
    (h : run.watch c.bounds id calls = .ok (seen, final))
    (htimes : (prev :: calls).IsChain (fun a b => c.time a.moment ≤ c.time b.moment))
    (habsent : ∀ s ∈ seen, AbsenceOnly s.report.results) :
    Told c t0 last.moment (run.gateRuns id) seen ↔
      Timely c t0 last.moment calls ∧ (prev :: calls).IsChain (fun a b => ¬ Repeats c start id t0 a b) := by
  induction calls generalizing run prev last seen with
  | nil =>
    cases h
    have hnone (pre : List Seen) (s : Seen) (post : List Seen) : [] ≠ pre ++ s :: post :=
      (List.append_ne_nil_of_right_ne_nil pre (List.cons_ne_nil s post)).symm
    exact iff_of_true ⟨fun s hs => absurd hs List.not_mem_nil, fun pre s post h => absurd h (hnone pre s post),
      fun pre s post h => absurd h (hnone pre s post)⟩ ⟨trivial, .singleton prev⟩
  | cons call rest ih =>
    simp only [TodoRun.watch, bind_ok] at h
    obtain ⟨⟨s, next⟩, hlook, ⟨tail, final'⟩, hrest, h⟩ := h
    cases h
    obtain ⟨hle, htimes⟩ := List.isChain_cons_cons.mp htimes
    have hhead := habsent s List.mem_cons_self
    have htail : ∀ s' ∈ tail, AbsenceOnly s'.report.results := fun s' hs' => habsent s' (List.mem_cons_of_mem s hs')
    obtain ⟨hunmeasurable, hflag⟩ := look_flags hon hlook hle hhead
    obtain rfl : s.call = call := (look_spec hlook).1
    rw [told_cons, Timely, List.isChain_cons_cons, hunmeasurable]
    by_cases hexact : c.bounds.late t0 s.call.moment = true ↔ c.Past t0 s.call.moment
    case neg => exact iff_of_false (fun h => hexact h.1) (fun h => hexact h.1.1)
    by_cases hwaits : c.Past t0 s.call.moment ∨
        (c.bounds.waiting last.moment s.call.moment = true ↔ c.time s.call.moment < c.time last.moment + c.wait)
    case neg =>
      refine iff_of_false (fun h => hwaits ?_) (fun h => hwaits h.1.2.1)
      by_cases hpast : c.Past t0 s.call.moment
      · exact .inl hpast
      · have hwhen := h.2.1
        rw [hflag hexact, due_iff hpast, or_iff_left hpast, ← Bool.not_eq_true] at hwhen
        exact .inr (not_iff_not.mp hwhen)
    have hevaluated : s.evaluated = true ↔ c.Due t0 last.moment s.call.moment := by
      rw [hflag hexact]
      rcases hwaits with hpast | hwaits
      · exact iff_of_true (.inr hpast) (.inr hpast)
      · rw [← Bool.not_eq_true, hwaits, not_lt]
        rfl
    obtain ⟨-, hruns, hstep⟩ := look_ongoing hon hlook hle hhead hexact hevaluated
    rcases hstep with ⟨hidle, hsame, hnext⟩ | ⟨hdue, hrepeated, hcounted, hnext⟩
    · have hnever : ¬ Repeats c start id t0 prev s.call := fun h => hidle (.inr h.2.1)
      have hnot : s.evaluated = false := eq_false_of_ne_true (fun h => hidle (hevaluated.mp h))
      have hiff := ih hnext hrest htimes htail
      rw [hsame] at hiff hruns
      rw [if_neg hidle, hnot, if_neg Bool.false_ne_true, if_neg Bool.false_ne_true, Nat.add_zero, hiff]
      constructor
      · rintro ⟨-, -, -, htimely, hchain⟩
        exact ⟨⟨hexact, hwaits, htimely⟩, hnever, hchain⟩
      · rintro ⟨⟨-, -, htimely⟩, -, hchain⟩
        exact ⟨hexact, iff_of_false Bool.false_ne_true hidle, hruns, htimely, hchain⟩
    · have hseen : s.evaluated = true := hevaluated.mpr hdue
      have hiff := ih hnext hrest htimes htail
      rw [if_pos hdue, hseen, if_pos rfl, if_pos rfl]
      by_cases hrepeats : Repeats c start id t0 prev s.call
      · refine iff_of_false (fun h => ?_) (fun h => h.2.1 hrepeats)
        have hcount := h.2.2.1
        rw [hruns, hrepeated hrepeats] at hcount
        omega
      · rw [hcounted hrepeats] at hiff hruns
        rw [hiff]
        constructor
        · rintro ⟨-, -, -, htimely, hchain⟩
          exact ⟨⟨hexact, hwaits, htimely⟩, hrepeats, hchain⟩
        · rintro ⟨⟨-, -, htimely⟩, -, hchain⟩
          exact ⟨hexact, iff_of_true rfl hdue, hruns, htimely, hchain⟩

/-- A verdict ends the episode; where there is none, an absence starts one. -/
theorem verdict_ends (c : Clock) (id : String) : VerdictEnds c id := by
  intro run call s next h hevaluated
  obtain ⟨rfl, -, hstep⟩ := look_spec h
  rcases hstep with ⟨_, _, -, hheld, -⟩ | ⟨results, -, -, hresults, hconclude⟩
  · exact absurd (hheld.symm.trans hevaluated) Bool.noConfusion
  have hreport : s.report = (run.conclude c.bounds id s.call.moment results).1 := congrArg Prod.fst hconclude
  have hnext : next = (run.conclude c.bounds id s.call.moment results).2 := congrArg Prod.snd hconclude
  constructor
  · intro hverdict
    rw [hreport] at hverdict
    obtain ⟨hepisodes, hplan⟩ := conclude_verdict hverdict
    rw [hnext, TodoRun.episodeKey, hepisodes, hplan]
    exact if_pos rfl
  · intro houtcome hfresh
    rw [hreport] at houtcome
    obtain ⟨gate, hepisode⟩ :=
      (evaluated_absent rfl hevaluated hresults hconclude (absenceOnly_of_absent houtcome)).episode
    rw [hfresh] at hepisode
    exact ⟨_, hepisode, rfl, rfl, rfl, rfl⟩

/-- Calls for an item that cannot be measured, from an absence that starts with the first: it is
one bounded episode exactly when no rounding of a difference between two calls moves one of them
over the ceiling or the wait, and no two successive calls past the ceiling come at one moment and
find the same predicates absent. -/
theorem absence_one_episode (c : Clock) (id : String) {run final : TodoRun} {first : Call} {rest : List Call}
    {seen : List Seen} (hfresh : run.episodes (run.episodeKey id) = none)
    (h : run.watch c.bounds id (first :: rest) = .ok (seen, final))
    (htimes : (first :: rest).IsChain (fun a b => c.time a.moment ≤ c.time b.moment))
    (habsent : ∀ s ∈ seen, AbsenceOnly s.report.results) :
    (OneEpisode c first.moment seen ∧ VerdictEnds c id) ↔ Timely c first.moment first.moment rest ∧
      (first :: rest).IsChain (fun a b => ¬ Repeats c run id first.moment a b) := by
  simp only [TodoRun.watch, bind_ok] at h
  obtain ⟨⟨s, next⟩, hlook, ⟨tail, final'⟩, hrest, h⟩ := h
  cases h
  obtain ⟨rfl, hevaluated, hmeasurable, hruns, hone, hon⟩ := look_fresh hlook hfresh (habsent s List.mem_cons_self)
  have htail : ∀ s' ∈ tail, AbsenceOnly s'.report.results := fun s' hs' => habsent s' (List.mem_cons_of_mem s hs')
  have hlast (pre : List Seen) : lastEvaluation s.call.moment (s :: pre) = lastEvaluation s.call.moment pre := by
    rw [lastEvaluation, List.foldl_cons, if_pos hevaluated]
    rfl
  rw [← watch_ongoing hon hrest htimes htail, hone]
  constructor
  · rintro ⟨hepisode, -⟩
    refine ⟨(List.forall_mem_cons.mp hepisode.unmeasurable).2, fun pre s' post hsplit => ?_,
      fun pre s' post hsplit => ?_⟩
    · have hwhen := hepisode.evaluated (s :: pre) s' post (hsplit ▸ rfl)
      rwa [hlast, or_iff_right (List.cons_ne_nil s pre)] at hwhen
    · rw [hepisode.counted (s :: pre) s' post (hsplit ▸ rfl), evaluations_cons, if_pos hevaluated]
  · intro h
    refine ⟨⟨?_, ?_, ?_⟩, verdict_ends c id⟩
    · refine List.forall_mem_cons.mpr ⟨?_, h.unmeasurable⟩
      rw [hmeasurable]
      exact iff_of_false Bool.false_ne_true (c.not_past_self _)
    · refine forall_split_cons.mpr ⟨⟨fun _ => .inl rfl, fun _ => hevaluated⟩, fun pre s' post hsplit => ?_⟩
      rw [hlast, h.evaluated pre s' post hsplit]
      exact ⟨.inr, fun h => h.resolve_left (List.cons_ne_nil s pre)⟩
    · refine forall_split_cons.mpr ⟨?_, fun pre s' post hsplit => ?_⟩
      · rw [evaluations_single, if_pos hevaluated]
        exact hruns
      · rw [h.counted pre s' post hsplit, evaluations_cons, if_pos hevaluated]

namespace Sample

def begun : TodoRun := { planned.start with preState := Map.empty.set deliver [] }

def patient : Clock where
  seconds text := if text = "0.0" then 0 else 10801
  wait := 300
  ceiling := 10800
  floats text := by
    split
    · exact Binary64.round_zero
    · decide +kernel
  wait_pos := by decide
  ceiling_pos := by decide

theorem zero_text : "0.0" ≠ "" := by decide

def atStart : Call := ⟨⟨"0.0", some 0, zero_text⟩, silent⟩

def pastCeiling : Call := ⟨⟨"10801.0", some 10801, by decide⟩, silent⟩

end Sample

/-- The second of two calls at one moment past the ceiling evaluates and is not counted. -/
theorem absence_not_counted :
    ∃ seen final, Sample.begun.watch Sample.patient.bounds deliver
        [Sample.atStart, Sample.pastCeiling, Sample.pastCeiling] = .ok (seen, final) ∧
      [Sample.atStart, Sample.pastCeiling, Sample.pastCeiling].IsChain
        (fun a b => Sample.patient.time a.moment ≤ Sample.patient.time b.moment) ∧
      (∀ s ∈ seen, AbsenceOnly s.report.results) ∧ ¬ OneEpisode Sample.patient Sample.atStart.moment seen := by
  have hrun : (match Sample.begun.watch Sample.patient.bounds deliver
        [Sample.atStart, Sample.pastCeiling, Sample.pastCeiling] with
      | .ok (seen, _) => decide ((∀ s ∈ seen, AbsenceOnly s.report.results) ∧
          seen.map (fun s => (s.evaluated, s.gateRuns)) = [(true, 1), (true, 2), (true, 2)])
      | .error _ => false) = true := by decide +kernel
  cases hwatch : Sample.begun.watch Sample.patient.bounds deliver
      [Sample.atStart, Sample.pastCeiling, Sample.pastCeiling] with
  | error e =>
    rw [hwatch] at hrun
    cases hrun
  | ok out =>
    rw [hwatch] at hrun
    obtain ⟨habsent, hmap⟩ := of_decide_eq_true hrun
    refine ⟨out.1, out.2, rfl, by decide, habsent, fun h => ?_⟩
    obtain ⟨a, l, hl, ha, hmap⟩ := List.map_eq_cons_iff.mp hmap
    obtain ⟨b, l, rfl, hb, hmap⟩ := List.map_eq_cons_iff.mp hmap
    obtain ⟨s, l, rfl, hs, hmap⟩ := List.map_eq_cons_iff.mp hmap
    rw [List.map_eq_nil_iff.mp hmap] at hl
    have hcounted := h.counted [a, b] s [] hl
    simp only [Prod.mk.injEq] at ha hb hs
    simp only [List.cons_append, List.nil_append, List.filter_cons, List.filter_nil, ha.1, hb.1, hs.1, if_true,
      List.length_cons, List.length_nil, hs.2] at hcounted
    omega

theorem absence_one_episode_twice :
    ∃ seen final, Sample.begun.watch Sample.patient.bounds deliver [Sample.atStart, Sample.pastCeiling] =
        .ok (seen, final) ∧ OneEpisode Sample.patient Sample.atStart.moment seen := by
  have hrun : (match Sample.begun.watch Sample.patient.bounds deliver [Sample.atStart, Sample.pastCeiling] with
      | .ok (seen, _) => decide (∀ s ∈ seen, AbsenceOnly s.report.results)
      | .error _ => false) = true := by decide +kernel
  cases hwatch : Sample.begun.watch Sample.patient.bounds deliver [Sample.atStart, Sample.pastCeiling] with
  | error e =>
    rw [hwatch] at hrun
    cases hrun
  | ok out =>
    rw [hwatch] at hrun
    have hnew : ¬ Repeats Sample.patient Sample.begun deliver Sample.atStart.moment Sample.atStart Sample.pastCeiling :=
      fun h => Sample.patient.not_past_self _ h.1
    have htimely : Timely Sample.patient Sample.atStart.moment Sample.atStart.moment [Sample.pastCeiling] :=
      ⟨by decide +kernel, by decide +kernel, trivial⟩
    exact ⟨out.1, out.2, rfl, ((absence_one_episode Sample.patient deliver rfl hwatch (by decide)
      (of_decide_eq_true hrun)).mpr ⟨htimely, .cons_cons hnew (.singleton _)⟩).1⟩

end AItelier.Todo
