import AItelier.Refine.Parts
import AItelier.State.Changes

namespace AItelier.State

open AItelier.Lib

variable {db : DB} {p : String} {f : Filters}

section Sequenced
variable {α : Type}

theorem sequenced_ordered (l : List α) : Ordered Prod.snd (sequenced l) := by
  have hsnd : ((sequenced l).map Prod.snd).Pairwise (· < ·) := by
    rw [sequenced, List.zipIdx_map_snd]
    exact List.pairwise_lt_range'
  exact List.pairwise_map.mp hsnd

theorem sequenced_append (l m : List α) : sequenced (l ++ m) = sequenced l ++ m.zipIdx (1 + l.length) :=
  List.zipIdx_append

theorem seq_le {l : List α} {row : α × Nat} (h : row ∈ sequenced l) : 0 < row.2 ∧ row.2 ≤ l.length := by
  have hle := List.le_snd_of_mem_zipIdx h
  have hlt := List.snd_lt_add_of_mem_zipIdx h
  omega

end Sequenced

theorem highWater_le (db : DB) (p : String) : highWater db p ≤ db.events.length := by
  refine foldl_max_le (Nat.zero_le _) (fun n hn => ?_)
  obtain ⟨row, hrow, rfl⟩ := List.mem_map.mp hn
  exact (seq_le (List.mem_of_mem_filter hrow)).2

theorem le_highWater {row : Event × Nat} (h : row ∈ sequenced db.events) (hp : row.1.projectId = p) :
    row.2 ≤ highWater db p := by
  refine le_foldl_max (.inl (List.mem_map_of_mem (List.mem_filter.mpr ⟨h, ?_⟩)))
  exact decide_eq_true hp

/-- A page holds exactly the selected events between the cursor it was read from
and the one it hands out, and it is full or nothing lies behind its cursor. -/
theorem scan_ok {a limit c : Nat} {events : List (Event × Nat)} (hlimit : 1 ≤ limit)
    (h : scan db p a f limit = .ok (events, c)) :
    a ≤ c ∧ (c = a ∨ c ≤ db.events.length) ∧ events = span Prod.snd a c (selected db p f) ∧
      (events.length = limit ∨ ∀ row ∈ sequenced db.events, row.1.projectId = p → row.2 ≤ c) := by
  simp only [scan, bind_ok, orElse_ok, pure_ok, Prod.mk.injEq, pageCursor_take, List.take_take,
    Nat.min_eq_left (Nat.le_succ limit)] at h
  obtain ⟨_, _, c', hcursor, rfl, rfl⟩ := h
  set high := highWater db p with hhigh
  set rows := span Prod.snd a high (selected db p f) with hrows
  have hord : Ordered Prod.snd rows := ((sequenced_ordered db.events).filter _).filter _
  have hin : ∀ x ∈ rows, a < x.2 ∧ x.2 ≤ high := fun x hx => (mem_span.mp hx).2
  obtain ⟨c, hc, hac, htake, hfull, hrest⟩ := page_exact hord hlimit hin
  obtain rfl : c = c' := Option.some.inj (hc.symm.trans hcursor)
  have hhighLe : high ≤ db.events.length := highWater_le db p
  have hinner : span Prod.snd a c rows = span Prod.snd a c (selected db p f) := by
    rw [hrows, span, span, List.filter_filter, span]
    refine List.filter_congr (fun x hx => ?_)
    rw [← Bool.decide_and]
    refine decide_eq_decide.mpr ⟨fun h => h.1, fun h => ⟨h, h.1, ?_⟩⟩
    obtain ⟨hx, hsel⟩ := List.mem_filter.mp hx
    rw [Bool.and_eq_true, decide_eq_true_eq] at hsel
    exact le_highWater hx hsel.1
  refine ⟨hac, ?_, htake.trans hinner, ?_⟩
  · rcases Nat.lt_or_ge limit rows.length with hmore | hle
    · exact .inr (Nat.le_trans (hfull hmore).2 hhighLe)
    · rcases Nat.le_total a high with h | h
      · exact .inr (by rw [hrest hle, Nat.max_eq_right h]; exact hhighLe)
      · exact .inl (by rw [hrest hle, Nat.max_eq_left h])
  · rcases Nat.lt_or_ge limit rows.length with hmore | hle
    · exact .inl (List.length_take_of_le (Nat.le_of_lt hmore))
    · refine .inr (fun row hrow hp => ?_)
      rw [hrest hle]
      exact Nat.le_trans (le_highWater hrow hp) (Nat.le_max_right _ _)

section Following
variable (c : Commits) (p : String) (f : Filters)

theorem Commits.prefix {s t : Nat} (h : s ≤ t) : (c.snapshot s).events <+: (c.snapshot t).events := by
  induction t, h using Nat.le_induction with
  | base => exact List.prefix_refl _
  | succ t _ ih => exact ih.trans (c.appends t)

/-- The commits of a run of the system, which stays as it ends. -/
def Commits.ofRun (host : Host) (ops : List Op) : Commits where
  snapshot t := (after host (ops.take t)).db
  appends t := by
    rw [List.take_add_one, after_append]
    exact run_log host _ _

/-- The project's events of a snapshot that the filters select, each as it was
judged in a snapshot of its own. -/
def judgedBy (judge : Nat → Nat) (t : Nat) : List (Event × Nat) :=
  (sequenced (c.snapshot t).events).filter (fun row =>
    decide (row.1.projectId = p) && matchesEvent (c.snapshot (judge row.2)) p f row.1)

/-- What was delivered from the first cursor to the present one: every event in
between was judged in a snapshot that was read meanwhile and holds it, and those
that matched there are the ones delivered, whatever is committed later. -/
def Exact (start first now cursor : Nat) (got : List (Event × Nat)) : Prop :=
  start ≤ now ∧ first ≤ cursor ∧ ∃ judge : Nat → Nat,
    (∀ seq, first < seq → seq ≤ cursor →
      start ≤ judge seq ∧ judge seq ≤ now ∧ seq ≤ (c.snapshot (judge seq)).events.length) ∧
    ∀ t, now ≤ t → got = span Prod.snd first cursor (judgedBy c p f judge t)

variable {c p f}

theorem judgedBy_ordered (judge : Nat → Nat) (t : Nat) : Ordered Prod.snd (judgedBy c p f judge t) :=
  (sequenced_ordered _).filter _

theorem span_later {s t a b : Nat} (hst : s ≤ t) (hb : b = a ∨ b ≤ (c.snapshot s).events.length)
    (judge : Nat → Nat) :
    span Prod.snd a b (judgedBy c p f judge t) = span Prod.snd a b (judgedBy c p f judge s) := by
  rcases hb with rfl | hb
  · rw [span_of_le (Nat.le_refl _), span_of_le (Nat.le_refl _)]
  · obtain ⟨tail, htail⟩ := c.prefix hst
    rw [judgedBy, ← htail, sequenced_append]
    refine span_append_later (fun row hrow => ?_)
    have hle := List.le_snd_of_mem_zipIdx hrow
    omega

section Exact
variable {start first now cursor : Nat} {got : List (Event × Nat)}

theorem exact_start (start first : Nat) : Exact c p f start first start first [] := by
  refine ⟨Nat.le_refl _, Nat.le_refl _, fun _ => start, fun seq hlt hle => by omega, fun t _ => ?_⟩
  exact (span_of_le (Nat.le_refl _) _).symm

theorem Exact.later {now' : Nat} (h : Exact c p f start first now cursor got) (hnow : now ≤ now') :
    Exact c p f start first now' cursor got := by
  obtain ⟨hstart, hfirst, judge, hjudge, hgot⟩ := h
  refine ⟨Nat.le_trans hstart hnow, hfirst, judge, fun seq hlt hle => ?_, fun t ht => hgot t (Nat.le_trans hnow ht)⟩
  obtain ⟨h1, h2, h3⟩ := hjudge seq hlt hle
  exact ⟨h1, Nat.le_trans h2 hnow, h3⟩

/-- One more scan from the present cursor. -/
theorem Exact.scan {now' limit cursor' : Nat} {events : List (Event × Nat)} (h : Exact c p f start first now cursor got)
    (hnow : now ≤ now') (hlimit : 1 ≤ limit)
    (hscan : scan (c.snapshot now') p cursor f limit = .ok (events, cursor')) :
    Exact c p f start first now' cursor' (got ++ events) := by
  obtain ⟨hstart, hfirst, judge, hjudge, hgot⟩ := h
  obtain ⟨hle, hreach, hevents, _⟩ := scan_ok hlimit hscan
  refine ⟨Nat.le_trans hstart hnow, Nat.le_trans hfirst hle, fun seq => if seq ≤ cursor then judge seq
    else now', ?_, ?_⟩
  · intro seq hlt hseq
    by_cases hold : seq ≤ cursor
    · obtain ⟨h1, h2, h3⟩ := hjudge seq hlt hold
      simp only [if_pos hold]
      exact ⟨h1, Nat.le_trans h2 hnow, h3⟩
    · simp only [if_neg hold]
      refine ⟨Nat.le_trans hstart hnow, Nat.le_refl _, ?_⟩
      omega
  · intro t ht
    -- up to the old cursor nothing is judged anew, and after it this scan judges
    have hbefore : got = span Prod.snd first cursor
        (judgedBy c p f (fun seq => if seq ≤ cursor then judge seq else now') t) := by
      rw [hgot t (Nat.le_trans hnow ht)]
      refine span_congr (fun row _ _ hrow => ?_)
      simp only [if_pos hrow]
    have hafter : events = span Prod.snd cursor cursor'
        (judgedBy c p f (fun seq => if seq ≤ cursor then judge seq else now') t) := by
      rw [hevents, span_later ht hreach]
      refine span_congr (fun row _ hrow _ => ?_)
      simp only [if_neg (Nat.not_le.mpr hrow)]
    rw [← span_append (judgedBy_ordered _ t) hfirst hle, ← hbefore, ← hafter]

end Exact

section Loop
variable {r : WaitRequest} {w w' : Waiting} {t : Turn} {out : Option Answer}

theorem look_ok {pause : Nat} {events : List (Event × Nat)} (h : look c r w pause = .ok (events, w')) :
    w'.now = w.now + pause ∧ w'.recoveryAfter = w.recoveryAfter ∧ w'.pages = w.pages ∧
      scan (c.snapshot w'.now) r.projectId w.cursor r.filters r.limit = .ok (events, w'.cursor) := by
  simp only [look, bind_ok, pure_ok, Prod.mk.injEq] at h
  obtain ⟨⟨events', cursor⟩, hscan, rfl, rfl⟩ := h
  exact ⟨rfl, rfl, rfl, hscan⟩

/-- What recovery does to the loop: without an engine or a timeout nothing, else
at most one page. -/
def Recovers (c : Commits) (r : WaitRequest) (w : Waiting) (rec : Recovery) (w' : Waiting) (ok : Option Bool) : Prop :=
  (r.recovering = false ∧ w' = w ∧ ok = some true) ∨ (r.recovering = true ∧ w' = w ∧ ok = none) ∨
  ∃ pause failed rows next done, r.recovering = true ∧ rec = .page pause failed ∧ ok = some done ∧
    recoverPage (c.snapshot (w.now + pause)) r.projectId w.recoveryAfter r.filters failed = .ok (rows, next, done) ∧
    w' = { w with now := w.now + pause, recoveryAfter := next,
                  pages := w.pages ++ [⟨w.now + pause, w.recoveryAfter, rows, done⟩] }

variable {ok : Option Bool}

theorem recoverIfAble_ok {rec : Recovery} (h : recoverIfAble c r w rec = .ok (some (w', ok))) :
    Recovers c r w rec w' ok := by
  simp only [recoverIfAble, ite_ok, pure_ok, Option.some.injEq, Prod.mk.injEq, Bool.not_eq_true] at h
  obtain ⟨hr, h⟩ | ⟨hr, rfl, rfl⟩ := h
  case inr => exact .inl ⟨hr, rfl, rfl⟩
  cases rec with
  | late | busy =>
    simp only [recover, pure_ok, Option.some.injEq, Prod.mk.injEq] at h
    obtain ⟨rfl, rfl⟩ := h
    exact .inr (.inl ⟨hr, rfl, rfl⟩)
  | overran => simp [recover, pure_ok] at h
  | page pause failed =>
    simp only [recover, bind_ok, pure_ok, Option.some.injEq, Prod.mk.injEq] at h
    obtain ⟨⟨rows, next, done⟩, hpage, rfl, rfl⟩ := h
    exact .inr (.inr ⟨pause, failed, rows, next, done, hr, rfl, rfl, hpage, rfl⟩)

theorem Recovers.cursor {rec : Recovery} (h : Recovers c r w rec w' ok) :
    w'.cursor = w.cursor ∧ w.now ≤ w'.now := by
  obtain ⟨_, rfl, _⟩ | ⟨_, rfl, _⟩ | ⟨pause, _, _, _, _, _, _, _, _, rfl⟩ := h
  · exact ⟨rfl, Nat.le_refl _⟩
  · exact ⟨rfl, Nat.le_refl _⟩
  · exact ⟨rfl, Nat.le_add_right _ _⟩

/-- How a turn ends after its recovery: with a second scan, or without one. -/
inductive Settles (c : Commits) (r : WaitRequest) (w : Waiting) (ok : Option Bool) (t : Turn) :
    Waiting → Option Answer → Prop
  | rescan {w' : Waiting} {events : List (Event × Nat)} {reason : Option Reason} :
      look c r w t.rescanPause = .ok (events, w') → reason ≠ some .nothingToWait →
      Settles c r w ok t w' (some ⟨events, w'.cursor, false, reason⟩)
  | on {w' : Waiting} : w'.cursor = w.cursor → w.now ≤ w'.now → w'.recoveryAfter = w.recoveryAfter →
      w'.pages = w.pages → (r.returnWhenIdle = true → ok ≠ some false) → Settles c r w ok t w' none
  | ended : Settles c r w ok t w (some ⟨[], w.cursor, true, none⟩)
  | overJudged : Settles c r w ok t { w with now := w.now + t.judgePause } (some ⟨[], w.cursor, true, none⟩)
  | judged {reason : Reason} : r.returnWhenIdle = true → ok = some true → w.recoveryAfter = 0 →
      waitDisposition (c.snapshot (w.now + t.judgePause)) r.projectId w.cursor r.filters t.noteRevision t.current =
        .reason reason →
      Settles c r w ok t { w with now := w.now + t.judgePause } (some ⟨[], w.cursor, false, some reason⟩)

theorem Settles.now (h : Settles c r w ok t w' out) : w.now ≤ w'.now := by
  cases h with
  | rescan hlook _ =>
    obtain ⟨hnow, _⟩ := look_ok hlook
    omega
  | on _ hnow _ _ _ => exact hnow
  | ended => exact Nat.le_refl _
  | overJudged | judged _ _ _ _ => exact Nat.le_add_right _ _

theorem rest_settles {late : Bool} (hidle : r.returnWhenIdle = true → ok ≠ some false) :
    Settles c r w ok t (rest w late).1 (rest w late).2 := by
  cases late with
  | true => exact .ended
  | false => exact .on rfl (Nat.le_refl _) rfl rfl hidle

theorem judge_settles (hasked : r.returnWhenIdle = true) (hok : ok = some true) (hsweep : w.recoveryAfter = 0) :
    Settles c r w ok t (judge c r w t).1 (judge c r w t).2 := by
  have hidle : r.returnWhenIdle = true → ok ≠ some false := by
    intro _ hfalse
    rw [hok] at hfalse
    cases hfalse
  simp only [judge]
  split
  · exact .on rfl (Nat.le_add_right _ _) rfl rfl hidle
  · next reason hreason => exact .judged hasked hok hsweep hreason
  · unfold rest
    split
    · exact .overJudged
    · exact .on rfl (Nat.le_add_right _ _) rfl rfl hidle

theorem settle_ok (h : settle c r w ok t = .ok (w', out)) : Settles c r w ok t w' out := by
  unfold settle at h
  split_ifs at h with hfail hsignal hsweep hjudge
  · simp only [bind_ok, pure_ok, Prod.mk.injEq] at h
    obtain ⟨⟨events, w₁⟩, hlook, rfl, rfl⟩ := h
    by_cases hevents : events = []
    · subst hevents
      have hnamed : Settles c r w ok t w₁ (some ⟨[], w₁.cursor, false, some .observationUnavailable⟩) :=
        .rescan hlook (by simp)
      simpa using hnamed
    · rw [if_pos hevents]
      exact .rescan hlook (by simp)
  · simp only [pure_ok, Prod.mk.injEq] at h
    obtain ⟨rfl, rfl⟩ := h
    exact .on rfl (Nat.le_refl _) rfl rfl (fun hidle hok => hfail ⟨hidle, hok⟩)
  · rw [pure_ok, Prod.ext_iff] at h
    obtain ⟨rfl, rfl⟩ := h
    exact rest_settles (fun hidle hok => hfail ⟨hidle, hok⟩)
  · rw [pure_ok, Prod.ext_iff] at h
    obtain ⟨rfl, rfl⟩ := h
    obtain ⟨hidle, hsome⟩ := hjudge
    have hok : ok = some true := by
      rcases ok with _ | _ | _
      · exact absurd rfl hsome
      · exact absurd ⟨hidle, rfl⟩ hfail
      · rfl
    refine judge_settles hidle hok ?_
    by_contra hne
    exact hsweep ⟨hne, hsome⟩
  · rw [pure_ok, Prod.ext_iff] at h
    obtain ⟨rfl, rfl⟩ := h
    exact rest_settles (fun hidle hok => hfail ⟨hidle, hok⟩)

/-- Everything a turn can do. -/
theorem turn_cases (h : turn c r w t = .ok (w', out)) : ∃ events w₁, look c r w t.pause = .ok (events, w₁) ∧
    ((w' = w₁ ∧ out = some ⟨events, w₁.cursor, false, none⟩) ∨
      (events = [] ∧ w' = w₁ ∧ out = some ⟨[], w₁.cursor, true, none⟩) ∨
      events = [] ∧ ∃ w₂ ok, Recovers c r w₁ t.recovery w₂ ok ∧ Settles c r w₂ ok t w' out) := by
  simp only [turn, bind_ok] at h
  obtain ⟨⟨events, w₁⟩, hlook, h⟩ := h
  refine ⟨events, w₁, hlook, ?_⟩
  simp only [ite_ok] at h
  obtain ⟨_, h⟩ | ⟨hnone, h⟩ := h
  · simp only [pure_ok, Prod.mk.injEq] at h
    exact .inl ⟨h.1.symm, h.2.symm⟩
  · simp only [bind_ok] at h
    obtain ⟨recovered, hrec, h⟩ := h
    have hempty : events = [] := by
      by_contra hne
      exact hnone (.inl hne)
    cases recovered with
    | none =>
      simp only [pure_ok, Prod.mk.injEq] at h
      exact .inr (.inl ⟨hempty, h.1.symm, h.2.symm⟩)
    | some pair => exact .inr (.inr ⟨hempty, pair.1, pair.2, recoverIfAble_ok hrec, settle_ok h⟩)

section Delivery
variable {start first since : Nat} {got : List (Event × Nat)}

/-- Events were delivered up to a cursor, and their page is full or goes past every
event of the project that was there before. -/
def Delivers (c : Commits) (p : String) (f : Filters) (limit start first since now cursor : Nat)
    (got events : List (Event × Nat)) : Prop :=
  Exact c p f start first now cursor (got ++ events) ∧
  (events.length = limit ∨ ∀ row ∈ sequenced (c.snapshot since).events, row.1.projectId = p → row.2 ≤ cursor)

theorem scan_delivers {now now' limit cursor cursor' : Nat} {events : List (Event × Nat)}
    (h : Exact c p f start first now cursor got) (hnow : now ≤ now') (hsince : since ≤ now') (hlimit : 1 ≤ limit)
    (hscan : scan (c.snapshot now') p cursor f limit = .ok (events, cursor')) :
    Delivers c p f limit start first since now' cursor' got events := by
  refine ⟨h.scan hnow hlimit hscan, ?_⟩
  obtain ⟨_, _, _, hfull | hpast⟩ := scan_ok hlimit hscan
  · exact .inl hfull
  · refine .inr (fun row hrow hp => hpast row ?_ hp)
    obtain ⟨tail, htail⟩ := c.prefix hsince
    rw [← htail, sequenced_append]
    exact List.mem_append_left _ hrow

theorem Delivers.later {limit now now' cursor : Nat} {events : List (Event × Nat)}
    (h : Delivers c p f limit start first since now cursor got events) (hnow : now ≤ now') :
    Delivers c p f limit start first since now' cursor got events :=
  ⟨h.1.later hnow, h.2⟩

/-- What a turn leaves behind: the loop's cursor while it goes on, and the answer
when it ends. -/
def Waiting.Delivers (c : Commits) (r : WaitRequest) (start first since : Nat) (got : List (Event × Nat))
    (w : Waiting) : Option Answer → Prop
  | none => Exact c r.projectId r.filters start first w.now w.cursor got
  | some a => State.Delivers c r.projectId r.filters r.limit start first since w.now a.nextAfter got a.events

theorem Settles.delivers {ok : Option Bool} (h : Settles c r w ok t w' out)
    (hw : State.Delivers c r.projectId r.filters r.limit start first since w.now w.cursor got [])
    (hsince : since ≤ w.now) : w'.Delivers c r start first since got out := by
  have hexact : Exact c r.projectId r.filters start first w.now w.cursor got := by
    simpa using hw.1
  cases h with
  | rescan hlook _ =>
    obtain ⟨hnow, _, _, hscan⟩ := look_ok hlook
    have hle : w.now ≤ w'.now := by omega
    exact scan_delivers hexact hle (Nat.le_trans hsince hle) r.limit.2.1 hscan
  | on hcursor hnow _ _ _ =>
    simp only [Waiting.Delivers]
    rw [hcursor]
    exact hexact.later hnow
  | ended => exact hw
  | overJudged => exact hw.later (Nat.le_add_right _ _)
  | judged _ _ _ _ => exact hw.later (Nat.le_add_right _ _)

theorem turn_delivers (h : turn c r w t = .ok (w', out))
    (hw : Exact c r.projectId r.filters start first w.now w.cursor got)
    (hsince : since ≤ w.now) : w'.Delivers c r start first since got out ∧ since ≤ w'.now := by
  obtain ⟨events, w₁, hlook, h⟩ := turn_cases h
  obtain ⟨hnow, _, _, hscan⟩ := look_ok hlook
  have hle : w.now ≤ w₁.now := by omega
  have hsince₁ : since ≤ w₁.now := Nat.le_trans hsince hle
  have hpage := scan_delivers hw hle hsince₁ r.limit.2.1 hscan
  obtain ⟨rfl, rfl⟩ | ⟨rfl, rfl, rfl⟩ | ⟨rfl, w₂, ok, hrec, hset⟩ := h
  · exact ⟨hpage, hsince₁⟩
  · exact ⟨hpage, hsince₁⟩
  · obtain ⟨hcursor, hnow₂⟩ := hrec.cursor
    have hpage₂ := hpage.later hnow₂
    rw [← hcursor] at hpage₂
    have hsince₂ : since ≤ w₂.now := Nat.le_trans hsince₁ hnow₂
    exact ⟨hset.delivers hpage₂ hsince₂, Nat.le_trans hsince₂ hset.now⟩

theorem wait_delivers {turns : List Turn} {a : Answer} (h : wait c r w turns = .ok (some (w', a)))
    (hw : Exact c r.projectId r.filters start first w.now w.cursor got) (hsince : since ≤ w.now) :
    State.Delivers c r.projectId r.filters r.limit start first since w'.now a.nextAfter got a.events := by
  induction turns generalizing w with
  | nil => simp [wait, pure_ok] at h
  | cons t more ih =>
    simp only [wait, bind_ok] at h
    obtain ⟨⟨w₁, out⟩, hturn, h⟩ := h
    obtain ⟨hout, hsince₁⟩ := turn_delivers hturn hw hsince
    cases out with
    | none => exact ih h hout hsince₁
    | some a' =>
      simp only [pure_ok, Option.some.injEq, Prod.mk.injEq] at h
      obtain ⟨rfl, rfl⟩ := h
      exact hout

end Delivery

end Loop

section Poll
variable {start first : Nat} {o : Follower}

theorem answer_delivers {poll : Poll} {events : List (Event × Nat)} {cursor now : Nat}
    (h : poll.answer c p f o = some (events, cursor, now)) (ho : Exact c p f start first o.now o.cursor o.got) :
    Delivers c p f poll.limit start first o.now now cursor o.got events := by
  cases poll with
  | scan pause limit =>
    simp only [Poll.answer] at h
    split at h
    · next events' cursor' hscan =>
      simp only [Option.some.injEq, Prod.mk.injEq] at h
      obtain ⟨rfl, rfl, rfl⟩ := h
      exact scan_delivers ho (Nat.le_add_right _ _) (Nat.le_add_right _ _) limit.2.1 hscan
    · cases h
  | wait limit idle recovering turns =>
    simp only [Poll.answer] at h
    split at h
    · next w a hwait =>
      simp only [Option.some.injEq, Prod.mk.injEq] at h
      obtain ⟨rfl, rfl, rfl⟩ := h
      exact wait_delivers hwait ho (Nat.le_refl _)
    · cases h

theorem follow_exact {poll : Poll} (ho : Exact c p f start first o.now o.cursor o.got) :
    Exact c p f start first (follow c p f o poll).now (follow c p f o poll).cursor (follow c p f o poll).got := by
  unfold follow
  split
  · next h => exact (answer_delivers h ho).1
  · exact ho

theorem polls_exact (polls : List Poll) (ho : Exact c p f start first o.now o.cursor o.got) :
    Exact c p f start first (polls.foldl (follow c p f) o).now (polls.foldl (follow c p f) o).cursor
      (polls.foldl (follow c p f) o).got := by
  induction polls generalizing o with
  | nil => exact ho
  | cons poll polls ih => exact ih (follow_exact ho)

theorem matchesEvent_graphless {db db' : DB} (h : f.nodeKeys = none) (e : Event) :
    matchesEvent db p f e = matchesEvent db' p f e := by
  simp only [matchesEvent, h, Option.map_none]

theorem Exact.plain {now cursor : Nat} {got : List (Event × Nat)} (h : Exact c p f start first now cursor got)
    (halike : ∀ s t e, start ≤ s → s ≤ now → now ≤ t →
      matchesEvent (c.snapshot s) p f e = matchesEvent (c.snapshot t) p f e) {t : Nat} (ht : now ≤ t) :
    got = span Prod.snd first cursor (selected (c.snapshot t) p f) := by
  obtain ⟨_, _, judge, hjudge, hgot⟩ := h
  rw [hgot t ht]
  refine span_congr (fun row _ hlt hle => ?_)
  obtain ⟨hstart, hnow, _⟩ := hjudge row.2 hlt hle
  rw [halike _ t row.1 hstart hnow ht]

end Poll

/-- A driver polls with scans and waits, each from the cursor the last answer gave
it, while anything is committed in between. What it is given, in order, is exactly
the project's events between its first cursor and its present one that matched when
they were passed; filters that judge alike throughout, as all do that name no
nodes, select them from the log as it then stands. And a poll that is answered
fills its page or passes every event that was there before it. -/
theorem event_cursor_exact (c : Commits) (p : String) (f : Filters) (start first : Nat) (polls : List Poll) :
    let o := polls.foldl (follow c p f) ⟨start, first, []⟩
    Exact c p f start first o.now o.cursor o.got ∧
    (f.nodeKeys = none ∨ (∀ s t e, start ≤ s → s ≤ o.now → o.now ≤ t →
        matchesEvent (c.snapshot s) p f e = matchesEvent (c.snapshot t) p f e) →
      ∀ t, o.now ≤ t → o.got = span Prod.snd first o.cursor (selected (c.snapshot t) p f)) ∧
    ∀ (poll : Poll) (events : List (Event × Nat)) (cursor now : Nat), poll.answer c p f o = some (events, cursor, now) →
      events.length = poll.limit ∨
        ∀ row ∈ sequenced (c.snapshot o.now).events, row.1.projectId = p → row.2 ≤ cursor := by
  intro o
  have ho : Exact c p f start first o.now o.cursor o.got := polls_exact polls (exact_start start first)
  refine ⟨ho, fun halike t ht => ?_, fun poll events cursor now h => (answer_delivers h ho).2⟩
  rcases halike with hnone | halike
  · exact ho.plain (fun _ _ e _ _ _ => matchesEvent_graphless hnone e) ht
  · exact ho.plain halike ht

end Following

end AItelier.State
