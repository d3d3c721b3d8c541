import AItelier.Proofs.Changes
import AItelier.Proofs.Closure

namespace AItelier.State

open AItelier.Lib

variable {db : DB} {p : String} {f : Filters}

section Scope

/-- A node that exists among the named ones, or something upstream of one. -/
def Upstream (db : DB) (p : String) (keys : List String) (k : String) : Prop :=
  ∃ root ∈ keys, (∃ n ∈ db.nodes, n.id = (p, root)) ∧
    Relation.ReflTransGen (fun a b => (a, b) ∈ projectEdges db p) root k

/-- What a wait is about: every attempt of the project, or the named attempts and
those of the named nodes and of everything upstream. -/
def InScope (db : DB) (p : String) (f : Filters) (a : Attempt) : Prop :=
  a.projectId = p ∧
  match f.nodeKeys, f.attemptIds, f.filterMode with
  | none, none, _ => True
  | some keys, none, _ => Upstream db p keys a.nodeKey
  | none, some ids, _ => a.attemptId ∈ ids
  | some keys, some ids, .all => Upstream db p keys a.nodeKey ∧ a.attemptId ∈ ids
  | some keys, some ids, .any => Upstream db p keys a.nodeKey ∨ a.attemptId ∈ ids

theorem mem_relevant {keys : List String} {k : String} : k ∈ relevant db p keys ↔ Upstream db p keys k := by
  have hswap : ∀ a b, Relation.ReflTransGen (fun a b => (a, b) ∈ (projectEdges db p).map Prod.swap) a b ↔
      Relation.ReflTransGen (fun a b => (a, b) ∈ projectEdges db p) b a := by
    intro a b
    have hrel : (fun a b => (a, b) ∈ (projectEdges db p).map Prod.swap) =
        Function.swap (fun a b => (a, b) ∈ projectEdges db p) := by
      funext a b
      simp [Function.swap]
    rw [hrel, Relation.reflTransGen_swap]
  rw [relevant, mem_iterate_grow]
  simp only [hswap]
  simp only [List.mem_filter, List.mem_map, decide_eq_true_eq, Upstream]
  constructor
  · rintro ⟨root, ⟨⟨n, ⟨hn, hp⟩, rfl⟩, hroot⟩, hreach⟩
    exact ⟨_, hroot, ⟨n, hn, by rw [Node.id, hp]⟩, hreach⟩
  · rintro ⟨root, hroot, ⟨n, hn, hid⟩, hreach⟩
    rw [Node.id, Prod.mk.injEq] at hid
    exact ⟨root, ⟨⟨n, ⟨hn, hid.1⟩, hid.2⟩, hroot⟩, hreach⟩

theorem watched_iff {a : Attempt} : a.projectId = p ∧ watched db p f a = true ↔ InScope db p f a := by
  obtain ⟨nodeKeys, attemptIds, note, mode, actionable, lease⟩ := f
  refine and_congr_right (fun _ => ?_)
  cases nodeKeys <;> cases attemptIds <;> cases mode <;> simp [watched, joined, mem_relevant]

end Scope

theorem waitDisposition_idle {cursor noteRevision : Nat} {current : Stamp}
    (h : waitDisposition db p cursor f noteRevision current = .reason .nothingToWait) :
    highWater db p ≤ cursor ∧ ∀ row ∈ judgedRows db p f, row.1.status.over = true ∧
      (row.1.status = .candidate → row.1.artifactRef ≠ none) := by
  simp only [waitDisposition] at h
  split_ifs at h with hhigh hnote hpaused hunpinned hlease hwaiting hpending
  all_goals try (simp only [Disposition.reason.injEq, reduceCtorEq] at h)
  refine ⟨Nat.not_lt.mp hhigh, fun row hrow => ⟨?_, fun hstatus hnone => ?_⟩⟩
  · have hout := List.filter_eq_nil_iff.mp (not_not.mp hwaiting) row hrow
    simpa using hout
  · have hout := List.filter_eq_nil_iff.mp (not_not.mp hunpinned) row hrow
    simp [hstatus, hnone] at hout

theorem over_not_active {s : AttemptStatus} (h : s.over = true) : s.active = false := by
  cases s <;> first | rfl | cases h

section Sweep
variable {c : Commits} {r : WaitRequest} {w w' : Waiting} {t : Turn} {start : Nat}

/-- A page took in the attempt of this number, if it was to be recovered there. -/
def PageRead.Took (c : Commits) (r : WaitRequest) (page : PageRead) (seq : Nat) : Prop :=
  ∀ row ∈ sequenced (c.snapshot page.moment).attempts, row.2 = seq →
    eligible (c.snapshot page.moment) r.projectId r.filters row = true → row ∈ page.visited

/-- The last pages of a wait, all of them read in its time and without a failure
where an idle verdict was asked for, took in every attempt up to a number. -/
def SweptTo (c : Commits) (r : WaitRequest) (start now : Nat) (pages : List PageRead) (reached : Nat → Prop) : Prop :=
  ∃ earlier sweep, pages = earlier ++ sweep ∧
    (∀ page ∈ sweep, (r.returnWhenIdle = true → page.ok = true) ∧ start ≤ page.moment ∧ page.moment ≤ now) ∧
    ∀ seq, 0 < seq → reached seq → ∃ page ∈ sweep, page.Took c r seq

theorem recoverPage_ok {after : Nat} {failed : List String} {rows : List (Attempt × Nat)} {next : Nat} {ok : Bool}
    (h : recoverPage db p after f failed = .ok (rows, next, ok)) :
    (next = 0 ∧ ∀ row ∈ sequenced db.attempts, after < row.2 → eligible db p f row = true → row ∈ rows) ∨
    (0 < next ∧ ∀ row ∈ sequenced db.attempts, after < row.2 → row.2 ≤ next → eligible db p f row = true →
      row ∈ rows) := by
  simp only [recoverPage, bind_ok, pure_ok, Prod.mk.injEq] at h
  obtain ⟨_, _, rfl, rfl, rfl⟩ := h
  set l := ((sequenced db.attempts).filter (eligible db p f)).filter (fun row => decide (after < row.2)) with hl
  have hmem : ∀ row ∈ sequenced db.attempts, after < row.2 → eligible db p f row = true → row ∈ l := by
    intro row hrow hlt helig
    exact List.mem_filter.mpr ⟨List.mem_filter.mpr ⟨hrow, helig⟩, decide_eq_true hlt⟩
  by_cases hfull : (l.take pageSize).length = pageSize
  · have hne : l.take pageSize ≠ [] := by
      intro hnil
      rw [hnil] at hfull
      cases hfull
    obtain ⟨x, hx⟩ := Option.ne_none_iff_exists'.mp (fun hnone => hne (List.getLast?_eq_none_iff.mp hnone))
    have hpos : 0 < x.2 := by
      have hxl := List.mem_of_mem_take (List.mem_of_getLast? hx)
      exact (seq_le (List.mem_of_mem_filter (List.mem_of_mem_filter hxl))).1
    rw [if_pos hfull, hx]
    refine .inr ⟨hpos, fun row hrow hlt hle helig => ?_⟩
    have hord : Ordered Prod.snd l := ((sequenced_ordered db.attempts).filter _).filter _
    rw [hord.take_eq hx]
    exact List.mem_filter.mpr ⟨hmem row hrow hlt helig, decide_eq_true hle⟩
  · refine .inl ⟨if_neg hfull, fun row hrow hlt helig => ?_⟩
    have hshort : l.length ≤ pageSize := by
      rw [List.length_take] at hfull
      omega
    rw [List.take_of_length_le hshort]
    exact hmem row hrow hlt helig

theorem SweptTo.later {now now' : Nat} {pages : List PageRead} {reached : Nat → Prop}
    (h : SweptTo c r start now pages reached) (hnow : now ≤ now') : SweptTo c r start now' pages reached := by
  obtain ⟨earlier, sweep, hpages, htimes, htook⟩ := h
  refine ⟨earlier, sweep, hpages, fun page hpage => ?_, htook⟩
  obtain ⟨hok, hstart, hmoment⟩ := htimes page hpage
  exact ⟨hok, hstart, Nat.le_trans hmoment hnow⟩

theorem sweptTo_zero (now : Nat) (pages : List PageRead) : SweptTo c r start now pages (fun seq => seq ≤ 0) := by
  refine ⟨pages, [], (List.append_nil _).symm, fun _ h => by simp at h, fun seq hpos hle => ?_⟩
  omega

theorem SweptTo.page {now now' a : Nat} {pages : List PageRead} {reached : Nat → Prop} {page : PageRead}
    (h : SweptTo c r start now pages (fun seq => seq ≤ a)) (hnow : now ≤ now') (hstart : start ≤ now')
    (hmoment : page.moment = now') (hok : r.returnWhenIdle = true → page.ok = true)
    (htook : ∀ seq, a < seq → reached seq → page.Took c r seq) :
    SweptTo c r start now' (pages ++ [page]) reached := by
  obtain ⟨earlier, sweep, hpages, htimes, htaken⟩ := h.later hnow
  refine ⟨earlier, sweep ++ [page], by rw [hpages, List.append_assoc], fun q hq => ?_, fun seq hpos hseq => ?_⟩
  · rcases List.mem_append.mp hq with hq | hq
    · exact htimes q hq
    · obtain rfl := List.mem_singleton.mp hq
      exact ⟨hok, by omega, by omega⟩
  · rcases Nat.lt_or_ge a seq with hlt | hle
    · exact ⟨page, List.mem_append_right _ (List.mem_singleton_self _), htook seq hlt hseq⟩
    · obtain ⟨q, hq, hqt⟩ := htaken seq hpos hle
      exact ⟨q, List.mem_append_left _ hq, hqt⟩

/-- A turn's recovery carries the sweep on; where it comes back to 0, every
attempt was taken in. -/
theorem Recovers.swept {rec : Recovery} {ok : Option Bool} (h : Recovers c r w rec w' ok) (hstart : start ≤ w.now)
    (hidle : r.returnWhenIdle = true → ok ≠ some false)
    (hw : SweptTo c r start w.now w.pages (fun seq => seq ≤ w.recoveryAfter)) :
    SweptTo c r start w'.now w'.pages (fun seq => seq ≤ w'.recoveryAfter) ∧
      (r.recovering = true → ok = some true → w'.recoveryAfter = 0 →
        SweptTo c r start w'.now w'.pages (fun _ => True)) := by
  obtain ⟨hr, rfl, _⟩ | ⟨_, rfl, rfl⟩ | ⟨pause, failed, rows, next, done, hr, _, rfl, hpage, rfl⟩ := h
  · exact ⟨hw, fun hr' => by rw [hr] at hr'; cases hr'⟩
  · exact ⟨hw, fun _ hok => by cases hok⟩
  · have hdone : r.returnWhenIdle = true → done = true := by
      intro hasked
      cases done with
      | true => rfl
      | false => exact absurd rfl (hidle hasked)
    have hle : w.now ≤ w.now + pause := Nat.le_add_right _ _
    have hstart' : start ≤ w.now + pause := Nat.le_trans hstart hle
    obtain ⟨rfl, hall⟩ | ⟨hpos, hupto⟩ := recoverPage_ok hpage
    · refine ⟨sweptTo_zero _ _, fun _ _ _ => ?_⟩
      refine hw.page hle hstart' rfl hdone (fun seq hlt _ row hrow hseq helig => ?_)
      exact hall row hrow (by rw [hseq]; exact hlt) helig
    · refine ⟨?_, fun _ _ hzero => absurd hzero (Nat.ne_of_gt hpos)⟩
      refine hw.page hle hstart' rfl hdone (fun seq hlt hseq row hrow hrowseq helig => ?_)
      exact hupto row hrow (by rw [hrowseq]; exact hlt) (by rw [hrowseq]; exact hseq) helig

/-- An idle verdict: the snapshot it was made in, and the sweep before it. -/
def IdleVerdict (c : Commits) (r : WaitRequest) (start : Nat) (w : Waiting) (a : Answer) : Prop :=
  (∃ noteRevision current, waitDisposition (c.snapshot w.now) r.projectId a.nextAfter r.filters noteRevision current =
    .reason .nothingToWait) ∧
  (r.recovering = true → r.returnWhenIdle = true ∧ SweptTo c r start w.now w.pages (fun _ => True))

theorem turn_verdict {out : Option Answer} (h : turn c r w t = .ok (w', out)) (hstart : start ≤ w.now)
    (hw : SweptTo c r start w.now w.pages (fun seq => seq ≤ w.recoveryAfter)) :
    (out = none → start ≤ w'.now ∧ SweptTo c r start w'.now w'.pages (fun seq => seq ≤ w'.recoveryAfter)) ∧
      ∀ a, out = some a → a.reason = some .nothingToWait → IdleVerdict c r start w' a := by
  obtain ⟨events, w₁, hlook, h⟩ := turn_cases h
  obtain ⟨hnow, hafter, hpages, _⟩ := look_ok hlook
  have hle : w.now ≤ w₁.now := by omega
  have hw₁ : SweptTo c r start w₁.now w₁.pages (fun seq => seq ≤ w₁.recoveryAfter) := by
    rw [hafter, hpages]
    exact hw.later hle
  obtain ⟨_, rfl⟩ | ⟨_, _, rfl⟩ | ⟨_, w₂, ok, hrec, hset⟩ := h
  · exact ⟨fun h => by (cases h), fun a ha hreason => by (cases ha; cases hreason)⟩
  · exact ⟨fun h => by (cases h), fun a ha hreason => by (cases ha; cases hreason)⟩
  · have hstart₁ : start ≤ w₁.now := Nat.le_trans hstart hle
    have hstart₂ : start ≤ w₂.now := Nat.le_trans hstart₁ hrec.cursor.2
    cases hset with
    | rescan _ hreason => exact ⟨fun h => by (cases h), fun a ha h => by (cases ha; exact absurd h hreason)⟩
    | ended => exact ⟨fun h => by (cases h), fun a ha hreason => by (cases ha; cases hreason)⟩
    | overJudged => exact ⟨fun h => by (cases h), fun a ha hreason => by (cases ha; cases hreason)⟩
    | on _ hnow₂ hafter₂ hpages₂ hidle =>
      obtain ⟨hswept, _⟩ := hrec.swept hstart₁ hidle hw₁
      refine ⟨fun _ => ⟨Nat.le_trans hstart₂ hnow₂, ?_⟩, fun a ha => by (cases ha)⟩
      rw [hafter₂, hpages₂]
      exact hswept.later hnow₂
    | judged hasked hok hzero hjudged =>
      refine ⟨fun h => by (cases h), fun a ha hreason => ?_⟩
      cases ha
      cases hreason
      refine ⟨⟨_, _, hjudged⟩, fun hr => ⟨hasked, ?_⟩⟩
      have hidle : r.returnWhenIdle = true → ok ≠ some false := fun _ hfalse => by
        rw [hok] at hfalse
        cases hfalse
      exact ((hrec.swept hstart₁ hidle hw₁).2 hr hok hzero).later (Nat.le_add_right _ _)

/-- A whole wait, by induction on its turns: the sweep under way is the invariant. -/
theorem wait_verdict {turns : List Turn} {a : Answer} (h : wait c r w turns = .ok (some (w', a)))
    (hreason : a.reason = some .nothingToWait) (hstart : start ≤ w.now)
    (hw : SweptTo c r start w.now w.pages (fun seq => seq ≤ w.recoveryAfter)) : IdleVerdict c r start w' a := by
  induction turns generalizing w with
  | nil => simp [wait, pure_ok] at h
  | cons t more ih =>
    simp only [wait, bind_ok] at h
    obtain ⟨⟨w₁, out⟩, hturn, h⟩ := h
    obtain ⟨hnone, hsome⟩ := turn_verdict hturn hstart hw
    cases out with
    | none =>
      obtain ⟨hstart₁, hw₁⟩ := hnone rfl
      exact ih h hstart₁ hw₁
    | some a' =>
      simp only [pure_ok, Option.some.injEq, Prod.mk.injEq] at h
      obtain ⟨rfl, rfl⟩ := h
      exact hsome a' rfl hreason

end Sweep

/-- A wait that answers that there is nothing to wait for judged a snapshot where
no attempt in its scope is active, no candidate in its scope lacks its artifact
unless its node went past it, and no event of the project lies behind the cursor it
hands out; and a wait that recovers went through a whole sweep before, without a
failure, that took in every attempt to be recovered. -/
theorem idle_verdict_safe (c : Commits) (r : WaitRequest) (start : Nat) (turns : List Turn) (w : Waiting) (a : Answer)
    (h : wait c r ⟨start, r.after, 0, []⟩ turns = .ok (some (w, a))) (hidle : a.reason = some .nothingToWait) :
    let db := c.snapshot w.now
    (∀ row ∈ sequenced db.attempts, InScope db r.projectId r.filters row.1 →
      row.1.status.active = false ∧
      (row.1.status = .candidate → row.1.artifactRef = none →
        currentCandidate db row = false ∧ row.1.attemptId ∉ r.filters.attemptIds.getD [])) ∧
    (∀ row ∈ sequenced db.events, row.1.projectId = r.projectId → row.2 ≤ a.nextAfter) ∧
    (r.recovering = true → ∃ earlier sweep, w.pages = earlier ++ sweep ∧
      (∀ page ∈ sweep, page.ok = true ∧ start ≤ page.moment ∧ page.moment ≤ w.now) ∧
      ∀ seq, 0 < seq → ∃ page ∈ sweep, page.Took c r seq) := by
  obtain ⟨⟨noteRevision, current, hjudged⟩, hswept⟩ := wait_verdict h hidle (Nat.le_refl _) (sweptTo_zero _ _)
  obtain ⟨hhigh, hrows⟩ := waitDisposition_idle hjudged
  refine ⟨fun row hrow hscope => ?_, fun row hrow hp => Nat.le_trans (le_highWater hrow hp) hhigh, fun hr => ?_⟩
  · obtain ⟨hproject, hwatched⟩ := watched_iff.mpr hscope
    -- a row that `_candidate_selection` leaves out is a candidate its node went past
    have hjudge : candidateSelection (c.snapshot w.now) (r.filters.attemptIds.getD []) row = true →
        row ∈ judgedRows (c.snapshot w.now) r.projectId r.filters := fun hsel =>
      List.mem_filter.mpr ⟨hrow, by rw [decide_eq_true hproject, hsel, hwatched]; rfl⟩
    by_cases hcandidate : row.1.status = .candidate
    · refine ⟨by rw [hcandidate]; rfl, fun _ hnone => ?_⟩
      have hleft : candidateSelection (c.snapshot w.now) (r.filters.attemptIds.getD []) row ≠ true := fun hsel =>
        (hrows row (hjudge hsel)).2 hcandidate hnone
      simp only [candidateSelection, hcandidate, ne_eq, not_true_eq_false, decide_false, Bool.false_or, Bool.or_eq_true,
        decide_eq_true_eq, not_or, Bool.not_eq_true] at hleft
      exact ⟨hleft.2, hleft.1⟩
    · have hsel : candidateSelection (c.snapshot w.now) (r.filters.attemptIds.getD []) row = true := by
        simp [candidateSelection, hcandidate]
      exact ⟨over_not_active (hrows row (hjudge hsel)).1, fun h => absurd h hcandidate⟩
  · obtain ⟨hasked, earlier, sweep, hpages, htimes, htook⟩ := hswept hr
    refine ⟨earlier, sweep, hpages, fun page hpage => ?_, fun seq hpos => htook seq hpos trivial⟩
    obtain ⟨hok, hmoment⟩ := htimes page hpage
    exact ⟨hok hasked, hmoment⟩

namespace Sample

/-- A wait for anything in the project, with an idle verdict. -/
def idleWait (after : Nat) (recovering : Bool) : WaitRequest where
  projectId := "p"
  after := after
  filters := ⟨none, none, none, .all, true, true⟩
  limit := ⟨100, by decide⟩
  returnWhenIdle := true
  recovering := recovering

/-- A turn in which nothing is committed and nothing else happens. -/
def stillTurn : Turn where
  pause := 0
  mail := false
  recovery := .page 0 []
  rescanPause := 0
  signalled := false
  sweepLate := false
  judgePause := 0
  noteRevision := 0
  current := 1000000
  late := false

def isIdle (now : Nat) : Result (Option (Waiting × Answer)) → Bool
  | .ok (some (w, a)) => decide (w.now = now ∧ a.reason = some .nothingToWait)
  | _ => false

theorem isIdle_iff {now : Nat} {x : Result (Option (Waiting × Answer))} (h : isIdle now x = true) :
    ∃ w a, x = .ok (some (w, a)) ∧ w.now = now ∧ a.reason = some .nothingToWait := by
  unfold isIdle at h
  split at h
  · next w a => exact ⟨w, a, rfl, of_decide_eq_true h⟩
  · cases h

/-- A finished attempt with its artifact. -/
def finishedRun : List Op := project [spec "a" []] ++ started owner "a" "1" ++
    reconciled "1" "completed" (some artifact)

/-- A finished attempt without one, on a node that was revised since. -/
def outdatedRun : List Op :=
  project [spec "a" []] ++ started owner "a" "1" ++ reconciled "1" "completed" none ++
    [.request (.reviseNode none "p" "a" 1 "rethought" (some "build it anew") none none)]

end Sample

open Sample in
theorem idle_verdict_safe_finished : ∃ w a,
    wait (.ofRun machine finishedRun) (idleWait 6 true) ⟨8, 6, 0, []⟩ [stillTurn] = .ok (some (w, a)) ∧
    a.reason = some .nothingToWait ∧
    (∀ row ∈ sequenced ((Commits.ofRun machine finishedRun).snapshot w.now).events, row.1.projectId = "p" →
      row.2 ≤ a.nextAfter) ∧
    ∃ earlier sweep, w.pages = earlier ++ sweep ∧
      (∀ page ∈ sweep, page.ok = true ∧ 8 ≤ page.moment ∧ page.moment ≤ w.now) ∧
      ∀ seq, 0 < seq → ∃ page ∈ sweep, page.Took (.ofRun machine finishedRun) (idleWait 6 true) seq := by
  have hrun : isIdle 8 (wait (.ofRun machine finishedRun) (idleWait 6 true) ⟨8, 6, 0, []⟩ [stillTurn]) = true := by
    decide +kernel
  obtain ⟨w, a, hwait, hnow, hidle⟩ := isIdle_iff hrun
  obtain ⟨_, hevents, hswept⟩ := idle_verdict_safe _ (idleWait 6 true) 8 [stillTurn] w a hwait hidle
  exact ⟨w, a, hwait, hidle, hevents, hswept rfl⟩

open Sample in
/-- The candidate without an artifact of a revised node does not keep the wait. -/
theorem idle_verdict_outdated : ∃ w a,
    wait (.ofRun machine outdatedRun) (idleWait 7 false) ⟨9, 7, 0, []⟩ [stillTurn] = .ok (some (w, a)) ∧
    a.reason = some .nothingToWait ∧
    ∃ x ∈ ((Commits.ofRun machine outdatedRun).snapshot w.now).attempts,
      InScope ((Commits.ofRun machine outdatedRun).snapshot w.now) "p" (idleWait 7 false).filters x ∧
      x.executionKind = .skillflow ∧ x.status = .candidate ∧ x.artifactRef = none := by
  have hrun : isIdle 9 (wait (.ofRun machine outdatedRun) (idleWait 7 false) ⟨9, 7, 0, []⟩ [stillTurn]) = true := by
    decide +kernel
  obtain ⟨w, a, hwait, hnow, hidle⟩ := isIdle_iff hrun
  have hcandidate : ((Commits.ofRun machine outdatedRun).snapshot 9).attempts.any (fun x => decide (x.projectId = "p" ∧
      x.executionKind = .skillflow ∧ x.status = .candidate ∧ x.artifactRef = none)) = true := by
    decide +kernel
  obtain ⟨x, hx, hsay⟩ := List.any_eq_true.mp hcandidate
  obtain ⟨hp, hrest⟩ := of_decide_eq_true hsay
  refine ⟨w, a, hwait, hidle, x, by rw [hnow]; exact hx, ⟨hp, trivial⟩, hrest⟩

end AItelier.State
