import AItelier.Scheduler.TaskTable

namespace AItelier.Scheduler

open AItelier.Lib

variable {t u : Tasks} {r q x : Task} {l : TaskLoop}

/-- A row that is not an archived generation. -/
def Task.current (r : Task) : Prop := r.status ≠ .superseded

/-- Rows are told apart by their numbers, which are used up. -/
structure Numbered (t : Tasks) : Prop where
  keyed : (t.rows.map Task.id).Nodup
  below : ∀ r ∈ t.rows, r.id < t.nextId

theorem Numbered.same (ht : Numbered t) (hr : r ∈ t.rows) (hq : q ∈ t.rows) (h : r.id = q.id) : r = q :=
  List.inj_on_of_nodup_map ht.keyed hr hq h

theorem mem_sorted : r ∈ t.sorted ↔ r ∈ t.rows := List.mem_insertionSort _

theorem sorted_ids (ht : Numbered t) : (t.sorted.map Task.id).Nodup := by
  have hperm := (List.perm_insertionSort (fun a b : Task => a.id ≤ b.id) t.rows).map Task.id
  exact hperm.nodup_iff.mpr ht.keyed

/-- What a status change may make of a row: a finished one stays, and none is archived
or taken up again. -/
structure Task.MayBecome (r q : Task) : Prop where
  id : q.id = r.id
  key : q.manifestKey = r.manifestKey
  deps : q.dependencies = r.dependencies
  named : q.named = r.named
  finished : r.status = .completed ∨ r.status = .superseded → q = r
  current : r.current → q.current
  unfinished : q.terminal = false → r.terminal = false

theorem Task.mayBecome_refl (r : Task) : r.MayBecome r :=
  ⟨rfl, rfl, rfl, rfl, fun _ => rfl, fun h => h, fun h => h⟩

/-- A change of the statuses under some numbers. -/
def Restatus (ids : List Nat) (t u : Tasks) : Prop :=
  u.nextId = t.nextId ∧ ∃ f : Task → Task, u.rows = t.rows.map f ∧
    ∀ r ∈ t.rows, r.MayBecome (f r) ∧ (r.id ∉ ids → f r = r)

theorem update_self (t : Tasks) (id : Nat) : t.update id (fun q => q) = t := by
  simp [Tasks.update, modifyWhere]

/-- A loop whose rounds each rewrite the row they are about is a change of statuses. -/
theorem loop_restatus {β : Type} (ht : Numbered t) {g : β → Task} {f : β → Task → Task} {z : List β}
    (hz : (z.map (fun b => (g b).id)).Nodup) (hmem : ∀ b ∈ z, g b ∈ t.rows) (hid : ∀ b q, (f b q).id = q.id)
    (hround : ∀ b ∈ z, (g b).MayBecome (f b (g b))) :
    Restatus (z.map (fun b => (g b).id)) t (z.foldl (fun u b => u.update (g b).id (f b)) t) := by
  have hrows : ∀ (z : List β) (t : Tasks), (z.foldl (fun u b => u.update (g b).id (f b)) t) =
      { t with rows := z.foldl (fun rows b => modifyWhere (fun q => decide (q.id = (g b).id)) (f b) rows) t.rows } := by
    intro z
    induction z with
    | nil => exact fun t => rfl
    | cons b z ih => exact fun t => ih _
  rw [hrows, foldl_modifyWhere hid hz]
  refine ⟨rfl, _, rfl, fun r hr => ?_⟩
  cases hfound : lookup (fun b => (g b).id) z r.id with
  | none => exact ⟨r.mayBecome_refl, fun _ => rfl⟩
  | some b =>
    have hb := lookup_mem hfound
    have hkey := lookup_key hfound
    have hrow : g b = r := ht.same (hmem b hb) hr hkey
    have hchange := hround b hb
    rw [hrow] at hchange
    exact ⟨hchange, fun hout => absurd (List.mem_map.mpr ⟨b, hb, hkey⟩) hout⟩

theorem complete_mayBecome (h : ¬(r.status = .completed ∨ r.status = .superseded)) : r.MayBecome r.complete where
  id := rfl
  key := rfl
  deps := rfl
  named := rfl
  finished := fun hs => absurd hs h
  current := fun _ => by simp [Task.current, Task.complete]
  unfinished := fun hs => by simp [Task.terminal, Task.complete] at hs

theorem completeRun_restatus (ht : Numbered t) : Restatus (t.sorted.map Task.id) t (completeRun t) := by
  have hloop : completeRun t = t.sorted.foldl (fun u r => u.update r.id (fun q =>
      if r.status = .completed ∨ r.status = .superseded then q else q.complete)) t := by
    unfold completeRun
    congr 1
    funext u r
    split
    · exact (update_self u r.id).symm
    · rfl
  rw [hloop]
  refine loop_restatus (g := fun r => r) ht (sorted_ids ht) (fun r hr => mem_sorted.mp hr)
    (fun r q => ?_) (fun r _ => ?_)
  · split <;> rfl
  · split
    · exact r.mayBecome_refl
    · next h => exact complete_mayBecome h

theorem failRun_restatus (ht : Numbered t) : Restatus (t.sorted.map Task.id) t (failRun t) := by
  have hloop : failRun t = t.sorted.foldl (fun u r => u.update r.id (fun q =>
      if r.status = .running then { q with status := .failed } else q)) t := by
    unfold failRun
    congr 1
    funext u r
    split
    · rfl
    · exact (update_self u r.id).symm
  rw [hloop]
  refine loop_restatus (g := fun r => r) ht (sorted_ids ht) (fun r hr => mem_sorted.mp hr)
    (fun r q => ?_) (fun r _ => ?_)
  · split <;> rfl
  · split
    · next h =>
      refine ⟨rfl, rfl, rfl, rfl, fun hs => ?_, fun _ => by simp [Task.current], fun hs => ?_⟩
      · simp [h] at hs
      · simp [Task.terminal] at hs
    · exact r.mayBecome_refl

theorem wanted_cases (l : TaskLoop) (tasks : List Task) (r : Task) (i : Nat) :
    wanted l tasks r i = .completed ∨ wanted l tasks r i = .running ∨ wanted l tasks r i = .pending := by
  unfold wanted
  split
  · split
    · exact .inl rfl
    · split
      · exact .inr (.inl rfl)
      · exact .inr (.inr rfl)
  · split
    · exact .inl rfl
    · split
      · exact .inr (.inl rfl)
      · exact .inr (.inr rfl)

/-- The last loop of a progress update, over rows that were read before it. -/
theorem advance_restatus (hu : Numbered u) (l : TaskLoop) {tasks : List Task} (hids : (tasks.map Task.id).Nodup)
    (hread : ∀ r ∈ tasks, r.terminal = false → r ∈ u.rows) :
    Restatus (tasks.map Task.id) u (tasks.zipIdx.foldl (advanceTask l tasks) u) := by
  have hskip : tasks.zipIdx.foldl (advanceTask l tasks) u =
      (tasks.zipIdx.filter (fun z => !z.1.terminal)).foldl (fun u z => u.update z.1.id (fun q =>
        if z.1.status = wanted l tasks z.1 z.2 then q
        else if wanted l tasks z.1 z.2 = .completed then q.complete
        else { q with status := wanted l tasks z.1 z.2 })) u := by
    rw [List.foldl_filter]
    congr 1
    funext u z
    unfold advanceTask
    cases hterminal : z.1.terminal with
    | true => rfl
    | false =>
      simp only [Bool.not_false, Bool.false_eq_true, if_false, if_true]
      split
      · exact (update_self u z.1.id).symm
      · split <;> rfl
  have hsub : ((tasks.zipIdx.filter (fun z => !z.1.terminal)).map Prod.fst).Sublist tasks := by
    have h := List.Sublist.map Prod.fst (List.filter_sublist (p := fun z : Task × Nat => !z.1.terminal)
        (l := tasks.zipIdx))
    rwa [List.zipIdx_map_fst] at h
  have hsubids : ((tasks.zipIdx.filter (fun z => !z.1.terminal)).map (fun z => z.1.id)).Sublist
      (tasks.map Task.id) := by
    have h := List.Sublist.map Task.id hsub
    rwa [List.map_map] at h
  rw [hskip]
  suffices h : Restatus ((tasks.zipIdx.filter (fun z => !z.1.terminal)).map (fun z => z.1.id)) u _ by
    obtain ⟨hnext, f, hrows, hf⟩ := h
    exact ⟨hnext, f, hrows, fun r hr =>
      ⟨(hf r hr).1, fun hout => (hf r hr).2 (fun hin => hout (hsubids.subset hin))⟩⟩
  refine loop_restatus (g := Prod.fst) hu (hids.sublist hsubids) (fun z hz => ?_) (fun z q => ?_) (fun z hz => ?_)
  · have hz' : z.1 ∈ tasks := hsub.subset (List.mem_map_of_mem hz)
    exact hread z.1 hz' (by simpa using (List.mem_filter.mp hz).2)
  · split
    · rfl
    · split <;> rfl
  · have hopen : z.1.terminal = false := by simpa using (List.mem_filter.mp hz).2
    have hunfinished : ¬(z.1.status = .completed ∨ z.1.status = .superseded) := by
      intro h
      simp only [Task.terminal, decide_eq_false_iff_not] at hopen
      tauto
    split
    · exact z.1.mayBecome_refl
    · split
      · exact complete_mayBecome hunfinished
      · refine ⟨rfl, rfl, rfl, rfl, fun hs => absurd hs hunfinished, fun _ => ?_, fun _ => hopen⟩
        rcases wanted_cases l tasks z.1 z.2 with h | h | h <;> simp [Task.current, h]

/-- The clones of some rows, numbered from `n`. -/
def cloneRows (n : Nat) (archived : List Task) : List Task := (archived.zipIdx n).map (fun z => z.1.clone z.2)

/-- What archiving some rows makes of a row. -/
def archiveIn (archived : List Task) (r : Task) : Task := if r ∈ archived then r.archive else r

theorem archiveIn_id (archived : List Task) (r : Task) : (archiveIn archived r).id = r.id := by
  rw [archiveIn]
  split <;> rfl

theorem supersedeTask_eq (ht : Numbered t) (hx : x ∈ t.rows) (hstatus : x.status = .completed) :
    supersedeTask t x.id =
      { t with rows := t.rows.map (archiveIn [x]) ++ [x.clone t.nextId], nextId := t.nextId + 1 } := by
  have hfound : lookup Task.id t.rows x.id = some x := lookup_of_mem ht.keyed hx
  have hrows : modifyWhere (fun q => decide (q.id = x.id)) Task.archive t.rows = t.rows.map (archiveIn [x]) := by
    refine List.map_congr_left (fun q hq => ?_)
    by_cases h : q = x
    · simp [archiveIn, h]
    · have hid : q.id ≠ x.id := fun he => h (ht.same hq hx he)
      simp [archiveIn, h, hid]
  simp [supersedeTask, hfound, hstatus, hrows]

theorem supersedeTask_numbered (ht : Numbered t) (hx : x ∈ t.rows) (hstatus : x.status = .completed) :
    Numbered (supersedeTask t x.id) := by
  rw [supersedeTask_eq ht hx hstatus]
  have hids : (t.rows.map (archiveIn [x])).map Task.id = t.rows.map Task.id := by
    rw [List.map_map]
    exact List.map_congr_left (fun r _ => archiveIn_id [x] r)
  constructor
  · rw [List.map_append, hids, List.nodup_append]
    refine ⟨ht.keyed, List.nodup_singleton _, fun a ha b hb he => ?_⟩
    obtain ⟨r, hr, rfl⟩ := List.mem_map.mp ha
    have hlt := ht.below r hr
    rw [he, List.mem_singleton.mp hb] at hlt
    exact Nat.lt_irrefl _ hlt
  · intro r hr
    rcases List.mem_append.mp hr with hr | hr
    · obtain ⟨q, hq, rfl⟩ := List.mem_map.mp hr
      rw [archiveIn_id]
      exact Nat.lt_succ_of_lt (ht.below q hq)
    · rw [List.mem_singleton.mp hr]
      exact Nat.lt_succ_self _

/-- Archiving some completed rows in turn marks each and appends a clone of each. -/
theorem supersede_loop {archived : List Task} (ht : Numbered t) (hids : (archived.map Task.id).Nodup)
    (hmem : ∀ x ∈ archived, x ∈ t.rows ∧ x.status = .completed) :
    archived.foldl (fun u r => supersedeTask u r.id) t = { t with
      rows := t.rows.map (archiveIn archived) ++ cloneRows t.nextId archived
      nextId := t.nextId + archived.length } := by
  induction archived generalizing t with
  | nil =>
    have hnone : archiveIn [] = fun r => r := funext (fun r => if_neg List.not_mem_nil)
    simp [cloneRows, hnone]
  | cons x archived ih =>
    obtain ⟨hx, hstatus⟩ := hmem x List.mem_cons_self
    obtain ⟨hnew, hids⟩ := List.nodup_cons.mp hids
    have hother : ∀ y ∈ archived, y ≠ x := fun y hy he => hnew (he ▸ List.mem_map_of_mem hy)
    have hnext := supersedeTask_numbered ht hx hstatus
    have hrest : ∀ y ∈ archived, y ∈ (supersedeTask t x.id).rows ∧ y.status = .completed := by
      intro y hy
      obtain ⟨hyt, hys⟩ := hmem y (List.mem_cons_of_mem _ hy)
      rw [supersedeTask_eq ht hx hstatus]
      refine ⟨List.mem_append_left _ (List.mem_map.mpr ⟨y, hyt, ?_⟩), hys⟩
      simp [archiveIn, hother y hy]
    rw [List.foldl_cons, ih hnext hids hrest, supersedeTask_eq ht hx hstatus]
    have hclone : archiveIn archived (x.clone t.nextId) = x.clone t.nextId := by
      refine if_neg (fun hin => ?_)
      have hlt := ht.below _ (hmem _ (List.mem_cons_of_mem _ hin)).1
      exact Nat.lt_irrefl _ hlt
    have hrows : (t.rows.map (archiveIn [x])).map (archiveIn archived) = t.rows.map (archiveIn (x :: archived)) := by
      rw [List.map_map]
      refine List.map_congr_left (fun r hr => ?_)
      by_cases h : r = x
      · subst h
        have hout : r.archive ∉ archived := by
          intro hin
          have hs := (hmem _ (List.mem_cons_of_mem _ hin)).2
          simp [Task.archive] at hs
        simp [archiveIn, hout]
      · simp [archiveIn, h]
    simp only [List.map_append, hrows, List.map_singleton, hclone, List.append_assoc, List.singleton_append,
      List.length_cons]
    have hcount : t.nextId + 1 + archived.length = t.nextId + (archived.length + 1) := by omega
    rw [hcount]
    rfl

/-- The rows that a progress update archives. -/
def rerun (l : TaskLoop) (t : Tasks) : List Task :=
  if keyed t.sorted = true ∧ l.items ≠ [] then t.sorted.filter (reruns l t.sorted) else []

theorem mem_rerun (h : x ∈ rerun l t) : x ∈ t.rows ∧ x.status = .completed := by
  unfold rerun at h
  split at h
  · obtain ⟨hx, hreruns⟩ := List.mem_filter.mp h
    simp only [reruns, Bool.and_eq_true, decide_eq_true_eq] at hreruns
    exact ⟨mem_sorted.mp hx, hreruns.1⟩
  · exact absurd h List.not_mem_nil

theorem rerun_ids (ht : Numbered t) (l : TaskLoop) : ((rerun l t).map Task.id).Nodup := by
  unfold rerun
  split
  · exact (sorted_ids ht).sublist (List.Sublist.map _ List.filter_sublist)
  · exact List.nodup_nil

theorem supersedeReruns_eq (ht : Numbered t) (l : TaskLoop) : supersedeReruns l t = { t with
    rows := t.rows.map (archiveIn (rerun l t)) ++ cloneRows t.nextId (rerun l t)
    nextId := t.nextId + (rerun l t).length } := by
  rw [← supersede_loop ht (rerun_ids ht l) (fun x hx => mem_rerun hx)]
  unfold supersedeReruns rerun
  split
  · exact (List.foldl_filter ..).symm
  · rfl

/-- The cards that a resync creates rows for. -/
def createdCards (t : Tasks) (cards : List Card) : List Card :=
  cards.filter (fun c => ((completedKeyToId t.rows).get c.key).isNone)

/-- The rows of numbered cards, with some dependencies under each number. -/
def cardRows (owner : String) (g : Nat → List Nat) (z : List (Card × Nat)) : List Task :=
  z.map (fun z => z.1.row owner z.2 (g z.2))

/-- The first pass appends a row for each card that is not completed. -/
theorem insertCards_eq (owner : String) (completed : Entries String Nat) (cards : List Card) (s : Sync) :
    ∃ g, (∀ z ∈ (cards.filter (fun c => (completed.get c.key).isNone)).zipIdx s.nextId,
        z.1.dependencies = [] → g z.2 = []) ∧
      cards.foldl (insertCard owner completed) s = ⟨
        s.rows ++ cardRows owner g ((cards.filter (fun c => (completed.get c.key).isNone)).zipIdx s.nextId),
        s.nextId + (cards.filter (fun c => (completed.get c.key).isNone)).length,
        ((cards.filter (fun c => (completed.get c.key).isNone)).zipIdx s.nextId).foldl
          (fun d z => d.set z.1.key z.2) s.idMap⟩ := by
  induction cards generalizing s with
  | nil => exact ⟨fun _ => [], fun _ _ _ => rfl, by simp [cardRows]⟩
  | cons c cards ih =>
    rw [List.foldl_cons, insertCard]
    cases hdone : completed.get c.key with
    | some id =>
      obtain ⟨g, hg, heq⟩ := ih s
      rw [List.filter_cons_of_neg (by simp [hdone])]
      exact ⟨g, hg, heq⟩
    | none =>
      obtain ⟨g, hg, heq⟩ := ih ⟨s.rows ++ [c.row owner s.nextId (resolve s.idMap c.dependencies)], s.nextId + 1,
        s.idMap.set c.key s.nextId⟩
      rw [List.filter_cons_of_pos (by simp [hdone])]
      dsimp only at hg heq
      generalize cards.filter (fun c => (completed.get c.key).isNone) = rest at hg heq ⊢
      have hlater : ∀ z ∈ rest.zipIdx (s.nextId + 1), z.2 ≠ s.nextId := by
        intro z hz he
        have hle := List.le_snd_of_mem_zipIdx hz
        omega
      refine ⟨fun n => if n = s.nextId then resolve s.idMap c.dependencies else g n, fun z hz hdeps => ?_, ?_⟩
      · rw [List.zipIdx_cons, List.mem_cons] at hz
        rcases hz with rfl | hz
        · simp at hdeps
          simp [hdeps, resolve]
        · exact (if_neg (hlater z hz)).trans (hg z hz hdeps)
      · have hsame : cardRows owner (fun n => if n = s.nextId then resolve s.idMap c.dependencies else g n)
            (rest.zipIdx (s.nextId + 1)) = cardRows owner g (rest.zipIdx (s.nextId + 1)) := by
          refine List.map_congr_left (fun z hz => ?_)
          exact congrArg (z.1.row owner z.2) (if_neg (hlater z hz))
        simp only [Option.isSome_none, Bool.false_eq_true, if_false, heq, List.zipIdx_cons, List.foldl_cons,
          List.length_cons]
        rw [← hsame, List.append_assoc]
        simp only [cardRows, List.map_cons, List.singleton_append, Sync.mk.injEq, if_true, true_and, and_true]
        omega

/-- What the second pass writes under a number. -/
def patch (completed idMap : Entries String Nat) (g : Nat → List Nat) (c : Card) (n : Nat) : List Nat :=
  if (completed.get c.key).isNone = true ∧ c.dependencies ≠ [] ∧ idMap.get c.key = some n
  then resolve idMap c.dependencies
  else g n

variable {z : List (Card × Nat)} {rows : List Task} {k : String} {y : Card × Nat} {n : Nat} {cards : List Card}
   {ids : List Nat} {i : Nat}

/-- The second pass touches none of the rows that were there before the created ones. -/
theorem resolveCard_eq {completed idMap : Entries String Nat} (owner : String)
    (g : Nat → List Nat) (c : Card) (hbelow : ∀ n, completed.get c.key = none → idMap.get c.key = some n →
      ∀ r ∈ rows, r.id < n) :
    resolveCard completed idMap (rows ++ cardRows owner g z) c =
      rows ++ cardRows owner (patch completed idMap g c) z := by
  have hpatch : ¬((completed.get c.key).isNone = true ∧ c.dependencies ≠ [] ∧ (idMap.get c.key).isSome = true) →
      patch completed idMap g c = g := by
    intro h
    funext n
    refine if_neg (fun h' => h ⟨h'.1, h'.2.1, ?_⟩)
    rw [h'.2.2]
    rfl
  unfold resolveCard
  cases hdone : completed.get c.key with
  | some id => rw [hpatch (by simp [hdone])]; rfl
  | none =>
    cases hid : idMap.get c.key with
    | none => rw [hpatch (by simp [hid])]; rfl
    | some id =>
      by_cases hdeps : c.dependencies = []
      · rw [hpatch (by simp [hdeps])]
        simp [hdeps]
      · simp only [Option.isSome_none, Bool.false_eq_true, if_false, hdeps, modifyWhere, List.map_append]
        congr 1
        · refine (List.map_congr_left (fun r hr => ?_)).trans (List.map_id rows)
          have hlt := hbelow id hdone hid r hr
          have hne : r.id ≠ id := Nat.ne_of_lt hlt
          simp [hne]
        · rw [cardRows, cardRows, List.map_map]
          refine List.map_congr_left (fun y _ => ?_)
          by_cases hy : y.2 = id
          · simp [patch, hdone, hdeps, hid, hy, Card.row]
          · simp [patch, hid, hy, Ne.symm hy, Card.row]

/-- A map with the numbers of some cards put in. -/
def setAll (d : Entries String Nat) (z : List (Card × Nat)) : Entries String Nat :=
  z.foldl (fun d z => d.set z.1.key z.2) d

theorem setAll_out (h : k ∉ z.map (fun z => z.1.key)) (d : Entries String Nat) :
    (setAll d z).get k = d.get k := by
  induction z generalizing d with
  | nil => rfl
  | cons y z ih =>
    simp only [List.map_cons, List.mem_cons, not_or] at h
    exact (ih h.2 _).trans (Entries.get_set_other (Ne.symm h.1))

theorem setAll_mem (hz : (z.map (fun z => z.1.key)).Nodup) (hy : y ∈ z)
    (d : Entries String Nat) : (setAll d z).get y.1.key = some y.2 := by
  induction z generalizing d with
  | nil => exact absurd hy List.not_mem_nil
  | cons x z ih =>
    obtain ⟨hnew, hz⟩ := List.nodup_cons.mp hz
    rcases List.mem_cons.mp hy with rfl | hy
    · exact (setAll_out hnew _).trans (Entries.get_set_same ..)
    · exact ih hz hy _

theorem setAll_some {d : Entries String Nat}
    (h : (setAll d z).get k = some n) : (∃ y ∈ z, y.1.key = k ∧ y.2 = n) ∨ d.get k = some n := by
  induction z generalizing d with
  | nil => exact .inr h
  | cons x z ih =>
    rcases ih h with ⟨y, hy, hk, hn⟩ | hd
    · exact .inl ⟨y, List.mem_cons_of_mem _ hy, hk, hn⟩
    · rw [Entries.get_set] at hd
      split at hd
      · next hk => exact .inl ⟨x, List.mem_cons_self, hk, Option.some.inj hd⟩
      · exact .inr hd

theorem resolveCards_eq {completed idMap : Entries String Nat} (owner : String)
    (g : Nat → List Nat) (cards : List Card) (hbelow : ∀ k n, completed.get k = none → idMap.get k = some n →
      ∀ r ∈ rows, r.id < n) :
    cards.foldl (resolveCard completed idMap) (rows ++ cardRows owner g z) =
      rows ++ cardRows owner (cards.foldl (patch completed idMap) g) z := by
  induction cards generalizing g with
  | nil => rfl
  | cons c cards ih => rw [List.foldl_cons, resolveCard_eq owner g c (hbelow c.key), ih, List.foldl_cons]

theorem zipIdx_same {y z : Card × Nat} (hy : y ∈ cards.zipIdx n) (hz : z ∈ cards.zipIdx n)
    (h : y.2 = z.2) : y = z := by
  have hnodup : ((cards.zipIdx n).map Prod.snd).Nodup := by
    rw [List.zipIdx_map_snd]
    exact List.nodup_range'
  exact List.inj_on_of_nodup_map hnodup hy hz h

/-- Where each card has a name of its own, the second pass leaves under its number what
its dependencies resolve to. -/
theorem patches_resolve {completed d : Entries String Nat} {cards created : List Card} {g : Nat → List Nat}
    (hcreated : (created.map Card.key).Nodup)
    (hmem : ∀ c ∈ cards, (completed.get c.key).isNone = true → c ∈ created) (hy : y ∈ created.zipIdx n)
      (hnone : (completed.get y.1.key).isNone = true)
    (hg : y.1 ∈ cards ∧ (y.1.dependencies = [] → g y.2 = []) ∨
      g y.2 = resolve (setAll d (created.zipIdx n)) y.1.dependencies) :
    (cards.foldl (patch completed (setAll d (created.zipIdx n))) g) y.2 =
      resolve (setAll d (created.zipIdx n)) y.1.dependencies := by
  have hkeys : ((created.zipIdx n).map (fun z => z.1.key)).Nodup := by
    have hmap : (created.zipIdx n).map (fun z => z.1.key) = created.map Card.key := by
      rw [← List.zipIdx_map_fst n created, List.map_map, List.zipIdx_map_fst]
      rfl
    exact hmap ▸ hcreated
  induction cards generalizing g with
  | nil =>
    rcases hg with ⟨hin, _⟩ | hg
    · exact absurd hin List.not_mem_nil
    · exact hg
  | cons c cards ih =>
    -- what is written under the number of a card is written by it
    have howner : patch completed (setAll d (created.zipIdx n)) g c y.2 = g y.2 ∨
        c = y.1 ∧ patch completed (setAll d (created.zipIdx n)) g c y.2 =
          resolve (setAll d (created.zipIdx n)) y.1.dependencies := by
      by_cases h : (completed.get c.key).isNone = true ∧ c.dependencies ≠ [] ∧
          (setAll d (created.zipIdx n)).get c.key = some y.2
      · have hc := hmem c List.mem_cons_self h.1
        rw [← List.zipIdx_map_fst n created] at hc
        obtain ⟨x, hx, rfl⟩ := List.mem_map.mp hc
        have hnumber := setAll_mem hkeys hx d
        rw [h.2.2, Option.some.injEq] at hnumber
        have hsame := zipIdx_same hx hy hnumber.symm
        exact .inr ⟨congrArg Prod.fst hsame, by rw [patch, if_pos h, hsame]⟩
      · exact .inl (if_neg h)
    refine ih (fun x hx => hmem x (List.mem_cons_of_mem _ hx)) ?_
    rcases howner with hkept | ⟨_, hwritten⟩
    · rw [hkept]
      rcases hg with ⟨hin, hempty⟩ | hg
      · rcases List.mem_cons.mp hin with rfl | hin
        · right
          by_cases hdeps : y.1.dependencies = []
          · rw [hempty hdeps, hdeps]
            rfl
          · rw [← hkept, patch, if_pos ⟨hnone, hdeps, setAll_mem hkeys hy d⟩]
        · exact .inl ⟨hin, hempty⟩
      · exact .inr hg
    · exact .inr hwritten

/-- The map of the numbers once all cards are known. -/
def finalMap (t : Tasks) (cards : List Card) : Entries String Nat :=
  setAll (completedKeyToId t.rows) ((createdCards t cards).zipIdx t.nextId)

/-- A resync keeps the finished rows, and appends one for each other card. -/
theorem sync_eq (ht : Numbered t) (owner : String) (cards : List Card) :
    ∃ g, syncTasksFromManifest owner t cards = { t with
        rows := preserved t.rows ++ cardRows owner g ((createdCards t cards).zipIdx t.nextId)
        nextId := t.nextId + (createdCards t cards).length } ∧
      (((createdCards t cards).map Card.key).Nodup → ∀ y ∈ (createdCards t cards).zipIdx t.nextId,
        g y.2 = resolve (finalMap t cards) y.1.dependencies) := by
  obtain ⟨g, hg, heq⟩ := insertCards_eq owner (completedKeyToId t.rows) cards ⟨preserved t.rows, t.nextId,
    completedKeyToId t.rows⟩
  dsimp only at hg heq
  have hbelow : ∀ k n, (completedKeyToId t.rows).get k = none → (finalMap t cards).get k = some n →
      ∀ r ∈ preserved t.rows, r.id < n := by
    intro k n hnone hsome r hr
    rcases setAll_some hsome with ⟨y, hy, _, rfl⟩ | hd
    · exact Nat.lt_of_lt_of_le (ht.below r (List.mem_of_mem_filter hr)) (List.le_snd_of_mem_zipIdx hy)
    · rw [hnone] at hd
      cases hd
  refine ⟨cards.foldl (patch (completedKeyToId t.rows) (finalMap t cards)) g, ?_, fun hnodup y hy => ?_⟩
  · unfold syncTasksFromManifest
    simp only [heq]
    rw [← resolveCards_eq owner g cards hbelow]
    rfl
  · have hfirst : y.1 ∈ createdCards t cards := by
      have h := List.mem_map_of_mem (f := Prod.fst) hy
      rwa [List.zipIdx_map_fst] at h
    obtain ⟨hin, hnone⟩ := List.mem_filter.mp hfirst
    refine patches_resolve hnodup (fun c hc hnone => List.mem_filter.mpr ⟨hc, hnone⟩) hy hnone (.inl ⟨hin, hg y hy⟩)

theorem preserved_finished (hr : r ∈ preserved t.rows) :
    r ∈ t.rows ∧ (r.status = .completed ∨ r.status = .superseded) := by
  rw [preserved, List.mem_filter, decide_eq_true_eq] at hr
  exact hr

theorem ids_append {rows new : List Task} {n m : Nat} (hrows : (rows.map Task.id).Nodup) (hbelow : ∀ r ∈ rows, r.id < n)
    (hnew : new.map Task.id = List.range' n m) (synced : Option String) : Numbered ⟨rows ++ new, n + m, synced⟩ where
  keyed := by
    rw [List.map_append, hnew, List.nodup_append]
    refine ⟨hrows, List.nodup_range', fun a ha b hb he => ?_⟩
    obtain ⟨r, hr, rfl⟩ := List.mem_map.mp ha
    have hlt := hbelow r hr
    have hle := (List.mem_range'_1.mp hb).1
    omega
  below := by
    intro r hr
    rcases List.mem_append.mp hr with hr | hr
    · exact Nat.lt_of_lt_of_le (hbelow r hr) (Nat.le_add_right ..)
    · have hid := List.mem_map_of_mem (f := Task.id) hr
      rw [hnew, List.mem_range'_1] at hid
      exact hid.2

theorem cardRows_ids (owner : String) (g : Nat → List Nat) (cards : List Card) (n : Nat) :
    (cardRows owner g (cards.zipIdx n)).map Task.id = List.range' n cards.length := by
  rw [cardRows, List.map_map, ← List.zipIdx_map_snd n cards]
  rfl

theorem cloneRows_ids (n : Nat) (archived : List Task) :
    (cloneRows n archived).map Task.id = List.range' n archived.length := by
  rw [cloneRows, List.map_map, ← List.zipIdx_map_snd n archived]
  rfl

theorem Restatus.numbered (h : Restatus ids t u) (ht : Numbered t) : Numbered u := by
  obtain ⟨hnext, f, hrows, hf⟩ := h
  have hids : u.rows.map Task.id = t.rows.map Task.id := by
    rw [hrows, List.map_map]
    exact List.map_congr_left (fun r hr => (hf r hr).1.id)
  refine ⟨hids ▸ ht.keyed, fun q hq => ?_⟩
  rw [hrows] at hq
  obtain ⟨r, hr, rfl⟩ := List.mem_map.mp hq
  rw [(hf r hr).1.id, hnext]
  exact ht.below r hr

theorem supersedeReruns_numbered (ht : Numbered t) (l : TaskLoop) : Numbered (supersedeReruns l t) := by
  rw [supersedeReruns_eq ht]
  have hids : (t.rows.map (archiveIn (rerun l t))).map Task.id = t.rows.map Task.id := by
    rw [List.map_map]
    exact List.map_congr_left (fun r _ => archiveIn_id _ r)
  refine ids_append (hids ▸ ht.keyed) (fun q hq => ?_) (cloneRows_ids ..) _
  obtain ⟨r, hr, rfl⟩ := List.mem_map.mp hq
  rw [archiveIn_id]
  exact ht.below r hr

/-- The rows that the last loop changes are still there once the re-runs are archived. -/
theorem open_kept (ht : Numbered t) (l : TaskLoop) (hr : r ∈ t.rows) (hopen : r.terminal = false) :
    r ∈ (supersedeReruns l t).rows := by
  rw [supersedeReruns_eq ht]
  refine List.mem_append_left _ (List.mem_map.mpr ⟨r, hr, if_neg (fun hin => ?_)⟩)
  have hs := (mem_rerun hin).2
  simp [Task.terminal, hs] at hopen

/-- A progress update archives the re-runs and then only changes statuses. -/
theorem progress_restatus (ht : Numbered t) (state : RunState) :
    ∃ u, Restatus (t.sorted.map Task.id) u (syncTaskStatuses t state) ∧ Numbered u ∧
      (u = t ∨ ∃ l, state = .active (some l) ∧ u = supersedeReruns l t) := by
  have hsame : Restatus (t.sorted.map Task.id) t t :=
    ⟨rfl, fun r => r, (List.map_id _).symm, fun r _ => ⟨r.mayBecome_refl, fun _ => rfl⟩⟩
  cases state with
  | completed => exact ⟨t, completeRun_restatus ht, ht, .inl rfl⟩
  | failed => exact ⟨t, failRun_restatus ht, ht, .inl rfl⟩
  | paused => exact ⟨t, hsame, ht, .inl rfl⟩
  | active progress =>
    cases progress with
    | none => exact ⟨t, hsame, ht, .inl rfl⟩
    | some l =>
      have hu := supersedeReruns_numbered ht l
      refine ⟨supersedeReruns l t, ?_, hu, .inr ⟨l, rfl, rfl⟩⟩
      exact advance_restatus hu l (sorted_ids ht) (fun r hr hopen => open_kept ht l (mem_sorted.mp hr) hopen)

theorem sync_numbered (ht : Numbered t) (owner : String) (cards : List Card) :
    Numbered (syncTasksFromManifest owner t cards) := by
  obtain ⟨g, heq, _⟩ := sync_eq ht owner cards
  rw [heq]
  exact ids_append (ht.keyed.sublist (List.Sublist.map _ List.filter_sublist))
    (fun r hr => ht.below r (List.mem_of_mem_filter hr)) (cardRows_ids ..) _

theorem next_numbered (ht : Numbered t) (op : TaskOp) : Numbered (nextTasks t op) := by
  cases op with
  | resync files index digest =>
    show Numbered (syncTaskManifestToDb t (manifestTasks files index) digest)
    unfold syncTaskManifestToDb
    split
    · exact ht
    · split
      · exact ht
      · have h := sync_numbered ht "cli@local" (manifestTasks files index)
        exact ⟨h.keyed, h.below⟩
  | progress state =>
    obtain ⟨u, hchange, hu, _⟩ := progress_restatus ht state
    exact hchange.numbered hu
  | elsewhere => exact ⟨ht.keyed, fun r hr => Nat.lt_succ_of_lt (ht.below r hr)⟩

theorem tasksAfter_numbered (ops : List TaskOp) : Numbered (tasksAfter ops) := by
  have hempty : Numbered Tasks.empty := ⟨List.nodup_nil, fun r hr => absurd hr List.not_mem_nil⟩
  have hstep : ∀ t op, Numbered t → True → Numbered (nextTasks t op) := fun t op ht _ => next_numbered ht op
  exact run_invariant hstep hempty (along_of (fun _ _ => trivial) _ ops)

/-- A step leaves archived rows as they are, and completed ones too, or it marks some of
these as archived and the rows it adds are one pending clone of each. -/
structure HistoryKept (t u : Tasks) : Prop where
  superseded : ∀ r ∈ t.rows, r.status = .superseded → r ∈ u.rows
  completed : (∀ r ∈ t.rows, r.status = .completed → r ∈ u.rows) ∨
    ∃ archived : List Task, archived.Nodup ∧
      u.rows.filter (fun q => decide (t.nextId ≤ q.id)) = cloneRows t.nextId archived ∧
      ∀ r ∈ t.rows, r.status = .completed →
        r ∈ archived ∧ r.archive ∈ u.rows ∨ r ∉ archived ∧ r ∈ u.rows

theorem Restatus.kept (h : Restatus ids t u) (hr : r ∈ t.rows)
    (hs : r.status = .completed ∨ r.status = .superseded) : r ∈ u.rows := by
  obtain ⟨_, f, hrows, hf⟩ := h
  rw [hrows]
  exact List.mem_map.mpr ⟨r, hr, (hf r hr).1.finished hs⟩

theorem sync_history (ht : Numbered t) (owner : String) (cards : List Card) :
    HistoryKept t (syncTasksFromManifest owner t cards) := by
  obtain ⟨g, heq, _⟩ := sync_eq ht owner cards
  have hkept : ∀ r ∈ t.rows, r.status = .completed ∨ r.status = .superseded →
      r ∈ (syncTasksFromManifest owner t cards).rows := by
    intro r hr hs
    rw [heq]
    exact List.mem_append_left _ (List.mem_filter.mpr ⟨hr, decide_eq_true hs⟩)
  exact ⟨fun r hr hs => hkept r hr (.inr hs), .inl (fun r hr hs => hkept r hr (.inl hs))⟩

/-- Of the rows after archiving, the new ones are the clones. -/
theorem new_rows (ht : Numbered t) (l : TaskLoop) (hids : ∀ i ∈ ids, i < t.nextId)
    (h : Restatus ids (supersedeReruns l t) u) :
    u.rows.filter (fun q => decide (t.nextId ≤ q.id)) = cloneRows t.nextId (rerun l t) := by
  obtain ⟨_, f, hrows, hf⟩ := h
  rw [supersedeReruns_eq ht] at hrows hf
  rw [hrows, List.map_append, List.filter_append]
  have hold : ((t.rows.map (archiveIn (rerun l t))).map f).filter (fun q => decide (t.nextId ≤ q.id)) = [] := by
    refine List.filter_eq_nil_iff.mpr (fun q hq => ?_)
    obtain ⟨a, ha, rfl⟩ := List.mem_map.mp hq
    obtain ⟨r, hr, rfl⟩ := List.mem_map.mp ha
    rw [(hf _ (List.mem_append_left _ ha)).1.id, archiveIn_id, decide_eq_true_eq]
    exact Nat.not_le.mpr (ht.below r hr)
  have hid : ∀ q ∈ cloneRows t.nextId (rerun l t), t.nextId ≤ q.id := by
    intro q hq
    have hin := List.mem_map_of_mem (f := Task.id) hq
    rw [cloneRows_ids, List.mem_range'_1] at hin
    exact hin.1
  have hsame : (cloneRows t.nextId (rerun l t)).map f = cloneRows t.nextId (rerun l t) := by
    refine (List.map_congr_left (fun q hq => ?_)).trans (List.map_id _)
    refine (hf q (List.mem_append_right _ hq)).2 (fun hin => ?_)
    exact Nat.not_le.mpr (hids _ hin) (hid q hq)
  rw [hold, hsame, List.nil_append]
  exact List.filter_eq_self.mpr (fun q hq => decide_eq_true (hid q hq))

theorem progress_history (ht : Numbered t) (state : RunState) : HistoryKept t (syncTaskStatuses t state) := by
  obtain ⟨u, hchange, _, rfl | ⟨l, _, rfl⟩⟩ := progress_restatus ht state
  · exact ⟨fun r hr hs => hchange.kept hr (.inr hs), .inl (fun r hr hs => hchange.kept hr (.inl hs))⟩
  · have hrows := congrArg Tasks.rows (supersedeReruns_eq ht l)
    have harchived : ∀ r ∈ t.rows, archiveIn (rerun l t) r ∈ (supersedeReruns l t).rows := by
      intro r hr
      rw [hrows]
      exact List.mem_append_left _ (List.mem_map_of_mem hr)
    have hids : ∀ i ∈ t.sorted.map Task.id, i < t.nextId := by
      intro i hi
      obtain ⟨r, hr, rfl⟩ := List.mem_map.mp hi
      exact ht.below r (mem_sorted.mp hr)
    constructor
    · intro r hr hs
      have hout : r ∉ rerun l t := by
        intro hin
        rw [(mem_rerun hin).2] at hs
        cases hs
      have hstays := harchived r hr
      rw [archiveIn, if_neg hout] at hstays
      exact hchange.kept hstays (.inr hs)
    · refine .inr ⟨rerun l t, (rerun_ids ht l).of_map, new_rows ht l hids hchange, fun r hr hs => ?_⟩
      have hstays := harchived r hr
      by_cases hin : r ∈ rerun l t
      · rw [archiveIn, if_pos hin] at hstays
        exact .inl ⟨hin, hchange.kept hstays (.inr rfl)⟩
      · rw [archiveIn, if_neg hin] at hstays
        exact .inr ⟨hin, hchange.kept hstays (.inl hs)⟩

theorem next_history (ht : Numbered t) (op : TaskOp) : HistoryKept t (nextTasks t op) := by
  have hsame : HistoryKept t t := ⟨fun r hr _ => hr, .inl (fun r hr _ => hr)⟩
  cases op with
  | resync files index digest =>
    show HistoryKept t (syncTaskManifestToDb t (manifestTasks files index) digest)
    unfold syncTaskManifestToDb
    split
    · exact hsame
    · split
      · exact hsame
      · have h := sync_history ht "cli@local" (manifestTasks files index)
        exact ⟨h.superseded, h.completed⟩
  | progress state => exact progress_history ht state
  | elsewhere => exact ⟨hsame.superseded, hsame.completed⟩

/-- A row that is not archived carries the name. -/
def planned (t : Tasks) (k : String) : Prop := ∃ q ∈ t.rows, q.current ∧ q.manifestKey = some k

/-- A completed row carries the name. -/
def done (t : Tasks) (k : String) : Prop := ∃ q ∈ t.rows, q.status = .completed ∧ q.manifestKey = some k

/-- Each name has one live or completed row at most, and a live row is ready exactly if
everything that its card named and that is planned is done. -/
structure Settled (t : Tasks) : Prop where
  single : ∀ k, (t.rows.filter (fun r =>
    (r.live || decide (r.status = .completed)) && decide (r.manifestKey = some k))).length ≤ 1
  ready : ∀ r, r ∈ getReadyTasks t ↔
    r ∈ t.rows ∧ r.live = true ∧ ∀ d ∈ r.named, planned t d.text → done t d.text

/-- The stored numbers are those of the current rows of the planned names. -/
def Resolved (t : Tasks) (r : Task) : Prop :=
  ∀ i, i ∈ r.dependencies ↔ ∃ d ∈ r.named, ∃ q ∈ t.rows, q.current ∧ q.manifestKey = some d.text ∧ q.id = i

structure Linked (t : Tasks) : Prop where
  one : ∀ r ∈ t.rows, ∀ q ∈ t.rows, r.current → q.current → r.manifestKey = q.manifestKey → r = q
  resolved : ∀ r ∈ t.rows, r.terminal = false → Resolved t r

theorem completed_current (h : r.status = .completed) : r.current := by
  simp [Task.current, h]

theorem live_current (h : r.live = true) : r.current ∧ r.terminal = false := by
  simp only [Task.live, decide_eq_true_eq] at h
  rcases h with h | h <;> simp [Task.current, Task.terminal, h]

theorem mem_ready : r ∈ getReadyTasks t ↔
    r ∈ t.rows ∧ r.live = true ∧ ∀ i ∈ r.dependencies, ∃ q ∈ t.rows, q.status = .completed ∧ q.id = i := by
  simp only [getReadyTasks, List.mem_insertionSort, List.mem_filter, List.all_eq_true, Tasks.completedIds,
    decide_eq_true_eq, List.mem_map, and_assoc]

theorem Linked.settled (ht : Numbered t) (hl : Linked t) : Settled t where
  single := by
    intro k
    have hnodup := (List.Nodup.of_map Task.id ht.keyed).filter (fun r =>
      (r.live || decide (r.status = .completed)) && decide (r.manifestKey = some k))
    have hsame : ∀ r ∈ t.rows.filter (fun r => (r.live || decide (r.status = .completed)) &&
        decide (r.manifestKey = some k)), r ∈ t.rows ∧ r.current ∧ r.manifestKey = some k := by
      intro r hr
      obtain ⟨hr, h⟩ := List.mem_filter.mp hr
      simp only [Bool.and_eq_true, Bool.or_eq_true, decide_eq_true_eq] at h
      refine ⟨hr, ?_, h.2⟩
      rcases h.1 with hlive | hdone
      · exact (live_current hlive).1
      · exact completed_current hdone
    generalize t.rows.filter _ = rows at hnodup hsame
    match rows with
    | [] => exact Nat.zero_le _
    | [_] => exact Nat.le_refl _
    | a :: b :: rest =>
      obtain ⟨ha, hca, hka⟩ := hsame a List.mem_cons_self
      obtain ⟨hb, hcb, hkb⟩ := hsame b (List.mem_cons_of_mem _ List.mem_cons_self)
      have hab := hl.one a ha b hb hca hcb (hka.trans hkb.symm)
      have hne := (List.nodup_cons.mp hnodup).1
      rw [hab] at hne
      exact absurd List.mem_cons_self hne
  ready := by
    intro r
    rw [mem_ready]
    refine and_congr_right (fun hr => and_congr_right (fun hlive => ?_))
    have hresolved := hl.resolved r hr (live_current hlive).2
    constructor
    · rintro h d hd ⟨q, hq, hcurrent, hkey⟩
      obtain ⟨p, hp, hdone, hid⟩ := h q.id ((hresolved q.id).mpr ⟨d, hd, q, hq, hcurrent, hkey, rfl⟩)
      have hrow := ht.same hp hq hid
      subst hrow
      exact ⟨p, hp, hdone, hkey⟩
    · intro h i hi
      obtain ⟨d, hd, q, hq, hcurrent, hkey, rfl⟩ := (hresolved i).mp hi
      obtain ⟨p, hp, hdone, hpkey⟩ := h d hd ⟨q, hq, hcurrent, hkey⟩
      have hrow := hl.one p hp q hq (completed_current hdone) hcurrent (hpkey.trans hkey.symm)
      exact ⟨p, hp, hdone, congrArg Task.id hrow⟩

theorem completedKeyToId_append (rows : List Task) (r : Task) :
    completedKeyToId (rows ++ [r]) = match r.manifestKey with
      | some key => if r.status = .completed ∧ key ≠ "" then (completedKeyToId rows).set key r.id
        else completedKeyToId rows
      | none => completedKeyToId rows := by
  rw [completedKeyToId, List.foldl_append]
  rfl

theorem completedKeyToId_some (h : (completedKeyToId rows).get k = some i) :
    ∃ r ∈ rows, r.status = .completed ∧ r.manifestKey = some k ∧ k ≠ "" ∧ r.id = i := by
  induction rows using List.reverseRecOn with
  | nil => cases h
  | append_singleton rows r ih =>
    have hlift : (completedKeyToId rows).get k = some i →
        ∃ r' ∈ rows ++ [r], r'.status = .completed ∧ r'.manifestKey = some k ∧ k ≠ "" ∧ r'.id = i := by
      intro h
      obtain ⟨q, hq, hrest⟩ := ih h
      exact ⟨q, List.mem_append_left _ hq, hrest⟩
    rw [completedKeyToId_append] at h
    cases hkey : r.manifestKey with
    | none =>
      rw [hkey] at h
      exact hlift h
    | some key =>
      simp only [hkey] at h
      split at h
      · next hdone =>
        rw [Entries.get_set] at h
        split at h
        · next he =>
          subst he
          exact ⟨r, List.mem_append_right _ List.mem_cons_self, hdone.1, hkey, hdone.2, Option.some.inj h⟩
        · exact hlift h
      · exact hlift h

theorem completedKeyToId_isSome (hr : r ∈ rows) (hs : r.status = .completed)
    (hkey : r.manifestKey = some k) (hk : k ≠ "") : ((completedKeyToId rows).get k).isSome = true := by
  induction rows using List.reverseRecOn with
  | nil => cases hr
  | append_singleton rows q ih =>
    rw [completedKeyToId_append]
    rcases List.mem_append.mp hr with hr | hr
    · have hold := ih hr
      split
      · split
        · rw [Entries.get_set]
          split
          · rfl
          · exact hold
        · exact hold
      · exact hold
    · rw [List.mem_singleton.mp hr] at hs hkey
      simp only [hkey, hs, hk, ne_eq, not_false_eq_true, and_self, if_true, Entries.get_set_same, Option.isSome_some]

/-- The cards to create have names of their own that no completed row has, and what they
name among the planned tasks is found: it is a text, and not the empty one if it names
a completed task. -/
structure TidyResync (t : Tasks) (cards : List Card) : Prop where
  distinct : ((createdCards t cards).map Card.key).Nodup
  fresh : ∀ c ∈ createdCards t cards, ¬ done t c.key
  named : ∀ c ∈ createdCards t cards, ∀ d ∈ c.dependencies,
    d.text ∈ (createdCards t cards).map Card.key ∨ done t d.text →
      d = .str d.text ∧ (done t d.text → d.text ≠ "")

/-- The rows to re-run still depend on the current rows of what they name, and neither
an unfinished row nor one that is re-run with them depends on them. -/
structure TidyReruns (t : Tasks) (l : TaskLoop) : Prop where
  resolved : ∀ x ∈ rerun l t, Resolved t x
  free : ∀ x ∈ rerun l t, ∀ r ∈ t.rows, r.terminal = false ∨ r ∈ rerun l t → x.id ∉ r.dependencies

def Tidy (t : Tasks) : TaskOp → Prop
  | .resync files index digest =>
    manifestTasks files index ≠ [] → ¬(t.rows ≠ [] ∧ t.synced = some digest) →
      TidyResync t (manifestTasks files index)
  | .progress (.active (some l)) => TidyReruns t l
  | _ => True

theorem created_keys (t : Tasks) (cards : List Card) :
    ((createdCards t cards).zipIdx t.nextId).map (fun z => z.1.key) = (createdCards t cards).map Card.key := by
  have hfst := List.zipIdx_map_fst t.nextId (createdCards t cards)
  calc ((createdCards t cards).zipIdx t.nextId).map (fun z => z.1.key)
      = (((createdCards t cards).zipIdx t.nextId).map Prod.fst).map Card.key := by rw [List.map_map]; rfl
    _ = (createdCards t cards).map Card.key := by rw [hfst]

theorem created_card (hy : y ∈ (createdCards t cards).zipIdx t.nextId) :
    y.1 ∈ createdCards t cards := by
  have h := List.mem_map_of_mem (f := Prod.fst) hy
  rwa [List.zipIdx_map_fst] at h

/-- The final map knows the created and the completed names, each by its current row. -/
theorem finalMap_iff (hl : Linked t) (h : TidyResync t cards) {s : String} :
    (finalMap t cards).get s = some i ↔
      (∃ y ∈ (createdCards t cards).zipIdx t.nextId, y.1.key = s ∧ y.2 = i) ∨
      ∃ q ∈ t.rows, q.status = .completed ∧ q.manifestKey = some s ∧ s ≠ "" ∧ q.id = i := by
  constructor
  · intro hget
    rcases setAll_some hget with hnew | hold
    · exact .inl hnew
    · exact .inr (completedKeyToId_some hold)
  · rintro (⟨y, hy, rfl, rfl⟩ | ⟨q, hq, hs, hkey, hne, rfl⟩)
    · refine setAll_mem ?_ hy _
      rw [created_keys]
      exact h.distinct
    · have hout : s ∉ ((createdCards t cards).zipIdx t.nextId).map (fun z => z.1.key) := by
        rw [created_keys]
        intro hin
        obtain ⟨c, hc, hck⟩ := List.mem_map.mp hin
        exact h.fresh c hc (hck ▸ ⟨q, hq, hs, hkey⟩)
      rw [finalMap, setAll_out hout]
      obtain ⟨j, hj⟩ := Option.isSome_iff_exists.mp (completedKeyToId_isSome hq hs hkey hne)
      obtain ⟨p, hp, hps, hpkey, _, rfl⟩ := completedKeyToId_some hj
      have hrow := hl.one p hp q hq (completed_current hps) (completed_current hs) (hpkey.trans hkey.symm)
      rw [hj, hrow]

theorem mem_resolve {idMap : Entries String Nat} {deps : List Scalar} :
    i ∈ resolve idMap deps ↔ ∃ s, Scalar.str s ∈ deps ∧ idMap.get s = some i := by
  rw [resolve, List.mem_filterMap]
  constructor
  · rintro ⟨d, hd, h⟩
    cases d with
    | str s => exact ⟨s, hd, h⟩
    | null | bool | int | float => cases h
  · rintro ⟨s, hs, h⟩
    exact ⟨.str s, hs, h⟩

theorem sync_linked (ht : Numbered t) (hl : Linked t) (owner : String) (h : TidyResync t cards) :
    Linked (syncTasksFromManifest owner t cards) := by
  obtain ⟨g, heq, hg⟩ := sync_eq ht owner cards
  have hg := hg h.distinct
  have hmem : ∀ q, q ∈ (syncTasksFromManifest owner t cards).rows ↔ q ∈ preserved t.rows ∨
      ∃ y ∈ (createdCards t cards).zipIdx t.nextId, y.1.row owner y.2 (g y.2) = q := by
    intro q
    rw [heq, List.mem_append, cardRows, List.mem_map]
  have hdone : ∀ q ∈ preserved t.rows, q.current → q ∈ t.rows ∧ q.status = .completed := by
    intro q hq hcurrent
    obtain ⟨hq, hs⟩ := preserved_finished hq
    exact ⟨hq, hs.resolve_right hcurrent⟩
  constructor
  case one =>
    intro r hr q hq hrc hqc hkey
    rcases (hmem r).mp hr with hr | ⟨y, hy, rfl⟩
    · obtain ⟨hrt, hrs⟩ := hdone r hr hrc
      rcases (hmem q).mp hq with hq | ⟨z, hz, rfl⟩
      · exact hl.one r hrt q (hdone q hq hqc).1 hrc hqc hkey
      · exact absurd ⟨r, hrt, hrs, hkey⟩ (h.fresh z.1 (created_card hz))
    · rcases (hmem q).mp hq with hq | ⟨z, hz, rfl⟩
      · obtain ⟨hqt, hqs⟩ := hdone q hq hqc
        exact absurd ⟨q, hqt, hqs, hkey.symm⟩ (h.fresh y.1 (created_card hy))
      · have hkeys := h.distinct
        rw [← created_keys] at hkeys
        have hyz : y = z := List.inj_on_of_nodup_map hkeys hy hz (Option.some.inj hkey)
        rw [hyz]
  case resolved =>
    intro r hr hopen i
    rcases (hmem r).mp hr with hr | ⟨y, hy, rfl⟩
    · have hs := (preserved_finished hr).2
      simp only [Task.terminal, decide_eq_false_iff_not] at hopen
      tauto
    · show i ∈ g y.2 ↔ ∃ d ∈ y.1.dependencies, _
      rw [hg y hy, mem_resolve]
      simp only [finalMap_iff hl h]
      have hcard := created_card hy
      constructor
      · rintro ⟨s, hs, ⟨z, hz, hkey, rfl⟩ | ⟨q, hq, hqs, hkey, _, rfl⟩⟩
        · refine ⟨.str s, hs, z.1.row owner z.2 (g z.2), (hmem _).mpr (.inr ⟨z, hz, rfl⟩), ?_, congrArg some hkey, rfl⟩
          simp [Task.current, Card.row]
        · refine ⟨.str s, hs, q, (hmem q).mpr (.inl (List.mem_filter.mpr ⟨hq, decide_eq_true (.inl hqs)⟩)), ?_,
            hkey, rfl⟩
          exact completed_current hqs
      · rintro ⟨d, hd, q, hq, hcurrent, hkey, rfl⟩
        rcases (hmem q).mp hq with hq | ⟨z, hz, rfl⟩
        · obtain ⟨hqt, hqs⟩ := hdone q hq hcurrent
          have hd' := h.named y.1 hcard d hd (.inr ⟨q, hqt, hqs, hkey⟩)
          exact ⟨d.text, hd'.1 ▸ hd, .inr ⟨q, hqt, hqs, hkey, hd'.2 ⟨q, hqt, hqs, hkey⟩, rfl⟩⟩
        · have hname : z.1.key = d.text := Option.some.inj hkey
          have hd' := h.named y.1 hcard d hd (.inl (hname ▸ List.mem_map_of_mem (created_card hz)))
          exact ⟨d.text, hd'.1 ▸ hd, .inl ⟨z, hz, hname, rfl⟩⟩

/-- A change of statuses keeps the current rows and what they depend on. -/
theorem Restatus.linked (h : Restatus ids t u) (hl : Linked t) : Linked u := by
  obtain ⟨_, f, hrows, hf⟩ := h
  have hcurrent : ∀ r ∈ t.rows, (f r).current ↔ r.current := by
    intro r hr
    refine ⟨fun hc hs => ?_, (hf r hr).1.current⟩
    rw [(hf r hr).1.finished (.inr hs)] at hc
    exact hc hs
  have hmem : ∀ q, q ∈ u.rows ↔ ∃ r ∈ t.rows, f r = q := by
    intro q
    rw [hrows, List.mem_map]
  constructor
  case one =>
    intro a ha b hb hac hbc hkey
    obtain ⟨r, hr, rfl⟩ := (hmem a).mp ha
    obtain ⟨q, hq, rfl⟩ := (hmem b).mp hb
    rw [(hf r hr).1.key, (hf q hq).1.key] at hkey
    rw [hl.one r hr q hq ((hcurrent r hr).mp hac) ((hcurrent q hq).mp hbc) hkey]
  case resolved =>
    intro a ha hopen i
    obtain ⟨r, hr, rfl⟩ := (hmem a).mp ha
    rw [(hf r hr).1.deps, (hf r hr).1.named, hl.resolved r hr ((hf r hr).1.unfinished hopen) i]
    constructor
    · rintro ⟨d, hd, q, hq, hc, hkey, rfl⟩
      exact ⟨d, hd, f q, (hmem _).mpr ⟨q, hq, rfl⟩, (hcurrent q hq).mpr hc, (hf q hq).1.key.trans hkey, (hf q hq).1.id⟩
    · rintro ⟨d, hd, b, hb, hc, hkey, rfl⟩
      obtain ⟨q, hq, rfl⟩ := (hmem b).mp hb
      exact ⟨d, hd, q, hq, (hcurrent q hq).mp hc, (hf q hq).1.key.symm.trans hkey, (hf q hq).1.id.symm⟩

theorem mem_supersedeReruns (ht : Numbered t) : q ∈ (supersedeReruns l t).rows ↔
    (∃ r ∈ t.rows, archiveIn (rerun l t) r = q) ∨ ∃ z ∈ (rerun l t).zipIdx t.nextId, z.1.clone z.2 = q := by
  rw [supersedeReruns_eq ht, List.mem_append, List.mem_map, cloneRows, List.mem_map]

theorem archiveIn_current (h : (archiveIn (rerun l t) r).current) : r ∉ rerun l t ∧ archiveIn (rerun l t) r = r := by
  by_cases hin : r ∈ rerun l t
  · rw [archiveIn, if_pos hin] at h
    exact absurd rfl h
  · exact ⟨hin, if_neg hin⟩

theorem rerun_card {z : Task × Nat} (hz : z ∈ (rerun l t).zipIdx t.nextId) : z.1 ∈ rerun l t := by
  have h := List.mem_map_of_mem (f := Prod.fst) hz
  rwa [List.zipIdx_map_fst] at h

/-- What depends on no row that is re-run still depends on the current rows. -/
theorem resolved_kept (ht : Numbered t) {deps : List Nat} {named : List Scalar}
    (hfree : ∀ x ∈ rerun l t, x.id ∉ deps)
    (h : ∀ i, i ∈ deps ↔ ∃ d ∈ named, ∃ q ∈ t.rows, q.current ∧ q.manifestKey = some d.text ∧ q.id = i) (i : Nat) :
    i ∈ deps ↔ ∃ d ∈ named, ∃ q ∈ (supersedeReruns l t).rows, q.current ∧ q.manifestKey = some d.text ∧ q.id = i := by
  constructor
  · intro hi
    obtain ⟨d, hd, q, hq, hc, hkey, rfl⟩ := (h i).mp hi
    have hout : q ∉ rerun l t := fun hin => hfree q hin hi
    exact ⟨d, hd, q, (mem_supersedeReruns ht).mpr (.inl ⟨q, hq, if_neg hout⟩), hc, hkey, rfl⟩
  · rintro ⟨d, hd, q, hq, hc, hkey, rfl⟩
    rcases (mem_supersedeReruns ht).mp hq with ⟨r, hr, rfl⟩ | ⟨z, hz, rfl⟩
    · obtain ⟨_, hsame⟩ := archiveIn_current hc
      rw [hsame] at hc hkey ⊢
      exact (h r.id).mpr ⟨d, hd, r, hr, hc, hkey, rfl⟩
    · -- a clone carries the name of a row that was re-run
      have hx := rerun_card hz
      obtain ⟨hxt, hxs⟩ := mem_rerun hx
      have hin := (h z.1.id).mpr ⟨d, hd, z.1, hxt, completed_current hxs, hkey, rfl⟩
      exact absurd hin (hfree z.1 hx)

theorem reruns_linked (ht : Numbered t) (hl : Linked t) (h : TidyReruns t l) : Linked (supersedeReruns l t) := by
  constructor
  case one =>
    intro a ha b hb hac hbc hkey
    rcases (mem_supersedeReruns ht).mp ha with ⟨r, hr, rfl⟩ | ⟨y, hy, rfl⟩
    · obtain ⟨hrout, hrsame⟩ := archiveIn_current hac
      rw [hrsame] at hac hkey ⊢
      rcases (mem_supersedeReruns ht).mp hb with ⟨q, hq, rfl⟩ | ⟨z, hz, rfl⟩
      · obtain ⟨_, hqsame⟩ := archiveIn_current hbc
        rw [hqsame] at hbc hkey ⊢
        exact hl.one r hr q hq hac hbc hkey
      · have hz := rerun_card hz
        obtain ⟨hzt, hzs⟩ := mem_rerun hz
        have hrow := hl.one r hr z.1 hzt hac (completed_current hzs) hkey
        exact absurd (hrow ▸ hz) hrout
    · have hyx := rerun_card hy
      obtain ⟨hyt, hys⟩ := mem_rerun hyx
      rcases (mem_supersedeReruns ht).mp hb with ⟨q, hq, rfl⟩ | ⟨z, hz, rfl⟩
      · obtain ⟨hqout, hqsame⟩ := archiveIn_current hbc
        rw [hqsame] at hbc hkey ⊢
        have hrow := hl.one y.1 hyt q hq (completed_current hys) hbc hkey
        exact absurd (hrow ▸ hyx) hqout
      · obtain ⟨hzt, hzs⟩ := mem_rerun (rerun_card hz)
        have hrow := hl.one y.1 hyt z.1 hzt (completed_current hys) (completed_current hzs) hkey
        have hnodup : (((rerun l t).zipIdx t.nextId).map Prod.fst).Nodup := by
          rw [List.zipIdx_map_fst]
          exact (rerun_ids ht l).of_map
        rw [List.inj_on_of_nodup_map hnodup hy hz hrow]
  case resolved =>
    intro a ha hopen
    rcases (mem_supersedeReruns ht).mp ha with ⟨r, hr, rfl⟩ | ⟨y, hy, rfl⟩
    · have hcurrent : (archiveIn (rerun l t) r).current := by
        intro hs
        simp [Task.terminal, hs] at hopen
      obtain ⟨_, hsame⟩ := archiveIn_current hcurrent
      rw [hsame] at hopen ⊢
      exact resolved_kept ht (fun x hx => h.free x hx r hr (.inl hopen)) (hl.resolved r hr hopen)
    · have hyx := rerun_card hy
      exact resolved_kept ht (fun x hx => h.free x hx y.1 (mem_rerun hyx).1 (.inr hyx)) (h.resolved y.1 hyx)

theorem next_linked (ht : Numbered t) (hl : Linked t) (op : TaskOp) (h : Tidy t op) : Linked (nextTasks t op) := by
  cases op with
  | resync files index digest =>
    show Linked (syncTaskManifestToDb t (manifestTasks files index) digest)
    unfold syncTaskManifestToDb
    split
    · exact hl
    · next hcards =>
      split
      · exact hl
      · next hchanged =>
        have hs := sync_linked ht hl "cli@local" (h hcards hchanged)
        exact ⟨hs.one, hs.resolved⟩
  | progress state =>
    obtain ⟨u, hchange, _, rfl | ⟨l, rfl, rfl⟩⟩ := progress_restatus ht state
    · exact hchange.linked hl
    · exact hchange.linked (reruns_linked ht hl h)
  | elsewhere => exact ⟨hl.one, hl.resolved⟩

/-- In every run: no step deletes, reopens or changes a finished row, but to archive a
completed one next to one clone. In every run of tidy steps each name has one live or
completed row at most, and the ready tasks are those whose planned dependencies are
all done. -/
theorem task_history (ops : List TaskOp) :
    (∀ op, HistoryKept (tasksAfter ops) (nextTasks (tasksAfter ops) op)) ∧
    (Along Tidy nextTasks .empty ops → Settled (tasksAfter ops)) := by
  refine ⟨fun op => next_history (tasksAfter_numbered ops) op, fun h => ?_⟩
  have hempty : Numbered Tasks.empty ∧ Linked Tasks.empty :=
    ⟨tasksAfter_numbered [], fun r hr => absurd hr List.not_mem_nil, fun r hr => absurd hr List.not_mem_nil⟩
  have hstep : ∀ t op, Numbered t ∧ Linked t → Tidy t op → Numbered (nextTasks t op) ∧ Linked (nextTasks t op) :=
    fun t op hi hop => ⟨next_numbered hi.1 op, next_linked hi.1 hi.2 op hop⟩
  have hend : Numbered (tasksAfter ops) ∧ Linked (tasksAfter ops) := run_invariant hstep hempty h
  exact hend.2.settled hend.1

def numberedCard (id : Int) (deps : List Scalar) : Card := ⟨some (.int id), "", "", deps, "normal"⟩

/-- A resync with two tasks whose ids are numbers, the second to follow the first. -/
def numberedPlan : List TaskOp := [.resync [] [numberedCard 1 [], numberedCard 2 [.int 1]] "h"]

/-- The second is ready at once: its dependency is a number, the names are texts. -/
theorem numbered_dependency_dropped :
    (getReadyTasks (tasksAfter numberedPlan)).map Task.id = [1, 2] ∧ ¬ Settled (tasksAfter numberedPlan) := by
  have hready : ∃ r ∈ getReadyTasks (tasksAfter numberedPlan), .int 1 ∈ r.named := by decide
  have hplanned : ∃ q ∈ (tasksAfter numberedPlan).rows, q.status ≠ .superseded ∧ q.manifestKey = some "1" := by
    decide
  have hopen : ∀ q ∈ (tasksAfter numberedPlan).rows, q.status ≠ .completed := by decide
  refine ⟨by decide, fun h => ?_⟩
  obtain ⟨r, hr, hnamed⟩ := hready
  have htext : (Scalar.int 1).text = "1" := by decide
  obtain ⟨q, hq, hs, _⟩ := ((h.ready r).mp hr).2.2 (.int 1) hnamed (htext ▸ hplanned)
  exact hopen q hq hs

def namedCard (id : String) (deps : List Scalar) : Card := ⟨some (.str id), "", "", deps, "normal"⟩

instance doneDecidable (t : Tasks) (k : String) : Decidable (done t k) := inferInstanceAs (Decidable (∃ q ∈ t.rows, _))

theorem resolved_iff (t : Tasks) (r : Task) :
    ((∀ i ∈ r.dependencies, ∃ d ∈ r.named, ∃ q ∈ t.rows, q.current ∧ q.manifestKey = some d.text ∧ q.id = i) ∧
      ∀ d ∈ r.named, ∀ q ∈ t.rows, q.current → q.manifestKey = some d.text → q.id ∈ r.dependencies) ↔ Resolved t r := by
  refine ⟨fun ⟨hdown, hup⟩ i => ⟨hdown i, ?_⟩, fun h => ⟨fun i => (h i).mp, ?_⟩⟩
  · rintro ⟨d, hd, q, hq, hcurrent, hkey, rfl⟩
    exact hup d hd q hq hcurrent hkey
  · exact fun d hd q hq hcurrent hkey => (h q.id).mpr ⟨d, hd, q, hq, hcurrent, hkey, rfl⟩

instance currentDecidable (r : Task) : Decidable r.current := inferInstanceAs (Decidable (_ ≠ _))

instance resolvedDecidable (t : Tasks) (r : Task) : Decidable (Resolved t r) := decidable_of_iff _ (resolved_iff t r)

instance tidyResyncDecidable (t : Tasks) (cards : List Card) : Decidable (TidyResync t cards) :=
  decidable_of_iff (_ ∧ _ ∧ _) ⟨fun h => ⟨h.1, h.2.1, h.2.2⟩, fun h => ⟨h.distinct, h.fresh, h.named⟩⟩

instance tidyRerunsDecidable (t : Tasks) (l : TaskLoop) : Decidable (TidyReruns t l) :=
  decidable_of_iff (_ ∧ _) ⟨fun h => ⟨h.1, h.2⟩, fun h => ⟨h.resolved, h.free⟩⟩

instance tidyDecidable (t : Tasks) : ∀ op, Decidable (Tidy t op)
  | .resync files index _ => inferInstanceAs (Decidable (_ → _ → TidyResync t (manifestTasks files index)))
  | .progress (.active (some l)) => inferInstanceAs (Decidable (TidyReruns t l))
  | .progress (.active none) | .progress .completed | .progress .failed | .progress .paused |
      .elsewhere => isTrue trivial

/-- A plan with texts: two of its tasks are done, the third is planned away for a fourth,
which is done and then run again. -/
def namedPlan : List TaskOp :=
  [.resync [] [namedCard "1" [], namedCard "2" [.str "1"], namedCard "3" []] "h1",
    .progress (.active (some ⟨[.str "1", .str "2"], [.str "1", .str "2", .str "3"]⟩)), .elsewhere,
    .resync [] [namedCard "1" [], namedCard "2" [.str "1"], namedCard "4" [.str "2"]] "h2",
    .progress (.active (some ⟨[.str "1", .str "2", .str "4"], [.str "1", .str "2", .str "4"]⟩)),
    .progress (.active (some ⟨[], [.str "4"]⟩))]

theorem namedPlan_settled :
    (tasksAfter namedPlan).rows.map (fun r => (r.manifestKey, r.status)) =
      [(some "1", .completed), (some "2", .completed), (some "4", .superseded), (some "4", .pending)] ∧
    Settled (tasksAfter namedPlan) := by
  have htidy : Along Tidy nextTasks .empty namedPlan := by decide
  exact ⟨by decide, (task_history namedPlan).2 htidy⟩

end AItelier.Scheduler
