import AItelier.Lib.Cursor
import AItelier.Render.Ownership

namespace AItelier.Render

open AItelier.Lib

variable {s : Harness} {id : Nat} {o : OwnerKey} {r q : OwnerRow} {p : Phase}

/-- Whether a request is in a phase of some kind. -/
def Harness.at (s : Harness) (id : Nat) (held : Phase → Bool) : Bool := (s.requests.get id).any held

/-- What every run keeps of the table, the requests and the locks. -/
structure Kept (s : Harness) : Prop where
  ids : (s.rows.map OwnerRow.ownerId).Nodup
  increasing : s.rows.Pairwise (fun a b => a.generation < b.generation)
  single : s.rows.countP OwnerRow.holds ≤ 1
  taken : ∀ id p o, s.requests.get id = some p → p.owner = some o → ∃ r ∈ s.rows, r.key = o ∧ r.request = id
  owner : ∀ r ∈ s.rows, ∃ p, s.requests.get r.request = some p ∧ (p = .dead ∨ p.owner = some r.key)
  process : ∀ id, s.processLock = some id ↔ s.at id Phase.holdsProcess = true
  effect : ∀ id, s.effectLock = some id ↔ s.at id Phase.holdsEffect = true
  known : ∀ o ∈ s.checked, ∃ r ∈ s.rows, r.key = o

theorem Kept.same (hs : Kept s) (hr : r ∈ s.rows) (hq : q ∈ s.rows) (h : r.key = q.key) : r = q :=
  List.inj_on_of_nodup_map hs.ids hr hq (congrArg OwnerKey.ownerId h)

theorem start_kept (pid : Nat) : Kept (.start pid) where
  ids := List.nodup_nil
  increasing := List.Pairwise.nil
  single := Nat.zero_le 1
  taken := fun _ _ _ h => nomatch h
  owner := fun _ h => absurd h List.not_mem_nil
  process := fun id => by simp [Harness.start, Harness.at]
  effect := fun id => by simp [Harness.start, Harness.at]
  known := fun _ h => absurd h List.not_mem_nil

/-- A lock after a request moved on: as before, taken by it, or given back by it. -/
theorem lock_moved {requests : Entries Nat Phase} {lock lock' : Option Nat} (held : Phase → Bool)
    (hinv : ∀ j, lock = some j ↔ (requests.get j).any held = true)
    (h : (held p = (requests.get id).any held ∧ lock' = lock) ∨ (held p = true ∧ lock = none ∧ lock' = some id) ∨
      ((requests.get id).any held = true ∧ held p = false ∧ lock' = none)) (j : Nat) :
    lock' = some j ↔ ((requests.set id p).get j).any held = true := by
  rw [Entries.get_set]
  by_cases hj : id = j
  · subst hj
    rw [if_pos rfl, Option.any_some]
    rcases h with ⟨hsame, rfl⟩ | ⟨hheld, _, rfl⟩ | ⟨_, hfree, rfl⟩
    · rw [hsame]
      exact hinv id
    · simp [hheld]
    · simp [hfree]
  · rw [if_neg hj, ← hinv j]
    rcases h with ⟨_, rfl⟩ | ⟨_, rfl, rfl⟩ | ⟨hmine, _, rfl⟩
    · rfl
    · simp [hj]
    · rw [(hinv id).mpr hmine]
      simp [hj]

/-- A request moves on: it has no row before and after, or the same one. -/
theorem moved_kept (hs : Kept s) {process effect : Option Nat}
    (hmove : (p.owner = none ∧ (s.requests.get id = none ∨ s.requests.get id = some .queued)) ∨
      ∃ p' o, s.requests.get id = some p' ∧ p'.owner = some o ∧ p.owner = some o)
    (hprocess : (p.holdsProcess = s.at id Phase.holdsProcess ∧ process = s.processLock) ∨
      (p.holdsProcess = true ∧ s.processLock = none ∧ process = some id) ∨
      (s.at id Phase.holdsProcess = true ∧ p.holdsProcess = false ∧ process = none))
    (heffect : (p.holdsEffect = s.at id Phase.holdsEffect ∧ effect = s.effectLock) ∨
      (p.holdsEffect = true ∧ s.effectLock = none ∧ effect = some id) ∨
      (s.at id Phase.holdsEffect = true ∧ p.holdsEffect = false ∧ effect = none)) :
    Kept { s with requests := s.requests.set id p, processLock := process, effectLock := effect } where
  ids := hs.ids
  increasing := hs.increasing
  single := hs.single
  taken := by
    intro j p' o hget ho
    simp only [Entries.get_set] at hget
    split at hget
    · next hj =>
      cases hget
      rcases hmove with ⟨hnone, _⟩ | ⟨old, o', hold, holdo, hnew⟩
      · rw [hnone] at ho
        cases ho
      · exact hj ▸ hs.taken id old o hold (holdo.trans (hnew.symm.trans ho))
    · exact hs.taken j p' o hget ho
  owner := by
    intro r hr
    obtain ⟨p', hp', hown⟩ := hs.owner r hr
    simp only [Entries.get_set]
    split
    · next hj =>
      rw [← hj] at hp'
      refine ⟨p, rfl, ?_⟩
      rcases hmove with ⟨_, hnone | hqueued⟩ | ⟨old, o', hold, holdo, hnew⟩
      · rw [hnone] at hp'
        cases hp'
      · rw [hqueued] at hp'
        cases hp'
        simp [Phase.owner] at hown
      · rw [hold] at hp'
        cases hp'
        rcases hown with rfl | hown
        · cases holdo
        · exact .inr (hnew.trans (holdo.symm.trans hown))
    · exact ⟨p', hp', hown⟩
  process := lock_moved _ hs.process hprocess
  effect := lock_moved _ hs.effect heffect
  known := hs.known

/-- A write to a row that keeps its keys and takes nobody's place. -/
theorem update_kept (hs : Kept s) (o : OwnerKey) (status : OwnerStatus) {f : OwnerRow → OwnerRow}
    (hid : ∀ r, (f r).ownerId = r.ownerId) (hgeneration : ∀ r, (f r).generation = r.generation)
    (hrequest : ∀ r, (f r).request = r.request)
    (hholds : ∀ r, r.status = status → (f r).holds = true → r.holds = true) : Kept (s.update o status f) := by
  have hkey : ∀ r, (f r).key = r.key := fun r => by rw [OwnerRow.key, hid, hgeneration]; rfl
  have hmem : ∀ r, r ∈ s.rows → ∃ q ∈ (s.update o status f).rows, q.key = r.key ∧ q.request = r.request := by
    intro r hr
    refine ⟨_, List.mem_map_of_mem hr, ?_, ?_⟩
    · split
      · exact hkey r
      · rfl
    · split
      · exact hrequest r
      · rfl
  constructor
  case ids =>
    have hsame : (s.update o status f).rows.map OwnerRow.ownerId = s.rows.map OwnerRow.ownerId :=
      map_modifyWhere (fun r _ => hid r) s.rows
    rw [hsame]
    exact hs.ids
  case increasing =>
    show (s.rows.map _).Pairwise _
    rw [List.pairwise_map]
    refine hs.increasing.imp (fun {a b} hlt => ?_)
    have hsame : ∀ r, (if decide (r.key = o ∧ r.status = status) = true then f r else r).generation = r.generation := by
      intro r
      split
      · exact hgeneration r
      · rfl
    rw [hsame, hsame]
    exact hlt
  case single =>
    show (s.rows.map _).countP OwnerRow.holds ≤ 1
    rw [List.countP_map]
    refine Nat.le_trans (List.countP_mono_left (fun r _ h => ?_)) hs.single
    rw [Function.comp_apply] at h
    split at h
    · next hr =>
      rw [decide_eq_true_eq] at hr
      exact hholds r hr.2 h
    · exact h
  case taken =>
    intro id p o' hget ho
    obtain ⟨r, hr, hrkey, hrid⟩ := hs.taken id p o' hget ho
    obtain ⟨q, hq, hqkey, hqid⟩ := hmem r hr
    exact ⟨q, hq, hqkey.trans hrkey, hqid.trans hrid⟩
  case owner =>
    intro q hq
    obtain ⟨r, hr, rfl⟩ := List.mem_map.mp hq
    split
    · rw [hrequest, hkey]
      exact hs.owner r hr
    · exact hs.owner r hr
  case process => exact hs.process
  case effect => exact hs.effect
  case known =>
    intro o' ho
    obtain ⟨r, hr, hrkey⟩ := hs.known o' ho
    obtain ⟨q, hq, hqkey, _⟩ := hmem r hr
    exact ⟨q, hq, hqkey.trans hrkey⟩

theorem newestHolder_mem (h : newestHolder s.rows = some r) : r ∈ s.rows ∧ r.holds = true := by
  have hmem := (List.mem_insertionSort _).mp (List.mem_of_mem_head? h)
  exact List.mem_filter.mp hmem

theorem newestHolder_none : newestHolder s.rows = none ↔ s.rows.countP OwnerRow.holds = 0 := by
  rw [newestHolder, List.head?_eq_none_iff, ← List.length_eq_zero_iff, List.length_insertionSort,
    List.countP_eq_length_filter]

theorem lt_nextGeneration (h : r ∈ s.rows) : r.generation < nextGeneration s.rows :=
  Nat.lt_succ_of_le (le_foldl_max (.inl (List.mem_map_of_mem h)))

/-- The row that a queued request inserts when nothing holds the render. -/
theorem inserted_kept (hs : Kept s) {c : Claim} (hid : s.requests.get id = some .queued)
    (hfree : newestHolder s.rows = none) (hnew : c.ownerId ∉ s.rows.map OwnerRow.ownerId) :
    Kept { s with
      rows := s.rows ++ [c.row (nextGeneration s.rows) s.pid id]
      requests := s.requests.set id (.owned ⟨c.ownerId, nextGeneration s.rows⟩) } := by
  constructor
  case ids =>
    rw [List.map_append, List.nodup_append_comm]
    exact List.nodup_cons.mpr ⟨hnew, hs.ids⟩
  case increasing =>
    refine List.pairwise_append.mpr ⟨hs.increasing, List.pairwise_singleton _ _, fun a ha b hb => ?_⟩
    rw [List.mem_singleton.mp hb]
    exact lt_nextGeneration ha
  case single =>
    rw [List.countP_append, newestHolder_none.mp hfree]
    rfl
  case taken =>
    intro j p o hget ho
    simp only [Entries.get_set] at hget
    split at hget
    · next hj =>
      cases hget
      refine ⟨_, List.mem_append_right _ (List.mem_singleton_self _), ?_, hj⟩
      exact Option.some.inj ho
    · obtain ⟨r, hr, hrow⟩ := hs.taken j p o hget ho
      exact ⟨r, List.mem_append_left _ hr, hrow⟩
  case owner =>
    intro r hr
    simp only [Entries.get_set]
    rcases List.mem_append.mp hr with hr | hr
    · obtain ⟨p, hp, hown⟩ := hs.owner r hr
      split
      · next hj =>
        rw [← hj, hid] at hp
        cases hp
        simp [Phase.owner] at hown
      · exact ⟨p, hp, hown⟩
    · rw [List.mem_singleton.mp hr]
      exact ⟨_, if_pos rfl, .inr rfl⟩
  case process => exact lock_moved _ hs.process (.inl ⟨by simp [hid, Phase.holdsProcess], rfl⟩)
  case effect => exact lock_moved _ hs.effect (.inl ⟨by simp [hid, Phase.holdsEffect], rfl⟩)
  case known =>
    intro o ho
    obtain ⟨r, hr, hkey⟩ := hs.known o ho
    exact ⟨r, List.mem_append_left _ hr, hkey⟩

theorem left_kept (hs : Kept s) (hid : s.requests.get id = some .queued) : Kept (s.phase id .left) :=
  moved_kept hs (.inl ⟨rfl, .inr hid⟩)
    (.inl ⟨by simp [Harness.at, hid, Phase.holdsProcess], rfl⟩)
    (.inl ⟨by simp [Harness.at, hid, Phase.holdsEffect], rfl⟩)

theorem poll_kept (hs : Kept s) (hid : s.requests.get id = some .queued) (c : Claim) : Kept (poll s id c) := by
  unfold poll
  split
  · split
    · exact left_kept hs hid
    · exact hs
  · next hfree =>
    split
    · exact left_kept hs hid
    · next hnew => exact inserted_kept hs hid hfree hnew

theorem releaseRenderOwner_kept (hs : Kept s) (o : OwnerKey) (written : Bool) (now : Int) (reason : String) :
    Kept (releaseRenderOwner s o written now reason) := by
  unfold releaseRenderOwner
  split
  · exact update_kept hs o .active (fun _ => rfl) (fun _ => rfl) (fun _ => rfl)
      (fun _ _ h => by simp [OwnerRow.holds] at h)
  · exact hs

/-- With its process, a request loses its locks and its place. -/
theorem restarted_kept (hs : Kept s) (pid : Nat) : Kept (next s (.restart pid)) where
  ids := hs.ids
  increasing := hs.increasing
  single := hs.single
  taken := by
    intro j p o hget ho
    simp only [next, Entries.get_map] at hget
    obtain ⟨old, hold, rfl⟩ := Option.map_eq_some_iff.mp hget
    apply hs.taken j old o hold
    cases old <;> first | exact ho | cases ho
  owner := by
    intro r hr
    obtain ⟨old, hold, hown⟩ := hs.owner r hr
    refine ⟨old.afterDeath, by simp only [next, Entries.get_map, hold, Option.map_some], ?_⟩
    cases old with
    | left => simp [Phase.owner] at hown
    | «over» o => exact .inr (hown.resolve_left Phase.noConfusion)
    | _ => exact .inl rfl
  process := by
    intro j
    simp only [next, Harness.at, Entries.get_map]
    cases s.requests.get j with
    | none => simp
    | some old => cases old <;> simp [Phase.afterDeath, Phase.holdsProcess]
  effect := by
    intro j
    simp only [next, Harness.at, Entries.get_map]
    cases s.requests.get j with
    | none => simp
    | some old => cases old <;> simp [Phase.afterDeath, Phase.holdsEffect]
  known := fun _ h => absurd h List.not_mem_nil

/-- Every step keeps the table and the locks in order. -/
theorem next_kept (hs : Kept s) (op : Op) : Kept (next s op) := by
  cases op with
  | arrive id =>
    rw [next]
    split
    · next h =>
      rw [Option.isNone_iff_eq_none] at h
      exact moved_kept hs (.inl ⟨rfl, .inl h⟩)
        (.inl ⟨by simp [Harness.at, h, Phase.holdsProcess], rfl⟩)
        (.inl ⟨by simp [Harness.at, h, Phase.holdsEffect], rfl⟩)
    · exact hs
  | poll id c =>
    rw [next]
    split
    · next h => exact poll_kept hs h c
    · exact hs
  | giveUp id =>
    rw [next]
    split
    · next h => exact left_kept hs h
    · exact hs
  | takeProcessLock id =>
    rw [next]
    split
    · next o h hlock =>
      exact moved_kept hs (.inr ⟨_, _, h, rfl, rfl⟩)
        (.inr (.inl ⟨rfl, hlock, rfl⟩)) (.inl ⟨by simp [Harness.at, h, Phase.holdsEffect], rfl⟩)
    · exact hs
  | takeEffectLock id =>
    rw [next]
    split
    · next o h hlock =>
      exact moved_kept hs (.inr ⟨_, _, h, rfl, rfl⟩)
        (.inl ⟨by simp [Harness.at, h, Phase.holdsProcess], rfl⟩) (.inr (.inl ⟨rfl, hlock, rfl⟩))
    · exact hs
  | failEffectLock id written now =>
    rw [next]
    split
    · next o h =>
      apply releaseRenderOwner_kept
      exact moved_kept hs (.inr ⟨_, _, h, rfl, rfl⟩)
        (.inr (.inr ⟨by simp [Harness.at, h, Phase.holdsProcess], rfl, rfl⟩))
        (.inl ⟨by simp [Harness.at, h, Phase.holdsEffect], rfl⟩)
    · exact hs
  | begin id =>
    rw [next]
    split
    · next o h =>
      exact moved_kept hs (.inr ⟨_, _, h, rfl, rfl⟩)
        (.inl ⟨by simp [Harness.at, h, Phase.holdsProcess], rfl⟩)
          (.inl ⟨by simp [Harness.at, h, Phase.holdsEffect], rfl⟩)
    · exact hs
  | skip id =>
    rw [next]
    split
    · next o h =>
      exact moved_kept hs (.inr ⟨_, _, h, rfl, rfl⟩)
        (.inl ⟨by simp [Harness.at, h, Phase.holdsProcess], rfl⟩)
          (.inl ⟨by simp [Harness.at, h, Phase.holdsEffect], rfl⟩)
    · exact hs
  | finish id =>
    rw [next]
    split
    · next o h =>
      exact moved_kept hs (.inr ⟨_, _, h, rfl, rfl⟩)
        (.inl ⟨by simp [Harness.at, h, Phase.holdsProcess], rfl⟩)
          (.inl ⟨by simp [Harness.at, h, Phase.holdsEffect], rfl⟩)
    · exact hs
  | dropEffectLock id =>
    rw [next]
    split
    · next o h =>
      exact moved_kept hs (.inr ⟨_, _, h, rfl, rfl⟩)
        (.inl ⟨by simp [Harness.at, h, Phase.holdsProcess], rfl⟩)
        (.inr (.inr ⟨by simp [Harness.at, h, Phase.holdsEffect], rfl, rfl⟩))
    · exact hs
  | dropProcessLock id =>
    rw [next]
    split
    · next o h =>
      exact moved_kept hs (.inr ⟨_, _, h, rfl, rfl⟩)
        (.inr (.inr ⟨by simp [Harness.at, h, Phase.holdsProcess], rfl, rfl⟩))
        (.inl ⟨by simp [Harness.at, h, Phase.holdsEffect], rfl⟩)
    · exact hs
  | release id written now reason =>
    rw [next]
    split
    · next o h =>
      apply releaseRenderOwner_kept
      exact moved_kept hs (.inr ⟨_, _, h, rfl, rfl⟩)
        (.inl ⟨by simp [Harness.at, h, Phase.holdsProcess], rfl⟩)
          (.inl ⟨by simp [Harness.at, h, Phase.holdsEffect], rfl⟩)
    · exact hs
  | heartbeat o now =>
    exact update_kept hs o .active (fun _ => rfl) (fun _ => rfl) (fun _ => rfl) (fun _ _ h => h)
  | markLost o now reason =>
    exact update_kept hs o .active (fun _ => rfl) (fun _ => rfl) (fun _ => rfl)
      (fun r h _ => by simp [OwnerRow.holds, h])
  | checkReconcile o actor reason signal =>
    rw [next]
    split
    · next h =>
      simp only [mayReconcile, Bool.and_eq_true, List.any_eq_true, decide_eq_true_eq] at h
      obtain ⟨⟨_, r, hr, ⟨hkey, _⟩, _⟩, _⟩ := h
      refine { hs with known := fun o' ho => ?_ }
      rcases List.mem_cons.mp ho with rfl | ho
      · exact ⟨r, hr, hkey⟩
      · exact hs.known o' ho
    · exact hs
  | settleReconcile o now actor reason =>
    rw [next]
    split
    · have herased : Kept { s with checked := s.checked.erase o } :=
        { hs with known := fun o' ho => hs.known o' (List.mem_of_mem_erase ho) }
      exact update_kept herased o .ownerLost (fun _ => rfl) (fun _ => rfl) (fun _ => rfl)
        (fun _ _ h => by simp [OwnerRow.holds] at h)
    · exact hs
  | restart pid => exact restarted_kept hs pid

end AItelier.Render
