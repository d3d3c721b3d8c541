import AItelier.Scheduler.Polling

namespace AItelier.Scheduler

open AItelier.Lib

variable {cap : Nat} {s : Ticks} {pid : String}

def Tick.entry (t : Tick) : String × Nat := (t.project, t.id)

def Ticks.projects (s : Ticks) : List String := s.tasks.map Tick.project

/-- At most `cap` ticks, one for a project, its lock held exactly while it is there or
other code holds it, and each start answered by one release. -/
structure Exclusive (cap : Nat) (s : Ticks) : Prop where
  bounded : s.tasks.length ≤ cap
  single : s.projects.Nodup
  held : ∀ p, p ∈ s.locks ↔ p ∈ s.projects ∨ p ∈ s.guests
  apart : ∀ p ∈ s.guests, p ∉ s.projects
  released : ∀ p, s.starts.count p = s.releases.count p + s.projects.count p
  recorded : s.detached = s.tasks.map Tick.entry
  named : (s.tasks.map Tick.id).Nodup
  fresh : ∀ t ∈ s.tasks, t.id < s.nextId
  locksOnce : s.locks.Nodup
  guestsOnce : s.guests.Nodup

theorem empty_exclusive (cap : Nat) : Exclusive cap .empty where
  bounded := Nat.zero_le cap
  single := List.nodup_nil
  held := by simp [Ticks.empty, Ticks.projects]
  apart := by simp [Ticks.empty]
  released := by simp [Ticks.empty, Ticks.projects]
  recorded := rfl
  named := List.nodup_nil
  fresh := by simp [Ticks.empty]
  locksOnce := List.nodup_nil
  guestsOnce := List.nodup_nil

theorem Exclusive.slots (hs : Exclusive cap s) : s.detached.length = s.tasks.length := by
  rw [hs.recorded, List.length_map]

theorem Exclusive.keys (hs : Exclusive cap s) : s.detached.map Prod.fst = s.projects := by
  rw [hs.recorded, List.map_map]
  rfl

theorem dispatchRow_exclusive (hs : Exclusive cap s) (owner : Option String) (pid : String) :
    Exclusive cap (dispatchRow cap owner s pid) := by
  unfold dispatchRow
  split
  · exact hs
  · next hfree =>
    split
    · exact hs
    · next hroom =>
      have hslots := hs.slots
      have hnew : pid ∉ s.projects := fun h => hfree ((hs.held pid).mpr (.inl h))
      have hguest : pid ∉ s.guests := fun h => hfree ((hs.held pid).mpr (.inr h))
      have hprojects : (s.tasks ++ [(⟨s.nextId, pid, false, false, none⟩ : Tick)]).map Tick.project =
          s.projects ++ [pid] := by
        simp [Ticks.projects]
      constructor
      case bounded =>
        rw [List.length_append, List.length_singleton]
        omega
      case single =>
        rw [Ticks.projects, hprojects, List.nodup_append]
        refine ⟨hs.single, List.nodup_singleton pid, ?_⟩
        intro a ha b hb he
        rw [he, List.mem_singleton.mp hb] at ha
        exact hnew ha
      case held =>
        intro p
        rw [Ticks.projects, hprojects, List.mem_cons, List.mem_append, List.mem_singleton, hs.held p]
        tauto
      case apart =>
        intro p hp
        rw [Ticks.projects, hprojects, List.mem_append, List.mem_singleton, not_or]
        exact ⟨hs.apart p hp, fun he => hguest (he ▸ hp)⟩
      case released =>
        intro p
        rw [Ticks.projects, hprojects, List.count_append, List.count_append, hs.released p, Nat.add_assoc]
      case recorded =>
        show s.detached.set pid s.nextId = _
        rw [Entries.set_new (by rw [hs.keys]; exact hnew), hs.recorded, List.map_append]
        rfl
      case named =>
        simp only [List.map_append, List.map_singleton, List.nodup_append]
        refine ⟨hs.named, by simp, ?_⟩
        intro a ha b hb he
        obtain ⟨t, ht, rfl⟩ := List.mem_map.mp ha
        rw [List.mem_singleton] at hb
        have := hs.fresh t ht
        omega
      case fresh =>
        intro t ht
        rcases List.mem_append.mp ht with ht | ht
        · exact Nat.lt_succ_of_lt (hs.fresh t ht)
        · rw [List.mem_singleton.mp ht]
          exact Nat.lt_succ_self _
      case locksOnce => exact List.nodup_cons.mpr ⟨hfree, hs.locksOnce⟩
      case guestsOnce => exact hs.guestsOnce

theorem dispatch_exclusive (hs : Exclusive cap s) (owner : Option String) (rows : List String) :
    Exclusive cap (rows.foldl (dispatchRow cap owner) s) := by
  induction rows generalizing s with
  | nil => exact hs
  | cons p rows ih => exact ih (dispatchRow_exclusive hs owner p)

/-- What changes no task's identity changes nothing that is counted. -/
theorem retask_exclusive (hs : Exclusive cap s) (f : Tick → Tick) (hid : ∀ t, (f t).id = t.id)
    (hproject : ∀ t, (f t).project = t.project) : Exclusive cap { s with tasks := s.tasks.map f } := by
  have hprojects : (s.tasks.map f).map Tick.project = s.projects := by
    rw [List.map_map, Ticks.projects]
    exact List.map_congr_left (fun t _ => hproject t)
  have hids : (s.tasks.map f).map Tick.id = s.tasks.map Tick.id := by
    rw [List.map_map]
    exact List.map_congr_left (fun t _ => hid t)
  constructor
  case bounded => rw [List.length_map]; exact hs.bounded
  case single => rw [Ticks.projects, hprojects]; exact hs.single
  case held => exact fun p => by rw [Ticks.projects, hprojects]; exact hs.held p
  case apart => exact fun p hp => by rw [Ticks.projects, hprojects]; exact hs.apart p hp
  case released => exact fun p => by rw [Ticks.projects, hprojects]; exact hs.released p
  case recorded =>
    show s.detached = _
    rw [hs.recorded, List.map_map]
    refine List.map_congr_left (fun t _ => ?_)
    simp only [Tick.entry, Function.comp_apply, hid, hproject]
  case named => exact hids ▸ hs.named
  case fresh =>
    intro t ht
    obtain ⟨u, hu, rfl⟩ := List.mem_map.mp ht
    rw [hid]
    exact hs.fresh u hu
  case locksOnce => exact hs.locksOnce
  case guestsOnce => exact hs.guestsOnce

theorem update_exclusive (hs : Exclusive cap s) (id : Nat) (f : Tick → Tick) (hid : ∀ t, (f t).id = t.id)
    (hproject : ∀ t, (f t).project = t.project) : Exclusive cap (s.update id f) := by
  refine retask_exclusive hs _ (fun t => ?_) (fun t => ?_)
  · split
    · exact hid t
    · rfl
  · split
    · exact hproject t
    · rfl

theorem Exclusive.same_project (hs : Exclusive cap s) {t u : Tick} (ht : t ∈ s.tasks) (hu : u ∈ s.tasks)
    (h : t.project = u.project) : t = u :=
  List.inj_on_of_nodup_map hs.single ht hu h

theorem Exclusive.same_id (hs : Exclusive cap s) {t u : Tick} (ht : t ∈ s.tasks) (hu : u ∈ s.tasks)
    (h : t.id = u.id) : t = u :=
  List.inj_on_of_nodup_map hs.named ht hu h

theorem erase_projects (hs : Exclusive cap s) {task : Tick} (ht : task ∈ s.tasks) :
    (s.tasks.filter (fun t => !decide (t.id = task.id))).map Tick.project = s.projects.erase task.project := by
  rw [hs.single.erase_eq_filter, Ticks.projects, List.filter_map]
  congr 1
  refine List.filter_congr (fun t hu => ?_)
  by_cases h : t = task
  · subst h
    simp
  · have hid : t.id ≠ task.id := fun he => h (hs.same_id hu ht he)
    have hproject : t.project ≠ task.project := fun he => h (hs.same_project hu ht he)
    simp [hid, hproject]

theorem done_exclusive (hs : Exclusive cap s) {task : Tick} (ht : task ∈ s.tasks) :
    Exclusive cap (onDetachedTickDone s task) := by
  have hprojects : (onDetachedTickDone s task).projects = s.projects.erase task.project := erase_projects hs ht
  have hmem : task.project ∈ s.projects := List.mem_map_of_mem ht
  have herased : ∀ p, p ∈ s.projects.erase task.project ↔ p ≠ task.project ∧ p ∈ s.projects :=
    fun p => hs.single.mem_erase_iff
  constructor
  case bounded => exact Nat.le_trans (List.length_filter_le ..) hs.bounded
  case single => rw [hprojects]; exact hs.single.erase _
  case held =>
    intro p
    rw [hprojects, herased]
    show p ∈ s.locks.erase task.project ↔ _ ∨ p ∈ s.guests
    rw [hs.locksOnce.mem_erase_iff, hs.held p]
    -- the lock that is released is not one that other code holds
    have hguest : p ∈ s.guests → p ≠ task.project := fun hp he => hs.apart p hp (he ▸ hmem)
    tauto
  case apart =>
    intro p hp
    rw [hprojects, herased]
    exact fun h => hs.apart p hp h.2
  case released =>
    intro p
    have hcount := hs.released p
    rw [hprojects]
    show s.starts.count p = (s.releases ++ [task.project]).count p + _
    rw [List.count_append, hcount]
    by_cases hp : p = task.project
    · subst hp
      have hpos : 0 < s.projects.count task.project := List.count_pos_iff.mpr hmem
      rw [List.count_erase_self, List.count_singleton_self]
      omega
    · rw [List.count_erase_of_ne hp, List.count_singleton, if_neg (by simpa using Ne.symm hp)]
      omega
  case recorded =>
    have hget : s.detached.get task.project = some task.id := by
      refine Entries.get_of_mem (hs.keys ▸ hs.single) ?_
      rw [hs.recorded]
      exact List.mem_map.mpr ⟨task, ht, rfl⟩
    show (if s.detached.get task.project = some task.id then s.detached.del task.project else s.detached) = _
    rw [if_pos hget, hs.recorded, Entries.del, List.filter_map]
    congr 1
    refine List.filter_congr (fun t hu => ?_)
    by_cases h : t = task
    · subst h
      simp [Tick.entry]
    · have hid : t.id ≠ task.id := fun he => h (hs.same_id hu ht he)
      have hproject : t.project ≠ task.project := fun he => h (hs.same_project hu ht he)
      simp [Tick.entry, hid, hproject]
  case named => exact hs.named.sublist (List.Sublist.map _ List.filter_sublist)
  case fresh => exact fun t hu => hs.fresh t (List.mem_of_mem_filter hu)
  case locksOnce => exact hs.locksOnce.erase _
  case guestsOnce => exact hs.guestsOnce

theorem hold_exclusive (hs : Exclusive cap s) (hfree : pid ∉ s.locks) :
    Exclusive cap { s with locks := pid :: s.locks, guests := pid :: s.guests } where
  bounded := hs.bounded
  single := hs.single
  held := by
    intro p
    have h := hs.held p
    simp only [List.mem_cons, Ticks.projects] at h ⊢
    tauto
  apart := by
    intro p hp
    rcases List.mem_cons.mp hp with rfl | hp
    · exact fun h => hfree ((hs.held p).mpr (.inl h))
    · exact hs.apart p hp
  released := hs.released
  recorded := hs.recorded
  named := hs.named
  fresh := hs.fresh
  locksOnce := List.nodup_cons.mpr ⟨hfree, hs.locksOnce⟩
  guestsOnce := List.nodup_cons.mpr ⟨fun h => hfree ((hs.held pid).mpr (.inr h)), hs.guestsOnce⟩

theorem unhold_exclusive (hs : Exclusive cap s) (hguest : pid ∈ s.guests) :
    Exclusive cap { s with locks := s.locks.erase pid, guests := s.guests.erase pid } where
  bounded := hs.bounded
  single := hs.single
  held := by
    intro p
    have hproject : p ∈ s.projects → p ≠ pid := fun hp he => hs.apart p (he ▸ hguest) hp
    show p ∈ s.locks.erase pid ↔ p ∈ s.projects ∨ p ∈ s.guests.erase pid
    rw [hs.locksOnce.mem_erase_iff, hs.guestsOnce.mem_erase_iff, hs.held p]
    tauto
  apart := fun p hp => hs.apart p (List.mem_of_mem_erase hp)
  released := hs.released
  recorded := hs.recorded
  named := hs.named
  fresh := hs.fresh
  locksOnce := hs.locksOnce.erase _
  guestsOnce := hs.guestsOnce.erase _

theorem next_exclusive (hs : Exclusive cap s) (op : TickOp) : Exclusive cap (nextTicks cap s op) := by
  cases op with
  | poll poller w => exact dispatch_exclusive hs _ _
  | enter id =>
    refine update_exclusive hs id _ (fun t => ?_) (fun t => ?_)
    · split <;> rfl
    · split <;> rfl
  | finish id outcome =>
    refine update_exclusive hs id _ (fun t => ?_) (fun t => ?_)
    · split <;> rfl
    · split <;> rfl
  | done id =>
    rw [nextTicks]
    split
    · next task hfind => exact done_exclusive hs (List.mem_of_find?_eq_some hfind)
    · exact hs
  | cancel owner =>
    refine retask_exclusive hs _ (fun t => ?_) (fun t => ?_)
    · split <;> rfl
    · split <;> rfl
  | hold pid =>
    rw [nextTicks]
    split
    · exact hs
    · next hfree => exact hold_exclusive hs hfree
  | unhold pid =>
    rw [nextTicks]
    split
    · next hguest => exact unhold_exclusive hs hguest
    · exact hs

theorem polled_exclusive (cap : Nat) (ops : List TickOp) : Exclusive cap (polled cap ops) := by
  have hstep : ∀ s op, Exclusive cap s → True → Exclusive cap (nextTicks cap s op) :=
    fun s op hs _ => next_exclusive hs op
  exact run_invariant hstep (empty_exclusive cap) (along_of (fun _ _ => trivial) _ ops)

/-- A dispatch starts the free projects of its list, in order, as far as there are slots. -/
theorem dispatch_starts (hs : Exclusive cap s) (owner : Option String) {rows : List String} (hrows : rows.Nodup) :
    (rows.foldl (dispatchRow cap owner) s).starts =
      s.starts ++ (rows.filter (fun p => decide (p ∉ s.locks))).take (cap - s.tasks.length) := by
  induction rows generalizing s with
  | nil => simp
  | cons p rows ih =>
    obtain ⟨hnew, hrows⟩ := List.nodup_cons.mp hrows
    have hkept := dispatchRow_exclusive hs owner p
    rw [List.foldl_cons, ih hkept hrows]
    by_cases hlock : p ∈ s.locks
    · have hstep : dispatchRow cap owner s p = s := if_pos hlock
      rw [hstep, List.filter_cons_of_neg (by simpa using hlock)]
    · rw [List.filter_cons_of_pos (by simpa using hlock)]
      by_cases hroom : cap ≤ s.detached.length
      · have hstep : dispatchRow cap owner s p = s := by rw [dispatchRow, if_neg hlock, if_pos hroom]
        have hnone : cap - s.tasks.length = 0 := by rw [← hs.slots]; omega
        rw [hstep, hnone]
        rfl
      · have hsome : cap - s.tasks.length = (cap - (s.tasks.length + 1)) + 1 := by
          rw [← hs.slots]
          omega
        have hfilter : rows.filter (fun q => decide (q ∉ p :: s.locks)) =
            rows.filter (fun q => decide (q ∉ s.locks)) := by
          refine List.filter_congr (fun q hq => ?_)
          have hne : q ≠ p := fun he => hnew (he ▸ hq)
          simp [hne]
        rw [dispatchRow, if_neg hlock, if_neg hroom]
        simp only [List.length_append, List.length_singleton, hfilter]
        rw [hsome, List.take_succ_cons, List.append_assoc]
        rfl

theorem select_length (w : Listing) (poller : Poller) (clause : ProjectRow → Bool) :
    (select w poller clause).length ≤ w.rows.length := by
  rw [select, List.length_insertionSort]
  exact List.length_filter_le ..

/-- All active projects of a poller, in its order. -/
def activeProjects (w : Listing) (poller : Poller) : List ProjectRow := getActiveProjects w poller w.rows.length

theorem take_select (w : Listing) (poller : Poller) (clause : ProjectRow → Bool) :
    (select w poller clause).take w.rows.length = select w poller clause :=
  List.take_of_length_le (select_length w poller clause)

theorem activeProjects_eq (w : Listing) (poller : Poller) :
    activeProjects w poller = [] ∨ activeProjects w poller = select w poller (w.primary poller) ∨
      activeProjects w poller = select w poller (w.fallback poller) := by
  unfold activeProjects getActiveProjects
  simp only [take_select]
  split
  · exact .inl rfl
  · by_cases hids : w.activeIds = []
    · rw [if_pos hids, if_pos rfl]
      exact .inr (.inr rfl)
    · rw [if_neg hids]
      split
      · exact .inr (.inr rfl)
      · exact .inr (.inl rfl)

/-- A limit cuts the list of the active projects. -/
theorem getActiveProjects_take (w : Listing) (poller : Poller) (limit : Nat) :
    getActiveProjects w poller limit = (activeProjects w poller).take limit := by
  have hfirst : (if w.activeIds = [] then [] else (select w poller (w.primary poller)).take limit) =
      (if w.activeIds = [] then [] else select w poller (w.primary poller)).take limit := by
    split
    · exact List.take_nil.symm
    · rfl
  unfold activeProjects getActiveProjects
  simp only [take_select, hfirst]
  split
  · exact List.take_nil.symm
  · generalize (if w.activeIds = [] then [] else select w poller (w.primary poller)) = rows
    by_cases hempty : rows = []
    · simp [hempty]
    · rw [if_neg hempty]
      split
      · next hzero =>
        -- only a limit of zero empties a list that is not empty
        have hlimit : limit = 0 := (List.take_eq_nil_iff.mp hzero).resolve_right hempty
        simp [hlimit]
      · rfl

theorem select_nodup (w : Listing) (poller : Poller) (clause : ProjectRow → Bool) :
    ((select w poller clause).map ProjectRow.projectId).Nodup := by
  have hperm := (List.perm_insertionSort (fun a b => poller.before a b = true) (w.rows.filter clause)).map
    ProjectRow.projectId
  exact hperm.nodup_iff.mpr (w.keyed.sublist (List.Sublist.map _ List.filter_sublist))

/-- A project is listed once. -/
theorem activeProjects_nodup (w : Listing) (poller : Poller) :
    ((activeProjects w poller).map ProjectRow.projectId).Nodup := by
  rcases activeProjects_eq w poller with h | h | h
  · rw [h]
    exact List.nodup_nil
  · exact h ▸ select_nodup w poller _
  · exact h ▸ select_nodup w poller _

/-- How many more ticks may start. -/
def freeSlots (cap : Nat) (s : Ticks) : Nat := cap - s.tasks.length

/-- A run of the project is running. -/
def Listing.running (w : Listing) (pid : String) : Bool := decide (pid ∈ w.projectsIn .running)

/-- What a poll asks for and finds free. -/
def window (cap : Nat) (s : Ticks) (poller : Poller) (w : Listing) : List ProjectRow :=
  ((activeProjects w poller).take (cap + s.tasks.length)).filter (fun r => decide (r.projectId ∉ s.locks))

def startedBy (cap : Nat) (s : Ticks) (poller : Poller) (w : Listing) : List String :=
  (pollAndExecute cap poller w s).starts.drop s.starts.length

theorem startedBy_eq (hs : Exclusive cap s) (poller : Poller) (w : Listing) :
    startedBy cap s poller w = ((window cap s poller w).take (freeSlots cap s)).map ProjectRow.projectId := by
  have hnodup : (((activeProjects w poller).take (cap + s.tasks.length)).map ProjectRow.projectId).Nodup :=
    (activeProjects_nodup w poller).sublist (List.Sublist.map _ (List.take_sublist ..))
  rw [startedBy, pollAndExecute, dispatchDetachedTicks, getActiveProjects_take, hs.slots,
    dispatch_starts hs _ hnodup, List.drop_left, window, freeSlots, List.filter_map, List.map_take]
  rfl

/-- No slot is wasted: where a free active project whose run is running is not started,
every free slot went to such a project. -/
def WorkConserving (cap : Nat) (s : Ticks) (poller : Poller) (w : Listing) : Prop :=
  (∃ r ∈ activeProjects w poller, w.running r.projectId = true ∧ r.projectId ∉ s.projects ∧ r.projectId ∉ s.locks ∧
    r.projectId ∉ startedBy cap s poller w) →
  freeSlots cap s ≤ ((startedBy cap s poller w).filter w.running).length

/-- What is taken of the first `k` that fit among the first `n`, by what stands before it. -/
theorem mem_take_filter_take {α : Type} [DecidableEq α] {f : α → Bool} {l : List α} {a : α} {n k : Nat} :
    a ∈ ((l.take n).filter f).take k ↔
      a ∈ l ∧ f a = true ∧ l.idxOf a < n ∧ (l.take (l.idxOf a)).countP f < k := by
  induction l generalizing n k with
  | nil => simp
  | cons b l ih =>
    cases n with
    | zero => simp
    | succ n =>
      rw [List.take_succ_cons, List.idxOf_cons]
      by_cases hsame : b = a
      · subst hsame
        cases hb : f b with
        | true => cases k <;> simp [hb]
        | false =>
          simp only [List.filter_cons, hb, Bool.false_eq_true, if_false, false_and, and_false, iff_false]
          exact fun h => Bool.false_ne_true (hb.symm.trans (List.of_mem_filter (List.mem_of_mem_take h)))
      · have hbeq : (b == a) = false := beq_false_of_ne hsame
        have hmem : a ∈ b :: l ↔ a ∈ l := by simp [Ne.symm hsame]
        rw [hbeq, cond_false, List.take_succ_cons, List.countP_cons, Nat.succ_lt_succ_iff, hmem]
        cases hb : f b with
        | true =>
          rw [List.filter_cons_of_pos hb]
          cases k with
          | zero => simp
          | succ k =>
            rw [List.take_succ_cons, List.mem_cons, or_iff_right (Ne.symm hsame), ih, if_pos rfl,
              Nat.add_lt_add_iff_right]
        | false =>
          rw [List.filter_cons_of_neg (by simp [hb]), ih, if_neg Bool.false_ne_true, Nat.add_zero]

/-- How many active projects stand before this one. -/
def place (poller : Poller) (w : Listing) (r : ProjectRow) : Nat := (activeProjects w poller).idxOf r

def Ticks.free (s : Ticks) (r : ProjectRow) : Bool := decide (r.projectId ∉ s.locks)

/-- How many of the first `n` active projects have a free tick lock. -/
def freeWithin (s : Ticks) (poller : Poller) (w : Listing) (n : Nat) : Nat :=
  ((activeProjects w poller).take n).countP s.free

/-- How many with a free tick lock stand before this one. -/
def ahead (s : Ticks) (poller : Poller) (w : Listing) (r : ProjectRow) : Nat := freeWithin s poller w (place poller w r)

/-- A project without a running run stands within the slots and the rows that are asked for, the other beyond
them. -/
def Displaces (cap : Nat) (s : Ticks) (poller : Poller) (w : Listing) (q r : ProjectRow) : Prop :=
  w.running q.projectId = false ∧ ahead s poller w q < freeSlots cap s ∧ place poller w q < cap + s.tasks.length ∧
    (freeSlots cap s ≤ ahead s poller w r ∨ cap + s.tasks.length ≤ place poller w r)

/-- No free project whose run is running is displaced by a free one without a running run; and one beyond the rows
that are asked for leaves as many free ones in them as there are slots. -/
def Roomy (cap : Nat) (s : Ticks) (poller : Poller) (w : Listing) : Prop :=
  ∀ r ∈ activeProjects w poller, s.free r = true → w.running r.projectId = true →
    (∀ q ∈ activeProjects w poller, s.free q = true → ¬ Displaces cap s poller w q r) ∧
    (cap + s.tasks.length ≤ place poller w r → freeSlots cap s ≤ freeWithin s poller w (cap + s.tasks.length))

theorem mem_picked {poller : Poller} {w : Listing} {r : ProjectRow} :
    r ∈ (window cap s poller w).take (freeSlots cap s) ↔
      r ∈ activeProjects w poller ∧ s.free r = true ∧ place poller w r < cap + s.tasks.length ∧
        ahead s poller w r < freeSlots cap s :=
  mem_take_filter_take

theorem window_length {poller : Poller} {w : Listing} :
    (window cap s poller w).length = freeWithin s poller w (cap + s.tasks.length) :=
  List.countP_eq_length_filter.symm

theorem mem_startedBy (hs : Exclusive cap s) {poller : Poller} {w : Listing} {r : ProjectRow}
    (hr : r ∈ activeProjects w poller) :
    r.projectId ∈ startedBy cap s poller w ↔ r ∈ (window cap s poller w).take (freeSlots cap s) := by
  rw [startedBy_eq hs]
  refine ⟨fun hin => ?_, List.mem_map_of_mem⟩
  obtain ⟨q, hq, he⟩ := List.mem_map.mp hin
  have hrow : q = r := List.inj_on_of_nodup_map (activeProjects_nodup w poller) (mem_picked.mp hq).1 hr he
  exact hrow ▸ hq

/-- Fewer running projects than slots were started where one that was started has no running run, or where fewer
were started at all. -/
theorem short_iff (hs : Exclusive cap s) (poller : Poller) (w : Listing) :
    ((startedBy cap s poller w).filter w.running).length < freeSlots cap s ↔
      (∃ q ∈ (window cap s poller w).take (freeSlots cap s), w.running q.projectId = false) ∨
        freeWithin s poller w (cap + s.tasks.length) < freeSlots cap s := by
  have hcount : ((startedBy cap s poller w).filter w.running).length =
      (((window cap s poller w).take (freeSlots cap s)).filter (fun r => w.running r.projectId)).length := by
    rw [startedBy_eq hs, List.filter_map, List.length_map]
    rfl
  rw [hcount, ← window_length]
  generalize hpicked : (window cap s poller w).take (freeSlots cap s) = picked
  have hlength : picked.length = min (freeSlots cap s) (window cap s poller w).length := by
    rw [← hpicked, List.length_take]
  have hle := List.length_filter_le (fun r : ProjectRow => w.running r.projectId) picked
  by_cases hall : ∀ q ∈ picked, w.running q.projectId = true
  · have hnone : ¬ ∃ q ∈ picked, w.running q.projectId = false :=
      fun ⟨q, hq, hstopped⟩ => Bool.false_ne_true (hstopped.symm.trans (hall q hq))
    rw [List.filter_eq_self.mpr hall, or_iff_right hnone]
    omega
  · have hless : (picked.filter (fun r => w.running r.projectId)).length ≠ picked.length :=
      fun h => hall (List.length_filter_eq_length_iff.mp h)
    have hsome : ∃ q ∈ picked, w.running q.projectId = false := by
      push Not at hall
      obtain ⟨q, hq, hstopped⟩ := hall
      exact ⟨q, hq, eq_false_of_ne_true hstopped⟩
    exact ⟨fun _ => .inl hsome, fun _ => by omega⟩

theorem workConserving_iff (hs : Exclusive cap s) (poller : Poller) (w : Listing) :
    WorkConserving cap s poller w ↔ Roomy cap s poller w := by
  unfold WorkConserving Roomy
  constructor
  · intro hfair r hr hfree hrunning
    have hlocked : r.projectId ∉ s.locks := of_decide_eq_true hfree
    have hidle : r.projectId ∉ s.projects := fun h => hlocked ((hs.held _).mpr (.inl h))
    have hleft (h : r ∉ (window cap s poller w).take (freeSlots cap s)) :
        ¬ ((startedBy cap s poller w).filter w.running).length < freeSlots cap s :=
      not_lt.mpr (hfair ⟨r, hr, hrunning, hidle, hlocked, fun hin => h ((mem_startedBy hs hr).mp hin)⟩)
    refine ⟨fun q hq hqfree hdisplaces => ?_, fun hbeyond => ?_⟩
    · obtain ⟨hstopped, hahead, hplace, hbehind⟩ := hdisplaces
      refine hleft (fun h => ?_) ((short_iff hs poller w).mpr
        (.inl ⟨q, mem_picked.mpr ⟨hq, hqfree, hplace, hahead⟩, hstopped⟩))
      obtain ⟨-, -, hasked, hslots⟩ := mem_picked.mp h
      rcases hbehind with hbehind | hbehind
      · exact absurd hslots (not_lt.mpr hbehind)
      · exact absurd hasked (not_lt.mpr hbehind)
    · by_contra hfew
      refine hleft (fun h => ?_) ((short_iff hs poller w).mpr (.inr (not_le.mp hfew)))
      exact absurd (mem_picked.mp h).2.2.1 (not_lt.mpr hbeyond)
  · rintro hroomy ⟨r, hr, hrunning, -, hlocked, hnot⟩
    have hfree : s.free r = true := decide_eq_true hlocked
    obtain ⟨hnone, henough⟩ := hroomy r hr hfree hrunning
    by_contra hshort
    rw [mem_startedBy hs hr, mem_picked] at hnot
    rcases (short_iff hs poller w).mp (not_le.mp hshort) with ⟨q, hq, hstopped⟩ | hfew
    · obtain ⟨hactive, hqfree, hplace, hahead⟩ := mem_picked.mp hq
      refine hnone q hactive hqfree ⟨hstopped, hahead, hplace, ?_⟩
      by_contra hneither
      rw [not_or, not_le, not_le] at hneither
      exact hnot ⟨hr, hfree, hneither.2, hneither.1⟩
    · have hplace : place poller w r < cap + s.tasks.length := not_le.mp (fun h => absurd hfew (not_lt.mpr (henough h)))
      -- it is asked for, so it is one of the few free rows and all of these are started
      have hslots : ahead s poller w r ≤ freeWithin s poller w (cap + s.tasks.length) :=
        (List.take_prefix_take_left (Nat.le_of_lt hplace)).sublist.countP_le
      exact hnot ⟨hr, hfree, hplace, lt_of_le_of_lt hslots hfew⟩

/-- Where no other code holds a tick lock, the first active projects are free or in flight. -/
theorem freeWithin_add (hs : Exclusive cap s) (hguests : s.guests = []) {poller : Poller} {w : Listing} {n : Nat}
    (hn : n ≤ (activeProjects w poller).length) : n ≤ freeWithin s poller w n + s.tasks.length := by
  generalize hrows : (activeProjects w poller).take n = rows
  have hlength : n = rows.length := by rw [← hrows, List.length_take, Nat.min_eq_left hn]
  have hfree : freeWithin s poller w n = rows.countP s.free := congrArg (List.countP s.free) hrows
  have hnodup : (rows.map ProjectRow.projectId).Nodup :=
    (activeProjects_nodup w poller).sublist (List.Sublist.map _ (hrows ▸ List.take_sublist ..))
  have hbusy : ((rows.filter (fun q => !s.free q)).map ProjectRow.projectId).length ≤ s.projects.length := by
    refine (List.subperm_of_subset (hnodup.sublist (List.Sublist.map _ List.filter_sublist)) ?_).length_le
    intro p hp
    obtain ⟨q, hq, rfl⟩ := List.mem_map.mp hp
    have hlocked : q.projectId ∈ s.locks := by simpa [Ticks.free] using (List.mem_filter.mp hq).2
    exact ((hs.held _).mp hlocked).resolve_right (hguests ▸ List.not_mem_nil)
  have htotal := List.length_eq_countP_add_countP s.free (l := rows)
  have hrest : rows.countP (fun q => decide ¬s.free q = true) = (rows.filter (fun q => !s.free q)).length := by
    rw [List.countP_eq_length_filter]
    exact congrArg List.length (List.filter_congr (fun q _ => by cases s.free q <;> rfl))
  rw [List.length_map, Ticks.projects, List.length_map] at hbusy
  omega

/-- Then a slot is wasted exactly where a free project without a running run is within the first free ones, as many
as there are slots, and one with a running run is not. -/
theorem roomy_iff (hs : Exclusive cap s) (hguests : s.guests = []) (poller : Poller) (w : Listing) :
    Roomy cap s poller w ↔ ∀ q ∈ activeProjects w poller, ∀ r ∈ activeProjects w poller, s.free q = true →
      s.free r = true → w.running q.projectId = false → w.running r.projectId = true →
      ahead s poller w q < freeSlots cap s → ahead s poller w r < freeSlots cap s := by
  have hasked (q : ProjectRow) (h : ahead s poller w q < freeSlots cap s) :
      place poller w q < cap + s.tasks.length := by
    have hplace : place poller w q ≤ (activeProjects w poller).length := List.idxOf_le_length
    have hfree := freeWithin_add hs hguests hplace
    unfold ahead place freeSlots at *
    omega
  constructor
  · intro h q hq r hr hqfree hfree hstopped hrunning hahead
    by_contra hbehind
    exact (h r hr hfree hrunning).1 q hq hqfree ⟨hstopped, hahead, hasked q hahead, .inl (not_lt.mp hbehind)⟩
  · intro h r hr hfree hrunning
    constructor
    · rintro q hq hqfree ⟨hstopped, hahead, -, hbehind⟩
      have hslots := h q hq r hr hqfree hfree hstopped hrunning hahead
      rcases hbehind with hbehind | hbehind
      · exact absurd hslots (not_lt.mpr hbehind)
      · exact absurd (hasked r hslots) (not_lt.mpr hbehind)
    · intro hbeyond
      have := freeWithin_add hs hguests (Nat.le_trans hbeyond List.idxOf_le_length)
      unfold freeSlots
      omega

/-- Over every run of polls, completions, errors and cancellations, with other code taking tick locks in between: the
ticks stay exclusive and within the cap. A poll wastes no slot exactly if no free project with a running run is
displaced by one without, or left out with too few free ones asked for. While no other code holds a tick lock, only
the former happens, and only among the first free ones. -/
theorem polls_share_slots (cap : Nat) (ops : List TickOp) :
    Exclusive cap (polled cap ops) ∧
    (∀ poller w, WorkConserving cap (polled cap ops) poller w ↔ Roomy cap (polled cap ops) poller w) ∧
    ((polled cap ops).guests = [] → ∀ poller w, WorkConserving cap (polled cap ops) poller w ↔
      ∀ q ∈ activeProjects w poller, ∀ r ∈ activeProjects w poller, (polled cap ops).free q = true →
        (polled cap ops).free r = true → w.running q.projectId = false → w.running r.projectId = true →
        ahead (polled cap ops) poller w q < freeSlots cap (polled cap ops) →
        ahead (polled cap ops) poller w r < freeSlots cap (polled cap ops)) := by
  have hs := polled_exclusive cap ops
  refine ⟨hs, workConserving_iff hs, fun hguests poller w => ?_⟩
  rw [workConserving_iff hs, roomy_iff hs hguests]

/-- Four projects parked at a checkpoint since long ago, and one with a running run. -/
def parkedAhead : Listing where
  listRuns := fun
    | .running => [⟨some "r", "dpe_default_v2"⟩]
    | .paused => ["a", "b", "c", "d"].map (fun p => ⟨some p, "dpe_default_v2"⟩)
    | _ => []
  ownedConfigs := ["dpe_default_v2"]
  rows := ["a", "b", "c", "d"].map (fun p => ⟨p, "dpe_default_v2", "running", some 0, none, none, none,
    some "2026-10-31"⟩) ++
    [⟨"r", "dpe_default_v2", "running", some 0, none, none, none, some "2026-11-06"⟩]
  briefs := []
  tasks := []
  keyed := by decide

/-- Every slot goes to a tick that only reports its pause. -/
theorem parked_take_every_slot :
    startedBy 4 (polled 4 []) .main parkedAhead = ["a", "b", "c", "d"] ∧
    ¬ WorkConserving 4 (polled 4 []) .main parkedAhead := by
  have hstarted : startedBy 4 (polled 4 []) .main parkedAhead = ["a", "b", "c", "d"] := by decide
  have hactive : ∃ r ∈ activeProjects parkedAhead .main, r.projectId = "r" := by decide
  have hrunning : parkedAhead.running "r" = true := by decide
  have hnone : (["a", "b", "c", "d"].filter parkedAhead.running).length = 0 := by decide
  refine ⟨hstarted, fun h => ?_⟩
  rw [WorkConserving, hstarted, hnone] at h
  obtain ⟨r, hr, hname⟩ := hactive
  have hslots := h ⟨r, hr, hname ▸ hrunning, List.not_mem_nil, List.not_mem_nil, hname ▸ by decide⟩
  exact absurd hslots (by decide)

end AItelier.Scheduler
