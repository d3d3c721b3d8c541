import AItelier.Render.SoleOwner

namespace AItelier.Render

open AItelier.Lib

variable {s : Harness} {id : Nat} {o : OwnerKey} {r : OwnerRow} {p : Phase}

/-- A request has its row and has not yet locked the effect. -/
def Harness.awaited (s : Harness) (o : OwnerKey) : Bool :=
  s.requests.any (fun e => decide (e.2 = .owned o ∨ e.2 = .locked o))

/-- No recovery call passes its checks on the row of a request that waits for its locks. -/
def careful (s : Harness) : Op → Bool
  | .checkReconcile o actor reason signal => !(mayReconcile s o actor reason signal && s.awaited o)
  | _ => true

/-- Some request has the render in hand under this row. -/
def InHand (s : Harness) (o : OwnerKey) : Prop :=
  ∃ id p, s.requests.get id = some p ∧ p.owner = some o ∧ p.inHand = true

/-- What careful runs keep: a row in hand is in the way, and a recovery call that has
passed its checks is about a row out of hand. -/
structure Owned (s : Harness) : Prop where
  held : ∀ r ∈ s.rows, InHand s r.key → r.holds = true
  past : ∀ o ∈ s.checked, ¬ InHand s o

theorem start_owned (pid : Nat) : Owned (.start pid) where
  held := fun _ h => absurd h List.not_mem_nil
  past := fun _ h => absurd h List.not_mem_nil

theorem Kept.unique {id' : Nat} {p' : Phase} (hs : Kept s) (h : s.requests.get id = some p) (ho : p.owner = some o)
    (h' : s.requests.get id' = some p') (ho' : p'.owner = some o) : id = id' := by
  obtain ⟨r, hr, hrkey, hrid⟩ := hs.taken id p o h ho
  obtain ⟨q, hq, hqkey, hqid⟩ := hs.taken id' p' o h' ho'
  have hsame := hs.same hr hq (hrkey.trans hqkey.symm)
  rw [← hrid, ← hqid, hsame]

theorem inHand_moved (hp : p.inHand = true → ∃ p', s.requests.get id = some p' ∧ p'.owner = p.owner ∧ p'.inHand = true)
    (h : InHand (s.phase id p) o) : InHand s o := by
  obtain ⟨j, p', hget, ho, hin⟩ := h
  rw [Harness.phase, Entries.get_set] at hget
  split at hget
  · cases hget
    obtain ⟨old, hold, hoowner, hoin⟩ := hp hin
    exact ⟨id, old, hold, hoowner.trans ho, hoin⟩
  · exact ⟨j, p', hget, ho, hin⟩

theorem moved_owned (ho : Owned s) (process effect : Option Nat)
    (hp : p.inHand = true → ∃ p', s.requests.get id = some p' ∧ p'.owner = p.owner ∧ p'.inHand = true) :
    Owned { s with requests := s.requests.set id p, processLock := process, effectLock := effect } where
  held := fun r hr h => ho.held r hr (inHand_moved hp h)
  past := fun o' hc h => ho.past o' hc (inHand_moved hp h)

theorem update_owned (hs : Owned s) {status : OwnerStatus} {f : OwnerRow → OwnerRow} (hkey : ∀ r, (f r).key = r.key)
    (h : (∀ r, r.status = status → (f r).holds = true) ∨ ¬ InHand s o) : Owned (s.update o status f) where
  held := by
    intro q hq hin
    obtain ⟨r, hr, rfl⟩ := mem_modifyWhere.mp hq
    split
    · next hmatch =>
      rw [if_pos hmatch, hkey] at hin
      obtain ⟨hro, hstatus⟩ := of_decide_eq_true hmatch
      rcases h with hholds | hout
      · exact hholds r hstatus
      · exact absurd (hro ▸ hin) hout
    · next hmatch =>
      rw [if_neg hmatch] at hin
      exact hs.held r hr hin
  past := hs.past

theorem poll_owned (hs : Kept s) (ho : Owned s) (id : Nat) (c : Claim) : Owned (poll s id c) := by
  have hleft : Owned (s.phase id .left) := moved_owned ho _ _ (fun h => by cases h)
  unfold poll
  split
  · split
    · exact hleft
    · exact ho
  · split
    · exact hleft
    · next hnew =>
      -- a row in hand afterwards is the new one, or was in hand before
      have hcases : ∀ o', InHand { s with
          rows := s.rows ++ [c.row (nextGeneration s.rows) s.pid id]
          requests := s.requests.set id (.owned ⟨c.ownerId, nextGeneration s.rows⟩) } o' →
          o'.ownerId = c.ownerId ∨ InHand s o' := by
        rintro o' ⟨j, p, hget, howner, hin⟩
        simp only [Entries.get_set] at hget
        split at hget
        · cases hget
          exact .inl (congrArg OwnerKey.ownerId (Option.some.inj howner)).symm
        · exact .inr ⟨j, p, hget, howner, hin⟩
      constructor
      case held =>
        intro r hr hin
        rcases List.mem_append.mp hr with hr | hr
        · rcases hcases _ hin with hsame | hin
          · exact absurd (List.mem_map.mpr ⟨r, hr, hsame⟩) hnew
          · exact ho.held r hr hin
        · rw [List.mem_singleton.mp hr]
          rfl
      case past =>
        intro o' hc hin
        rcases hcases _ hin with hsame | hin
        · obtain ⟨r, hr, hkey⟩ := hs.known o' hc
          exact hnew (List.mem_map.mpr ⟨r, hr, (congrArg OwnerKey.ownerId hkey).trans hsame⟩)
        · exact ho.past o' hc hin

theorem releaseRenderOwner_owned (hs : Owned s) (hout : ¬ InHand s o) (written : Bool) (now : Int) (reason : String) :
    Owned (releaseRenderOwner s o written now reason) := by
  unfold releaseRenderOwner
  split
  · exact update_owned hs (fun _ => rfl) (.inr hout)
  · exact hs

theorem over_outOfHand {process effect : Option Nat} (hs : Kept s) (h : s.requests.get id = some p)
    (ho : p.owner = some o) :
    ¬ InHand { s with requests := s.requests.set id (.over o), processLock := process, effectLock := effect } o := by
  rintro ⟨j, p', hget, ho', hin⟩
  simp only [Entries.get_set] at hget
  split at hget
  · cases hget
    cases hin
  · next hne => exact hne (hs.unique h ho hget ho')

/-- With the effect lock free, a row in hand belongs to a request that waits for its locks. -/
theorem awaited_of_inHand (hs : Kept s) (hfree : s.effectLock = none) (h : InHand s o) : s.awaited o = true := by
  obtain ⟨id, p, hget, howner, hin⟩ := h
  have hnot : p.holdsEffect ≠ true := by
    intro heffect
    have hlock := (hs.effect id).mpr (by rw [Harness.at, hget, Option.any_some, heffect])
    rw [hfree] at hlock
    cases hlock
  refine List.any_eq_true.mpr ⟨_, Entries.mem_of_get hget, decide_eq_true ?_⟩
  cases p with
  | owned o' => exact .inl (congrArg Phase.owned (Option.some.inj howner))
  | locked o' => exact .inr (congrArg Phase.locked (Option.some.inj howner))
  | ready o' => exact absurd rfl hnot
  | rendering o' => exact absurd rfl hnot
  | settled o' => exact absurd rfl hnot
  | _ => cases hin

/-- Every careful step keeps the rows of the requests at work in the way. -/
theorem next_owned (hs : Kept s) (ho : Owned s) {op : Op} (hop : careful s op = true) : Owned (next s op) := by
  cases op with
  | arrive id =>
    rw [next]
    split
    · exact moved_owned ho _ _ (fun h => by cases h)
    · exact ho
  | poll id c =>
    rw [next]
    split
    · exact poll_owned hs ho id c
    · exact ho
  | giveUp id =>
    rw [next]
    split
    · exact moved_owned ho _ _ (fun h => by cases h)
    · exact ho
  | takeProcessLock id =>
    rw [next]
    split
    · next o h _ => exact moved_owned ho _ _ (fun _ => ⟨_, h, rfl, rfl⟩)
    · exact ho
  | takeEffectLock id =>
    rw [next]
    split
    · next o h _ => exact moved_owned ho _ _ (fun _ => ⟨_, h, rfl, rfl⟩)
    · exact ho
  | failEffectLock id written now =>
    rw [next]
    split
    · next o h =>
      have hmoved : Owned { s with requests := s.requests.set id (.over o), processLock := none } :=
        moved_owned ho none s.effectLock (fun h => by cases h)
      exact releaseRenderOwner_owned hmoved (over_outOfHand hs h rfl) written now _
    · exact ho
  | begin id =>
    rw [next]
    split
    · next o h => exact moved_owned ho _ _ (fun _ => ⟨_, h, rfl, rfl⟩)
    · exact ho
  | skip id =>
    rw [next]
    split
    · next o h => exact moved_owned ho _ _ (fun _ => ⟨_, h, rfl, rfl⟩)
    · exact ho
  | finish id =>
    rw [next]
    split
    · next o h => exact moved_owned ho _ _ (fun _ => ⟨_, h, rfl, rfl⟩)
    · exact ho
  | dropEffectLock id =>
    rw [next]
    split
    · exact moved_owned ho _ _ (fun h => by cases h)
    · exact ho
  | dropProcessLock id =>
    rw [next]
    split
    · exact moved_owned ho _ _ (fun h => by cases h)
    · exact ho
  | release id written now reason =>
    rw [next]
    split
    · next o h =>
      have hmoved : Owned { s with requests := s.requests.set id (.over o) } :=
        moved_owned ho s.processLock s.effectLock (fun h => by cases h)
      exact releaseRenderOwner_owned hmoved (over_outOfHand hs h rfl) written now reason
    · exact ho
  | heartbeat o now =>
    exact update_owned ho (fun _ => rfl) (.inl (fun r h => by simp [OwnerRow.holds, h]))
  | markLost o now reason =>
    exact update_owned ho (fun _ => rfl) (.inl (fun r h => by simp [OwnerRow.holds]))
  | checkReconcile o actor reason signal =>
    rw [next]
    split
    · next h =>
      rw [careful, h, Bool.true_and, Bool.not_eq_true'] at hop
      have hfree : s.effectLock = none := by
        simp only [mayReconcile, Bool.and_eq_true, Option.isNone_iff_eq_none] at h
        exact h.2
      refine ⟨ho.held, fun o' ho' => ?_⟩
      rcases List.mem_cons.mp ho' with rfl | ho'
      · intro hin
        have hawaited : s.awaited o' = true := awaited_of_inHand hs hfree hin
        rw [hop] at hawaited
        cases hawaited
      · exact ho.past o' ho'
    · exact ho
  | settleReconcile o now actor reason =>
    rw [next]
    split
    · next hc =>
      have herased : Owned { s with checked := s.checked.erase o } :=
        ⟨ho.held, fun o' ho' => ho.past o' (List.mem_of_mem_erase ho')⟩
      exact update_owned herased (fun _ => rfl) (.inr (ho.past o hc))
    · exact ho
  | restart pid =>
    refine ⟨fun r _ hin => ?_, fun _ h => absurd h List.not_mem_nil⟩
    obtain ⟨j, p, hget, _, hin⟩ := hin
    simp only [next, Entries.get_map] at hget
    obtain ⟨old, _, rfl⟩ := Option.map_eq_some_iff.mp hget
    cases old <;> cases hin

theorem served_kept (pid : Nat) (ops : List Op) : Kept (served pid ops) :=
  @run_invariant _ _ Kept (fun _ _ => True) _ (fun _ op hs _ => next_kept hs op) _ _ (start_kept pid)
    (along_of (fun _ _ => trivial) _ _)

theorem served_owned {pid : Nat} {ops : List Op}
    (hops : Along (fun s op => careful s op = true) next (.start pid) ops) : Owned (served pid ops) := by
  have hboth : Kept (served pid ops) ∧ Owned (served pid ops) :=
    run_invariant (I := fun s => Kept s ∧ Owned s)
      (fun _ op hs hop => ⟨next_kept hs.1 op, next_owned hs.1 hs.2 hop⟩) ⟨start_kept pid, start_owned pid⟩ hops
  exact hboth.2

theorem Kept.sole {q : OwnerRow} (hs : Kept s) (hr : r ∈ s.rows) (hrholds : r.holds = true) (hq : q ∈ s.rows)
    (hqholds : q.holds = true) : r = q := by
  have hlen := hs.single
  rw [List.countP_eq_length_filter] at hlen
  have hrmem : r ∈ s.rows.filter OwnerRow.holds := List.mem_filter.mpr ⟨hr, hrholds⟩
  have hqmem : q ∈ s.rows.filter OwnerRow.holds := List.mem_filter.mpr ⟨hq, hqholds⟩
  obtain ⟨i, hi, rfl⟩ := List.mem_iff_getElem.mp hrmem
  obtain ⟨j, hj, rfl⟩ := List.mem_iff_getElem.mp hqmem
  have hij : i = j := by omega
  subst hij
  rfl

theorem Kept.found (hs : Kept s) (hr : r ∈ s.rows) (h : r.holds = true) : newestHolder s.rows = some r := by
  cases hfound : newestHolder s.rows with
  | none => exact absurd h (List.countP_eq_zero.mp (newestHolder_none.mp hfound) r hr)
  | some q =>
    obtain ⟨hq, hqholds⟩ := newestHolder_mem hfound
    rw [hs.sole hr h hq hqholds]

/-- The order of the owner table, whatever the recovery calls do: one row in the way,
growing generations, no row of a request that never owned the render, and one render body. -/
structure Orderly (s : Harness) : Prop where
  single : s.rows.countP OwnerRow.holds ≤ 1
  increasing : s.rows.Pairwise (fun a b => a.generation < b.generation)
  rowless : ∀ r ∈ s.rows, s.requests.get r.request ≠ some .queued ∧ s.requests.get r.request ≠ some .left
  alone : ∀ id id' o o', s.requests.get id = some (.rendering o) → s.requests.get id' = some (.rendering o') → id = id'

/-- A body runs under its own row, which is the one in the way; and a reconciled row is
of a request that is over. -/
structure OwnRow (s : Harness) : Prop where
  own : ∀ id o, s.requests.get id = some (.rendering o) →
    ∃ r, newestHolder s.rows = some r ∧ r.key = o ∧ r.request = id
  settled : ∀ r ∈ s.rows, r.status = .reconciled → s.at r.request Phase.inHand = false

theorem served_orderly (pid : Nat) (ops : List Op) : Orderly (served pid ops) := by
  have hs := served_kept pid ops
  constructor
  case single => exact hs.single
  case increasing => exact hs.increasing
  case rowless =>
    intro r hr
    obtain ⟨p, hp, hown⟩ := hs.owner r hr
    rw [hp]
    constructor
    · rintro ⟨⟩
      simp [Phase.owner] at hown
    · rintro ⟨⟩
      simp [Phase.owner] at hown
  case alone =>
    intro id id' o o' h h'
    have hlock := (hs.effect id).mpr (by rw [Harness.at, h]; rfl)
    have hlock' := (hs.effect id').mpr (by rw [Harness.at, h']; rfl)
    exact Option.some.inj (hlock.symm.trans hlock')

/-- In every run in which no recovery call passes its checks on the row of a request that
waits for its locks, a body runs under its own row and a reconciled row is over. -/
theorem render_owned {pid : Nat} {ops : List Op}
    (hops : Along (fun s op => careful s op = true) next (.start pid) ops) :
    Orderly (served pid ops) ∧ OwnRow (served pid ops) := by
  have hs := served_kept pid ops
  have ho := served_owned hops
  refine ⟨served_orderly pid ops, ?_, ?_⟩
  · intro id o hbody
    obtain ⟨r, hr, hkey, hrequest⟩ := hs.taken id _ o hbody rfl
    have hin : InHand (served pid ops) r.key := ⟨id, _, hbody, congrArg some hkey.symm, rfl⟩
    exact ⟨r, hs.found hr (ho.held r hr hin), hkey, hrequest⟩
  · intro r hr hreconciled
    obtain ⟨p, hp, hown⟩ := hs.owner r hr
    rw [Harness.at, hp, Option.any_some]
    rcases hown with rfl | hown
    · rfl
    · -- a row in hand is in the way, and a reconciled row is not
      cases hin : p.inHand with
      | false => rfl
      | true =>
        have hholds := ho.held r hr ⟨_, p, hp, hown, hin⟩
        simp [OwnerRow.holds, hreconciled] at hholds

/-- A render is marked lost while it runs and reconciled once it is over, and the next
request takes the render. -/
def recoveredRun : List Op :=
  [.arrive 1, .poll 1 ⟨"o1", "p", "r", "a", 0⟩, .takeProcessLock 1, .takeEffectLock 1, .begin 1,
    .markLost ⟨"o1", 1⟩ 5 "wedged", .finish 1, .dropEffectLock 1, .dropProcessLock 1,
    .checkReconcile ⟨"o1", 1⟩ "op" "over" (fun _ => .noProcess), .settleReconcile ⟨"o1", 1⟩ 6 "op" "over",
    .arrive 2, .poll 2 ⟨"o2", "p", "r", "b", 7⟩, .takeProcessLock 2, .takeEffectLock 2, .begin 2]

theorem recovered_owned : Orderly (served 7 recoveredRun) ∧ OwnRow (served 7 recoveredRun) :=
  render_owned (by decide)

/-- The row of a request that waits for its locks is marked lost and reconciled: its body
starts all the same, and meanwhile the next request owns the render. -/
def waitingRun : List Op :=
  [.arrive 1, .poll 1 ⟨"o1", "p", "r", "a", 0⟩, .markLost ⟨"o1", 1⟩ 5 "stuck",
    .checkReconcile ⟨"o1", 1⟩ "op" "stuck" (fun _ => .delivered), .settleReconcile ⟨"o1", 1⟩ 6 "op" "stuck",
    .takeProcessLock 1, .takeEffectLock 1, .begin 1, .arrive 2, .poll 2 ⟨"o2", "p", "r", "b", 7⟩]

theorem waiting_row_reconciled : ¬ OwnRow (served 7 waitingRun) := by
  intro h
  have hbody : (served 7 waitingRun).requests.get 1 = some (.rendering ⟨"o1", 1⟩) := by decide
  have hother : (newestHolder (served 7 waitingRun).rows).map OwnerRow.key = some ⟨"o2", 2⟩ := by decide
  obtain ⟨r, hr, hkey, _⟩ := h.own 1 ⟨"o1", 1⟩ hbody
  rw [hr, Option.map_some, hkey] at hother
  exact absurd hother (by decide)

end AItelier.Render
