import AItelier.Lib.Entries
import AItelier.Lib.Table
import Mathlib.Data.List.Sort

namespace AItelier.Scheduler

open AItelier.Lib

inductive StepStatus
  | pending | claimed | completed | failed
  deriving DecidableEq

/-- A row of `skillflow_steps`: one instance of a step of a run. -/
structure StepRow where
  id : Nat
  runId : String
  stepId : String
  status : StepStatus
  version : Nat
  claimedAt : Option String
  claimedBy : Option String
  lastError : Option String
  updatedAt : Option String
  deriving DecidableEq

def StepRow.key (r : StepRow) : String × String := (r.runId, r.stepId)

/-- The table, `id` its primary key. -/
structure Steps where
  rows : List StepRow
  keyed : (rows.map StepRow.id).Nodup

/-- The claimed rows, `ORDER BY id`. -/
def stale (t : List StepRow) : List StepRow :=
  (t.filter (fun r => decide (r.status = .claimed))).insertionSort (fun a b => a.id ≤ b.id)

/-- `newest`. -/
def newestClaims (stale : List StepRow) : Entries (String × String) Nat :=
  stale.foldl (fun newest r => newest.set r.key (max ((newest.get r.key).getD 0) r.id)) []

def SUPERSEDED_ERROR : String :=
  "superseded instance of this step, left claimed by a process that died; a newer instance is live"

def reopened (now : String) (r : StepRow) : StepRow :=
  { r with status := .pending, version := r.version + 1, claimedAt := none, claimedBy := none, updatedAt := some now }

def superseded (now : String) (r : StepRow) : StepRow :=
  { r with status := .failed, version := r.version + 1, claimedAt := none, claimedBy := none,
           lastError := some SUPERSEDED_ERROR, updatedAt := some now }

/-- One round of the loop over the claimed rows. -/
def recoverRow (now : String) (activeRuns : List String) (newest : Entries (String × String) Nat) (t : List StepRow)
    (row : StepRow) : List StepRow :=
  if row.runId ∈ activeRuns then t
  else if newest.get row.key = some row.id then modifyWhere (fun q => decide (q.id = row.id)) (reopened now) t
  else modifyWhere (fun q => decide (q.id = row.id)) (superseded now) t

/-- `recover_claims_on_startup`: `activeRuns` are the runs with an admitted operation once
the operations were reconciled, none where that failed. -/
def recoverClaimsOnStartup (now : String) (activeRuns : Option (List String)) (t : List StepRow) : List StepRow :=
  match activeRuns with
  | none => t
  | some runs => (stale t).foldl (recoverRow now runs (newestClaims (stale t))) t

/-- What the guard asks outside the tables: the owner probe, which knows an owner dead or
alive or neither, the node's `timeout_seconds` where there is a node, and the time so many
seconds ago. -/
structure Probe where
  ownerIsDead : String → Option Bool
  timeoutSeconds : String → Option Int
  threshold : Int → String

/-- One row of a result that is not ordered: `LIMIT 1`. -/
structure FirstRow where
  pick : List StepRow → Option StepRow
  found : ∀ l, l ≠ [] → (pick l).isSome
  among : ∀ l r, pick l = some r → r ∈ l

def claimsOf (t : List StepRow) (runId : String) : List StepRow :=
  t.filter (fun r => decide (r.runId = runId ∧ r.status = .claimed))

def StepRow.owner (r : StepRow) : String := r.claimedBy.getD ""

/-- `owner.startswith("tool-inline")`. -/
def StepRow.inline (r : StepRow) : Bool := "tool-inline".toList.isPrefixOf r.owner.toList

def Probe.window (probe : Probe) (stepId : String) : Int :=
  match probe.timeoutSeconds stepId with
  | some seconds => if 0 < seconds then seconds else 600
  | none => 600

/-- `claimed_at > ?`, which no missing time meets. -/
def StepRow.after (r : StepRow) (threshold : String) : Bool :=
  r.claimedAt.any (fun t => decide (threshold.toList < t.toList))

/-- `_has_unsettled_operation`. -/
def hasUnsettledOperation (ops : List String) (runId : String) : Bool := decide (runId ∈ ops)

/-- Whether some claim of the run is younger than the window of the step. -/
def withinWindow (probe : Probe) (t : List StepRow) (runId stepId : String) : Bool :=
  (claimsOf t runId).any (fun r => r.after (probe.threshold (probe.window stepId)))

/-- `_has_active_claim`. -/
def hasActiveClaim (probe : Probe) (first : FirstRow) (ops : List String) (t : List StepRow) (runId : String) : Bool :=
  if hasUnsettledOperation ops runId then true
  else
    match first.pick (claimsOf t runId) with
    | none => false
    | some row =>
      if row.inline then withinWindow probe t runId row.stepId
      else
        match probe.ownerIsDead row.owner with
        | some dead => !dead
        | none => withinWindow probe t runId row.stepId

end AItelier.Scheduler

namespace AItelier.Scheduler

open AItelier.Lib

variable {t : List StepRow} {r q : StepRow} {k : String × String} {n : Nat} {now : String} {runs : List String}

/-- The number is that of a row of the step, and of none before another. -/
structure Newest (t : List StepRow) (k : String × String) (n : Nat) : Prop where
  there : ∃ r ∈ t, r.key = k ∧ r.id = n
  last : ∀ r ∈ t, r.key = k → r.id ≤ n

theorem newestClaims_spec (l : List StepRow) (k : String × String) :
    ((newestClaims l).get k = none ∧ ∀ r ∈ l, r.key ≠ k) ∨ ∃ n, (newestClaims l).get k = some n ∧ Newest l k n := by
  induction l using List.reverseRecOn with
  | nil => exact .inl ⟨rfl, fun r hr => absurd hr List.not_mem_nil⟩
  | append_singleton l r ih =>
    have hset : newestClaims (l ++ [r]) = (newestClaims l).set r.key
        (max (((newestClaims l).get r.key).getD 0) r.id) := by
      rw [newestClaims, List.foldl_append]
      rfl
    have hmem : ∀ x, x ∈ l ++ [r] → x ∈ l ∨ x = r := by
      intro x hx
      rcases List.mem_append.mp hx with h | h
      · exact .inl h
      · exact .inr (List.mem_singleton.mp h)
    rw [hset, Entries.get_set]
    by_cases hk : r.key = k
    · subst hk
      right
      rw [if_pos rfl]
      rcases ih with ⟨hnone, hno⟩ | ⟨n, hsome, hn⟩
      · refine ⟨_, rfl, ⟨r, List.mem_append_right _ List.mem_cons_self, rfl, ?_⟩, ?_⟩
        · rw [hnone]
          simp
        · intro x hx hxk
          rcases hmem x hx with hx | rfl
          · exact absurd hxk (hno x hx)
          · exact Nat.le_max_right _ _
      · rw [hsome, Option.getD_some]
        refine ⟨_, rfl, ?_, ?_⟩
        · rcases Nat.le_total n r.id with hle | hle
          · exact ⟨r, List.mem_append_right _ List.mem_cons_self, rfl, (Nat.max_eq_right hle).symm⟩
          · obtain ⟨x, hx, hxk, hxn⟩ := hn.there
            exact ⟨x, List.mem_append_left _ hx, hxk, hxn.trans (Nat.max_eq_left hle).symm⟩
        · intro x hx hxk
          rcases hmem x hx with hx | rfl
          · exact (hn.last x hx hxk).trans (Nat.le_max_left _ _)
          · exact Nat.le_max_right _ _
    · rw [if_neg hk]
      rcases ih with ⟨hnone, hno⟩ | ⟨n, hsome, hn⟩
      · left
        refine ⟨hnone, fun x hx => ?_⟩
        rcases hmem x hx with hx | rfl
        · exact hno x hx
        · exact hk
      · right
        obtain ⟨x, hx, hxk, hxn⟩ := hn.there
        refine ⟨n, hsome, ⟨x, List.mem_append_left _ hx, hxk, hxn⟩, fun y hy hyk => ?_⟩
        rcases hmem y hy with hy | rfl
        · exact hn.last y hy hyk
        · exact absurd hyk hk

theorem mem_stale : r ∈ stale t ↔ r ∈ t ∧ r.status = .claimed := by
  rw [stale, List.mem_insertionSort, List.mem_filter, decide_eq_true_eq]

/-- A claimed row that is the newest claimed one of its step. -/
def NewestClaim (t : List StepRow) (r : StepRow) : Prop :=
  ∀ q ∈ t, q.status = .claimed → q.key = r.key → q.id ≤ r.id

theorem newest_iff (hr : r ∈ t) (hs : r.status = .claimed) :
    (newestClaims (stale t)).get r.key = some r.id ↔ NewestClaim t r := by
  have hmem := mem_stale.mpr ⟨hr, hs⟩
  rcases newestClaims_spec (stale t) r.key with ⟨_, hno⟩ | ⟨n, hsome, hn⟩
  · exact absurd rfl (hno r hmem)
  · rw [hsome, Option.some.injEq]
    constructor
    · rintro rfl q hq hqs hqk
      exact hn.last q (mem_stale.mpr ⟨hq, hqs⟩) hqk
    · intro h
      obtain ⟨x, hx, hxk, hxn⟩ := hn.there
      have hle := h x (mem_stale.mp hx).1 (mem_stale.mp hx).2 hxk
      have hge := hn.last r hmem rfl
      omega

theorem exists_newest (hr : r ∈ t) (hs : r.status = .claimed) :
    ∃ q ∈ t, q.status = .claimed ∧ q.key = r.key ∧ NewestClaim t q := by
  rcases newestClaims_spec (stale t) r.key with ⟨_, hno⟩ | ⟨n, hsome, hn⟩
  · exact absurd rfl (hno r (mem_stale.mpr ⟨hr, hs⟩))
  · obtain ⟨q, hq, hqk, hqn⟩ := hn.there
    obtain ⟨hqt, hqs⟩ := mem_stale.mp hq
    exact ⟨q, hqt, hqs, hqk, (newest_iff hqt hqs).mp (by rw [hqk, hqn]; exact hsome)⟩

/-- The row as the recovery leaves it. -/
def recovered (now : String) (runs : List String) (t : List StepRow) (r : StepRow) : StepRow :=
  if r.status = .claimed ∧ r.runId ∉ runs then
    if (newestClaims (stale t)).get r.key = some r.id then reopened now r else superseded now r
  else r

theorem recovered_id (now : String) (runs : List String) (t : List StepRow) (r : StepRow) :
    (recovered now runs t r).id = r.id := by
  rw [recovered]
  split
  · split <;> rfl
  · rfl

theorem recovered_key (now : String) (runs : List String) (t : List StepRow) (r : StepRow) :
    (recovered now runs t r).key = r.key := by
  rw [recovered]
  split
  · split <;> rfl
  · rfl

/-- What the round of `row` writes to a row. -/
def rewritten (now : String) (runs : List String) (newest : Entries (String × String) Nat) (row q : StepRow) :
    StepRow :=
  if row.runId ∈ runs then q
  else if newest.get row.key = some row.id then reopened now q
  else superseded now q

theorem rewritten_id (now : String) (runs : List String) (newest : Entries (String × String) Nat) (row q : StepRow) :
    (rewritten now runs newest row q).id = q.id := by
  rw [rewritten]
  split
  · rfl
  · split <;> rfl

theorem recoverRow_eq (now : String) (runs : List String) (newest : Entries (String × String) Nat) (t : List StepRow)
    (row : StepRow) :
    recoverRow now runs newest t row =
      modifyWhere (fun q => decide (q.id = row.id)) (rewritten now runs newest row) t := by
  rw [recoverRow]
  split
  · next hruns =>
    refine (List.map_id t).symm.trans (List.map_congr_left (fun q _ => ?_))
    rw [rewritten, if_pos hruns, ite_self]
    rfl
  · next hruns =>
    split
    · next hnewest =>
      apply List.map_congr_left
      intro q _
      rw [rewritten, if_neg hruns, if_pos hnewest]
    · next hnewest =>
      apply List.map_congr_left
      intro q _
      rw [rewritten, if_neg hruns, if_neg hnewest]

/-- The loop rewrites each row once. -/
theorem recover_eq (now : String) (runs : List String) (steps : Steps) :
    recoverClaimsOnStartup now (some runs) steps.rows = steps.rows.map (recovered now runs steps.rows) := by
  have hnodup : ((stale steps.rows).map StepRow.id).Nodup := by
    have hperm := List.perm_insertionSort (fun a b : StepRow => a.id ≤ b.id)
      (steps.rows.filter (fun r => decide (r.status = .claimed)))
    exact (hperm.map StepRow.id).nodup_iff.mpr (steps.keyed.sublist (List.filter_sublist.map _))
  have hstep : recoverRow now runs (newestClaims (stale steps.rows)) = fun u r =>
      modifyWhere (fun q => decide (q.id = r.id)) (rewritten now runs (newestClaims (stale steps.rows)) r) u := by
    funext u r
    exact recoverRow_eq now runs _ u r
  rw [recoverClaimsOnStartup, hstep]
  rw [foldl_modifyWhere (rewritten_id now runs _) hnodup]
  apply List.map_congr_left
  intro q hq
  by_cases hs : q.status = .claimed
  · rw [lookup_of_mem hnodup (mem_stale.mpr ⟨hq, hs⟩), Option.elim_some, recovered]
    by_cases hruns : q.runId ∈ runs
    · rw [if_neg (fun h => h.2 hruns), rewritten, if_pos hruns]
    · rw [if_pos ⟨hs, hruns⟩, rewritten, if_neg hruns]
  · have hnone : lookup StepRow.id (stale steps.rows) q.id = none := by
      rw [lookup_eq_none]
      intro x hx hid
      obtain ⟨hxt, hxs⟩ := mem_stale.mp hx
      have hsame := List.inj_on_of_nodup_map steps.keyed hxt hq hid
      exact hs (hsame ▸ hxs)
    rw [hnone, Option.elim_none, recovered, if_neg (fun h => hs h.1)]

theorem mem_recover {steps : Steps} :
    q ∈ recoverClaimsOnStartup now (some runs) steps.rows ↔ ∃ r ∈ steps.rows, recovered now runs steps.rows r = q := by
  rw [recover_eq, List.mem_map]

theorem recovered_kept (h : ¬(r.status = .claimed ∧ r.runId ∉ runs)) : recovered now runs t r = r := by
  rw [recovered, if_neg h]

theorem recovered_newest (hr : r ∈ t) (hs : r.status = .claimed) (hruns : r.runId ∉ runs) (h : NewestClaim t r) :
    recovered now runs t r = reopened now r := by
  rw [recovered, if_pos ⟨hs, hruns⟩, if_pos ((newest_iff hr hs).mpr h)]

theorem recovered_older (hr : r ∈ t) (hs : r.status = .claimed) (hruns : r.runId ∉ runs) (h : ¬NewestClaim t r) :
    recovered now runs t r = superseded now r := by
  rw [recovered, if_pos ⟨hs, hruns⟩, if_neg (fun he => h ((newest_iff hr hs).mp he))]

/-- Of two rows with one number there is only one. -/
theorem row_of_id {steps : Steps} (hr : r ∈ steps.rows) (hq : q ∈ recoverClaimsOnStartup now (some runs) steps.rows)
    (hid : q.id = r.id) : q = recovered now runs steps.rows r := by
  obtain ⟨x, hx, rfl⟩ := mem_recover.mp hq
  rw [recovered_id] at hid
  rw [List.inj_on_of_nodup_map steps.keyed hx hr hid]

/-- How many instances of the step may be claimed. -/
def pendingCount (t : List StepRow) (k : String × String) : Nat :=
  t.countP (fun r => decide (r.key = k ∧ r.status = .pending))

/-- What a recovery keeps: the rows of a run with an admitted operation; it reopens the
newest instance of a step alone, closes every older claimed one, and makes no second
pending instance. -/
structure Recovered (runs : List String) (t t' : List StepRow) : Prop where
  admitted : t'.filter (fun r => decide (r.runId ∈ runs)) = t.filter (fun r => decide (r.runId ∈ runs))
  reopens : ∀ r ∈ t, ∀ q ∈ t', q.id = r.id → r.status = .claimed → q.status = .pending →
    ∀ w ∈ t, w.key = r.key → w.id ≤ r.id
  closes : ∀ r ∈ t, r.status = .claimed → r.runId ∉ runs → (∃ w ∈ t, w.key = r.key ∧ r.id < w.id) →
    ∃ q ∈ t', q.id = r.id ∧ q.status = .failed
  single : ∀ k, pendingCount t k ≤ 1 → pendingCount t' k ≤ 1

/-- Of a step that is left claimed outside the admitted runs, the newest instance is a
claimed one, and none or several wait. -/
def LiveClaims (runs : List String) (t : List StepRow) : Prop :=
  ∀ r ∈ t, r.status = .claimed → r.runId ∉ runs →
    (∃ q ∈ t, q.key = r.key ∧ q.status = .claimed ∧ ∀ w ∈ t, w.key = r.key → w.id ≤ q.id) ∧
      pendingCount t r.key ≠ 1

theorem filter_recover (steps : Steps) (now : String) (runs : List String) :
    (recoverClaimsOnStartup now (some runs) steps.rows).filter (fun r => decide (r.runId ∈ runs)) =
      steps.rows.filter (fun r => decide (r.runId ∈ runs)) := by
  have hrun : ∀ r, (recovered now runs steps.rows r).runId = r.runId :=
    fun r => congrArg Prod.fst (recovered_key now runs steps.rows r)
  rw [recover_eq, List.filter_map]
  have hcomp : (fun r : StepRow => decide (r.runId ∈ runs)) ∘ recovered now runs steps.rows =
      fun r => decide (r.runId ∈ runs) := by
    funext r
    rw [Function.comp, hrun]
  rw [hcomp]
  refine (List.map_congr_left (fun r hr => ?_)).trans (List.map_id _)
  have hruns := of_decide_eq_true (List.mem_filter.mp hr).2
  exact recovered_kept (fun h => h.2 hruns)

theorem recovered_pending (hr : r ∈ t) : (recovered now runs t r).status = .pending ↔
    r.status = .pending ∨ (r.status = .claimed ∧ r.runId ∉ runs ∧ NewestClaim t r) := by
  by_cases hs : r.status = .claimed
  · by_cases hruns : r.runId ∈ runs
    · rw [recovered_kept (fun h => h.2 hruns), hs]
      simp [hruns]
    · by_cases hn : NewestClaim t r
      · rw [recovered_newest hr hs hruns hn]
        simp [reopened, hs, hruns, hn]
      · rw [recovered_older hr hs hruns hn]
        simp [superseded, hs, hn]
  · rw [recovered_kept (fun h => hs h.1)]
    simp [hs]

/-- The rows that are reopened of a step. -/
def reopensAt (runs : List String) (t : List StepRow) (k : String × String) (r : StepRow) : Bool :=
  decide (r.key = k ∧ r.status = .claimed ∧ r.runId ∉ runs ∧ (newestClaims (stale t)).get r.key = some r.id)

theorem reopensAt_iff (hr : r ∈ t) :
    reopensAt runs t k r = true ↔ r.key = k ∧ r.status = .claimed ∧ r.runId ∉ runs ∧ NewestClaim t r := by
  rw [reopensAt, decide_eq_true_eq]
  refine and_congr_right (fun _ => and_congr_right (fun hs => and_congr_right (fun _ => newest_iff hr hs)))

theorem pendingCount_recover (steps : Steps) (now : String) (runs : List String) (k : String × String) :
    pendingCount (recoverClaimsOnStartup now (some runs) steps.rows) k =
      pendingCount steps.rows k + steps.rows.countP (reopensAt runs steps.rows k) := by
  rw [pendingCount, recover_eq, List.countP_map, pendingCount, ← countP_either]
  · apply List.countP_congr
    intro r hr
    rw [Function.comp, decide_eq_true_eq, recovered_key, recovered_pending hr, Bool.or_eq_true, decide_eq_true_eq,
      reopensAt_iff hr]
    tauto
  · intro r hr hp
    rw [decide_eq_true_eq] at hp
    rw [Bool.eq_false_iff, ne_eq, reopensAt_iff hr]
    intro h
    rw [h.2.1] at hp
    exact absurd hp.2 (by decide)

/-- At most one instance of a step is reopened, and one is where a claim was left. -/
theorem reopens_one {steps : Steps} (hr : r ∈ steps.rows) (hs : r.status = .claimed) (hruns : r.runId ∉ runs) :
    steps.rows.countP (reopensAt runs steps.rows r.key) = 1 := by
  obtain ⟨q, hq, hqs, hqk, hqn⟩ := exists_newest hr hs
  have hqruns : q.runId ∉ runs := by
    rw [show q.runId = r.runId from congrArg Prod.fst hqk]
    exact hruns
  apply countP_only (List.Nodup.of_map _ steps.keyed) hq ((reopensAt_iff hq).mpr ⟨hqk, hqs, hqruns, hqn⟩)
  intro w hw hreopens
  obtain ⟨hwk, hws, _, hwn⟩ := (reopensAt_iff hw).mp hreopens
  have hle := hwn q hq hqs (hqk.trans hwk.symm)
  have hge := hqn w hw hws (hwk.trans hqk.symm)
  exact List.inj_on_of_nodup_map steps.keyed hw hq (Nat.le_antisymm hge hle)

theorem reopens_none (h : ∀ r ∈ t, r.key = k → r.status = .claimed → r.runId ∈ runs) :
    t.countP (reopensAt runs t k) = 0 := by
  rw [List.countP_eq_zero]
  intro r hr hreopens
  obtain ⟨hrk, hrs, hruns, _⟩ := (reopensAt_iff hr).mp hreopens
  exact hruns (h r hr hrk hrs)

/-- The recovery does what it is for exactly on tables whose claims are live. -/
theorem recovered_iff (steps : Steps) (now : String) (runs : List String) :
    Recovered runs steps.rows (recoverClaimsOnStartup now (some runs) steps.rows) ↔ LiveClaims runs steps.rows := by
  constructor
  · intro h r hr hs hruns
    obtain ⟨q, hq, hqs, hqk, hqn⟩ := exists_newest hr hs
    have hqruns : q.runId ∉ runs := by
      rw [show q.runId = r.runId from congrArg Prod.fst hqk]
      exact hruns
    refine ⟨⟨q, hq, hqk, hqs, ?_⟩, ?_⟩
    · intro w hw hwk
      refine h.reopens q hq (recovered now runs steps.rows q) (mem_recover.mpr ⟨q, hq, rfl⟩) (recovered_id ..) hqs ?_
        w hw (hwk.trans hqk.symm)
      rw [recovered_newest hq hqs hqruns hqn]
      rfl
    · intro hone
      have htwo := h.single r.key (Nat.le_of_eq hone)
      rw [pendingCount_recover, reopens_one hr hs hruns, hone] at htwo
      omega
  · intro h
    refine ⟨filter_recover steps now runs, ?_, ?_, ?_⟩
    · intro r hr q hq hid hs hpending w hw hwk
      rw [row_of_id hr hq hid, recovered_pending hr, hs] at hpending
      obtain ⟨_, hruns, hn⟩ := hpending.resolve_left (by decide)
      obtain ⟨⟨x, hx, hxk, hxs, hlast⟩, _⟩ := h r hr hs hruns
      exact (hlast w hw hwk).trans (hn x hx hxs hxk)
    · rintro r hr hs hruns ⟨w, hw, hwk, hlt⟩
      refine ⟨_, mem_recover.mpr ⟨r, hr, rfl⟩, recovered_id .., ?_⟩
      obtain ⟨⟨x, hx, hxk, hxs, hlast⟩, _⟩ := h r hr hs hruns
      have holder : ¬NewestClaim steps.rows r := by
        intro hn
        have hle := hn x hx hxs hxk
        have hge := hlast w hw hwk
        omega
      rw [recovered_older hr hs hruns holder]
      rfl
    · intro k hk
      rw [pendingCount_recover]
      by_cases hleft : ∀ r ∈ steps.rows, r.key = k → r.status = .claimed → r.runId ∈ runs
      · rw [reopens_none hleft]
        exact hk
      · push Not at hleft
        obtain ⟨r, hr, hrk, hs, hruns⟩ := hleft
        subst hrk
        have hne := (h r hr hs hruns).2
        rw [reopens_one hr hs hruns]
        omega

/-- The worker the claim names is alive: an inline tool names none but the server. -/
def StepRow.live (probe : Probe) (r : StepRow) : Prop :=
  r.inline = false ∧ probe.ownerIsDead r.owner = some false

/-- A run that somebody works on, or that has an admitted operation, is guarded. -/
def Guarded (probe : Probe) (first : FirstRow) (ops : List String) (t : List StepRow) (runId : String) : Prop :=
  (runId ∈ ops ∨ ∃ r ∈ claimsOf t runId, r.live probe) → hasActiveClaim probe first ops t runId = true

/-- No claim of the run has a dead owner, and beside one whose owner cannot be asked there is a claim that is
younger than the window of its step. -/
def NoneMasks (probe : Probe) (t : List StepRow) (runId : String) : Prop :=
  ∀ row ∈ t, row.runId = runId → row.status = .claimed →
    (row.inline = false → probe.ownerIsDead row.owner ≠ some true) ∧
    (row.inline = true ∨ probe.ownerIsDead row.owner = none → ∃ q ∈ t, q.runId = runId ∧ q.status = .claimed ∧
      q.after (probe.threshold (probe.window row.stepId)) = true)

/-- Wherever somebody works on a run, none of its claims masks that. -/
def Unmasked (probe : Probe) (ops : List String) (t : List StepRow) : Prop :=
  ∀ r ∈ t, r.status = .claimed → r.live probe → r.runId ∉ ops → NoneMasks probe t r.runId

theorem mem_claimsOf {runId : String} : r ∈ claimsOf t runId ↔ r ∈ t ∧ r.runId = runId ∧ r.status = .claimed := by
  rw [claimsOf, List.mem_filter, decide_eq_true_eq]

/-- The row is read first wherever it is one of them. -/
def readFirst (row : StepRow) : FirstRow where
  pick := fun l => if row ∈ l then some row else l.head?
  found := by
    intro l hl
    split
    · rfl
    · rw [List.isSome_head?]
      simpa using hl
  among := by
    intro l r h
    split at h
    · next hrow =>
      cases h
      exact hrow
    · exact List.mem_of_mem_head? h

theorem hasActiveClaim_of_first {probe : Probe} {first : FirstRow} {ops : List String} {runId : String} {row : StepRow}
    (hops : runId ∉ ops) (hrow : first.pick (claimsOf t runId) = some row) :
    hasActiveClaim probe first ops t runId = true ↔
      (row.inline = false → probe.ownerIsDead row.owner ≠ some true) ∧
      (row.inline = true ∨ probe.ownerIsDead row.owner = none → withinWindow probe t runId row.stepId = true) := by
  have hunsettled : hasUnsettledOperation ops runId = false := decide_eq_false hops
  rw [hasActiveClaim, hunsettled, if_neg Bool.false_ne_true, hrow]
  dsimp only
  cases hinline : row.inline with
  | true => simp
  | false =>
    cases hdead : probe.ownerIsDead row.owner with
    | none => simp
    | some dead => cases dead <;> simp

theorem withinWindow_iff {probe : Probe} {runId stepId : String} :
    withinWindow probe t runId stepId = true ↔ ∃ q ∈ t, q.runId = runId ∧ q.status = .claimed ∧
      q.after (probe.threshold (probe.window stepId)) = true := by
  simp only [withinWindow, List.any_eq_true, mem_claimsOf, and_assoc]

/-- Whichever claim is read first, the guard sees the workers exactly where no claim masks them. -/
theorem guarded_iff (probe : Probe) (ops : List String) (t : List StepRow) :
    (∀ first runId, Guarded probe first ops t runId) ↔ Unmasked probe ops t := by
  constructor
  · intro h r hr hclaimed hlive hops row hrow hrun hrowClaimed
    have hin : row ∈ claimsOf t r.runId := mem_claimsOf.mpr ⟨hrow, hrun, hrowClaimed⟩
    have hguarded := h (readFirst row) r.runId (.inr ⟨r, mem_claimsOf.mpr ⟨hr, rfl, hclaimed⟩, hlive⟩)
    rwa [hasActiveClaim_of_first hops (if_pos hin), withinWindow_iff] at hguarded
  · intro h first runId hworked
    by_cases hops : runId ∈ ops
    · rw [hasActiveClaim, hasUnsettledOperation, decide_eq_true hops, if_pos rfl]
    obtain ⟨r, hr, hlive⟩ := hworked.resolve_left hops
    obtain ⟨row, hrow⟩ := Option.isSome_iff_exists.mp (first.found _ (List.ne_nil_of_mem hr))
    obtain ⟨hrt, rfl, hclaimed⟩ := mem_claimsOf.mp hr
    obtain ⟨hrowt, hrun, hrowClaimed⟩ := mem_claimsOf.mp (first.among _ _ hrow)
    rw [hasActiveClaim_of_first hops hrow, withinWindow_iff]
    exact h r hrt hclaimed hlive hops row hrowt hrun hrowClaimed

/-- When the recovery at startup makes no second claimable instance, and the guard, whichever claim it reads, keeps
every tick out of a run that somebody works on. -/
theorem one_claimable_instance (steps : Steps) (now : String) (ops : List String) (probe : Probe) :
    (Recovered ops steps.rows (recoverClaimsOnStartup now (some ops) steps.rows) ∧
        ∀ first runId, Guarded probe first ops steps.rows runId) ↔
      LiveClaims ops steps.rows ∧ Unmasked probe ops steps.rows :=
  and_congr (recovered_iff steps now ops) (guarded_iff probe ops steps.rows)

def claimOf (id : Nat) (stepId owner : String) : StepRow :=
  ⟨id, "r9", stepId, .claimed, 1, some "2026-08-27T01:23:10Z", some owner, none, none⟩

/-- An instance that a dead process left claimed, and a newer one that was completed. -/
def finishedSteps : Steps :=
  ⟨[claimOf 1504 "5_vision_human" "host:7",
    { claimOf 1564 "5_vision_human" "host:7" with status := .completed, claimedBy := none }], by decide⟩

/-- A claim of a process that died, and one of a process that works. -/
def workedSteps : Steps := ⟨[claimOf 1 "2_draft" "host:7", claimOf 2 "2_review" "host:8"], by decide⟩

def hostProbe : Probe where
  ownerIsDead := fun owner => if owner = "host:7" then some true else if owner = "host:8" then some false else none
  timeoutSeconds := fun _ => none
  threshold := fun _ => "2026-08-27T01:13:10Z"

/-- The rows in the order of the table. -/
def tableOrder : FirstRow where
  pick := List.head?
  found := by
    intro l hl
    cases l with
    | nil => exact absurd rfl hl
    | cons r l => rfl
  among := fun _ _ h => List.mem_of_mem_head? h

/-- An old instance is reopened beside the completed one; and a dead claim that is read
first lets a tick into a run that another process works on. -/
theorem old_instance_reopened :
    ¬Recovered [] finishedSteps.rows
        (recoverClaimsOnStartup "2026-08-27T02:00:00Z" (some []) finishedSteps.rows) ∧
      ¬Guarded hostProbe tableOrder [] workedSteps.rows "r9" := by
  constructor
  · rw [recovered_iff]
    intro h
    obtain ⟨q, hq, hqk, hqs, hlast⟩ := (h (claimOf 1504 "5_vision_human" "host:7") List.mem_cons_self rfl
      List.not_mem_nil).1
    have hle := hlast _ (List.mem_cons_of_mem _ List.mem_cons_self) rfl
    simp only [finishedSteps, List.mem_cons, List.not_mem_nil, or_false] at hq
    rcases hq with rfl | rfl
    · exact absurd hle (by decide)
    · exact absurd hqs (by decide)
  · intro h
    have hlive : (claimOf 2 "2_review" "host:8").live hostProbe := ⟨by decide, by decide⟩
    have hguarded := h (.inr ⟨claimOf 2 "2_review" "host:8", by decide, hlive⟩)
    exact absurd hguarded (by decide)

theorem recover_nothing (h : ∀ r ∈ t, r.status = .claimed → r.runId ∈ runs) :
    recoverClaimsOnStartup now (some runs) t = t := by
  have hloop : ∀ l : List StepRow, (∀ r ∈ l, r.runId ∈ runs) →
      l.foldl (recoverRow now runs (newestClaims (stale t))) t = t := by
    intro l hl
    induction l with
    | nil => rfl
    | cons r l ih =>
      rw [List.foldl_cons, recoverRow, if_pos (hl r List.mem_cons_self)]
      exact ih (fun x hx => hl x (List.mem_cons_of_mem r hx))
  apply hloop
  intro r hr
  obtain ⟨hrt, hclaimed⟩ := mem_stale.mp hr
  exact h r hrt hclaimed

/-- Only the runs with an admitted operation keep their claims. -/
theorem claimed_admitted {steps : Steps} (hq : q ∈ recoverClaimsOnStartup now (some runs) steps.rows)
    (hclaimed : q.status = .claimed) : q.runId ∈ runs := by
  obtain ⟨r, hr, rfl⟩ := mem_recover.mp hq
  by_cases hopen : r.status = .claimed ∧ r.runId ∉ runs
  · rw [recovered, if_pos hopen] at hclaimed
    split at hclaimed
    · cases hclaimed
    · cases hclaimed
  · rw [recovered_kept hopen] at hclaimed ⊢
    by_contra hout
    exact hopen ⟨hclaimed, hout⟩

/-- However often the process starts again, the table stays as the first recovery left it, as
long as no operation that was admitted then is settled. -/
theorem recovery_repeats (steps : Steps) (now : String) (runs : List String) (later : List (String × List String))
    (hlater : ∀ start ∈ later, runs ⊆ start.2) :
    later.foldl (fun t start => recoverClaimsOnStartup start.1 (some start.2) t)
      (recoverClaimsOnStartup now (some runs) steps.rows) = recoverClaimsOnStartup now (some runs) steps.rows := by
  induction later with
  | nil => rfl
  | cons start later ih =>
    have hsub := hlater start List.mem_cons_self
    have hone : recoverClaimsOnStartup start.1 (some start.2) (recoverClaimsOnStartup now (some runs) steps.rows) =
        recoverClaimsOnStartup now (some runs) steps.rows :=
      recover_nothing (fun q hq hclaimed => hsub (claimed_admitted hq hclaimed))
    rw [List.foldl_cons, hone]
    exact ih (fun x hx => hlater x (List.mem_cons_of_mem start hx))

/-- Claims of a run with an admitted operation, and two of a step of a run that has none. -/
def admittedSteps : Steps :=
  ⟨workedSteps.rows ++ [{ claimOf 3 "1_plan" "host:7" with runId := "r8" },
    { claimOf 4 "1_plan" "host:7" with runId := "r8" }],
    by decide⟩

theorem recovery_repeats_admitted :
    (recoverClaimsOnStartup "2026-08-27T02:00:00Z" (some ["r9"]) admittedSteps.rows).map StepRow.status =
        [.claimed, .claimed, .failed, .pending] ∧
      [("2026-08-27T03:00:00Z", ["r9"]), ("2026-08-27T04:00:00Z", ["r8", "r9"])].foldl
          (fun t start => recoverClaimsOnStartup start.1 (some start.2) t)
          (recoverClaimsOnStartup "2026-08-27T02:00:00Z" (some ["r9"]) admittedSteps.rows) =
        recoverClaimsOnStartup "2026-08-27T02:00:00Z" (some ["r9"]) admittedSteps.rows :=
  ⟨by decide, recovery_repeats admittedSteps _ ["r9"] _ (by simp)⟩

end AItelier.Scheduler
