import AItelier.Proofs.Closure
import AItelier.State.Frontier

namespace AItelier.State

open AItelier.Lib AItelier.Ledger

variable {db : DB} {host : Host} {k : NodeId} {n : Node} {a : Attempt}

section Scope

/-- The receipt rests on evidence of its own attempt, about its own artifact. -/
def ReceiptScoped (db : DB) (r : Acceptance) : Prop :=
  ∀ id ∈ r.evidenceIds, ∃ e, lookup Evidence.evidenceId db.evidence id = some e ∧
    e.attemptId = r.attemptId ∧ e.verdict = .pass ∧ e.artifactRef = r.artifactRef

theorem receiptScoped_of_scoped (hs : Scoped (ledger db)) {r : Acceptance} (hr : r ∈ db.acceptances) :
    ReceiptScoped db r := by
  intro id hid
  obtain ⟨e, he, rfl, h1, h2, h3⟩ := hs.receipts r hr id hid
  have hd : (db.evidence.map Evidence.evidenceId).Nodup := hs.distinct
  exact ⟨e, lookup_of_mem hd he, h1, h2, h3⟩

/-- Where no reconcile pins an artifact against the evidence already recorded,
every receipt ever issued names evidence about its own artifact. -/
theorem receipt_scope (host : Host) (ops : List Op) (h : Along Sys.ScopeSafe (next host) Sys.init ops) :
    ∀ r ∈ (after host ops).db.acceptances, ReceiptScoped (after host ops).db r := by
  have hkeep : Along (Sys.Keeps ⟨True, False⟩) (next host) Sys.init ops :=
    h.imp (fun s op _ hs => ⟨fun _ => hs, fun hf => hf.elim⟩)
  have hsteps : Steps ⟨True, False⟩ Ledger.empty (ledger (after host ops).db) := run_refines hkeep
  intro r hr
  exact receiptScoped_of_scoped (Steps.inScope trivial orderly_empty scoped_empty hsteps) hr

namespace Sample

def other : String := "00000000000000000000000000000000000000b2"

/-- The run fails, evidence is recorded about one artifact, and the engine then
reports the run complete with another. -/
def rescoped : List Op :=
  project [spec "a" []] ++ started owner "a" "1" ++ reconciled "1" "failed" none ++
    [.request (.recordEvidence (evidence "1" "evidence-1" artifact (some (engine "1" "failed"))))] ++
    reconciled "1" "completed" (some other) ++ [.request (.verify "p" "a" 1 "attempt-1" "reviewer" false "1")]

end Sample

open Sample in
/-- A node verified for one artifact by evidence about another. -/
theorem rescoped_receipt : ∃ r ∈ (after machine rescoped).db.acceptances,
    ¬ ReceiptScoped (after machine rescoped).db r := by
  have hrun : (after machine rescoped).db.acceptances.map (fun r => (r.artifactRef, r.evidenceIds)) =
        [(other, ["evidence-1"])] ∧
      (lookup Evidence.evidenceId (after machine rescoped).db.evidence "evidence-1").map Evidence.artifactRef =
        some artifact := by
    decide +kernel
  obtain ⟨hr, he⟩ := hrun
  cases hacc : (after machine rescoped).db.acceptances with
  | nil => simp [hacc] at hr
  | cons r rest =>
    simp only [hacc, List.map_cons, List.cons.injEq, Prod.mk.injEq] at hr
    refine ⟨r, List.mem_cons_self .., fun hs => ?_⟩
    obtain ⟨e, hlook, _, _, hart⟩ := hs "evidence-1" (by rw [hr.1.2]; exact List.mem_singleton.mpr rfl)
    rw [hlook, Option.map_some, hart, hr.1.1] at he
    exact absurd he (by decide)

open Sample in
/-- One node accepted the ordinary way: a receipt, and its evidence in scope. -/
theorem receipt_scope_accepted : ∃ r ∈ (after machine (project [spec "a" []] ++ accepted "a" "1")).db.acceptances,
    ReceiptScoped (after machine (project [spec "a" []] ++ accepted "a" "1")).db r := by
  have ⟨hsafe, hlen⟩ : Along Sys.ScopeSafe (next machine) Sys.init (project [spec "a" []] ++ accepted "a" "1") ∧
      (after machine (project [spec "a" []] ++ accepted "a" "1")).db.acceptances.length = 1 := by
    decide +kernel
  obtain ⟨r, hr⟩ := List.length_eq_one_iff.mp hlen
  have hmem : r ∈ (after machine (project [spec "a" []] ++ accepted "a" "1")).db.acceptances := by
    rw [hr]
    exact List.mem_singleton.mpr rfl
  exact ⟨r, hmem, receipt_scope machine _ hsafe r hmem⟩

end Scope

section Offers

def notCompleted : StateError := .conflict "a completed candidate with a pinned artifact is required"

def superseded : StateError := .conflict "a newer attempt supersedes this candidate"

/-- The node's latest attempt is there for its reviewer: a candidate, which
`_eligible_candidate` rejects neither as superseded by a newer attempt nor, but
for a missing artifact, as no candidate. -/
structure OnReview (host : Host) (db : DB) (k : NodeId) (a : Attempt) : Prop where
  latest : db.latestAttempt k = some a
  candidate : a.status = .candidate
  newest : eligibleCandidate host db a ≠ .error superseded
  completed : eligibleCandidate host db a = .error notCompleted → truthy a.artifactRef = false

theorem pinsCurrent_error {s : String} : pinsCurrent db a ≠ .error (.conflict s) := by
  intro h
  simp only [pinsCurrent, bind_error, nodeOf, key, ensure_error, orElse_error, ensure_ok, pure, Except.pure,
    reduceCtorEq, and_false, exists_false, or_false] at h

theorem externalCandidate_error {s : String} (h : externalCandidate host db a = .error (.conflict s)) :
    s = "external candidate lacks a complete scoped quiescent observation" ∨
      s = "external candidate lacks immutable validated report bytes" := by
  simp only [externalCandidate, bind_error, orElse_error, ensure_error, StateError.conflict.injEq] at h
  rcases h with ⟨_, h⟩ | ⟨_, _, _, h⟩
  · exact .inl h.symm
  · exact .inr h.symm

theorem eligibleCandidate_error {s : String} (h : eligibleCandidate host db a = .error (.conflict s)) :
    s = "external candidate lacks a complete scoped quiescent observation" ∨
      s = "external candidate lacks immutable validated report bytes" ∨
      (¬ (a.status = .candidate ∧ truthy a.artifactRef = true) ∧
        s = "a completed candidate with a pinned artifact is required") ∨
      s = "candidate inputs are stale; re-run/re-validate against current dependencies" ∨
      (isLatest db a ≠ true ∧ s = "a newer attempt supersedes this candidate") := by
  simp only [eligibleCandidate, bind_error, whenever_error, ensure_error, StateError.conflict.injEq] at h
  rcases h with ⟨_, h⟩ | ⟨_, _, ⟨hc, h⟩ | ⟨_, _, h | ⟨_, _, ⟨_, h⟩ | ⟨_, _, hl, h⟩⟩⟩⟩
  · rcases externalCandidate_error h with h | h
    · exact .inl h
    · exact .inr (.inl h)
  · exact .inr (.inr (.inl ⟨hc, h.symm⟩))
  · exact absurd h pinsCurrent_error
  · exact .inr (.inr (.inr (.inl h.symm)))
  · exact .inr (.inr (.inr (.inr ⟨hl, h.symm⟩)))

theorem onReview_of_candidate (hl : db.latestAttempt k = some a) (hs : a.status = .candidate) :
    OnReview host db k a := by
  have hk : a.node = k := of_decide_eq_true (latest_mem hl).2
  have hlatest : isLatest db a = true := by
    rw [isLatest, hk, hl]
    exact decide_eq_true rfl
  refine ⟨hl, hs, ?_, ?_⟩
  · intro h
    rcases eligibleCandidate_error h with h | h | ⟨_, h⟩ | h | ⟨h, _⟩
    · exact absurd h (by decide)
    · exact absurd h (by decide)
    · exact absurd h (by decide)
    · exact absurd h (by decide)
    · exact h hlatest
  · intro h
    rcases eligibleCandidate_error h with h | h | ⟨h, _⟩ | h | ⟨_, h⟩
    · exact absurd h (by decide)
    · exact absurd h (by decide)
    · cases ht : truthy a.artifactRef with
      | false => rfl
      | true => exact absurd ⟨hs, ht⟩ h
    · exact absurd h (by decide)
    · exact absurd h (by decide)

theorem readyNextAction_review {status : NodeStatus} {readiness : Readiness}
    (h : readyNextAction status readiness = some .candidate_review) : status = .CANDIDATE := by
  unfold readyNextAction at h
  split_ifs at h
  cases status <;> first | rfl | cases h

theorem frontier_row {p : String} {limit : Int} {now : Stamp} {f : Frontier} {row : FrontierRow}
    (h : frontier db p limit now = .ok f) (hr : row ∈ f.nodes) :
    ∃ n, db.node? (p, row.nodeKey) = some n ∧ row = frontierRow (viewRow db now n) := by
  simp only [frontier, graphView, bind_ok, pure_ok] at h
  obtain ⟨lim, _, _, ⟨_, _, rfl⟩, rfl⟩ := h
  obtain ⟨v, hv, rfl⟩ := List.mem_map.mp hr
  have hv := (List.mem_filter.mp (List.mem_of_mem_take hv)).1
  rw [List.mem_insertionSort] at hv
  obtain ⟨n, hn, rfl⟩ := List.mem_map.mp hv
  obtain ⟨key, _, hkey⟩ := List.mem_filterMap.mp hn
  have hk : n.nodeKey = key := congrArg Prod.snd (node_id hkey)
  subst hk
  exact ⟨n, hkey, rfl⟩

theorem onReview_of_reviewable (ho : Orderly (ledger db)) (hr : Reviewable (ledger db)) (hn : db.node? k = some n)
    (hs : n.status = .CANDIDATE) : ∃ a, OnReview host db k a := by
  obtain ⟨i, t, hl, ht, hst⟩ := hr k n.fact (ledger_fact hn) hs
  obtain ⟨a, hlatest, ha⟩ := latestAttempt_of_latest ho hl
  have he : t = a.toTry := Option.some.inj (ht.symm.trans (ledger_try ha))
  subst he
  exact ⟨a, onReview_of_candidate hlatest hst⟩

/-- In a run without imports, in which reconciles and reports record and withdraw
candidates on the latest attempt only, an offered node has a candidate to review,
and so has every row of the frontier that asks for a review. -/
theorem offered_has_candidate (host : Host) (ops : List Op) (hnative : ∀ op ∈ ops, op.Native)
    (h : Along Sys.ReviewSafe (next host) Sys.init ops) :
    (∀ k n, (after host ops).db.node? k = some n → n.status = .CANDIDATE →
      ∃ a, OnReview host (after host ops).db k a) ∧
    ∀ p limit now f, frontier (after host ops).db p limit now = .ok f →
      ∀ row ∈ f.nodes, row.nextAction = some .candidate_review →
        ∃ a, OnReview host (after host ops).db (p, row.nodeKey) a := by
  have hkeep : Along (Sys.Keeps ⟨False, True⟩) (next host) Sys.init ops :=
    h.imp (fun s op hop hs => ⟨fun hf => hf.elim, fun _ => ⟨hnative op hop, hs⟩⟩)
  have hsteps : Steps ⟨False, True⟩ Ledger.empty (ledger (after host ops).db) := run_refines hkeep
  have ho := after_orderly host ops
  have hr := Steps.reviewable trivial orderly_empty reviewable_empty hsteps
  refine ⟨fun k n hn hs => onReview_of_reviewable ho hr hn hs, ?_⟩
  intro p limit now f hf row hrow hact
  obtain ⟨n, hn, he⟩ := frontier_row hf hrow
  rw [he] at hact
  exact onReview_of_reviewable ho hr hn (readyNextAction_review hact)

namespace Sample

/-- A completed run, offered for review. -/
def offered : List Op :=
  project [spec "a" []] ++ started owner "a" "1" ++ reconciled "1" "completed" (some artifact)

/-- The engine takes the completed run back. -/
def withdrawn : List Op := offered ++ reconciled "1" "failed" none

end Sample

open Sample in
/-- The frontier asks to review a candidate whose only attempt has failed. -/
theorem withdrawn_offer : (∀ op ∈ withdrawn, op.Native) ∧
    (∃ f, frontier (after machine withdrawn).db "p" 30 2000000 = .ok f ∧
      ∃ row ∈ f.nodes, row.nodeKey = "a" ∧ row.nextAction = some .candidate_review) ∧
    ¬ ∃ a, OnReview machine (after machine withdrawn).db ("p", "a") a := by
  have ⟨hnative, hfront, hlast⟩ : (∀ op ∈ withdrawn, op.Native) ∧
      ((frontier (after machine withdrawn).db "p" 30 2000000).toOption.map (fun f =>
        f.nodes.map (fun r => (r.nodeKey, r.nextAction)))) = some [("a", some .candidate_review)] ∧
      ((after machine withdrawn).db.latestAttempt ("p", "a")).map Attempt.status = some .failed := by
    decide +kernel
  refine ⟨hnative, ?_, ?_⟩
  · cases hf : frontier (after machine withdrawn).db "p" 30 2000000 with
    | error e =>
      rw [hf] at hfront
      cases hfront
    | ok f =>
      rw [hf] at hfront
      have hrows : f.nodes.map (fun r => (r.nodeKey, r.nextAction)) = [("a", some .candidate_review)] :=
        Option.some.inj hfront
      obtain ⟨row, hrow, hpair⟩ := List.mem_map.mp (hrows ▸ List.mem_singleton.mpr rfl)
      obtain ⟨hkey, hact⟩ := Prod.mk.inj hpair
      exact ⟨f, rfl, row, hrow, hkey, hact⟩
  · rintro ⟨a, ha⟩
    rw [ha.latest, Option.map_some, ha.candidate] at hlast
    cases hlast

open Sample in
theorem offered_has_candidate_sample : ∃ n a, (after machine offered).db.node? ("p", "a") = some n ∧
    n.status = .CANDIDATE ∧ OnReview machine (after machine offered).db ("p", "a") a := by
  have ⟨hnative, hsafe, hs⟩ : (∀ op ∈ offered, op.Native) ∧ Along Sys.ReviewSafe (next machine) Sys.init offered ∧
      ((after machine offered).db.node? ("p", "a")).map Node.status = some .CANDIDATE := by
    decide +kernel
  obtain ⟨n, hn, hc⟩ := Option.map_eq_some_iff.mp hs
  obtain ⟨a, ha⟩ := (offered_has_candidate machine offered hnative hsafe).1 ("p", "a") n hn hc
  exact ⟨n, a, hn, hc, ha⟩

end Offers

end AItelier.State
