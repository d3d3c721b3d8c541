import AItelier.Refine.Leases
import AItelier.Proofs.Dispatch

namespace AItelier.State

open AItelier.Lib

variable {db db' : DB} {host : Host} {caller : Caller} {c : Claim} {p driver : String} {now t : Stamp}
  {claims attempts : List (String × Int)} {subagents : List String}

/-- The clock is past the claim's lease and grace. -/
def Claim.Lapsed (c : Claim) (now : Stamp) : Prop := leaseState (some c.leaseExpiresAt) now = .reclaimable

instance (c : Claim) (now : Stamp) : Decidable (c.Lapsed now) := inferInstanceAs (Decidable (_ = _))

theorem Claim.lapsed_iff : c.Lapsed now ↔ addSeconds c.leaseExpiresAt graceSeconds ≤ now := by
  constructor
  · intro h
    simp only [Claim.Lapsed, leaseState] at h
    split_ifs at h with h1 h2
    exact Nat.le_of_not_lt h2
  · intro h
    have hend : c.leaseExpiresAt ≤ now := Nat.le_trans (Nat.le_add_right ..) h
    simp only [Claim.Lapsed, leaseState]
    rw [if_neg (Nat.not_lt.mpr hend), if_neg (Nat.not_lt.mpr h)]

theorem Claim.Lapsed.mono (h : c.Lapsed t) (ht : t ≤ now) : c.Lapsed now :=
  Claim.lapsed_iff.mpr (Nat.le_trans (Claim.lapsed_iff.mp h) ht)

/-- The heartbeat of the driver is for this claim: by its id and fence, or by the
subagent it is held for. -/
def Claim.BeatenBy (c : Claim) (p driver : String) (claims : List (String × Int)) (subagents : List String) : Prop :=
  c.projectId = p ∧ c.driverId = driver ∧ ((c.claimId, (c.fence : Int)) ∈ claims ∨
    ∃ label ∈ subagents, ownSubagent driver label = true ∧ c.subagent = some label)

instance (c : Claim) (p driver : String) (claims : List (String × Int)) (subagents : List String) :
    Decidable (c.BeatenBy p driver claims subagents) :=
  inferInstanceAs (Decidable (_ ∧ _))

structure Beat where
  caller : Caller
  projectId : String
  claims : List (String × Int)
  subagents : List String
  now : Stamp

/-- What a heartbeat asks for claims. -/
def Op.beat : Op → Option Beat
  | .request (.heartbeat caller p claims _ subagents now) => some ⟨caller, p, claims, subagents, now⟩
  | _ => none

/-- A heartbeat comes before the claims it is for have lapsed, or after they ended. -/
def Sys.BeatsInTime (s : Sys) (op : Op) : Prop :=
  ∀ b ∈ op.beat, ∀ c ∈ s.db.claims, ∀ d ∈ b.caller.driverId, c.BeatenBy b.projectId d b.claims b.subagents →
    c.status = .live → ¬ c.Lapsed b.now

instance (s : Sys) (op : Op) : Decidable (s.BeatsInTime op) := inferInstanceAs (Decidable (∀ b ∈ op.beat, _))

section Beats

theorem beatAll_invariant {ι : Type} {f : DB → ι → List Beaten × DB} {I : DB → Prop} {items : List ι}
    (hf : ∀ d, ∀ x ∈ items, I d → I (f d x).2) {acc : List Beaten × DB} (h : I acc.2) :
    I (beatAll f items acc).2 := by
  induction items generalizing acc with
  | nil => exact h
  | cons x items ih =>
    refine ih (fun d y hy => hf d y (List.mem_cons_of_mem x hy)) ?_
    exact hf acc.2 x (List.mem_cons_self ..) h

/-- The row is there as it was, under an id of its own. -/
def Spared (c : Claim) (d : DB) : Prop := c ∈ d.claims ∧ (d.claims.map Claim.claimId).Nodup

theorem renewClaim_spares {d : DB} {row : Claim} (h : Spared c d) (hne : row.claimId ≠ c.claimId) :
    Spared c (renewClaim now d row) := by
  refine ⟨mem_modifyWhere.mpr ⟨c, h.1, ?_⟩, ?_⟩
  · simp [hne.symm]
  · rw [renewClaim, DB.setClaim, map_modifyWhere (g := Claim.claimId) (fun _ _ => by simp only)]
    exact h.2

theorem beatClaim_spares {d : DB} {i : String} {fence : Int} (hi : (i, fence) ∈ claims)
    (hc : ¬ (c.BeatenBy p driver claims subagents ∧ c.status = .live)) (h : Spared c d) :
    Spared c (beatClaim d p driver now i fence).2 := by
  unfold beatClaim
  split
  · exact h
  · next row hrow =>
    obtain ⟨hfound, hp⟩ := Option.filter_eq_some_iff.mp hrow
    split_ifs with hd hf hl
    · exact h
    · exact h
    · exact h
    · refine renewClaim_spares h (fun hid => hc ?_)
      have he : row = c := List.inj_on_of_nodup_map h.2 (lookup_mem hfound) h.1 hid
      have hfence : (row.fence : Int) = fence := by
        by_contra hne
        exact hf (.inl hne)
      have hkey : row.claimId = i := lookup_key hfound
      rw [← he]
      refine ⟨⟨of_decide_eq_true hp, not_not.mp hd, .inl ?_⟩, not_not.mp hl⟩
      rw [hkey, hfence]
      exact hi

theorem beatSubagent_spares {d : DB} {label : String} (hl : label ∈ subagents)
    (hc : ¬ (c.BeatenBy p driver claims subagents ∧ c.status = .live)) (h : Spared c d) :
    Spared c (beatSubagent d p driver now label).2 := by
  unfold beatSubagent
  split_ifs with hown
  · exact h
  · dsimp only
    split_ifs with hrows
    · exact h
    · have hloop : ∀ (l : List Claim) (d : DB), (∀ r ∈ l, r.claimId ≠ c.claimId) → Spared c d →
          Spared c (l.foldl (renewClaim now) d) := by
        intro l
        induction l with
        | nil => exact fun d _ hd => hd
        | cons r l ih =>
          intro d hne hd
          exact ih _ (fun q hq => hne q (List.mem_cons_of_mem r hq))
            (renewClaim_spares hd (hne r (List.mem_cons_self ..)))
      refine hloop _ d (fun r hr hid => hc ?_) h
      obtain ⟨hmem, hlabel⟩ := List.mem_filter.mp hr
      obtain ⟨hp, hd, hs, hlive⟩ := of_decide_eq_true hlabel
      have he : r = c := List.inj_on_of_nodup_map h.2 hmem h.1 hid
      rw [← he]
      exact ⟨⟨hp, hd, .inr ⟨label, hl, by simpa using hown, hs⟩⟩, hlive⟩

/-- A heartbeat writes the claims it is for and no other. -/
theorem heartbeat_spares {out : List Beaten} (hf : Ticket.Fenced (tickets db)) (hc : c ∈ db.claims)
    (hnot : ∀ d ∈ caller.driverId, ¬ (c.BeatenBy p d claims subagents ∧ c.status = .live))
    (h : heartbeat db caller p claims attempts subagents now = .ok (out, db')) : c ∈ db'.claims := by
  simp only [heartbeat, bind_ok, pure_ok] at h
  obtain ⟨driver, hd, _, _, _, _, h⟩ := h
  have hdriver : caller.driverId = some driver := by
    rw [claimDriver, requireDriver, orElse_ok, Option.filter_eq_some_iff] at hd
    exact hd.1
  have hfree := hnot driver hdriver
  have hback : Spared c (markBack db (some driver) now) := by
    rw [Spared, side_claims (markBack_side ..)]
    exact ⟨hc, claimIds_distinct hf⟩
  have hdb : _ = db' := congrArg Prod.snd h
  rw [← hdb]
  refine (beatAll_invariant (fun d x hx hs => beatSubagent_spares hx hfree hs) ?_).1
  refine beatAll_invariant (fun d x _ hs => ?_) ?_
  · rw [Spared, side_claims (beatAttempt_side ..)]
    exact hs
  · exact beatAll_invariant (fun d x hx hs => beatClaim_spares hx hfree hs) hback

end Beats

section Sweeps
variable {actor : String}

/-- What a sweep makes of the rows it retires. -/
def expireAll (ids : List String) (c : Claim) : Claim :=
  if c.claimId ∈ ids then { c with status := .expired } else c

theorem expireAll_of_mem {ids : List String} (h : c.claimId ∈ ids) :
    expireAll ids c = { c with status := .expired } := by
  simp [expireAll, h]

theorem expireAll_of_not_mem {ids : List String} (h : c.claimId ∉ ids) : expireAll ids c = c := by
  simp [expireAll, h]

@[simp] theorem expireAll_claimId (ids : List String) (c : Claim) : (expireAll ids c).claimId = c.claimId := by
  unfold expireAll
  split_ifs <;> rfl

theorem expireAll_comm {ids : List String} {f : Claim → Claim} (hid : ∀ c, (f c).claimId = c.claimId)
    (hs : ∀ c, f { c with status := .expired } = { f c with status := .expired }) (c : Claim) :
    expireAll ids (f c) = f (expireAll ids c) := by
  by_cases hin : c.claimId ∈ ids
  · have hin' : (f c).claimId ∈ ids := (hid c).symm ▸ hin
    rw [expireAll_of_mem hin, expireAll_of_mem hin', hs]
  · have hin' : (f c).claimId ∉ ids := (hid c).symm ▸ hin
    rw [expireAll_of_not_mem hin, expireAll_of_not_mem hin']

/-- The claim a sweep retires in this round. -/
def Lapsed.retired : Lapsed → Option String
  | .claim row phase => if phase = .reclaimable then some row.claimId else none
  | .attempt _ _ => none

theorem sweepOne_claims (actor p : String) (db : DB) (lapsed : Lapsed) :
    (sweepOne actor p db lapsed).claims = db.claims.map (expireAll lapsed.retired.toList) := by
  have hid : db.claims.map (expireAll []) = db.claims := by
    refine (List.map_congr_left (fun c _ => ?_)).trans (List.map_id _)
    simp [expireAll]
  cases lapsed with
  | claim row phase =>
    by_cases h : phase = .reclaimable
    · simp only [sweepOne, h, if_true, Lapsed.retired]
      refine List.map_congr_left (fun c _ => ?_)
      by_cases hc : c.claimId = row.claimId <;> simp [expireAll, hc]
    · simp only [sweepOne, h, if_false, Lapsed.retired, Option.toList_none, hid]
      rfl
  | attempt row phase =>
    simp only [Lapsed.retired, Option.toList_none, hid]
    rfl

theorem sweepAll_claims (actor p : String) (db : DB) (l : List Lapsed) :
    (l.foldl (sweepOne actor p) db).claims = db.claims.map (expireAll (l.filterMap Lapsed.retired)) := by
  induction l generalizing db with
  | nil =>
    refine ((List.map_congr_left (fun c _ => ?_)).trans (List.map_id _)).symm
    simp [expireAll]
  | cons x l ih =>
    rw [List.foldl_cons, ih, sweepOne_claims, List.map_map]
    refine List.map_congr_left (fun c _ => ?_)
    cases hx : x.retired with
    | none => simp [hx, expireAll]
    | some i =>
      by_cases hi : c.claimId = i <;> by_cases hl : c.claimId ∈ l.filterMap Lapsed.retired <;>
        simp_all [expireAll]

/-- A sweep retires exactly the project's live claims that have lapsed. -/
theorem sweep_claims (hn : (db.claims.map Claim.claimId).Nodup) (actor p : String) (t : Stamp) :
    ∃ ids, (sweep db actor p t none).claims = db.claims.map (expireAll ids) ∧
      ∀ c ∈ db.claims, c.claimId ∈ ids ↔ c.projectId = p ∧ c.status = .live ∧ c.Lapsed t := by
  refine ⟨(due db p t none).filterMap Lapsed.retired, sweepAll_claims actor p db _, ?_⟩
  intro c hc
  have hdue : ∀ (x : Claim) (l : Lapsed), dueClaim db p t none x = some l → l.retired = some c.claimId →
      x ∈ db.claims → c.projectId = p ∧ c.status = .live ∧ c.Lapsed t := by
    intro x l hx hl hmem
    unfold dueClaim at hx
    dsimp only at hx
    split_ifs at hx with hcond
    cases hx
    simp only [Lapsed.retired] at hl
    split_ifs at hl with hphase
    simp only [Bool.and_eq_true, decide_eq_true_eq] at hcond
    have he : x = c := List.inj_on_of_nodup_map hn hmem hc (Option.some.inj hl)
    subst he
    exact ⟨hcond.1.1.1, hcond.1.1.2.1, hphase⟩
  constructor
  · intro hin
    obtain ⟨l, hl, hr⟩ := List.mem_filterMap.mp hin
    rcases List.mem_append.mp hl with hl | hl
    · obtain ⟨x, hx, hlx⟩ := List.mem_filterMap.mp hl
      exact hdue x l hlx hr hx
    · obtain ⟨a, _, ha⟩ := List.mem_filterMap.mp hl
      unfold dueAttempt at ha
      split at ha
      · cases ha
      · dsimp only at ha
        split_ifs at ha
        cases ha
        cases hr
  · rintro ⟨hp, hlive, hlapsed⟩
    have hend : c.leaseExpiresAt ≤ t := Nat.le_trans (Nat.le_add_right ..) (Claim.lapsed_iff.mp hlapsed)
    refine List.mem_filterMap.mpr ⟨.claim c .reclaimable, List.mem_append_left _ ?_, by simp [Lapsed.retired]⟩
    refine List.mem_filterMap.mpr ⟨c, hc, ?_⟩
    have hphase : leaseState (some c.leaseExpiresAt) t = .reclaimable := hlapsed
    simp [dueClaim, hp, hlive, hend, hphase, inScope]

end Sweeps

/-- Two stores that differ by a sweep that retired no claim the heartbeat is for. -/
structure Twins (ids : List String) (p driver : String) (claims : List (String × Int)) (subagents : List String)
    (d e : DB) : Prop where
  rows : e.claims = d.claims.map (expireAll ids)
  live : ∀ c ∈ d.claims, c.claimId ∈ ids → c.status = .live
  spared : ∀ c ∈ d.claims, c.claimId ∈ ids → ¬ c.BeatenBy p driver claims subagents
  attempts : e.attempts = d.attempts

section Twins
variable {ids : List String} {d e : DB}

/-- The two lease columns of a row are written alike in both stores. -/
theorem Twins.beat (h : Twins ids p driver claims subagents d e) (i : String) (lease beat : Stamp) :
    Twins ids p driver claims subagents
      (d.setClaim i (fun c => { c with leaseExpiresAt := lease, lastHeartbeatAt := beat }))
      (e.setClaim i (fun c => { c with leaseExpiresAt := lease, lastHeartbeatAt := beat })) := by
  have hrow : ∀ c ∈ (d.setClaim i (fun c => { c with leaseExpiresAt := lease, lastHeartbeatAt := beat })).claims,
      ∃ q ∈ d.claims, c.claimId = q.claimId ∧ c.status = q.status ∧
        (c.BeatenBy p driver claims subagents ↔ q.BeatenBy p driver claims subagents) := by
    intro c hc
    obtain ⟨q, hq, rfl⟩ := mem_modifyWhere.mp hc
    refine ⟨q, hq, ?_⟩
    split_ifs
    · exact ⟨rfl, rfl, Iff.rfl⟩
    · exact ⟨rfl, rfl, Iff.rfl⟩
  refine ⟨?_, ?_, ?_, h.attempts⟩
  · simp only [DB.setClaim, modifyWhere, h.rows, List.map_map]
    refine List.map_congr_left (fun c _ => ?_)
    by_cases hr : c.claimId = i
    · have hd : decide (c.claimId = i) = true := decide_eq_true hr
      have hd' : decide ((expireAll ids c).claimId = i) = true := by rw [expireAll_claimId, hd]
      simp only [Function.comp_apply, hd, hd', if_true]
      exact (expireAll_comm (f := fun c => { c with leaseExpiresAt := lease, lastHeartbeatAt := beat })
        (fun _ => rfl) (fun _ => rfl) c).symm
    · simp only [Function.comp_apply, expireAll_claimId, hr, decide_false, Bool.false_eq_true, if_false]
  · intro c hc hi
    obtain ⟨q, hq, hid, hs, _⟩ := hrow c hc
    rw [hs]
    exact h.live q hq (hid ▸ hi)
  · intro c hc hi hb
    obtain ⟨q, hq, hid, _, hbeat⟩ := hrow c hc
    exact h.spared q hq (hid ▸ hi) (hbeat.mp hb)

theorem Twins.renew (h : Twins ids p driver claims subagents d e) (row : Claim) :
    Twins ids p driver claims subagents (renewClaim now d row) (renewClaim now e row) :=
  h.beat row.claimId (addSeconds now row.leaseSeconds) now

theorem Twins.renewAll (h : Twins ids p driver claims subagents d e) (rows : List Claim) :
    Twins ids p driver claims subagents (rows.foldl (renewClaim now) d) (rows.foldl (renewClaim now) e) := by
  induction rows generalizing d e with
  | nil => exact h
  | cons r rows ih => exact ih (h.renew r)

/-- An item of the heartbeat has the same answer in both stores. -/
def SameBeat (ids : List String) (p driver : String) (claims : List (String × Int)) (subagents : List String)
    (x y : List Beaten × DB) : Prop :=
  y.1 = x.1 ∧ Twins ids p driver claims subagents x.2 y.2

theorem beatClaim_twins {i : String} {fence : Int} (h : Twins ids p driver claims subagents d e)
    (hi : (i, fence) ∈ claims) :
    SameBeat ids p driver claims subagents (beatClaim d p driver now i fence) (beatClaim e p driver now i fence) := by
  have hfind : e.claim? i = (d.claim? i).map (expireAll ids) := by
    rw [DB.claim?, h.rows, lookup_map (expireAll_claimId ids)]
    rfl
  unfold beatClaim
  rw [hfind]
  cases hd : d.claim? i with
  | none => exact ⟨rfl, h⟩
  | some row =>
    have hkey : row.claimId = i := lookup_key hd
    by_cases hin : row.claimId ∈ ids
    · -- a retired row is refused for what the sweep left alone
      have hexp := expireAll_of_mem hin
      have hspared := h.spared row (lookup_mem hd) hin
      simp only [Option.map_some, hexp]
      by_cases hp : row.projectId = p
      · by_cases hdr : row.driverId = driver
        · have hf : (row.fence : Int) ≠ fence := by
            intro hf
            refine hspared ⟨hp, hdr, .inl ?_⟩
            rw [hkey, hf]
            exact hi
          simp only [Option.filter_some, hp, decide_true, if_true, hdr, hf, ne_eq, not_true, not_false_eq_true,
            true_or, if_false]
          exact ⟨rfl, h⟩
        · simp only [Option.filter_some, hp, decide_true, if_true, hdr, ne_eq, not_false_eq_true]
          exact ⟨rfl, h⟩
      · simp only [Option.filter_some, hp, decide_false, Bool.false_eq_true, if_false]
        exact ⟨rfl, h⟩
    · simp only [Option.map_some, expireAll_of_not_mem hin]
      split
      · exact ⟨rfl, h⟩
      · split_ifs
        · exact ⟨rfl, h⟩
        · exact ⟨rfl, h⟩
        · exact ⟨rfl, h⟩
        · exact ⟨rfl, h.renew _⟩

theorem beatAttempt_twins {i : String} {fence : Int} (h : Twins ids p driver claims subagents d e) :
    SameBeat ids p driver claims subagents (beatAttempt d p driver now i fence)
      (beatAttempt e p driver now i fence) := by
  have hfind : e.attempt? i = d.attempt? i := by
    rw [DB.attempt?, DB.attempt?, h.attempts]
  unfold beatAttempt
  rw [hfind]
  split
  · exact ⟨rfl, h⟩
  · split_ifs
    · exact ⟨rfl, h⟩
    · exact ⟨rfl, h⟩
    · exact ⟨rfl, h⟩
    · exact ⟨rfl, h⟩
    · refine ⟨rfl, h.rows, h.live, h.spared, ?_⟩
      simp only [DB.setAttempt, h.attempts]

theorem beatSubagent_twins {label : String} (h : Twins ids p driver claims subagents d e) (hl : label ∈ subagents) :
    SameBeat ids p driver claims subagents (beatSubagent d p driver now label)
      (beatSubagent e p driver now label) := by
  unfold beatSubagent
  split_ifs with hown
  · exact ⟨rfl, h⟩
  · have hrows : e.claims.filter (fun c => decide (c.projectId = p ∧ c.driverId = driver ∧
          c.subagent = some label ∧ c.status = .live)) =
        d.claims.filter (fun c => decide (c.projectId = p ∧ c.driverId = driver ∧
          c.subagent = some label ∧ c.status = .live)) := by
      rw [h.rows, List.filter_map]
      have hkept : ∀ c ∈ d.claims, c.projectId = p ∧ c.driverId = driver ∧ c.subagent = some label ∧
          c.status = .live → c.claimId ∉ ids := by
        rintro c hc ⟨hp, hd, hs, _⟩ hin
        exact h.spared c hc hin ⟨hp, hd, .inr ⟨label, hl, by simpa using hown, hs⟩⟩
      have hsame : d.claims.filter ((fun c => decide (c.projectId = p ∧ c.driverId = driver ∧
            c.subagent = some label ∧ c.status = .live)) ∘ expireAll ids) =
          d.claims.filter (fun c => decide (c.projectId = p ∧ c.driverId = driver ∧
            c.subagent = some label ∧ c.status = .live)) := by
        refine List.filter_congr (fun c hc => ?_)
        by_cases hin : c.claimId ∈ ids
        · have hno : ¬ (c.projectId = p ∧ c.driverId = driver ∧ c.subagent = some label ∧ c.status = .live) :=
            fun hyes => hkept c hc hyes hin
          simp [expireAll_of_mem hin, decide_eq_false hno]
        · simp [expireAll_of_not_mem hin]
      rw [hsame]
      refine (List.map_congr_left (fun c hc => ?_)).trans (List.map_id _)
      obtain ⟨hmem, hyes⟩ := List.mem_filter.mp hc
      exact expireAll_of_not_mem (hkept c hmem (of_decide_eq_true hyes))
    dsimp only
    rw [hrows]
    split_ifs
    · exact ⟨rfl, h⟩
    · exact ⟨rfl, h.renewAll _⟩

theorem beatAll_twins {ι : Type} {f : DB → ι → List Beaten × DB} {items : List ι}
    (hf : ∀ d e, ∀ x ∈ items, Twins ids p driver claims subagents d e →
      SameBeat ids p driver claims subagents (f d x) (f e x)) {x y : List Beaten × DB}
    (h : SameBeat ids p driver claims subagents x y) :
    SameBeat ids p driver claims subagents (beatAll f items x) (beatAll f items y) := by
  induction items generalizing x y with
  | nil => exact h
  | cons a items ih =>
    obtain ⟨hout, hdb⟩ := hf x.2 y.2 a (List.mem_cons_self ..) h.2
    refine ih (fun d e b hb => hf d e b (List.mem_cons_of_mem a hb)) ⟨?_, hdb⟩
    change y.1 ++ (f y.2 a).1 = x.1 ++ (f x.2 a).1
    rw [h.1, hout]

theorem beats_twins (now : Stamp) (attempts : List (String × Int)) (h : Twins ids p driver claims subagents d e) :
    SameBeat ids p driver claims subagents
      (beatAll (fun db i => beatSubagent db p driver now i) subagents
        (beatAll (fun db i => beatAttempt db p driver now i.1 i.2) attempts
          (beatAll (fun db i => beatClaim db p driver now i.1 i.2) claims ([], d))))
      (beatAll (fun db i => beatSubagent db p driver now i) subagents
        (beatAll (fun db i => beatAttempt db p driver now i.1 i.2) attempts
          (beatAll (fun db i => beatClaim db p driver now i.1 i.2) claims ([], e)))) := by
  have hclaim : ∀ d e, ∀ x ∈ claims, Twins ids p driver claims subagents d e → SameBeat ids p driver claims subagents
      (beatClaim d p driver now x.1 x.2) (beatClaim e p driver now x.1 x.2) :=
    fun d e x hx h => beatClaim_twins h hx
  have hattempt : ∀ d e, ∀ x ∈ attempts, Twins ids p driver claims subagents d e →
      SameBeat ids p driver claims subagents (beatAttempt d p driver now x.1 x.2)
        (beatAttempt e p driver now x.1 x.2) :=
    fun d e x _ h => beatAttempt_twins h
  have hsubagent : ∀ d e, ∀ x ∈ subagents, Twins ids p driver claims subagents d e →
      SameBeat ids p driver claims subagents (beatSubagent d p driver now x) (beatSubagent e p driver now x) :=
    fun d e x hx h => beatSubagent_twins h hx
  have hstart : SameBeat ids p driver claims subagents ([], d) ([], e) := ⟨rfl, h⟩
  exact beatAll_twins hsubagent (beatAll_twins hattempt (beatAll_twins hclaim hstart))

end Twins

section Eager
variable {actor q : String} {k : NodeId} {claimId : Option String} {fence : Option Int}

theorem sweep_projectOf (db : DB) (actor q : String) (t : Stamp) (p : String) :
    projectOf (sweep db actor q t none) p = projectOf db p := by
  have hp : (sweep db actor q t none).body.projects = db.body.projects := by rw [sweep_body]
  change (sweep db actor q t none).projects = db.projects at hp
  rw [projectOf, projectOf, hp]

/-- The answer of a heartbeat that comes in time is the same after a sweep. -/
theorem heartbeat_swept (hf : Ticket.Fenced (tickets db)) (ht : t ≤ now)
    (hbeats : ∀ c ∈ db.claims, ∀ d ∈ caller.driverId, c.BeatenBy p d claims subagents → c.status = .live →
      ¬ c.Lapsed now) :
    (heartbeat (sweep db actor q t none) caller p claims attempts subagents now).map Prod.fst =
      (heartbeat db caller p claims attempts subagents now).map Prod.fst := by
  simp only [heartbeat, sweep_projectOf]
  cases hd : claimDriver caller with
  | error e => rfl
  | ok driver =>
    have hdriver : caller.driverId = some driver := by
      rw [claimDriver, requireDriver, orElse_ok, Option.filter_eq_some_iff] at hd
      exact hd.1
    obtain ⟨ids, hrows, hids⟩ := sweep_claims (claimIds_distinct hf) actor q t
    have htwins : Twins ids p driver claims subagents (markBack db (some driver) now)
        (markBack (sweep db actor q t none) (some driver) now) := by
      refine ⟨?_, ?_, ?_, ?_⟩
      · rw [side_claims (markBack_side ..), side_claims (markBack_side ..), hrows]
      · intro c hc hin
        rw [side_claims (markBack_side ..)] at hc
        exact ((hids c hc).mp hin).2.1
      · intro c hc hin hb
        rw [side_claims (markBack_side ..)] at hc
        obtain ⟨_, hlive, hlapsed⟩ := (hids c hc).mp hin
        exact hbeats c hc driver hdriver hb hlive (hlapsed.mono ht)
      · rw [core_attempts (core_of_body (markBack_body ..)), core_attempts (core_of_body (markBack_body ..)),
          core_attempts (core_of_body (sweep_body ..))]
    have hsame := beats_twins now attempts htwins
    simp only [bind, Except.bind, pure, Except.pure]
    cases ensure (1 ≤ claims.length + attempts.length + subagents.length ∧
        claims.length + attempts.length + subagents.length ≤ maxHeartbeatItems)
        (StateError.graph "heartbeat takes 1 to 100 items") with
    | error e => rfl
    | ok u =>
      cases projectOf db p with
      | error e => rfl
      | ok row => exact congrArg Except.ok hsame.1

/-- The live claim a dispatch may ride on is the same after a sweep. -/
theorem liveImplementClaim_swept (hf : Ticket.Fenced (tickets db)) (ht : t ≤ now) :
    (liveImplementClaim (sweep db actor q t none) k now).1 = (liveImplementClaim db k now).1 := by
  obtain ⟨ids, hrows, hids⟩ := sweep_claims (claimIds_distinct hf) actor q t
  have hkept : ∀ x ∈ db.claims, (expireAll ids x).status = .live → x.claimId ∉ ids := by
    intro x _ hl hin
    rw [expireAll_of_mem hin] at hl
    cases hl
  unfold liveImplementClaim
  rw [hrows, List.find?_map]
  cases hfound : db.claims.find? (fun c => decide (c.node = k ∧ c.status = .live ∧ c.purpose = .implement)) with
  | none =>
    have hnone : db.claims.find? ((fun c => decide (c.node = k ∧ c.status = .live ∧ c.purpose = .implement)) ∘
        expireAll ids) = none := by
      rw [List.find?_eq_none] at hfound ⊢
      intro x hx hyes
      have hlive := (of_decide_eq_true hyes).2.1
      rw [Function.comp_apply, expireAll_of_not_mem (hkept x hx hlive)] at hyes
      exact hfound x hx hyes
    rw [hnone]
    rfl
  | some row =>
    have hrow : row.node = k ∧ row.status = .live ∧ row.purpose = .implement := by
      simpa using List.find?_some hfound
    have hmem := List.mem_of_find?_eq_some hfound
    -- the node has one live implement claim, so a sweep leaves it or leaves none
    have honly : ∀ x ∈ db.claims, ((fun c => decide (c.node = k ∧ c.status = .live ∧ c.purpose = .implement)) ∘
        expireAll ids) x = true → x = row ∧ x.claimId ∉ ids := by
      intro x hx hyes
      have hout := hkept x hx (of_decide_eq_true hyes).2.1
      rw [Function.comp_apply, expireAll_of_not_mem hout] at hyes
      obtain ⟨hxn, hxl, hxp⟩ := of_decide_eq_true hyes
      refine ⟨exclusive_claim_unique hf hx hmem (hxn.trans hrow.1.symm) ?_ ?_ hxl hrow.2.1, hout⟩
      · rw [hxp]
        rfl
      · rw [hrow.2.2]
        rfl
    by_cases hin : row.claimId ∈ ids
    · have hnone : db.claims.find? ((fun c => decide (c.node = k ∧ c.status = .live ∧ c.purpose = .implement)) ∘
          expireAll ids) = none := by
        rw [List.find?_eq_none]
        intro x hx hyes
        obtain ⟨he, hout⟩ := honly x hx hyes
        exact hout (he ▸ hin)
      have hlapsed : leaseState (some row.leaseExpiresAt) now = .reclaimable :=
        ((hids row hmem).mp hin).2.2.mono ht
      rw [hnone]
      simp [hlapsed]
    · have hsome : (db.claims.find? ((fun c => decide (c.node = k ∧ c.status = .live ∧ c.purpose = .implement)) ∘
          expireAll ids)).isSome = true := by
        rw [List.find?_isSome]
        refine ⟨row, hmem, ?_⟩
        rw [Function.comp_apply, expireAll_of_not_mem hin]
        exact decide_eq_true hrow
      obtain ⟨x, hx⟩ := Option.isSome_iff_exists.mp hsome
      obtain ⟨rfl, hout⟩ := honly x (List.mem_of_find?_eq_some hx) (List.find?_some hx)
      rw [hx, Option.map_some, expireAll_of_not_mem hout]

theorem sweep_enforced (db : DB) (actor q : String) (t : Stamp) (p : String) :
    enforced (sweep db actor q t none) p = enforced db p := by
  have hp : (sweep db actor q t none).body.enforcement = db.body.enforcement := by rw [sweep_body]
  change (sweep db actor q t none).enforcement = db.enforcement at hp
  rw [enforced, enforced, claimEnforcement, claimEnforcement, hp]

theorem namedDispatch_lapsed {live l l' : Option Claim} {key i : String} {driverId : Option String}
    (h : namedDispatch live l key driverId i fence = .ok c) : namedDispatch live l' key driverId i fence = .ok c := by
  simp only [namedDispatch, bind_ok, orElse_ok] at h ⊢
  exact h

theorem implementDispatch_of_live {d e : DB} {out : Option Claim × Bool}
    (hlive : (liveImplementClaim e k now).1 = (liveImplementClaim d k now).1) (henf : enforced e k.1 = enforced d k.1)
    (h : implementDispatch host d k caller claimId fence now = .ok out) :
    implementDispatch host e k caller claimId fence now = .ok out := by
  simp only [implementDispatch, bind_ok, optionMapM_ok, hlive, henf] at h ⊢
  obtain ⟨named, hnamed, h⟩ := h
  refine ⟨named, hnamed.imp_right ?_, ?_⟩
  · rintro ⟨i, x, hi, hx, hn⟩
    exact ⟨i, x, hi, namedDispatch_lapsed hx, hn⟩
  · simp only [ite_ok] at h ⊢
    refine h.imp_right ?_
    rintro ⟨hoff, h⟩
    refine ⟨hoff, ?_⟩
    split at h
    · simp only [ite_ok, throw_ok, and_false, or_false] at h ⊢
      exact h
    · simp only [ite_ok, throw_ok, and_false, or_false] at h ⊢
      exact h

/-- A dispatch is let through on the same claim with or without a sweep. -/
theorem dispatchClaim_swept (hf : Ticket.Fenced (tickets db)) (ht : t ≤ now) (review : Bool)
    (out : Option Claim × Bool) :
    dispatchClaim host (sweep db actor q t none) k caller claimId fence now review = .ok out ↔
      dispatchClaim host db k caller claimId fence now review = .ok out := by
  obtain ⟨ids, hrows, hids⟩ := sweep_claims (claimIds_distinct hf) actor q t
  have hlive := @liveImplementClaim_swept db now t actor q k hf ht
  have henf := sweep_enforced db actor q t k.1
  have hnode : (sweep db actor q t none).node? k = db.node? k := core_node? (core_of_body (sweep_body ..)) k
  have hfind : ∀ i, (sweep db actor q t none).claims.find? (fun r => decide (r.claimId = i ∧ r.node = k ∧
        r.purpose = .review)) =
      (db.claims.find? (fun r => decide (r.claimId = i ∧ r.node = k ∧ r.purpose = .review))).map (expireAll ids) := by
    intro i
    rw [hrows, List.find?_map]
    congr 1
    refine congrArg (fun f => db.claims.find? f) (funext (fun x => ?_))
    unfold Function.comp expireAll
    split_ifs <;> rfl
  unfold dispatchClaim
  cases hc : (if review then claimId else none) with
  | none => exact ⟨implementDispatch_of_live hlive.symm henf.symm, implementDispatch_of_live hlive henf⟩
  | some i =>
    simp only [Option.bind_some, hfind]
    cases hr : db.claims.find? (fun r => decide (r.claimId = i ∧ r.node = k ∧ r.purpose = .review)) with
    | none => exact ⟨implementDispatch_of_live hlive.symm henf.symm, implementDispatch_of_live hlive henf⟩
    | some row =>
      by_cases hin : row.claimId ∈ ids
      · -- a retired review claim had lapsed, and is refused either way
        have hlapsed : leaseState (some row.leaseExpiresAt) now = .reclaimable :=
          ((hids row (List.mem_of_find?_eq_some hr)).mp hin).2.2.mono ht
        simp only [Option.map_some, expireAll_of_mem hin, reviewDispatch, bind_ok, ensure_ok]
        constructor
        · rintro ⟨_, ⟨_, _, _, _, _, _, _, ⟨hl, _⟩, _⟩, _⟩
          cases hl
        · rintro ⟨_, ⟨_, _, _, _, _, _, _, ⟨_, hl⟩, _⟩, _⟩
          exact absurd hlapsed hl
      · simp only [Option.map_some, expireAll_of_not_mem hin, reviewDispatch, hnode]

theorem launchAuthorization_swept (hf : Ticket.Fenced (tickets db)) (ht : t ≤ now) (a : Attempt)
    (out : Bool × Option Claim) :
    launchAuthorization host (sweep db actor q t none) a caller claimId fence now = .ok out ↔
      launchAuthorization host db a caller claimId fence now = .ok out := by
  unfold launchAuthorization
  rw [sweep_enforced, @liveImplementClaim_swept db now t actor q a.node hf ht]
  split_ifs with hfree hnamed
  · simp only [bind_ok, dispatchClaim_swept hf ht]
  · rfl
  · unfold ownerLaunch
    split
    · simp only [ite_ok, throw_ok, and_false, or_false]
    · rfl
  · rfl
  · rfl

end Eager

/-- From `T` on the claim is lapsed, and nothing is dispatched or launched on it. -/
structure StaysLapsed (host : Host) (db : DB) (i : String) (T : Stamp) : Prop where
  lapsed : ∃ c ∈ db.claims, c.claimId = i ∧ ∀ t, T ≤ t → leaseState (some c.leaseExpiresAt) t = .reclaimable
  dispatch : ∀ k caller claimId fence t review c breakGlass, T ≤ t →
    dispatchClaim host db k caller claimId fence t review = .ok (some c, breakGlass) → c.claimId ≠ i
  launch : ∀ (a : Attempt) caller claimId fence t out, T ≤ t → enforced db a.projectId = true →
    truthy a.ownerDriverId = true → caller.isAdmin = false →
    launchAuthorization host db a caller claimId fence t = .ok out →
    ∃ c ∈ db.claims, c.claimId ≠ i ∧ c.node = a.node ∧ c.status = .live ∧ c.purpose = .implement ∧
      some c.driverId = caller.driverId

/-- A dispatch, a launch or a heartbeat is answered as it would be after a sweep. -/
structure SweepBlind (host : Host) (s : Sys) (op : Op) : Prop where
  heartbeat : ∀ caller p claims attempts subagents now actor q t, t ≤ now →
    op = .request (.heartbeat caller p claims attempts subagents now) →
    (stepOp host (next host s (.request (.sweep actor q t))) op).2 = (stepOp host s op).2
  dispatch : ∀ k caller claimId fence now review actor q t out, t ≤ now →
    (dispatchClaim host (next host s (.request (.sweep actor q t))).db k caller claimId fence now review = .ok out ↔
      dispatchClaim host s.db k caller claimId fence now review = .ok out)
  launch : ∀ a caller claimId fence now actor q t out, t ≤ now →
    (launchAuthorization host (next host s (.request (.sweep actor q t))).db a caller claimId fence now = .ok out ↔
      launchAuthorization host s.db a caller claimId fence now = .ok out)

section Runs
variable {s : Sys} {op : Op} {T : Stamp}

theorem next_lease (hf : Ticket.Fenced (tickets s.db)) (hb : s.BeatsInTime op) (hT : ∀ b ∈ op.beat, T ≤ b.now)
    (hc : c ∈ s.db.claims) (hl : c.Lapsed T) :
    ∃ c' ∈ (next host s op).db.claims, c'.claimId = c.claimId ∧ c'.leaseExpiresAt = c.leaseExpiresAt := by
  rcases next_cases host s op with he | ⟨r, reply, rfl, hr⟩ | ⟨call, now, reply, _, hr⟩
  · exact ⟨c, he ▸ hc, rfl, rfl⟩
  · by_cases hbeat : ∃ caller p claims attempts subagents now,
        r = .heartbeat caller p claims attempts subagents now
    · obtain ⟨caller, p, claims, attempts, subagents, now, rfl⟩ := hbeat
      obtain ⟨_, hx⟩ := answer_ok hr
      refine ⟨c, heartbeat_spares hf hc (fun d hd hbl => ?_) hx, rfl, rfl⟩
      exact hb _ rfl c hc d hd hbl.1 hbl.2 (hl.mono (hT _ rfl))
    · refine (Request.keeps_leases ?_ hr).row hc
      exact fun caller p claims attempts subagents now he => hbeat ⟨caller, p, claims, attempts, subagents, now, he⟩
  · exact (Call.keeps_leases hr).row hc

theorem run_lease {past later : List Op} (hb : Along Sys.BeatsInTime (next host) (after host past) later)
    (hT : ∀ op ∈ later, ∀ b ∈ op.beat, T ≤ b.now) (hc : c ∈ (after host past).db.claims) (hl : c.Lapsed T) :
    ∃ c' ∈ (after host (past ++ later)).db.claims, c'.claimId = c.claimId ∧ c'.Lapsed T := by
  induction later generalizing past c with
  | nil =>
    rw [List.append_nil]
    exact ⟨c, hc, rfl, hl⟩
  | cons op later ih =>
    obtain ⟨c₁, hc₁, hid, hlease⟩ := next_lease (after_fenced host past) hb.1 (hT op (List.mem_cons_self ..)) hc hl
    have hstep : after host (past ++ [op]) = next host (after host past) op := after_append host past [op]
    have hl₁ : c₁.Lapsed T := by
      rw [Claim.Lapsed, hlease]
      exact hl
    have hrest : Along Sys.BeatsInTime (next host) (after host (past ++ [op])) later := by
      rw [hstep]
      exact hb.2
    rw [← hstep] at hc₁
    obtain ⟨c₂, hc₂, hid₂, hl₂⟩ := ih hrest (fun o ho => hT o (List.mem_cons_of_mem op ho)) hc₁ hl₁
    rw [List.append_assoc, List.singleton_append] at hc₂
    exact ⟨c₂, hc₂, hid₂.trans hid, hl₂⟩

/-- What is lapsed authorises nothing. -/
theorem StaysLapsed.of_row (hf : Ticket.Fenced (tickets db)) (hc : c ∈ db.claims) (hl : c.Lapsed T) :
    StaysLapsed host db c.claimId T where
  lapsed := ⟨c, hc, rfl, fun t ht => hl.mono ht⟩
  dispatch := by
    intro k caller claimId fence t review x breakGlass ht hok hid
    obtain ⟨hrides, _⟩ := dispatchClaim_ok hok
    have hx := hrides x rfl
    have hlease := hx.lease
    rw [claim_eq_of_id hf hx.held hc hid] at hlease
    exact absurd hlease (Nat.not_lt.mpr (Claim.lapsed_iff.mp (hl.mono ht)))
  launch := by
    intro a caller claimId fence t out ht he ho hadmin hok
    rcases launchAuthorization_ok hok he ho with h | ⟨_, x, hx, hnode, hlive, hpurpose, hlease, hown⟩
    · exact absurd (hadmin.symm.trans h) Bool.false_ne_true
    · refine ⟨x, hx, fun hid => ?_, hnode, hlive, hpurpose, hown⟩
      rw [claim_eq_of_id hf hx hc hid] at hlease
      exact hlease (hl.mono ht)

theorem next_sweep (host : Host) (s : Sys) (actor q : String) (t : Stamp) :
    next host s (.request (.sweep actor q t)) = ⟨sweep s.db actor q t none, s.calls⟩ := by
  simp [next, stepOp, stepRequest, Request.run, Request.followUp]

theorem SweepBlind.of_time (hf : Ticket.Fenced (tickets s.db)) (hb : s.BeatsInTime op) : SweepBlind host s op where
  heartbeat := by
    rintro caller p claims attempts subagents now actor q t ht rfl
    have hsame := @heartbeat_swept s.db caller p now t claims attempts subagents actor q hf ht (hb _ rfl)
    rw [next_sweep]
    simp only [stepOp, stepRequest, Request.run, answer]
    cases hx : State.heartbeat (sweep s.db actor q t none) caller p claims attempts subagents now <;>
      cases hy : State.heartbeat s.db caller p claims attempts subagents now
    all_goals rw [hx, hy] at hsame
    all_goals simp only [Except.map, Except.error.injEq, Except.ok.injEq, reduceCtorEq] at hsame
    · rw [hsame]
      rfl
    · simp only [bind, Except.bind, pure, Except.pure, hsame]
  dispatch := by
    intro k caller claimId fence now review actor q t out ht
    rw [next_sweep]
    exact dispatchClaim_swept hf ht review out
  launch := by
    intro a caller claimId fence now actor q t out ht
    rw [next_sweep]
    exact launchAuthorization_swept hf ht a out

end Runs

/-- Lazy expiry is eager expiry where heartbeats come in time: in a run in which no
heartbeat is for a live claim that has lapsed, a claim past its lease and grace
stays so and authorises nothing, and a sweep changes no answer of a heartbeat and
lets no other dispatch or launch through. -/
theorem lazy_expiry (host : Host) (ops : List Op) (hops : Along Sys.BeatsInTime (next host) Sys.init ops) :
    (∀ past later, ops = past ++ later → ∀ c ∈ (after host past).db.claims, ∀ T, c.Lapsed T →
      (∀ op ∈ later, ∀ b ∈ op.beat, T ≤ b.now) → StaysLapsed host (after host ops).db c.claimId T) ∧
    ∀ past op later, ops = past ++ op :: later → SweepBlind host (after host past) op := by
  constructor
  · rintro past later rfl c hc T hl hT
    have hlater := (Along.append.mp hops).2
    obtain ⟨c', hc', hid, hl'⟩ := run_lease hlater hT hc hl
    rw [← hid]
    exact StaysLapsed.of_row (after_fenced host _) hc' hl'
  · rintro past op later rfl
    have hlater := (Along.append.mp hops).2
    exact SweepBlind.of_time (after_fenced host past) hlater.1

namespace Sample

/-- The end of the grace of the claim in `held`. -/
def graceOver : Stamp := addSeconds (addSeconds 1000000 7200) graceSeconds

def beaten : Op := .request (.heartbeat (driven "d1") "p" [("claim-k1", 1)] [] [] graceOver)

def swept : Op := .request (.sweep "reader" "p" graceOver)

end Sample

open Sample in
/-- A claim past its grace is swept, and its heartbeat comes too late to renew it. -/
theorem lazy_expiry_swept :
    (∃ c ∈ (after machine held).db.claims, c.claimId = "claim-k1" ∧ c.Lapsed graceOver) ∧
    StaysLapsed machine (after machine (held ++ [swept, beaten])).db "claim-k1" graceOver ∧
    SweepBlind machine (after machine (held ++ [swept])) beaten := by
  have ⟨hlapsed, hops⟩ : (∃ c ∈ (after machine held).db.claims, c.claimId = "claim-k1" ∧ c.Lapsed graceOver) ∧
      Along Sys.BeatsInTime (next machine) Sys.init (held ++ [swept, beaten]) := by
    decide
  obtain ⟨c, hc, hid, hl⟩ := hlapsed
  obtain ⟨hstays, hblind⟩ := lazy_expiry machine (held ++ [swept, beaten]) hops
  refine ⟨⟨c, hc, hid, hl⟩, ?_, hblind (held ++ [swept]) beaten [] ?_⟩
  · rw [← hid]
    refine hstays held [swept, beaten] rfl c hc graceOver hl ?_
    intro op hop b hb
    simp only [List.mem_cons, List.not_mem_nil, or_false] at hop
    rcases hop with rfl | rfl
    · cases hb
    · cases hb
      exact Nat.le_refl _
  · rw [List.append_assoc]
    rfl

open Sample in
/-- The heartbeat of an unswept claim past its grace renews it, and is refused where
a reader swept first. -/
theorem late_heartbeat_renews :
    (∃ c ∈ (after machine held).db.claims, c.claimId = "claim-k1" ∧ c.Lapsed graceOver) ∧
    ¬ StaysLapsed machine (next machine (after machine held) beaten).db "claim-k1" graceOver ∧
    ¬ SweepBlind machine (after machine held) beaten := by
  have ⟨hlapsed, hrenewed, hunswept, hswept⟩ :
      (∃ c ∈ (after machine held).db.claims, c.claimId = "claim-k1" ∧ c.Lapsed graceOver) ∧
      (∀ c ∈ (next machine (after machine held) beaten).db.claims,
        leaseState (some c.leaseExpiresAt) graceOver = .healthy) ∧
      (stepOp machine (after machine held) beaten).2.map (fun | .beaten l => l | _ => []) =
        .ok [.renewed "claim-k1"] ∧
      (stepOp machine (next machine (after machine held) swept) beaten).2.map (fun | .beaten l => l | _ => []) =
        .ok [.refused "claim-k1" "claim_not_live"] := by
    decide
  refine ⟨hlapsed, fun hstays => ?_, fun hblind => ?_⟩
  · obtain ⟨c, hc, _, hl⟩ := hstays.lapsed
    have hhealthy := hrenewed c hc
    rw [hl graceOver (Nat.le_refl _)] at hhealthy
    cases hhealthy
  · have hsame := hblind.heartbeat _ _ _ _ _ _ "reader" "p" graceOver (Nat.le_refl _) rfl
    change (stepOp machine (next machine (after machine held) swept) beaten).2 = _ at hsame
    rw [hsame, hunswept] at hswept
    cases hswept

end AItelier.State
