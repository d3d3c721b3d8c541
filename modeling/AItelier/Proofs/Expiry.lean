import AItelier.Lib.JsonText
import AItelier.Proofs.Leases

namespace AItelier.State

open AItelier.Lib

variable {db db' : DB} {host : Host} {caller : Caller} {p driver : String} {now : Stamp} {S T : List String}
  {claims attempts : List (String × Int)} {subagents : List String}

section Beats

/-- A claim whose lease runs anew, where it is one of those that are renewed. -/
def Claim.renewedIn (now : Stamp) (S : List String) (c : Claim) : Claim :=
  if c.claimId ∈ S then { c with leaseExpiresAt := addSeconds now c.leaseSeconds, lastHeartbeatAt := now } else c

def Attempt.renewedIn (now : Stamp) (T : List String) (a : Attempt) : Attempt :=
  if a.attemptId ∈ T then
    { a with
      leaseExpiresAt := a.leaseExpiresAt.map (fun _ => addSeconds now defaultLeaseSeconds)
      lastHeartbeatAt := some now }
  else a

/-- The store with some leases renewed. -/
def DB.renewedIn (now : Stamp) (S T : List String) (db : DB) : DB :=
  { db with claims := db.claims.map (Claim.renewedIn now S), attempts := db.attempts.map (Attempt.renewedIn now T) }

/-- The ids that a heartbeat item renewed. -/
def Beaten.renewedId : Beaten → Option String
  | .renewed i => some i
  | .refused _ _ => none

@[simp] theorem renewedIds_refused (i code : String) : [Beaten.refused i code].filterMap Beaten.renewedId = [] := rfl

@[simp] theorem renewedIds_renewed (i : String) : [Beaten.renewed i].filterMap Beaten.renewedId = [i] := rfl

theorem Claim.renewedIn_frame (now : Stamp) (S : List String) (c : Claim) :
    (c.renewedIn now S).claimId = c.claimId ∧ (c.renewedIn now S).projectId = c.projectId ∧
      (c.renewedIn now S).nodeKey = c.nodeKey ∧ (c.renewedIn now S).driverId = c.driverId ∧
      (c.renewedIn now S).fence = c.fence ∧ (c.renewedIn now S).status = c.status ∧
      (c.renewedIn now S).subagent = c.subagent ∧ (c.renewedIn now S).leaseSeconds = c.leaseSeconds := by
  unfold Claim.renewedIn
  split
  · exact ⟨rfl, rfl, rfl, rfl, rfl, rfl, rfl, rfl⟩
  · exact ⟨rfl, rfl, rfl, rfl, rfl, rfl, rfl, rfl⟩

theorem Attempt.renewedIn_frame (now : Stamp) (T : List String) (a : Attempt) :
    (a.renewedIn now T).attemptId = a.attemptId ∧ (a.renewedIn now T).projectId = a.projectId ∧
      (a.renewedIn now T).nodeKey = a.nodeKey ∧ (a.renewedIn now T).status = a.status ∧
      (a.renewedIn now T).ownerDriverId = a.ownerDriverId ∧ (a.renewedIn now T).ownerFence = a.ownerFence ∧
      ((a.renewedIn now T).leaseExpiresAt = none ↔ a.leaseExpiresAt = none) := by
  unfold Attempt.renewedIn
  split
  · exact ⟨rfl, rfl, rfl, rfl, rfl, rfl, Option.map_eq_none_iff⟩
  · exact ⟨rfl, rfl, rfl, rfl, rfl, rfl, Iff.rfl⟩

theorem renewedIn_nil (now : Stamp) (db : DB) : db.renewedIn now [] [] = db := by
  have hc : db.claims.map (Claim.renewedIn now []) = db.claims :=
    (List.map_congr_left (fun c _ => if_neg List.not_mem_nil)).trans (List.map_id _)
  have ha : db.attempts.map (Attempt.renewedIn now []) = db.attempts :=
    (List.map_congr_left (fun a _ => if_neg List.not_mem_nil)).trans (List.map_id _)
  rw [DB.renewedIn, hc, ha]

theorem Claim.renewedIn_again (c : Claim) (i : String) :
    (if (c.renewedIn now S).claimId = i then { (c.renewedIn now S) with
      leaseExpiresAt := addSeconds now c.leaseSeconds, lastHeartbeatAt := now } else c.renewedIn now S) =
      c.renewedIn now (S ++ [i]) := by
  rw [(c.renewedIn_frame now S).1]
  unfold Claim.renewedIn
  by_cases hi : c.claimId = i
  · rw [if_pos hi, if_pos (List.mem_append_right S (List.mem_singleton.mpr hi))]
    split
    · rfl
    · rfl
  · rw [if_neg hi]
    have hmem : c.claimId ∈ S ++ [i] ↔ c.claimId ∈ S := by
      rw [List.mem_append, List.mem_singleton, or_iff_left hi]
    simp only [hmem]

/-- Renewing one more claim. -/
theorem renewClaim_renewedIn (hn : (db.claims.map Claim.claimId).Nodup) {row : Claim} (hrow : row ∈ db.claims) :
    renewClaim now (db.renewedIn now S T) (row.renewedIn now S) = db.renewedIn now (S ++ [row.claimId]) T := by
  have hid := (row.renewedIn_frame now S).1
  have hseconds := (row.renewedIn_frame now S).2.2.2.2.2.2.2
  have hclaims : (renewClaim now (db.renewedIn now S T) (row.renewedIn now S)).claims =
      db.claims.map (Claim.renewedIn now (S ++ [row.claimId])) := by
    rw [renewClaim, DB.setClaim, DB.renewedIn]
    simp only [modifyWhere, List.map_map, hid, hseconds]
    refine List.map_congr_left (fun c hc => ?_)
    rw [← Claim.renewedIn_again]
    simp only [Function.comp_apply, decide_eq_true_eq]
    split
    · next hsame =>
      rw [(c.renewedIn_frame now S).1] at hsame
      rw [List.inj_on_of_nodup_map hn hc hrow hsame]
    · rfl
  exact congrArg (fun l => ({ db.renewedIn now S T with claims := l } : DB)) hclaims

theorem claim?_renewedIn (i : String) : (db.renewedIn now S T).claim? i = (db.claim? i).map (Claim.renewedIn now S) :=
  lookup_map (fun c => (c.renewedIn_frame now S).1) db.claims i

theorem attempt?_renewedIn (i : String) :
    (db.renewedIn now S T).attempt? i = (db.attempt? i).map (Attempt.renewedIn now T) :=
  lookup_map (fun a => (a.renewedIn_frame now T).1) db.attempts i

/-- An item for a claim is answered as if it were alone. -/
theorem beatClaim_renewedIn (hn : (db.claims.map Claim.claimId).Nodup) (S T : List String) (i : String) (fence : Int) :
    beatClaim (db.renewedIn now S T) p driver now i fence =
      ((beatClaim db p driver now i fence).1,
        db.renewedIn now (S ++ (beatClaim db p driver now i fence).1.filterMap Beaten.renewedId) T) := by
  unfold beatClaim
  rw [claim?_renewedIn]
  cases hrow : db.claim? i with
  | none => simp
  | some row =>
    obtain ⟨-, hproject, -, hdriver, hfence, hstatus, -, -⟩ := row.renewedIn_frame now S
    by_cases hp : row.projectId = p
    · have hkey : row.claimId = i := lookup_key hrow
      have hrenew : renewClaim now (db.renewedIn now S T) (row.renewedIn now S) =
          db.renewedIn now (S ++ [row.claimId]) T :=
        renewClaim_renewedIn hn (lookup_mem hrow)
      simp only [Option.map_some, Option.filter_some, hproject, hp, decide_true, if_true, hdriver, hfence, hstatus]
      split_ifs <;> simp [hrenew, hkey]
    · simp [Option.filter_some, hproject, hp]

theorem setAttempt_renewedIn (now : Stamp) (hm : (db.attempts.map Attempt.attemptId).Nodup) {row : Attempt}
    (hrow : row ∈ db.attempts)
    (hleased : row.leaseExpiresAt ≠ none) (S T : List String) :
    (db.renewedIn now S T).setAttempt row.attemptId (fun a => { a with
      leaseExpiresAt := some (addSeconds now defaultLeaseSeconds), lastHeartbeatAt := some now }) =
      db.renewedIn now S (T ++ [row.attemptId]) := by
  have hrows : modifyWhere (fun a => decide (a.attemptId = row.attemptId)) (fun a => { a with
      leaseExpiresAt := some (addSeconds now defaultLeaseSeconds), lastHeartbeatAt := some now })
        (db.attempts.map (Attempt.renewedIn now T)) =
          db.attempts.map (Attempt.renewedIn now (T ++ [row.attemptId])) := by
    simp only [modifyWhere, List.map_map]
    refine List.map_congr_left (fun a ha => ?_)
    simp only [Function.comp_apply, (a.renewedIn_frame now T).1, decide_eq_true_eq]
    by_cases hid : a.attemptId = row.attemptId
    · obtain ⟨lease, hlease⟩ := Option.ne_none_iff_exists'.mp hleased
      have hsame : a = row := List.inj_on_of_nodup_map hm ha hrow hid
      subst hsame
      rw [if_pos rfl]
      unfold Attempt.renewedIn
      rw [if_pos (List.mem_append_right T (List.mem_singleton_self _)), hlease]
      split
      · rfl
      · rfl
    · have hmem : a.attemptId ∈ T ++ [row.attemptId] ↔ a.attemptId ∈ T := by
        rw [List.mem_append, List.mem_singleton, or_iff_left hid]
      rw [if_neg hid]
      unfold Attempt.renewedIn
      simp only [hmem]
  exact congrArg (fun l => ({ db.renewedIn now S T with attempts := l } : DB)) hrows

theorem beatAttempt_renewedIn (hm : (db.attempts.map Attempt.attemptId).Nodup) (S T : List String) (i : String)
    (fence : Int) :
    beatAttempt (db.renewedIn now S T) p driver now i fence =
      ((beatAttempt db p driver now i fence).1,
        db.renewedIn now S (T ++ (beatAttempt db p driver now i fence).1.filterMap Beaten.renewedId)) := by
  unfold beatAttempt
  rw [attempt?_renewedIn]
  cases hrow : db.attempt? i with
  | none => simp
  | some row =>
    obtain ⟨-, hproject, -, hstatus, howner, hfence, hlease⟩ := row.renewedIn_frame now T
    by_cases hp : row.projectId = p
    · have hkey : row.attemptId = i := lookup_key hrow
      simp only [Option.map_some, Option.filter_some, hproject, hp, decide_true, if_true, hstatus,
        howner, hfence, hlease]
      split_ifs with hactive hleased hdriver hf
      · simp
      · simp
      · simp
      · simp
      · rw [not_or] at hleased
        have hset := setAttempt_renewedIn now hm (lookup_mem hrow) hleased.2 S T
        rw [hkey] at hset
        simp [hset]
    · simp [Option.filter_some, hproject, hp]

theorem renewClaim_row (now : Stamp) (d : DB) (S : List String) (row : Claim) :
    renewClaim now d (row.renewedIn now S) = renewClaim now d row := by
  obtain ⟨hid, -, -, -, -, -, -, hseconds⟩ := row.renewedIn_frame now S
  rw [renewClaim, renewClaim, hid, hseconds]

theorem renewAll_renewedIn (hn : (db.claims.map Claim.claimId).Nodup) {rows : List Claim}
    (hrows : ∀ r ∈ rows, r ∈ db.claims)
    (S T : List String) :
    rows.foldl (renewClaim now) (db.renewedIn now S T) = db.renewedIn now (S ++ rows.map Claim.claimId) T := by
  induction rows generalizing S with
  | nil => rw [List.foldl_nil, List.map_nil, List.append_nil]
  | cons r rows ih =>
    obtain ⟨hr, hrest⟩ := List.forall_mem_cons.mp hrows
    rw [List.foldl_cons, ← renewClaim_row now _ S r, renewClaim_renewedIn hn hr, ih hrest, List.map_cons,
      List.append_assoc, List.singleton_append]

theorem beatSubagent_renewedIn (hn : (db.claims.map Claim.claimId).Nodup) (S T : List String) (label : String) :
    beatSubagent (db.renewedIn now S T) p driver now label =
      ((beatSubagent db p driver now label).1,
        db.renewedIn now (S ++ (beatSubagent db p driver now label).1.filterMap Beaten.renewedId) T) := by
  have hrows : (db.renewedIn now S T).claims.filter (fun c => decide (c.projectId = p ∧ c.driverId = driver ∧
      c.subagent = some label ∧ c.status = .live)) = (db.claims.filter (fun c => decide (c.projectId = p ∧
        c.driverId = driver ∧ c.subagent = some label ∧ c.status = .live))).map (Claim.renewedIn now S) := by
    rw [DB.renewedIn, List.filter_map]
    refine congrArg (List.map _) (List.filter_congr (fun c _ => ?_))
    obtain ⟨-, hproject, -, hdriver, -, hstatus, hsubagent, -⟩ := c.renewedIn_frame now S
    simp only [Function.comp_apply, hproject, hdriver, hstatus, hsubagent]
  have hids (rows : List Claim) : (rows.map (fun r => Beaten.renewed r.claimId)).filterMap Beaten.renewedId =
      rows.map Claim.claimId := by
    induction rows with
    | nil => rfl
    | cons r rows ih => exact congrArg (r.claimId :: ·) ih
  have hfound : ∀ r ∈ db.claims.filter (fun c => decide (c.projectId = p ∧ c.driverId = driver ∧
      c.subagent = some label ∧ c.status = .live)), r ∈ db.claims := fun r hr => List.mem_of_mem_filter hr
  unfold beatSubagent
  simp only [hrows, List.map_eq_nil_iff]
  generalize db.claims.filter (fun c => decide (c.projectId = p ∧ c.driverId = driver ∧
      c.subagent = some label ∧ c.status = .live)) = rows at hfound
  have hout : (rows.map (Claim.renewedIn now S)).map (fun r => Beaten.renewed r.claimId) =
      rows.map (fun r => Beaten.renewed r.claimId) := by
    rw [List.map_map]
    exact List.map_congr_left (fun r _ => congrArg Beaten.renewed (r.renewedIn_frame now S).1)
  have hfold : (rows.map (Claim.renewedIn now S)).foldl (renewClaim now) (db.renewedIn now S T) =
      db.renewedIn now (S ++ rows.map Claim.claimId) T := by
    rw [List.foldl_map, ← renewAll_renewedIn hn hfound]
    simp only [renewClaim_row]
  split
  · simp
  · split
    · simp
    · rw [hout, hfold, hids]

theorem beatAll_renewedIn {ι : Type} {f : DB → ι → List Beaten × DB} (left right : ι → List String)
    (hf : ∀ S T x, f (db.renewedIn now S T) x = ((f db x).1, db.renewedIn now (S ++ left x) (T ++ right x)))
    (items : List ι) (out : List Beaten) (S T : List String) :
    beatAll f items (out, db.renewedIn now S T) =
      (out ++ items.flatMap (fun x => (f db x).1),
        db.renewedIn now (S ++ items.flatMap left) (T ++ items.flatMap right)) := by
  induction items generalizing out S T with
  | nil => simp [beatAll]
  | cons x items ih =>
    have hstep : beatAll f (x :: items) (out, db.renewedIn now S T) =
        beatAll f items (out ++ (f db x).1, db.renewedIn now (S ++ left x) (T ++ right x)) := by
      rw [beatAll, List.foldl_cons, hf]
      rfl
    rw [hstep, ih]
    simp only [List.flatMap_cons, List.append_assoc]

theorem mem_beatClaim (hn : (db.claims.map Claim.claimId).Nodup) {c : Claim} (hc : c ∈ db.claims)
    {i : String} {fence : Int} :
    c.claimId ∈ (beatClaim db p driver now i fence).1.filterMap Beaten.renewedId ↔
      c.status = .live ∧ c.projectId = p ∧ c.driverId = driver ∧ (c.claimId, (c.fence : Int)) = (i, fence) := by
  have hlookup : db.claim? c.claimId = some c := lookup_of_mem hn hc
  constructor
  · intro hin
    unfold beatClaim at hin
    split at hin
    · simp at hin
    · next row hrow =>
      obtain ⟨hfound, hp⟩ := Option.filter_eq_some_iff.mp hrow
      split_ifs at hin with hd hf hl
      · simp at hin
      · simp at hin
      · simp at hin
      · rw [renewedIds_renewed, List.mem_singleton] at hin
        rw [← hin, hlookup] at hfound
        cases hfound
        rw [not_or, not_not] at hf
        exact ⟨not_not.mp hl, of_decide_eq_true hp, not_not.mp hd, Prod.ext hin hf.1⟩
  · rintro ⟨hlive, rfl, rfl, hitem⟩
    cases hitem
    unfold beatClaim
    simp [hlookup, Option.filter_some, hlive]

theorem mem_beatSubagent (hn : (db.claims.map Claim.claimId).Nodup) {c : Claim} (hc : c ∈ db.claims) {label : String} :
    c.claimId ∈ (beatSubagent db p driver now label).1.filterMap Beaten.renewedId ↔
      c.status = .live ∧ c.projectId = p ∧ c.driverId = driver ∧ ownSubagent driver label = true ∧
        c.subagent = some label := by
  unfold beatSubagent
  split
  · next hother => simp [hother]
  · next hown =>
    dsimp only
    split
    · next hnone =>
      rw [List.filter_eq_nil_iff] at hnone
      have hnot := hnone c hc
      rw [decide_eq_true_eq] at hnot
      simp only [renewedIds_refused, List.not_mem_nil, false_iff]
      rintro ⟨hlive, hp, hd, -, hlabel⟩
      exact hnot ⟨hp, hd, hlabel, hlive⟩
    · simp only [List.mem_filterMap, List.mem_map, List.mem_filter, decide_eq_true_eq]
      constructor
      · rintro ⟨b, ⟨r, ⟨hr, hp, hd, hlabel, hlive⟩, rfl⟩, hid⟩
        have hsame : r = c := List.inj_on_of_nodup_map hn hr hc (Option.some.inj hid)
        subst hsame
        exact ⟨hlive, hp, hd, by simpa using hown, hlabel⟩
      · rintro ⟨hlive, hp, hd, -, hlabel⟩
        exact ⟨_, ⟨c, ⟨hc, hp, hd, hlabel, hlive⟩, rfl⟩, rfl⟩

/-- The heartbeat of the driver is for this attempt. -/
def Attempt.BeatenBy (a : Attempt) (p driver : String) (attempts : List (String × Int)) : Prop :=
  a.projectId = p ∧ a.ownerDriverId = some driver ∧ a.leaseExpiresAt ≠ none ∧
  (a.attemptId, (a.ownerFence : Int)) ∈ attempts

instance (a : Attempt) (p driver : String) (attempts : List (String × Int)) :
    Decidable (a.BeatenBy p driver attempts) :=
  inferInstanceAs (Decidable (_ ∧ _))

theorem mem_beatAttempt (hm : (db.attempts.map Attempt.attemptId).Nodup) {a : Attempt}
    (ha : a ∈ db.attempts) {i : String}
    {fence : Int} :
    a.attemptId ∈ (beatAttempt db p driver now i fence).1.filterMap Beaten.renewedId ↔
      a.status.active = true ∧ a.projectId = p ∧ a.ownerDriverId = some driver ∧ a.leaseExpiresAt ≠ none ∧
        (a.attemptId, (a.ownerFence : Int)) = (i, fence) := by
  have hlookup : db.attempt? a.attemptId = some a := lookup_of_mem hm ha
  constructor
  · intro hin
    unfold beatAttempt at hin
    split at hin
    · simp at hin
    · next row hrow =>
      obtain ⟨hfound, hp⟩ := Option.filter_eq_some_iff.mp hrow
      split_ifs at hin with hactive hleased hdriver hf
      · simp at hin
      · simp at hin
      · simp at hin
      · simp at hin
      · rw [renewedIds_renewed, List.mem_singleton] at hin
        rw [← hin, hlookup] at hfound
        cases hfound
        rw [not_or] at hleased
        exact ⟨by simpa using hactive, of_decide_eq_true hp, not_not.mp hdriver, hleased.2,
          Prod.ext hin (not_not.mp hf)⟩
  · rintro ⟨hactive, rfl, hdriver, hleased, hitem⟩
    cases hitem
    unfold beatAttempt
    simp [hlookup, Option.filter_some, hactive, hdriver, hleased]

theorem beat_answers {d : DB} (hclaims : d.claims = db.claims) (hattempts : d.attempts = db.attempts) :
    (∀ i fence, (beatClaim d p driver now i fence).1 = (beatClaim db p driver now i fence).1) ∧
      (∀ i fence, (beatAttempt d p driver now i fence).1 = (beatAttempt db p driver now i fence).1) ∧
        ∀ label, (beatSubagent d p driver now label).1 = (beatSubagent db p driver now label).1 := by
  refine ⟨fun i fence => ?_, fun i fence => ?_, fun label => ?_⟩
  · unfold beatClaim DB.claim?
    rw [hclaims]
    split
    · rfl
    · split_ifs <;> rfl
  · unfold beatAttempt DB.attempt?
    rw [hattempts]
    split
    · rfl
    · split_ifs <;> rfl
  · unfold beatSubagent
    rw [hclaims]
    split_ifs
    · rfl
    · dsimp only
      split_ifs <;> rfl

/-- What each item of a heartbeat is answered by a store. -/
def DB.beatAnswers (db : DB) (p driver : String) (claims attempts : List (String × Int)) (subagents : List String)
    (now : Stamp) : List Beaten :=
  claims.flatMap (fun i => (beatClaim db p driver now i.1 i.2).1) ++
    attempts.flatMap (fun i => (beatAttempt db p driver now i.1 i.2).1) ++
      subagents.flatMap (fun label => (beatSubagent db p driver now label).1)

/-- A store where the driver is back, and the leases of the live claims and active attempts that its
heartbeat is for run anew. -/
def DB.beaten (db : DB) (p driver : String) (claims attempts : List (String × Int)) (subagents : List String)
    (now : Stamp) : DB :=
  { markBack db (some driver) now with
    claims := db.claims.map (fun c => if c.status = .live ∧ c.BeatenBy p driver claims subagents then
      { c with leaseExpiresAt := addSeconds now c.leaseSeconds, lastHeartbeatAt := now } else c)
    attempts := db.attempts.map (fun a => if a.status.active = true ∧ a.BeatenBy p driver attempts then
      { a with leaseExpiresAt := some (addSeconds now defaultLeaseSeconds), lastHeartbeatAt := some now } else a) }

/-- A heartbeat writes nothing else but the caller's presence, and answers each item by what the store
held before the call. -/
theorem heartbeat_exact (hn : (db.claims.map Claim.claimId).Nodup) (hm : (db.attempts.map Attempt.attemptId).Nodup)
    {out : List Beaten} (h : heartbeat db caller p claims attempts subagents now = .ok (out, db')) :
    ∃ driver, caller.driverId = some driver ∧ out = db.beatAnswers p driver claims attempts subagents now ∧
      db' = db.beaten p driver claims attempts subagents now := by
  simp only [heartbeat, bind_ok, pure_ok] at h
  obtain ⟨driver, hd, _, _, _, _, h⟩ := h
  have hclaims : (markBack db (some driver) now).claims = db.claims := side_claims (markBack_side ..)
  have hattempts : (markBack db (some driver) now).attempts = db.attempts := by
    unfold markBack
    dsimp only
    split_ifs <;> rfl
  rw [claimDriver, requireDriver, orElse_ok, Option.filter_eq_some_iff] at hd
  refine ⟨driver, hd.1, ?_⟩
  unfold DB.beaten
  generalize markBack db (some driver) now = d at h hclaims hattempts ⊢
  obtain ⟨hclaim, hattempt, hsubagent⟩ := @beat_answers db p driver now d hclaims hattempts
  have hn' : (d.claims.map Claim.claimId).Nodup := hclaims ▸ hn
  have hm' : (d.attempts.map Attempt.attemptId).Nodup := hattempts ▸ hm
  rw [← renewedIn_nil now d,
    beatAll_renewedIn (fun i => (beatClaim d p driver now i.1 i.2).1.filterMap Beaten.renewedId) (fun _ => [])
      (fun S T i => by rw [beatClaim_renewedIn hn', List.append_nil]),
    beatAll_renewedIn (fun _ => []) (fun i => (beatAttempt d p driver now i.1 i.2).1.filterMap Beaten.renewedId)
      (fun S T i => by rw [beatAttempt_renewedIn hm', List.append_nil]),
    beatAll_renewedIn (fun label => (beatSubagent d p driver now label).1.filterMap Beaten.renewedId) (fun _ => [])
      (fun S T label => by rw [beatSubagent_renewedIn hn', List.append_nil])] at h
  obtain ⟨rfl, rfl⟩ := Prod.mk.inj h
  refine ⟨?_, ?_⟩
  · simp only [DB.beatAnswers, List.nil_append, hclaim, hattempt, hsubagent]
  · rw [← hclaims, ← hattempts]
    have hclaimRows (S : List String) (hS : ∀ c ∈ d.claims, c.claimId ∈ S ↔
        c.status = .live ∧ c.BeatenBy p driver claims subagents) :
        d.claims.map (Claim.renewedIn now S) = d.claims.map (fun c =>
          if c.status = .live ∧ c.BeatenBy p driver claims subagents then
            { c with leaseExpiresAt := addSeconds now c.leaseSeconds, lastHeartbeatAt := now } else c) := by
      refine List.map_congr_left (fun c hc => ?_)
      unfold Claim.renewedIn
      simp only [hS c hc]
    have hattemptRows (T : List String) (hT : ∀ a ∈ d.attempts, a.attemptId ∈ T ↔
        a.status.active = true ∧ a.BeatenBy p driver attempts) :
        d.attempts.map (Attempt.renewedIn now T) = d.attempts.map (fun a =>
          if a.status.active = true ∧ a.BeatenBy p driver attempts then
            { a with leaseExpiresAt := some (addSeconds now defaultLeaseSeconds), lastHeartbeatAt := some now }
              else a) := by
      refine List.map_congr_left (fun a ha => ?_)
      unfold Attempt.renewedIn
      simp only [hT a ha]
      split
      · next hbeaten =>
        obtain ⟨lease, hlease⟩ := Option.ne_none_iff_exists'.mp hbeaten.2.2.2.1
        rw [hlease]
        rfl
      · rfl
    rw [← hclaimRows _ (fun c hc => ?_), ← hattemptRows _ (fun a ha => ?_)]
    · rfl
    · simp only [List.nil_append, List.mem_append, List.mem_flatMap, List.not_mem_nil, and_false,
        exists_false, false_or,
        or_false, mem_beatAttempt hm' ha]
      constructor
      · rintro ⟨i, hi, hactive, hp, howner, hleased, hitem⟩
        exact ⟨hactive, hp, howner, hleased, hitem ▸ hi⟩
      · rintro ⟨hactive, hp, howner, hleased, hi⟩
        exact ⟨_, hi, hactive, hp, howner, hleased, rfl⟩
    · simp only [List.nil_append, List.mem_append, List.mem_flatMap, List.not_mem_nil, and_false, exists_false,
        or_false, mem_beatClaim hn' hc, mem_beatSubagent hn' hc]
      constructor
      · rintro (⟨i, hi, hlive, hp, howner, hitem⟩ | ⟨label, hlabel, hlive, hp, howner, hown, hsub⟩)
        · exact ⟨hlive, hp, howner, .inl (hitem ▸ hi)⟩
        · exact ⟨hlive, hp, howner, .inr ⟨label, hlabel, hown, hsub⟩⟩
      · rintro ⟨hlive, hp, howner, hitem | ⟨label, hlabel, hown, hsub⟩⟩
        · exact .inl ⟨_, hitem, hlive, hp, howner, rfl⟩
        · exact .inr ⟨label, hlabel, hlive, hp, howner, hown, hsub⟩

end Beats

section Expiries

variable {e : Event} {l : Lapsed} {scope : Option String} {actor : String}

/-- The lease, its end and the phase that an expiry event is about, as the log holds them. -/
def Event.expiry (e : Event) : Option (String × String × String) :=
  if e.eventType = "lease_expired" then
    some (canonical (e.payload.get "lease_id"), canonical (e.payload.get "lease_expires_at"),
      canonical (e.payload.get "phase"))
  else none

def expiryKey (leaseId : String) (expires : Stamp) (phase : LeaseState) : String × String × String :=
  (canonical (.str leaseId), canonical (.str (stampText expires)), canonical (.str phase.text))

def Lapsed.leaseId : Lapsed → String
  | .claim row _ => row.claimId
  | .attempt row _ => row.attemptId

def Lapsed.node : Lapsed → String
  | .claim row _ => row.nodeKey
  | .attempt row _ => row.nodeKey

def Lapsed.key : Lapsed → String × String × String
  | .claim row phase => expiryKey row.claimId row.leaseExpiresAt phase
  | .attempt row phase => expiryKey row.attemptId (row.leaseExpiresAt.getD 0) phase

/-- An event tells of a lapsed lease. -/
def Tells (p : String) (e : Event) (l : Lapsed) : Prop :=
  e.expiry = some l.key ∧ e.projectId = p ∧ e.nodeKey = some l.node

theorem canonical_str_inj {a b : String} (h : canonical (.str a) = canonical (.str b)) : a = b := by
  have ha : Json.loads (canonical (.str a)) = some (.str a) := Json.loads_ordered trivial
  rw [h, Json.loads_ordered (j := .str b) trivial] at ha
  cases ha
  rfl

theorem expiryKey_id {i j : String} {E F : Stamp} {a b : LeaseState} (h : expiryKey i E a = expiryKey j F b) : i = j :=
  canonical_str_inj (congrArg Prod.fst h)

theorem Lapsed.key_id {l l' : Lapsed} (h : l.key = l'.key) : l.leaseId = l'.leaseId := by
  cases l <;> cases l' <;> exact expiryKey_id h

theorem sweepOne_tells (actor p : String) (db : DB) (l : Lapsed) :
    ∃ e, (sweepOne actor p db l).events = db.events ++ [e] ∧ Tells p e l := by
  cases l with
  | claim row phase =>
    simp only [sweepOne]
    split
    · exact ⟨_, rfl, by simp [Event.expiry, Json.get, expiryPayload, Lapsed.key, expiryKey], rfl, rfl⟩
    · exact ⟨_, rfl, by simp [Event.expiry, Json.get, expiryPayload, Lapsed.key, expiryKey], rfl, rfl⟩
  | attempt row phase =>
    exact ⟨_, rfl, by simp [Event.expiry, Json.get, expiryPayload, Lapsed.key, expiryKey], rfl, rfl⟩

theorem sweepAll_tells (actor p : String) (db : DB) (ls : List Lapsed) :
    ∃ es, (ls.foldl (sweepOne actor p) db).events = db.events ++ es ∧ List.Forall₂ (Tells p) es ls := by
  induction ls generalizing db with
  | nil => exact ⟨[], (List.append_nil _).symm, .nil⟩
  | cons l ls ih =>
    obtain ⟨e, he, htells⟩ := sweepOne_tells actor p db l
    obtain ⟨es, hes, hall⟩ := ih (sweepOne actor p db l)
    refine ⟨e :: es, ?_, .cons htells hall⟩
    rw [List.foldl_cons, hes, he, List.append_assoc, List.singleton_append]

theorem tells_keys {es : List Event} {ls : List Lapsed} (h : List.Forall₂ (Tells p) es ls) :
    es.filterMap Event.expiry = ls.map Lapsed.key := by
  induction h with
  | nil => rfl
  | cons htells _ ih => rw [List.filterMap_cons, htells.1, ih, List.map_cons]

theorem sweep_attempts (db : DB) (actor p : String) (now : Stamp) (scope : Option String) :
    (sweep db actor p now scope).attempts = db.attempts := by
  unfold sweep
  generalize due db p now scope = ls
  induction ls generalizing db with
  | nil => rfl
  | cons l ls ih =>
    rw [List.foldl_cons, ih]
    cases l with
    | claim row phase =>
      simp only [sweepOne]
      split <;> rfl
    | attempt row phase => rfl

theorem expirySeen_iff {n i : String} {E : Stamp} {phase : LeaseState} :
    expirySeen db p n i E phase = true ↔
      ∃ e ∈ db.events, e.projectId = p ∧ e.nodeKey = some n ∧ e.expiry = some (expiryKey i E phase) := by
  simp only [expirySeen, List.any_eq_true, Event.isExpiry, Bool.and_eq_true, decide_eq_true_eq]
  refine exists_congr (fun e => and_congr_right (fun _ => ?_))
  unfold Event.expiry expiryKey
  constructor
  · rintro ⟨⟨⟨⟨hp, hn, htype⟩, hi⟩, hE⟩, hphase⟩
    exact ⟨hp, hn, by rw [if_pos htype, hi, hE, hphase]⟩
  · rintro ⟨hp, hn, hkey⟩
    split at hkey
    · next htype =>
      simp only [Option.some.injEq, Prod.mk.injEq] at hkey
      exact ⟨⟨⟨⟨hp, hn, htype⟩, hkey.1⟩, hkey.2.1⟩, hkey.2.2⟩
    · cases hkey

/-- What is due at a sweep: a live claim that is past its grace or whose phase has no event yet, or an
attempt whose phase has none. -/
theorem mem_due (h : l ∈ due db p now scope) :
    (∃ row ∈ db.claims, ∃ phase, l = .claim row phase ∧ row.projectId = p ∧ row.status = .live ∧
      (phase = .reclaimable ∨ expirySeen db p row.nodeKey row.claimId row.leaseExpiresAt phase = false)) ∨
      ∃ row ∈ db.attempts, ∃ phase, l = .attempt row phase ∧ row.projectId = p ∧
        expirySeen db p row.nodeKey row.attemptId (row.leaseExpiresAt.getD 0) phase = false := by
  rcases List.mem_append.mp h with h | h
  · obtain ⟨row, hrow, hdue⟩ := List.mem_filterMap.mp h
    unfold dueClaim at hdue
    dsimp only at hdue
    split_ifs at hdue with hcond
    cases hdue
    simp only [Bool.and_eq_true, decide_eq_true_eq, Bool.or_eq_true, Bool.not_eq_true'] at hcond
    exact .inl ⟨row, hrow, _, rfl, hcond.1.1.1, hcond.1.1.2.1, hcond.2⟩
  · obtain ⟨row, hrow, hdue⟩ := List.mem_filterMap.mp h
    unfold dueAttempt at hdue
    split at hdue
    · cases hdue
    · next expires hexpires =>
      dsimp only at hdue
      split_ifs at hdue with hcond
      cases hdue
      simp only [Bool.and_eq_true, decide_eq_true_eq, Bool.not_eq_true'] at hcond
      refine .inr ⟨row, hrow, _, rfl, hcond.1.1.1.1, ?_⟩
      rw [hexpires]
      exact hcond.2

/-- Leases are told apart by their ids: those of claims and of attempts begin with other words. -/
structure Named (db : DB) : Prop where
  claims : ∀ c ∈ db.claims, ∃ uid, c.claimId = "claim-" ++ uid
  attempts : ∀ a ∈ db.attempts, ∃ uid, a.attemptId = "attempt-" ++ uid

theorem claim_ne_attempt (x y : String) : "claim-" ++ x ≠ "attempt-" ++ y := by
  intro h
  have hchars := congrArg String.toList h
  rw [String.toList_append, String.toList_append] at hchars
  exact absurd (List.cons.inj hchars).1 (by decide)

/-- An event tells of a lease whose row is still there, and of the end of a claim that has ended. -/
def Located (db : DB) (e : Event) (k : String × String × String) : Prop :=
  (∃ c ∈ db.claims, k.1 = canonical (.str c.claimId) ∧ e.projectId = c.projectId ∧ e.nodeKey = some c.nodeKey ∧
    (k.2.2 = canonical (.str LeaseState.reclaimable.text) → c.status ≠ .live)) ∨
  ∃ a ∈ db.attempts, k.1 = canonical (.str a.attemptId) ∧ e.projectId = a.projectId ∧ e.nodeKey = some a.nodeKey

/-- The events of a stretch of the log, where none tells what another has told. -/
structure Heard (db : DB) (new : List Event) : Prop where
  logged : ∀ e ∈ new, e ∈ db.events
  distinct : (new.filterMap Event.expiry).Nodup
  located : ∀ e ∈ new, ∀ k, e.expiry = some k → Located db e k

/-- The rows of the leases stay, and none that has ended is live again. -/
structure Continues (db db' : DB) : Prop where
  claims : ∀ c ∈ db.claims, ∃ c' ∈ db'.claims, c'.claimId = c.claimId ∧ c'.projectId = c.projectId ∧
    c'.nodeKey = c.nodeKey ∧ (c.status ≠ .live → c'.status ≠ .live)
  attempts : ∀ a ∈ db.attempts, ∃ a' ∈ db'.attempts, a'.attemptId = a.attemptId ∧ a'.projectId = a.projectId ∧
    a'.nodeKey = a.nodeKey

variable {new : List Event}

theorem Located.continues {k : String × String × String} (h : Located db e k) (hc : Continues db db') :
    Located db' e k := by
  rcases h with ⟨c, hin, hid, hp, hn, hended⟩ | ⟨a, hin, hid, hp, hn⟩
  · obtain ⟨c', hin', hid', hp', hn', hstatus⟩ := hc.claims c hin
    exact .inl ⟨c', hin', hid' ▸ hid, hp' ▸ hp, hn' ▸ hn, fun hk => hstatus (hended hk)⟩
  · obtain ⟨a', hin', hid', hp', hn'⟩ := hc.attempts a hin
    exact .inr ⟨a', hin', hid' ▸ hid, hp' ▸ hp, hn' ▸ hn⟩

theorem Heard.continues (h : Heard db new) (hc : Continues db db') {es : List Event}
    (hlog : db'.events = db.events ++ es)
    (hquiet : ∀ e ∈ es, e.expiry = none) : Heard db' (new ++ es) := by
  have hnone : es.filterMap Event.expiry = [] := List.filterMap_eq_nil_iff.mpr hquiet
  refine ⟨fun e he => ?_, ?_, fun e he k hk => ?_⟩
  · rw [hlog]
    rcases List.mem_append.mp he with he | he
    · exact List.mem_append_left _ (h.logged e he)
    · exact List.mem_append_right _ he
  · rw [List.filterMap_append, hnone, List.append_nil]
    exact h.distinct
  · rcases List.mem_append.mp he with he | he
    · exact (h.located e he k hk).continues hc
    · rw [hquiet e he] at hk
      cases hk

theorem LeaseState.text_inj {a b : LeaseState} (h : a.text = b.text) : a = b := by
  cases a <;> cases b <;> first | rfl | exact absurd h (by decide)

/-- What is due has not been told. -/
theorem due_unheard (hn : (db.claims.map Claim.claimId).Nodup) (hm : (db.attempts.map Attempt.attemptId).Nodup)
    (hnamed : Named db) (h : Heard db new) (hl : l ∈ due db p now scope) : l.key ∉ new.filterMap Event.expiry := by
  intro hin
  obtain ⟨e, he, hkey⟩ := List.mem_filterMap.mp hin
  rcases h.located e he l.key hkey with ⟨c, hc, hid, hp, hnode, hended⟩ | ⟨a, ha, hid, hp, hnode⟩
  · rcases mem_due hl with ⟨row, hrow, phase, rfl, hproject, hlive, hdue⟩ | ⟨row, hrow, phase, rfl, -, -⟩
    · have hsame : row = c := List.inj_on_of_nodup_map hn hrow hc (canonical_str_inj hid)
      subst hsame
      rcases hdue with rfl | hunseen
      · exact hended rfl hlive
      · have hseen := expirySeen_iff.mpr ⟨e, h.logged e he, hp.trans hproject, hnode, hkey⟩
        rw [hunseen] at hseen
        cases hseen
    · obtain ⟨x, hx⟩ := hnamed.claims c hc
      obtain ⟨y, hy⟩ := hnamed.attempts row hrow
      exact claim_ne_attempt x y (hx.symm.trans ((canonical_str_inj hid).symm.trans hy))
  · rcases mem_due hl with ⟨row, hrow, phase, rfl, -, -, -⟩ | ⟨row, hrow, phase, rfl, hproject, hunseen⟩
    · obtain ⟨x, hx⟩ := hnamed.claims row hrow
      obtain ⟨y, hy⟩ := hnamed.attempts a ha
      exact claim_ne_attempt x y (hx.symm.trans ((canonical_str_inj hid).trans hy))
    · have hsame : row = a := List.inj_on_of_nodup_map hm hrow ha (canonical_str_inj hid)
      subst hsame
      have hseen := expirySeen_iff.mpr ⟨e, h.logged e he, hp.trans hproject, hnode, hkey⟩
      rw [hunseen] at hseen
      cases hseen

/-- The leases that are due are so once each. -/
theorem due_distinct (hn : (db.claims.map Claim.claimId).Nodup) (hm : (db.attempts.map Attempt.attemptId).Nodup)
    (hnamed : Named db) : ((due db p now scope).map Lapsed.key).Nodup := by
  have hsub {α : Type} {f : α → Option Lapsed} {g : α → String} (hf : ∀ a l, f a = some l →
      l.leaseId = g a) (rows : List α) :
      ((rows.filterMap f).map Lapsed.leaseId).Sublist (rows.map g) := by
    induction rows with
    | nil => exact List.Sublist.slnil
    | cons a rows ih =>
      cases ha : f a with
      | none =>
        rw [List.filterMap_cons_none ha]
        exact ih.cons (g a)
      | some l =>
        rw [List.filterMap_cons_some ha, List.map_cons, List.map_cons, hf a l ha]
        exact ih.cons_cons (g a)
  have hclaim : ∀ c l, dueClaim db p now scope c = some l → l.leaseId = c.claimId := by
    intro c l h
    unfold dueClaim at h
    dsimp only at h
    split_ifs at h
    cases h
    rfl
  have hattempt : ∀ a l, dueAttempt db p now scope a = some l → l.leaseId = a.attemptId := by
    intro a l h
    unfold dueAttempt at h
    split at h
    · cases h
    · dsimp only at h
      split_ifs at h
      cases h
      rfl
  have hids : ((due db p now scope).map Lapsed.leaseId).Nodup := by
    rw [due, List.map_append]
    refine List.nodup_append.mpr ⟨hn.sublist (hsub hclaim _), hm.sublist (hsub hattempt _), fun i hi j hj hij => ?_⟩
    obtain ⟨c, hc, rfl⟩ := List.mem_map.mp ((hsub hclaim _).subset hi)
    obtain ⟨a, ha, rfl⟩ := List.mem_map.mp ((hsub hattempt _).subset hj)
    obtain ⟨x, hx⟩ := hnamed.claims c hc
    obtain ⟨y, hy⟩ := hnamed.attempts a ha
    exact claim_ne_attempt x y (hx.symm.trans (hij.trans hy))
  rw [List.nodup_map_iff_inj_on (List.Nodup.of_map _ hids)]
  exact fun l hl l' hl' h => List.inj_on_of_nodup_map hids hl hl' (Lapsed.key_id h)

theorem expireAll_frame (ids : List String) (c : Claim) :
    (expireAll ids c).projectId = c.projectId ∧ (expireAll ids c).nodeKey = c.nodeKey ∧
      (c.status ≠ .live → (expireAll ids c).status ≠ .live) := by
  unfold expireAll
  split
  · exact ⟨rfl, rfl, fun _ h => nomatch h⟩
  · exact ⟨rfl, rfl, fun h => h⟩

theorem sweep_continues (db : DB) (actor p : String) (now : Stamp) (scope : Option String) :
    Continues db (sweep db actor p now scope) where
  claims c hc := by
    have hclaims := sweepAll_claims actor p db (due db p now scope)
    obtain ⟨hp, hn, hstatus⟩ := expireAll_frame ((due db p now scope).filterMap Lapsed.retired) c
    refine ⟨_, ?_, expireAll_claimId _ c, hp, hn, hstatus⟩
    unfold sweep
    rw [hclaims]
    exact List.mem_map_of_mem hc
  attempts a ha := ⟨a, by rw [sweep_attempts]; exact ha, rfl, rfl, rfl⟩

theorem Continues.named (h : Named db) (hclaims : db'.claims.map Claim.claimId = db.claims.map Claim.claimId)
    (hattempts : db'.attempts.map Attempt.attemptId = db.attempts.map Attempt.attemptId) : Named db' where
  claims c hc := by
    have hin : c.claimId ∈ db.claims.map Claim.claimId := hclaims ▸ List.mem_map_of_mem hc
    obtain ⟨c', hc', hid⟩ := List.mem_map.mp hin
    exact hid ▸ h.claims c' hc'
  attempts a ha := by
    have hin : a.attemptId ∈ db.attempts.map Attempt.attemptId := hattempts ▸ List.mem_map_of_mem ha
    obtain ⟨a', ha', hid⟩ := List.mem_map.mp hin
    exact hid ▸ h.attempts a' ha'

theorem sweep_claimIds (db : DB) (actor p : String) (now : Stamp) (scope : Option String) :
    (sweep db actor p now scope).claims.map Claim.claimId = db.claims.map Claim.claimId := by
  unfold sweep
  rw [sweepAll_claims, List.map_map]
  exact List.map_congr_left (fun c _ => expireAll_claimId _ c)

theorem tells_of_mem {es : List Event} {ls : List Lapsed} (h : List.Forall₂ (Tells p) es ls) (he : e ∈ es) :
    ∃ l ∈ ls, Tells p e l := by
  induction h with
  | nil => exact absurd he List.not_mem_nil
  | cons htells _ ih =>
    rcases List.mem_cons.mp he with rfl | he
    · exact ⟨_, List.mem_cons_self, htells⟩
    · obtain ⟨l, hl, htells⟩ := ih he
      exact ⟨l, List.mem_cons_of_mem _ hl, htells⟩

/-- What a sweep tells of is located, and a claim past its grace has ended by then. -/
theorem due_located (hl : l ∈ due db p now scope) (htells : Tells p e l) :
    Located (sweep db actor p now scope) e l.key := by
  obtain ⟨-, hp, hnode⟩ := htells
  rcases mem_due hl with ⟨row, hrow, phase, rfl, hproject, -, -⟩ | ⟨row, hrow, phase, rfl, hproject, -⟩
  · obtain ⟨hproject', hnode', -⟩ := expireAll_frame ((due db p now scope).filterMap Lapsed.retired) row
    refine .inl ⟨expireAll ((due db p now scope).filterMap Lapsed.retired) row, ?_, ?_, ?_, ?_, fun hphase => ?_⟩
    · unfold sweep
      rw [sweepAll_claims]
      exact List.mem_map_of_mem hrow
    · rw [expireAll_claimId]
      rfl
    · rw [hproject', hp, hproject]
    · rw [hnode', hnode]
      rfl
    · have hover : phase = .reclaimable := LeaseState.text_inj (canonical_str_inj hphase)
      have hretired : row.claimId ∈ (due db p now scope).filterMap Lapsed.retired :=
        List.mem_filterMap.mpr ⟨_, hl, if_pos hover⟩
      rw [expireAll_of_mem hretired]
      exact fun h => nomatch h
  · refine .inr ⟨row, ?_, rfl, hp.trans hproject.symm, hnode⟩
    rw [sweep_attempts]
    exact hrow

theorem sweep_heard (hn : (db.claims.map Claim.claimId).Nodup) (hm : (db.attempts.map Attempt.attemptId).Nodup)
    (hnamed : Named db) (h : Heard db new) (actor p : String) (now : Stamp) (scope : Option String) :
    ∃ es, (sweep db actor p now scope).events = db.events ++ es ∧ Heard (sweep db actor p now scope) (new ++ es) := by
  obtain ⟨es, hes, hall⟩ := sweepAll_tells actor p db (due db p now scope)
  refine ⟨es, hes, ⟨fun e he => ?_, ?_, fun e he k hk => ?_⟩⟩
  · unfold sweep
    rw [hes]
    rcases List.mem_append.mp he with he | he
    · exact List.mem_append_left _ (h.logged e he)
    · exact List.mem_append_right _ he
  · rw [List.filterMap_append, tells_keys hall]
    refine List.nodup_append.mpr ⟨h.distinct, due_distinct hn hm hnamed, fun k hk k' hk' heq => ?_⟩
    obtain ⟨l, hl, rfl⟩ := List.mem_map.mp hk'
    exact due_unheard hn hm hnamed h hl (heq ▸ hk)
  · rcases List.mem_append.mp he with he | he
    · exact (h.located e he k hk).continues (sweep_continues db actor p now scope)
    · obtain ⟨l, hl, htells⟩ := tells_of_mem hall he
      rw [htells.1] at hk
      cases hk
      exact due_located hl htells

theorem markBack_rows (db : DB) (d : Option String) (now : Stamp) :
    (markBack db d now).claims = db.claims ∧ (markBack db d now).attempts = db.attempts ∧
      (markBack db d now).events = db.events := by
  cases d with
  | none => exact ⟨rfl, rfl, rfl⟩
  | some d =>
    unfold markBack
    dsimp only
    split
    · exact ⟨rfl, rfl, rfl⟩
    · exact ⟨rfl, rfl, rfl⟩

/-- A call that takes, renews or retires leases. The id of a new claim begins with its kind. -/
inductive Leasing
  | claim (caller : Caller) (request : ClaimRequest) (uid : String) (now : Stamp)
  | beat (caller : Caller) (projectId : String) (claims attempts : List (String × Int))
      (subagents : List String) (now : Stamp)
  | sweep (actor projectId : String) (now : Stamp)

def Leasing.op : Leasing → Op
  | .claim caller request uid now => .request (.claimNode caller request ("claim-" ++ uid) now)
  | .beat caller projectId claims attempts subagents now =>
      .request (.heartbeat caller projectId claims attempts subagents now)
  | .sweep actor projectId now => .request (.sweep actor projectId now)

/-- A transaction adds to the log what has not been told. -/
structure Tidy (db db' : DB) : Prop where
  named : Named db'
  heard : ∀ new, Heard db new → ∃ es, db'.events = db.events ++ es ∧ Heard db' (new ++ es)

theorem Tidy.refl (h : Named db) : Tidy db db :=
  ⟨h, fun new hnew => ⟨[], (List.append_nil _).symm, (List.append_nil new).symm ▸ hnew⟩⟩

theorem Tidy.trans {db'' : DB} (h : Tidy db db') (h' : Tidy db' db'') : Tidy db db'' := by
  refine ⟨h'.named, fun new hnew => ?_⟩
  obtain ⟨es, hes, hheard⟩ := h.heard new hnew
  obtain ⟨fs, hfs, hheard'⟩ := h'.heard _ hheard
  exact ⟨es ++ fs, by rw [hfs, hes, List.append_assoc], by rw [← List.append_assoc]; exact hheard'⟩

theorem Continues.of_rows (hclaims : db'.claims = db.claims) (hattempts : db'.attempts = db.attempts) :
    Continues db db' where
  claims c hc := ⟨c, hclaims ▸ hc, rfl, rfl, rfl, id⟩
  attempts a ha := ⟨a, hattempts ▸ ha, rfl, rfl, rfl⟩

theorem markBack_tidy (h : Named db) (d : Option String) (now : Stamp) : Tidy db (markBack db d now) := by
  obtain ⟨hclaims, hattempts, hevents⟩ := markBack_rows db d now
  refine ⟨Continues.named h (by rw [hclaims]) (by rw [hattempts]), fun new hnew => ⟨[], ?_, ?_⟩⟩
  · rw [hevents, List.append_nil]
  · exact hnew.continues (.of_rows hclaims hattempts) (by rw [hevents, List.append_nil])
      (fun e he => absurd he List.not_mem_nil)

theorem sweep_tidy (hn : (db.claims.map Claim.claimId).Nodup) (hm : (db.attempts.map Attempt.attemptId).Nodup)
    (h : Named db) (actor p : String) (now : Stamp) (scope : Option String) : Tidy db (sweep db actor p now scope) :=
  ⟨Continues.named h (sweep_claimIds db actor p now scope) (by rw [sweep_attempts]),
    fun new hnew => sweep_heard hn hm h hnew actor p now scope⟩

theorem acquire_tidy {reason uid : String} {claim : Claim} {extra : List (String × Json)} (h : Named db)
    (hid : claim.claimId = "claim-" ++ uid) (hacq : acquire db actor claim reason extra = .ok db') : Tidy db db' := by
  obtain ⟨-, rfl⟩ := acquire_ok hacq
  refine ⟨⟨fun c hc => ?_, h.attempts⟩, fun new hnew =>
    ⟨_, rfl, hnew.continues ⟨fun c hc => ?_, fun a ha => ?_⟩ rfl ?_⟩⟩
  · rcases List.mem_append.mp hc with hc | hc
    · exact h.claims c hc
    · rw [List.mem_singleton.mp hc]
      exact ⟨uid, hid⟩
  · exact ⟨c, List.mem_append_left _ hc, rfl, rfl, rfl, id⟩
  · exact ⟨a, ha, rfl, rfl, rfl⟩
  · intro e he
    rw [List.mem_singleton.mp he]
    rfl

theorem claimNode_tidy (hn : (db.claims.map Claim.claimId).Nodup) (hm : (db.attempts.map Attempt.attemptId).Nodup)
    (hnamed : Named db) {r : ClaimRequest} {uid : String} {c : Claim}
    (h : claimNode host db caller r ("claim-" ++ uid) now = .ok (c, db')) : Tidy db db' := by
  simp only [claimNode, bind_ok] at h
  obtain ⟨driver, _, _, _, _, _, _, _, _, _, node, _, h⟩ := h
  have hback := markBack_tidy hnamed (some driver) now
  obtain ⟨hclaims, hattempts, -⟩ := markBack_rows db (some driver) now
  split at h
  · simp only [bind_ok, pure_ok, Prod.mk.injEq] at h
    obtain ⟨_, _, _, rfl⟩ := h
    exact hback
  · simp only [bind_ok, pure_ok, rescue_ok, Prod.mk.injEq] at h
    obtain ⟨_, _, _, _, _, _, _, hacq, _, rfl⟩ := h
    have hsweep := sweep_tidy (hclaims ▸ hn) (hattempts ▸ hm) hback.named caller.actor r.projectId now (some r.nodeKey)
    exact (hback.trans hsweep).trans (acquire_tidy hsweep.named rfl hacq)

theorem heartbeat_tidy (hn : (db.claims.map Claim.claimId).Nodup) (hm : (db.attempts.map Attempt.attemptId).Nodup)
    (hnamed : Named db) {out : List Beaten}
    (h : heartbeat db caller p claims attempts subagents now = .ok (out, db')) : Tidy db db' := by
  obtain ⟨driver, -, -, rfl⟩ := heartbeat_exact hn hm h
  obtain ⟨-, -, hevents⟩ := markBack_rows db (some driver) now
  unfold DB.beaten
  refine ⟨Continues.named hnamed ?_ ?_, fun new hnew => ⟨[], ?_, hnew.continues ⟨fun c hc => ?_, fun a ha => ?_⟩ ?_ ?_⟩⟩
  · rw [List.map_map]
    refine List.map_congr_left (fun c _ => ?_)
    simp only [Function.comp_apply]
    split <;> rfl
  · rw [List.map_map]
    refine List.map_congr_left (fun a _ => ?_)
    simp only [Function.comp_apply]
    split <;> rfl
  · rw [hevents, List.append_nil]
  · refine ⟨_, List.mem_map_of_mem hc, ?_⟩
    split
    · exact ⟨rfl, rfl, rfl, id⟩
    · exact ⟨rfl, rfl, rfl, id⟩
  · refine ⟨_, List.mem_map_of_mem ha, ?_⟩
    split
    · exact ⟨rfl, rfl, rfl⟩
    · exact ⟨rfl, rfl, rfl⟩
  · rw [hevents, List.append_nil]
  · exact fun e he => absurd he List.not_mem_nil

theorem next_request (host : Host) (s : Sys) (r : Request) :
    (next host s (.request r)).db = s.db ∨ ∃ reply, r.run host s.db = .ok (reply, (next host s (.request r)).db) := by
  cases h : r.run host s.db with
  | error err => exact .inl (by simp [next, stepOp, stepRequest, h])
  | ok out => exact .inr ⟨out.1, by simp [next, stepOp, stepRequest, h]⟩

/-- One such call adds to the log what has not been told. -/
theorem leasing_tidy (host : Host) (ops : List Op) (call : Leasing) (hnamed : Named (after host ops).db) :
    Tidy (after host ops).db (after host (ops ++ [call.op])).db := by
  have hn : ((after host ops).db.claims.map Claim.claimId).Nodup := claimIds_distinct (after_fenced host ops)
  have hm : ((after host ops).db.attempts.map Attempt.attemptId).Nodup := (after_orderly host ops).distinct
  rw [after_snoc]
  cases call with
  | claim caller request uid now =>
    rcases next_request host (after host ops) (.claimNode caller request ("claim-" ++ uid) now) with
      hsame | ⟨reply, hrun⟩
    · rw [Leasing.op, hsame]
      exact .refl hnamed
    · simp only [Request.run] at hrun
      obtain ⟨_, hrun⟩ := answer_ok hrun
      exact claimNode_tidy hn hm hnamed hrun
  | beat caller p claims attempts subagents now =>
    rcases next_request host (after host ops) (.heartbeat caller p claims attempts subagents now) with
      hsame | ⟨reply, hrun⟩
    · rw [Leasing.op, hsame]
      exact .refl hnamed
    · obtain ⟨_, hrun⟩ := answer_ok hrun
      exact heartbeat_tidy hn hm hnamed hrun
  | sweep actor p now => exact sweep_tidy hn hm hnamed actor p now none

theorem leasings_tidy (host : Host) (ops : List Op) (calls : List Leasing) (hnamed : Named (after host ops).db) :
    Tidy (after host ops).db (after host (ops ++ calls.map Leasing.op)).db := by
  induction calls generalizing ops with
  | nil =>
    rw [List.map_nil, List.append_nil]
    exact .refl hnamed
  | cons call calls ih =>
    have hfirst := leasing_tidy host ops call hnamed
    have hrest := ih (ops ++ [call.op]) hfirst.named
    rw [List.append_assoc, List.singleton_append] at hrest
    exact hfirst.trans hrest

/-- What the calls that take, renew and retire leases do to the log and the rows of a store. -/
structure LeaseEffects (host : Host) (ops : List Op) (calls : List Leasing) : Prop where
  once : ∃ new, (after host (ops ++ calls.map Leasing.op)).db.events = (after host ops).db.events ++ new ∧
    (new.filterMap Event.expiry).Nodup
  sweeps : ∀ actor p now scope, (sweep (after host (ops ++ calls.map Leasing.op)).db actor p now scope).attempts =
    (after host (ops ++ calls.map Leasing.op)).db.attempts
  beats : ∀ caller p claims attempts subagents now out db',
    heartbeat (after host (ops ++ calls.map Leasing.op)).db caller p claims attempts subagents now = .ok (out, db') →
      ∃ driver, caller.driverId = some driver ∧
        out = (after host (ops ++ calls.map Leasing.op)).db.beatAnswers p driver claims attempts subagents now ∧
        db' = (after host (ops ++ calls.map Leasing.op)).db.beaten p driver claims attempts subagents now

/-- However claims, heartbeats and sweeps follow each other, no expiry is logged twice, a sweep writes no
attempt, and a heartbeat writes the leases it is for. -/
theorem lease_effects (host : Host) (ops : List Op) (hnamed : Named (after host ops).db) (calls : List Leasing) :
    LeaseEffects host ops calls where
  once := by
    have hempty : Heard (after host ops).db [] :=
      ⟨fun e he => absurd he List.not_mem_nil, List.nodup_nil, fun e he => absurd he List.not_mem_nil⟩
    obtain ⟨new, hnew, hheard⟩ := (leasings_tidy host ops calls hnamed).heard [] hempty
    exact ⟨new, hnew, hheard.distinct⟩
  sweeps actor p now scope := sweep_attempts _ actor p now scope
  beats caller p claims attempts subagents now out db' h :=
    heartbeat_exact (claimIds_distinct (after_fenced host _)) (after_orderly host _).distinct h

end Expiries

namespace Sample

def labelled : List Op := guarded ++ [.request (.claimNode (driven "d1")
  ⟨"p", "a", .implement, 1, "k1", 7200, "h:/w#one", some "d1/x"⟩ "claim-k1" 1000000)]

end Sample

open Sample in
/-- A lapsed claim is swept twice. -/
theorem lease_effects_swept :
    LeaseEffects machine held [.sweep "reader" "p" graceOver, .sweep "reader" "p" graceOver] := by
  have hclaims : (after machine held).db.claims.map Claim.claimId = ["claim-k1"] := by decide
  have hattempts : (after machine held).db.attempts.map Attempt.attemptId = [] := by decide
  refine lease_effects machine held ⟨fun c hc => ⟨"k1", ?_⟩, fun a ha => ?_⟩ _
  · have hin := List.mem_map_of_mem (f := Claim.claimId) hc
    rw [hclaims] at hin
    exact List.mem_singleton.mp hin
  · have hin := List.mem_map_of_mem (f := Attempt.attemptId) ha
    rw [hattempts] at hin
    exact absurd hin List.not_mem_nil

open Sample in
/-- The heartbeat of a subagent renews a claim whose fence it does not name. -/
theorem subagent_beats_unfenced : ¬ ∀ (host : Host) (ops : List Op) (caller : Caller) (p : String)
    (claims attempts : List (String × Int)) (subagents : List String) (now : Stamp) (out : List Beaten) (db' : DB),
    heartbeat (after host ops).db caller p claims attempts subagents now = .ok (out, db') →
    ∀ c ∈ (after host ops).db.claims, ∀ c' ∈ db'.claims, c'.claimId = c.claimId → c'.leaseExpiresAt ≠ c.leaseExpiresAt →
      (c.claimId, (c.fence : Int)) ∈ claims := by
  intro h
  have hrun : (match heartbeat (after machine Sample.labelled).db (driven "d1") "p" [] [] ["d1/x"] 2000000 with
      | .ok (_, db') => (after machine Sample.labelled).db.claims.any (fun c => db'.claims.any (fun c' =>
          decide (c'.claimId = c.claimId ∧ c'.leaseExpiresAt ≠ c.leaseExpiresAt)))
      | .error _ => false) = true := by
    decide
  cases hbeat : heartbeat (after machine Sample.labelled).db (driven "d1") "p" [] [] ["d1/x"] 2000000 with
  | error err =>
    rw [hbeat] at hrun
    cases hrun
  | ok r =>
    rw [hbeat] at hrun
    obtain ⟨c, hc, hrest⟩ := List.any_eq_true.mp hrun
    obtain ⟨c', hc', hboth⟩ := List.any_eq_true.mp hrest
    obtain ⟨hid, hmoved⟩ := of_decide_eq_true hboth
    exact absurd (h machine Sample.labelled (driven "d1") "p" [] [] ["d1/x"] 2000000 r.1 r.2 hbeat c hc
      c' hc' hid hmoved)
      List.not_mem_nil

end AItelier.State
