import AItelier.Mail.Permanence

namespace AItelier.Mail

open AItelier.Lib AItelier.State

variable {rt : Runtime} {m m' : Mailbox} {p : Provider}

section Records

/-- The records of answered requests only grow. -/
theorem deliver_records {message : Message} {v3 : Bool} {summary : String} {acc acc' : Mailbox × List Delivery}
    {target : String × String} (h : deliver message v3 summary acc target = .ok acc') :
    acc'.1.idempotency = acc.1.idempotency := by
  simp only [deliver, bind_ok, pure_ok] at h
  obtain ⟨m₁, hins, m₂, hreq, rfl⟩ := h
  obtain ⟨-, rfl⟩ := insertDelivery_ok hins
  obtain ⟨required, rfl, -⟩ := requireMembers_ok hreq
  rw [nextDeliverySeq_rest]
  rfl

theorem writeV3_records (m : Mailbox) (p : Provider) (r : TransitionRequest) (d : Delivery) (message : Message)
    (driver : String) : m.idempotency <+: (writeV3 m p r d message driver).2.idempotency := by
  have hstatus : (v3Status m r d message driver).2.idempotency = m.idempotency := by
    unfold v3Status recordAck
    split
    · dsimp only
      split_ifs <;> rfl
    · rfl
  unfold writeV3 record
  dsimp only
  split_ifs
  · rw [show m.idempotency = _ from hstatus.symm]
    exact List.prefix_append _ _
  · rw [show m.idempotency = _ from hstatus.symm]
    exact List.prefix_append _ _

theorem transitioned_records {r : TransitionRequest} {b : Bool} (h : Transitioned m p r b m') :
    m.idempotency <+: m'.idempotency := by
  cases h with
  | replayed => exact List.prefix_refl _
  | noted d answer found already => exact List.prefix_append _ _
  | single d answer found open_ legal => exact List.prefix_append _ _
  | each d message driver found open_ unresolved new => exact writeV3_records ..

theorem setMembership_records {r : MembershipRequest} (h : setMembership m r = .ok m') :
    m'.idempotency = m.idempotency := by
  simp only [setMembership, bind_ok] at h
  obtain ⟨_, _, _, _, _, _, _, _, _, _, h⟩ := h
  split at h
  · refine foldlM_invariant (I := fun x => x.idempotency = m.idempotency) (fun x c x' hx hc => ?_) rfl h
    simp only [removeRequired, bind_ok, orElse_ok, pure_ok] at hc
    obtain ⟨d, _, message, _, rfl⟩ := hc
    rw [← hx]
    split_ifs <;> rfl
  · rw [pure_ok] at h
    subst h
    rfl

end Records

section Sends

/-- The letter of an answer. -/
def Answer.letter : Answer → Option Letter
  | .sent letter _ _ => some letter
  | .moved .. => none

theorem success_letter (schema : Protocol) (answer : Answer) (b : Bool) :
    (success schema answer b).answer.letter = answer.letter := by
  cases schema <;> cases answer <;> rfl

/-- The record that answers a send. -/
def sendRecord (m : Mailbox) (actor scope requestKey : String) : Option Idempotency :=
  m.idempotency.find? (fun r => decide (r.actor = actor ∧ r.scopeProjectId = scope ∧ r.operation = .send ∧
    r.requestKey = requestKey))

theorem sendNew_ok {r : SendRequest} {destination : Destination} {answer : Answer}
    (h : sendNew rt m p r destination = .ok (answer, m')) :
    ∃ letter, answer.letter = some letter ∧ m'.idempotency = m.idempotency ++
      [⟨p.actor, r.senderProjectId, .send, r.requestKey, r.payload, answer⟩] := by
  simp only [sendNew, bind_ok, pure_ok, Prod.mk.injEq, ensure_ok] at h
  obtain ⟨_, _, ⟨targets, thread⟩, _, _, _, _, _, ⟨m₁, sent⟩, hloop, hanswer, hm⟩ := h
  have hkept : m₁.idempotency = m.idempotency :=
    foldlM_invariant (I := fun acc : Mailbox × List Delivery => acc.1.idempotency = m.idempotency)
      (fun acc t acc' hacc ht => (deliver_records ht).trans hacc) rfl hloop
  rw [hanswer] at hm
  refine ⟨_, (congrArg Answer.letter hanswer).symm, ?_⟩
  rw [← hm, ← hkept]
  rfl

/-- A send that no record answers is recorded with its payload and its letter. -/
theorem send_new {r : SendRequest} {reply : Reply} (h : sendDirectorMessage rt m p r = .ok (reply, m'))
    (hnew : reply.replayed = false) :
    ∃ r' destination answer letter, r.validate rt = .ok (r', destination) ∧ answer.letter = some letter ∧
      reply.answer.letter = some letter ∧ sendRecord m p.actor r'.senderProjectId r'.requestKey = none ∧
      m'.idempotency = m.idempotency ++
        [⟨p.actor, r'.senderProjectId, .send, r'.requestKey, r'.payload, answer⟩] := by
  simp only [sendDirectorMessage, exposed_ok, bind_ok] at h
  obtain ⟨⟨r', destination⟩, hv, found, hdedupe, h⟩ := h
  cases found with
  | some answer =>
    simp only [pure_ok, Prod.mk.injEq] at h
    obtain ⟨rfl, rfl⟩ := h
    rw [success_replayed] at hnew
    cases hnew
  | none =>
    have hnone : sendRecord m p.actor r'.senderProjectId r'.requestKey = none := by
      unfold dedupe at hdedupe
      split at hdedupe
      · next hfind => exact hfind
      · simp only [bind_ok, pure_ok, reduceCtorEq, and_false, exists_false] at hdedupe
    simp only [bind_ok, pure_ok, Prod.mk.injEq] at h
    obtain ⟨⟨answer, m₂⟩, hsend, rfl, rfl⟩ := h
    obtain ⟨letter, hletter, hrows⟩ := sendNew_ok hsend
    refine ⟨r', destination, answer, letter, hv, hletter, ?_, hnone, hrows⟩
    rw [success_letter]
    exact hletter

theorem sendDirectorMessage_records {r : SendRequest} {reply : Reply}
    (h : sendDirectorMessage rt m p r = .ok (reply, m')) : m.idempotency <+: m'.idempotency := by
  cases hb : reply.replayed with
  | true =>
    rcases sendDirectorMessage_ok h with ⟨-, rfl⟩ | ⟨_, _, _, _, _, _, _, -, hnew, -⟩
    · exact List.prefix_refl _
    · rw [hb] at hnew
      cases hnew
  | false =>
    obtain ⟨r', destination, answer, letter, -, -, -, -, hrows⟩ := send_new h hb
    rw [hrows]
    exact List.prefix_append _ _

theorem next_records (rt : Runtime) (m : Mailbox) (op : Op) : m.idempotency <+: (next rt m op).idempotency := by
  unfold next
  split
  · next x hx =>
    cases op with
    | send p r =>
      simp only [stepOp, map_ok] at hx
      obtain ⟨⟨reply, m'⟩, hs, rfl⟩ := hx
      exact sendDirectorMessage_records hs
    | transition p r =>
      simp only [stepOp, map_ok] at hx
      obtain ⟨⟨reply, m'⟩, hs, rfl⟩ := hx
      obtain ⟨k, ht⟩ := transition_ok hs
      exact transitioned_records ht
    | setMembership r =>
      simp only [stepOp, map_ok] at hx
      obtain ⟨m', hs, rfl⟩ := hx
      rw [setMembership_records hs]
    | rest projects drivers events =>
      cases hx
      exact List.prefix_refl _
  · exact List.prefix_refl _

theorem run_records (rt : Runtime) (m : Mailbox) (ops : List Op) :
    m.idempotency <+: (run (next rt) m ops).idempotency := by
  induction ops generalizing m with
  | nil => exact List.prefix_refl _
  | cons op ops ih => exact (next_records rt m op).trans (ih _)

/-- The payload is the recorded one. -/
def SamePayload (row : Idempotency) (payload : Json) : Prop :=
  canonical row.payload = canonical payload ∨ canonical (legacyPayload row.payload payload) = canonical payload

variable {r r' : SendRequest} {destination : Destination} {row : Idempotency}

theorem dedupe_recorded {actor scope requestKey : String} {payload : Json} {found : Option Answer}
    (hrow : sendRecord m actor scope requestKey = some row) :
    dedupe m actor scope .send requestKey payload = .ok found ↔
      SamePayload row payload ∧ found = some row.result := by
  have hfind := hrow
  unfold sendRecord at hfind
  unfold dedupe
  rw [hfind]
  simp only [if_true, bind_ok, ensure_ok, pure_ok]
  constructor
  · rintro ⟨_, hc, rfl⟩
    exact ⟨hc, rfl⟩
  · rintro ⟨hc, rfl⟩
    exact ⟨(), hc, rfl⟩

theorem send_recorded (hv : r.validate rt = .ok (r', destination))
    (hrow : sendRecord m p.actor r'.senderProjectId r'.requestKey = some row) (hsame : SamePayload row r'.payload) :
    sendDirectorMessage rt m p r = .ok (success r'.schema row.result true, m) := by
  simp only [sendDirectorMessage, exposed_ok, bind_ok]
  exact ⟨(r', destination), hv, some row.result, (dedupe_recorded hrow).mpr ⟨hsame, rfl⟩, rfl⟩

theorem send_found {reply : Reply} (hv : r.validate rt = .ok (r', destination))
    (hrow : sendRecord m p.actor r'.senderProjectId r'.requestKey = some row)
    (h : sendDirectorMessage rt m p r = .ok (reply, m')) :
    SamePayload row r'.payload ∧ reply = success r'.schema row.result true ∧ m' = m := by
  have hsame : SamePayload row r'.payload := by
    simp only [sendDirectorMessage, exposed_ok, bind_ok] at h
    obtain ⟨⟨r₁, d₁⟩, hv₁, found, hdedupe, -⟩ := h
    obtain ⟨rfl, rfl⟩ := Prod.mk.inj (Except.ok.inj (hv.symm.trans hv₁))
    exact ((dedupe_recorded hrow).mp hdedupe).1
  rw [send_recorded hv hrow hsame] at h
  obtain ⟨rfl, rfl⟩ := Prod.mk.inj (Except.ok.inj h)
  exact ⟨hsame, rfl, rfl⟩

theorem legacyPayload_of_send (r : SendRequest) (payload : Json) : legacyPayload r.payload payload = r.payload := by
  simp [legacyPayload, SendRequest.payload]

/-- What a send answered once answers for its key in every later state. -/
structure SendSettled (rt : Runtime) (m : Mailbox) (actor scope requestKey : String) (payload : Json)
    (letter : Letter) :
    Prop where
  answered : ∀ p r r' destination reply m', p.actor = actor → r.validate rt = .ok (r', destination) →
    r'.senderProjectId = scope → r'.requestKey = requestKey → sendDirectorMessage rt m p r = .ok (reply, m') →
    reply.answer.letter = some letter ∧ m' = m
  again : ∀ p r r' destination, p.actor = actor → r.validate rt = .ok (r', destination) →
    r'.senderProjectId = scope → r'.requestKey = requestKey → canonical r'.payload = canonical payload →
    ∃ reply, sendDirectorMessage rt m p r = .ok (reply, m)
  refused : ∀ p r r' destination, p.actor = actor → r.validate rt = .ok (r', destination) →
    r'.senderProjectId = scope → r'.requestKey = requestKey → canonical r'.payload ≠ canonical payload →
    (∃ e, sendDirectorMessage rt m p r = .error e) ∧ next rt m (.send p r) = m

theorem send_settled (rt : Runtime) (old : OldMailbox) (ops : List Op) (p : Provider) (r : SendRequest) (reply : Reply)
    (m' : Mailbox) (h : sendDirectorMessage rt (after rt old ops) p r = .ok (reply, m')) (hnew : reply.replayed = false)
    (more : List Op) :
    ∃ r' destination letter, r.validate rt = .ok (r', destination) ∧ reply.answer.letter = some letter ∧
      SendSettled rt (after rt old (ops ++ .send p r :: more)) p.actor r'.senderProjectId r'.requestKey r'.payload
        letter := by
  obtain ⟨r', destination, answer, letter, hv, hletter, hreply, hnone, hrows⟩ := send_new h hnew
  have hnext : next rt (after rt old ops) (.send p r) = m' := by
    simp [next, stepOp, h, Except.map]
  have hlater : after rt old (ops ++ .send p r :: more) = run (next rt) m' more := by
    rw [after_append, run_cons, hnext]
  obtain ⟨row, hrow, hpayload, hresult⟩ : ∃ row,
      sendRecord (after rt old (ops ++ .send p r :: more)) p.actor r'.senderProjectId r'.requestKey = some row ∧
        row.payload = r'.payload ∧ row.result = answer := by
    refine ⟨⟨p.actor, r'.senderProjectId, .send, r'.requestKey, r'.payload, answer⟩, ?_, rfl, rfl⟩
    rw [hlater]
    refine (run_records rt m' more).find?_eq_some ?_
    rw [hrows, List.find?_append, show (after rt old ops).idempotency.find? _ = none from hnone]
    simp
  have hexact : ∀ payload, SamePayload row payload ↔ canonical payload = canonical r'.payload := by
    intro payload
    simp only [SamePayload, hpayload, legacyPayload_of_send, or_self]
    exact eq_comm
  refine ⟨r', destination, letter, hv, hreply, ?_, ?_, ?_⟩
  · intro q x x' d reply' m'' hactor hx hscope hkey hsend
    rw [← hactor, ← hscope, ← hkey] at hrow
    obtain ⟨-, rfl, rfl⟩ := send_found hx hrow hsend
    rw [success_letter, hresult]
    exact ⟨hletter, rfl⟩
  · intro q x x' d hactor hx hscope hkey hsame
    rw [← hactor, ← hscope, ← hkey] at hrow
    exact ⟨_, send_recorded hx hrow ((hexact _).mpr hsame)⟩
  · intro q x x' d hactor hx hscope hkey hne
    rw [← hactor, ← hscope, ← hkey] at hrow
    cases hsend : sendDirectorMessage rt (after rt old (ops ++ .send p r :: more)) q x with
    | ok out =>
      obtain ⟨hsame, -⟩ := send_found hx hrow hsend
      exact (hne ((hexact _).mp hsame)).elim
    | error e => exact ⟨⟨e, rfl⟩, by simp [next, stepOp, hsend, Except.map]⟩

end Sends

end AItelier.Mail
