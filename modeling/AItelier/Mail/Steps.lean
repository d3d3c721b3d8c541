import AItelier.Mail.Mailbox

namespace AItelier.Mail

open AItelier.Lib AItelier.State

variable {rt : Runtime} {m m' : Mailbox} {p : Provider}

section Transition

theorem exposed_ok {α : Type} {schema : Protocol} {x : Result α} {a : α} : exposed schema x = .ok a ↔ x = .ok a := by
  unfold exposed
  split
  · split_ifs <;> simp
  · rfl

/-- The delivery already has what the transition asks for. -/
def TransitionRequest.already (p : Provider) (r : TransitionRequest) (d : Delivery) : Bool :=
  if p.v3 r.protocol false then decide (d.status = .resolved) else decide (d.status = r.target)

/-- How a transition that is not refused ends: as a replay, as a note that the
delivery is there already, or with one move of the delivery. -/
inductive Transitioned (m : Mailbox) (p : Provider) (r : TransitionRequest) : Bool → Mailbox → Prop
  | replayed : Transitioned m p r true m
  | noted (d : Delivery) (answer : Answer) (found : m.delivery? r.deliveryId = some d)
      (already : r.already p d = true) :
      Transitioned m p r false (record m p.actor r.projectId r.operation r.requestKey r.payload answer)
  | single (d : Delivery) (answer : Answer) (found : m.delivery? r.deliveryId = some d)
      (open_ : r.already p d = false)
      (legal : d.status = .unread ∧ r.target = .acknowledged ∨ d.status = .acknowledged ∧ r.target = .resolved) :
      Transitioned m p r false (record
        (m.setDelivery r.deliveryId (fun d => { d with status := r.target, version := d.version + 1 }))
        p.actor r.projectId r.operation r.requestKey r.payload answer)
  | each (d : Delivery) (message : Message) (driver : String) (found : m.delivery? r.deliveryId = some d)
      (open_ : r.already p d = false) (unresolved : d.status ≠ .resolved)
      (new : r.operation = .acknowledge → (m.ack? r.deliveryId driver).any Ack.acked = false) :
      Transitioned m p r false (writeV3 m p r d message driver).2

theorem transitionV3_ok {r : TransitionRequest} {d : Delivery} {answer : Answer} {b : Bool}
    (found : m.delivery? r.deliveryId = some d) (hv : p.v3 r.protocol false = true)
    (h : transitionV3 m p r d = .ok (answer, b, m')) : Transitioned m p r b m' := by
  simp only [transitionV3, bind_ok, ite_ok, pure_ok, ensure_ok, orElse_ok, Prod.mk.injEq] at h
  obtain ⟨driver, _, ⟨_, _, rfl, rfl⟩ | ⟨hnew, _, _, message, _, hrest⟩⟩ := h
  · exact .replayed
  · rcases hrest with ⟨hres, _, _, _, rfl, rfl⟩ | ⟨hres, _, rfl, rfl⟩
    · refine .noted d _ found ?_
      simp [TransitionRequest.already, hv, hres]
    · refine .each d message driver found ?_ hres ?_
      · simp [TransitionRequest.already, hv, hres]
      · intro hop
        rw [not_and] at hnew
        simpa using hnew hop

theorem transitionV2_ok {r : TransitionRequest} {d : Delivery} {answer : Answer}
    (hop : r.operation ≠ .send) (found : m.delivery? r.deliveryId = some d) (hv : p.v3 r.protocol false = false)
    (h : transitionV2 m p r d = .ok (answer, m')) : Transitioned m p r false m' := by
  simp only [transitionV2, ite_ok, bind_ok, ensure_ok, pure_ok, Prod.mk.injEq] at h
  rcases h with ⟨hs, _, rfl⟩ | ⟨hs, _, hlegal, _, _, _, rfl⟩
  · refine .noted d _ found ?_
    simp [TransitionRequest.already, hv, hs]
  · refine .single d _ found ?_ ?_
    · simp [TransitionRequest.already, hv, hs]
    · cases ho : r.operation with
      | send => exact absurd ho hop
      | acknowledge => simpa [ho, TransitionRequest.target] using hlegal
      | resolve => simpa [ho, TransitionRequest.target] using hlegal

theorem success_replayed (schema : Protocol) (answer : Answer) (b : Bool) :
    (success schema answer b).replayed = b := by
  cases schema <;> cases answer <;> rfl

/-- Every transition that is not refused ends in one of those ways. -/
theorem transition_ok {r : TransitionRequest} {reply : Reply} (h : transition rt m p r = .ok (reply, m')) :
    ∃ k, Transitioned m p { r with requestKey := k } reply.replayed m' := by
  simp only [transition, exposed_ok, bind_ok, ensure_ok] at h
  obtain ⟨_, hop, _, _, _, _, _, _, k, _, answer, _, h⟩ := h
  refine ⟨k, ?_⟩
  cases answer with
  | some answer =>
    simp only [pure_ok, Prod.mk.injEq] at h
    obtain ⟨rfl, rfl⟩ := h
    rw [success_replayed]
    exact .replayed
  | none =>
    simp only [bind_ok, ite_ok, pure_ok, orElse_ok, Prod.mk.injEq, Option.filter_eq_some_iff] at h
    obtain ⟨_, _, d, ⟨found, _⟩, ⟨hv, ⟨⟨answer, b, m₁⟩, hx, rfl, rfl⟩⟩ | ⟨hv, ⟨⟨answer, m₁⟩, hx, rfl, rfl⟩⟩⟩ := h
    · rw [success_replayed]
      exact transitionV3_ok found hv hx
    · rw [success_replayed]
      exact transitionV2_ok hop found (by simpa using hv) hx

end Transition

section Send

/-- What one round of a send adds: a numbered unread delivery under a new id, and
the acknowledgements it requires. -/
structure Delivered (message : Message) (m : Mailbox) (target : String × String) (d : Delivery)
    (required : List Ack) (m' : Mailbox) : Prop where
  row : d = ⟨target.2, message.messageId, target.1, (nextDeliverySeq m target.1).1, .unread, 1⟩
  fresh : ∀ x ∈ m.deliveries, x.deliveryId ≠ d.deliveryId
  deliveries : m'.deliveries = m.deliveries ++ [d]
  sequences : m'.sequences = (nextDeliverySeq m target.1).2.sequences
  acks : m'.acks = m.acks ++ required
  rows : ∀ a ∈ required, a.deliveryId = d.deliveryId ∧ a.acked = false ∧ a.id ∉ m.acks.map Ack.id
  terms : required ≠ [] → message.terms.ackMode = .broadcast
  distinct : (required.map Ack.id).Nodup
  messages : m'.messages = m.messages
  legacy : m'.legacyAcks = m.legacyAcks

theorem nextDeliverySeq_rest (m : Mailbox) (project : String) :
    (nextDeliverySeq m project).2 = { m with sequences := (nextDeliverySeq m project).2.sequences } := by
  unfold nextDeliverySeq
  split <;> rfl

theorem insertDelivery_ok {d : Delivery} (h : insertDelivery m d = .ok m') :
    (∀ x ∈ m.deliveries, x.deliveryId ≠ d.deliveryId) ∧ m' = { m with deliveries := m.deliveries ++ [d] } := by
  simp only [insertDelivery, bind_ok, ensure_ok, pure_ok] at h
  obtain ⟨_, hfresh, rfl⟩ := h
  refine ⟨fun x hx he => hfresh ?_, rfl⟩
  exact List.any_eq_true.mpr ⟨x, hx, decide_eq_true (.inl he)⟩

theorem requireMembers_ok {message : Message} {v3 : Bool} {d : Delivery}
    (h : requireMembers m message v3 d = .ok m') :
    ∃ required, m' = { m with acks := m.acks ++ required } ∧ (required.map Ack.id).Nodup ∧
      (required ≠ [] → message.terms.ackMode = .broadcast) ∧
      ∀ a ∈ required, a.deliveryId = d.deliveryId ∧ a.acked = false ∧ a.id ∉ m.acks.map Ack.id := by
  simp only [requireMembers, requireAcks, ite_ok, bind_ok, ensure_ok, pure_ok] at h
  rcases h with ⟨hmode, _, ⟨hnodup, hfresh⟩, rfl⟩ | ⟨_, h⟩
  · refine ⟨_, rfl, ?_, ?_, ?_⟩
    · rw [List.map_map]
      exact hnodup.map (fun x y he => congrArg Prod.snd he)
    · intro _
      simp only [Bool.and_eq_true, decide_eq_true_eq] at hmode
      exact hmode.2
    · intro a ha
      obtain ⟨driver, hdriver, rfl⟩ := List.mem_map.mp ha
      refine ⟨rfl, rfl, fun hmem => hfresh ?_⟩
      obtain ⟨b, hb, hid⟩ := List.mem_map.mp hmem
      have h1 : b.deliveryId = d.deliveryId := congrArg Prod.fst hid
      have h2 : b.driverId = driver := congrArg Prod.snd hid
      exact List.any_eq_true.mpr ⟨b, hb, decide_eq_true ⟨h1, h2 ▸ hdriver⟩⟩
  · cases h
    exact ⟨[], by simp, List.nodup_nil, fun hne => absurd rfl hne, by simp⟩

theorem deliver_ok {message : Message} {v3 : Bool} {summary : String} {acc acc' : Mailbox × List Delivery}
    {target : String × String} (h : deliver message v3 summary acc target = .ok acc') :
    ∃ d required, Delivered message acc.1 target d required acc'.1 := by
  simp only [deliver, bind_ok, pure_ok] at h
  obtain ⟨m₁, hins, m₂, hreq, rfl⟩ := h
  obtain ⟨hfresh, rfl⟩ := insertDelivery_ok hins
  obtain ⟨required, rfl, hdistinct, hterms, hrows⟩ := requireMembers_ok hreq
  rw [nextDeliverySeq_rest] at hfresh hrows
  refine ⟨_, required, rfl, hfresh, ?_, ?_, ?_, hrows, hterms, hdistinct, ?_, ?_⟩
  all_goals
    rw [nextDeliverySeq_rest]
    rfl

/-- A send that is not refused is a replay, or it delivers a new message. -/
theorem sendDirectorMessage_ok {r : SendRequest} {reply : Reply}
    (h : sendDirectorMessage rt m p r = .ok (reply, m')) :
    (reply.replayed = true ∧ m' = m) ∨
    ∃ message v3 summary targets m₁ sent row, m.message? message.messageId = none ∧ reply.replayed = false ∧
      List.foldlM (deliver message v3 summary) ({ m with messages := m.messages ++ [message] }, []) targets =
        .ok (m₁, sent) ∧ m' = { m₁ with idempotency := m₁.idempotency ++ [row] } := by
  simp only [sendDirectorMessage, exposed_ok, bind_ok] at h
  obtain ⟨⟨r', destination⟩, _, answer, _, h⟩ := h
  cases answer with
  | some answer =>
    simp only [pure_ok, Prod.mk.injEq] at h
    obtain ⟨rfl, rfl⟩ := h
    exact .inl ⟨success_replayed .., rfl⟩
  | none =>
    simp only [bind_ok, pure_ok, Prod.mk.injEq, sendNew, ensure_ok] at h
    obtain ⟨⟨answer, m₂⟩, ⟨_, _, ⟨targets, thread⟩, _, _, _, _, hnew, ⟨m₁, sent⟩, hloop, _, rfl⟩, rfl, rfl⟩ := h
    refine .inr ⟨_, _, _, _, m₁, sent, _, ?_, success_replayed .., hloop, rfl⟩
    exact Option.isNone_iff_eq_none.mp hnew

end Send

section Membership

/-- One round of a removal: the required row is marked, and the delivery moves on
if that completes its quorum. -/
structure Removed (driver : String) (now : Stamp) (m : Mailbox) (id : String) (m' : Mailbox) : Prop where
  acks : m'.acks = (m.setAck id driver (fun a => { a with removedAt := some now })).acks
  deliveries : ∃ d message, m.delivery? id = some d ∧ m.message? d.messageId = some message ∧
    m'.deliveries = if (detailsOf (m.setAck id driver (fun a => { a with removedAt := some now }))
        message.terms d none).quorumMet && decide (d.status ≠ .resolved) then
      (m.setDelivery id (fun d => { d with
        status := metStatus message.letter.deliveryMode, version := d.version + 1 })).deliveries
    else m.deliveries
  messages : m'.messages = m.messages
  legacy : m'.legacyAcks = m.legacyAcks
  sequences : m'.sequences = m.sequences

theorem removeRequired_ok {project driver actor id : String} {now : Stamp}
    (h : removeRequired project driver actor now m id = .ok m') : Removed driver now m id m' := by
  simp only [removeRequired, bind_ok, orElse_ok, pure_ok] at h
  obtain ⟨d, hd, message, hmessage, rfl⟩ := h
  refine ⟨?_, ⟨d, message, hd, hmessage, ?_⟩, ?_, ?_, ?_⟩
  all_goals
    split_ifs <;> rfl

end Membership

end AItelier.Mail
