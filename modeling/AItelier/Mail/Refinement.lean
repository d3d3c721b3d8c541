import AItelier.Mail.Agreement
import AItelier.Mail.Paging

namespace AItelier.Mail

open AItelier.Lib AItelier.State

variable {rt : Runtime} {supply : Supply} {n : Nat} {m m' : Mailbox} {mem : Memory} {c : Call}

theorem Call.provider_v2 (howner : c.provider.isOwner = false) : c.provider.v3 .v2 false = false := by
  rw [Provider.v3, howner]
  rfl

theorem Call.provider_actor : c.provider.actor = c.actor := rfl

section Send

variable {r : SendRequest} {destination : Destination}

/-- A request whose ids are the `n`-th draw of the supply. -/
structure SendRequest.Drawn (supply : Supply) (n : Nat) (r : SendRequest) : Prop where
  message : r.messageId = supply.id n 0
  deliveries : ∀ i, r.deliveryIds i = supply.id n (i + 1)

/-- What a send wrote. -/
structure Sent (r : SendRequest) (m m' : Mailbox) : Prop where
  projects : m'.projects = m.projects
  messages : ∃ x, m'.messages = m.messages ++ [x] ∧ x.messageId = r.messageId ∧ x.letter.threadId ≠ ""
  deliveries : ∃ news, m'.deliveries = m.deliveries ++ news ∧
    ∀ d ∈ news, d.messageId = r.messageId ∧ ∃ i, d.deliveryId = r.deliveryIds i
  records : ∃ row, m'.idempotency = m.idempotency ++ [row] ∧ row.payload = r.payload

theorem Numbered.sequences (hn : Numbered m.deliveries m.sequences) (hr : Rows m mem) (project : String) :
    ((m.sequence? project).map Sequence.nextSeq).getD 1 = (mem.inbox project).length + 1 := by
  rw [hr.inbox_length, Mailbox.sequence?, (hn project).2]
  split
  · next h => rw [h]; rfl
  · rfl

theorem Held.message_new (hh : Held supply n m) {id : String} (hid : id = supply.id n 0) : m.message? id = none := by
  apply lookup_eq_none.mpr
  intro x hx he
  obtain ⟨a, b, ha, hxid⟩ := hh.messageIds x hx
  have hsame := (supply.distinct a b n 0 (hxid.symm.trans (he.trans hid))).1
  omega

theorem Held.clear (hh : Held supply n m) {message : Message} {target : String × String} {i : Nat}
    (hmessage : message.messageId = supply.id n 0) (htarget : target.2 = supply.id n i) {d : Delivery}
    (hd : d ∈ m.deliveries) : Clear message target d := by
  obtain ⟨⟨a, b, ha, hid⟩, a', b', ha', hmid⟩ := hh.deliveryIds d hd
  constructor
  · intro he
    have hsame := (supply.distinct a b n i (hid.symm.trans (he.trans htarget))).1
    omega
  · rintro ⟨he, -⟩
    have hsame := (supply.distinct a' b' n 0 (hmid.symm.trans (he.trans hmessage))).1
    omega

theorem addressed_nodup (hdrawn : r.Drawn supply n) {targets : List String} (hnodup : targets.Nodup) :
    ((targets.zipIdx.map (fun t => (t.1, r.deliveryIds t.2))).map Prod.fst).Nodup ∧
      ((targets.zipIdx.map (fun t => (t.1, r.deliveryIds t.2))).map Prod.snd).Nodup := by
  rw [List.map_map, List.map_map]
  constructor
  · rw [show (Prod.fst ∘ fun t : String × Nat => (t.1, r.deliveryIds t.2)) = Prod.fst from rfl, List.zipIdx_map_fst]
    exact hnodup
  · have hsnd : targets.zipIdx.map (Prod.snd ∘ fun t : String × Nat => (t.1, r.deliveryIds t.2)) =
        (targets.zipIdx.map Prod.snd).map r.deliveryIds := by
      rw [List.map_map]
      rfl
    rw [hsnd, List.zipIdx_map_snd]
    refine List.Nodup.map (fun i j hij => ?_) (List.nodup_range' ..)
    rw [hdrawn.deliveries, hdrawn.deliveries] at hij
    have := (supply.distinct n (i + 1) n (j + 1) hij).2
    omega

theorem store_rest (letter : Letter) (summary : String) (mem : Memory) (ds : List Delivery) :
    (ds.foldl (Memory.store letter summary) mem).projects = mem.projects ∧
      (ds.foldl (Memory.store letter summary) mem).messages = mem.messages ∧
      (ds.foldl (Memory.store letter summary) mem).dedupe = mem.dedupe := by
  refine ⟨@foldl_keeps _ _ _ Memory.projects (Memory.store letter summary) ?_ mem ds,
    @foldl_keeps _ _ _ Memory.messages (Memory.store letter summary) ?_ mem ds,
    @foldl_keeps _ _ _ Memory.dedupe (Memory.store letter summary) ?_ mem ds⟩
  all_goals
    intro _ _
    rfl

/-- A message under a new id, stored by both. -/
theorem messages_stored {message : Message} (hc : Corresponds m mem) (hnew : m.message? message.messageId = none)
    (id : String) : (mem.messages.set message.messageId message.letter).get id =
      (lookup Message.messageId (m.messages ++ [message]) id).map Message.letter := by
  rw [Entries.get_set, hc.messages, lookup_append, lookup_singleton]
  by_cases hid : message.messageId = id
  · subst hid
    rw [if_pos rfl, if_pos rfl, show lookup Message.messageId m.messages message.messageId = none from hnew]
    rfl
  · rw [if_neg hid, if_neg hid, Option.or_none]
    rfl

/-- Both providers send a new message to the same deliveries, or refuse it with the
same code. -/
theorem sendNew_related (hh : Held supply n m) (hc : Corresponds m mem) (howner : c.provider.isOwner = false)
    (hplain : r.Plain) (hdrawn : r.Drawn supply n) (hself : destination ≠ .targeted r.senderProjectId)
    (hnone : recordOf m (c.actor, r.senderProjectId, .send, r.requestKey) = none) :
    Related SameCode (fun a b : Answer × _ => b.1 = a.1.v2 ∧ Corresponds a.2 b.2 ∧ Sent r m a.2)
      (sendNew rt m c.provider r destination) (mem.sendNew rt c.actor r destination) := by
  have hextended : r.extended = false := by rw [SendRequest.extended, hplain.ackMode, hplain.ackQuorum]; rfl
  have hv : c.provider.v3 r.protocol r.extended = false := by
    rw [hplain.protocol, hextended]
    exact Call.provider_v2 howner
  have hnew : m.message? r.messageId = none := hh.message_new hdrawn.message
  unfold sendNew Memory.sendNew
  refine (project_related hc r.senderProjectId).bind (fun _ _ _ => ?_)
  refine (targets_related hh hc hself).bind ?_
  rintro ⟨targets, thread⟩ _ ⟨rfl, hnodup, hthread⟩
  have hthread' : thread.filter (fun t => decide (t ≠ "")) = thread := by
    cases thread with
    | none => rfl
    | some t => simpa [Option.filter] using hthread
  have hthreadId : thread.getD r.messageId ≠ "" := by
    cases thread with
    | none => exact hdrawn.message ▸ supply.nonempty n 0
    | some t => simpa using hthread
  simp only [hv, Bool.false_eq_true, false_and, not_false_eq_true, hthread', hnew, Option.isNone_none, if_false,
    Call.provider_actor]
  rw [ensure_bind trivial, ensure_bind trivial]
  generalize hmessage : (⟨⟨r.messageId, thread.getD r.messageId, r.senderProjectId, r.directorIdentity, c.actor,
    r.subject, r.body, r.now, r.replyToDeliveryId, r.deliveryMode⟩, ⟨c.provider.driverId, r.ackMode.getD .atLeastN,
      (r.ackQuorum.getD 1).toNat⟩⟩ : Message) = message
  have hid : message.messageId = r.messageId := hmessage ▸ rfl
  have hletter : message.letter = ⟨r.messageId, thread.getD r.messageId, r.senderProjectId, r.directorIdentity, c.actor,
    r.subject, r.body, r.now, r.replyToDeliveryId, r.deliveryMode⟩ := hmessage ▸ rfl
  obtain ⟨hprojects, hids⟩ := addressed_nodup hdrawn hnodup
  have hclear : ∀ d ∈ m.deliveries, ∀ t ∈ targets.zipIdx.map (fun t => (t.1, r.deliveryIds t.2)),
      Clear message t d := by
    intro d hd t ht
    obtain ⟨i, -, rfl⟩ := List.mem_map.mp ht
    exact hh.clear (hid.trans hdrawn.message) (hdrawn.deliveries i.2) hd
  obtain ⟨m₁, hloop, hdel, hn₁, hp₁, hmsg₁, hi₁, hr₁⟩ :=
    @deliveries_prepared { m with messages := m.messages ++ [message] }
      { mem with messages := mem.messages.set r.messageId message.letter } message
      (String.ofList ((rt.redact (r.subject ++ "\n" ++ r.body)).toList.take 320)) [] _ message.letter
      ⟨hc.deliveries, hc.inboxes⟩ hh.numbered hprojects hids hclear
  rw [hid] at hloop hdel hr₁
  rw [hloop, ok_bind, ← hletter]
  obtain ⟨hsp, hsm, hsd⟩ := store_rest message.letter
    (String.ofList ((rt.redact (r.subject ++ "\n" ++ r.body)).toList.take 320))
    { mem with messages := mem.messages.set r.messageId message.letter }
    ((targets.zipIdx.map (fun t => (t.1, r.deliveryIds t.2))).map (mem.prepare r.messageId))
  refine .ok ⟨rfl, ?_, ?_⟩
  · refine Corresponds.record ?_ _ _ _ _ _ _ ?_
    · refine ⟨hr₁, hsp.trans (hc.projects.trans hp₁.symm), fun id => ?_, hn₁.sequences hr₁, fun k => ?_⟩
      · rw [Mailbox.message?, hmsg₁]
        exact (congrArg (fun d => Entries.get d id) hsm).trans (hid ▸ messages_stored hc (hid ▸ hnew) id)
      · rw [recordOf, hi₁]
        exact (congrArg (fun d => Entries.get d k) hsd).trans (hc.answers k)
    · rw [recordOf, hi₁]
      exact hnone
  · refine ⟨hp₁, ⟨message, hmsg₁, hid, ?_⟩, ⟨_, hdel, ?_⟩, ⟨_, congrArg (· ++ [_]) hi₁, rfl⟩⟩
    · rw [hletter]
      exact hthreadId
    · intro d hd
      obtain ⟨t, ht, rfl⟩ := List.mem_map.mp hd
      obtain ⟨i, -, rfl⟩ := List.mem_map.mp ht
      exact ⟨rfl, i.2, rfl⟩

variable {r' : SendRequest}

theorem SendRequest.Normal.plain (h : r.Normal r') (hplain : r.Plain) : r'.Plain := by
  obtain ⟨_, _, _, _, rfl⟩ := h
  exact ⟨hplain.protocol, hplain.ackMode, hplain.ackQuorum⟩

theorem SendRequest.Normal.drawn (h : r.Normal r') (hdrawn : r.Drawn supply n) :
    r'.Drawn supply n := by
  obtain ⟨_, _, _, _, rfl⟩ := h
  exact ⟨hdrawn.message, hdrawn.deliveries⟩

theorem SendRequest.Normal.sender (h : r.Normal r') : r'.senderProjectId = r.senderProjectId := by
  obtain ⟨_, _, _, _, rfl⟩ := h
  rfl

theorem SendRequest.Normal.sameDestination (h : r.Normal r') : r'.destination = r.destination := by
  obtain ⟨_, _, _, _, rfl⟩ := h
  rfl

theorem SendRequest.Plain.schema (h : r.Plain) : r.schema = .v2 := by
  rw [SendRequest.schema, SendRequest.extended, h.ackMode, h.ackQuorum, h.protocol]
  rfl

/-- What a send can leave: the mailbox as it was, or with what it wrote. -/
def SendLeft (r : SendRequest) (m m' : Mailbox) : Prop :=
  m' = m ∨ ∃ r' destination, r.Normal r' ∧ r.destination = .ok destination ∧ Sent r' m m'

/-- A send that is not targeted at its own sender is the same for both. -/
theorem send_related (hh : Held supply n m) (hc : Corresponds m mem) (howner : c.provider.isOwner = false)
    (hplain : r.Plain) (hdrawn : r.Drawn supply n) (hself : r.destination ≠ .ok (.targeted r.senderProjectId)) :
    Related SameCode (fun a b : Reply × _ => a.1 = b.1 ∧ Corresponds a.2 b.2 ∧ SendLeft r m a.2)
      (sendDirectorMessage rt m c.provider r) (mem.sendDirectorMessage rt c.actor r) := by
  unfold sendDirectorMessage Memory.sendDirectorMessage
  refine Related.exposed hplain.schema ((validate_related hplain hself).bind ?_)
  rintro ⟨r', destination⟩ _ ⟨rfl, hnormal, hd⟩
  have hself' : destination ≠ .targeted r'.senderProjectId := by
    rw [hnormal.sender]
    rintro rfl
    exact hself hd
  refine (dedupe_related hh hc c.actor r'.senderProjectId .send r'.requestKey r'.payload).bind ?_
  rintro found _ ⟨rfl, hnone⟩
  have hschema := (hnormal.plain hplain).schema
  cases found with
  | some answer => exact .ok ⟨success_v2 hschema answer true, hc, .inl rfl⟩
  | none =>
    refine (sendNew_related hh hc howner (hnormal.plain hplain) (hnormal.drawn hdrawn) hself' (hnone rfl)).bind ?_
    rintro ⟨answer, m₁⟩ ⟨_, mem₁⟩ ⟨rfl, hc₁, hsent⟩
    exact .ok ⟨success_v2 hschema answer false, hc₁, .inr ⟨r', destination, hnormal, hd, hsent⟩⟩

theorem Held.later (hh : Held supply n m) : Held supply (n + 1) m where
  projects := hh.projects
  keyed := hh.keyed
  numbered := hh.numbered
  messageIds := by
    intro x hx
    obtain ⟨a, b, ha, hid⟩ := hh.messageIds x hx
    exact ⟨a, b, Nat.lt_succ_of_lt ha, hid⟩
  deliveryIds := by
    intro d hd
    obtain ⟨⟨a, b, ha, hid⟩, a', b', ha', hmid⟩ := hh.deliveryIds d hd
    exact ⟨⟨a, b, Nat.lt_succ_of_lt ha, hid⟩, a', b', Nat.lt_succ_of_lt ha', hmid⟩
  threads := hh.threads
  sends := hh.sends

theorem Held.sent (hh : Held supply n m) (hkeyed : Keyed m') (hn : Numbered m'.deliveries m'.sequences)
    (hdrawn : r.Drawn supply n) (hself : r.targetProjectId ≠ some r.senderProjectId) (hs : Sent r m m') :
    Held supply (n + 1) m' where
  projects := hs.projects ▸ hh.projects
  keyed := hkeyed
  numbered := hn
  messageIds := by
    obtain ⟨x, hx, hid, -⟩ := hs.messages
    rw [hx]
    intro y hy
    rcases List.mem_append.mp hy with hy | hy
    · exact hh.later.messageIds y hy
    · exact ⟨n, 0, Nat.lt_succ_self n, by rw [List.mem_singleton.mp hy, hid, hdrawn.message]⟩
  deliveryIds := by
    obtain ⟨news, hnews, hids⟩ := hs.deliveries
    rw [hnews]
    intro d hd
    rcases List.mem_append.mp hd with hd | hd
    · exact hh.later.deliveryIds d hd
    · obtain ⟨hmid, i, hid⟩ := hids d hd
      exact ⟨⟨n, i + 1, Nat.lt_succ_self n, hid.trans (hdrawn.deliveries i)⟩,
        n, 0, Nat.lt_succ_self n, hmid.trans hdrawn.message⟩
  threads := by
    obtain ⟨x, hx, -, hthread⟩ := hs.messages
    rw [hx]
    intro y hy
    rcases List.mem_append.mp hy with hy | hy
    · exact hh.threads y hy
    · exact List.mem_singleton.mp hy ▸ hthread
  sends := by
    obtain ⟨row, hrow, hpayload⟩ := hs.records
    rw [hrow]
    intro y hy hop
    rcases List.mem_append.mp hy with hy | hy
    · exact hh.sends y hy hop
    · exact ⟨r, List.mem_singleton.mp hy ▸ hpayload, hself⟩

end Send

section Transition

variable {r : TransitionRequest}

/-- A moved delivery, in the model. -/
def Memory.move (mem : Memory) (id : String) (d : Delivery) : Memory :=
  { mem with deliveries := mem.deliveries.set id d }

/-- A move of one delivery, in both. -/
theorem Corresponds.move (hc : Corresponds m mem) {d : Delivery} (found : m.delivery? r.deliveryId = some d)
    (status : DeliveryStatus) :
    Corresponds (m.setDelivery r.deliveryId (fun d => { d with status := status, version := d.version + 1 }))
      (mem.move r.deliveryId { d with status := status, version := d.version + 1 }) where
  deliveries := by
    intro id
    have hrow : (m.setDelivery r.deliveryId (fun d =>
        { d with status := status, version := d.version + 1 })).delivery? id =
        (m.delivery? id).map (fun e => if decide (e.deliveryId = r.deliveryId) then
          { e with status := status, version := e.version + 1 } else e) := lookup_modifyWhere (fun _ => by rfl) _ _
    rw [Memory.move, Entries.get_set, hc.deliveries, hrow]
    by_cases hid : r.deliveryId = id
    · subst hid
      rw [if_pos rfl, found, Option.map_some, if_pos (decide_eq_true (lookup_key found))]
    · rw [if_neg hid]
      cases hl : m.delivery? id with
      | none => rfl
      | some e =>
        have hne : ¬ e.deliveryId = r.deliveryId := fun he => hid (he.symm.trans (lookup_key hl))
        rw [Option.map_some, if_neg (by simpa using hne)]
  inboxes := by
    intro project
    rw [Mailbox.setDelivery, filter_modifyWhere (fun _ => by rfl), map_modifyWhere (fun _ _ => by rfl)]
    exact hc.inboxes project
  projects := hc.projects
  messages := hc.messages
  sequences := hc.sequences
  answers := hc.answers

/-- What a v2 transition can leave: the mailbox as it was, a note that the delivery
is there already, or one move. -/
inductive MoveLeft (c : Call) (r : TransitionRequest) (m : Mailbox) : Mailbox → Prop
  | replayed : MoveLeft c r m m
  | noted (d : Delivery) (answer : Answer) (found : m.delivery? r.deliveryId = some d) (already : d.status = r.target) :
    MoveLeft c r m (record m c.actor r.projectId r.operation r.requestKey r.payload answer)
  | moved (d : Delivery) (answer : Answer) (found : m.delivery? r.deliveryId = some d) (new : d.status ≠ r.target)
      (legal : d.status = if r.operation = .acknowledge then .unread else .acknowledged) :
    MoveLeft c r m (record
      (m.setDelivery r.deliveryId (fun d => { d with status := r.target, version := d.version + 1 }))
      c.actor r.projectId r.operation r.requestKey r.payload answer)

theorem MoveLeft.transitioned (h : MoveLeft c r m m') (hop : r.operation ≠ .send)
    (hv : c.provider.v3 r.protocol false = false) : ∃ b, Transitioned m c.provider r b m' := by
  cases h with
  | replayed => exact ⟨true, .replayed⟩
  | noted d answer found already =>
    refine ⟨false, .noted d answer found ?_⟩
    rw [TransitionRequest.already, hv]
    exact decide_eq_true already
  | moved d answer found new legal =>
    refine ⟨false, .single d answer found ?_ ?_⟩
    · rw [TransitionRequest.already, hv]
      exact decide_eq_false new
    · cases ho : r.operation with
      | send => exact absurd ho hop
      | acknowledge => simpa [ho, TransitionRequest.target] using legal
      | resolve => simpa [ho, TransitionRequest.target] using legal

theorem Held.records (hh : Held supply n m) (hop : r.operation ≠ .send) {row : Idempotency}
    (hrow : row.operation = r.operation) {y : Idempotency} (hy : y ∈ m.idempotency ++ [row])
      (hs : y.operation = .send) :
    ∃ r : SendRequest, y.payload = r.payload ∧ r.targetProjectId ≠ some r.senderProjectId := by
  rcases List.mem_append.mp hy with hy | hy
  · exact hh.sends y hy hs
  · rw [List.mem_singleton.mp hy, hrow] at hs
    exact absurd hs hop

theorem Held.moved (hh : Held supply n m) (hop : r.operation ≠ .send) (hv : c.provider.v3 r.protocol false = false)
    (h : MoveLeft c r m m') : Held supply (n + 1) m' := by
  obtain ⟨b, ht⟩ := h.transitioned hop hv
  have hkeyed : Keyed m' := (transition_later hh.keyed ht).keyed
  have hnum : Numbered m'.deliveries m'.sequences := (transition_progress hh.keyed ht).numbered hh.numbered
  have hlater := hh.later
  cases h with
  | replayed => exact hlater
  | noted d answer found already =>
    exact ⟨hh.projects, hkeyed, hnum, hlater.messageIds, hlater.deliveryIds, hh.threads, fun _ => hh.records hop rfl⟩
  | moved d answer found new legal =>
    refine ⟨hh.projects, hkeyed, hnum, hlater.messageIds, ?_, hh.threads, fun _ => hh.records hop rfl⟩
    intro e he
    obtain ⟨q, hq, rfl⟩ := mem_modifyWhere.mp he
    obtain ⟨hid, hmid⟩ := hlater.deliveryIds q hq
    split <;> exact ⟨hid, hmid⟩

/-- Both providers move a delivery, or refuse the move with the same code. -/
theorem transitionNew_related (hc : Corresponds m mem) (hop : r.operation ≠ .send)
    (hnone : recordOf m (c.actor, r.projectId, r.operation, r.requestKey) = none) {d : Delivery}
    (found : m.delivery? r.deliveryId = some d) :
    Related SameCode (fun a b : Answer × _ => b.1 = a.1.v2 ∧ Corresponds a.2 b.2 ∧ MoveLeft c r m a.2)
      (transitionV2 m c.provider r d) (mem.transitionNew c.actor r d) := by
  unfold transitionV2 Memory.transitionNew
  by_cases hs : d.status = r.target
  · rw [if_pos hs, if_pos hs]
    exact .ok ⟨rfl, hc.record _ _ _ _ _ _ hnone, .noted d _ found hs⟩
  · rw [if_neg hs, if_neg hs]
    have hsource : (if r.target = .acknowledged then DeliveryStatus.unread else .acknowledged) =
        if r.operation = .acknowledge then .unread else .acknowledged := by
      cases ho : r.operation with
      | send => exact absurd ho hop
      | acknowledge => simp [TransitionRequest.target, ho]
      | resolve => simp [TransitionRequest.target, ho]
    rw [hsource]
    refine Related.bind (R := fun _ _ => d.status = if r.operation = .acknowledge then .unread else .acknowledged)
      (Related.ensure (fun h => h) (sameCode .invalidTransition rfl ..)) (fun _ _ hlegal => ?_)
    refine Related.bind (Related.ensure (R := fun _ _ => True) (fun _ => trivial) (sameCode .versionConflict rfl ..))
      (fun _ _ _ => .ok ⟨rfl, ?_, .moved d _ found hs hlegal⟩)
    exact (hc.move found r.target).record _ _ _ _ _ _ hnone

/-- A transition is the same for both. -/
theorem transition_related (hh : Held supply n m) (hc : Corresponds m mem) (howner : c.provider.isOwner = false)
    (hprotocol : r.protocol = .v2) (hop : r.operation ≠ .send) :
    Related SameCode (fun a b : Reply × _ => a.1 = b.1 ∧ Corresponds a.2 b.2 ∧
        ∃ k, MoveLeft c { r with requestKey := k } m a.2)
      (transition rt m c.provider r) (mem.transition rt c.actor r) := by
  have hv : c.provider.v3 r.protocol false = false := hprotocol ▸ Call.provider_v2 howner
  unfold transition Memory.transition
  refine Related.exposed hprotocol ?_
  rw [ensure_bind hop]
  refine (dbId_related ..).bind (fun _ _ _ => ?_)
  refine (dbId_related ..).bind (fun _ _ _ => ?_)
  refine Related.bind (Related.ensure (R := fun _ _ => True) (fun _ => trivial) (sameInvalid ..)) (fun _ _ _ => ?_)
  refine (nfcText_related ..).bind ?_
  rintro k _ rfl
  refine (dedupe_related hh hc c.actor r.projectId r.operation k _).bind ?_
  rintro found _ ⟨rfl, hnone⟩
  cases found with
  | some answer => exact .ok ⟨success_v2 hprotocol answer true, hc, k, .replayed⟩
  | none =>
    refine (project_related hc r.projectId).bind (fun _ _ _ => ?_)
    rw [hc.deliveries]
    refine Related.bind (R := fun a b : Delivery => a = b ∧ m.delivery? r.deliveryId = some a) ?_ ?_
    · refine Related.orElse (fun d h => ⟨d, h, rfl, ?_⟩) (fun h => h) (sameCode .unknownDelivery rfl ..)
      exact (Option.filter_eq_some_iff.mp h).1
    rintro d _ ⟨rfl, found⟩
    simp only [hv, Bool.false_eq_true, if_false]
    refine (transitionNew_related (r := { r with requestKey := k }) hc hop (hnone rfl) found).bind ?_
    rintro ⟨answer, m₁⟩ ⟨_, mem₁⟩ ⟨rfl, hc₁, hleft⟩
    exact .ok ⟨success_v2 hprotocol answer false, hc₁, k, hleft⟩

end Transition

section Pages

variable {q : InboxFilter}

/-- A v2 reader that asks for no acknowledgement. -/
structure InboxFilter.Plain (q : InboxFilter) : Prop where
  protocol : q.protocol = .v2
  needsMyAck : q.needsMyAck = false
  ackMode : q.ackMode = none

theorem joined_unsorted (hn : Numbered m.deliveries m.sequences) (project : String) :
    joined m project = (m.deliveries.filter (fun d => decide (d.targetProjectId = project))).filterMap
      (fun d => (m.message? d.messageId).map (fun x => (d, x))) := by
  have hsorted : (m.deliveries.filter (fun d => decide (d.targetProjectId = project))).Pairwise
      (fun a b => a.deliverySeq < b.deliverySeq) := by
    rw [← List.pairwise_map (f := Delivery.deliverySeq) (R := fun a b => a < b), (hn project).1]
    exact List.pairwise_lt_range'
  rw [joined, List.Pairwise.insertionSort_eq (hsorted.imp (fun h => Nat.le_of_lt h))]

theorem joined_deliveries (hh : Held supply n m) (project : String) :
    (joined m project).map Prod.fst = m.deliveries.filter (fun d => decide (d.targetProjectId = project)) := by
  rw [joined_unsorted hh.numbered, List.map_filterMap]
  refine (List.filterMap_congr (fun d hd => ?_)).trans (List.filterMap_some ..)
  obtain ⟨x, hx, hid⟩ := hh.keyed.sent d (List.mem_of_mem_filter hd)
  have hsome : (m.message? d.messageId).isSome := hid ▸ lookup_isSome_of_mem hx
  obtain ⟨y, hy⟩ := Option.isSome_iff_exists.mp hsome
  rw [hy]
  rfl

theorem items_joined (hh : Held supply n m) (hc : Corresponds m mem) (project : String) :
    (mem.inbox project).filterMap mem.item = (joined m project).map (fun r => (r.1, r.2.letter)) := by
  rw [hc.inboxes, joined_unsorted hh.numbered, List.filterMap_map, List.map_filterMap]
  apply List.filterMap_congr
  intro d hd
  have hfound : m.delivery? d.deliveryId = some d := hh.keyed.delivery_of_mem (List.mem_of_mem_filter hd)
  rw [Function.comp, Memory.item, hc.deliveries, hfound, Option.bind_eq_bind, Option.bind_some, hc.messages]
  cases m.message? d.messageId <;> rfl

/-- A page is the same for both. -/
theorem list_related (hh : Held supply n m) (hc : Corresponds m mem) (howner : c.provider.isOwner = false)
    (hq : q.Plain) (after : Int) :
    Related SameCode (fun a b : Page => a = b) (listDirectorMessages rt m c.provider q after)
      (mem.listDirectorMessages rt q after) := by
  have hextended : q.extended = false := by rw [InboxFilter.extended, hq.needsMyAck, hq.ackMode]; rfl
  have hschema : q.schema = .v2 := by rw [InboxFilter.schema, hextended, hq.protocol]; rfl
  have hv : c.provider.v3 q.protocol q.extended = false := by
    rw [hq.protocol, hextended]
    exact Call.provider_v2 howner
  unfold listDirectorMessages Memory.listDirectorMessages
  refine Related.exposed hschema ?_
  refine (dbId_related ..).bind (fun _ _ _ => ?_)
  refine Related.bind (Related.ensure (R := fun _ _ => True) (fun _ => trivial) (sameInvalid ..)) (fun _ _ _ => ?_)
  refine Related.bind (Related.ensure (R := fun _ _ => 1 ≤ q.limit ∧ q.limit ≤ 100) (fun h => h) (sameInvalid ..))
    (fun _ _ hlimit => ?_)
  refine Related.bind (Related.ensure (R := fun _ _ => True) (fun _ => trivial) (sameInvalid ..)) (fun _ _ _ => ?_)
  refine (project_related hc q.projectId).bind (fun _ _ _ => ?_)
  rw [mayAsk, hq.needsMyAck, items_joined hh hc]
  dsimp only
  have hhigh : (((joined m q.projectId).map (fun r => (r.1, r.2.letter))).map
      (fun r : Delivery × Letter => r.1.deliverySeq)).foldl max 0 = high m q.projectId := by
    rw [high, ← joined_deliveries hh, List.map_map, List.map_map]
    rfl
  rw [hhigh]
  have hrows : ((joined m q.projectId).map (fun r => (r.1, r.2.letter))).filter (fun r =>
      decide (after.toNat < r.1.deliverySeq ∧ r.1.deliverySeq ≤ high m q.projectId) &&
        q.deliveryMode.all (fun a => decide (r.2.deliveryMode = a)) &&
          q.statuses.all (fun s => decide (r.1.status ∈ s))) =
      (inboxRows m c.provider q after.toNat).map (fun r => (r.1, r.2.letter)) := by
    rw [List.filter_map, inboxRows]
    congr 1
    apply List.filter_congr
    intro r _
    simp [InboxFilter.selects, hq.needsMyAck, hq.ackMode, Bool.and_assoc]
  rw [hrows]
  unfold pageAfter
  rw [hv, hschema, hq.needsMyAck]
  generalize inboxRows m c.provider q after.toNat = rows
  simp only [Bool.false_eq_true, if_false, ok_bind, List.length_map, ← List.map_take, List.map_map, List.length_take,
    List.getLast?_map, Option.map_map]
  split
  · next hmore =>
    -- a page with more behind it is not empty
    have hlength : min q.limit.toNat rows.length < rows.length := of_decide_eq_true hmore
    have hne : rows.take q.limit.toNat ≠ [] := by
      intro he
      have hzero := congrArg List.length he
      rw [List.length_take, List.length_nil] at hzero
      omega
    rw [List.getLast?_eq_some_getLast hne]
    exact .ok rfl
  · exact .ok rfl

end Pages

end AItelier.Mail
