import AItelier.Mail.Providers
import AItelier.Mail.Numbering
import AItelier.Mail.Sends

namespace AItelier.Mail

open AItelier.Lib AItelier.State

variable {rt : Runtime} {m m' : Mailbox} {mem : Memory}

/-- Two refusals of one code, which the v2 wire has. -/
def SameCode (e e' : MailError) : Prop :=
  ∃ code text text', e = .message code text ∧ e' = .message code text' ∧ code.v2 = true

theorem sameCode (code : ErrorCode) (hv : code.v2 = true) (text text' : Option String) :
    SameCode (.message code text) (.message code text') :=
  ⟨code, text, text', rfl, rfl, hv⟩

theorem sameInvalid (text text' : Option String) : SameCode (invalid text) (invalid text') :=
  sameCode .invalidRequest rfl text text'

theorem SameCode.outcome {e e' : MailError} (h : SameCode e e') : e.outcome = e'.outcome := by
  obtain ⟨code, text, text', rfl, rfl, -⟩ := h
  rfl

theorem Related.exposed {α β : Type} {R : α → β → Prop} {x : Result α} {y : Result β} {schema : Protocol}
    (hs : schema = .v2) (h : Related SameCode R x y) : Related SameCode R (exposed schema x) y := by
  subst hs
  cases h with
  | ok h => exact .ok h
  | error h =>
    obtain ⟨code, text, text', rfl, rfl, hv⟩ := h
    have hkeep : Mail.exposed (α := α) .v2 (.error (.message code text)) = .error (.message code text) := by
      simp [Mail.exposed, hv]
    rw [hkeep]
    exact .error (sameCode code hv text text')

/-- The deliveries of the stored mailbox and of the model. -/
structure Rows (m : Mailbox) (mem : Memory) : Prop where
  deliveries : ∀ id, mem.deliveries.get id = m.delivery? id
  inboxes : ∀ project, mem.inbox project =
    (m.deliveries.filter (fun d => decide (d.targetProjectId = project))).map Delivery.deliveryId

/-- The record of a request, by what identifies it. -/
def recordOf (m : Mailbox) (k : String × String × Operation × String) : Option Idempotency :=
  m.idempotency.find? (fun r => decide (r.actor = k.1 ∧ r.scopeProjectId = k.2.1 ∧ r.operation = k.2.2.1 ∧
    r.requestKey = k.2.2.2))

/-- What a v2 caller reads of an answer. -/
def Answer.v2 (a : Answer) : Answer := (success .v2 a false).answer

/-- The stored mailbox and the model hold the same projects, messages, deliveries,
numbers and recorded answers. -/
structure Corresponds (m : Mailbox) (mem : Memory) : Prop extends Rows m mem where
  projects : mem.projects = m.projects
  messages : ∀ id, mem.messages.get id = (m.message? id).map Message.letter
  sequences : ∀ project, ((m.sequence? project).map Sequence.nextSeq).getD 1 = (mem.inbox project).length + 1
  answers : ∀ k, mem.dedupe.get k = (recordOf m k).map (fun r => (canonical r.payload, r.result.v2))

/-- What the stored mailbox keeps after the first `n` calls of a run. -/
structure Held (supply : Supply) (n : Nat) (m : Mailbox) : Prop where
  projects : m.projects.Nodup
  keyed : Keyed m
  numbered : Numbered m.deliveries m.sequences
  messageIds : ∀ x ∈ m.messages, ∃ a b, a < n ∧ x.messageId = supply.id a b
  deliveryIds : ∀ d ∈ m.deliveries, (∃ a b, a < n ∧ d.deliveryId = supply.id a b) ∧
    ∃ a b, a < n ∧ d.messageId = supply.id a b
  threads : ∀ x ∈ m.messages, x.letter.threadId ≠ ""
  sends : ∀ row ∈ m.idempotency, row.operation = .send →
    ∃ r : SendRequest, row.payload = r.payload ∧ r.targetProjectId ≠ some r.senderProjectId

section Checks

theorem dbId_related (value : String) (text text' : Option String) :
    Related SameCode (fun a b : String => a = b ∧ a = value) (dbId rt value text) (dbId rt value text') :=
  Related.bind (Related.ensure (R := fun _ _ => True) (fun _ => trivial) (sameInvalid ..)) (fun _ _ _ => .ok ⟨rfl, rfl⟩)

theorem nfcText_related (value : String) (minimum maximum : Nat) (field field' : Option String) :
    Related SameCode (fun a b : String => a = b) (nfcText rt value minimum maximum field)
      (nfcText rt value minimum maximum field') :=
  Related.bind (Related.ensure (R := fun _ _ => True) (fun _ => trivial) (sameInvalid ..)) (fun _ _ _ => .ok rfl)

theorem optionalId_related (value : Option String) (text text' : Option String) :
    Related SameCode (fun _ _ : Option String => True) (value.mapM (fun t => dbId rt t text))
      (value.mapM (fun t => dbId rt t text')) := by
  cases value with
  | none => exact .ok trivial
  | some t =>
    rw [Option.mapM_some, Option.mapM_some]
    exact (dbId_related t text text').map (fun _ _ _ => trivial)

/-- A request with the texts that its checks normalised. -/
def SendRequest.Normal (r r' : SendRequest) : Prop :=
  ∃ identity requestKey subject body, r' = { r with
    directorIdentity := identity, requestKey := requestKey, subject := subject, body := body }

theorem destination_related (r : SendRequest) :
    Related SameCode (fun a b : Destination => a = b ∧ r.destination = .ok a) r.destination r.destination := by
  unfold SendRequest.destination
  split
  · exact .ok ⟨rfl, rfl⟩
  · exact .ok ⟨rfl, rfl⟩
  · exact .ok ⟨rfl, rfl⟩
  · exact .error (sameInvalid ..)

/-- A v2 request without acknowledgement options. -/
structure SendRequest.Plain (r : SendRequest) : Prop where
  protocol : r.protocol = .v2
  ackMode : r.ackMode = none
  ackQuorum : r.ackQuorum = none

/-- The stored mailbox checks what the model checks, and that the target is not the sender. -/
theorem validate_checked {r : SendRequest} (hplain : r.Plain) :
    Related SameCode (fun a b : SendRequest × Destination => a = b ∧ r.Normal a.1 ∧ r.destination = .ok a.2)
      (r.validate rt) (Memory.validate rt r >>= fun x =>
        ensure (x.2 ≠ .targeted r.senderProjectId) (invalid none) >>= fun _ => pure x) := by
  unfold SendRequest.validate Memory.validate
  simp only [bind_assoc, pure_bind]
  refine (dbId_related ..).bind (fun sender _ hsender => ?_)
  refine (nfcText_related ..).bind (fun identity _ hidentity => ?_)
  refine (nfcText_related ..).bind (fun requestKey _ hkey => ?_)
  refine (nfcText_related ..).bind (fun subject _ hsubject => ?_)
  refine (nfcText_related ..).bind (fun body _ hbody => ?_)
  refine (optionalId_related ..).bind (fun _ _ _ => ?_)
  refine (optionalId_related ..).bind (fun _ _ _ => ?_)
  refine (destination_related r).bind (fun destination _ hdestination => ?_)
  obtain ⟨rfl, hd⟩ := hdestination
  have hquorum : (1 : Int) ≤ r.ackQuorum.getD 1 := by rw [hplain.ackQuorum]; exact Int.le_refl 1
  have hschema : r.schema = .v2 := by
    rw [SendRequest.schema, SendRequest.extended, hplain.ackMode, hplain.ackQuorum, hplain.protocol]
    rfl
  rw [hschema, hsender.2]
  refine Related.bind (Related.ensure (R := fun _ _ => True) (fun _ => trivial) (sameInvalid ..)) (fun _ _ _ => ?_)
  rw [ensure_bind hquorum]
  subst hidentity hkey hsubject hbody
  exact .ok ⟨rfl, ⟨identity, requestKey, subject, body, rfl⟩, hd⟩

theorem validated (r : SendRequest) :
    Related SameCode (fun a b : SendRequest × Destination => a = b ∧ r.Normal a.1 ∧ r.destination = .ok a.2)
      (Memory.validate rt r) (Memory.validate rt r) := by
  unfold Memory.validate
  refine (dbId_related ..).bind (fun _ _ _ => ?_)
  refine (nfcText_related ..).bind (fun identity _ hidentity => ?_)
  refine (nfcText_related ..).bind (fun requestKey _ hkey => ?_)
  refine (nfcText_related ..).bind (fun subject _ hsubject => ?_)
  refine (nfcText_related ..).bind (fun body _ hbody => ?_)
  refine (optionalId_related ..).bind (fun _ _ _ => ?_)
  refine (optionalId_related ..).bind (fun _ _ _ => ?_)
  refine (destination_related r).bind (fun destination _ hdestination => ?_)
  obtain ⟨rfl, hd⟩ := hdestination
  subst hidentity hkey hsubject hbody
  exact .ok ⟨rfl, ⟨identity, requestKey, subject, body, rfl⟩, hd⟩

/-- Both providers take the same requests but those targeted at the sender itself. -/
theorem validate_related {r : SendRequest} (hplain : r.Plain)
    (hself : r.destination ≠ .ok (.targeted r.senderProjectId)) :
    Related SameCode (fun a b : SendRequest × Destination => a = b ∧ r.Normal a.1 ∧ r.destination = .ok a.2)
      (r.validate rt) (Memory.validate rt r) := by
  have h := @validate_checked rt r hplain
  have hv := @validated rt r
  cases hx : Memory.validate rt r with
  | error e =>
    rw [hx] at h
    exact h
  | ok x =>
    rw [hx] at h hv
    obtain ⟨_, _, hd⟩ : x = x ∧ r.Normal x.1 ∧ r.destination = .ok x.2 := by
      cases hv with
      | ok hv => exact hv
    have hne : x.2 ≠ .targeted r.senderProjectId := fun he => hself (he ▸ hd)
    rw [ok_bind, ensure_bind hne] at h
    exact h

end Checks

section Records

theorem success_v2 {schema : Protocol} (hs : schema = .v2) (answer : Answer) (b : Bool) :
    success schema answer b = ⟨.v2, answer.v2, b⟩ := by
  subst hs
  cases answer <;> rfl

theorem recordOf_mem {k : String × String × Operation × String} {row : Idempotency} (h : recordOf m k = some row) :
    row ∈ m.idempotency ∧ row.operation = k.2.2.1 := by
  have hk := List.find?_some h
  rw [decide_eq_true_eq] at hk
  exact ⟨List.mem_of_find?_eq_some h, hk.2.2.1⟩

theorem Held.recorded {supply : Supply} {n : Nat} (hh : Held supply n m) {row : Idempotency}
    (hrow : row ∈ m.idempotency)
    (payload : Json) :
    (if row.operation = .send then legacyPayload row.payload payload else row.payload) = row.payload := by
  split
  · next hs =>
    obtain ⟨r, hr, -⟩ := hh.sends row hrow hs
    rw [hr]
    exact legacyPayload_of_send r payload
  · rfl

/-- Both providers find the same record of a request, or the same conflict with it. -/
theorem dedupe_related {supply : Supply} {n : Nat} (hh : Held supply n m) (hc : Corresponds m mem)
    (actor scope : String) (operation : Operation) (requestKey : String) (payload : Json) :
    Related SameCode
      (fun a b => b = a.map Answer.v2 ∧ (a = none → recordOf m (actor, scope, operation, requestKey) = none))
      (dedupe m actor scope operation requestKey payload) (mem.recorded actor scope operation requestKey payload) := by
  have hanswer := hc.answers (actor, scope, operation, requestKey)
  unfold dedupe Memory.recorded
  rw [hanswer, recordOf]
  split
  · next hnone =>
    rw [hnone]
    exact .ok ⟨rfl, fun _ => rfl⟩
  · next row hrow =>
    rw [hrow]
    obtain ⟨hmem, hop⟩ := @recordOf_mem m (actor, scope, operation, requestKey) row hrow
    have hop' : row.operation = operation := hop
    subst hop'
    simp only [hh.recorded hmem payload, or_self, Option.map_some]
    refine Related.bind (Related.ensure (R := fun _ _ => True) (fun _ => trivial)
      (sameCode .idempotencyConflict rfl ..))
      (fun _ _ _ => .ok ⟨rfl, nofun⟩)

/-- The record of the answer to a request that had none. -/
theorem Corresponds.record (hc : Corresponds m mem) (actor scope : String) (operation : Operation) (requestKey : String)
    (payload : Json) (answer : Answer) (hnone : recordOf m (actor, scope, operation, requestKey) = none) :
    Corresponds (record m actor scope operation requestKey payload answer)
      (mem.record actor scope operation requestKey payload answer.v2) where
  deliveries := hc.deliveries
  inboxes := hc.inboxes
  projects := hc.projects
  messages := hc.messages
  sequences := hc.sequences
  answers := by
    intro k
    rw [show (mem.record actor scope operation requestKey payload answer.v2).dedupe =
      mem.dedupe.set (actor, scope, operation, requestKey) (canonical payload, answer.v2) from rfl, Entries.get_set,
      hc.answers k]
    unfold recordOf at hnone ⊢
    rw [Mail.record, List.find?_append]
    split
    · next hk =>
      subst hk
      rw [hnone]
      simp
    · next hk =>
      have hother : ¬ (actor = k.1 ∧ scope = k.2.1 ∧ operation = k.2.2.1 ∧ requestKey = k.2.2.2) := by
        rintro ⟨h1, h2, h3, h4⟩
        exact hk (by rw [h1, h2, h3, h4])
      rw [List.find?_singleton, decide_eq_false hother]
      simp

end Records

section Targets

theorem project_related (hc : Corresponds m mem) (project : String) :
    Related SameCode (fun _ _ => True) (projectOf m project) (mem.project project) := by
  unfold projectOf Memory.project
  rw [hc.projects]
  exact Related.ensure (fun _ => trivial) (sameCode .unknownProject rfl ..)

/-- Both providers address the same projects and continue the same thread. -/
theorem targets_related {supply : Supply} {n : Nat} (hh : Held supply n m) (hc : Corresponds m mem) {sender : String}
    {destination : Destination} (hself : destination ≠ .targeted sender) :
    Related SameCode (fun a b : List String × Option String => a = b ∧ a.1.Nodup ∧ a.2 ≠ some "")
      (sendTargets m sender destination) (mem.targets sender destination) := by
  cases destination with
  | targeted t =>
    have hne : t ≠ sender := fun h => hself (h ▸ rfl)
    unfold sendTargets Memory.targets
    dsimp only
    rw [show ensure (t ≠ sender) (invalid none) = (.ok () : Result Unit) from if_pos hne, ok_bind]
    exact (project_related hc t).bind (fun _ _ _ => .ok ⟨rfl, List.nodup_singleton t, by simp⟩)
  | broadcasting =>
    unfold sendTargets Memory.targets
    dsimp only
    rw [hc.projects]
    refine Related.bind (Related.ensure (R := fun _ _ => True) (fun _ => trivial) (sameCode .noRecipients rfl ..))
      (fun _ _ _ => ?_)
    refine Related.bind (Related.ensure (R := fun _ _ => True) (fun _ => trivial) (sameCode .recipientLimit rfl ..))
      (fun _ _ _ => .ok ⟨rfl, ?_, by simp⟩)
    exact (List.perm_insertionSort _ _).nodup_iff.mpr (hh.projects.filter _)
  | replying id =>
    unfold sendTargets Memory.targets
    dsimp only
    rw [hc.deliveries]
    refine Related.bind (R := fun a b : Delivery => a = b ∧ a ∈ m.deliveries) ?_ ?_
    · refine Related.orElse (fun c h => ⟨c, h, rfl, ?_⟩) (fun h => h) (sameCode .unknownDelivery rfl ..)
      exact lookup_mem (Option.filter_eq_some_iff.mp h).1
    rintro d _ ⟨rfl, hd⟩
    obtain ⟨x, hx, hxid⟩ := hh.keyed.sent d hd
    have hsome : (m.message? d.messageId).isSome := hxid ▸ lookup_isSome_of_mem hx
    obtain ⟨y, hy⟩ := Option.isSome_iff_exists.mp hsome
    rw [hc.messages, hy]
    refine (project_related hc y.letter.senderProjectId).bind (fun _ _ _ => .ok ⟨rfl, List.nodup_singleton _, ?_⟩)
    exact fun h => hh.threads y (lookup_mem hy) (Option.some.inj h)

end Targets

section Deliveries

variable {message : Message} {summary : String} {sent : List Delivery} {target : String × String}

theorem Rows.inbox_length (hr : Rows m mem) (project : String) :
    (mem.inbox project).length = m.deliveries.countP (fun d => decide (d.targetProjectId = project)) := by
  rw [hr.inboxes, List.length_map, List.countP_eq_length_filter]

/-- A stored delivery does not stand in the way of a new one. -/
def Clear (message : Message) (target : String × String) (d : Delivery) : Prop :=
  d.deliveryId ≠ target.2 ∧ ¬(d.messageId = message.messageId ∧ d.targetProjectId = target.1)

theorem Numbered.below (hn : Numbered m.deliveries m.sequences) {d : Delivery} (hd : d ∈ m.deliveries) :
    d.deliverySeq ≤ m.deliveries.countP (fun x => decide (x.targetProjectId = d.targetProjectId)) := by
  have hmem : d.deliverySeq ∈ (m.deliveries.filter (fun x => decide (x.targetProjectId = d.targetProjectId))).map
      Delivery.deliverySeq := List.mem_map_of_mem (List.mem_filter.mpr ⟨hd, decide_eq_true rfl⟩)
  rw [(hn d.targetProjectId).1, List.mem_range'_1] at hmem
  omega

/-- The delivery that the model prepares is the one that the round of its target stores. -/
theorem deliver_prepared (hr : Rows m mem) (hn : Numbered m.deliveries m.sequences)
    (hclear : ∀ d ∈ m.deliveries, Clear message target d) :
    ∃ m', deliver message false summary (m, sent) target =
        .ok (m', sent ++ [mem.prepare message.messageId target]) ∧
      m'.deliveries = m.deliveries ++ [mem.prepare message.messageId target] ∧
      Numbered m'.deliveries m'.sequences ∧ m'.projects = m.projects ∧ m'.messages = m.messages ∧
      m'.idempotency = m.idempotency := by
  have hseq : (nextDeliverySeq m target.1).1 = (mem.inbox target.1).length + 1 := by
    rw [hr.inbox_length]
    exact (nextDeliverySeq_numbered hn).1
  have hrow : (⟨target.2, message.messageId, target.1, (nextDeliverySeq m target.1).1, .unread, 1⟩ : Delivery) =
      mem.prepare message.messageId target := by rw [hseq]; rfl
  have hfree : ¬ m.deliveries.any (fun x => decide (x.deliveryId = target.2 ∨
      (x.messageId = message.messageId ∧ x.targetProjectId = target.1) ∨
      (x.targetProjectId = target.1 ∧ x.deliverySeq = (nextDeliverySeq m target.1).1))) = true := by
    intro hany
    obtain ⟨x, hx, hbad⟩ := List.any_eq_true.mp hany
    rcases of_decide_eq_true hbad with h | h | ⟨htarget, h⟩
    · exact (hclear x hx).1 h
    · exact (hclear x hx).2 h
    · have hbelow := hn.below hx
      rw [htarget] at hbelow
      rw [h, (nextDeliverySeq_numbered hn).1] at hbelow
      omega
  have hnext := numbered_deliver (d := mem.prepare message.messageId target) hn hseq.symm
  have hins : insertDelivery (nextDeliverySeq m target.1).2 (mem.prepare message.messageId target) =
      .ok { (nextDeliverySeq m target.1).2 with
        deliveries := m.deliveries ++ [mem.prepare message.messageId target] } := by
    rw [nextDeliverySeq_rest, ← hrow]
    exact congrArg (· >>= _) (if_pos hfree)
  refine ⟨({ (nextDeliverySeq m target.1).2 with
      deliveries := m.deliveries ++ [mem.prepare message.messageId target] } : Mailbox).event target.1
    "director_message_received" [("message_id", .str message.messageId), ("thread_id", .str message.letter.threadId),
      ("delivery_id", .str target.2), ("summary", .str summary)], ?_, rfl, hnext, ?_, ?_, ?_⟩
  · simp only [deliver, hrow, hins]
    rfl
  all_goals
    rw [nextDeliverySeq_rest]
    rfl

theorem store_inbox (letter : Letter) (d : Delivery) (project : String) :
    (Memory.store letter summary mem d).inbox project =
      if d.targetProjectId = project then mem.inbox d.targetProjectId ++ [d.deliveryId] else mem.inbox project := by
  unfold Memory.inbox Memory.store
  rw [Entries.get_set]
  split <;> rfl

theorem prepare_store (letter : Letter) (messageId : String) {d : Delivery} (hne : d.targetProjectId ≠ target.1) :
    (Memory.store letter summary mem d).prepare messageId target = mem.prepare messageId target := by
  rw [Memory.prepare, store_inbox, if_neg hne]
  rfl

/-- A delivery under a new id, stored by both. -/
theorem Rows.store (hr : Rows m mem) (letter : Letter) {d : Delivery}
    (hfresh : ∀ x ∈ m.deliveries, x.deliveryId ≠ d.deliveryId) (hdel : m'.deliveries = m.deliveries ++ [d]) :
    Rows m' (Memory.store letter summary mem d) where
  deliveries := by
    intro id
    have hlast : m'.delivery? id = (m.delivery? id).or (if d.deliveryId = id then some d else none) := by
      rw [Mailbox.delivery?, hdel, lookup_append, lookup_singleton]
      rfl
    rw [hlast, show (Memory.store letter summary mem d).deliveries = mem.deliveries.set d.deliveryId d from rfl,
      Entries.get_set, hr.deliveries]
    by_cases hid : d.deliveryId = id
    · have hnone : m.delivery? id = none := lookup_eq_none.mpr (fun x hx he => hfresh x hx (he.trans hid.symm))
      rw [if_pos hid, if_pos hid, hnone]
      rfl
    · rw [if_neg hid, if_neg hid, Option.or_none]
  inboxes := by
    intro project
    rw [store_inbox, hdel, List.filter_append, List.map_append]
    split
    · next ht =>
      have hlast : [d].filter (fun x => decide (x.targetProjectId = project)) = [d] := by simp [ht]
      rw [hr.inboxes, ht, hlast]
      rfl
    · next ht =>
      have hlast : [d].filter (fun x => decide (x.targetProjectId = project)) = [] := by simp [ht]
      rw [hr.inboxes, hlast]
      exact (List.append_nil _).symm

/-- The loop of a send stores what the model prepared, target by target. -/
theorem deliveries_prepared {targets : List (String × String)} (letter : Letter) (hr : Rows m mem)
    (hn : Numbered m.deliveries m.sequences) (hprojects : (targets.map Prod.fst).Nodup)
    (hids : (targets.map Prod.snd).Nodup) (hclear : ∀ d ∈ m.deliveries, ∀ t ∈ targets, Clear message t d) :
    ∃ m', targets.foldlM (deliver message false summary) (m, sent) =
        .ok (m', sent ++ targets.map (mem.prepare message.messageId)) ∧
      m'.deliveries = m.deliveries ++ targets.map (mem.prepare message.messageId) ∧
      Numbered m'.deliveries m'.sequences ∧ m'.projects = m.projects ∧ m'.messages = m.messages ∧
      m'.idempotency = m.idempotency ∧
      Rows m' ((targets.map (mem.prepare message.messageId)).foldl (Memory.store letter summary) mem) := by
  induction targets generalizing m mem sent with
  | nil => exact ⟨m, by simp [pure, Except.pure], by simp, hn, rfl, rfl, rfl, hr⟩
  | cons t targets ih =>
    rw [List.map_cons, List.nodup_cons] at hprojects hids
    have hhead : ∀ d ∈ m.deliveries, Clear message t d := fun d hd => hclear d hd t List.mem_cons_self
    obtain ⟨m₁, hstep, hdel, hn₁, hp₁, hm₁, hi₁⟩ := @deliver_prepared m mem message summary sent t hr hn hhead
    have hr₁ : Rows m₁ (Memory.store letter summary mem (mem.prepare message.messageId t)) :=
      hr.store letter (fun x hx => (hhead x hx).1) hdel
    -- the delivery just stored is for another project, under another id
    have hclear₁ : ∀ d ∈ m₁.deliveries, ∀ u ∈ targets, Clear message u d := by
      intro d hd u hu
      rw [hdel, List.mem_append, List.mem_singleton] at hd
      rcases hd with hd | rfl
      · exact hclear d hd u (List.mem_cons_of_mem _ hu)
      · refine ⟨fun he => hids.1 ?_, fun he => hprojects.1 ?_⟩
        · exact List.mem_map.mpr ⟨u, hu, he.symm⟩
        · exact List.mem_map.mpr ⟨u, hu, he.2.symm⟩
    have hsame : targets.map ((Memory.store letter summary mem (mem.prepare message.messageId t)).prepare
        message.messageId) = targets.map (mem.prepare message.messageId) := by
      apply List.map_congr_left
      intro u hu
      exact prepare_store letter _ (fun he => hprojects.1 (List.mem_map.mpr ⟨u, hu, he.symm⟩))
    obtain ⟨m', hrest, hdel', hn', hp', hm', hi', hr'⟩ :=
      @ih m₁ (Memory.store letter summary mem (mem.prepare message.messageId t))
        (sent ++ [mem.prepare message.messageId t]) hr₁ hn₁ hprojects.2 hids.2 hclear₁
    rw [hsame] at hrest hdel' hr'
    refine ⟨m', ?_, ?_, hn', hp'.trans hp₁, hm'.trans hm₁, hi'.trans hi₁, hr'⟩
    · rw [List.foldlM_cons, hstep, ok_bind, hrest, List.append_assoc]
      rfl
    · rw [hdel', hdel, List.append_assoc]
      rfl

end Deliveries

end AItelier.Mail
