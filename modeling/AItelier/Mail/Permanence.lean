import AItelier.Mail.Steps

namespace AItelier.Mail

open AItelier.Lib AItelier.State

variable {rt : Runtime} {m m' m'' : Mailbox} {p : Provider}

/-- The keys and references of the mailbox tables, with the terms that a legacy
delivery was migrated to. -/
structure Keyed (m : Mailbox) : Prop where
  acks : (m.acks.map Ack.id).Nodup
  deliveries : (m.deliveries.map Delivery.deliveryId).Nodup
  sent : ∀ d ∈ m.deliveries, ∃ x ∈ m.messages, x.messageId = d.messageId
  required : ∀ a ∈ m.acks, ∃ d ∈ m.deliveries, d.deliveryId = a.deliveryId

/-- The later row of an acknowledgement table keeps what the earlier one said. -/
structure Ack.Kept (a b : Ack) : Prop where
  id : b.id = a.id
  required : b.required = a.required
  removed : a.removedAt.isSome → b.removedAt.isSome
  acked : a.acked = true → b = a

theorem Ack.Kept.refl (a : Ack) : a.Kept a := ⟨rfl, rfl, fun h => h, fun _ => rfl⟩

theorem Ack.Kept.trans {a b c : Ack} (h : a.Kept b) (h' : b.Kept c) : a.Kept c where
  id := h'.id.trans h.id
  required := h'.required.trans h.required
  removed := fun ha => h'.removed (h.removed ha)
  acked := by
    intro ha
    have hb := h.acked ha
    subst hb
    exact h'.acked ha

/-- Rows stay in place and are kept, and the new ones require nobody on a delivery
that was there before. -/
def AcksFollow (old : List String) (A A' : List Ack) : Prop :=
  ∃ (f : Ack → Ack) (news : List Ack), A' = A.map f ++ news ∧ (∀ a ∈ A, a.Kept (f a)) ∧
    ∀ a ∈ news, a.required = true → a.deliveryId ∉ old

theorem AcksFollow.refl (old : List String) (A : List Ack) : AcksFollow old A A :=
  ⟨fun a => a, [], by simp, fun a _ => Ack.Kept.refl a, by simp⟩

theorem AcksFollow.trans {old old' : List String} {A A' A'' : List Ack} (hsub : old ⊆ old')
    (h : AcksFollow old A A') (h' : AcksFollow old' A' A'') : AcksFollow old A A'' := by
  obtain ⟨f, news, rfl, hf, hn⟩ := h
  obtain ⟨g, news', rfl, hg, hn'⟩ := h'
  refine ⟨fun a => g (f a), news.map g ++ news', by simp [Function.comp_def], ?_, ?_⟩
  · intro a ha
    exact (hf a ha).trans (hg (f a) (List.mem_append_left _ (List.mem_map_of_mem ha)))
  · intro b hb hreq
    rcases List.mem_append.mp hb with hb | hb
    · obtain ⟨a, ha, rfl⟩ := List.mem_map.mp hb
      have hk := hg a (List.mem_append_right _ ha)
      have hid : (g a).deliveryId = a.deliveryId := congrArg Prod.fst hk.id
      rw [hid]
      exact hn a ha (hk.required.symm.trans hreq)
    · exact fun hold => hn' b hb hreq (hsub hold)

theorem acksFollow_modify {old : List String} {A : List Ack} {q : Ack → Bool} {f : Ack → Ack}
    (h : ∀ a ∈ A, q a = true → a.Kept (f a)) : AcksFollow old A (modifyWhere q f A) := by
  refine ⟨fun a => if q a then f a else a, [], by simp [modifyWhere], ?_, by simp⟩
  intro a ha
  by_cases hq : q a = true
  · simp only [hq, if_true]
    exact h a ha hq
  · simp only [hq]
    exact Ack.Kept.refl a

theorem acksFollow_append {old : List String} {A news : List Ack}
    (h : ∀ a ∈ news, a.required = true → a.deliveryId ∉ old) : AcksFollow old A (A ++ news) :=
  ⟨fun a => a, news, by simp, fun a _ => Ack.Kept.refl a, h⟩

/-- A delivery's id and that of its message. -/
def Delivery.letterOf (d : Delivery) : String × String := (d.deliveryId, d.messageId)

/-- What no later transaction takes back. -/
structure Permanent (m m' : Mailbox) : Prop where
  messages : m.messages <+: m'.messages
  legacy : m'.legacyAcks = m.legacyAcks
  rows : m.deliveries.map Delivery.letterOf <+: m'.deliveries.map Delivery.letterOf
  acks : AcksFollow (m.deliveries.map Delivery.deliveryId) m.acks m'.acks

theorem letterOf_ids (deliveries : List Delivery) :
    (deliveries.map Delivery.letterOf).map Prod.fst = deliveries.map Delivery.deliveryId := by
  rw [List.map_map]
  rfl

theorem Permanent.ids (h : Permanent m m') :
    m.deliveries.map Delivery.deliveryId <+: m'.deliveries.map Delivery.deliveryId := by
  rw [← letterOf_ids, ← letterOf_ids]
  exact h.rows.map Prod.fst

theorem Permanent.refl (m : Mailbox) : Permanent m m :=
  ⟨List.prefix_refl _, rfl, List.prefix_refl _, AcksFollow.refl _ _⟩

theorem Permanent.trans (h : Permanent m m') (h' : Permanent m' m'') : Permanent m m'' where
  messages := h.messages.trans h'.messages
  legacy := h'.legacy.trans h.legacy
  rows := h.rows.trans h'.rows
  acks := h.acks.trans h.ids.subset h'.acks

section Quorum

theorem ackRows_perm (m : Mailbox) (id : String) :
    (ackRows m id).Perm (m.acks.filter (fun a => decide (a.deliveryId = id))) :=
  List.perm_insertionSort _ _

theorem mem_ackRows {id : String} {a : Ack} : a ∈ ackRows m id ↔ a ∈ m.acks ∧ a.deliveryId = id := by
  rw [(ackRows_perm m id).mem_iff, List.mem_filter, decide_eq_true_eq]

theorem acked_count (m : Mailbox) (id : String) :
    ((ackRows m id).filter Ack.acked).length = m.acks.countP (fun a => a.acked && decide (a.deliveryId = id)) := by
  rw [((ackRows_perm m id).filter _).length_eq, List.filter_filter, List.countP_eq_length_filter]

/-- A quorum that is met stays met. -/
theorem quorumMet_permanent {terms : Terms} {id : String} (h : Permanent m m')
    (hid : id ∈ m.deliveries.map Delivery.deliveryId)
    (hmet : quorumMet terms (decide (id ∈ m.legacyAcks)) (ackRows m id) = true) :
    quorumMet terms (decide (id ∈ m'.legacyAcks)) (ackRows m' id) = true := by
  obtain ⟨f, news, hacks, hf, hn⟩ := h.acks
  rw [h.legacy]
  simp only [quorumMet, Bool.or_eq_true] at hmet ⊢
  refine hmet.imp_right (fun hmet => ?_)
  cases hmode : terms.ackMode with
  | broadcast =>
    simp only [hmode, List.isEmpty_iff, List.filter_eq_nil_iff] at hmet ⊢
    -- a driver that is pending later was pending before: rows are only marked, never cleared
    intro b hb hpending
    obtain ⟨hb, hbid⟩ := mem_ackRows.mp hb
    rw [hacks] at hb
    simp only [Ack.pending, Bool.and_eq_true, Option.isNone_iff_eq_none] at hpending
    obtain ⟨⟨hreq, hremoved⟩, hacked⟩ := hpending
    rcases List.mem_append.mp hb with hb | hb
    · obtain ⟨a, ha, rfl⟩ := List.mem_map.mp hb
      have hk := hf a ha
      have haid : a.deliveryId = id := (congrArg Prod.fst hk.id).symm.trans hbid
      refine hmet a (mem_ackRows.mpr ⟨ha, haid⟩) ?_
      have hr : a.removedAt = none := by
        by_contra hne
        have hs := hk.removed (Option.isSome_iff_ne_none.mpr hne)
        rw [hremoved] at hs
        cases hs
      have hu : a.ackedAt = none := by
        by_contra hne
        have ha' : a.acked = true := Option.isSome_iff_ne_none.mpr hne
        rw [hk.acked ha'] at hacked
        exact hne hacked
      simp [Ack.pending, hr, hu, ← hk.required, hreq]
    · exact hn b hb hreq (hbid ▸ hid)
  | atLeastN =>
    simp only [hmode, decide_eq_true_eq, acked_count] at hmet ⊢
    refine hmet.trans ?_
    rw [hacks, List.countP_append, List.countP_map]
    refine Nat.le_add_right_of_le (List.countP_mono_left (fun a ha hp => ?_))
    simp only [Bool.and_eq_true] at hp
    have he := (hf a ha).acked hp.1
    simp [he, hp.1, hp.2]

end Quorum

section Rounds

theorem setDelivery_rows (m : Mailbox) (id : String) (status : DeliveryStatus) :
    (m.setDelivery id (fun d => { d with status := status, version := d.version + 1 })).deliveries.map
      Delivery.letterOf = m.deliveries.map Delivery.letterOf :=
  map_modifyWhere (fun _ _ => by rfl) m.deliveries

theorem setAck_ids (m : Mailbox) (delivery driver : String) {f : Ack → Ack} (hf : ∀ a, (f a).id = a.id) :
    (m.setAck delivery driver f).acks.map Ack.id = m.acks.map Ack.id :=
  map_modifyWhere (fun a _ => hf a) m.acks

theorem Keyed.ack_of_mem (hm : Keyed m) {a : Ack} (ha : a ∈ m.acks) :
    m.ack? a.deliveryId a.driverId = some a :=
  lookup_of_mem hm.acks ha

theorem Keyed.delivery_of_mem (hm : Keyed m) {d : Delivery} (hd : d ∈ m.deliveries) :
    m.delivery? d.deliveryId = some d :=
  lookup_of_mem hm.deliveries hd

/-- Rewritten rows of the two tables keep their keys and references. -/
theorem Keyed.rewrite (hm : Keyed m) (hmsg : m.messages <+: m'.messages)
    (hrows : m'.deliveries.map Delivery.letterOf = m.deliveries.map Delivery.letterOf)
    (hacks : (m'.acks.map Ack.id).Nodup)
    (hreq : ∀ a ∈ m'.acks, a.deliveryId ∈ m.deliveries.map Delivery.deliveryId) : Keyed m' where
  acks := hacks
  deliveries := by
    rw [← letterOf_ids, hrows, letterOf_ids]
    exact hm.deliveries
  sent := by
    intro d hd
    have hmem : d.letterOf ∈ m.deliveries.map Delivery.letterOf := hrows ▸ List.mem_map_of_mem hd
    obtain ⟨d₀, hd₀, he⟩ := List.mem_map.mp hmem
    obtain ⟨x, hx, hxm⟩ := hm.sent d₀ hd₀
    exact ⟨x, hmsg.subset hx, hxm.trans (congrArg Prod.snd he)⟩
  required := by
    intro a ha
    have hmem := hreq a ha
    rw [← letterOf_ids, ← hrows, letterOf_ids] at hmem
    exact List.mem_map.mp hmem

theorem delivered_permanent {message : Message} {target : String × String} {d : Delivery} {required : List Ack}
    (h : Delivered message m target d required m') : Permanent m m' where
  messages := h.messages ▸ List.prefix_rfl
  legacy := h.legacy
  rows := by
    rw [h.deliveries, List.map_append]
    exact List.prefix_append _ _
  acks := by
    rw [h.acks]
    refine acksFollow_append (fun a ha _ hmem => ?_)
    obtain ⟨x, hx, hid⟩ := List.mem_map.mp hmem
    exact h.fresh x hx (hid.trans (h.rows a ha).1)

theorem delivered_keyed {message : Message} {target : String × String} {d : Delivery} {required : List Ack}
    (h : Delivered message m target d required m') (hm : Keyed m) (hmem : message ∈ m.messages) : Keyed m' where
  acks := by
    rw [h.acks, List.map_append, List.nodup_append]
    refine ⟨hm.acks, h.distinct, ?_⟩
    intro x hx y hy he
    obtain ⟨a, ha, rfl⟩ := List.mem_map.mp hy
    exact (h.rows a ha).2.2 (he ▸ hx)
  deliveries := by
    rw [h.deliveries, List.map_append, List.nodup_append]
    refine ⟨hm.deliveries, List.nodup_singleton _, ?_⟩
    intro x hx y hy he
    obtain ⟨a, ha, rfl⟩ := List.mem_map.mp hx
    rw [List.map_singleton, List.mem_singleton] at hy
    exact h.fresh a ha (he.trans hy)
  sent := by
    intro x hx
    rw [h.messages]
    rw [h.deliveries] at hx
    rcases List.mem_append.mp hx with hx | hx
    · exact hm.sent x hx
    · rw [List.mem_singleton.mp hx, h.row]
      exact ⟨message, hmem, rfl⟩
  required := by
    intro a ha
    rw [h.deliveries]
    rw [h.acks] at ha
    rcases List.mem_append.mp ha with ha | ha
    · obtain ⟨x, hx, hid⟩ := hm.required a ha
      exact ⟨x, List.mem_append_left _ hx, hid⟩
    · exact ⟨d, List.mem_append_right _ (List.mem_singleton_self d), (h.rows a ha).1.symm⟩

theorem removed_permanent {driver id : String} {now : Stamp} (h : Removed driver now m id m')
    (hopen : ∀ a ∈ m.acks, a.id = (id, driver) → a.ackedAt = none) : Permanent m m' where
  messages := h.messages ▸ List.prefix_rfl
  legacy := h.legacy
  rows := by
    obtain ⟨d, message, _, _, hd⟩ := h.deliveries
    rw [hd]
    split_ifs
    · exact setDelivery_rows m id _ ▸ List.prefix_rfl
    · exact List.prefix_refl _
  acks := by
    rw [h.acks]
    refine acksFollow_modify (fun a ha hq => ?_)
    refine ⟨rfl, rfl, fun _ => rfl, fun hacked => ?_⟩
    rw [Ack.acked, hopen a ha (of_decide_eq_true hq)] at hacked
    cases hacked

theorem removed_keyed {driver id : String} {now : Stamp} (h : Removed driver now m id m') (hm : Keyed m) :
    Keyed m' := by
  have he := setAck_ids m id driver (f := fun a => { a with removedAt := some now }) (fun _ => rfl)
  refine hm.rewrite ?_ ?_ ?_ ?_
  · exact h.messages ▸ List.prefix_rfl
  · obtain ⟨d, message, _, _, hd⟩ := h.deliveries
    rw [hd]
    split_ifs
    · exact setDelivery_rows m id _
    · rfl
  · rw [h.acks, he]
    exact hm.acks
  · intro a ha
    have hmem : a.id ∈ m'.acks.map Ack.id := List.mem_map_of_mem ha
    rw [h.acks, he] at hmem
    obtain ⟨b, hb, hid⟩ := List.mem_map.mp hmem
    obtain ⟨d, hd, hdid⟩ := hm.required b hb
    have hba : b.deliveryId = a.deliveryId := congrArg Prod.fst hid
    exact List.mem_map.mpr ⟨d, hd, hdid.trans hba⟩

end Rounds

section Steps

/-- A later mailbox of the same store. -/
structure Later (m m' : Mailbox) : Prop where
  permanent : Permanent m m'
  keyed : Keyed m'

theorem send_later {r : SendRequest} {reply : Reply} (hm : Keyed m)
    (h : sendDirectorMessage rt m p r = .ok (reply, m')) : Later m m' := by
  rcases sendDirectorMessage_ok h with ⟨_, rfl⟩ | ⟨message, v3, summary, targets, m₁, sent, row, _, _, hloop, rfl⟩
  · exact ⟨Permanent.refl m', hm⟩
  have hstart : Later m { m with messages := m.messages ++ [message] } := by
    refine ⟨⟨List.prefix_append _ _, rfl, List.prefix_refl _, AcksFollow.refl _ _⟩, ?_⟩
    exact hm.rewrite (List.prefix_append _ _) rfl hm.acks (fun a ha => List.mem_map.mpr (hm.required a ha))
  have hround := foldlM_invariant (I := fun acc : Mailbox × List Delivery =>
      Later m acc.1 ∧ message ∈ acc.1.messages) ?_ ⟨hstart, by simp⟩ hloop
  · exact ⟨hround.1.permanent.trans ⟨List.prefix_refl _, rfl, List.prefix_refl _, AcksFollow.refl _ _⟩,
      hround.1.keyed.rewrite (List.prefix_refl _) rfl hround.1.keyed.acks
        (fun a ha => List.mem_map.mpr (hround.1.keyed.required a ha))⟩
  · rintro acc target acc' ⟨hlater, hmem⟩ hd
    obtain ⟨d, required, hd⟩ := deliver_ok hd
    refine ⟨⟨hlater.permanent.trans (delivered_permanent hd), delivered_keyed hd hlater.keyed hmem⟩, ?_⟩
    rw [hd.messages]
    exact hmem

/-- The acknowledgement rows of a mailbox, with one row's change. -/
structure AckWrite (m : Mailbox) (A : List Ack) : Prop where
  follow : AcksFollow (m.deliveries.map Delivery.deliveryId) m.acks A
  keys : (A.map Ack.id).Nodup
  required : ∀ a ∈ A, a.deliveryId ∈ m.deliveries.map Delivery.deliveryId

theorem AckWrite.refl (hm : Keyed m) : AckWrite m m.acks :=
  ⟨AcksFollow.refl _ _, hm.acks, fun a ha => List.mem_map.mpr (hm.required a ha)⟩

/-- A row that nobody has acknowledged may be rewritten under its key. -/
theorem AckWrite.touch (hm : Keyed m) {id driver : String} (hnew : (m.ack? id driver).any Ack.acked = false)
    {f : Ack → Ack} (hid : ∀ a, (f a).id = a.id) (hreq : ∀ a, (f a).required = a.required)
    (hrem : ∀ a, (f a).removedAt = a.removedAt) : AckWrite m (m.setAck id driver f).acks where
  follow := by
    refine acksFollow_modify (fun a ha hq => ?_)
    refine ⟨hid a, hreq a, fun h => (hrem a).symm ▸ h, fun hacked => ?_⟩
    have hk : (a.deliveryId, a.driverId) = (id, driver) := of_decide_eq_true hq
    have hl := hm.ack_of_mem ha
    rw [Mailbox.ack?, hk] at hl
    simp [Mailbox.ack?, hl, hacked] at hnew
  keys := by
    rw [setAck_ids m id driver hid]
    exact hm.acks
  required := by
    intro a ha
    have hmem : a.id ∈ (m.setAck id driver f).acks.map Ack.id := List.mem_map_of_mem ha
    rw [setAck_ids m id driver hid] at hmem
    obtain ⟨b, hb, hba⟩ := List.mem_map.mp hmem
    obtain ⟨d, hd, hdid⟩ := hm.required b hb
    have he : b.deliveryId = a.deliveryId := congrArg Prod.fst hba
    exact List.mem_map.mpr ⟨d, hd, hdid.trans he⟩

theorem AckWrite.append (hm : Keyed m) {row : Ack} (hrow : row.required = false)
    (hnone : m.ack? row.deliveryId row.driverId = none)
    (hold : row.deliveryId ∈ m.deliveries.map Delivery.deliveryId) : AckWrite m (m.acks ++ [row]) where
  follow := acksFollow_append (by simp [hrow])
  keys := by
    rw [List.map_append, List.nodup_append]
    refine ⟨hm.acks, by simp, ?_⟩
    intro x hx y hy he
    obtain ⟨a, ha, rfl⟩ := List.mem_map.mp hx
    simp only [List.map_cons, List.map_nil, List.mem_singleton] at hy
    exact lookup_eq_none.mp hnone a ha (he.trans hy)
  required := by
    intro a ha
    rcases List.mem_append.mp ha with ha | ha
    · exact List.mem_map.mpr (hm.required a ha)
    · rw [List.mem_singleton.mp ha]
      exact hold

/-- An acknowledgement is recorded and then stamped with its event. -/
theorem recordAck_write (hm : Keyed m) {id driver : String} {now : Stamp} {seq : Nat}
    (hnew : (m.ack? id driver).any Ack.acked = false) (hold : id ∈ m.deliveries.map Delivery.deliveryId) :
    AckWrite m ((recordAck m id driver now).setAck id driver (fun a => { a with ackEventSeq := some seq })).acks := by
  unfold recordAck
  split_ifs with hfound
  · have htwice : ((m.setAck id driver (fun a => { a with ackedAt := some now })).setAck id driver
        (fun a => { a with ackEventSeq := some seq })).acks =
        (m.setAck id driver (fun a => { a with ackedAt := some now, ackEventSeq := some seq })).acks := by
      simp only [Mailbox.setAck, modifyWhere, List.map_map]
      refine List.map_congr_left (fun a _ => ?_)
      by_cases ha : a.id = (id, driver)
      · have ha' : Ack.id { a with ackedAt := some now } = (id, driver) := ha
        simp [ha, ha']
      · simp [ha]
    rw [htwice]
    exact AckWrite.touch hm hnew (fun _ => rfl) (fun _ => rfl) (fun _ => rfl)
  · have hnone : m.ack? id driver = none := by simpa using hfound
    have hlast : (Mailbox.setAck { m with acks := m.acks ++ [⟨id, driver, false, some now, none, none⟩] } id driver
        (fun a => { a with ackEventSeq := some seq })).acks =
        m.acks ++ [⟨id, driver, false, some now, some seq, none⟩] := by
      simp only [Mailbox.setAck, modifyWhere, List.map_append, List.map_cons, List.map_nil]
      congr 1
      · refine (List.map_congr_left (fun a ha => ?_)).trans (List.map_id _)
        have hne := lookup_eq_none.mp hnone a ha
        simp [hne]
      · simp [Ack.id]
    rw [hlast]
    exact AckWrite.append hm rfl hnone hold

/-- What a v3 transition leaves of the other tables: the delivery moves to a
status above `unread`, and an acknowledgement writes its row. -/
theorem writeV3_tables (m : Mailbox) (p : Provider) (r : TransitionRequest) (d : Delivery) (message : Message)
    (driver : String) :
    ∃ status seq, status ≠ .unread ∧
      (writeV3 m p r d message driver).2.deliveries =
        (m.setDelivery r.deliveryId (fun d => { d with status := status, version := d.version + 1 })).deliveries ∧
      (writeV3 m p r d message driver).2.acks = (if r.operation = .acknowledge then
        ((recordAck m r.deliveryId driver r.now).setAck r.deliveryId driver
          (fun a => { a with ackEventSeq := some seq })).acks else m.acks) ∧
      (writeV3 m p r d message driver).2.messages = m.messages ∧
      (writeV3 m p r d message driver).2.legacyAcks = m.legacyAcks ∧
      (writeV3 m p r d message driver).2.sequences = m.sequences := by
  have hrest : ∀ now, (recordAck m r.deliveryId driver now).deliveries = m.deliveries ∧
      (recordAck m r.deliveryId driver now).messages = m.messages ∧
      (recordAck m r.deliveryId driver now).legacyAcks = m.legacyAcks ∧
      (recordAck m r.deliveryId driver now).sequences = m.sequences := by
    intro now
    unfold recordAck
    split_ifs <;> exact ⟨rfl, rfl, rfl, rfl⟩
  obtain ⟨h1, h2, h3, h4⟩ := hrest r.now
  cases ho : r.operation with
  | acknowledge =>
    refine ⟨(v3Status m r d message driver).1, (recordAck m r.deliveryId driver r.now).events.length + 1,
      ?_, ?_, ?_, ?_, ?_, ?_⟩
    · simp only [v3Status, ho]
      split_ifs <;> decide
    · simp only [writeV3, v3Status, ho, record, Mailbox.setAck, Mailbox.event, Mailbox.setDelivery, if_true, h1]
    · simp only [writeV3, v3Status, ho, record, Mailbox.setAck, Mailbox.event, Mailbox.setDelivery, if_true,
        List.length_append, List.length_singleton]
    · simpa only [writeV3, v3Status, ho, record, Mailbox.setAck, Mailbox.event, Mailbox.setDelivery, if_true] using h2
    · simpa only [writeV3, v3Status, ho, record, Mailbox.setAck, Mailbox.event, Mailbox.setDelivery, if_true] using h3
    · simpa only [writeV3, v3Status, ho, record, Mailbox.setAck, Mailbox.event, Mailbox.setDelivery, if_true] using h4
  | send => exact ⟨.resolved, 0, by decide, by simp [writeV3, v3Status, ho, record, Mailbox.event, Mailbox.setDelivery]⟩
  | resolve =>
    exact ⟨.resolved, 0, by decide, by simp [writeV3, v3Status, ho, record, Mailbox.event, Mailbox.setDelivery]⟩

theorem transition_later {r : TransitionRequest} {b : Bool} (hm : Keyed m) (h : Transitioned m p r b m') :
    Later m m' := by
  cases h with
  | replayed => exact ⟨Permanent.refl m, hm⟩
  | noted d answer found already =>
    refine ⟨⟨List.prefix_refl _, rfl, List.prefix_refl _, AcksFollow.refl _ _⟩, ?_⟩
    exact hm.rewrite (List.prefix_refl _) rfl hm.acks (AckWrite.refl hm).required
  | single d answer found open_ legal =>
    have hrows := setDelivery_rows m r.deliveryId r.target
    refine ⟨⟨List.prefix_refl _, rfl, ?_, AcksFollow.refl _ _⟩, ?_⟩
    · exact hrows ▸ List.prefix_rfl
    · exact hm.rewrite (List.prefix_refl _) hrows hm.acks (AckWrite.refl hm).required
  | each d message driver found open_ unresolved new =>
    obtain ⟨status, seq, _, hdel, hacks, hmsg, hlegacy, _⟩ := writeV3_tables m p r d message driver
    have hrows := setDelivery_rows m r.deliveryId status
    rw [← hdel] at hrows
    have hold : r.deliveryId ∈ m.deliveries.map Delivery.deliveryId :=
      List.mem_map.mpr ⟨d, lookup_mem found, lookup_key found⟩
    have hwrite : AckWrite m (writeV3 m p r d message driver).2.acks := by
      rw [hacks]
      split_ifs with ho
      · exact recordAck_write hm (new ho) hold
      · exact AckWrite.refl hm
    refine ⟨⟨hmsg ▸ List.prefix_rfl, hlegacy, ?_, hwrite.follow⟩, ?_⟩
    · exact hrows ▸ List.prefix_rfl
    · exact hm.rewrite (hmsg ▸ List.prefix_rfl) hrows hwrite.keys hwrite.required

/-- The rounds of a removal change no acknowledgement, so each marks a row that is
open. -/
theorem membershipRemoved_later {project driver actor : String} {now : Stamp} (hm : Keyed m)
    (h : membershipRemoved m project driver actor now = .ok m') : Later m m' := by
  have hloop := foldlM_invariant_mem (I := fun x : Mailbox => Later m x ∧
      x.acks.map (fun a => (a.id, a.ackedAt)) = m.acks.map (fun a => (a.id, a.ackedAt))) ?_
      ⟨⟨Permanent.refl m, hm⟩, rfl⟩ h
  · exact hloop.1
  · rintro x id hid x' ⟨hlater, hsame⟩ hx
    have hround := removeRequired_ok hx
    obtain ⟨row, hrow, rfl⟩ := List.mem_map.mp hid
    obtain ⟨hrow, hp⟩ := List.mem_filter.mp hrow
    simp only [Bool.and_eq_true, decide_eq_true_eq, Ack.pending, Option.isNone_iff_eq_none] at hp
    obtain ⟨⟨⟨_, hunacked⟩, hdriver⟩, _⟩ := hp
    have hopen : ∀ a ∈ x.acks, a.id = (row.deliveryId, driver) → a.ackedAt = none := by
      intro a ha hida
      have hmem : (a.id, a.ackedAt) ∈ m.acks.map (fun a => (a.id, a.ackedAt)) :=
        hsame ▸ List.mem_map_of_mem ha
      obtain ⟨b, hb, he⟩ := List.mem_map.mp hmem
      have hbrow : b = row := by
        refine List.inj_on_of_nodup_map hm.acks hb hrow ?_
        rw [show b.id = a.id from congrArg Prod.fst he, hida, ← hdriver]
        rfl
      rw [← show b.ackedAt = a.ackedAt from congrArg Prod.snd he, hbrow]
      exact hunacked
    refine ⟨⟨hlater.permanent.trans (removed_permanent hround hopen), removed_keyed hround hlater.keyed⟩, ?_⟩
    rw [hround.acks, ← hsame]
    exact map_modifyWhere (fun a _ => by rfl) x.acks

theorem setMembership_later {r : MembershipRequest} (hm : Keyed m) (h : setMembership m r = .ok m') :
    Later m m' := by
  simp only [setMembership, bind_ok] at h
  obtain ⟨_, _, _, _, _, _, _, _, _, _, h⟩ := h
  have hmembers : ∀ members, Keyed { m with members := members } :=
    fun members => ⟨hm.acks, hm.deliveries, hm.sent, hm.required⟩
  split at h
  · have hl := membershipRemoved_later (hmembers _) h
    exact ⟨⟨hl.permanent.messages, hl.permanent.legacy, hl.permanent.rows, hl.permanent.acks⟩, hl.keyed⟩
  · rw [pure_ok] at h
    subst h
    exact ⟨⟨List.prefix_refl _, rfl, List.prefix_refl _, AcksFollow.refl _ _⟩, hmembers _⟩

theorem next_later (rt : Runtime) (hm : Keyed m) (op : Op) : Later m (next rt m op) := by
  unfold next
  split
  · next x hx =>
    cases op with
    | send p r =>
      simp only [stepOp, map_ok] at hx
      obtain ⟨⟨reply, m'⟩, hs, rfl⟩ := hx
      exact send_later hm hs
    | transition p r =>
      simp only [stepOp, map_ok] at hx
      obtain ⟨⟨reply, m'⟩, hs, rfl⟩ := hx
      obtain ⟨k, ht⟩ := transition_ok hs
      exact transition_later hm ht
    | setMembership r =>
      simp only [stepOp, map_ok] at hx
      obtain ⟨m', hs, rfl⟩ := hx
      exact setMembership_later hm hs
    | rest projects drivers events =>
      cases hx
      exact ⟨⟨List.prefix_refl _, rfl, List.prefix_refl _, AcksFollow.refl _ _⟩,
        ⟨hm.acks, hm.deliveries, hm.sent, hm.required⟩⟩
  · exact ⟨Permanent.refl m, hm⟩

end Steps

section Runs

/-- A mailbox the store can be in: an initialised older one, and then any
transactions. -/
def after (rt : Runtime) (old : OldMailbox) (ops : List Op) : Mailbox := run (next rt) (initializeMailbox old) ops

theorem after_append (rt : Runtime) (old : OldMailbox) (xs ys : List Op) :
    after rt old (xs ++ ys) = run (next rt) (after rt old xs) ys :=
  run_append ..

theorem run_later (rt : Runtime) (hm : Keyed m) (ops : List Op) : Later m (run (next rt) m ops) := by
  induction ops generalizing m with
  | nil => exact ⟨Permanent.refl m, hm⟩
  | cons op ops ih =>
    have h1 := next_later rt hm op
    have h2 := ih h1.keyed
    exact ⟨h1.permanent.trans h2.permanent, h2.keyed⟩

theorem initializeMailbox_keyed (old : OldMailbox) : Keyed (initializeMailbox old) where
  acks := List.nodup_nil
  deliveries := old.keyed
  sent := by
    intro d hd
    obtain ⟨l, hl, hid⟩ := List.mem_map.mp (old.sent d hd)
    exact ⟨⟨l, ⟨none, .atLeastN, 1⟩⟩, List.mem_map_of_mem hl, hid⟩
  required := by
    intro a ha
    cases ha

theorem after_keyed (rt : Runtime) (old : OldMailbox) (ops : List Op) : Keyed (after rt old ops) :=
  (run_later rt (initializeMailbox_keyed old) ops).keyed

theorem after_permanent (rt : Runtime) (old : OldMailbox) (past more : List Op) :
    Permanent (after rt old past) (after rt old (past ++ more)) := by
  rw [after_append]
  exact (run_later rt (after_keyed rt old past) more).permanent

/-- An acknowledgement that was recorded is the only row under its key, and the
same, ever after. -/
theorem ack_permanent {a : Ack} (h : Permanent m m') (hm' : Keyed m') (ha : a ∈ m.acks) (hacked : a.acked = true) :
    m'.ack? a.deliveryId a.driverId = some a := by
  obtain ⟨f, news, hacks, hf, _⟩ := h.acks
  have hmem : a ∈ m'.acks := by
    rw [hacks]
    refine List.mem_append_left _ (List.mem_map.mpr ⟨a, ha, ?_⟩)
    exact (hf a ha).acked hacked
  exact hm'.ack_of_mem hmem

theorem message_permanent {id : String} {x : Message} (h : Permanent m m') (hx : m.message? id = some x) :
    m'.message? id = some x := by
  obtain ⟨news, hnews⟩ := h.messages
  rw [Mailbox.message?, ← hnews, lookup_append, show lookup Message.messageId m.messages id = some x from hx]
  rfl

theorem delivery_permanent {d d' : Delivery} (h : Permanent m m') (hm' : Keyed m') (hd : d ∈ m.deliveries)
    (hd' : d' ∈ m'.deliveries) (hid : d'.deliveryId = d.deliveryId) : d'.messageId = d.messageId := by
  have hmem : d.letterOf ∈ m'.deliveries.map Delivery.letterOf := h.rows.subset (List.mem_map_of_mem hd)
  obtain ⟨e, he, hed⟩ := List.mem_map.mp hmem
  have heq : e = d' :=
    List.inj_on_of_nodup_map hm'.deliveries he hd' ((congrArg Prod.fst hed).trans hid.symm)
  subst heq
  exact congrArg Prod.snd hed

/-- Over every run: an acknowledgement that was recorded is never changed or
removed, and once `details` says that the quorum of a delivery is met, it says
so for good. -/
theorem acknowledgements_permanent (rt : Runtime) (old : OldMailbox) (past more : List Op) :
    (∀ a ∈ (after rt old past).acks, a.acked = true →
      (after rt old (past ++ more)).ack? a.deliveryId a.driverId = some a) ∧
    ∀ d ∈ (after rt old past).deliveries, ∀ driver x, details (after rt old past) d driver = .ok x →
      x.quorumMet = true →
      ∀ d' ∈ (after rt old (past ++ more)).deliveries, d'.deliveryId = d.deliveryId → ∀ driver',
        ∃ y, details (after rt old (past ++ more)) d' driver' = .ok y ∧ y.quorumMet = true := by
  have hperm := after_permanent rt old past more
  have hkeyed := after_keyed rt old (past ++ more)
  refine ⟨fun a ha hacked => ack_permanent hperm hkeyed ha hacked, ?_⟩
  intro d hd driver x hx hmet d' hd' hid driver'
  simp only [details, bind_ok, orElse_ok, pure_ok] at hx ⊢
  obtain ⟨message, hmessage, rfl⟩ := hx
  rw [delivery_permanent hperm hkeyed hd hd' hid]
  refine ⟨_, ⟨message, message_permanent hperm hmessage, rfl⟩, ?_⟩
  have hlater := quorumMet_permanent hperm (List.mem_map_of_mem hd) hmet
  rw [← hid] at hlater
  exact hlater

end Runs

end AItelier.Mail
