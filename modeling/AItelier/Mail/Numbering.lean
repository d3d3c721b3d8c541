import AItelier.Mail.Permanence

namespace AItelier.Mail

open AItelier.Lib AItelier.State

variable {rt : Runtime} {m m' m'' : Mailbox} {p : Provider}

section Numbers

/-- Where a delivery stands: its project and its number there. -/
def Delivery.place (d : Delivery) : String × Nat := (d.targetProjectId, d.deliverySeq)

theorem numbers_places (D : List Delivery) (project : String) :
    (D.filter (fun d => decide (d.targetProjectId = project))).map Delivery.deliverySeq =
      ((D.map Delivery.place).filter (fun x => decide (x.1 = project))).map Prod.snd := by
  rw [List.filter_map, List.map_map]
  rfl

theorem count_places (D : List Delivery) (project : String) :
    D.countP (fun d => decide (d.targetProjectId = project)) =
      (D.map Delivery.place).countP (fun x => decide (x.1 = project)) := by
  rw [List.countP_map]
  rfl

theorem Numbered.of_places {D D' : List Delivery} {S : List Sequence}
    (h : D'.map Delivery.place = D.map Delivery.place) (hn : Numbered D S) : Numbered D' S := by
  intro project
  rw [numbers_places, count_places, h, ← numbers_places, ← count_places]
  exact hn project

/-- The stored sequence gives the number after the last one, and moves on. -/
theorem nextDeliverySeq_numbered {project : String} (hn : Numbered m.deliveries m.sequences) :
    (nextDeliverySeq m project).1 = m.deliveries.countP (fun d => decide (d.targetProjectId = project)) + 1 ∧
    ∀ q, lookup Sequence.projectId (nextDeliverySeq m project).2.sequences q =
      if q = project then some ⟨project, (nextDeliverySeq m project).1 + 1⟩
      else lookup Sequence.projectId m.sequences q := by
  have hrow := (hn project).2
  unfold nextDeliverySeq Mailbox.sequence?
  rw [hrow]
  split_ifs with hk
  · refine ⟨by simp [hk], fun q => ?_⟩
    rw [lookup_append, lookup_singleton]
    by_cases hq : q = project
    · subst hq
      simp [hrow, hk]
    · simp [hq, Ne.symm hq]
  · refine ⟨rfl, fun q => ?_⟩
    simp only
    rw [lookup_modifyWhere (fun s => by rfl)]
    by_cases hq : q = project
    · subst hq
      simp [hrow, hk]
    · cases hl : lookup Sequence.projectId m.sequences q with
      | none => simp [hq]
      | some s => simp [hq, lookup_key hl]

theorem numbered_deliver {d : Delivery} (hn : Numbered m.deliveries m.sequences)
    (hd : d.deliverySeq = (nextDeliverySeq m d.targetProjectId).1) :
    Numbered (m.deliveries ++ [d]) (nextDeliverySeq m d.targetProjectId).2.sequences := by
  obtain ⟨hseq, hrows⟩ := @nextDeliverySeq_numbered m d.targetProjectId hn
  intro q
  rw [hrows q, List.filter_append, List.map_append, (hn q).1, List.countP_append]
  by_cases hq : q = d.targetProjectId
  · subst hq
    have hlast : List.range' 1 (m.deliveries.countP (fun x => decide (x.targetProjectId = d.targetProjectId))) ++
        [m.deliveries.countP (fun x => decide (x.targetProjectId = d.targetProjectId)) + 1] =
        List.range' 1 (m.deliveries.countP (fun x => decide (x.targetProjectId = d.targetProjectId)) + 1) := by
      rw [List.range'_concat, Nat.one_mul, Nat.add_comm 1]
    simp [hd, hseq, hlast]
  · have hne : ¬ d.targetProjectId = q := fun h => hq h.symm
    simp [hq, hne, (hn q).2]

end Numbers

section Progress

def DeliveryStatus.rank : DeliveryStatus → Nat
  | .unread => 0
  | .acknowledged => 1
  | .resolved => 2

/-- A delivery's later row after `n` moves. -/
structure Advanced (n : Nat) (d d' : Delivery) : Prop where
  id : d'.deliveryId = d.deliveryId
  place : d'.place = d.place
  forward : d.status.rank ≤ d'.status.rank
  version : d'.version = d.version + n

theorem Advanced.refl (d : Delivery) : Advanced 0 d d := ⟨rfl, rfl, Nat.le_refl _, rfl⟩

theorem Advanced.trans {k l : Nat} {d d' d'' : Delivery} (h : Advanced k d d') (h' : Advanced l d' d'') :
    Advanced (k + l) d d'' where
  id := h'.id.trans h.id
  place := h'.place.trans h.place
  forward := Nat.le_trans h.forward h'.forward
  version := by rw [h'.version, h.version, Nat.add_assoc]

/-- Every delivery advances by its moves, and the new ones are new and numbered
on. -/
structure Progress (moves : String → Nat) (m m' : Mailbox) : Prop where
  rows : ∃ (f : Delivery → Delivery) (news : List Delivery), m'.deliveries = m.deliveries.map f ++ news ∧
    (∀ d ∈ m.deliveries, Advanced (moves d.deliveryId) d (f d)) ∧
    ∀ d ∈ news, d.deliveryId ∉ m.deliveries.map Delivery.deliveryId ∧ d.version = 1 + moves d.deliveryId
  absent : ∀ id, id ∉ m'.deliveries.map Delivery.deliveryId → moves id = 0
  numbered : Numbered m.deliveries m.sequences → Numbered m'.deliveries m'.sequences

theorem Progress.same (hdel : m'.deliveries = m.deliveries) (hseq : m'.sequences = m.sequences) :
    Progress (fun _ => 0) m m' where
  rows := ⟨fun d => d, [], by simp [hdel], fun d _ => Advanced.refl d, by simp⟩
  absent := fun _ _ => rfl
  numbered := by rw [hdel, hseq]; exact fun h => h

theorem Progress.congr {k l : String → Nat} (h : Progress k m m') (hkl : ∀ id, l id = k id) : Progress l m m' := by
  rw [show l = k from funext hkl]
  exact h

theorem Progress.ids {k : String → Nat} (h : Progress k m m') :
    m.deliveries.map Delivery.deliveryId <+: m'.deliveries.map Delivery.deliveryId := by
  obtain ⟨f, news, hrows, hf, _⟩ := h.rows
  refine ⟨news.map Delivery.deliveryId, ?_⟩
  rw [hrows, List.map_append, List.map_map]
  congr 1
  exact List.map_congr_left (fun d hd => (hf d hd).id.symm)

theorem Progress.forward {k : String → Nat} (h : Progress k m m') (hm' : Keyed m') {d d' : Delivery}
    (hd : d ∈ m.deliveries) (hd' : d' ∈ m'.deliveries) (hid : d'.deliveryId = d.deliveryId) :
    d.status.rank ≤ d'.status.rank ∧ d'.place = d.place := by
  obtain ⟨f, news, hrows, hf, _⟩ := h.rows
  have hadv := hf d hd
  have hmem : f d ∈ m'.deliveries := by
    rw [hrows]
    exact List.mem_append_left _ (List.mem_map_of_mem hd)
  have he : d' = f d := List.inj_on_of_nodup_map hm'.deliveries hd' hmem (hid.trans hadv.id.symm)
  rw [he]
  exact ⟨hadv.forward, hadv.place⟩

theorem Progress.trans {k l : String → Nat} (h : Progress k m m') (h' : Progress l m' m'') :
    Progress (fun id => k id + l id) m m'' where
  rows := by
    obtain ⟨f, news, hrows, hf, hn⟩ := h.rows
    obtain ⟨g, news', hrows', hg, hn'⟩ := h'.rows
    refine ⟨fun d => g (f d), news.map g ++ news', by simp [hrows', hrows, Function.comp_def], ?_, ?_⟩
    · intro d hd
      have hmem : f d ∈ m'.deliveries := by
        rw [hrows]
        exact List.mem_append_left _ (List.mem_map_of_mem hd)
      have h2 := hg (f d) hmem
      rw [(hf d hd).id] at h2
      exact (hf d hd).trans h2
    · intro d hd
      rcases List.mem_append.mp hd with hd | hd
      · -- a delivery that the first part made new moves on in the second
        obtain ⟨e, he, rfl⟩ := List.mem_map.mp hd
        have hadv := hg e (by rw [hrows]; exact List.mem_append_right _ he)
        rw [hadv.id, hadv.version, (hn e he).2, Nat.add_assoc]
        exact ⟨(hn e he).1, rfl⟩
      · -- one that is new in the second had no moves in the first
        obtain ⟨hnew, hv⟩ := hn' d hd
        rw [hv, h.absent _ hnew, Nat.zero_add]
        exact ⟨fun hold => hnew (h.ids.subset hold), rfl⟩
  absent := by
    intro id hid
    rw [h'.absent id hid, h.absent id (fun hm => hid (h'.ids.subset hm))]
  numbered := fun hn => h'.numbered (h.numbered hn)

/-- One move of one delivery. -/
theorem Progress.move {id : String} {d : Delivery} {status : DeliveryStatus} (hm : Keyed m)
    (found : m.delivery? id = some d) (hrank : d.status.rank ≤ status.rank)
    (hdel : m'.deliveries =
      (m.setDelivery id (fun d => { d with status := status, version := d.version + 1 })).deliveries)
    (hseq : m'.sequences = m.sequences) : Progress (fun x => if x = id then 1 else 0) m m' where
  rows := by
    refine ⟨_, [], by rw [hdel, List.append_nil]; rfl, ?_, by simp⟩
    intro e he
    by_cases hid : e.deliveryId = id
    · have hed : e = d := by
        have hl := hm.delivery_of_mem he
        rw [hid, found] at hl
        exact (Option.some.inj hl).symm
      subst hed
      simp only [decide_eq_true hid, if_true, if_pos hid]
      exact ⟨rfl, rfl, hrank, rfl⟩
    · simp only [hid, decide_false, if_false, Bool.false_eq_true]
      exact Advanced.refl e
  absent := by
    intro x hx
    rw [if_neg]
    rintro rfl
    apply hx
    have hmem : d ∈ m.deliveries := lookup_mem found
    have hmap := List.mem_map_of_mem (f := Delivery.letterOf) hmem
    rw [← setDelivery_rows m x status, ← hdel] at hmap
    obtain ⟨e, he, hed⟩ := List.mem_map.mp hmap
    have hdid : d.deliveryId = x := lookup_key found
    exact List.mem_map.mpr ⟨e, he, (congrArg Prod.fst hed).trans hdid⟩
  numbered := by
    intro hn
    rw [hseq, hdel]
    apply hn.of_places
    exact map_modifyWhere (fun _ _ => by rfl) _

end Progress

section Moves

/-- A transition of the delivery that is neither refused nor a replay. -/
def answered (rt : Runtime) (m : Mailbox) (op : Op) (id : String) : Bool :=
  match op with
  | .transition p r => decide (r.deliveryId = id) && match transition rt m p r with
    | .ok (reply, _) => !reply.replayed
    | .error _ => false
  | _ => false

/-- The removal of a driver that completes the quorum of a delivery. -/
def finishes (m : Mailbox) (driver : String) (now : Stamp) (id : String) : Bool :=
  (m.delivery? id).any (fun d => decide (d.status ≠ .resolved) && (m.message? d.messageId).any (fun x =>
    (detailsOf (m.setAck id driver (fun a => { a with removedAt := some now })) x.terms d none).quorumMet))

/-- The accepted moves of a delivery: a transition to where it is not yet, and the
removal of the last driver it waits for. -/
def moves (rt : Runtime) (m : Mailbox) (op : Op) (id : String) : Bool :=
  match op with
  | .transition p r => answered rt m op id && !(m.delivery? id).any (r.already p)
  | .setMembership r => (setMembership m r).isOk && decide (r.status = .removed) &&
      decide (id ∈ awaiting m r.projectId r.driverId) && finishes m r.driverId r.now id
  | _ => false

theorem delivered_progress {message : Message} {target : String × String} {d : Delivery} {required : List Ack}
    (h : Delivered message m target d required m') : Progress (fun _ => 0) m m' where
  rows := by
    refine ⟨fun d => d, [d], by simp [h.deliveries], fun d _ => Advanced.refl d, ?_⟩
    intro x hx
    rw [List.mem_singleton.mp hx]
    refine ⟨fun hold => ?_, by rw [h.row]⟩
    obtain ⟨y, hy, hid⟩ := List.mem_map.mp hold
    exact h.fresh y hy hid
  absent := fun _ _ => rfl
  numbered := by
    intro hn
    have hstep := numbered_deliver (d := d) hn (by rw [h.row])
    have htarget : d.targetProjectId = target.1 := by rw [h.row]
    rw [h.deliveries, h.sequences, ← htarget]
    exact hstep

theorem send_progress {r : SendRequest} {reply : Reply} (h : sendDirectorMessage rt m p r = .ok (reply, m')) :
    Progress (fun _ => 0) m m' := by
  rcases sendDirectorMessage_ok h with ⟨_, rfl⟩ | ⟨message, v3, summary, targets, m₁, sent, row, _, _, hloop, rfl⟩
  · exact Progress.same rfl rfl
  · have hrounds := foldlM_invariant (I := fun acc : Mailbox × List Delivery => Progress (fun _ => 0) m acc.1)
      (fun acc t acc' hacc hd => ?_) (Progress.same rfl rfl) hloop
    · have hrecord : Progress (fun _ => 0) m₁ { m₁ with idempotency := m₁.idempotency ++ [row] } :=
        Progress.same rfl rfl
      exact hrounds.trans hrecord
    · obtain ⟨d, required, hd⟩ := deliver_ok hd
      exact hacc.trans (delivered_progress hd)

/-- A transition moves its delivery exactly when it is no replay and the delivery
is not there yet. -/
theorem transition_progress {r : TransitionRequest} {b : Bool} (hm : Keyed m) (h : Transitioned m p r b m') :
    Progress (fun id => if r.deliveryId = id ∧ b = false ∧ (m.delivery? id).any (r.already p) = false
      then 1 else 0) m m' := by
  cases h with
  | replayed =>
    refine Progress.congr (Progress.same rfl rfl) (fun id => ?_)
    simp
  | noted d answer found already =>
    refine Progress.congr (k := fun _ => 0) (Progress.same rfl rfl) (fun id => ?_)
    rw [if_neg]
    rintro ⟨rfl, _, hopen⟩
    simp [found, already] at hopen
  | single d answer found open_ legal =>
    have hrank : d.status.rank ≤ r.target.rank := by
      rcases legal with ⟨h1, h2⟩ | ⟨h1, h2⟩ <;> rw [h1, h2] <;> decide
    refine Progress.congr (Progress.move hm found hrank ?_ rfl) (fun id => ?_)
    · rfl
    · by_cases hid : r.deliveryId = id
      · subst hid
        simp [found, open_]
      · simp [hid, Ne.symm hid]
  | each d message driver found open_ unresolved new =>
    obtain ⟨status, seq, hstatus, hdel, _, _, _, hseq⟩ := writeV3_tables m p r d message driver
    have hrank : d.status.rank ≤ status.rank := by
      cases hs : d.status <;> cases ht : status <;> simp_all [DeliveryStatus.rank]
    refine Progress.congr (Progress.move hm found hrank hdel hseq) (fun id => ?_)
    by_cases hid : r.deliveryId = id
    · subst hid
      simp [found, open_]
    · simp [hid, Ne.symm hid]

theorem removed_progress {driver id : String} {now : Stamp} (hm : Keyed m) (h : Removed driver now m id m') :
    Progress (fun x => if x = id ∧ finishes m driver now id = true then 1 else 0) m m' := by
  obtain ⟨d, message, found, hmessage, hdel⟩ := h.deliveries
  have hfin : finishes m driver now id = ((detailsOf (m.setAck id driver (fun a => { a with removedAt := some now }))
      message.terms d none).quorumMet && decide (d.status ≠ .resolved)) := by
    simp only [finishes, found, hmessage, Option.any_some]
    exact Bool.and_comm _ _
  rw [← hfin] at hdel
  by_cases hf : finishes m driver now id = true
  · rw [if_pos hf] at hdel
    rw [hfin, Bool.and_eq_true, decide_eq_true_eq] at hf
    have hrank : d.status.rank ≤ (metStatus message.letter.deliveryMode).rank := by
      cases hs : d.status with
      | unread => exact Nat.zero_le _
      | acknowledged => cases message.letter.deliveryMode <;> decide
      | resolved => exact absurd hs hf.2
    refine Progress.congr (Progress.move hm found hrank hdel h.sequences) (fun x => ?_)
    simp [hfin, hf]
  · rw [if_neg hf] at hdel
    refine Progress.congr (Progress.same hdel h.sequences) (fun x => ?_)
    simp [hf]

theorem ackRows_other {driver id x : String} {f g : Ack → Ack} (hne : x ≠ id) (hf : ∀ a, (f a).id = a.id)
    (hg : ∀ a, (g a).id = a.id) (hacks : m'.acks = (m.setAck id driver f).acks) :
    ackRows (m'.setAck x driver g) x = ackRows (m.setAck x driver g) x := by
  have hkeep : ∀ (k : Ack → Ack), (∀ a, (k a).id = a.id) →
      ∀ a, decide ((k a).deliveryId = x) = decide (a.deliveryId = x) := by
    intro k hk a
    rw [show (k a).deliveryId = a.deliveryId from congrArg Prod.fst (hk a)]
  have hothers : m'.acks.filter (fun a => decide (a.deliveryId = x)) =
      m.acks.filter (fun a => decide (a.deliveryId = x)) := by
    rw [hacks, Mailbox.setAck, filter_modifyWhere (hkeep f hf)]
    apply modifyWhere_of_none
    intro a ha
    have hax : a.deliveryId = x := of_decide_eq_true (List.mem_filter.mp ha).2
    refine decide_eq_false (fun hid => hne ?_)
    rw [← hax]
    exact congrArg Prod.fst hid
  simp only [ackRows, Mailbox.setAck]
  rw [filter_modifyWhere (hkeep g hg), filter_modifyWhere (hkeep g hg), hothers]

theorem finishes_other {driver id x : String} {now : Stamp} (h : Removed driver now m id m') (hne : x ≠ id) :
    finishes m' driver now x = finishes m driver now x := by
  have hrows := ackRows_other (f := fun a => { a with removedAt := some now })
    (g := fun a => { a with removedAt := some now }) hne (fun _ => rfl) (fun _ => rfl) h.acks
  have hdel : m'.delivery? x = m.delivery? x := by
    obtain ⟨d, message, _, _, hdel⟩ := h.deliveries
    rw [Mailbox.delivery?, hdel]
    split_ifs
    · rw [Mailbox.setDelivery, lookup_modifyWhere (fun _ => by rfl)]
      cases hl : lookup Delivery.deliveryId m.deliveries x with
      | none => simp [Mailbox.delivery?, hl]
      | some e => simp [Mailbox.delivery?, hl, lookup_key hl, hne]
    · rfl
  unfold finishes
  rw [hdel]
  cases hd : m.delivery? x with
  | none => rfl
  | some d =>
    have hid : d.deliveryId = x := lookup_key hd
    simp only [Option.any_some, Mailbox.message?, h.messages, detailsOf, hid, hrows]
    rw [show (m'.setAck x driver (fun a => { a with removedAt := some now })).legacyAcks =
      (m.setAck x driver (fun a => { a with removedAt := some now })).legacyAcks from h.legacy]

theorem removals_progress {project driver actor : String} {now : Stamp} {ids : List String} (hm : Keyed m)
    (hids : ids.Nodup) (h : ids.foldlM (removeRequired project driver actor now) m = .ok m') :
    Progress (fun x => if x ∈ ids ∧ finishes m driver now x = true then 1 else 0) m m' := by
  induction ids generalizing m with
  | nil =>
    rw [List.foldlM_nil, pure_ok] at h
    subst h
    exact Progress.congr (Progress.same rfl rfl) (fun x => by simp)
  | cons id ids ih =>
    rw [List.foldlM_cons, bind_ok] at h
    obtain ⟨m₁, hround, hrest⟩ := h
    have hremoved := removeRequired_ok hround
    obtain ⟨hnot, hids⟩ := List.nodup_cons.mp hids
    have htail := ih (removed_keyed hremoved hm) hids hrest
    refine Progress.congr ((removed_progress hm hremoved).trans htail) (fun x => ?_)
    by_cases hx : x = id
    · subst hx
      simp [hnot]
    · simp [hx, finishes_other hremoved hx]

theorem awaiting_nodup {project driver : String} (hm : Keyed m) : (awaiting m project driver).Nodup := by
  refine List.Nodup.map_on ?_ (hm.acks.of_map.filter _)
  intro a ha b hb he
  simp only [List.mem_filter, Bool.and_eq_true, decide_eq_true_eq] at ha hb
  refine List.inj_on_of_nodup_map hm.acks ha.1 hb.1 ?_
  exact Prod.ext he (ha.2.1.2.trans hb.2.1.2.symm)

theorem setMembership_progress {r : MembershipRequest} (hm : Keyed m) (h : setMembership m r = .ok m') :
    Progress (fun x => if r.status = .removed ∧ x ∈ awaiting m r.projectId r.driverId ∧
      finishes m r.driverId r.now x = true then 1 else 0) m m' := by
  simp only [setMembership, bind_ok] at h
  obtain ⟨_, _, _, _, _, _, _, _, _, _, h⟩ := h
  split at h
  · next hs =>
    have hmembers : ∀ members, Keyed { m with members := members } :=
      fun members => ⟨hm.acks, hm.deliveries, hm.sent, hm.required⟩
    have hloop := removals_progress (hmembers _) (awaiting_nodup (hmembers _)) h
    refine Progress.congr ⟨hloop.rows, hloop.absent, hloop.numbered⟩ (fun x => ?_)
    simp only [hs, true_and]
    rfl
  · next hs =>
    rw [pure_ok] at h
    subst h
    refine Progress.congr (k := fun _ => 0) (Progress.same rfl rfl) (fun x => ?_)
    simp [hs]

/-- One step of the mailbox advances each delivery by its accepted moves. -/
theorem next_progress (rt : Runtime) (hm : Keyed m) (op : Op) :
    Progress (fun id => (moves rt m op id).toNat) m (next rt m op) := by
  cases op with
  | send p r =>
    cases hs : sendDirectorMessage rt m p r with
    | error e =>
      simp only [next, stepOp, hs, Except.map]
      exact Progress.congr (Progress.same rfl rfl) (fun _ => rfl)
    | ok x =>
      simp only [next, stepOp, hs, Except.map]
      exact Progress.congr (send_progress hs) (fun _ => rfl)
  | transition p r =>
    cases hs : transition rt m p r with
    | error e =>
      simp only [next, stepOp, hs, Except.map]
      exact Progress.congr (Progress.same rfl rfl) (fun id => by simp [moves, answered, hs])
    | ok x =>
      obtain ⟨reply, m'⟩ := x
      simp only [next, stepOp, hs, Except.map]
      obtain ⟨k, ht⟩ := transition_ok hs
      refine Progress.congr (transition_progress hm ht) (fun id => ?_)
      have halready : ({ r with requestKey := k } : TransitionRequest).already p = r.already p := rfl
      rw [halready]
      by_cases hid : r.deliveryId = id <;> cases hb : reply.replayed <;>
        cases ha : (m.delivery? id).any (r.already p) <;> simp [moves, answered, hs, hid, hb, ha]
  | setMembership r =>
    cases hs : setMembership m r with
    | error e =>
      simp only [next, stepOp, hs, Except.map]
      exact Progress.congr (Progress.same rfl rfl) (fun id => by simp [moves, hs, Except.isOk, Except.toBool])
    | ok m' =>
      simp only [next, stepOp, hs, Except.map]
      refine Progress.congr (setMembership_progress hm hs) (fun id => ?_)
      by_cases h1 : r.status = .removed <;> by_cases h2 : id ∈ awaiting m r.projectId r.driverId <;>
        cases h3 : finishes m r.driverId r.now id <;> simp [moves, hs, h1, h2, h3, Except.isOk, Except.toBool]
  | rest projects drivers events =>
    exact Progress.congr (k := fun _ => 0) (Progress.same rfl rfl) (fun _ => rfl)

end Moves

section Runs

/-- How many operations of a run `counts` for a delivery, each judged in the state
it is taken from. -/
def tally (counts : Mailbox → Op → String → Bool) (rt : Runtime) (id : String) : Mailbox → List Op → Nat
  | _, [] => 0
  | m, op :: ops => (counts m op id).toNat + tally counts rt id (next rt m op) ops

theorem run_progress (rt : Runtime) (hm : Keyed m) (ops : List Op) :
    Progress (fun id => tally (moves rt) rt id m ops) m (run (next rt) m ops) := by
  induction ops generalizing m with
  | nil => exact Progress.congr (Progress.same rfl rfl) (fun _ => rfl)
  | cons op ops ih => exact (next_progress rt hm op).trans (ih (next_later rt hm op).keyed)

/-- The version the mailbox came with, and one for a delivery that is new. -/
def OldMailbox.version (old : OldMailbox) (id : String) : Nat :=
  ((lookup Delivery.deliveryId old.deliveries id).map Delivery.version).getD 1

theorem after_version (rt : Runtime) (old : OldMailbox) (ops : List Op) {d : Delivery}
    (hd : d ∈ (after rt old ops).deliveries) :
    d.version = old.version d.deliveryId + tally (moves rt) rt d.deliveryId (initializeMailbox old) ops := by
  obtain ⟨f, news, hrows, hf, hn⟩ := (run_progress rt (initializeMailbox_keyed old) ops).rows
  rw [after, hrows] at hd
  rcases List.mem_append.mp hd with hd | hd
  · obtain ⟨e, he, rfl⟩ := List.mem_map.mp hd
    have hadv := hf e he
    have hold : lookup Delivery.deliveryId old.deliveries e.deliveryId = some e :=
      lookup_of_mem old.keyed he
    rw [hadv.version, hadv.id, OldMailbox.version, hold]
    rfl
  · obtain ⟨hnew, hv⟩ := hn d hd
    have hold : lookup Delivery.deliveryId old.deliveries d.deliveryId = none := by
      rw [lookup_eq_none]
      exact fun x hx hid => hnew (List.mem_map.mpr ⟨x, hx, hid⟩)
    rw [hv, OldMailbox.version, hold]
    rfl

theorem after_forward (rt : Runtime) (old : OldMailbox) (past more : List Op) {d d' : Delivery}
    (hd : d ∈ (after rt old past).deliveries) (hd' : d' ∈ (after rt old (past ++ more)).deliveries)
    (hid : d'.deliveryId = d.deliveryId) : d.status.rank ≤ d'.status.rank ∧ d'.place = d.place := by
  have hkeyed := after_keyed rt old (past ++ more)
  rw [after_append] at hd' hkeyed
  exact (run_progress rt (after_keyed rt old past) more).forward hkeyed hd hd' hid

/-- A step whose transaction is refused, or answers from a record, leaves every
table as it is. -/
theorem next_idle (rt : Runtime) (m : Mailbox) (op : Op)
    (h : (∃ e, stepOp rt m op = .error e) ∨
      ∃ reply m', stepOp rt m op = .ok (some reply, m') ∧ reply.replayed = true) : next rt m op = m := by
  rcases h with ⟨e, he⟩ | ⟨reply, m', hok, hreplayed⟩
  · simp [next, he]
  · simp only [next, hok]
    cases op with
    | send p r =>
      simp only [stepOp, map_ok] at hok
      obtain ⟨⟨reply', m₁⟩, hs, he⟩ := hok
      simp only [Prod.mk.injEq, Option.some.injEq] at he
      obtain ⟨rfl, rfl⟩ := he
      rcases sendDirectorMessage_ok hs with ⟨_, rfl⟩ | ⟨_, _, _, _, _, _, _, _, hnot, _⟩
      · rfl
      · rw [hreplayed] at hnot
        cases hnot
    | transition p r =>
      simp only [stepOp, map_ok] at hok
      obtain ⟨⟨reply', m₁⟩, hs, he⟩ := hok
      simp only [Prod.mk.injEq, Option.some.injEq] at he
      obtain ⟨rfl, rfl⟩ := he
      obtain ⟨k, ht⟩ := transition_ok hs
      rw [hreplayed] at ht
      cases ht
      rfl
    | setMembership r =>
      simp only [stepOp, map_ok] at hok
      obtain ⟨_, _, he⟩ := hok
      cases he
    | rest projects drivers events => cases hok

/-- Over every run, for every project and delivery: the numbers are `1, ..., k` in
row order and the stored sequence is `k + 1` once there is a delivery; a status
never moves back; a version counts the accepted moves; and a refused or replayed
call changes nothing. -/
theorem mailbox_lifecycle (rt : Runtime) (old : OldMailbox) (past more : List Op) :
    Numbered (after rt old past).deliveries (after rt old past).sequences ∧
    (∀ d ∈ (after rt old past).deliveries,
      d.version = old.version d.deliveryId + tally (moves rt) rt d.deliveryId (initializeMailbox old) past ∧
      (∃ d' ∈ (after rt old (past ++ more)).deliveries, d'.deliveryId = d.deliveryId) ∧
      ∀ d' ∈ (after rt old (past ++ more)).deliveries, d'.deliveryId = d.deliveryId →
        d.status.rank ≤ d'.status.rank ∧ d'.place = d.place) ∧
    ∀ op, ((∃ e, stepOp rt (after rt old past) op = .error e) ∨
      ∃ reply m', stepOp rt (after rt old past) op = .ok (some reply, m') ∧ reply.replayed = true) →
      next rt (after rt old past) op = after rt old past := by
  refine ⟨?_, ?_, fun op h => next_idle rt _ op h⟩
  · exact (run_progress rt (initializeMailbox_keyed old) past).numbered old.numbered
  · intro d hd
    refine ⟨after_version rt old past hd, ?_, fun d' hd' hid => after_forward rt old past more hd hd' hid⟩
    have hids := (after_permanent rt old past more).ids.subset (List.mem_map_of_mem hd)
    obtain ⟨d', hd', hid⟩ := List.mem_map.mp hids
    exact ⟨d', hd', hid⟩

def plain : Runtime := ⟨fun s => s, fun s => s⟩

/-- Project `a` broadcasts to `b`, whose only member is `x`. -/
def broadcastRun : List Op :=
  [.rest ["a", "b"] [⟨"x", .active, none⟩] [],
   .setMembership ⟨"b", "x", .member, 0, "joins", "owner:o", true, 0⟩,
   .send ⟨"owner:o", none, false⟩ ⟨"a", "o", "k1", "s", "", some "b", false, none, .transient, some .broadcast, none,
     .v3, "m", fun _ => "d", 0⟩]

/-- The answered transitions alone do not give the version: the removal of a driver
moves a delivery that nobody transitioned, and the second resolution of a delivery
is answered without a move. -/
theorem version_not_answered_transitions :
    (∃ rt old ops, ∃ d ∈ (after rt old ops).deliveries,
      old.version d.deliveryId + tally (answered rt) rt d.deliveryId (initializeMailbox old) ops < d.version) ∧
    ∃ rt old ops, ∃ d ∈ (after rt old ops).deliveries,
      d.version < old.version d.deliveryId + tally (answered rt) rt d.deliveryId (initializeMailbox old) ops := by
  constructor
  · refine ⟨plain, .empty,
      broadcastRun ++ [.setMembership ⟨"b", "x", .removed, 1, "leaves", "owner:o", true, 0⟩],
      ⟨"d", "m", "b", 1, .resolved, 2⟩, ?_, ?_⟩ <;> decide
  · refine ⟨plain, .empty,
      broadcastRun ++ [.transition ⟨"owner:o", none, false⟩ ⟨.resolve, "b", "d", 1, "k2", .v3, 0⟩,
        .transition ⟨"owner:o", none, false⟩ ⟨.resolve, "b", "d", 2, "k3", .v3, 0⟩],
      ⟨"d", "m", "b", 1, .resolved, 2⟩, ?_, ?_⟩ <;> decide

end Runs

end AItelier.Mail
