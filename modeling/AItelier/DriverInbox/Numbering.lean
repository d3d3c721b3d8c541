import AItelier.DriverInbox.Reads

namespace AItelier.DriverInbox

open AItelier.Lib

variable {rt : Runtime} {w : World} {c : Caller} {b b' b'' : Inbox} {m : Message}

section Growth

/-- What a delivery was sent as; its status and its version move on. -/
def Delivery.sent (d : Delivery) : Token × Token × String × Nat := (d.deliveryId, d.messageId, d.targetDriverId, d.seq)

/-- The numbers of a driver's deliveries, in the order they were written. -/
def numbers (b : Inbox) (driverId : String) : List Nat :=
  (b.deliveries.filter (fun d => decide (d.targetDriverId = driverId))).map Delivery.seq

/-- Each driver's numbers are `1..k`. -/
def Numbered (b : Inbox) : Prop := ∀ driverId, numbers b driverId = List.range' 1 (numbers b driverId).length

/-- What every reachable inbox keeps. -/
structure Sound (b : Inbox) : Prop where
  keyed : (b.messages.map Message.messageId).Nodup
  sent : ∀ d ∈ b.deliveries, ∃ m ∈ b.messages, m.messageId = d.messageId
  numbered : Numbered b

/-- What a later inbox still has: the messages, the deliveries as they were sent, and
each marker where it was or further on. -/
structure Later (b b' : Inbox) : Prop where
  messages : b.messages <+: b'.messages
  deliveries : b.deliveries.map Delivery.sent <+: b'.deliveries.map Delivery.sent
  markers : ∀ p r, b.marker? p = some r → ∃ r', b'.marker? p = some r' ∧ r.position ≤ r'.position

theorem Later.refl (b : Inbox) : Later b b :=
  ⟨List.prefix_refl _, List.prefix_refl _, fun _ r h => ⟨r, h, le_refl _⟩⟩

theorem Later.trans (h : Later b b') (h' : Later b' b'') : Later b b'' where
  messages := h.messages.trans h'.messages
  deliveries := h.deliveries.trans h'.deliveries
  markers := by
    intro p r hr
    obtain ⟨r', hr', hle⟩ := h.markers p r hr
    obtain ⟨r'', hr'', hle'⟩ := h'.markers p r' hr'
    exact ⟨r'', hr'', le_trans hle hle'⟩

/-- One step of the tables: they only grow, and stay sound. -/
structure Grows (b b' : Inbox) : Prop where
  later : Later b b'
  sound : Sound b → Sound b'

theorem Grows.refl (b : Inbox) : Grows b b := ⟨Later.refl b, fun h => h⟩

theorem Grows.trans (h : Grows b b') (h' : Grows b' b'') : Grows b b'' :=
  ⟨h.later.trans h'.later, fun hs => h'.sound (h.sound hs)⟩

/-- Other tables than those of the messages do not matter to soundness. -/
theorem Sound.congr (h : Sound b) (hm : b'.messages = b.messages)
    (hd : b'.deliveries.map Delivery.sent = b.deliveries.map Delivery.sent) : Sound b' where
  keyed := by
    rw [hm]
    exact h.keyed
  sent := by
    intro d' hd'
    have hmem : d'.sent ∈ b.deliveries.map Delivery.sent := hd ▸ List.mem_map_of_mem hd'
    obtain ⟨d, hin, he⟩ := List.mem_map.mp hmem
    obtain ⟨m, hmessage, hid⟩ := h.sent d hin
    refine ⟨m, hm ▸ hmessage, hid.trans ?_⟩
    exact congrArg (fun x => x.2.1) he
  numbered := by
    have hnumbers : ∀ (x : Inbox) driverId, numbers x driverId =
        ((x.deliveries.map Delivery.sent).filter (fun y => decide (y.2.2.1 = driverId))).map (fun y => y.2.2.2) := by
      intro x driverId
      rw [List.filter_map, List.map_map]
      rfl
    intro driverId
    rw [hnumbers b', hd, ← hnumbers b]
    exact h.numbered driverId

theorem Grows.of_same (hm : b'.messages = b.messages)
    (hd : b'.deliveries.map Delivery.sent = b.deliveries.map Delivery.sent) (hr : b'.reads = b.reads) : Grows b b' where
  later := by
    refine ⟨hm ▸ List.prefix_refl _, hd ▸ List.prefix_refl _, fun p r h => ⟨r, ?_, le_refl _⟩⟩
    rw [Inbox.marker?, hr]
    exact h
  sound := fun h => h.congr hm hd

end Growth

section Deliveries

theorem high_numbered (h : Numbered b) (driverId : String) : high b driverId = (numbers b driverId).length := by
  have hmax : high b driverId = (numbers b driverId).foldl max 0 := rfl
  rw [hmax]
  apply Nat.le_antisymm
  · refine foldl_max_le (Nat.zero_le _) fun n hn => ?_
    rw [h driverId, List.mem_range'_1] at hn
    omega
  · by_cases hzero : (numbers b driverId).length = 0
    · omega
    · refine le_foldl_max (.inl ?_)
      rw [h driverId, List.mem_range'_1, List.length_range']
      omega

theorem insertMessage_ok (h : insertMessage b m = .ok b') :
    (∀ x ∈ b.messages, x.messageId ≠ m.messageId) ∧ b' = { b with messages := b.messages ++ [m] } := by
  simp only [insertMessage, bind_ok, ensure_ok, pure_ok] at h
  obtain ⟨_, hfresh, rfl⟩ := h
  exact ⟨hfresh, rfl⟩

theorem insertMessage_grows (h : insertMessage b m = .ok b') : Grows b b' := by
  obtain ⟨hfresh, rfl⟩ := insertMessage_ok h
  refine ⟨⟨List.prefix_append _ _, List.prefix_refl _, fun p r h => ⟨r, h, le_refl _⟩⟩, fun hs => ?_⟩
  refine ⟨?_, ?_, hs.numbered⟩
  · rw [List.map_append, List.nodup_append]
    refine ⟨hs.keyed, List.nodup_singleton _, ?_⟩
    intro id hid id' hid'
    obtain ⟨x, hx, rfl⟩ := List.mem_map.mp hid
    rw [List.map_singleton, List.mem_singleton] at hid'
    exact hid' ▸ hfresh x hx
  · intro d hd
    obtain ⟨x, hx, hid⟩ := hs.sent d hd
    exact ⟨x, List.mem_append_left _ hx, hid⟩

theorem insertDelivery_ok {d : Delivery} (h : insertDelivery b d = .ok b') :
    b' = { b with deliveries := b.deliveries ++ [d] } := by
  simp only [insertDelivery, bind_ok, ensure_ok, pure_ok] at h
  obtain ⟨_, _, _, _, _, _, rfl⟩ := h
  rfl

/-- A delivery of a stored message under the next number. -/
theorem insertDelivery_grows {d : Delivery} (hm : ∃ m ∈ b.messages, m.messageId = d.messageId)
    (hseq : d.seq = high b d.targetDriverId + 1) (h : insertDelivery b d = .ok b') : Grows b b' := by
  have hb := insertDelivery_ok h
  subst hb
  refine ⟨⟨List.prefix_refl _, ?_, fun p r h => ⟨r, h, le_refl _⟩⟩, fun hs => ⟨hs.keyed, ?_, ?_⟩⟩
  · rw [List.map_append]
    exact List.prefix_append _ _
  · intro x hx
    rcases List.mem_append.mp hx with hx | hx
    · exact hs.sent x hx
    · rw [List.mem_singleton.mp hx]
      exact hm
  · intro driverId
    have hrows : numbers { b with deliveries := b.deliveries ++ [d] } driverId =
        numbers b driverId ++ (if d.targetDriverId = driverId then [d.seq] else []) := by
      by_cases hd : d.targetDriverId = driverId <;> simp [numbers, List.filter_append, hd]
    rw [hrows]
    split
    · next hd =>
      rw [hseq, hd, high_numbered hs.numbered, List.length_append, List.length_singleton, List.range'_concat,
        ← hs.numbered driverId, Nat.one_mul, Nat.add_comm 1]
    · rw [List.append_nil]
      exact hs.numbered driverId

theorem deliver_grows {messageId : Token} {ids : Nat → Token} {acc acc' : Inbox × List Delivery} {target : String}
    (hm : ∃ m ∈ acc.1.messages, m.messageId = messageId) (h : deliver messageId ids acc target = .ok acc') :
    Grows acc.1 acc'.1 := by
  simp only [deliver, bind_ok, pure_ok] at h
  obtain ⟨b₁, hinsert, rfl⟩ := h
  exact insertDelivery_grows hm rfl hinsert

theorem post_grows {targets : List String} {ids : Nat → Token} {ds : List Delivery}
    (h : post b m targets ids = .ok (b', ds)) : Grows b b' := by
  simp only [post, bind_ok] at h
  obtain ⟨b₁, hinsert, hloop⟩ := h
  have hfirst := insertMessage_grows hinsert
  obtain ⟨-, rfl⟩ := insertMessage_ok hinsert
  -- the message stays while its deliveries are written
  have hrounds := foldlM_invariant (I := fun acc : Inbox × List Delivery =>
      Grows b acc.1 ∧ ∃ x ∈ acc.1.messages, x.messageId = m.messageId) (fun acc target acc' hacc hround => ?_)
    ⟨hfirst, m, List.mem_append_right _ List.mem_cons_self, rfl⟩ hloop
  · exact hrounds.1
  · have hgrows := deliver_grows hacc.2 hround
    obtain ⟨x, hx, hid⟩ := hacc.2
    exact ⟨hacc.1.trans hgrows, x, hgrows.later.messages.subset hx, hid⟩

end Deliveries

section Calls

theorem record_grows {actor : String} {operation : Operation} {requestKey : String} {payload : Json} {result a : Answer}
    (h : record b actor operation requestKey payload result = (a, b')) : Grows b b' := by
  cases h
  exact Grows.of_same rfl rfl rfl

theorem sendDriverMessage_grows {r : SendRequest} {a : Answer} (h : sendDriverMessage rt w c b r = .ok (a, b')) :
    Grows b b' := by
  simp only [sendDriverMessage, bind_ok] at h
  obtain ⟨⟨kind, mode⟩, -, _, -, found, -, h⟩ := h
  cases found with
  | some answer =>
    cases h
    exact Grows.refl b
  | none =>
    simp only [bind_ok, pure_ok] at h
    obtain ⟨_, -, targets, -, _, -, _, -, _, -, _, -, _, -, thread, -, ⟨b₁, ds⟩, hpost, hrecord⟩ := h
    exact (post_grows hpost).trans (record_grows hrecord)

theorem sendUserMessage_grows {r : UserMessageRequest} {a : Answer} (h : sendUserMessage rt w c b r = .ok (a, b')) :
    Grows b b' := by
  simp only [sendUserMessage, bind_ok] at h
  obtain ⟨_, -, _, -, _, -, segments, -, _, -, found, -, h⟩ := h
  cases found with
  | some answer =>
    cases h
    exact Grows.refl b
  | none =>
    simp only [bind_ok, pure_ok] at h
    obtain ⟨_, -, _, -, _, -, parent, -, b₁, hinsert, hrecord⟩ := h
    exact (insertMessage_grows hinsert).trans (record_grows hrecord)

theorem sendUserConversationMessage_grows {r : ConversationRequest} {a : Answer}
    (h : sendUserConversationMessage w c b r = .ok (a, b')) : Grows b b' := by
  simp only [sendUserConversationMessage, bind_ok] at h
  obtain ⟨_, -, _, -, _, -, found, -, h⟩ := h
  cases found with
  | some answer =>
    cases h
    exact Grows.refl b
  | none =>
    simp only [bind_ok, pure_ok] at h
    obtain ⟨_, -, parent, -, _, -, _, -, ⟨b₁, ds⟩, hpost, hrecord⟩ := h
    exact (post_grows hpost).trans (record_grows hrecord)

theorem transition_grows {r : TransitionRequest} {a : Answer} (h : transition w c b r = .ok (a, b')) :
    Grows b b' := by
  simp only [transition, bind_ok] at h
  obtain ⟨_, -, _, -, _, -, d, -, _, -, found, -, h⟩ := h
  cases found with
  | some answer =>
    cases h
    exact Grows.refl b
  | none =>
    simp only [bind_ok, pure_ok] at h
    obtain ⟨_, -, _, -, hrecord⟩ := h
    refine Grows.trans ?_ (record_grows hrecord)
    refine Grows.of_same rfl ?_ rfl
    apply map_modifyWhere
    intro x _
    rfl

theorem deliverNotice_grows {n : Notice} (h : deliverNotice w b n = .ok b') : Grows b b' := by
  unfold deliverNotice at h
  split at h
  · cases h
    exact Grows.refl b
  · simp only [bind_ok, pure_ok] at h
    obtain ⟨⟨b₁, ds⟩, hpost, rfl⟩ := h
    exact post_grows hpost

theorem position_lt {t t' i i' : String} : toLex (t, i) < toLex (t', i') ↔ t < t' ∨ (t = t' ∧ i < i') :=
  Prod.Lex.toLex_lt_toLex

theorem markUserConversationRead_grows {projectId messageId : String} {now : Token} {a : MarkAnswer}
    (h : markUserConversationRead w c b projectId messageId now = .ok (a, b')) : Grows b b' := by
  simp only [markUserConversationRead, bind_ok, orElse_ok, pure_ok, Prod.mk.injEq] at h
  obtain ⟨_, -, _, -, _, -, target, -, marker, -, -, rfl⟩ := h
  split
  · next hadvanced =>
    refine ⟨⟨List.prefix_refl _, List.prefix_refl _, ?_⟩, fun hs => ⟨hs.keyed, hs.sent, hs.numbered⟩⟩
    intro p r hr
    unfold Inbox.marker?
    rw [lookup_upsert]
    by_cases hp : projectId = p
    · subst hp
      rw [if_pos rfl]
      refine ⟨_, rfl, le_of_lt ?_⟩
      rw [hr] at hadvanced
      simp only [advances, decide_eq_true_eq] at hadvanced
      rw [ReadMarker.position, ReadMarker.position, position_lt]
      exact hadvanced.imp_right (And.imp_left Eq.symm)
    · rw [if_neg hp]
      exact ⟨r, hr, le_refl _⟩
  · exact Grows.refl b

theorem stepOp_grows {op : Op} (h : stepOp rt b op = .ok b') : Grows b b' := by
  cases op with
  | send w c r =>
    obtain ⟨⟨a, b₁⟩, hr, rfl⟩ := map_ok.mp h
    exact sendDriverMessage_grows hr
  | sendUser w c r =>
    obtain ⟨⟨a, b₁⟩, hr, rfl⟩ := map_ok.mp h
    exact sendUserMessage_grows hr
  | sendUserConversation w c r =>
    obtain ⟨⟨a, b₁⟩, hr, rfl⟩ := map_ok.mp h
    exact sendUserConversationMessage_grows hr
  | transition w c r =>
    obtain ⟨⟨a, b₁⟩, hr, rfl⟩ := map_ok.mp h
    exact transition_grows hr
  | markRead w c projectId messageId now =>
    obtain ⟨⟨a, b₁⟩, hr, rfl⟩ := map_ok.mp h
    exact markUserConversationRead_grows hr
  | notices w l commits =>
    simp only [stepOp, bind_ok, pure_ok] at h
    obtain ⟨b₁, hloop, rfl⟩ := h
    split
    · exact foldlM_invariant (I := Grows b) (fun x n x' hx hn => hx.trans (deliverNotice_grows hn)) (Grows.refl b) hloop
    · exact Grows.refl b

theorem next_grows (rt : Runtime) (b : Inbox) (op : Op) : Grows b (next rt b op) := by
  unfold next
  cases h : stepOp rt b op with
  | ok b' => exact stepOp_grows h
  | error e => exact Grows.refl b

theorem run_grows (rt : Runtime) (b : Inbox) (ops : List Op) : Grows b (run (next rt) b ops) := by
  induction ops generalizing b with
  | nil => exact Grows.refl b
  | cons op ops ih => exact (next_grows rt b op).trans (ih _)

theorem empty_sound : Sound .empty where
  keyed := List.nodup_nil
  sent := fun _ h => absurd h List.not_mem_nil
  numbered := fun _ => rfl

theorem after_sound (rt : Runtime) (ops : List Op) : Sound (after rt ops) := (run_grows rt .empty ops).sound empty_sound

end Calls

end AItelier.DriverInbox
