import AItelier.DriverInbox.Conversation

namespace AItelier.DriverInbox

open AItelier.Lib
open AItelier.State (truthy)

variable {rt : Runtime} {w : World} {c : Caller} {b b' : Inbox} {project : String}

section Walks

/-- A reader that follows `next_after` gets the rows in order, at any moment a first
part of those that there are; once a page is not truncated, all that there were at
the start; and with more pages than rows it comes to that. -/
structure InboxWalk (rt : Runtime) (b : Inbox) (c : Caller) (name : Option String) (driverId : String) (a : Nat)
    (fetches : List Fetch) : Prop where
  ordered : ((walkInbox rt c name b a fetches).1.map InboxRow.seq).Pairwise (· < ·)
  first : (walkInbox rt c name b a fetches).1.map InboxRow.fixed <+:
    ((inboxRows (atEnd rt b fetches) driverId).filter (fun r => decide (a < r.seq))).map InboxRow.fixed
  complete : (walkInbox rt c name b a fetches).2 = true →
    ((inboxRows b driverId).filter (fun r => decide (a < r.seq))).map InboxRow.fixed <+:
      (walkInbox rt c name b a fetches).1.map InboxRow.fixed
  ends : (∀ f ∈ fetches, f.Reads c name) → (inboxRows (atEnd rt b fetches) driverId).length < fetches.length →
    (walkInbox rt c name b a fetches).2 = true

theorem filter_fixed (hb : Sound b) (driverId : String) (a : Nat) :
    ((inboxRows b driverId).filter (fun r => decide (a < r.seq))).map InboxRow.fixed =
      (sentRows b driverId).filter (fun r => decide (a < r.seq)) := by
  rw [← inboxRows_fixed hb, List.filter_map]
  rfl

/-- In an ordered table a span is a first part of the rows after where it begins. -/
theorem span_prefix {l : List InboxRow} (h : Ordered InboxRow.seq l) (a k : Nat) :
    span InboxRow.seq a k l <+: l.filter (fun r => decide (a < r.seq)) := by
  have hcut := (h.filter (fun r => decide (a < r.seq))).cut k
  have hspan : span InboxRow.seq a k l =
      (l.filter (fun r => decide (a < r.seq))).filter (fun r => decide (r.seq ≤ k)) := by
    rw [span, List.filter_filter]
    refine List.filter_congr fun r _ => ?_
    rw [Bool.and_comm, ← Bool.decide_and]
  rw [hspan]
  exact ⟨_, hcut⟩

theorem inbox_walk_named (hb : Sound b) {name : Option String} {driverId : String}
    (hname : (⟨name, 0⟩ : ListRequest).name c = some driverId) (a : Nat) (fetches : List Fetch) :
    InboxWalk rt b c name driverId a fetches := by
  have hgrows := atEnd_grows rt b fetches
  have hsound := hgrows.sound hb
  obtain ⟨k, hle, hwithin, hrows, hover⟩ := @walkInbox_span rt c b name driverId fetches hb a hname
  have hordered := sentRows_ordered hsound driverId
  have hfirst : (walkInbox rt c name b a fetches).1.map InboxRow.fixed <+:
      (sentRows (atEnd rt b fetches) driverId).filter (fun r => decide (a < r.seq)) := by
    rw [hrows]
    exact span_prefix hordered a k
  refine ⟨?_, ?_, fun h => ?_, fun hanswered hpages => ?_⟩
  · have hspan : ((walkInbox rt c name b a fetches).1.map InboxRow.fixed).Pairwise (fun x y => x.seq < y.seq) := by
      rw [hrows]
      exact hordered.filter _
    rw [List.pairwise_map] at hspan ⊢
    exact hspan
  · rw [filter_fixed hsound]
    exact hfirst
  · rw [filter_fixed hb]
    -- the rows of the start reach up to the first largest number, and so does the walk
    obtain ⟨more, hmore⟩ := sentRows_later hb hgrows.later driverId
    have hstart : (sentRows b driverId).filter (fun r => decide (a < r.seq)) <+:
        (sentRows (atEnd rt b fetches) driverId).filter (fun r => decide (a < r.seq)) := by
      rw [← hmore, List.filter_append]
      exact List.prefix_append _ _
    refine List.prefix_of_prefix_length_le hstart hfirst ?_
    have hsame : (sentRows b driverId).filter (fun r => decide (a < r.seq)) =
        (sentRows b driverId).filter (fun r => decide (a < r.seq ∧ r.seq ≤ k)) := by
      refine List.filter_congr fun r hr => decide_eq_decide.mpr ?_
      have hhigh := seq_le_high hb hr
      have hk := hover h
      omega
    rw [hrows, span, ← hmore, List.filter_append, List.length_append, hsame]
    exact Nat.le_add_right _ _
  · cases hopen : (walkInbox rt c name b a fetches).2 with
    | true => rfl
    | false =>
      have hlength := walkInbox_length hb a hname hanswered hopen
      have hbound := hfirst.length_le
      have hfilter := List.length_filter_le (fun r : InboxRow => decide (a < r.seq))
          (sentRows (atEnd rt b fetches) driverId)
      rw [List.length_map] at hbound
      rw [← List.length_map InboxRow.fixed, inboxRows_fixed hsound] at hpages
      omega

/-- Whose inbox a reader reads: the driver that is named, else its own. -/
def reader (c : Caller) (name : Option String) : String := ((⟨name, 0⟩ : ListRequest).name c).getD ""

theorem inbox_walk (hb : Sound b) (name : Option String) (a : Nat) (fetches : List Fetch) :
    InboxWalk rt b c name (reader c name) a fetches := by
  cases hname : (⟨name, 0⟩ : ListRequest).name c with
  | some driverId =>
    rw [reader, hname]
    exact inbox_walk_named hb hname a fetches
  | none =>
    -- nobody is named, and every page is refused
    have hrefused : ∀ (w : World) b limit (a : Nat) page, listDriverMessages w c b ⟨name, limit⟩ a ≠ .ok page := by
      intro w b limit a page h
      simp only [listDriverMessages, bind_ok, ensure_ok, pure_ok] at h
      obtain ⟨_, -, _, -, _, -, driver, hdriver, -⟩ := h
      rw [show (if truthy name then name else c.driverId) = none from hname] at hdriver
      cases hdriver
    have hwalk : ∀ b, walkInbox rt c name b a fetches = ([], false) := by
      intro b
      induction fetches generalizing b with
      | nil => rfl
      | cons f rest ih =>
        unfold walkInbox
        dsimp only
        split
        · exact ih _
        · next page hpage => exact absurd hpage (hrefused _ _ _ _ _)
    refine ⟨?_, ?_, fun h => ?_, fun hanswered hpages => ?_⟩
    · rw [hwalk]
      exact List.Pairwise.nil
    · rw [hwalk]
      exact List.nil_prefix
    · rw [hwalk] at h
      cases h
    · cases fetches with
      | nil => exact absurd hpages (Nat.not_lt_zero _)
      | cons f rest =>
        obtain ⟨page, hpage⟩ := (hanswered f List.mem_cons_self).answered b a
        exact absurd hpage (hrefused _ _ _ _ _)

/-- The place of a shown row. -/
def SpokenRow.position (r : SpokenRow) : String ×ₗ String := toLex (r.createdAt.text, r.messageId.text)

/-- A reader that follows `next_cursor` gets rows strictly older one after the other;
once the end of the history is stated, among them all those that there were at the
start, newest first; and with more pages than rows it comes to that. -/
structure ConversationWalk (rt : Runtime) (b : Inbox) (c : Caller) (project : String) (fetches : List Fetch) :
    Prop where
  ordered : (walkConversation rt c project b none fetches).1.Pairwise (fun x y => y.position < x.position)
  complete : (walkConversation rt c project b none fetches).2 = true →
    (walkConversation rt c project b none fetches).1.filter
        (fun r => decide (r.messageId ∈ b.messages.map Message.messageId)) =
      (conversationRows b project).map Message.shown
  ends : (∀ f ∈ fetches, f.Opens c project) → (conversationRows (atEnd rt b fetches) project).length < fetches.length →
    (walkConversation rt c project b none fetches).2 = true

theorem conversation_walk (hb : Sound b) (fetches : List Fetch) : ConversationWalk rt b c project fetches := by
  have hfetches := @readTables_fetches rt c b project fetches none none hb .start
  have hwalk := @walkConversation_eq rt c b project fetches none none .start
  refine ⟨?_, fun h => ?_, fun hanswered hpages => ?_⟩
  · rw [hwalk, List.pairwise_map]
    exact (walk_sorted hfetches none).1
  · rw [hwalk] at h ⊢
    rw [List.filter_map]
    refine congrArg (List.map Message.shown) ?_
    have hold : ∀ p ∈ readTables rt c project b none fetches, ∀ m ∈ p.1,
        decide (m.messageId ∈ b.messages.map Message.messageId) = true ↔ m ∈ spokenRows b project := by
      intro p hp m hm
      obtain ⟨-, b', hgrows, -, hrows⟩ := mem_readTables .start hp
      rw [hrows] at hm
      rw [decide_eq_true_eq]
      exact mem_spokenRows hgrows.later (hgrows.sound hb) hm
    have hcomplete := walk_complete (spokenRows_keyed hb project) hfetches hold h
    rw [conversationRows_eq]
    exact hcomplete.trans (List.filter_eq_self.mpr fun _ _ => rfl)
  · cases hopen : (walkConversation rt c project b none fetches).2 with
    | true => rfl
    | false =>
      have hlength := readTables_length .start hanswered hopen
      have hlast : ∀ p ∈ readTables rt c project b none fetches, ∀ x ∈ p.1,
          x ∈ conversationRows (atEnd rt b fetches) project := by
        intro p hp x hx
        obtain ⟨-, b', -, hend, hrows⟩ := mem_readTables .start hp
        rw [conversationRows_eq, mem_ordered]
        exact spokenRows_later hend.later project (hrows ▸ hx)
      have hover := @walk_over _ _ _ _ none _ _ _ hfetches hlast (hlength.symm ▸ hpages)
      rw [hwalk] at hopen
      exact absurd hover (by rw [hopen]; decide)

end Walks

section Marker

/-- The messages from drivers to the user that stand after the read marker. -/
def driverMessagesAfter (b : Inbox) (project : String) : List Message :=
  b.messages.filter (fun m => decide (m.audience = .user ∧ m.projectId = some project) &&
    (b.marker? project).all (fun r => decide (r.position < m.position)))

theorem unread_eq (b : Inbox) (project : String) : unread b project = (driverMessagesAfter b project).length := by
  rw [unread, List.countP_eq_length_filter, driverMessagesAfter]
  refine congrArg List.length (List.filter_congr fun m _ => ?_)
  congr 1
  cases b.marker? project with
  | none => rfl
  | some r =>
    rw [Option.all_some, decide_eq_decide, ReadMarker.position, Message.position, position_lt]
    exact or_congr_right (and_congr_left' eq_comm)

/-- Every answer that counts the unread messages counts those after the marker. -/
structure Counted (rt : Runtime) (b : Inbox) : Prop where
  conversation : ∀ w c project limit cursor page, listUserConversation rt w c b project limit cursor = .ok page →
    page.unreadCount = (driverMessagesAfter b project).length
  marked : ∀ w c project messageId now a b', markUserConversationRead w c b project messageId now = .ok (a, b') →
    a.unreadCount = (driverMessagesAfter b' project).length
  badges : ∀ w c project badges, userConversationUnread w c b project = .ok badges →
    ∀ x ∈ badges, x.2 = (driverMessagesAfter b x.1).length

theorem counted (rt : Runtime) (b : Inbox) : Counted rt b := by
  refine ⟨?_, ?_, ?_⟩
  · intro w c project limit cursor page h
    simp only [listUserConversation, bind_ok, ensure_ok, pure_ok] at h
    obtain ⟨_, -, _, -, _, -, _, -, _, -, rfl⟩ := h
    exact unread_eq b project
  · intro w c project messageId now a b' h
    simp only [markUserConversationRead, bind_ok, orElse_ok, pure_ok, Prod.mk.injEq] at h
    obtain ⟨_, -, _, -, _, -, _, -, _, -, rfl, rfl⟩ := h
    exact unread_eq _ project
  · intro w c project badges h x hx
    simp only [userConversationUnread, bind_ok] at h
    obtain ⟨_, -, h⟩ := h
    cases project with
    | some project =>
      simp only [bind_ok, pure_ok] at h
      obtain ⟨_, -, rfl⟩ := h
      rw [List.mem_singleton.mp hx]
      exact unread_eq b project
    | none =>
      cases h
      obtain ⟨p, -, rfl⟩ := List.mem_map.mp hx
      exact unread_eq b p

end Marker

/-- Nothing is lost in an inbox: each driver's numbers are `1..k`, walks by the cursors
return what there was, the read marker only moves on, and what is unread is what
stands after it. -/
structure Lossless (rt : Runtime) (b : Inbox) : Prop where
  numbered : Numbered b
  inbox : ∀ c name a fetches, InboxWalk rt b c name (reader c name) a fetches
  conversation : ∀ c project fetches, ConversationWalk rt b c project fetches
  forward : ∀ more project r, b.marker? project = some r →
    ∃ r', (run (next rt) b more).marker? project = some r' ∧ r.position ≤ r'.position
  unread : Counted rt b

/-- Whatever was called and whatever is called between the pages. -/
theorem inbox_lossless (rt : Runtime) (ops : List Op) : Lossless rt (after rt ops) where
  numbered := (after_sound rt ops).numbered
  inbox := fun _ name a fetches => inbox_walk (after_sound rt ops) name a fetches
  conversation := fun _ _ fetches => conversation_walk (after_sound rt ops) fetches
  forward := fun more => (run_grows rt (after rt ops) more).later.markers
  unread := counted rt (after rt ops)

end AItelier.DriverInbox
