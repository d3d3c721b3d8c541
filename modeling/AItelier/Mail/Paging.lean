import AItelier.Mail.Inbox
import AItelier.Mail.Numbering

namespace AItelier.Mail

open AItelier.Lib AItelier.State

variable {rt : Runtime} {m m' : Mailbox} {q : InboxFilter}

/-- An authenticated reader: the id of a registered driver is not empty. -/
structure Reader extends Provider where
  named : driverId ≠ some ""

/-- The mailboxes a reader can find: keys and numbers in order, and under a legacy
mark only the terms of the migration. -/
structure Sound (m : Mailbox) : Prop where
  keyed : Keyed m
  numbered : Numbered m.deliveries m.sequences
  legacy : ∀ d ∈ m.deliveries, d.deliveryId ∈ m.legacyAcks → ∀ x, m.message? d.messageId = some x →
    x.terms.ackMode = .atLeastN

theorem initializeMailbox_message {old : OldMailbox} {id : String} {x : Message}
    (h : (initializeMailbox old).message? id = some x) : x.terms.ackMode = .atLeastN := by
  obtain ⟨l, _, rfl⟩ := List.mem_map.mp (lookup_mem h)
  rfl

/-- Every mailbox of a run is sound. -/
theorem after_sound (rt : Runtime) (old : OldMailbox) (ops : List Op) : Sound (after rt old ops) where
  keyed := after_keyed rt old ops
  numbered := (run_progress rt (initializeMailbox_keyed old) ops).numbered old.numbered
  legacy := by
    intro d hd hlegacy x hx
    have hperm : Permanent (initializeMailbox old) (after rt old ops) := after_permanent rt old [] ops
    rw [hperm.legacy] at hlegacy
    obtain ⟨e, he, hid⟩ := List.mem_map.mp hlegacy
    have hold : e ∈ (initializeMailbox old).deliveries := List.mem_of_mem_filter he
    have hmessage := delivery_permanent hperm (after_keyed rt old ops) hold hd hid.symm
    obtain ⟨y, hy, hyid⟩ := (initializeMailbox_keyed old).sent e hold
    have hsome : (lookup Message.messageId (initializeMailbox old).messages y.messageId).isSome :=
      lookup_isSome_of_mem hy
    obtain ⟨z, hz⟩ := Option.isSome_iff_exists.mp hsome
    rw [hyid, ← hmessage] at hz
    have hlater := message_permanent hperm hz
    rw [hx, Option.some.injEq] at hlater
    rw [hlater]
    exact initializeMailbox_message hz

section Needs

/-- What the details of a delivery say of the reader. -/
def needs (m : Mailbox) (p : Provider) (r : Delivery × Message) : Bool :=
  detailsNeeds p r.1 (detailsOf m r.2.terms r.1 p.detailsName)

/-- A broadcast that still waits for a driver of that name. -/
def waitsFor (m : Mailbox) (name : String) (r : Delivery × Message) : Bool :=
  decide (r.2.terms.ackMode = .broadcast) && decide (r.1.status ≠ .resolved) &&
    m.acks.any (fun a => decide (a.deliveryId = r.1.deliveryId ∧ a.driverId = name) && a.pending)

theorem ackRows_any (m : Mailbox) (id : String) (g : Ack → Bool) :
    (ackRows m id).any g = m.acks.any (fun a => decide (a.deliveryId = id) && g a) := by
  rw [(ackRows_perm m id).any_eq, List.any_filter]

theorem ackedByMe_eq (m : Mailbox) (terms : Terms) (d : Delivery) (name : String) :
    (detailsOf m terms d (some name)).ackedByMe =
      m.acks.any (fun a => decide (a.deliveryId = d.deliveryId ∧ a.driverId = name) && a.acked) := by
  simp only [detailsOf, ackRows_any]
  congr 1
  funext a
  simp only [Bool.decide_and, Option.some.injEq, Bool.and_assoc, Bool.and_comm a.acked]

theorem quorumMet_eq (m : Mailbox) (terms : Terms) (d : Delivery) (name : Option String)
    (hmode : terms.ackMode = .atLeastN) :
    (detailsOf m terms d name).quorumMet = (decide (d.deliveryId ∈ m.legacyAcks) || decide (terms.ackQuorum ≤
      (m.acks.filter (fun a => decide (a.deliveryId = d.deliveryId) && a.acked)).length)) := by
  simp only [detailsOf, quorumMet, hmode, acked_count, List.countP_eq_length_filter]
  simp only [Bool.and_comm]

theorem mem_pendingDrivers {terms : Terms} {d : Delivery} {name : Option String} {driver : String} :
    driver ∈ (detailsOf m terms d name).pendingDrivers ↔
      m.acks.any (fun a => decide (a.deliveryId = d.deliveryId ∧ a.driverId = driver) && a.pending) = true := by
  simp only [detailsOf, List.mem_map, List.mem_filter, mem_ackRows, List.any_eq_true, Bool.and_eq_true,
    decide_eq_true_eq]
  constructor
  · rintro ⟨a, ⟨⟨ha, hd⟩, hp⟩, rfl⟩
    exact ⟨a, ha, ⟨hd, rfl⟩, hp⟩
  · rintro ⟨a, ha, ⟨hd, hdriver⟩, hp⟩
    exact ⟨a, ⟨⟨ha, hd⟩, hp⟩, hdriver⟩

theorem pending_not_acked (hm : Keyed m) {id name : String}
    (h : m.acks.any (fun a => decide (a.deliveryId = id ∧ a.driverId = name) && a.pending) = true) :
    m.acks.any (fun a => decide (a.deliveryId = id ∧ a.driverId = name) && a.acked) = false := by
  simp only [List.any_eq_true, Bool.and_eq_true, decide_eq_true_eq] at h
  obtain ⟨a, ha, ⟨h1, h2⟩, hp⟩ := h
  rw [List.any_eq_false]
  intro b hb hacked
  simp only [Bool.and_eq_true, decide_eq_true_eq] at hacked
  obtain ⟨⟨h3, h4⟩, hacked⟩ := hacked
  have heq : b = a := by
    refine List.inj_on_of_nodup_map hm.acks hb ha ?_
    simp only [Ack.id, h1, h2, h3, h4]
  subst heq
  simp only [Ack.pending, Bool.and_eq_true] at hp
  simp [Ack.acked, Option.isNone_iff_eq_none.mp hp.2] at hacked

variable {r : Delivery × Message}

theorem mem_joined {projectId : String} :
    r ∈ joined m projectId ↔ r.1 ∈ m.deliveries ∧ r.1.targetProjectId = projectId ∧
      m.message? r.1.messageId = some r.2 := by
  simp only [joined, List.mem_filterMap, List.mem_insertionSort, List.mem_filter, decide_eq_true_eq,
    Option.map_eq_some_iff]
  constructor
  · rintro ⟨d, ⟨hd, hp⟩, x, hx, rfl⟩
    exact ⟨hd, hp, hx⟩
  · rintro ⟨hd, hp, hx⟩
    exact ⟨r.1, ⟨hd, hp⟩, r.2, hx, rfl⟩

/-- A reader that may acknowledge is asked about by one name. -/
theorem detailsName_eq {p : Reader} {projectId name : String} (h : acker m p.toProvider projectId = .ok name) :
    p.detailsName = some p.sqlName := by
  by_cases hname : (p.driverId.filter (fun d => d ≠ "")).isSome
  · obtain ⟨w, hw⟩ := Option.isSome_iff_exists.mp hname
    simp only [Provider.detailsName, Provider.sqlName, hw]
    rfl
  · have hnone := Option.not_isSome_iff_eq_none.mp hname
    have howner : p.isOwner = true := by
      simp only [acker, ite_ok, bind_ok, orElse_ok] at h
      rcases h with ⟨ho, _⟩ | ⟨_, w, hw, _⟩
      · exact ho
      · obtain ⟨hw, hp⟩ := Option.filter_eq_some_iff.mp hw
        have hempty := Option.filter_eq_none_iff.mp hnone w hw
        simp only [Bool.and_eq_true] at hp
        exact absurd hp.1 hempty
    simp only [Provider.detailsName, Provider.sqlName, hnone, howner]
    rfl

theorem sqlNeeds_quorum {p : Provider} (hname : p.detailsName = some p.sqlName)
    (hmode : r.2.terms.ackMode = .atLeastN) : sqlNeeds m p r.1 r.2 = needs m p r := by
  have hmode' : (detailsOf m r.2.terms r.1 p.detailsName).ackMode = .atLeastN := hmode
  rw [needs, detailsNeeds, quorumMet_eq m r.2.terms r.1 _ hmode, hname, ackedByMe_eq, ← hname, hmode', sqlNeeds]
  generalize m.acks.any _ = acked
  generalize (m.acks.filter _).length = count
  have hcount : decide (count < r.2.terms.ackQuorum) = !decide (r.2.terms.ackQuorum ≤ count) := by
    rw [← decide_not]
    exact decide_eq_decide.mpr Nat.not_le.symm
  rw [hcount, hmode]
  generalize decide (r.2.terms.ackQuorum ≤ count) = met
  generalize decide (r.1.deliveryId ∈ m.legacyAcks) = legacy
  generalize decide (r.1.status ≠ .resolved) = unresolved
  cases acked <;> cases met <;> cases legacy <;> cases unresolved <;> rfl

/-- Of a broadcast, the statement asks for the reader's name, the details for its
driver. -/
theorem sqlNeeds_broadcast {p : Reader} {projectId : String} (hm : Sound m)
    (hr : r ∈ joined m projectId) (hname : p.detailsName = some p.sqlName)
    (hmode : r.2.terms.ackMode = .broadcast) :
    sqlNeeds m p.toProvider r.1 r.2 = waitsFor m p.sqlName r ∧
    needs m p.toProvider r = (p.driverId.isSome && waitsFor m p.sqlName r) := by
  obtain ⟨hd, _, hx⟩ := mem_joined.mp hr
  have hlegacy : r.1.deliveryId ∉ m.legacyAcks := by
    intro hin
    have := hm.legacy r.1 hd hin r.2 hx
    rw [hmode] at this
    cases this
  have hmode' : (detailsOf m r.2.terms r.1 p.detailsName).ackMode = .broadcast := hmode
  have hdriver : p.driverId.any (fun w => decide (w ∈ (detailsOf m r.2.terms r.1 p.detailsName).pendingDrivers)) =
      (p.driverId.isSome && m.acks.any (fun a => decide (a.deliveryId = r.1.deliveryId ∧ a.driverId = p.sqlName) &&
        a.pending)) := by
    cases hw : p.driverId with
    | none => rfl
    | some w =>
      have hne : w ≠ "" := fun he => p.named (he ▸ hw)
      have hsql : p.sqlName = w := by simp [Provider.sqlName, hw, Option.filter, hne]
      rw [Option.any_some, Option.isSome_some, Bool.true_and, hsql, Bool.eq_iff_iff, decide_eq_true_eq]
      exact mem_pendingDrivers
  rw [needs, detailsNeeds, hdriver, hname, ackedByMe_eq, ← hname, hmode', sqlNeeds, waitsFor]
  cases hp : m.acks.any (fun a => decide (a.deliveryId = r.1.deliveryId ∧ a.driverId = p.sqlName) && a.pending) with
  | false => simp [hmode]
  | true =>
    have hacked := pending_not_acked hm.keyed hp
    rw [hacked]
    by_cases hs : r.1.status = .resolved <;> simp [hmode, hlegacy, hs]

end Needs

section Pages

/-- No driver's name hides behind the reader: it is a driver itself, or nothing
that the page selects waits for a driver called `owner`. -/
def Unshadowed (m : Mailbox) (p : Provider) (q : InboxFilter) : Prop :=
  p.driverId.isSome = true ∨
    ∀ r ∈ joined m q.projectId, q.selects r.1 r.2 = true → waitsFor m "owner" r = false

variable {p : Reader}

/-- The statement and the details agree exactly then. -/
theorem unshadowed_iff (hm : Sound m) (hname : p.detailsName = some p.sqlName) :
    (∀ r ∈ joined m q.projectId, q.selects r.1 r.2 = true →
      sqlNeeds m p.toProvider r.1 r.2 = needs m p.toProvider r) ↔ Unshadowed m p.toProvider q := by
  cases hw : p.driverId with
  | some w =>
    refine iff_of_true (fun r hr _ => ?_) (.inl (by simp [hw]))
    cases hmode : r.2.terms.ackMode with
    | atLeastN => exact sqlNeeds_quorum hname hmode
    | broadcast =>
      obtain ⟨h1, h2⟩ := sqlNeeds_broadcast hm hr hname hmode
      rw [h1, h2, hw]
      rfl
  | none =>
    have hsql : p.sqlName = "owner" := by simp [Provider.sqlName, hw]
    constructor
    · intro h
      refine .inr (fun r hr hs => ?_)
      cases hmode : r.2.terms.ackMode with
      | atLeastN => simp [waitsFor, hmode]
      | broadcast =>
        obtain ⟨h1, h2⟩ := sqlNeeds_broadcast hm hr hname hmode
        rw [← hsql, ← h1, h r hr hs, h2, hw]
        rfl
    · intro h r hr hs
      have h := h.resolve_left (by simp [hw]) r hr hs
      cases hmode : r.2.terms.ackMode with
      | atLeastN => exact sqlNeeds_quorum hname hmode
      | broadcast =>
        obtain ⟨h1, h2⟩ := sqlNeeds_broadcast hm hr hname hmode
        rw [h1, h2, hw, hsql, h]
        rfl

/-- What needs the reader's acknowledgement by the details, in number order. -/
def needed (m : Mailbox) (p : Provider) (q : InboxFilter) : List Delivery :=
  ((joined m q.projectId).filter (fun r => q.selects r.1 r.2 && needs m p r)).map Prod.fst

theorem le_high {d : Delivery} (hd : d ∈ m.deliveries) : d.deliverySeq ≤ high m d.targetProjectId := by
  refine le_foldl_max (.inl (List.mem_map_of_mem (List.mem_filter.mpr ⟨hd, ?_⟩)))
  exact decide_eq_true rfl

theorem joined_ordered (hm : Sound m) (projectId : String) :
    Ordered (fun r : Delivery × Message => r.1.deliverySeq) (joined m projectId) := by
  have hsorted : (m.deliveries.filter (fun d => decide (d.targetProjectId = projectId))).Pairwise
      (fun a b => a.deliverySeq < b.deliverySeq) := by
    rw [← List.pairwise_map (f := Delivery.deliverySeq) (R := fun a b => a < b), (hm.numbered projectId).1]
    exact List.pairwise_lt_range'
  rw [joined, List.Pairwise.insertionSort_eq (hsorted.imp (fun h => Nat.le_of_lt h))]
  refine List.Pairwise.filterMap _ ?_ hsorted
  intro a b hab x hx y hy
  obtain ⟨_, _, rfl⟩ := Option.map_eq_some_iff.mp hx
  obtain ⟨_, _, rfl⟩ := Option.map_eq_some_iff.mp hy
  exact hab

theorem needed_ordered (hm : Sound m) (p : Provider) : Ordered Delivery.deliverySeq (needed m p q) := by
  rw [Ordered, needed, List.pairwise_map]
  exact (joined_ordered hm q.projectId).filter _

theorem mem_needed {p : Provider} {d : Delivery} (h : d ∈ needed m p q) :
    d ∈ m.deliveries ∧ d.targetProjectId = q.projectId := by
  obtain ⟨r, hr, rfl⟩ := List.mem_map.mp h
  obtain ⟨hd, hp, _⟩ := mem_joined.mp (List.mem_of_mem_filter hr)
  exact ⟨hd, hp⟩

theorem inboxRows_eq (hm : Sound m) (hname : p.detailsName = some p.sqlName)
    (hneeds : q.needsMyAck = true) (hu : Unshadowed m p.toProvider q) (a : Nat) :
    inboxRows m p.toProvider q a = (joined m q.projectId).filter (fun r =>
      decide (a < r.1.deliverySeq) && (q.selects r.1 r.2 && needs m p.toProvider r)) := by
  refine List.filter_congr (fun r hr => ?_)
  obtain ⟨hd, hp, _⟩ := mem_joined.mp hr
  have hhigh : r.1.deliverySeq ≤ high m q.projectId := hp ▸ le_high hd
  simp only [hhigh, and_true, hneeds, Bool.not_true, Bool.false_or, Bool.and_assoc]
  cases hs : q.selects r.1 r.2 with
  | false => simp
  | true => rw [(unshadowed_iff hm hname).mpr hu r hr hs]

theorem inboxRows_deliveries (hm : Sound m) (hname : p.detailsName = some p.sqlName)
    (hneeds : q.needsMyAck = true) (hu : Unshadowed m p.toProvider q) (a : Nat) :
    (inboxRows m p.toProvider q a).map Prod.fst =
      (needed m p.toProvider q).filter (fun d => decide (a < d.deliverySeq)) := by
  rw [inboxRows_eq hm hname hneeds hu, needed, List.filter_map, List.filter_filter]
  rfl

theorem filter_keeps (hm : Sound m) (hname : p.detailsName = some p.sqlName)
    (hneeds : q.needsMyAck = true) (hu : Unshadowed m p.toProvider q) (a limit : Nat) :
    (((inboxRows m p.toProvider q a).take limit).map (itemOf m p.toProvider true)).filter
      (fun i => i.details.any (detailsNeeds p.toProvider i.delivery)) =
      ((inboxRows m p.toProvider q a).take limit).map (itemOf m p.toProvider true) := by
  refine List.filter_eq_self.mpr (fun i hi => ?_)
  obtain ⟨r, hr, rfl⟩ := List.mem_map.mp hi
  have hmem := List.mem_of_mem_take hr
  rw [inboxRows_eq hm hname hneeds hu] at hmem
  have hprop := (List.mem_filter.mp hmem).2
  simp only [Bool.and_eq_true] at hprop
  exact hprop.2.2

/-- A page holds exactly what is needed between the cursor it was asked from and
the one it hands out, and the last one reaches the end of the inbox. -/
structure ExactPage (m : Mailbox) (p : Provider) (q : InboxFilter) (a : Nat) (page : Page) : Prop where
  items : page.items.map Item.delivery = span Delivery.deliverySeq a page.nextAfter (needed m p q)
  total : page.matchedTotal = ((needed m p q).filter (fun d => decide (a < d.deliverySeq))).length
  forward : a ≤ page.nextAfter
  more : page.hasMore = true → a < page.nextAfter
  last : page.hasMore = false → high m q.projectId ≤ page.nextAfter

/-- Every page of a reader is exact: the statement selects what the details need,
the later filter drops nothing, and the cursor is always there. -/
structure ExactInbox (m : Mailbox) (p : Provider) (q : InboxFilter) : Prop where
  agree : ∀ r ∈ joined m q.projectId, q.selects r.1 r.2 = true → sqlNeeds m p r.1 r.2 = needs m p r
  kept : ∀ a limit, (((inboxRows m p q a).take limit).map (itemOf m p true)).filter
    (fun i => i.details.any (detailsNeeds p i.delivery)) = ((inboxRows m p q a).take limit).map (itemOf m p true)
  served : ∀ rt after, listDirectorMessages rt m p q after ≠ .error .indexError
  steady : ∀ rt first page, listDirectorMessages rt m p q first = .ok page →
    ∀ after : Nat, ∃ page', listDirectorMessages rt m p q after = .ok page'
  pages : ∀ rt after page, listDirectorMessages rt m p q after = .ok page → ExactPage m p q after.toNat page

theorem exposed_delivery (schema : Protocol) (items : List Item) :
    (items.map (Item.exposed schema)).map Item.delivery = items.map Item.delivery := by
  rw [List.map_map]
  refine List.map_congr_left (fun i _ => ?_)
  cases schema <;> rfl

/-- The cursor of a page whose filter removed nothing. -/
theorem page_of_rows (hm : Sound m) (hname : p.detailsName = some p.sqlName)
    (hneeds : q.needsMyAck = true) (hu : Unshadowed m p.toProvider q) {limit : Nat} (hlimit : 1 ≤ limit) (a : Nat) :
    ∃ c, pageCursor (fun r : Delivery × Message => r.1.deliverySeq) limit a (high m q.projectId)
        (inboxRows m p.toProvider q a) = some c ∧
      ((inboxRows m p.toProvider q a).take limit).map Prod.fst =
        span Delivery.deliverySeq a c (needed m p.toProvider q) ∧ a ≤ c ∧
      (limit < (inboxRows m p.toProvider q a).length → a < c) ∧
      ((inboxRows m p.toProvider q a).length ≤ limit → high m q.projectId ≤ c) := by
  have hordered : Ordered (fun r : Delivery × Message => r.1.deliverySeq) (inboxRows m p.toProvider q a) :=
    (joined_ordered hm q.projectId).filter _
  have hbounds : ∀ r ∈ inboxRows m p.toProvider q a,
      a < r.1.deliverySeq ∧ r.1.deliverySeq ≤ high m q.projectId := by
    intro r hr
    have hprop := (List.mem_filter.mp hr).2
    simp only [Bool.and_eq_true, decide_eq_true_eq] at hprop
    exact hprop.1.1
  obtain ⟨c, hc, hac, htake, hmore, hlast⟩ := page_exact hordered hlimit hbounds
  refine ⟨c, hc, ?_, hac, fun h => (hmore h).1, fun h => hlast h ▸ Nat.le_max_right _ _⟩
  calc ((inboxRows m p.toProvider q a).take limit).map Prod.fst
      = (span (fun r : Delivery × Message => r.1.deliverySeq) a c (inboxRows m p.toProvider q a)).map Prod.fst := by
        rw [htake]
    _ = span Delivery.deliverySeq a c ((inboxRows m p.toProvider q a).map Prod.fst) := by
        rw [span, span, List.filter_map]
        rfl
    _ = span Delivery.deliverySeq a c (needed m p.toProvider q) := by
        rw [inboxRows_deliveries hm hname hneeds hu, span, span, List.filter_filter]
        refine List.filter_congr (fun d _ => ?_)
        rw [← Bool.decide_and]
        exact decide_eq_decide.mpr (by omega)

theorem v3_of_needs {p : Provider} (hneeds : q.needsMyAck = true) : p.v3 q.protocol q.extended = true := by
  simp [Provider.v3, InboxFilter.extended, hneeds]

/-- A reader that nothing shadows gets a page, and it is exact. -/
theorem pageAfter_exact (hm : Sound m) (hname : p.detailsName = some p.sqlName)
    (hneeds : q.needsMyAck = true) (hu : Unshadowed m p.toProvider q) (hlimit : 1 ≤ q.limit) (a : Nat) :
    ∃ page, pageAfter m p.toProvider q a = .ok page ∧ ExactPage m p.toProvider q a page := by
  have hlimit' : 1 ≤ q.limit.toNat := by omega
  obtain ⟨c, hc, htake, hac, hmore, hlast⟩ := page_of_rows hm hname hneeds hu hlimit' a
  have hcount : (inboxRows m p.toProvider q a).length =
      ((needed m p.toProvider q).filter (fun d => decide (a < d.deliverySeq))).length := by
    rw [← inboxRows_deliveries hm hname hneeds hu, List.length_map]
  have hitems : ((((inboxRows m p.toProvider q a).take q.limit.toNat).map (itemOf m p.toProvider true)).map
      (Item.exposed q.schema)).map Item.delivery = span Delivery.deliverySeq a c (needed m p.toProvider q) := by
    rw [exposed_delivery, List.map_map, ← htake]
    rfl
  have hlen : ∀ n, min q.limit.toNat n < n ↔ q.limit.toNat < n := by omega
  unfold pageAfter
  simp only [hneeds, if_true, v3_of_needs hneeds, filter_keeps hm hname hneeds hu, List.length_map, List.length_take,
    hlen]
  rw [pageCursor] at hc
  by_cases hrest : q.limit.toNat < (inboxRows m p.toProvider q a).length
  · rw [if_pos hrest] at hc
    have hcursor : (((inboxRows m p.toProvider q a).take q.limit.toNat).map (itemOf m p.toProvider true)).getLast?.map
        (fun i => i.delivery.deliverySeq) = some c := by
      rw [List.getLast?_map, Option.map_map]
      exact hc
    simp only [hrest, decide_true, if_true, hcursor]
    exact ⟨_, rfl, hitems, hcount, hac, fun _ => hmore hrest, fun h => by cases h⟩
  · rw [if_neg hrest, Option.some.injEq] at hc
    simp only [hrest, decide_false, Bool.false_eq_true, if_false, hc]
    exact ⟨_, rfl, hitems, hcount, hac, (fun h => by cases h), fun _ => hlast (Nat.not_lt.mp hrest)⟩

theorem exposed_indexError {α : Type} {schema : Protocol} {x : Result α} :
    exposed schema x = .error .indexError ↔ x = .error .indexError := by
  unfold exposed
  split
  · split_ifs <;> simp
  · rfl

theorem dbId_error {value : String} {text : Option String} {e : MailError} (h : dbId rt value text = .error e) :
    e = invalid text := by
  simp only [dbId, bind_error, ensure_error] at h
  rcases h with ⟨_, rfl⟩ | ⟨_, _, h⟩
  · rfl
  · cases h

theorem mayAsk_ok {p : Provider} {name : String} (hacker : acker m p q.projectId = .ok name)
    (hneeds : q.needsMyAck = true) : mayAsk m p q = .ok () := by
  simp only [mayAsk, hneeds, if_true, bind_ok]
  refine ⟨name, hacker, ?_⟩
  rw [ensure_ok]
  exact v3_of_needs hneeds

/-- A reader that nothing shadows has an exact inbox. -/
theorem exactInbox_of_unshadowed {name : String} (hm : Sound m)
    (hacker : acker m p.toProvider q.projectId = .ok name) (hneeds : q.needsMyAck = true)
    (hu : Unshadowed m p.toProvider q) : ExactInbox m p.toProvider q where
  agree := (unshadowed_iff hm (detailsName_eq hacker)).mpr hu
  kept := filter_keeps hm (detailsName_eq hacker) hneeds hu
  served := by
    intro rt after h
    simp only [listDirectorMessages, exposed_indexError, projectOf, mayAsk_ok hacker hneeds, bind_error, ensure_error,
      ensure_ok] at h
    rcases h with h | ⟨_, _, ⟨_, h⟩ | ⟨_, _, ⟨_, h⟩ |
      ⟨_, ⟨hlimit, _⟩, ⟨_, h⟩ | ⟨_, _, ⟨_, h⟩ | ⟨_, _, h | ⟨_, _, h⟩⟩⟩⟩⟩⟩
    · cases dbId_error h
    all_goals try cases h
    obtain ⟨page, hpage, _⟩ := pageAfter_exact hm (detailsName_eq hacker) hneeds hu hlimit after.toNat
    rw [hpage] at h
    cases h
  steady := by
    intro rt first page h after
    simp only [listDirectorMessages, exposed_ok, bind_ok, ensure_ok] at h ⊢
    obtain ⟨id, hid, _, _, _, hlimit, _, hstatuses, _, hproject, _, hask, _⟩ := h
    obtain ⟨page', hpage, _⟩ := pageAfter_exact hm (detailsName_eq hacker) hneeds hu hlimit.1 after
    exact ⟨page', id, hid, (), Int.natCast_nonneg after, (), hlimit, (), hstatuses, (), hproject, (), hask, hpage⟩
  pages := by
    intro rt after page h
    simp only [listDirectorMessages, exposed_ok, bind_ok, ensure_ok] at h
    obtain ⟨_, _, _, _, _, ⟨hlimit, _⟩, _, _, _, _, _, _, h⟩ := h
    obtain ⟨page', hpage, hexact⟩ := pageAfter_exact hm (detailsName_eq hacker) hneeds hu hlimit after.toNat
    rw [hpage, Except.ok.injEq] at h
    exact h ▸ hexact

end Pages

section Following

/-- A reader follows the cursors: the pages it reads, each with the mailbox it was
read from. Between two pages the store takes the steps of the schedule. -/
def follow (rt : Runtime) (p : Provider) (q : InboxFilter) : Mailbox → Nat → List (List Op) →
    Result (List (Mailbox × Page))
  | m, a, [] => do
    let page ← listDirectorMessages rt m p q a
    return [(m, page)]
  | m, a, ops :: rest => do
    let page ← listDirectorMessages rt m p q a
    if page.hasMore then do
      let more ← follow rt p q (run (next rt) m ops) page.nextAfter rest
      return (m, page) :: more
    else return [(m, page)]

/-- Everything that was returned. -/
def returned (reads : List (Mailbox × Page)) : List Delivery :=
  reads.flatMap (fun x => x.2.items.map Item.delivery)

/-- The last page said that nothing is left. -/
def finished (reads : List (Mailbox × Page)) : Bool :=
  reads.getLast?.all (fun x => !x.2.hasMore)

variable {old : OldMailbox} {past : List Op} {p : Reader} {a : Nat} {page : Page} {reads : List (Mailbox × Page)}

/-- A page that is not refused is exact where nothing shadows the reader. -/
theorem list_exact (hm : Sound m) (hneeds : q.needsMyAck = true)
    (hu : Unshadowed m p.toProvider q) (h : listDirectorMessages rt m p.toProvider q a = .ok page) :
    ExactPage m p.toProvider q a page := by
  have hok := h
  simp only [listDirectorMessages, exposed_ok, bind_ok, mayAsk, hneeds, if_true] at hok
  obtain ⟨_, _, _, _, _, _, _, _, _, _, _, ⟨name, hacker, _⟩, _⟩ := hok
  exact (exactInbox_of_unshadowed hm hacker hneeds hu).pages rt a page h

theorem needed_distinct (hm : Sound m) : ((needed m p.toProvider q).map Delivery.deliveryId).Nodup := by
  refine List.Nodup.map_on ?_ (needed_ordered hm p.toProvider).nodup.of_map
  intro x hx y hy he
  exact List.inj_on_of_nodup_map hm.keyed.deliveries (mem_needed hx).1 (mem_needed hy).1 he

theorem needed_of_id (hm : Sound m) {d : Delivery} (hd : d ∈ m.deliveries)
    (h : d.deliveryId ∈ (needed m p.toProvider q).map Delivery.deliveryId) : d ∈ needed m p.toProvider q := by
  obtain ⟨e, he, hid⟩ := List.mem_map.mp h
  have heq : e = d := List.inj_on_of_nodup_map hm.keyed.deliveries (mem_needed he).1 hd hid
  exact heq ▸ he

/-- What a walk over the cursors returned: later deliveries only, none twice, and
each that was there and needed throughout. -/
structure Followed (rt : Runtime) (old : OldMailbox) (past : List Op) (p : Provider) (q : InboxFilter) (a : Nat)
    (reads : List (Mailbox × Page)) : Prop where
  beyond : ∀ y ∈ returned reads, a < y.deliverySeq ∧ ∃ more, y ∈ (after rt old (past ++ more)).deliveries
  distinct : ((returned reads).map Delivery.deliveryId).Nodup
  complete : ∀ d ∈ (after rt old past).deliveries, d.targetProjectId = q.projectId → a < d.deliverySeq →
    (∀ x ∈ reads, d.deliveryId ∈ (needed x.1 p q).map Delivery.deliveryId) →
    finished reads = true ∨ d.deliverySeq ≤ a + reads.length → d.deliveryId ∈ (returned reads).map Delivery.deliveryId

theorem page_members (hpage : ExactPage m p.toProvider q a page) {y : Delivery}
    (hy : y ∈ page.items.map Item.delivery) : y ∈ needed m p.toProvider q ∧ a < y.deliverySeq ∧
    y.deliverySeq ≤ page.nextAfter := by
  rw [hpage.items] at hy
  exact mem_span.mp hy

theorem page_distinct (hm : Sound m) (hpage : ExactPage m p.toProvider q a page) :
    ((page.items.map Item.delivery).map Delivery.deliveryId).Nodup := by
  rw [hpage.items]
  exact (needed_distinct hm).sublist (List.Sublist.map _ List.filter_sublist)

theorem page_complete (hm : Sound m) (hpage : ExactPage m p.toProvider q a page) {d : Delivery}
    (hd : d ∈ m.deliveries) (ha : a < d.deliverySeq) (hc : d.deliverySeq ≤ page.nextAfter)
    (h : d.deliveryId ∈ (needed m p.toProvider q).map Delivery.deliveryId) :
    d.deliveryId ∈ (page.items.map Item.delivery).map Delivery.deliveryId := by
  apply List.mem_map_of_mem
  rw [hpage.items, mem_span]
  exact ⟨needed_of_id hm hd h, ha, hc⟩

theorem returned_single (m : Mailbox) (page : Page) : returned [(m, page)] = page.items.map Item.delivery := by
  simp [returned]

theorem returned_cons (m : Mailbox) (page : Page) (reads : List (Mailbox × Page)) :
    returned ((m, page) :: reads) = page.items.map Item.delivery ++ returned reads := by
  simp [returned]

theorem followed_last (hpage : ExactPage (after rt old past) p.toProvider q a page) :
    Followed rt old past p.toProvider q a [(after rt old past, page)] where
  beyond := by
    intro y hy
    rw [returned_single] at hy
    obtain ⟨hneed, ha, _⟩ := page_members hpage hy
    refine ⟨ha, [], ?_⟩
    rw [List.append_nil]
    exact (mem_needed hneed).1
  distinct := by
    rw [returned_single]
    exact page_distinct (after_sound rt old past) hpage
  complete := by
    intro d hd hproject ha hneeded hdone
    rw [returned_single]
    have hhigh := le_high hd
    rw [hproject] at hhigh
    have hend : d.deliverySeq ≤ page.nextAfter := by
      cases hmore : page.hasMore with
      | false => exact Nat.le_trans hhigh (hpage.last hmore)
      | true =>
        have hforward := hpage.more hmore
        have hnot : finished [(after rt old past, page)] = false := by simp [finished, hmore]
        rw [hnot, List.length_singleton] at hdone
        have hle := hdone.resolve_left Bool.false_ne_true
        omega
    exact page_complete (after_sound rt old past) hpage hd ha hend 
      (hneeded (after rt old past, page) (List.mem_singleton.mpr rfl))

/-- A page before a walk: the cursor it hands out is where the walk starts. -/
theorem followed_more {ops : List Op} (hpage : ExactPage (after rt old past) p.toProvider q a page)
    (hmore : page.hasMore = true) (hne : reads ≠ [])
    (hrest : Followed rt old (past ++ ops) p.toProvider q page.nextAfter reads) :
    Followed rt old past p.toProvider q a ((after rt old past, page) :: reads) where
  beyond := by
    intro y hy
    rw [returned_cons] at hy
    rcases List.mem_append.mp hy with hy | hy
    · obtain ⟨hneed, ha, _⟩ := page_members hpage hy
      refine ⟨ha, [], ?_⟩
      rw [List.append_nil]
      exact (mem_needed hneed).1
    · obtain ⟨hc, more, hmem⟩ := hrest.beyond y hy
      refine ⟨Nat.lt_of_le_of_lt hpage.forward hc, ops ++ more, ?_⟩
      rw [← List.append_assoc]
      exact hmem
  distinct := by
    rw [returned_cons, List.map_append, List.nodup_append]
    refine ⟨page_distinct (after_sound rt old past) hpage, hrest.distinct, ?_⟩
    -- a delivery keeps its number, and the walk only returns later ones
    intro i hi j hj hij
    obtain ⟨x, hx, rfl⟩ := List.mem_map.mp hi
    obtain ⟨y, hy, rfl⟩ := List.mem_map.mp hj
    obtain ⟨hneed, _, hle⟩ := page_members hpage hx
    obtain ⟨hlt, more, hmem⟩ := hrest.beyond y hy
    rw [List.append_assoc] at hmem
    have hplace := (after_forward rt old past (ops ++ more) (mem_needed hneed).1 hmem hij.symm).2
    have hseq : y.deliverySeq = x.deliverySeq := congrArg Prod.snd hplace
    omega
  complete := by
    intro d hd hproject ha hneeded hdone
    rw [returned_cons, List.map_append]
    by_cases hc : d.deliverySeq ≤ page.nextAfter
    · apply List.mem_append_left
      exact page_complete (after_sound rt old past) hpage hd ha hc 
        (hneeded (after rt old past, page) (List.mem_cons_self ..))
    · apply List.mem_append_right
      have hids := (after_permanent rt old past ops).ids.subset (List.mem_map_of_mem hd)
      obtain ⟨e, he, hid⟩ := List.mem_map.mp hids
      have hplace := (after_forward rt old past ops hd he hid).2
      have hseq : e.deliverySeq = d.deliverySeq := congrArg Prod.snd hplace
      have htarget : e.targetProjectId = d.targetProjectId := congrArg Prod.fst hplace
      have hforward := hpage.more hmore
      have hlater : page.nextAfter < e.deliverySeq := by omega
      rw [← hid]
      refine hrest.complete e he (htarget.trans hproject) hlater ?_ ?_
      · intro x hx
        rw [hid]
        exact hneeded x (List.mem_cons_of_mem _ hx)
      · refine hdone.imp (fun hf => ?_) (fun hl => ?_)
        · rwa [finished, List.getLast?_cons_of_ne_nil hne] at hf
        · rw [List.length_cons] at hl
          omega

theorem follow_nonempty {sched : List (List Op)} {p : Provider} (h : follow rt p q m a sched = .ok reads) :
    reads ≠ [] := by
  cases sched with
  | nil =>
    simp only [follow, bind_ok, pure_ok] at h
    obtain ⟨_, _, rfl⟩ := h
    exact List.cons_ne_nil _ _
  | cons ops rest =>
    simp only [follow, bind_ok, ite_ok, pure_ok] at h
    obtain ⟨_, _, ⟨_, _, _, rfl⟩ | ⟨_, rfl⟩⟩ := h
    · exact List.cons_ne_nil _ _
    · exact List.cons_ne_nil _ _

theorem follow_exact {sched : List (List Op)} (hneeds : q.needsMyAck = true)
    (h : follow rt p.toProvider q (after rt old past) a sched = .ok reads)
    (hu : ∀ x ∈ reads, Unshadowed x.1 p.toProvider q) : Followed rt old past p.toProvider q a reads := by
  induction sched generalizing past a reads with
  | nil =>
    simp only [follow, bind_ok, pure_ok] at h
    obtain ⟨page, hread, rfl⟩ := h
    exact followed_last (list_exact (after_sound rt old past) hneeds (hu _ (List.mem_singleton.mpr rfl)) hread)
  | cons ops rest ih =>
    simp only [follow, bind_ok, ite_ok, pure_ok] at h
    obtain ⟨page, hread, ⟨hmore, more, hrest, rfl⟩ | ⟨_, rfl⟩⟩ := h
    · have hpage := list_exact (after_sound rt old past) hneeds (hu _ (List.mem_cons_self ..)) hread
      rw [← after_append] at hrest
      refine followed_more hpage hmore (follow_nonempty hrest) (ih hrest ?_)
      exact fun x hx => hu x (List.mem_cons_of_mem _ hx)
    · exact followed_last (list_exact (after_sound rt old past) hneeds (hu _ (List.mem_singleton.mpr rfl)) hread)

/-- Over every run: the pages of what needs the reader's acknowledgement are exact
if and only if nothing shadows the reader. Where nothing does at any page read,
following the cursors while the store moves on returns no delivery twice, and each
one that was there before and needed throughout exactly once. -/
theorem needs_my_ack_pages (rt : Runtime) (old : OldMailbox) (past : List Op) (p : Reader) (q : InboxFilter)
    (name : String) (hneeds : q.needsMyAck = true)
    (hacker : acker (after rt old past) p.toProvider q.projectId = .ok name) :
    (ExactInbox (after rt old past) p.toProvider q ↔ Unshadowed (after rt old past) p.toProvider q) ∧
    ∀ a sched reads, follow rt p.toProvider q (after rt old past) a sched = .ok reads →
      (∀ x ∈ reads, Unshadowed x.1 p.toProvider q) →
      ((returned reads).map Delivery.deliveryId).Nodup ∧
      ∀ d ∈ (after rt old past).deliveries, d.targetProjectId = q.projectId → a < d.deliverySeq →
        (∀ x ∈ reads, d.deliveryId ∈ (needed x.1 p.toProvider q).map Delivery.deliveryId) →
        finished reads = true ∨ d.deliverySeq ≤ a + reads.length →
        ((returned reads).map Delivery.deliveryId).count d.deliveryId = 1 := by
  have hm := after_sound rt old past
  refine ⟨⟨fun h => ?_, fun h => exactInbox_of_unshadowed hm hacker hneeds h⟩, ?_⟩
  · exact (unshadowed_iff hm (detailsName_eq hacker)).mp h.agree
  · intro a sched reads h hu
    have hf := follow_exact hneeds h hu
    refine ⟨hf.distinct, fun d hd hproject ha hneeded hdone => ?_⟩
    exact List.count_eq_one_of_mem hf.distinct (hf.complete d hd hproject ha hneeded hdone)

def inboxOf (projectId : String) : InboxFilter := ⟨projectId, none, none, true, none, .v3, 100⟩

/-- The driver `x` reads what the broadcast waits for it to acknowledge. -/
theorem needs_my_ack_pages_driver :
    acker (after plain .empty broadcastRun) ⟨"driver:x", some "x", false⟩ "b" = .ok "x" ∧
      ExactInbox (after plain .empty broadcastRun) ⟨"driver:x", some "x", false⟩ (inboxOf "b") := by
  have hacker : acker (after plain .empty broadcastRun) ⟨"driver:x", some "x", false⟩ "b" = .ok "x" := by
    decide
  refine ⟨hacker, ?_⟩
  have h := needs_my_ack_pages plain .empty broadcastRun ⟨⟨"driver:x", some "x", false⟩, by decide⟩ (inboxOf "b") "x"
    rfl hacker
  exact h.1.mpr (.inl rfl)

/-- The same broadcast to a project whose only member is a driver called `owner`. -/
def ownerRun : List Op :=
  [.rest ["a", "b"] [⟨"owner", .active, none⟩] [],
   .setMembership ⟨"b", "owner", .member, 0, "joins", "owner:o", true, 0⟩,
   .send ⟨"owner:o", none, false⟩ ⟨"a", "o", "k1", "s", "", some "b", false, none, .transient, some .broadcast, none,
     .v3, "m", fun _ => "d", 0⟩]

/-- The human owner may ask, the statement selects the broadcast for the driver of
its name, the later filter drops it, and the empty page has no last item. -/
theorem owner_page_fails :
    acker (after plain .empty ownerRun) ⟨"owner:o", none, false⟩ "b" = .ok "owner" ∧
      listDirectorMessages plain (after plain .empty ownerRun) ⟨"owner:o", none, false⟩ (inboxOf "b") 0 =
        .error .indexError ∧
      ¬ ExactInbox (after plain .empty ownerRun) ⟨"owner:o", none, false⟩ (inboxOf "b") := by
  have hfails : listDirectorMessages plain (after plain .empty ownerRun) ⟨"owner:o", none, false⟩ (inboxOf "b") 0 =
      .error .indexError := by
    decide
  refine ⟨by decide, hfails, fun h => ?_⟩
  exact h.served plain 0 hfails

end Following

end AItelier.Mail
