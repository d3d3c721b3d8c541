import AItelier.Mail.Paging
import Mathlib.Data.Nat.Digits.Defs

namespace AItelier.Mail

open AItelier.Lib AItelier.State

/-- What a driver is shown of the guidance that still stands: whole items, and how
many more there are. -/
structure Projection where
  lines : List String
  omitted : Nat
  deriving DecidableEq, Repr

/-- The parts of the text: a notice follows the lines where something is omitted. -/
def projectionParts (lines : List String) (omitted : Nat) : List String :=
  if omitted ≠ 0 then lines ++ ["[omitted_active_standing=" ++ toString omitted ++ "]"] else lines

def Projection.text (s : Projection) : String := "\n".intercalate (projectionParts s.lines s.omitted)

/-- The loop of `project_active_standing` from a number of included lines. Where not
even the notice fits, the slices below zero grow back and the loop never returns. -/
def fitProjection (lines : List String) (total : Nat) : Nat → Option Projection
  | 0 =>
    let s : Projection := ⟨[], total⟩
    if s.text.length ≤ 3000 then some s else none
  | n + 1 =>
    let s : Projection := ⟨lines.take (n + 1), total - (n + 1)⟩
    if s.text.length ≤ 3000 then some s else fitProjection lines total n

def DeliveryStatus.text : DeliveryStatus → String
  | .unread => "unread" | .acknowledged => "acknowledged" | .resolved => "resolved"

/-- One line of the projection, redacted and cut. -/
def guidanceLine (rt : Runtime) (i : Item) : String :=
  canonical (.obj [("message_id", .str i.letter.messageId), ("thread_id", .str i.letter.threadId),
    ("delivery_id", .str i.delivery.deliveryId), ("sender_project_id", .str i.letter.senderProjectId),
    ("delivery_seq", .int i.delivery.deliverySeq), ("status", .str i.delivery.status.text),
    ("version", .int i.delivery.version), ("subject", .str (rt.redact i.letter.subject)),
    ("body_excerpt", .str (String.ofList ((rt.redact i.letter.body).toList.take 320)))])

def activeStatuses : List DeliveryStatus := [.unread, .acknowledged]

def standingFilter (projectId : String) (protocol : Protocol) : InboxFilter :=
  ⟨projectId, some .standing, some activeStatuses, false, none, protocol, 8⟩

def transientFilter (projectId : String) : InboxFilter :=
  ⟨projectId, some .transient, some activeStatuses, true, none, .v3, 8⟩

/-- Whether the details of an item name a broadcast. -/
def Item.isBroadcast (i : Item) : Bool := i.details.any (fun x => decide (x.ackMode = .broadcast))

/-- The items of the projection and the number of all there are. The transient list
is cut at its own limit before the broadcasts in it are selected and counted. -/
def guidanceItems (rt : Runtime) (m : Mailbox) (p : Provider) (projectId : String) : Result (List Item × Nat) := do
  let v3 := p.v3 .v2 false
  let standing ← listDirectorMessages rt m p (standingFilter projectId (if v3 then .v3 else .v2)) 0
  if v3 then do
    let transient ← listDirectorMessages rt m p (transientFilter projectId) 0
    let selected := transient.items.filter Item.isBroadcast
    return (((standing.items ++ selected).insertionSort
      (fun i j => i.delivery.deliverySeq ≤ j.delivery.deliverySeq)).take 8, standing.matchedTotal + selected.length)
  else return (standing.items, standing.matchedTotal)

/-- `project_active_standing`: none where its loop never returns. -/
def projectActiveStanding (rt : Runtime) (m : Mailbox) (p : Provider) (projectId : String) :
    Result (Option Projection) := do
  let (items, total) ← guidanceItems rt m p projectId
  let lines := items.map (guidanceLine rt)
  return fitProjection lines total lines.length

/-- The active standing messages of a project. -/
def standingCount (m : Mailbox) (projectId : String) : Nat :=
  (joined m projectId).countP (fun r => decide (r.2.letter.deliveryMode = .standing) && decide (r.1.status ≠ .resolved))

/-- A transient broadcast that waits for the caller's own driver. -/
def pendingFor (m : Mailbox) (p : Provider) (r : Delivery × Message) : Bool :=
  decide (r.2.letter.deliveryMode = .transient) && p.driverId.any (fun driver => waitsFor m driver r)

def pendingCount (m : Mailbox) (p : Provider) (projectId : String) : Nat :=
  (joined m projectId).countP (pendingFor m p)

/-- The call returns, its text fits, and what it lists and what it reports as
omitted is all there is. -/
def Accounted (rt : Runtime) (m : Mailbox) (p : Provider) (projectId : String) : Prop :=
  ∃ s, projectActiveStanding rt m p projectId = .ok (some s) ∧ s.text.length ≤ 3000 ∧
    s.lines.length + s.omitted = standingCount m projectId + pendingCount m p projectId

/-- The transient rows that the statement selects for the caller. -/
def transientRows (m : Mailbox) (p : Provider) (projectId : String) : List (Delivery × Message) :=
  inboxRows m p (transientFilter projectId) 0

/-- The caller may read, and of a v3 caller's transient rows the first eight hold
every broadcast that waits for it and, unless there are none, one that needs it. -/
structure Served (rt : Runtime) (m : Mailbox) (p : Provider) (projectId : String) : Prop where
  named : ∃ id, dbId rt projectId none = .ok id
  known : projectId ∈ m.projects
  member : p.v3 .v2 false = true → ∃ name, acker m p projectId = .ok name
  listed : p.v3 .v2 false = true → ∀ r ∈ (transientRows m p projectId).drop 8, pendingFor m p r = false
  shown : p.v3 .v2 false = true → transientRows m p projectId ≠ [] →
    ∃ r ∈ (transientRows m p projectId).take 8, needs m p r = true

section Fitting

theorem fitProjection_fits {lines : List String} {total n : Nat} {s : Projection}
    (h : fitProjection lines total n = some s) : s.text.length ≤ 3000 := by
  induction n with
  | zero =>
    simp only [fitProjection] at h
    split at h
    · cases h
      assumption
    · cases h
  | succ n ih =>
    simp only [fitProjection] at h
    split at h
    · cases h
      assumption
    · exact ih h

theorem fitProjection_total {lines : List String} {total n : Nat} {s : Projection} (hn : n ≤ lines.length)
    (htotal : n ≤ total) (h : fitProjection lines total n = some s) : s.lines.length + s.omitted = total := by
  induction n with
  | zero =>
    simp only [fitProjection] at h
    split at h
    · cases h
      simp
    · cases h
  | succ n ih =>
    simp only [fitProjection] at h
    split at h
    · cases h
      simp only [List.length_take]
      omega
    · exact ih (by omega) (by omega) h

theorem notice_length {total : Nat} (h : total < 2 ^ 64) : (Projection.mk [] total).text.length ≤ 3000 := by
  have hdigits : (toString total).length ≤ 20 := Nat.repr_length total 20 (by decide) (by omega)
  by_cases hzero : total = 0
  · subst hzero
    decide
  · have htext : (Projection.mk [] total).text = "[omitted_active_standing=" ++ toString total ++ "]" := by
      simp [Projection.text, projectionParts, hzero]
    have hmarker : "[omitted_active_standing=".length = 25 := by decide
    have hend : "]".length = 1 := by decide
    rw [htext, String.length_append, String.length_append, hmarker, hend]
    omega

theorem fitProjection_returns (lines : List String) {total : Nat} (h : total < 2 ^ 64) (n : Nat) :
    ∃ s, fitProjection lines total n = some s := by
  induction n with
  | zero =>
    simp only [fitProjection, if_pos (notice_length h)]
    exact ⟨_, rfl⟩
  | succ n ih =>
    simp only [fitProjection]
    split
    · exact ⟨_, rfl⟩
    · exact ih

end Fitting

section Counting

variable {rt : Runtime} {m : Mailbox} {q : InboxFilter} {projectId : String}

theorem seq_pos (hm : Sound m) {d : Delivery} (hd : d ∈ m.deliveries) : 0 < d.deliverySeq := by
  have hmem : d.deliverySeq ∈ (m.deliveries.filter (fun e => decide (e.targetProjectId = d.targetProjectId))).map
      Delivery.deliverySeq :=
    List.mem_map_of_mem (List.mem_filter.mpr ⟨hd, decide_eq_true rfl⟩)
  rw [(hm.numbered d.targetProjectId).1, List.mem_range'_1] at hmem
  exact hmem.1

theorem inboxRows_start (hm : Sound m) (p : Provider) :
    inboxRows m p q 0 = (joined m q.projectId).filter (fun r =>
      q.selects r.1 r.2 && (!q.needsMyAck || sqlNeeds m p r.1 r.2)) := by
  refine List.filter_congr (fun r hr => ?_)
  obtain ⟨hd, hp, _⟩ := mem_joined.mp hr
  have hhigh : r.1.deliverySeq ≤ high m q.projectId := hp ▸ le_high hd
  simp only [hhigh, seq_pos hm hd, and_self, decide_true, Bool.true_and]

theorem standing_rows (hm : Sound m) (p : Provider) (protocol : Protocol) :
    (inboxRows m p (standingFilter projectId protocol) 0).length = standingCount m projectId := by
  rw [inboxRows_start hm, standingCount, List.countP_eq_length_filter]
  congr 1
  refine List.filter_congr (fun r _ => ?_)
  cases hs : r.1.status <;> simp [standingFilter, InboxFilter.selects, activeStatuses, hs]

theorem pageAfter_plain {p : Provider} (hq : q.needsMyAck = false) (hlimit : 1 ≤ q.limit) (a : Nat) :
    ∃ c more, pageAfter m p q a = .ok ⟨q.projectId, (((inboxRows m p q a).take q.limit.toNat).map
      (itemOf m p (p.v3 q.protocol q.extended))).map (Item.exposed q.schema), (inboxRows m p q a).length, more, c⟩ := by
  unfold pageAfter
  simp only [hq, Bool.false_eq_true, if_false, List.length_map, List.length_take]
  by_cases hmore : min q.limit.toNat (inboxRows m p q a).length < (inboxRows m p q a).length
  · have hlen : 0 < ((inboxRows m p q a).take q.limit.toNat).length := by
      rw [List.length_take]
      omega
    have hne : (inboxRows m p q a).take q.limit.toNat ≠ [] := List.ne_nil_of_length_pos hlen
    obtain ⟨r, hr⟩ := Option.isSome_iff_exists.mp (List.getLast?_isSome.mpr hne)
    simp only [hmore, decide_true, if_true, List.getLast?_map, hr, Option.map_some]
    exact ⟨_, _, rfl⟩
  · simp only [hmore, decide_false, Bool.false_eq_true, if_false]
    exact ⟨_, _, rfl⟩

theorem joined_length (m : Mailbox) (projectId : String) : (joined m projectId).length ≤ m.deliveries.length := by
  rw [joined]
  refine Nat.le_trans (List.length_filterMap_le ..) ?_
  rw [List.length_insertionSort]
  exact List.length_filter_le ..

variable {p : Reader} {name : String}

variable {r : Delivery × Message} {page : Page}

theorem pendingFor_eq (hmode : r.2.letter.deliveryMode = .transient) :
    pendingFor m p.toProvider r = (p.driverId.isSome && waitsFor m p.sqlName r) := by
  cases hw : p.driverId with
  | none => simp [pendingFor, hw]
  | some w =>
    have hne : w ≠ "" := fun he => p.named (he ▸ hw)
    have hsql : p.sqlName = w := by simp [Provider.sqlName, hw, Option.filter, hne]
    simp [pendingFor, hw, hmode, hsql]

/-- Of the transient rows, what the details keep and name a broadcast is what waits
for the reader. -/
theorem broadcast_needs (hm : Sound m) (hname : p.detailsName = some p.sqlName)
    (hr : r ∈ transientRows m p.toProvider projectId) :
    (needs m p.toProvider r && decide (r.2.terms.ackMode = .broadcast)) = pendingFor m p.toProvider r := by
  rw [transientRows, inboxRows_start hm, List.mem_filter] at hr
  obtain ⟨hjoined, hselected⟩ := hr
  have hmode : r.2.letter.deliveryMode = .transient := by
    simp only [InboxFilter.selects, transientFilter, Option.all_some, Bool.and_eq_true, decide_eq_true_eq] at hselected
    exact hselected.1.1.2
  rw [pendingFor_eq hmode]
  cases hack : r.2.terms.ackMode with
  | atLeastN => simp [waitsFor, hack]
  | broadcast =>
    rw [(sqlNeeds_broadcast hm hjoined hname hack).2]
    simp

theorem pending_selected (hm : Sound m) (hname : p.detailsName = some p.sqlName)
    (hr : r ∈ joined m projectId) (hpending : pendingFor m p.toProvider r = true) :
    ((transientFilter projectId).selects r.1 r.2 && sqlNeeds m p.toProvider r.1 r.2) = true := by
  have hmode : r.2.letter.deliveryMode = .transient := by
    simp only [pendingFor, Bool.and_eq_true, decide_eq_true_eq] at hpending
    exact hpending.1
  rw [pendingFor_eq hmode, Bool.and_eq_true] at hpending
  have hwaits := hpending.2
  simp only [waitsFor, Bool.and_eq_true, decide_eq_true_eq] at hwaits
  rw [(sqlNeeds_broadcast hm hr hname hwaits.1.1).1, hpending.2, Bool.and_true]
  cases hs : r.1.status with
  | resolved => exact absurd hs hwaits.1.2
  | unread => simp [InboxFilter.selects, transientFilter, activeStatuses, hmode, hs]
  | acknowledged => simp [InboxFilter.selects, transientFilter, activeStatuses, hmode, hs]

theorem pendingCount_eq (hm : Sound m) (hname : p.detailsName = some p.sqlName) :
    pendingCount m p.toProvider projectId =
      (transientRows m p.toProvider projectId).countP (pendingFor m p.toProvider) := by
  rw [transientRows, inboxRows_start hm, List.countP_filter, pendingCount]
  refine List.countP_congr (fun r hr => ?_)
  constructor
  · intro h
    rw [h, Bool.true_and]
    exact pending_selected hm hname hr h
  · intro h
    exact (Bool.and_eq_true _ _ |>.mp h).1

/-- The items of the transient page. -/
def transientItems (m : Mailbox) (p : Provider) (projectId : String) : List Item :=
  (((transientRows m p projectId).take 8).filter (needs m p)).map (itemOf m p true)

theorem transientItems_nonempty {p : Provider} : transientItems m p projectId ≠ [] ↔
    ∃ r ∈ (transientRows m p projectId).take 8, needs m p r = true := by
  rw [transientItems, ne_eq, List.map_eq_nil_iff, List.filter_eq_nil_iff]
  push Not
  rfl

/-- The page of the transient rows: what its filter keeps. Where it keeps none of the
rows there are, the cursor of the page has no item to stand on. -/
theorem pageAfter_transient (p : Provider) (page : Page) : pageAfter m p (transientFilter projectId) 0 = .ok page ↔
    ∃ c, (if (transientItems m p projectId).length < (transientRows m p projectId).length
        then orElse ((transientItems m p projectId).getLast?.map (fun i => i.delivery.deliverySeq)) MailError.indexError
        else pure (max 0 (high m projectId))) = .ok c ∧
      page = ⟨projectId, transientItems m p projectId, (transientRows m p projectId).length,
        decide ((transientItems m p projectId).length < (transientRows m p projectId).length), c⟩ := by
  have hread : (((transientRows m p projectId).take 8).map (itemOf m p true)).filter
      (fun i => i.details.any (detailsNeeds p i.delivery)) = transientItems m p projectId := by
    rw [List.filter_map]
    rfl
  have hexposed : (transientItems m p projectId).map (Item.exposed .v3) = transientItems m p projectId :=
    List.map_id _
  have hlimit : (transientFilter projectId).limit.toNat = 8 := rfl
  have hschema : (transientFilter projectId).schema = .v3 := rfl
  have hneeds : (transientFilter projectId).needsMyAck = true := rfl
  have hproject : (transientFilter projectId).projectId = projectId := rfl
  unfold pageAfter
  rw [← transientRows, v3_of_needs hneeds, hlimit, hschema, hneeds, hproject]
  simp only [if_true, hread, hexposed, decide_eq_true_eq]
  split
  · simp only [bind_ok, pure_ok]
    simp only [@eq_comm _ page]
  · simp only [bind_ok, pure_ok]
    simp only [@eq_comm _ page]

/-- There is a page unless the filter empties it. -/
theorem transient_served (p : Provider) : (∃ page, pageAfter m p (transientFilter projectId) 0 = .ok page) ↔
    (transientRows m p projectId ≠ [] → ∃ r ∈ (transientRows m p projectId).take 8, needs m p r = true) := by
  simp only [pageAfter_transient, ← transientItems_nonempty]
  constructor
  · rintro ⟨page, c, hc, _⟩ hrows hitems
    have hmore : (transientItems m p projectId).length < (transientRows m p projectId).length := by
      rw [hitems]
      exact List.length_pos_of_ne_nil hrows
    rw [if_pos hmore, hitems, orElse_ok] at hc
    cases hc
  · intro h
    by_cases hitems : transientItems m p projectId = []
    · have hrows : transientRows m p projectId = [] := by
        by_contra hne
        exact h hne hitems
      rw [hitems, hrows]
      exact ⟨_, _, rfl, rfl⟩
    · obtain ⟨i, hi⟩ := Option.isSome_iff_exists.mp (List.getLast?_isSome.mpr hitems)
      rw [hi]
      split
      · exact ⟨_, _, rfl, rfl⟩
      · exact ⟨_, _, rfl, rfl⟩

theorem selected_length (hm : Sound m) (hname : p.detailsName = some p.sqlName) :
    ((transientItems m p.toProvider projectId).filter Item.isBroadcast).length =
      ((transientRows m p.toProvider projectId).take 8).countP (pendingFor m p.toProvider) := by
  rw [transientItems, List.filter_map, List.length_map, List.filter_filter, ← List.countP_eq_length_filter]
  refine List.countP_congr (fun r hr => ?_)
  rw [← broadcast_needs hm hname (List.mem_of_mem_take hr), Bool.and_comm]
  rfl

/-- The first rows hold everything that waits exactly if none of the others does. -/
theorem take_countP {α : Type*} (f : α → Bool) (l : List α) (n : Nat) :
    (l.take n).countP f = l.countP f ↔ ∀ x ∈ l.drop n, f x = false := by
  have hsplit : (l.take n).countP f + (l.drop n).countP f = l.countP f := by
    rw [← List.countP_append, List.take_append_drop]
  have hnone : (l.drop n).countP f = 0 ↔ ∀ x ∈ l.drop n, f x = false := by simp
  rw [← hnone]
  omega

/-- A page is read once every check passed. -/
theorem list_ok {p : Provider} {a : Int} : listDirectorMessages rt m p q a = .ok page ↔
    (∃ id, dbId rt q.projectId none = .ok id) ∧ 0 ≤ a ∧ (1 ≤ q.limit ∧ q.limit ≤ 100) ∧
      q.statuses.all (fun s => decide (s ≠ [] ∧ s.Nodup)) = true ∧ q.projectId ∈ m.projects ∧
      mayAsk m p q = .ok () ∧ pageAfter m p q a.toNat = .ok page := by
  simp only [listDirectorMessages, exposed_ok, bind_ok, ensure_ok, projectOf]
  constructor
  · rintro ⟨id, hid, _, ha, _, hlimit, _, hstatuses, _, hproject, _, hask, h⟩
    exact ⟨⟨id, hid⟩, ha, hlimit, hstatuses, hproject, hask, h⟩
  · rintro ⟨⟨id, hid⟩, ha, hlimit, hstatuses, hproject, hask, h⟩
    exact ⟨id, hid, (), ha, (), hlimit, (), hstatuses, (), hproject, (), hask, h⟩

theorem list_standing (hm : Sound m) {p : Provider} {protocol : Protocol}
    (h : listDirectorMessages rt m p (standingFilter projectId protocol) 0 = .ok page) :
    page.items.length ≤ page.matchedTotal ∧ page.matchedTotal = standingCount m projectId := by
  obtain ⟨_, _, hlimit, _, _, _, h⟩ := list_ok.mp h
  obtain ⟨c, more, hpage⟩ := pageAfter_plain (q := standingFilter projectId protocol) (m := m) (p := p) rfl
    hlimit.1 (0 : Int).toNat
  rw [hpage, Except.ok.injEq] at h
  subst h
  refine ⟨?_, standing_rows hm p protocol⟩
  simp only [List.length_map, List.length_take]
  omega

theorem list_standing_ok {p : Provider} {protocol : Protocol} :
    (∃ page, listDirectorMessages rt m p (standingFilter projectId protocol) 0 = .ok page) ↔
      (∃ id, dbId rt projectId none = .ok id) ∧ projectId ∈ m.projects := by
  constructor
  · rintro ⟨page, h⟩
    obtain ⟨hid, _, _, _, hproject, _⟩ := list_ok.mp h
    exact ⟨hid, hproject⟩
  · rintro ⟨hid, hproject⟩
    have hlimit : 1 ≤ (standingFilter projectId protocol).limit ∧ (standingFilter projectId protocol).limit ≤ 100 := by
      simp [standingFilter]
    obtain ⟨c, more, hpage⟩ := pageAfter_plain (q := standingFilter projectId protocol) (m := m) (p := p) rfl
      hlimit.1 (0 : Int).toNat
    refine ⟨_, list_ok.mpr ⟨hid, Int.le_refl 0, hlimit, ?_, hproject, rfl, hpage⟩⟩
    simp [standingFilter, activeStatuses]

theorem list_transient {p : Provider}
    (h : listDirectorMessages rt m p (transientFilter projectId) 0 = .ok page) :
    (∃ name, acker m p projectId = .ok name) ∧ page.items = transientItems m p projectId := by
  obtain ⟨_, _, _, _, _, hask, h⟩ := list_ok.mp h
  simp only [mayAsk, transientFilter, if_true, bind_ok] at hask
  obtain ⟨name, hacker, _⟩ := hask
  obtain ⟨c, _, rfl⟩ := (pageAfter_transient p page).mp h
  exact ⟨⟨name, hacker⟩, rfl⟩

/-- Who may acknowledge may list what waits for it, unless the filter empties the
page. -/
theorem list_transient_ok {p : Provider} (hid : ∃ id, dbId rt projectId none = .ok id)
    (hproject : projectId ∈ m.projects) :
    (∃ page, listDirectorMessages rt m p (transientFilter projectId) 0 = .ok page) ↔
      (∃ name, acker m p projectId = .ok name) ∧
      (transientRows m p projectId ≠ [] → ∃ r ∈ (transientRows m p projectId).take 8, needs m p r = true) := by
  rw [← transient_served]
  constructor
  · rintro ⟨page, h⟩
    obtain ⟨_, _, _, _, _, _, hpage⟩ := list_ok.mp h
    exact ⟨(list_transient h).1, page, hpage⟩
  · rintro ⟨⟨name, hacker⟩, page, hpage⟩
    refine ⟨page, list_ok.mpr ⟨hid, Int.le_refl 0, ?_, ?_, hproject, mayAsk_ok hacker rfl, hpage⟩⟩
    · simp [transientFilter]
    · simp [transientFilter, activeStatuses]

end Counting

section Guidance

variable {rt : Runtime} {m : Mailbox} {projectId : String} {p : Reader}

/-- What the selection of items came to: what stands, and for a v3 caller the
broadcasts among the first transient rows. -/
def guidanceTotal (m : Mailbox) (p : Provider) (projectId : String) : Nat :=
  standingCount m projectId +
    if p.v3 .v2 false = true then ((transientRows m p projectId).take 8).countP (pendingFor m p) else 0

theorem guidanceItems_counts (hm : Sound m) {items : List Item} {total : Nat}
    (h : guidanceItems rt m p.toProvider projectId = .ok (items, total)) :
    items.length ≤ total ∧ total = guidanceTotal m p.toProvider projectId := by
  simp only [guidanceItems, bind_ok] at h
  obtain ⟨standing, hstanding, h⟩ := h
  obtain ⟨hle, htotal⟩ := list_standing hm hstanding
  by_cases hv3 : p.v3 .v2 false = true
  · rw [if_pos hv3] at h
    simp only [bind_ok, pure_ok, Prod.mk.injEq] at h
    obtain ⟨transient, htransient, rfl, rfl⟩ := h
    obtain ⟨⟨name, hacker⟩, hitems⟩ := list_transient htransient
    have hlength : ((transientItems m p.toProvider projectId).filter Item.isBroadcast).length = _ :=
      selected_length hm (detailsName_eq hacker)
    rw [guidanceTotal, if_pos hv3, ← hlength, hitems, htotal]
    refine ⟨?_, rfl⟩
    simp only [List.length_take, List.length_insertionSort, List.length_append]
    omega
  · rw [if_neg hv3, pure_ok, Prod.mk.injEq] at h
    obtain ⟨rfl, rfl⟩ := h
    rw [guidanceTotal, if_neg hv3]
    exact ⟨hle, htotal⟩

/-- The items can be selected exactly for a caller that may read both lists. -/
theorem guidanceItems_ok : (∃ x, guidanceItems rt m p.toProvider projectId = .ok x) ↔
    (∃ id, dbId rt projectId none = .ok id) ∧ projectId ∈ m.projects ∧
    (p.v3 .v2 false = true → (∃ name, acker m p.toProvider projectId = .ok name) ∧
      (transientRows m p.toProvider projectId ≠ [] →
        ∃ r ∈ (transientRows m p.toProvider projectId).take 8, needs m p.toProvider r = true)) := by
  rw [← and_assoc]
  simp only [guidanceItems, bind_ok]
  constructor
  · rintro ⟨x, standing, hstanding, h⟩
    have hread := list_standing_ok.mp ⟨standing, hstanding⟩
    refine ⟨hread, fun hv3 => ?_⟩
    rw [if_pos hv3] at h
    obtain ⟨transient, htransient, _⟩ := bind_ok.mp h
    exact (list_transient_ok hread.1 hread.2).mp ⟨transient, htransient⟩
  · rintro ⟨hread, hv3⟩
    by_cases hv : p.v3 .v2 false = true
    · obtain ⟨standing, hstanding⟩ := list_standing_ok.mpr hread
      obtain ⟨transient, htransient⟩ := (list_transient_ok hread.1 hread.2).mpr (hv3 hv)
      simp only [if_pos hv]
      exact ⟨_, standing, hstanding, bind_ok.mpr ⟨transient, htransient, rfl⟩⟩
    · obtain ⟨standing, hstanding⟩ := list_standing_ok.mpr hread
      simp only [if_neg hv]
      exact ⟨_, standing, hstanding, rfl⟩

theorem pendingCount_v2 (hv3 : ¬ p.v3 .v2 false = true) : pendingCount m p.toProvider projectId = 0 := by
  have hdriver : p.driverId = none := by
    cases hw : p.driverId with
    | none => rfl
    | some w =>
      have hne : w ≠ "" := fun he => p.named (he ▸ hw)
      simp [Provider.v3, truthy, hw, hne] at hv3
  simp [pendingCount, pendingFor, hdriver]

/-- The count is that of all there is exactly if the first rows hold what waits. -/
theorem guidanceTotal_eq (hm : Sound m) (hacker : p.v3 .v2 false = true →
    ∃ name, acker m p.toProvider projectId = .ok name) :
    guidanceTotal m p.toProvider projectId = standingCount m projectId + pendingCount m p.toProvider projectId ↔
      (p.v3 .v2 false = true → ∀ r ∈ (transientRows m p.toProvider projectId).drop 8,
        pendingFor m p.toProvider r = false) := by
  rw [guidanceTotal, Nat.add_left_cancel_iff]
  by_cases hv3 : p.v3 .v2 false = true
  · obtain ⟨name, hname⟩ := hacker hv3
    rw [if_pos hv3, pendingCount_eq hm (detailsName_eq hname), take_countP]
    exact ⟨fun h _ => h, fun h => h hv3⟩
  · rw [if_neg hv3, pendingCount_v2 hv3]
    exact ⟨fun _ h => absurd h hv3, fun _ => rfl⟩

theorem guidanceTotal_small (hrows : m.deliveries.length < 2 ^ 63) :
    guidanceTotal m p.toProvider projectId < 2 ^ 64 := by
  have hstanding : standingCount m projectId ≤ m.deliveries.length :=
    Nat.le_trans List.countP_le_length (joined_length m projectId)
  have hselected : ((transientRows m p.toProvider projectId).take 8).countP (pendingFor m p.toProvider) ≤ 8 :=
    Nat.le_trans List.countP_le_length (by rw [List.length_take]; omega)
  rw [guidanceTotal]
  split
  · omega
  · omega

theorem Accounted.total (hm : Sound m) (h : Accounted rt m p.toProvider projectId) :
    guidanceTotal m p.toProvider projectId = standingCount m projectId + pendingCount m p.toProvider projectId := by
  obtain ⟨s, h, _, hcount⟩ := h
  simp only [projectActiveStanding, bind_ok, pure_ok] at h
  obtain ⟨⟨items, total⟩, hitems, hfit⟩ := h
  obtain ⟨hle, rfl⟩ := guidanceItems_counts hm hitems
  rw [← hcount, fitProjection_total (Nat.le_refl _) (by rwa [List.length_map]) hfit]

/-- In every mailbox of a run: a text that is returned fits. The call returns one
that accounts for all standing messages and all broadcasts that wait for the caller
exactly if the caller may read and the first eight transient rows hold them. -/
theorem projects_all_standing (rt : Runtime) (old : OldMailbox) (ops : List Op) (p : Reader) (projectId : String)
    (hrows : (after rt old ops).deliveries.length < 2 ^ 63) :
    (∀ s, projectActiveStanding rt (after rt old ops) p.toProvider projectId = .ok (some s) → s.text.length ≤ 3000) ∧
    (Accounted rt (after rt old ops) p.toProvider projectId ↔
      Served rt (after rt old ops) p.toProvider projectId) := by
  have hm := after_sound rt old ops
  constructor
  · intro s h
    simp only [projectActiveStanding, bind_ok, pure_ok] at h
    obtain ⟨_, _, h⟩ := h
    exact fitProjection_fits h
  · constructor
    · intro h
      have htotal := h.total hm
      obtain ⟨s, h, _⟩ := h
      simp only [projectActiveStanding, bind_ok] at h
      obtain ⟨x, hitems, _⟩ := h
      obtain ⟨hnamed, hknown, hv3⟩ := guidanceItems_ok.mp ⟨x, hitems⟩
      exact ⟨hnamed, hknown, fun h => (hv3 h).1, (guidanceTotal_eq hm (fun h => (hv3 h).1)).mp htotal,
        fun h => (hv3 h).2⟩
    · intro h
      obtain ⟨⟨items, total⟩, hitems⟩ := guidanceItems_ok.mpr
        ⟨h.named, h.known, fun hv3 => ⟨h.member hv3, h.shown hv3⟩⟩
      obtain ⟨hle, rfl⟩ := guidanceItems_counts hm hitems
      obtain ⟨s, hs⟩ := fitProjection_returns (items.map (guidanceLine rt)) (guidanceTotal_small (p := p) hrows)
        (items.map (guidanceLine rt)).length
      refine ⟨s, ?_, fitProjection_fits hs, ?_⟩
      · simp only [projectActiveStanding, bind_ok, pure_ok]
        exact ⟨_, hitems, hs⟩
      · rw [fitProjection_total (Nat.le_refl _) (by rwa [List.length_map]) hs]
        exact (guidanceTotal_eq hm h.member).mpr h.listed

/-- Project `a` sends project `b`, whose only member is `x`, nine broadcasts. -/
def nineBroadcasts : List Op :=
  [.rest ["a", "b"] [⟨"x", .active, none⟩] [],
   .setMembership ⟨"b", "x", .member, 0, "joins", "owner:o", true, 0⟩] ++
  ["1", "2", "3", "4", "5", "6", "7", "8", "9"].map (fun k =>
    .send ⟨"owner:o", none, false⟩ ⟨"a", "o", k, "s", "", some "b", false, none, .transient, some .broadcast, none,
      .v3, k, fun _ => k, 0⟩)

def readerX : Reader := ⟨⟨"driver:x", some "x", false⟩, by decide⟩

theorem nineBroadcasts_waiting :
    guidanceTotal (after plain .empty nineBroadcasts) readerX.toProvider "b" = 8 ∧
    standingCount (after plain .empty nineBroadcasts) "b" +
      pendingCount (after plain .empty nineBroadcasts) readerX.toProvider "b" = 9 := by
  decide

/-- Eight of the nine are counted, so the last is neither listed nor reported. -/
theorem ninth_broadcast_unreported :
    (after plain .empty nineBroadcasts).deliveries.length = 9 ∧
    ¬ Accounted plain (after plain .empty nineBroadcasts) readerX.toProvider "b" := by
  refine ⟨by decide, fun h => ?_⟩
  have htotal := h.total (after_sound plain .empty nineBroadcasts)
  rw [nineBroadcasts_waiting.1, nineBroadcasts_waiting.2] at htotal
  exact absurd htotal (by decide)

/-- One broadcast is accounted for. -/
theorem one_broadcast_accounted : Accounted plain (after plain .empty broadcastRun) readerX.toProvider "b" := by
  have hwaiting : (transientRows (after plain .empty broadcastRun) readerX.toProvider "b").length = 1 ∧
      ∃ r ∈ (transientRows (after plain .empty broadcastRun) readerX.toProvider "b").take 8,
        needs (after plain .empty broadcastRun) readerX.toProvider r = true := by
    decide
  have hacker : acker (after plain .empty broadcastRun) readerX.toProvider "b" = .ok "x" := by decide
  have hrows : (after plain .empty broadcastRun).deliveries.length < 2 ^ 63 := by decide
  refine (projects_all_standing plain .empty broadcastRun readerX "b" hrows).2.mpr
    ⟨⟨"b", by decide⟩, by decide, fun _ => ⟨"x", hacker⟩, fun _ r hr => ?_, fun _ _ => hwaiting.2⟩
  have hnone : (transientRows (after plain .empty broadcastRun) readerX.toProvider "b").drop 8 = [] :=
    List.drop_eq_nil_of_le (by omega)
  rw [hnone] at hr
  cases hr

end Guidance

end AItelier.Mail
