import AItelier.DriverInbox.Numbering

namespace AItelier.DriverInbox

open AItelier.Lib
open AItelier.State (truthy)

variable {rt : Runtime} {w : World} {c : Caller} {b b' : Inbox}

section Rows

/-- A row without what acknowledging its delivery changes. -/
def InboxRow.fixed (r : InboxRow) : InboxRow :=
  { r with delivery := { r.delivery with status := .unread, version := 1 } }

theorem InboxRow.fixed_seq (r : InboxRow) : r.fixed.seq = r.seq := rfl

/-- The row of a delivery as it was sent. -/
def sentRow (b : Inbox) (s : Token × Token × String × Nat) : Option InboxRow :=
  (b.message? s.2.1).map (rowOf ⟨s.1, s.2.1, s.2.2.1, s.2.2.2, .unread, 1⟩)

/-- The rows of a driver as they were sent. -/
def sentRows (b : Inbox) (driverId : String) : List InboxRow :=
  ((b.deliveries.map Delivery.sent).filter (fun s => decide (s.2.2.1 = driverId))).filterMap (sentRow b)

theorem deliveries_ordered (hb : Sound b) (driverId : String) :
    (b.deliveries.filter (fun d => decide (d.targetDriverId = driverId))).Pairwise (fun x y => x.seq < y.seq) := by
  have hnumbers : (numbers b driverId).Pairwise (· < ·) := by
    rw [hb.numbered driverId]
    exact List.pairwise_lt_range'
  exact List.pairwise_map.mp hnumbers

theorem inboxRows_eq (hb : Sound b) (driverId : String) : inboxRows b driverId =
    (b.deliveries.filter (fun d => decide (d.targetDriverId = driverId))).filterMap
      (fun d => (b.message? d.messageId).map (rowOf d)) := by
  rw [inboxRows, List.Pairwise.insertionSort_eq ((deliveries_ordered hb driverId).imp (fun h => Nat.le_of_lt h))]

theorem inboxRows_ordered (hb : Sound b) (driverId : String) : Ordered InboxRow.seq (inboxRows b driverId) := by
  rw [inboxRows_eq hb]
  refine List.Pairwise.filterMap _ ?_ (deliveries_ordered hb driverId)
  intro x y hxy r hr r' hr'
  obtain ⟨_, -, rfl⟩ := Option.map_eq_some_iff.mp hr
  obtain ⟨_, -, rfl⟩ := Option.map_eq_some_iff.mp hr'
  exact hxy

theorem inboxRows_fixed (hb : Sound b) (driverId : String) :
    (inboxRows b driverId).map InboxRow.fixed = sentRows b driverId := by
  rw [inboxRows_eq hb, sentRows, List.filter_map, List.filterMap_map, List.map_filterMap]
  refine List.filterMap_congr fun d _ => ?_
  simp only [Function.comp_apply, sentRow, Delivery.sent, Option.map_map]
  rfl

theorem sentRows_ordered (hb : Sound b) (driverId : String) : Ordered InboxRow.seq (sentRows b driverId) := by
  rw [← inboxRows_fixed hb, Ordered, List.pairwise_map]
  exact inboxRows_ordered hb driverId

theorem message?_later (h : Later b b') {id : Token} {m : Message} (hm : b.message? id = some m) :
    b'.message? id = some m := by
  obtain ⟨more, hmore⟩ := h.messages
  rw [Inbox.message?, ← hmore, lookup_append]
  rw [Inbox.message?] at hm
  rw [hm, Option.some_or]

theorem message?_sent (hb : Sound b) {d : Delivery} (hd : d ∈ b.deliveries) :
    ∃ m, b.message? d.messageId = some m := by
  obtain ⟨m, hm, hid⟩ := hb.sent d hd
  have hsome := @lookup_isSome_of_mem _ _ _ Message.messageId _ _ hm
  rw [hid] at hsome
  exact Option.isSome_iff_exists.mp hsome

theorem sentRows_later (hb : Sound b) (h : Later b b') (driverId : String) :
    sentRows b driverId <+: sentRows b' driverId := by
  have hstay : sentRows b driverId =
      ((b.deliveries.map Delivery.sent).filter (fun s => decide (s.2.2.1 = driverId))).filterMap (sentRow b') := by
    refine List.filterMap_congr fun s hs => ?_
    obtain ⟨d, hd, rfl⟩ := List.mem_map.mp (List.mem_of_mem_filter hs)
    obtain ⟨m, hm⟩ := message?_sent hb hd
    rw [sentRow, sentRow, show (Delivery.sent d).2.1 = d.messageId from rfl, hm, message?_later h hm]
  obtain ⟨more, hmore⟩ := h.deliveries
  rw [hstay, sentRows, ← hmore, List.filter_append, List.filterMap_append]
  exact List.prefix_append _ _

theorem seq_sentRows (hb : Sound b) (driverId : String) :
    (sentRows b driverId).map InboxRow.seq = numbers b driverId := by
  rw [← inboxRows_fixed hb, inboxRows_eq hb, List.map_map, List.map_filterMap, numbers, ← List.filterMap_eq_map]
  refine List.filterMap_congr fun d hd => ?_
  obtain ⟨m, hm⟩ := message?_sent hb (List.mem_of_mem_filter hd)
  rw [hm]
  rfl

theorem seq_le_high (hb : Sound b) {driverId : String} {r : InboxRow} (hr : r ∈ sentRows b driverId) :
    r.seq ≤ high b driverId := by
  refine le_foldl_max (.inl ?_)
  rw [← numbers, ← seq_sentRows hb]
  exact List.mem_map_of_mem hr

theorem high_eq (hb : Sound b) (driverId : String) : high b driverId = (sentRows b driverId).length := by
  rw [high_numbered hb.numbered, ← seq_sentRows hb, List.length_map]

theorem high_later (hb : Sound b) (h : Grows b b') (driverId : String) : high b driverId ≤ high b' driverId := by
  rw [high_eq hb, high_eq (h.sound hb)]
  exact (sentRows_later hb h.later driverId).length_le

end Rows

section Page

variable {q : ListRequest} {page : InboxPage} {a : Nat}

/-- Whose inbox a call reads. -/
def ListRequest.name (q : ListRequest) (c : Caller) : Option String :=
  if truthy q.driverId then q.driverId else c.driverId

/-- A page holds the rows between the number it was asked from and the one it hands
out; one that is not truncated reaches the end of the inbox. -/
structure ExactPage (b : Inbox) (driverId : String) (a : Nat) (page : InboxPage) : Prop where
  rows : page.messages.map InboxRow.fixed = span InboxRow.seq a page.nextAfter (sentRows b driverId)
  forward : a ≤ page.nextAfter
  within : page.nextAfter ≤ max a (high b driverId)
  more : page.truncated = true → page.messages ≠ []
  last : page.truncated = false → high b driverId ≤ page.nextAfter

theorem listDriverMessages_exact (hb : Sound b) {driverId : String} (hname : q.name c = some driverId)
    (h : listDriverMessages w c b q a = .ok page) : ExactPage b driverId a page := by
  simp only [listDriverMessages, bind_ok, ensure_ok, pure_ok] at h
  obtain ⟨_, -, _, -, _, ⟨-, hlow, -⟩, driver, hdriver, next, hnext, rfl⟩ := h
  have hid : driver.driverId = driverId := by
    rw [show (if truthy q.driverId then q.driverId else c.driverId) = some driverId from hname] at hdriver
    exact lookup_key (orElse_ok.mp hdriver)
  rw [Int.toNat_natCast, hid] at hnext
  generalize hrows : (inboxRows b driverId).filter (fun x => decide (a < x.seq)) = rows at hnext
  have hordered : Ordered InboxRow.seq rows := by
    rw [← hrows]
    exact (inboxRows_ordered hb driverId).filter _
  have hbounds : ∀ x ∈ rows, a < x.seq ∧ x.seq ≤ high b driverId := by
    intro x hx
    rw [← hrows] at hx
    obtain ⟨hin, hlt⟩ := List.mem_filter.mp hx
    have hsent : x.fixed ∈ sentRows b driverId := inboxRows_fixed hb driverId ▸ List.mem_map_of_mem hin
    exact ⟨of_decide_eq_true hlt, x.fixed_seq ▸ seq_le_high hb hsent⟩
  obtain ⟨k, hk, hle, htake, hmore, hlast⟩ := page_exact hordered (by omega : 1 ≤ q.limit.toNat) hbounds
  have hkeep : pageCursor InboxRow.seq q.limit.toNat a (high b driverId) (rows.take (q.limit.toNat + 1)) =
      some next := by
    unfold nextAfter at hnext
    unfold pageCursor
    split at hnext
    · next hlt =>
      rw [if_pos hlt]
      exact orElse_ok.mp hnext
    · next hlt =>
      rw [if_neg hlt, Except.ok.inj hnext]
  rw [pageCursor_take, hk, Option.some.injEq] at hkeep
  subst hkeep
  have hlength : q.limit.toNat < (rows.take (q.limit.toNat + 1)).length ↔ q.limit.toNat < rows.length := by
    rw [List.length_take]
    omega
  have hpage : (rows.take (q.limit.toNat + 1)).take q.limit.toNat = rows.take q.limit.toNat := by
    rw [List.take_take, Nat.min_eq_left (Nat.le_succ _)]
  rw [Int.toNat_natCast, hid, hrows]
  refine ⟨?_, hle, ?_, ?_, ?_⟩
  · -- the rows after `a` up to the cursor are those of the span
    have hspan : span InboxRow.seq a k rows = span InboxRow.seq a k (inboxRows b driverId) := by
      rw [← hrows, span, span, List.filter_filter]
      refine List.filter_congr fun x _ => ?_
      rw [← Bool.decide_and]
      exact decide_eq_decide.mpr (by omega)
    rw [hpage, htake, hspan, ← inboxRows_fixed hb, span, span, List.filter_map]
    rfl
  · rcases Nat.lt_or_ge q.limit.toNat rows.length with hlt | hge
    · exact Nat.le_trans (hmore hlt).2 (Nat.le_max_right _ _)
    · exact Nat.le_of_eq (hlast hge)
  · intro htruncated hnil
    rw [decide_eq_true_eq, hlength] at htruncated
    rw [hpage] at hnil
    have hzero := congrArg List.length hnil
    rw [List.length_take, List.length_nil] at hzero
    omega
  · intro htruncated
    rw [decide_eq_false_iff_not, hlength, Nat.not_lt] at htruncated
    rw [hlast htruncated]
    exact Nat.le_max_right _ _

end Page

section Walk

/-- A page that a reader asks for: what was called since the last one, the rest of the
store as the page finds it, and the limit. -/
structure Fetch where
  ops : List Op
  world : World
  limit : Int

/-- The inbox after what was called between the pages. -/
def atEnd (rt : Runtime) (b : Inbox) (fetches : List Fetch) : Inbox :=
  fetches.foldl (fun b f => run (next rt) b f.ops) b

/-- The rows that a reader gets by following `next_after`, and whether a page was not
truncated. A page that is refused is asked for again. -/
def walkInbox (rt : Runtime) (c : Caller) (name : Option String) : Inbox → Nat → List Fetch → List InboxRow × Bool
  | _, _, [] => ([], false)
  | b, a, f :: rest =>
    let b := run (next rt) b f.ops
    match listDriverMessages f.world c b ⟨name, f.limit⟩ a with
    | .error _ => walkInbox rt c name b a rest
    | .ok page =>
      let later := walkInbox rt c name b page.nextAfter rest
      (page.messages ++ later.1, !page.truncated || later.2)

variable {name : Option String} {driverId : String} {fetches : List Fetch}

theorem atEnd_grows (rt : Runtime) (b : Inbox) (fetches : List Fetch) : Grows b (atEnd rt b fetches) := by
  induction fetches generalizing b with
  | nil => exact Grows.refl b
  | cons f rest ih => exact (run_grows rt b f.ops).trans (ih _)

/-- New rows come after a cursor that is within the inbox. -/
theorem span_later (hb : Sound b) (h : Grows b b') {a k : Nat} (hk : k ≤ max a (high b driverId)) :
    span InboxRow.seq a k (sentRows b' driverId) = span InboxRow.seq a k (sentRows b driverId) := by
  obtain ⟨more, hmore⟩ := sentRows_later hb h.later driverId
  rcases Nat.le_or_le k a with hle | hle
  · rw [span_of_le hle, span_of_le hle]
  · have hout : span InboxRow.seq a k more = [] := by
      refine List.filter_eq_nil_iff.mpr fun x hx => ?_
      have hnumbers : (sentRows b driverId ++ more).map InboxRow.seq = List.range' 1 (numbers b' driverId).length := by
        rw [hmore, seq_sentRows (h.sound hb)]
        exact (h.sound hb).numbered driverId
      have hdrop : more.map InboxRow.seq = (List.range' 1 (numbers b' driverId).length).drop (high b driverId) := by
        rw [← hnumbers, ← List.map_drop, high_eq hb, List.drop_left]
      have hlt : high b driverId < x.seq := by
        have hmem : x.seq ∈ more.map InboxRow.seq := List.mem_map_of_mem hx
        rw [hdrop, List.drop_range', List.mem_range'_1] at hmem
        omega
      simp only [decide_eq_true_eq]
      omega
    rw [← hmore, span, List.filter_append]
    exact (congrArg _ hout).trans (List.append_nil _)

/-- What a walk has returned is what lies between the first cursor and the last, of the
rows that there are then. -/
theorem walkInbox_span (hb : Sound b) (a : Nat) (hname : (⟨name, 0⟩ : ListRequest).name c = some driverId) :
    ∃ k, a ≤ k ∧ k ≤ max a (high (atEnd rt b fetches) driverId) ∧
      (walkInbox rt c name b a fetches).1.map InboxRow.fixed =
        span InboxRow.seq a k (sentRows (atEnd rt b fetches) driverId) ∧
      ((walkInbox rt c name b a fetches).2 = true → high b driverId ≤ k) := by
  induction fetches generalizing b a with
  | nil =>
    refine ⟨a, Nat.le_refl _, Nat.le_max_left _ _, ?_, fun h => nomatch h⟩
    rw [span_of_le (Nat.le_refl _)]
    rfl
  | cons f rest ih =>
    have hgrows := run_grows rt b f.ops
    have hsound := hgrows.sound hb
    have hhigh := high_later hb hgrows driverId
    have hend : atEnd rt b (f :: rest) = atEnd rt (run (next rt) b f.ops) rest := rfl
    rw [hend]
    unfold walkInbox
    dsimp only
    split
    · obtain ⟨k, hle, hwithin, hrows, hover⟩ := ih hsound a
      exact ⟨k, hle, hwithin, hrows, fun h => Nat.le_trans hhigh (hover h)⟩
    · next page hpage =>
      have hexact := listDriverMessages_exact hsound (q := ⟨name, f.limit⟩) hname hpage
      obtain ⟨k, hle, hwithin, hrows, hover⟩ := ih hsound page.nextAfter
      have hlater := atEnd_grows rt (run (next rt) b f.ops) rest
      have hends := high_later hsound hlater driverId
      have hforward := hexact.forward
      have hmax := hexact.within
      refine ⟨k, Nat.le_trans hforward hle, by omega, ?_, fun h => ?_⟩
      · rw [List.map_append, hrows, hexact.rows, ← span_later hsound hlater hmax]
        exact span_append (sentRows_ordered (hlater.sound hsound) driverId) hforward hle
      · rcases Bool.or_eq_true_iff.mp h with hlast | hlast
        · have := hexact.last (by simpa using hlast)
          omega
        · exact Nat.le_trans hhigh (hover hlast)

/-- The page is asked for by someone who may read the inbox, within the limits. -/
structure Fetch.Reads (f : Fetch) (c : Caller) (name : Option String) : Prop where
  trusted : c.trusted = true
  recipient : authorize f.world c ((⟨name, f.limit⟩ : ListRequest).name c) false none = .ok ()
  limit : 1 ≤ f.limit ∧ f.limit ≤ 100
  registered : ∃ driver, driverOf f.world ((⟨name, f.limit⟩ : ListRequest).name c) = .ok driver

theorem Fetch.Reads.answered {f : Fetch} (h : f.Reads c name) (b : Inbox) (a : Nat) :
    ∃ page, listDriverMessages f.world c b ⟨name, f.limit⟩ a = .ok page := by
  obtain ⟨driver, hdriver⟩ := h.registered
  simp only [listDriverMessages, bind_ok, ensure_ok, pure_ok]
  have hcursor : ∀ rows : List InboxRow, ∃ k,
      nextAfter rows f.limit.toNat (a : Int).toNat (high b driver.driverId) = .ok k := by
    intro rows
    unfold nextAfter
    split
    · next hlt =>
      obtain ⟨r, hr⟩ := exists_last (by have := h.limit.1; omega) hlt
      exact ⟨r.seq, by rw [hr]; rfl⟩
    · exact ⟨_, rfl⟩
  obtain ⟨k, hk⟩ := hcursor _
  exact ⟨_, (), h.trusted, (), h.recipient, (), ⟨Int.natCast_nonneg a, h.limit⟩, driver, hdriver, k, hk, rfl⟩

theorem walkInbox_length (hb : Sound b) (a : Nat) (hname : (⟨name, 0⟩ : ListRequest).name c = some driverId)
    (hanswered : ∀ f ∈ fetches, f.Reads c name) (hopen : (walkInbox rt c name b a fetches).2 = false) :
    fetches.length ≤ (walkInbox rt c name b a fetches).1.length := by
  induction fetches generalizing b a with
  | nil => exact Nat.zero_le _
  | cons f rest ih =>
    have hsound := (run_grows rt b f.ops).sound hb
    obtain ⟨page, hpage⟩ := (hanswered f List.mem_cons_self).answered (run (next rt) b f.ops) a
    have hexact := listDriverMessages_exact hsound (q := ⟨name, f.limit⟩) hname hpage
    unfold walkInbox at hopen ⊢
    simp only [hpage, Bool.or_eq_false_iff, Bool.not_eq_false'] at hopen ⊢
    have hrest := ih hsound page.nextAfter (fun g hg => hanswered g (List.mem_cons_of_mem f hg)) hopen.2
    have hrow : 0 < page.messages.length := List.length_pos_iff.mpr (hexact.more hopen.1)
    rw [List.length_cons, List.length_append]
    omega

end Walk

end AItelier.DriverInbox
