import AItelier.DriverInbox.Paging

namespace AItelier.DriverInbox

open AItelier.Lib
open AItelier.State (isAlnum isKeyChar truthy)

variable {rt : Runtime} {w : World} {c : Caller} {b b' : Inbox} {project : String}

section Cursor

/-- The text of a cursor's pair: no character of a token is escaped. -/
def pairText (createdAt messageId : Token) : List Char :=
  '[' :: '"' :: createdAt.text.toList ++ '"' :: ',' :: '"' :: messageId.text.toList ++ ['"', ']']

theorem plain_range {ch : Char} (h : isKeyChar ch ∨ ch = ':' ∨ ch = '+') :
    32 < ch.toNat ∧ ch.toNat < 128 ∧ ch ≠ '"' ∧ ch ≠ '\\' := by
  have hupper : 'a'.toNat = 97 ∧ 'z'.toNat = 122 ∧ 'A'.toNat = 65 ∧ 'Z'.toNat = 90 ∧ '0'.toNat = 48 ∧
      '9'.toNat = 57 := by
    decide
  have hbounds : (48 ≤ ch.toNat ∧ ch.toNat ≤ 122 ∧ ch.toNat ≠ 92) ∨ ch = '_' ∨ ch = '.' ∨ ch = '-' ∨
      ch = ':' ∨ ch = '+' := by
    rcases h with h | h
    · simp only [isKeyChar, isAlnum, Bool.or_eq_true, Bool.and_eq_true, decide_eq_true_eq] at h
      rcases h with (((((h | h) | h) | h) | h) | h)
      · exact .inl ⟨Nat.le_trans (by decide) h.1, h.2, fun he => absurd (he ▸ h.1 : 97 ≤ 92) (by decide)⟩
      · exact .inl ⟨Nat.le_trans (by decide) h.1, Nat.le_trans h.2 (by decide),
          fun he => absurd (he ▸ h.2 : 92 ≤ 90) (by decide)⟩
      · exact .inl ⟨h.1, Nat.le_trans h.2 (by decide), fun he => absurd (he ▸ h.2 : 92 ≤ 57) (by decide)⟩
      · exact .inr (.inl h)
      · exact .inr (.inr (.inl h))
      · exact .inr (.inr (.inr (.inl h)))
    · exact .inr (.inr (.inr (.inr h)))
  rcases hbounds with ⟨hlow, hhigh, hne⟩ | rfl | rfl | rfl | rfl | rfl
  · refine ⟨by omega, by omega, ?_, ?_⟩
    · rintro rfl
      exact absurd hlow (by decide)
    · rintro rfl
      exact hne rfl
  all_goals decide

theorem escape_plain {ch : Char} (h : isKeyChar ch ∨ ch = ':' ∨ ch = '+') : Json.escapeChar ch = [ch] := by
  obtain ⟨hlow, -, hquote, hslash⟩ := plain_range h
  unfold Json.escapeChar
  rw [if_neg hquote, if_neg hslash, if_neg, if_neg, if_neg, if_neg (by omega), if_neg (by omega), if_neg (by omega)]
  all_goals
    rintro rfl
    exact absurd hlow (by decide)

theorem quoted_token (t : Token) : Json.quoted t.text = '"' :: (t.text.toList ++ ['"']) := by
  have hplain : ∀ l : List Char, (∀ ch ∈ l, isKeyChar ch ∨ ch = ':' ∨ ch = '+') → l.flatMap Json.escapeChar = l := by
    intro l hl
    induction l with
    | nil => rfl
    | cons ch l ih =>
      rw [List.flatMap_cons, escape_plain (hl ch List.mem_cons_self), ih fun x hx => hl x (List.mem_cons_of_mem ch hx)]
      rfl
  rw [Json.quoted, hplain _ t.plain]

theorem canonical_pair (createdAt messageId : Token) :
    (canonical (.arr [.str createdAt.text, .str messageId.text])).toList = pairText createdAt messageId := by
  simp [canonical, Json.render, Json.renderItems, Json.joinComma, quoted_token, pairText]

theorem pairText_ascii {createdAt messageId : Token} {ch : Char} (h : ch ∈ pairText createdAt messageId) :
    0 < ch.toNat ∧ ch.toNat < 128 := by
  have hcases : (ch ∈ createdAt.text.toList ∨ ch ∈ messageId.text.toList) ∨ ch = '[' ∨ ch = '"' ∨
      ch = ',' ∨ ch = ']' := by
    simp only [pairText, List.cons_append, List.mem_cons, List.mem_append, List.not_mem_nil, or_false] at h
    tauto
  rcases hcases with (h | h) | rfl | rfl | rfl | rfl
  · have hrange := plain_range (createdAt.plain ch h)
    omega
  · have hrange := plain_range (messageId.plain ch h)
    omega
  all_goals decide

/-- What is handed out as a cursor reads back as the pair it was made of. -/
theorem decode_encode (rt : Runtime) (createdAt messageId : Token) :
    decodeConversationCursor rt (encodeConversationCursor createdAt messageId) =
      .ok (createdAt.text, messageId.text) := by
  let bytes := (pairText createdAt messageId).map Char.toNat
  have hbytes : ∀ x ∈ bytes, 0 < x ∧ x < 128 := by
    intro x hx
    obtain ⟨ch, hch, rfl⟩ := List.mem_map.mp hx
    exact pairText_ascii hch
  have hcursor : (encodeConversationCursor createdAt messageId).toList = Base64.encode bytes := by
    rw [encodeConversationCursor, canonical_pair, String.toList_ofList]
  have hlength : bytes.length = createdAt.text.toList.length + messageId.text.toList.length + 7 := by
    simp only [bytes, pairText, List.length_map, List.length_cons, List.length_append, List.cons_append,
      List.length_nil]
    omega
  have hsize := Base64.length_encode bytes
  have hshort := createdAt.short
  have hshort' := messageId.short
  have hsmall : ∀ x ∈ bytes, x < 256 := fun x hx => Nat.lt_trans (hbytes x hx).2 (by decide)
  have hback : bytesText rt bytes = some (canonical (.arr [.str createdAt.text, .str messageId.text])) := by
    unfold bytesText
    rw [if_pos (List.all_eq_true.mpr fun x hx => decide_eq_true (hbytes x hx)), List.map_map]
    have hid : Char.ofNat ∘ Char.toNat = id := funext Char.ofNat_toNat
    rw [hid, List.map_id, ← canonical_pair, String.ofList_toList]
  have hloads : Json.loads (canonical (.arr [.str createdAt.text, .str messageId.text])) =
      some (.arr [.str createdAt.text, .str messageId.text]) := Json.loads_ordered ⟨trivial, trivial, trivial⟩
  simp only [decodeConversationCursor, bind_ok, ensure_ok, orElse_ok]
  refine ⟨(), ⟨?_, ?_⟩, (), ?_, bytes, ?_, _, hback, ?_⟩
  · intro hempty
    have hzero := congrArg (fun s => s.toList.length) hempty
    rw [hcursor, hsize] at hzero
    have hnil : ("".toList).length = 0 := rfl
    rw [hnil] at hzero
    omega
  · rw [hcursor]
    omega
  · rw [hcursor]
    exact List.all_eq_true.mpr fun c hc => decide_eq_true (Base64.encode_ascii bytes hsmall c hc)
  · rw [hcursor]
    exact Base64.decode_encode bytes hsmall
  · rw [hloads]
    simp only [bind_ok, ensure_ok]
    exact ⟨(), ⟨createdAt.nonempty, messageId.nonempty⟩, rfl⟩

end Cursor

section Pages

/-- The order of a conversation's pages: the newest first. -/
def Message.age (m : Message) : (String ×ₗ String)ᵒᵈ := OrderDual.toDual m.position

/-- The rows of a project's conversation, as they were written. -/
def spokenRows (b : Inbox) (project : String) : List Message := b.messages.filter (Message.spoken project)

theorem conversationRows_eq (b : Inbox) (project : String) :
    conversationRows b project = ordered Message.age (spokenRows b project) := rfl

theorem olderThan_iff {p : String × String} {m : Message} :
    olderThan p m = true ↔ OrderDual.toDual (toLex p) < m.age := by
  obtain ⟨t, i⟩ := p
  rw [Message.age, OrderDual.toDual_lt_toDual, Message.position, position_lt, olderThan, decide_eq_true_eq]

theorem older_eq_beyond (cursor : Option (String × String)) (l : List Message) :
    l.filter (fun m => cursor.all (fun p => olderThan p m)) =
      beyond Message.age (cursor.map (fun p => OrderDual.toDual (toLex p))) l := by
  refine List.filter_congr fun m _ => ?_
  cases cursor with
  | none => rfl
  | some p =>
    rw [Option.all_some, Option.map_some, Option.all_some, Bool.eq_iff_iff, decide_eq_true_eq]
    exact olderThan_iff

/-- Where a cursor stands: at the start, or at a row. -/
inductive At : Option String → Option (String ×ₗ String)ᵒᵈ → Prop
  | start : At none none
  | row (m : Message) : At (some (encodeConversationCursor m.createdAt m.messageId)) (some m.age)

/-- A page is the first rows beyond its cursor, and its own cursor is at the last of
them. -/
theorem listUserConversation_ok {limit : Int} {cursor : Option String} {bound : Option (String ×ₗ String)ᵒᵈ}
    {page : ConversationPage} (hat : At cursor bound)
      (h : listUserConversation rt w c b project limit cursor = .ok page) :
    1 ≤ limit.toNat ∧ page.unreadCount = unread b project ∧
    let rows := beyond Message.age bound (ordered Message.age (spokenRows b project))
    page.messages = (rows.take limit.toNat).map Message.shown ∧
    page.hasMore = decide (limit.toNat < rows.length) ∧
    (limit.toNat < rows.length → At page.nextCursor ((rows.take limit.toNat).getLast?.map Message.age)) := by
  simp only [listUserConversation, bind_ok, ensure_ok, pure_ok] at h
  obtain ⟨_, -, _, ⟨hlow, -⟩, after, hafter, _, -, next, hnext, rfl⟩ := h
  have hbound : after.map (fun p => OrderDual.toDual (toLex p)) = bound := by
    cases hat with
    | start =>
      rw [Option.mapM_none, pure_ok] at hafter
      rw [← hafter]
      rfl
    | row m =>
      rw [optionMapM_ok] at hafter
      simp only [reduceCtorEq, false_and, Option.some.injEq, false_or] at hafter
      obtain ⟨_, p, rfl, hp, rfl⟩ := hafter
      rw [decode_encode, Except.ok.injEq] at hp
      rw [← hp]
      rfl
  rw [conversationRows_eq, older_eq_beyond, hbound] at hnext
  rw [conversationRows_eq, older_eq_beyond, hbound]
  generalize beyond Message.age bound (ordered Message.age (spokenRows b project)) = rows at hnext ⊢
  have hpage : (rows.take (limit.toNat + 1)).take limit.toNat = rows.take limit.toNat := by
    rw [List.take_take, Nat.min_eq_left (Nat.le_succ _)]
  have hlength : limit.toNat < (rows.take (limit.toNat + 1)).length ↔ limit.toNat < rows.length := by
    rw [List.length_take]
    omega
  refine ⟨by omega, rfl, congrArg _ hpage, decide_eq_decide.mpr hlength, fun hmore => ?_⟩
  rw [nextCursor, if_pos (hlength.mpr hmore), orElse_ok, hpage] at hnext
  obtain ⟨m, hm, rfl⟩ := Option.map_eq_some_iff.mp hnext
  rw [hm]
  exact .row m

end Pages

section Walk

/-- The rows that a reader gets by following `next_cursor`, and whether the end of the
history was stated. A page that is refused is asked for again. -/
def walkConversation (rt : Runtime) (c : Caller) (project : String) :
    Inbox → Option String → List Fetch → List SpokenRow × Bool
  | _, _, [] => ([], false)
  | b, cursor, f :: rest =>
    let b := run (next rt) b f.ops
    match listUserConversation rt f.world c b project f.limit cursor with
    | .error _ => walkConversation rt c project b cursor rest
    | .ok page =>
      if page.hasMore then
        let later := walkConversation rt c project b page.nextCursor rest
        (page.messages ++ later.1, later.2)
      else (page.messages, true)

/-- The tables that the answered pages of a walk were read from. -/
def readTables (rt : Runtime) (c : Caller) (project : String) :
    Inbox → Option String → List Fetch → List (List Message × Nat)
  | _, _, [] => []
  | b, cursor, f :: rest =>
    let b := run (next rt) b f.ops
    match listUserConversation rt f.world c b project f.limit cursor with
    | .error _ => readTables rt c project b cursor rest
    | .ok page => (spokenRows b project, f.limit.toNat) ::
        if page.hasMore then readTables rt c project b page.nextCursor rest else []

variable {fetches : List Fetch} {cursor : Option String} {bound : Option (String ×ₗ String)ᵒᵈ}

/-- A walk of the conversation is a walk by the age of its rows. -/
theorem walkConversation_eq (hat : At cursor bound) :
    walkConversation rt c project b cursor fetches =
      ((walk Message.age bound (readTables rt c project b cursor fetches)).1.map Message.shown,
        (walk Message.age bound (readTables rt c project b cursor fetches)).2) := by
  induction fetches generalizing b cursor bound with
  | nil => rfl
  | cons f rest ih =>
    unfold walkConversation readTables
    dsimp only
    split
    · exact ih hat
    · next page hpage =>
      obtain ⟨-, -, hmessages, hmore, hcursor⟩ := listUserConversation_ok hat hpage
      rw [hmessages, hmore]
      unfold walk
      dsimp only
      by_cases hlt : f.limit.toNat < (beyond Message.age bound (ordered Message.age
          (spokenRows (run (next rt) b f.ops) project))).length
      · rw [if_pos (decide_eq_true hlt), if_pos (decide_eq_true hlt), if_pos hlt, ih (hcursor hlt), List.map_append]
      · rw [if_neg (by simpa using hlt), if_neg hlt, List.take_of_length_le (Nat.le_of_not_lt hlt)]

theorem spokenRows_keyed (hb : Sound b) (project : String) : ((spokenRows b project).map Message.age).Nodup := by
  have hids : ((spokenRows b project).map Message.messageId).Nodup := by
    exact hb.keyed.sublist (List.filter_sublist.map _)
  rw [List.Nodup, List.pairwise_map] at hids ⊢
  refine hids.imp fun hne he => hne ?_
  exact Token.ext (congrArg (fun x => (ofLex (OrderDual.ofDual x)).2) he)

theorem spokenRows_later (h : Later b b') (project : String) {m : Message} (hm : m ∈ spokenRows b project) :
    m ∈ spokenRows b' project := by
  obtain ⟨hin, hspoken⟩ := List.mem_filter.mp hm
  exact List.mem_filter.mpr ⟨h.messages.subset hin, hspoken⟩

theorem mem_spokenRows (h : Later b b') (hb' : Sound b') {m : Message} (hm : m ∈ spokenRows b' project) :
    m.messageId ∈ b.messages.map Message.messageId ↔ m ∈ spokenRows b project := by
  obtain ⟨hin, hspoken⟩ := List.mem_filter.mp hm
  constructor
  · intro hid
    obtain ⟨x, hx, he⟩ := List.mem_map.mp hid
    have hsame : x = m := List.inj_on_of_nodup_map hb'.keyed (h.messages.subset hx) hin he
    exact List.mem_filter.mpr ⟨hsame ▸ hx, hspoken⟩
  · intro hold
    exact List.mem_map_of_mem (List.mem_of_mem_filter hold)

/-- Each table that a walk reads is one of the conversation between its first moment
and its last. -/
theorem mem_readTables {p : List Message × Nat} (hat : At cursor bound)
    (hp : p ∈ readTables rt c project b cursor fetches) :
    1 ≤ p.2 ∧ ∃ b', Grows b b' ∧ Grows b' (atEnd rt b fetches) ∧ p.1 = spokenRows b' project := by
  induction fetches generalizing b cursor bound with
  | nil => exact absurd hp List.not_mem_nil
  | cons f rest ih =>
    have hfirst := run_grows rt b f.ops
    unfold readTables at hp
    dsimp only at hp
    split at hp
    · obtain ⟨hlimit, b', hgrows, hend, hrows⟩ := ih hat hp
      exact ⟨hlimit, b', hfirst.trans hgrows, hend, hrows⟩
    · next page hpage =>
      obtain ⟨hlimit, -, -, hmore, hcursor⟩ := listUserConversation_ok hat hpage
      rcases List.mem_cons.mp hp with rfl | hp
      · exact ⟨hlimit, _, hfirst, atEnd_grows rt _ rest, rfl⟩
      · split at hp
        · next hlt =>
          rw [hmore, decide_eq_true_eq] at hlt
          obtain ⟨hlimit, b', hgrows, hend, hrows⟩ := ih (hcursor hlt) hp
          exact ⟨hlimit, b', hfirst.trans hgrows, hend, hrows⟩
        · exact absurd hp List.not_mem_nil

theorem readTables_fetches (hb : Sound b) (hat : At cursor bound) :
    Fetches Message.age (spokenRows b project) (readTables rt c project b cursor fetches) := by
  refine ⟨fun p hp => ?_, fun p hp x hx => ?_, fun p hp => (mem_readTables hat hp).1⟩
  · obtain ⟨-, b', hgrows, -, hrows⟩ := mem_readTables hat hp
    rw [hrows]
    exact spokenRows_keyed (hgrows.sound hb) project
  · obtain ⟨-, b', hgrows, -, hrows⟩ := mem_readTables hat hp
    rw [hrows]
    exact spokenRows_later hgrows.later project hx

/-- The page is asked for by someone who may read the project, within the limits. -/
structure Fetch.Opens (f : Fetch) (c : Caller) (project : String) : Prop where
  trusted : c.trusted = true
  limit : 1 ≤ f.limit ∧ f.limit ≤ 200
  project : projectOf f.world project = .ok ()

theorem Fetch.Opens.answered {f : Fetch} (h : f.Opens c project) (hat : At cursor bound) (rt : Runtime) (b : Inbox) :
    ∃ page, listUserConversation rt f.world c b project f.limit cursor = .ok page := by
  obtain ⟨after, hafter⟩ : ∃ after, cursor.mapM (decodeConversationCursor rt) = .ok after := by
    cases hat with
    | start => exact ⟨none, rfl⟩
    | row m =>
      refine ⟨some (m.createdAt.text, m.messageId.text), ?_⟩
      rw [optionMapM_ok]
      exact .inr ⟨_, _, rfl, decode_encode rt m.createdAt m.messageId, rfl⟩
  have hcursor : ∀ rows : List Message, ∃ k, nextCursor rows f.limit.toNat = .ok k := by
    intro rows
    unfold nextCursor
    split
    · next hlt =>
      obtain ⟨m, hm⟩ := exists_last (by have := h.limit.1; omega) hlt
      exact ⟨_, by rw [hm]; rfl⟩
    · exact ⟨_, rfl⟩
  simp only [listUserConversation, bind_ok, ensure_ok, pure_ok]
  obtain ⟨k, hk⟩ := hcursor _
  exact ⟨_, (), h.trusted, (), h.limit, after, hafter, (), h.project, k, hk, rfl⟩

/-- An answered walk that is not over has read a table for each page. -/
theorem readTables_length (hat : At cursor bound) (hanswered : ∀ f ∈ fetches, f.Opens c project)
    (hopen : (walkConversation rt c project b cursor fetches).2 = false) :
    (readTables rt c project b cursor fetches).length = fetches.length := by
  induction fetches generalizing b cursor bound with
  | nil => rfl
  | cons f rest ih =>
    obtain ⟨page, hpage⟩ := (hanswered f List.mem_cons_self).answered hat rt (run (next rt) b f.ops)
    obtain ⟨-, -, -, hmore, hcursor⟩ := listUserConversation_ok hat hpage
    unfold walkConversation at hopen
    unfold readTables
    simp only [hpage] at hopen ⊢
    split at hopen
    · next hlt =>
      rw [if_pos hlt, List.length_cons, List.length_cons]
      rw [hmore, decide_eq_true_eq] at hlt
      rw [ih (hcursor hlt) (fun g hg => hanswered g (List.mem_cons_of_mem f hg)) hopen]
    · cases hopen

end Walk

end AItelier.DriverInbox
