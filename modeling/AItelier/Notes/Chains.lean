import AItelier.Lib.Acyclic
import AItelier.Notes.Notebook

namespace AItelier.Notes

open AItelier.Lib AItelier.State Relation

variable {nb nb' : Notebook}

def Notebook.addresses (nb : Notebook) : List Address := nb.entries.map Entry.address

/-- The text points only at entries of its own notebook. -/
def Resolves (nb : Notebook) (projectId value : String) : Prop :=
  occursIn "dnote://" value = false ∧
    ∀ a ∈ referencedAddresses value, a.1 = projectId ∧ a ∈ nb.addresses

variable {a : Address} {p : String} {e : Entry} {f : Entry → Entry}

theorem lookup_isNone_iff :
    (lookup Entry.address nb.entries a).isNone = true ↔ a ∉ nb.addresses := by
  rw [Option.isNone_iff_eq_none, lookup_eq_none]
  simp [Notebook.addresses]

theorem unresolvedAddress_nil {p label : String} :
    unresolvedAddress nb p label a = [] ↔ a.1 = p ∧ a ∈ nb.addresses := by
  unfold unresolvedAddress
  by_cases hp : a.1 = p
  · by_cases hn : a ∈ nb.addresses
    · have hfound : ¬ (lookup Entry.address nb.entries a).isNone = true := by
        rw [lookup_isNone_iff]
        exact fun h => h hn
      simp [hp, hn, hfound]
    · have hlost := lookup_isNone_iff.mpr hn
      simp [hp, hn, hlost]
  · simp [hp]

/-- The check is quiet exactly where every text resolves. -/
theorem unresolved_nil {sources : List (String × String)} :
    unresolved nb p sources = [] ↔ ∀ s ∈ sources, Resolves nb p s.2 := by
  rw [unresolved, List.flatMap_eq_nil_iff]
  refine forall₂_congr fun s _ => ?_
  rw [List.append_eq_nil_iff, List.flatMap_eq_nil_iff, Resolves]
  refine and_congr ?_ (forall₂_congr fun a _ => unresolvedAddress_nil)
  by_cases h : occursIn "dnote://" s.2 = true <;> simp [h]

theorem Resolves.mono {p value : String} (hr : Resolves nb p value)
    (hsub : ∀ a ∈ nb.addresses, a ∈ nb'.addresses) : Resolves nb' p value :=
  ⟨hr.1, fun a ha => ⟨(hr.2 a ha).1, hsub a (hr.2 a ha).2⟩⟩

theorem finditer_spent {cs : List Char} {skip : Nat} (h : cs.length ≤ skip) : finditer skip cs = [] := by
  induction cs generalizing skip with
  | nil => cases skip <;> rfl
  | cons c cs ih =>
    cases skip with
    | zero => simp at h
    | succ skip => exact ih (by simpa using h)

theorem addressOf_toList (p e : String) :
    (addressOf (p, e)).toList = "note://".toList ++ (p.toList ++ '/' :: e.toList) := by
  simp [addressOf]

theorem isHex_take {e : String} (h : isHexOf 12 e = true) : e.toList.length = 12 ∧ e.toList.take 12 = e.toList := by
  have hl : e.toList.length = 12 := by
    simp only [isHexOf, isHexList, Bool.and_eq_true, decide_eq_true_eq] at h
    exact h.1
  exact ⟨hl, List.take_of_length_le (by omega)⟩

theorem matchAddress_addressOf {p e : String} (hp : isKey p = true) (he : isHexOf 12 e = true) :
    matchAddress (addressOf (p, e)).toList = some ((p, e), (addressOf (p, e)).toList.length) := by
  obtain ⟨hlen, htake⟩ := isHex_take he
  rw [addressOf_toList]
  unfold isKey at hp
  cases hcs : p.toList with
  | nil => simp [hcs] at hp
  | cons c rest =>
    simp only [hcs, Bool.and_eq_true, decide_eq_true_eq] at hp
    obtain ⟨⟨hc, hrest⟩, hlong⟩ := hp
    have hrun : (rest ++ '/' :: e.toList).takeWhile isKeyChar = rest := by
      rw [List.takeWhile_append_of_pos (fun x hx => List.all_eq_true.mp hrest x hx)]
      simp [isKeyChar, isAlnum]
    have hname : String.ofList (c :: rest) = p := by rw [← hcs, String.ofList_toList]
    have hhex : isHexList 12 e.toList = true := he
    have hdrop : ("note://".toList ++ (c :: rest ++ '/' :: e.toList)).drop 7 = c :: (rest ++ '/' :: e.toList) := rfl
    have hpre : "note://".toList.isPrefixOf ("note://".toList ++ (c :: rest ++ '/' :: e.toList)) = true := by
      simp
    unfold matchAddress
    rw [if_pos hpre, hdrop]
    simp only [hrun, List.drop_left, List.head?_cons, List.drop_succ_cons, List.drop_zero, htake]
    rw [if_pos ⟨hc, hlong, trivial, hhex⟩, hname, String.ofList_toList]
    simp [hlen]
    omega

theorem referencedAddresses_addressOf {p e : String} (hp : isKey p = true) (he : isHexOf 12 e = true) :
    referencedAddresses (addressOf (p, e)) = [(p, e)] := by
  have hm := matchAddress_addressOf hp he
  unfold referencedAddresses
  cases hcs : (addressOf (p, e)).toList with
  | nil =>
    rw [addressOf_toList] at hcs
    simp at hcs
  | cons c cs =>
    rw [hcs] at hm
    simp only [finditer, hm]
    rw [finditer_spent (by simp)]

theorem colon_not_mem {cs : List Char} (h : cs.all isKeyChar = true) : ':' ∉ cs := by
  intro hm
  have := List.all_eq_true.mp h ':' hm
  simp [isKeyChar, isAlnum] at this

theorem isKey_all (hp : isKey p = true) : p.toList.all isKeyChar = true := by
  unfold isKey at hp
  cases hcs : p.toList with
  | nil => rfl
  | cons c rest =>
    simp only [hcs, Bool.and_eq_true] at hp
    rw [List.all_cons, Bool.and_eq_true]
    exact ⟨by simp [isKeyChar, hp.1.1], hp.1.2⟩

theorem isHex_key {c : Char} (h : isHex c = true) : isKeyChar c = true := by
  simp only [isHex, isKeyChar, isAlnum, Bool.or_eq_true, Bool.and_eq_true, decide_eq_true_eq] at h ⊢
  rcases h with h | ⟨h, h'⟩
  · exact .inl (.inl (.inl (.inr h)))
  · exact .inl (.inl (.inl (.inl (.inl ⟨h, Char.le_trans h' (by decide)⟩))))

/-- The only colon of an address stands after `note`, too early for `dnote`. -/
theorem no_dnote_addressOf {p e : String} (hp : isKey p = true) (he : isHexOf 12 e = true) :
    occursIn "dnote://" (addressOf (p, e)) = false := by
  have hpc := colon_not_mem (isKey_all hp)
  have hec : ':' ∉ e.toList := by
    simp only [isHexOf, isHexList, Bool.and_eq_true] at he
    exact colon_not_mem (List.all_eq_true.mpr fun c hc => isHex_key (List.all_eq_true.mp he.2 c hc))
  by_contra hfound
  rw [Bool.not_eq_false, occursIn, List.any_eq_true] at hfound
  obtain ⟨t, ht, hpre⟩ := hfound
  obtain ⟨front, hfront⟩ := (List.mem_tails _ _).mp ht
  obtain ⟨back, rfl⟩ := List.isPrefixOf_iff_prefix.mp hpre
  rw [addressOf_toList] at hfront
  have hcolon : ':' ∈ (front ++ ("dnote://".toList ++ back)).drop 5 := by
    have hsplit : front ++ ("dnote://".toList ++ back) =
        (front ++ "dnote".toList) ++ (':' :: ('/' :: '/' :: back)) := by
      simp
    rw [hsplit, List.drop_append_of_le_length (by simp)]
    exact List.mem_append_right _ (List.mem_cons_self ..)
  rw [hfront] at hcolon
  have hrest : ("note://".toList ++ (p.toList ++ '/' :: e.toList)).drop 5 =
      '/' :: '/' :: (p.toList ++ '/' :: e.toList) := rfl
  rw [hrest] at hcolon
  simp [hpc, hec] at hcolon

theorem resolves_addressOf {p e : String} (hp : isKey p = true) (he : isHexOf 12 e = true)
    (hm : (p, e) ∈ nb.addresses) : Resolves nb p (addressOf (p, e)) := by
  refine ⟨no_dnote_addressOf hp he, ?_⟩
  rw [referencedAddresses_addressOf hp he]
  intro a ha
  rw [List.mem_singleton.mp ha]
  exact ⟨rfl, hm⟩

def Notebook.rank (nb : Notebook) (a : Address) : Nat := nb.addresses.idxOf a

/-- The addresses are distinct and well formed; a superseded entry points at a later
one of its project that nothing else points at; every text resolves. -/
structure Kept (nb : Notebook) : Prop where
  projects : ∀ p ∈ nb.projects, isKey p = true
  sections : nb.sections = []
  distinct : nb.addresses.Nodup
  keyed : ∀ e ∈ nb.entries, isKey e.projectId = true ∧ isHexOf 12 e.entryId = true
  later : ∀ e ∈ nb.entries, ∀ s, e.supersededBy = some s →
    (e.projectId, s) ∈ nb.addresses ∧ nb.rank e.address < nb.rank (e.projectId, s)
  single : ∀ e ∈ nb.entries, ∀ e' ∈ nb.entries, ∀ s, e.supersededBy = some s → e'.supersededBy = some s →
    e.projectId = e'.projectId → e = e'
  resolves : ∀ e ∈ nb.entries, Resolves nb e.projectId e.assertion ∧ Resolves nb e.projectId e.body

theorem Kept.empty : Kept empty :=
  ⟨by simp [Notes.empty], rfl, List.nodup_nil, by simp [Notes.empty], by simp [Notes.empty],
    by simp [Notes.empty], by simp [Notes.empty]⟩

theorem Kept.opened (h : Kept nb) {ps : List String} (hps : ∀ p ∈ ps, p ∈ nb.projects ∨ isKey p = true) :
    Kept { nb with projects := ps } :=
  ⟨fun p hp => (hps p hp).elim (h.projects p) id, h.sections, h.distinct, h.keyed, h.later, h.single, h.resolves⟩

/-- A row is new, current and resolves. -/
structure Fresh (nb : Notebook) (e : Entry) : Prop where
  new : e.address ∉ nb.addresses
  keyed : isKey e.projectId = true ∧ isHexOf 12 e.entryId = true
  current : e.supersededBy = none
  resolves : Resolves nb e.projectId e.assertion ∧ Resolves nb e.projectId e.body

def Notebook.push (nb : Notebook) (e : Entry) : Notebook := { nb with entries := nb.entries ++ [e] }

theorem push_addresses (nb : Notebook) (e : Entry) : (nb.push e).addresses = nb.addresses ++ [e.address] := by
  simp [Notebook.push, Notebook.addresses]

theorem rank_push (ha : a ∈ nb.addresses) : (nb.push e).rank a = nb.rank a := by
  rw [Notebook.rank, push_addresses, List.idxOf_append_of_mem ha, Notebook.rank]

theorem rank_push_self (hnew : e.address ∉ nb.addresses) :
    (nb.push e).rank e.address = nb.addresses.length := by
  rw [Notebook.rank, push_addresses, List.idxOf_append_of_notMem hnew]
  simp

theorem Kept.push (h : Kept nb) (he : Fresh nb e) : Kept (nb.push e) := by
  have hsub : ∀ a ∈ nb.addresses, a ∈ (nb.push e).addresses := by
    intro a ha
    rw [push_addresses]
    exact List.mem_append_left _ ha
  have hmem : ∀ {r}, r ∈ (nb.push e).entries → r ∈ nb.entries ∨ r = e := by
    intro r hr
    simpa [Notebook.push] using hr
  refine ⟨h.projects, h.sections, ?_, ?_, ?_, ?_, ?_⟩
  · rw [push_addresses]
    exact List.nodup_append.mpr ⟨h.distinct, List.nodup_singleton _, fun a ha b hb hab =>
      he.new (List.mem_singleton.mp hb ▸ hab ▸ ha)⟩
  · intro r hr
    rcases hmem hr with hr | rfl
    · exact h.keyed r hr
    · exact he.keyed
  · intro r hr s hs
    rcases hmem hr with hr | rfl
    · obtain ⟨hin, hlt⟩ := h.later r hr s hs
      refine ⟨hsub _ hin, ?_⟩
      rwa [rank_push (List.mem_map_of_mem hr), rank_push hin]
    · rw [he.current] at hs
      cases hs
  · intro r hr r' hr' s hs hs' hp
    rcases hmem hr with hr | rfl
    · rcases hmem hr' with hr' | rfl
      · exact h.single r hr r' hr' s hs hs' hp
      · rw [he.current] at hs'
        cases hs'
    · rw [he.current] at hs
      cases hs
  · intro r hr
    rcases hmem hr with hr | rfl
    · exact ⟨(h.resolves r hr).1.mono hsub, (h.resolves r hr).2.mono hsub⟩
    · exact ⟨he.resolves.1.mono hsub, he.resolves.2.mono hsub⟩

/-- The columns an amendment leaves alone. -/
structure Amends (f : Entry → Entry) : Prop where
  address : ∀ e, (f e).address = e.address
  texts : ∀ e, (f e).assertion = e.assertion ∧ (f e).body = e.body

theorem amend_addresses (hf : Amends f) (nb : Notebook) (a : Address) :
    (amend nb a f).addresses = nb.addresses :=
  map_modifyWhere (fun e _ => hf.address e) _

/-- A row after an amendment. -/
def amended (a : Address) (f : Entry → Entry) (e : Entry) : Entry := if e.address = a then f e else e

theorem amend_entries {r : Entry} (hr : r ∈ (amend nb a f).entries) :
    ∃ e ∈ nb.entries, r = amended a f e := by
  obtain ⟨e, he, rfl⟩ := mem_modifyWhere.mp hr
  exact ⟨e, he, by simp [amended]⟩

theorem amended_keeps (hf : Amends f) (a : Address) (e : Entry) :
    (amended a f e).address = e.address ∧ (amended a f e).assertion = e.assertion ∧
      (amended a f e).body = e.body := by
  unfold amended
  split
  · exact ⟨hf.address e, hf.texts e⟩
  · exact ⟨rfl, rfl, rfl⟩

/-- The link of `e` may be set to `s`: a later entry of its project that nothing points
at yet. -/
def Linkable (nb : Notebook) (e : Entry) (s : String) : Prop :=
  (e.projectId, s) ∈ nb.addresses ∧ nb.rank e.address < nb.rank (e.projectId, s) ∧
    ∀ e' ∈ nb.entries, e'.projectId = e.projectId → e'.supersededBy ≠ some s

theorem Kept.amend (h : Kept nb) (hf : Amends f)
    (hlink : ∀ e ∈ nb.entries, e.address = a → (f e).supersededBy = e.supersededBy ∨
      ∃ s, (f e).supersededBy = some s ∧ Linkable nb e s) : Kept (amend nb a f) := by
  have haddr := amend_addresses hf nb a
  have hrank : (Notes.amend nb a f).rank = nb.rank := by
    funext b
    rw [Notebook.rank, haddr, Notebook.rank]
  have hsame : ∀ e, (amended a f e).projectId = e.projectId ∧ (amended a f e).entryId = e.entryId := by
    intro e
    have := (amended_keeps hf a e).1
    exact ⟨congrArg Prod.fst this, congrArg Prod.snd this⟩
  -- a link after the amendment is the one before, or the new one at `a`
  have hcases : ∀ e ∈ nb.entries, ∀ s, (amended a f e).supersededBy = some s →
      e.supersededBy = some s ∨ (e.address = a ∧ Linkable nb e s) := by
    intro e he s hs
    by_cases hea : e.address = a
    · rw [amended, if_pos hea] at hs
      rcases hlink e he hea with hold | ⟨s', hs', hok⟩
      · exact .inl (hold ▸ hs)
      · obtain rfl : s' = s := Option.some.inj (hs'.symm.trans hs)
        exact .inr ⟨hea, hok⟩
    · rw [amended, if_neg hea] at hs
      exact .inl hs
  refine ⟨h.projects, h.sections, by rw [haddr]; exact h.distinct, ?_, ?_, ?_, ?_⟩
  · intro r hr
    obtain ⟨e, he, rfl⟩ := amend_entries hr
    rw [(hsame e).1, (hsame e).2]
    exact h.keyed e he
  · intro r hr s hs
    obtain ⟨e, he, rfl⟩ := amend_entries hr
    rw [(hsame e).1, haddr, hrank, (amended_keeps hf a e).1]
    rcases hcases e he s hs with hold | ⟨-, hin, hlt, -⟩
    · exact h.later e he s hold
    · exact ⟨hin, hlt⟩
  · intro r hr r' hr' s hs hs' hp
    obtain ⟨e, he, rfl⟩ := amend_entries hr
    obtain ⟨e', he', rfl⟩ := amend_entries hr'
    rw [(hsame e).1, (hsame e').1] at hp
    have hee : e = e' := by
      rcases hcases e he s hs with hold | ⟨hea, -, -, hfree⟩
      · rcases hcases e' he' s hs' with hold' | ⟨-, -, -, hfree'⟩
        · exact h.single e he e' he' s hold hold' hp
        · exact (hfree' e he hp hold).elim
      · rcases hcases e' he' s hs' with hold' | ⟨hea', -⟩
        · exact (hfree e' he' hp.symm hold').elim
        · exact List.inj_on_of_nodup_map h.distinct he he' (hea.trans hea'.symm)
    rw [hee]
  · intro r hr
    obtain ⟨e, he, rfl⟩ := amend_entries hr
    obtain ⟨-, hassert, hbody⟩ := amended_keeps hf a e
    rw [(hsame e).1, hassert, hbody]
    have hsub : ∀ b ∈ nb.addresses, b ∈ (Notes.amend nb a f).addresses := fun b hb => haddr ▸ hb
    exact ⟨(h.resolves e he).1.mono hsub, (h.resolves e he).2.mono hsub⟩

theorem key_ok {value label out : String} : key value label = .ok out ↔ isKey value = true ∧ value = out := by
  simp only [key, bind_ok, ensure_ok, pure_ok]
  constructor
  · rintro ⟨_, hk, he⟩
    exact ⟨hk, he⟩
  · rintro ⟨hk, he⟩
    exact ⟨(), hk, he⟩

theorem entry_ok (h : entry nb a = .ok e) : e ∈ nb.entries ∧ e.address = a := by
  rw [entry, orElse_ok] at h
  exact ⟨lookup_mem h, lookup_key h⟩

theorem insertEntry_ok (hp : isKey p = true) {d : Draft} {actor : String} {id : EntryId} {now : Stamp}
    (h : insertEntry nb p d actor id now = .ok nb') :
    ∃ e, e.address = (p, id.text) ∧ Fresh nb e ∧ nb' = nb.push e := by
  simp only [insertEntry, bind_ok, ensure_ok, pure_ok] at h
  obtain ⟨-, -, -, hquiet, -, hnew, rfl⟩ := h
  have hres := unresolved_nil.mp hquiet
  refine ⟨⟨p, id.text, d.assertion, d.body, d.force, d.landed, .listed, none, "", "", actor, d.directorIdentity,
    now, now⟩, rfl, ⟨hnew, ⟨hp, id.hex⟩, rfl, ?_⟩, rfl⟩
  exact ⟨hres ("assertion", d.assertion) (by simp), hres ("body", d.body) (by simp)⟩

/-- What each call that goes through does to the notebooks. -/
theorem step_cases (nb : Notebook) (op : Op) :
    (∃ ps, (∀ p ∈ ps, p ∈ nb.projects ∨ isKey p = true) ∧ step nb op = { nb with projects := ps }) ∨
    (∃ e, Fresh nb e ∧ step nb op = nb.push e) ∨
    (∃ old ∈ nb.entries, ∃ e, Fresh nb e ∧ old.supersededBy = none ∧ e.projectId = old.projectId ∧
      ∃ reason now, step nb op = amend (nb.push e) old.address fun r =>
        { r with supersededBy := some e.entryId, supersedeReason := reason, updatedAt := now }) ∨
    (∃ a reason now, step nb op = amend nb a fun r =>
      { r with listing := .delisted, delistReason := reason, updatedAt := now }) := by
  cases op with
  | project id =>
    rw [step]
    split
    · next hk =>
      refine .inl ⟨nb.projects ++ [id], ?_, rfl⟩
      intro p hp
      rcases List.mem_append.mp hp with hp | hp
      · exact .inl hp
      · exact .inr (List.mem_singleton.mp hp ▸ hk)
    · exact .inl ⟨nb.projects, fun _ hp => .inl hp, rfl⟩
  | write p d actor id now =>
    cases hw : writeEntry nb p d actor id now with
    | error err => exact .inl ⟨nb.projects, fun _ hp => .inl hp, by simp [step, hw, Except.map, Except.toOption]⟩
    | ok out =>
      obtain ⟨answer, nb'⟩ := out
      have hstep : step nb (.write p d actor id now) = nb' := by
        simp [step, hw, Except.map, Except.toOption]
      simp only [writeEntry, bind_ok, pure_ok, Prod.mk.injEq] at hw
      obtain ⟨q, hq, d', -, -, -, nb'', hi, row, -, -, rfl⟩ := hw
      obtain ⟨hk, rfl⟩ := key_ok.mp hq
      obtain ⟨e, -, hfresh, rfl⟩ := insertEntry_ok hk hi
      exact .inr (.inl ⟨e, hfresh, hstep⟩)
  | supersede p eid d reason actor id now =>
    cases hw : supersedeEntry nb p eid d reason actor id now with
    | error err => exact .inl ⟨nb.projects, fun _ hp => .inl hp, by simp [step, hw, Except.map, Except.toOption]⟩
    | ok out =>
      obtain ⟨answer, nb'⟩ := out
      have hstep : step nb (.supersede p eid d reason actor id now) = nb' := by
        simp [step, hw, Except.map, Except.toOption]
      simp only [supersedeEntry, bind_ok, ensure_ok, pure_ok, Prod.mk.injEq] at hw
      obtain ⟨q, hq, eid', -, reason', -, d', -, -, -, old, hold, -, hcurrent, nb'', hi, -, -, -, -, -, rfl⟩ := hw
      obtain ⟨hk, rfl⟩ := key_ok.mp hq
      obtain ⟨e, he, hfresh, rfl⟩ := insertEntry_ok hk hi
      obtain ⟨hmem, haddr⟩ := entry_ok hold
      have hid : e.entryId = id.text := congrArg Prod.snd he
      refine .inr (.inr (.inl ⟨old, hmem, e, hfresh, hcurrent, ?_, reason', now, ?_⟩))
      · exact (congrArg Prod.fst he).trans (congrArg Prod.fst haddr).symm
      · rw [hstep, haddr, hid]
  | delist p eid reason director now =>
    cases hw : delistEntry nb p eid reason director now with
    | error err => exact .inl ⟨nb.projects, fun _ hp => .inl hp, by simp [step, hw, Except.map, Except.toOption]⟩
    | ok out =>
      obtain ⟨answer, nb'⟩ := out
      have hstep : step nb (.delist p eid reason director now) = nb' := by
        simp [step, hw, Except.map, Except.toOption]
      simp only [delistEntry, bind_ok, ensure_ok, pure_ok, Prod.mk.injEq] at hw
      obtain ⟨q, -, eid', -, reason', -, -, -, -, -, -, -, -, -, -, -, -, rfl⟩ := hw
      exact .inr (.inr (.inr ⟨_, reason', now, hstep⟩))

theorem step_kept (op : Op) (h : Kept nb) : Kept (step nb op) := by
  obtain ⟨ps, hps, hs⟩ | ⟨e, he, hs⟩ | ⟨old, hold, e, he, hcur, hp, reason, now, hs⟩ | ⟨a, reason, now, hs⟩ :=
    step_cases nb op
  · rw [hs]
    exact h.opened hps
  · rw [hs]
    exact h.push he
  · rw [hs]
    refine Kept.amend (h.push he) ?_ ?_
    · exact ⟨fun _ => rfl, fun _ => ⟨rfl, rfl⟩⟩
    intro r hr hra
    refine .inr ⟨e.entryId, rfl, ?_⟩
    have hrp : r.projectId = old.projectId := congrArg Prod.fst hra
    have hre : (r.projectId, e.entryId) = e.address := by rw [hrp, ← hp]; rfl
    have hin : old.address ∈ nb.addresses := List.mem_map_of_mem hold
    rw [Linkable, hre, hra]
    refine ⟨by simp [push_addresses], ?_, ?_⟩
    · rw [rank_push hin, rank_push_self he.new]
      exact List.idxOf_lt_length_of_mem hin
    · intro r' hr' hrp' hlink
      -- the old links lead to old addresses, and the new entry has none
      rcases List.mem_append.mp hr' with hr' | hr'
      · have := (h.later r' hr' _ hlink).1
        rw [hrp', hre] at this
        exact he.new this
      · rw [List.mem_singleton.mp hr', he.current] at hlink
        cases hlink
  · rw [hs]
    refine Kept.amend h ?_ ?_
    · exact ⟨fun _ => rfl, fun _ => ⟨rfl, rfl⟩⟩
    intro r _ _
    exact .inl rfl

theorem after_kept (ops : List Op) : Kept (after ops) := by
  have hall : Along (fun _ _ => True) step empty ops := along_of (fun _ _ => trivial) _ _
  exact run_invariant (fun _ op h _ => step_kept op h) Kept.empty hall

/-- What supersedes the entry at an address. -/
def Notebook.successor (nb : Notebook) (a : Address) : Option Address :=
  (lookup Entry.address nb.entries a).bind fun e => e.supersededBy.map fun s => (e.projectId, s)

theorem successor_some {a b : Address} (h : nb.successor a = some b) :
    ∃ e ∈ nb.entries, e.address = a ∧ ∃ s, e.supersededBy = some s ∧ b = (e.projectId, s) := by
  rw [Notebook.successor, Option.bind_eq_some_iff] at h
  obtain ⟨e, he, hb⟩ := h
  obtain ⟨s, hs, rfl⟩ := Option.map_eq_some_iff.mp hb
  exact ⟨e, lookup_mem he, lookup_key he, s, hs, rfl⟩

theorem Kept.successor_later (h : Kept nb) {a b : Address} (hab : nb.successor a = some b) :
    nb.rank a < nb.rank b ∧ nb.rank b < nb.addresses.length := by
  obtain ⟨e, he, rfl, s, hs, rfl⟩ := successor_some hab
  obtain ⟨hin, hlt⟩ := h.later e he s hs
  exact ⟨hlt, List.idxOf_lt_length_of_mem hin⟩

theorem Kept.successor_in (h : Kept nb) {a b : Address} (hab : nb.successor a = some b) : b ∈ nb.addresses := by
  obtain ⟨e, he, rfl, s, hs, rfl⟩ := successor_some hab
  exact (h.later e he s hs).1

theorem Kept.current_of_end (h : Kept nb) (ha : a ∈ nb.addresses) (hend : nb.successor a = none) :
    ∃ e ∈ nb.entries, e.address = a ∧ e.supersededBy = none := by
  obtain ⟨e, he, rfl⟩ := List.mem_map.mp ha
  refine ⟨e, he, rfl, ?_⟩
  rw [Notebook.successor, lookup_of_mem h.distinct he] at hend
  simpa using hend

theorem Kept.end_of_current (h : Kept nb) (he : e ∈ nb.entries) (hcur : e.supersededBy = none) :
    nb.successor e.address = none := by
  rw [Notebook.successor, lookup_of_mem h.distinct he]
  simp [hcur]

theorem Kept.reach_in (h : Kept nb) {a b : Address} (ha : a ∈ nb.addresses)
    (hab : ReflTransGen (Points nb.successor) a b) : b ∈ nb.addresses := by
  induction hab with
  | refl => exact ha
  | tail _ hbc _ => exact h.successor_in hbc

theorem Kept.ends (h : Kept nb) (he : e ∈ nb.entries) :
    ∃! z, ReflTransGen (Points nb.successor) e.address z.address ∧ z ∈ nb.entries ∧ z.supersededBy = none := by
  have hin : e.address ∈ nb.addresses := List.mem_map_of_mem he
  obtain ⟨a, ⟨hreach, hend⟩, huniq⟩ := points_end (fun _ _ => h.successor_later) e.address
  obtain ⟨z, hz, rfl, hcur⟩ := h.current_of_end (h.reach_in hin hreach) hend
  refine ⟨z, ⟨hreach, hz, hcur⟩, ?_⟩
  rintro y ⟨hy, hym, hycur⟩
  exact List.inj_on_of_nodup_map h.distinct hym hz (huniq y.address ⟨hy, h.end_of_current hym hycur⟩)

/-- The check finds nothing in a kept notebook. -/
theorem Kept.quiet (h : Kept nb) (p : String) : unresolved nb p (indexSources nb p) = [] := by
  rw [unresolved_nil]
  intro src hsrc
  rw [indexSources, h.sections, lookup_nil, Option.toList_none, List.flatMap_nil, List.nil_append,
    List.mem_flatMap] at hsrc
  obtain ⟨e, he, hsrc⟩ := hsrc
  obtain ⟨hin, hp⟩ := List.mem_filter.mp (List.mem_mergeSort.mp he)
  obtain rfl : e.projectId = p := of_decide_eq_true hp
  simp only [entrySources, List.mem_append, List.mem_cons, List.not_mem_nil, or_false, List.mem_map,
    Option.mem_toList] at hsrc
  rcases hsrc with (rfl | rfl) | ⟨s, hs, rfl⟩
  · exact (h.resolves e hin).1
  · exact (h.resolves e hin).2
  · have htarget := (h.later e hin s hs).1
    obtain ⟨t, ht, hta⟩ := List.mem_map.mp htarget
    have hts : t.entryId = s := congrArg Prod.snd hta
    have hhex : isHexOf 12 s = true := hts ▸ (h.keyed t ht).2
    exact resolves_addressOf (h.keyed e hin).1 hhex htarget

theorem sumOf_eq (rows : List Entry) (q : Entry → Bool) : sumOf rows q = (rows.filter q).length := by
  rw [← List.countP_eq_length_filter]
  induction rows with
  | nil => rfl
  | cons e rows ih =>
    rw [sumOf] at ih ⊢
    by_cases hq : q e = true
    · simp [hq, ih]; omega
    · simp [hq, ih]

/-- The entries of a project's notebook in a class. -/
def inClass (nb : Notebook) (p : String) (q : Entry → Bool) : Nat :=
  (nb.entries.filter fun e => decide (e.projectId = p) && q e).length

theorem sumOf_entriesOf (nb : Notebook) (p : String) (q : Entry → Bool) :
    sumOf (entriesOf nb p) q = inClass nb p q := by
  rw [sumOf_eq, entriesOf, List.filter_filter, inClass]
  congr 2
  funext e
  exact Bool.and_comm ..

theorem indexRows_length (nb : Notebook) (p : String) (superseded delisted : Bool) :
    (indexRows nb p superseded delisted).length = inClass nb p (visible superseded delisted) := by
  rw [indexRows, List.length_mergeSort, ← sumOf_eq, sumOf_entriesOf]

/-- The counts are the sizes of the classes, and an entry is listed or delisted. -/
theorem counts_eq (nb : Notebook) (p : String) :
    counts nb p = ⟨inClass nb p fun _ => true, inClass nb p fun e => e.listing = .listed,
      inClass nb p fun e => e.listing = .delisted, inClass nb p fun e => e.supersededBy ≠ none⟩ ∧
    (counts nb p).entryCount = (counts nb p).listedCount + (counts nb p).delistedCount := by
  constructor
  · simp only [counts, sumOf_entriesOf, Counts.mk.injEq, and_true]
    simp [entriesOf, inClass]
  · simp only [counts]
    induction entriesOf nb p with
    | nil => rfl
    | cons e rows ih =>
      simp only [sumOf, List.length_cons, List.map_cons, List.sum_cons] at ih ⊢
      obtain hl | hl : e.listing = .listed ∨ e.listing = .delisted := by
        rcases e.listing with _ | _ <;> simp
      · simp only [hl, decide_true, if_true, reduceCtorEq, decide_false, Bool.false_eq_true, if_false]
        omega
      · simp only [hl, decide_true, if_true, reduceCtorEq, decide_false, Bool.false_eq_true, if_false]
        omega

theorem checkIndex_kept (h : Kept nb) (hp : p ∈ nb.projects) :
    ∃ report, checkIndex nb p = .ok report ∧ report.ok = true ∧ report.dangling = [] ∧
      report.counts = counts nb p := by
  have hquiet := h.quiet p
  refine ⟨⟨true, ((indexSources nb p).map fun s => (referencedAddresses s.2).length).sum, [], counts nb p⟩, ?_,
    rfl, rfl, rfl⟩
  simp only [checkIndex, bind_ok, pure_ok]
  exact ⟨p, key_ok.mpr ⟨h.projects p hp, rfl⟩, (), by simp [entity, ensure, hp], by rw [hquiet]; rfl⟩

/-- The counts every write answers with are those of the notebook it leaves. -/
theorem answers_counts {nb' : Notebook} :
    (∀ p d actor id now row cat, writeEntry nb p d actor id now = .ok ((row, cat), nb') →
      cat = ⟨counts nb' p, inClass nb' p (visible false false)⟩) ∧
    (∀ p e d reason actor id now old new cat,
      supersedeEntry nb p e d reason actor id now = .ok ((old, new, cat), nb') →
      cat = ⟨counts nb' p, inClass nb' p (visible false false)⟩) ∧
    (∀ p e reason director now row cat, delistEntry nb p e reason director now = .ok ((row, cat), nb') →
      cat = ⟨counts nb' p, inClass nb' p (visible false false)⟩) := by
  have hcat : ∀ nb p, catalogueCounts nb p = ⟨counts nb p, inClass nb p (visible false false)⟩ := by
    intro nb p
    rw [catalogueCounts, sumOf_entriesOf]
  refine ⟨?_, ?_, ?_⟩
  · intro p d actor id now row cat hw
    simp only [writeEntry, bind_ok, pure_ok, Prod.mk.injEq] at hw
    obtain ⟨q, hq, -, -, -, -, nb'', -, -, -, ⟨-, rfl⟩, rfl⟩ := hw
    rw [hcat, (key_ok.mp hq).2]
  · intro p e d reason actor id now old new cat hw
    simp only [supersedeEntry, bind_ok, pure_ok, Prod.mk.injEq] at hw
    obtain ⟨q, hq, -, -, -, -, -, -, -, -, -, -, -, -, nb'', -, -, -, -, -, ⟨-, -, rfl⟩, rfl⟩ := hw
    rw [hcat, (key_ok.mp hq).2]
  · intro p e reason director now row cat hw
    simp only [delistEntry, bind_ok, pure_ok, Prod.mk.injEq] at hw
    obtain ⟨q, hq, -, -, -, -, -, -, -, -, -, -, -, -, -, -, ⟨-, rfl⟩, rfl⟩ := hw
    rw [hcat, (key_ok.mp hq).2]

/-- In every notebook written by adding, superseding and delisting entries:
`superseded_by` is injective, stays inside the project and has no cycle, so that
following it from any entry ends in exactly one current entry; the index check of
every project is answered and reports nothing; and the counts that reads and writes
answer with are the sizes of the classes. -/
theorem notebook_chains (ops : List Op) :
    (∀ e ∈ (after ops).entries, ∀ e' ∈ (after ops).entries, ∀ s, e.supersededBy = some s →
      e'.supersededBy = some s → e.projectId = e'.projectId → e = e') ∧
    (∀ e ∈ (after ops).entries, ∀ s, e.supersededBy = some s →
      ∃ t ∈ (after ops).entries, t.projectId = e.projectId ∧ t.entryId = s) ∧
    Acyclic (Points (after ops).successor) ∧
    (∀ e ∈ (after ops).entries, ∃! z, ReflTransGen (Points (after ops).successor) e.address z.address ∧
      z ∈ (after ops).entries ∧ z.supersededBy = none) ∧
    (∀ p ∈ (after ops).projects, ∃ report, checkIndex (after ops) p = .ok report ∧ report.ok = true ∧
      report.dangling = [] ∧ report.counts = counts (after ops) p) ∧
    (∀ p, counts (after ops) p = ⟨inClass (after ops) p fun _ => true,
        inClass (after ops) p fun e => e.listing = .listed, inClass (after ops) p fun e => e.listing = .delisted,
        inClass (after ops) p fun e => e.supersededBy ≠ none⟩ ∧
      (counts (after ops) p).entryCount = (counts (after ops) p).listedCount + (counts (after ops) p).delistedCount) ∧
    (∀ p superseded delisted index, get (after ops) p superseded delisted = .ok index →
      index.counts = counts (after ops) p ∧
      index.indexCount = inClass (after ops) p (visible superseded delisted) ∧
      index.index.length = index.indexCount) ∧
    (∀ p delisted limit superseded page, entryIndex (after ops) p delisted limit superseded = .ok page →
      page.counts = counts (after ops) p ∧ page.entries.length = page.indexCount ∧
      page.indexCount = min limit.toNat (inClass (after ops) p (visible superseded delisted)) ∧
      (page.truncated = true ↔ limit.toNat < inClass (after ops) p (visible superseded delisted))) ∧
    (∀ p d actor id now row cat nb', writeEntry (after ops) p d actor id now = .ok ((row, cat), nb') →
      cat = ⟨counts nb' p, inClass nb' p (visible false false)⟩) ∧
    (∀ p e d reason actor id now old new cat nb',
      supersedeEntry (after ops) p e d reason actor id now = .ok ((old, new, cat), nb') →
      cat = ⟨counts nb' p, inClass nb' p (visible false false)⟩) ∧
    (∀ p e reason director now row cat nb',
      delistEntry (after ops) p e reason director now = .ok ((row, cat), nb') →
      cat = ⟨counts nb' p, inClass nb' p (visible false false)⟩) := by
  have h := after_kept ops
  refine ⟨h.single, ?_, points_acyclic fun a b hab => (h.successor_later hab).1, fun e he => h.ends he,
    fun p hp => checkIndex_kept h hp, fun p => counts_eq _ p, ?_, ?_, ?_, ?_, ?_⟩
  · intro e he s hs
    obtain ⟨t, ht, hta⟩ := List.mem_map.mp (h.later e he s hs).1
    exact ⟨t, ht, congrArg Prod.fst hta, congrArg Prod.snd hta⟩
  · intro p superseded delisted index hi
    simp only [get, bind_ok, pure_ok] at hi
    obtain ⟨q, hq, -, -, rfl⟩ := hi
    obtain ⟨-, rfl⟩ := key_ok.mp hq
    exact ⟨rfl, indexRows_length .., by simp [indexProjection]⟩
  · intro p delisted limit superseded page hi
    simp only [entryIndex, bind_ok, pure_ok] at hi
    obtain ⟨q, hq, -, -, -, -, rfl⟩ := hi
    obtain ⟨-, rfl⟩ := key_ok.mp hq
    refine ⟨rfl, rfl, ?_, ?_⟩
    · simp only [List.length_take, indexRows_length]
      omega
    · simp only [List.length_take, indexRows_length, decide_eq_true_eq]
      omega
  · intro p d actor id now row cat nb' hw
    exact answers_counts.1 p d actor id now row cat hw
  · intro p e d reason actor id now old new cat nb' hw
    exact answers_counts.2.1 p e d reason actor id now old new cat hw
  · intro p e reason director now row cat nb' hw
    exact answers_counts.2.2 p e reason director now row cat hw

end AItelier.Notes
