import AItelier.Seeds.Publication

namespace AItelier.Seeds

open AItelier.Lib

section Texts

/-- A text comes back as it was written exactly when no carriage return is in it. -/
theorem readText_eq_self {text : String} : readText text = text ↔ '\r' ∉ text.toList := by
  constructor
  · intro h hmem
    rw [← h, readText, String.toList_ofList] at hmem
    exact cr_not_mem_universal _ hmem
  · intro h
    rw [readText, universal_eq_self h, String.ofList_toList]

theorem cr_not_mem_readText (text : String) : '\r' ∉ (readText text).toList := by
  rw [readText, String.toList_ofList]
  exact cr_not_mem_universal _

end Texts

variable {β : Type} {host : Host β} {d : Dir β} {m : Marker β} {q q' : Request β}
  {names done : List String} {got got' : List (String × String)}

/-- No name leads out of the directory, or to the marker. -/
def Plain (q : Request β) : Prop := ∀ e ∈ q.files, place e.1 ≠ .outside ∧ place e.1 ≠ .inside MARKER

/-- What is asked for comes back as it was given. -/
structure Readable (host : Host β) (q : Request β) : Prop where
  ends : ∀ e ∈ q.files, '\r' ∉ e.2.toList
  single : ∀ e ∈ q.files, ∀ e' ∈ q.files, place e.1 = place e'.1 → e.2 = e'.2
  bundle : ∀ b ∈ q.reviewInputBundle, host.truthy b = true

/-- The same files and the same bundle. -/
def Same (q q' : Request β) : Prop :=
  (∀ name, q.files.get name = q'.files.get name) ∧ q.reviewInputBundle = q'.reviewInputBundle

/-- The directory is what a call for `q` stages. -/
def Of (host : Host β) (q : Request β) (d : Dir β) : Prop :=
  (∃ generation, d = staged host q (q.files.foldl write []) generation) ∧
    ∀ e ∈ q.files, ∃ part, place e.1 = .inside part

/-- What was read of the files of `d`, name by name. -/
def Reads (host : Host β) (d : Dir β) : List String → List (String × String) → Prop :=
  List.Forall₂ (fun name e => e.1 = name ∧ ∃ text, d.text? host name = some text ∧ e.2 = readText text)

/-- What is read back is what `q` asks for. -/
def Matches (host : Host β) (q : Request β) (d : Dir β) (m : Marker β) : Prop :=
  ∃ got, Reads host d m.files got ∧ Entries.Agree got q.files ∧ m.reviewInputBundle = q.reviewInputBundle

section Contents

theorem foldl_write_mem {files acc : Entries String String} {part text : String}
    (h : (files.foldl write acc).get part = some text) :
    acc.get part = some text ∨ ∃ e ∈ files, place e.1 = .inside part ∧ e.2 = text := by
  induction files generalizing acc with
  | nil => exact .inl h
  | cons e files ih =>
    rcases ih h with hacc | ⟨e', he', hplace, htext⟩
    · unfold write at hacc
      split at hacc
      · next part' hplace =>
        rw [Entries.get_set] at hacc
        split_ifs at hacc with hp
        · exact .inr ⟨e, List.mem_cons_self, hp ▸ hplace, Option.some.inj hacc⟩
        · exact .inl hacc
      · exact .inl hacc
    · exact .inr ⟨e', List.mem_cons_of_mem e he', hplace, htext⟩

theorem foldl_write_isSome {files acc : Entries String String} {part : String}
    (h : (acc.get part).isSome ∨ ∃ e ∈ files, place e.1 = .inside part) :
    ((files.foldl write acc).get part).isSome := by
  induction files generalizing acc with
  | nil =>
    rcases h with h | ⟨e, he, _⟩
    · exact h
    · cases he
  | cons e files ih =>
    apply ih
    by_cases hplace : place e.1 = .inside part
    · left
      rw [write, hplace]
      dsimp only
      rw [Entries.get_set_same]
      rfl
    · rcases h with h | ⟨e', he', hplace'⟩
      · left
        unfold write
        split
        · next part' hpart =>
          rw [Entries.get_set_other (fun he : part' = part => hplace (he ▸ hpart))]
          exact h
        · exact h
      · rcases List.mem_cons.mp he' with rfl | he'
        · exact (hplace hplace').elim
        · exact .inr ⟨e', he', hplace'⟩

theorem Of.text (h : Of host q d) (hplain : Plain q) {e : String × String} (he : e ∈ q.files) :
    ∃ e' ∈ q.files, place e'.1 = place e.1 ∧ d.text? host e.1 = some e'.2 := by
  obtain ⟨⟨generation, rfl⟩, hinside⟩ := h
  obtain ⟨part, hpart⟩ := hinside e he
  have hmarker : MARKER ≠ part := fun hm => (hplain e he).2 (hm ▸ hpart)
  have hsome : ((q.files.foldl write []).get part).isSome :=
    foldl_write_isSome (.inr ⟨e, he, hpart⟩)
  obtain ⟨text, htext⟩ := Option.isSome_iff_exists.mp hsome
  rcases foldl_write_mem htext with hnil | ⟨e', he', hplace, rfl⟩
  · cases hnil
  · refine ⟨e', he', hplace.trans hpart.symm, ?_⟩
    rw [Dir.text?, hpart]
    dsimp only
    rw [if_neg hmarker.symm, staged, Entries.get_del_other hmarker]
    exact htext

theorem Of.marker (h : Of host q d) : ∃ m, d.marker = some m ∧
    (∀ name, name ∈ m.files ↔ name ∈ q.files.map Prod.fst) ∧
      m.reviewInputBundle = q.reviewInputBundle.filter host.truthy := by
  obtain ⟨⟨generation, rfl⟩, _⟩ := h
  exact ⟨_, rfl, fun name => (List.perm_insertionSort _ _).mem_iff, rfl⟩

theorem Reads.unique (h : Reads host d names got) (h' : Reads host d names got') : got = got' := by
  induction h generalizing got' with
  | nil => cases h'; rfl
  | cons he h ih =>
    cases h' with
    | cons he' h' =>
      obtain ⟨hname, text, htext, hread⟩ := he
      obtain ⟨hname', text', htext', hread'⟩ := he'
      rw [htext] at htext'
      obtain rfl := Option.some.inj htext'
      rw [ih h', Prod.ext (hname.trans hname'.symm) (hread.trans hread'.symm)]

theorem Reads.get (h : Reads host d names got) (name : String) :
    Entries.get got name = if name ∈ names then (d.text? host name).map readText else none := by
  induction h with
  | nil => rfl
  | cons he h ih =>
    next n e names got =>
    obtain ⟨hname, text, htext, hread⟩ := he
    rw [Entries.get_cons, ih]
    by_cases hn : e.1 = name
    · rw [if_pos hn, if_pos (List.mem_cons.mpr (.inl (hn.symm.trans hname))), ← hn, hname, htext, hread]
      rfl
    · rw [if_neg hn]
      have hiff : name ∈ n :: names ↔ name ∈ names := by
        rw [List.mem_cons, or_iff_right (fun he => hn (hname.trans he.symm))]
      simp only [hiff]

/-- Read back, a generation is what was asked for exactly when that can be read back. -/
theorem matches_iff (h : Of host q d) (hplain : Plain q) (hm : d.marker = some m)
    (hgot : Reads host d m.files got) :
    Entries.Agree got q.files ∧ m.reviewInputBundle = q.reviewInputBundle ↔ Readable host q := by
  obtain ⟨m', hm', hnames, hbundle⟩ := h.marker
  obtain rfl := Option.some.inj (hm.symm.trans hm')
  have hmem : ∀ e ∈ q.files, e.1 ∈ m.files := fun e he => (hnames e.1).mpr (List.mem_map_of_mem he)
  have hget : ∀ e ∈ q.files, q.files.get e.1 = some e.2 := fun e he => Entries.get_of_mem q.distinct he
  constructor
  · rintro ⟨hagree, hsame⟩
    rw [Entries.agree_iff] at hagree
    have hback : ∀ e ∈ q.files, (d.text? host e.1).map readText = some e.2 := by
      intro e he
      have hread := hagree e.1
      rwa [hgot.get, if_pos (hmem e he), hget e he] at hread
    refine ⟨?_, ?_, ?_⟩
    · intro e he
      obtain ⟨text, _, htext⟩ := Option.map_eq_some_iff.mp (hback e he)
      rw [← htext]
      exact cr_not_mem_readText text
    · intro e he e' he' hplace
      have heq : d.text? host e.1 = d.text? host e'.1 := by rw [Dir.text?, hplace]; rfl
      have hb := hback e he
      rw [heq, hback e' he'] at hb
      exact (Option.some.inj hb).symm
    · intro b hb
      rw [hbundle] at hsame
      rw [Option.mem_def] at hb
      rw [hb, Option.filter_eq_some_iff] at hsame
      exact hsame.2
  · intro hr
    refine ⟨Entries.agree_iff.mpr ?_, ?_⟩
    · intro name
      rw [hgot.get]
      by_cases hn : name ∈ m.files
      · obtain ⟨e, he, rfl⟩ := List.mem_map.mp ((hnames name).mp hn)
        obtain ⟨e', he', hplace, htext⟩ := h.text hplain he
        rw [if_pos hn, htext, hget e he, Option.map_some, hr.single e' he' e he hplace,
          readText_eq_self.mpr (hr.ends e he)]
      · rw [if_neg hn, Entries.get_eq_none (fun hk => hn ((hnames name).mpr hk))]
    · rw [hbundle]
      cases hq : q.reviewInputBundle with
      | none => rfl
      | some b => rw [Option.filter_some, if_pos (hr.bundle b (by rw [hq]; rfl))]

theorem Same.mem (h : Same q q') {e : String × String} : e ∈ q.files ↔ e ∈ q'.files := by
  have hside : ∀ {r r' : Request β}, (∀ name, r.files.get name = r'.files.get name) → e ∈ r.files → e ∈ r'.files := by
    intro r r' hget he
    have hr := Entries.get_of_mem r.distinct he
    rw [hget] at hr
    exact Entries.mem_of_get hr
  exact ⟨hside h.1, hside (fun name => (h.1 name).symm)⟩

theorem Same.symm (h : Same q q') : Same q' q := ⟨fun name => (h.1 name).symm, h.2.symm⟩

theorem Readable.same (hr : Readable host q) (h : Same q q') : Readable host q' where
  ends := fun e he => hr.ends e (h.mem.mpr he)
  single := fun e he e' he' => hr.single e (h.mem.mpr he) e' (h.mem.mpr he')
  bundle := fun b hb => hr.bundle b (h.2 ▸ hb)

end Contents

end AItelier.Seeds
