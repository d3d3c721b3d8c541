import AItelier.Scope.Selection

namespace AItelier.Scope

open AItelier.Lib Relation

section Abstract
variable (host : Host) (t : Tree)

def Tree.files : List String := t.entries.filterMap (fun e => host.strict e.path)

def Tree.content (path : String) : Option Bytes :=
  (t.entries.find? (fun e => decide (host.strict e.path = some path))).map Entry.content

/-- A text of the parent project that declares a class. -/
def ClassFile (name q : String) : Prop :=
  ∃ bytes, t.content host q = some bytes ∧ isText q = true ∧ isExcluded (t.files host) q = false ∧
    name ∈ classNamesOf host.word (host.lossy bytes)

/-- A literal reference in the bytes of a file, or a class name in a text. -/
def Refers (p q : String) : Prop :=
  ∃ bytes, t.content host p = some bytes ∧
    ((q ∈ resourcesOf (host.lossy bytes) ∧ q ∈ t.files host) ∨
      (isText p = true ∧ ∃ name ∈ tokens host.word (host.lossy bytes), ClassFile host t name q))

/-- The autoloads of a revision, whether or not they are there. -/
def autoloadsOf : List String := autoloadsIn (((t.content host "project.godot").map host.lossy).getD "")

/-- The files that a scene and the autoloads lead to. -/
def Reached (scene p : String) : Prop :=
  ∃ r ∈ autoloadsOf host t ++ [scene], r ∈ t.files host ∧ ReflTransGen (Refers host t) r p

end Abstract

variable {host : Host} {t base head : Tree} {p q scene : String} {bytes : Bytes}

theorem content_iff : t.content host p = some bytes ↔ ∃ e ∈ t.entries, host.strict e.path = some p ∧
    e.content = bytes := by
  constructor
  · intro h
    obtain ⟨e, he, hbytes⟩ := Option.map_eq_some_iff.mp h
    have hpath := List.find?_some he
    exact ⟨e, List.mem_of_find?_eq_some he, of_decide_eq_true hpath, hbytes⟩
  · rintro ⟨e, he, hpath, rfl⟩
    have hfound : t.entries.find? (fun e => decide (host.strict e.path = some p)) = some e := by
      rw [List.find?_eq_some_iff_append]
      obtain ⟨before, after, hsplit⟩ := List.append_of_mem he
      refine ⟨decide_eq_true hpath, before, after, hsplit, fun d hd => ?_⟩
      have hdistinct := t.distinct
      rw [hsplit, List.map_append, List.nodup_append] at hdistinct
      have hne : d.path ≠ e.path :=
        hdistinct.2.2 d.path (List.mem_map_of_mem hd) e.path (List.mem_map_of_mem List.mem_cons_self)
      have hother : host.strict d.path ≠ some p := fun h => hne (host.faithful _ _ _ h hpath)
      simp [hother]
    rw [Tree.content, hfound]
    rfl

theorem mem_files : p ∈ t.files host ↔ ∃ bytes, t.content host p = some bytes := by
  rw [Tree.files, List.mem_filterMap]
  constructor
  · rintro ⟨e, he, hpath⟩
    exact ⟨e.content, content_iff.mpr ⟨e, he, hpath, rfl⟩⟩
  · rintro ⟨bytes, h⟩
    obtain ⟨e, he, hpath, _⟩ := content_iff.mp h
    exact ⟨e, he, hpath⟩

theorem Reached.step (h : Reached host t scene p) (hpq : Refers host t p q) : Reached host t scene q := by
  obtain ⟨r, hroot, hr, hpath⟩ := h
  exact ⟨r, hroot, hr, hpath.tail hpq⟩

theorem readEntry_ok {e : Entry} {r : String × Option String} (h : readEntry host e = .ok r) :
    host.strict e.path = some r.1 ∧
      ((isText r.1 = true ∧ ∃ text, host.strict e.content = some text ∧ r.2 = some text) ∨
        (isText r.1 = false ∧ r.2 = none)) := by
  simp only [readEntry, bind_ok, orElse_ok] at h
  obtain ⟨path, hpath, _, _, h⟩ := h
  split at h
  · next htext =>
    simp only [bind_ok, orElse_ok, pure_ok] at h
    obtain ⟨text, hstrict, rfl⟩ := h
    exact ⟨hpath, .inl ⟨htext, text, hstrict, rfl⟩⟩
  · next htext =>
    rw [pure_ok] at h
    subst h
    exact ⟨hpath, .inr ⟨by simpa using htext, rfl⟩⟩

variable {snap : Snapshot} {text : String}

theorem snapshot_files (h : snapshot host t = .ok snap) : snap.files = t.files host := by
  simp only [snapshot, bind_ok, pure_ok] at h
  obtain ⟨rows, hrows, rfl⟩ := h
  have hsome := mapM_map (g := fun e => host.strict e.path) (k := fun r => some r.1)
      (fun e r hr => (readEntry_ok hr).1.symm) hrows
  have hfiles : t.files host = (t.entries.map (fun e => host.strict e.path)).filterMap id := by
    rw [List.filterMap_map]
    rfl
  rw [hfiles, ← hsome, List.filterMap_map]
  exact (congrFun List.filterMap_eq_map rows).symm

theorem mem_texts (h : snapshot host t = .ok snap) :
    (p, text) ∈ snap.texts ↔
      isText p = true ∧ ∃ bytes, t.content host p = some bytes ∧ host.strict bytes = some text := by
  simp only [snapshot, bind_ok, pure_ok] at h
  obtain ⟨rows, hrows, rfl⟩ := h
  simp only [List.mem_filterMap, Option.map_eq_some_iff, Prod.mk.injEq]
  constructor
  · rintro ⟨r, hr, text', htext', rfl, rfl⟩
    obtain ⟨e, he, hread⟩ := mapM_mem hrows hr
    obtain ⟨hpath, ⟨htext, _, hstrict, hr2⟩ | ⟨_, hr2⟩⟩ := readEntry_ok hread
    · rw [htext'] at hr2
      cases hr2
      exact ⟨htext, e.content, content_iff.mpr ⟨e, he, hpath, rfl⟩, hstrict⟩
    · rw [htext'] at hr2
      cases hr2
  · rintro ⟨htext, bytes, hcontent, hstrict⟩
    obtain ⟨e, he, hpath, rfl⟩ := content_iff.mp hcontent
    obtain ⟨r, hr, hread⟩ := mapM_of_mem hrows he
    obtain ⟨hpath', hcases⟩ := readEntry_ok hread
    rw [hpath] at hpath'
    obtain ⟨path, text'⟩ := r
    cases hpath'
    rcases hcases with ⟨_, _, hstrict', hr2⟩ | ⟨hno, _⟩
    · rw [hstrict] at hstrict'
      cases hstrict'
      exact ⟨_, hr, text, hr2, rfl, rfl⟩
    · rw [htext] at hno
      cases hno

theorem mem_ownTexts (h : snapshot host t = .ok snap) :
    (p, text) ∈ ownTexts snap ↔
      isText p = true ∧ isExcluded (t.files host) p = false ∧
        ∃ bytes, t.content host p = some bytes ∧ host.strict bytes = some text := by
  rw [ownTexts, List.mem_filter, mem_texts h, snapshot_files h, Bool.not_eq_true']
  exact ⟨fun ⟨⟨ht, hb⟩, hx⟩ => ⟨ht, hx, hb⟩, fun ⟨ht, hx, hb⟩ => ⟨⟨ht, hb⟩, hx⟩⟩

/-- The names after the declarations are read: those before, and those declared. -/
theorem declare_get {pairs : List (String × String)} {classes classes' : Entries String String}
    (h : pairs.foldlM declare classes = .ok classes') (name : String) :
    classes'.get name = some q ↔ classes.get name = some q ∨ (name, q) ∈ pairs := by
  induction pairs generalizing classes with
  | nil =>
    rw [List.foldlM_nil, pure_ok] at h
    rw [h]
    simp
  | cons c pairs ih =>
    rw [List.foldlM_cons, bind_ok] at h
    obtain ⟨mid, hmid, h⟩ := h
    rw [ih h, List.mem_cons]
    obtain ⟨n, f⟩ := c
    have hstep : mid.get name = some q ↔ classes.get name = some q ∨ (name, q) = (n, f) := by
      rw [declare] at hmid
      split at hmid
      · next path hpath =>
        split at hmid
        · cases hmid
        · next hsame =>
          cases hmid
          rw [not_not] at hsame
          subst hsame
          refine ⟨.inl, ?_⟩
          rintro (hget | heq)
          · exact hget
          · cases heq
            exact hpath
      · next hnone =>
        cases hmid
        rw [Entries.get_set]
        by_cases hn : n = name
        · subst hn
          rw [if_pos rfl, hnone]
          simp [eq_comm]
        · rw [if_neg hn]
          simp [Ne.symm hn]
    rw [hstep, or_assoc]

/-- A text of the parent project. -/
def OwnText (host : Host) (t : Tree) (p : String) (bytes : Bytes) : Prop :=
  isText p = true ∧ t.content host p = some bytes ∧ isExcluded (t.files host) p = false

/-- What a graph tells of the revision it is of. -/
structure GraphOf (host : Host) (t : Tree) (g : Graph) : Prop where
  autoload : g.autoload = autoloadsOf host t
  own : ∀ p refs, g.edges.get p = some refs → ∃ bytes, OwnText host t p bytes
  read : ∀ p bytes, OwnText host t p bytes → ∃ refs, g.edges.get p = some refs ∧ ∀ q, q ∈ refs ↔
    q ∈ resourcesOf (host.lossy bytes) ∨ ∃ name ∈ tokens host.word (host.lossy bytes), ClassFile host t name q
  excluded : ∀ p ∈ t.files host, isExcluded (t.files host) p = true → p ∈ g.uncertain.map Prod.fst
  missing : ∀ p bytes q, OwnText host t p bytes → q ∈ resourcesOf (host.lossy bytes) → q ∉ t.files host →
    p ∈ g.uncertain.map Prod.fst

/-- In a revision that is read, every text decodes. -/
theorem mem_ownTexts_iff (h : snapshot host t = .ok snap) :
    (p, text) ∈ ownTexts snap ↔ ∃ bytes, OwnText host t p bytes ∧ host.lossy bytes = text := by
  rw [mem_ownTexts h]
  constructor
  · rintro ⟨hkind, hown, bytes, hcontent, hstrict⟩
    exact ⟨bytes, ⟨hkind, hcontent, hown⟩, host.agrees bytes text hstrict⟩
  · rintro ⟨bytes, ⟨hkind, hcontent, hown⟩, rfl⟩
    refine ⟨hkind, hown, bytes, hcontent, ?_⟩
    obtain ⟨e, he, hpath, rfl⟩ := content_iff.mp hcontent
    simp only [snapshot, bind_ok] at h
    obtain ⟨rows, hrows, _⟩ := h
    obtain ⟨r, _, hread⟩ := mapM_of_mem hrows he
    obtain ⟨hpath', ⟨_, text, hstrict, _⟩ | ⟨hno, _⟩⟩ := readEntry_ok hread
    · rw [host.agrees e.content text hstrict]
      exact hstrict
    · rw [hpath] at hpath'
      rw [← Option.some.inj hpath', hkind] at hno
      cases hno

theorem mem_declared (h : snapshot host t = .ok snap) {name : String} :
    (name, q) ∈ declared host.word (ownTexts snap) ↔ ClassFile host t name q := by
  rw [declared, List.mem_flatMap]
  constructor
  · rintro ⟨⟨path, text⟩, htext, hname⟩
    obtain ⟨n, hn, heq⟩ := List.mem_map.mp hname
    cases heq
    obtain ⟨bytes, ⟨hkind, hcontent, hown⟩, rfl⟩ := (mem_ownTexts_iff h).mp htext
    exact ⟨bytes, hcontent, hkind, hown, hn⟩
  · rintro ⟨bytes, hcontent, hkind, hown, hname⟩
    exact ⟨(q, host.lossy bytes), (mem_ownTexts_iff h).mpr ⟨bytes, ⟨hkind, hcontent, hown⟩, rfl⟩,
      List.mem_map.mpr ⟨name, hname, rfl⟩⟩

theorem project_own (files : List String) : isExcluded files "project.godot" = false := by
  have hparts : (parts "project.godot").dropLast = [] := by decide
  rw [isExcluded, List.any_eq_false]
  intro b hb
  obtain ⟨f, hf, rfl⟩ := List.mem_map.mp hb
  have hne := (of_decide_eq_true (List.mem_filter.mp hf).2).2
  rw [hparts]
  cases hdrop : (parts f).dropLast with
  | nil => exact absurd hdrop hne
  | cons c cs => exact Bool.noConfusion

theorem autoloads_read (h : snapshot host t = .ok snap) :
    autoloads (ownTexts snap) = autoloadsOf host t := by
  have hkind : isText "project.godot" = true := by decide
  have hown := project_own (t.files host)
  have hsame : ((ownTexts snap).find? (fun t => decide (t.1 = "project.godot"))).map Prod.snd =
      (t.content host "project.godot").map host.lossy := by
    cases hfound : (ownTexts snap).find? (fun t => decide (t.1 = "project.godot")) with
    | none =>
      cases hcontent : t.content host "project.godot" with
      | none => rfl
      | some bytes =>
        have hmem := (mem_ownTexts_iff h).mpr ⟨bytes, ⟨hkind, hcontent, hown⟩, rfl⟩
        exact absurd (decide_eq_true rfl) (List.find?_eq_none.mp hfound _ hmem)
    | some row =>
      obtain ⟨path, text⟩ := row
      have hpath : path = "project.godot" := by simpa using List.find?_some hfound
      subst hpath
      obtain ⟨bytes, ⟨_, hcontent, _⟩, rfl⟩ := (mem_ownTexts_iff h).mp (List.mem_of_find?_eq_some hfound)
      rw [hcontent]
      rfl
  rw [autoloads, autoloadsOf, hsame]

theorem graphOf_graph {g : Graph} (hsnap : snapshot host t = .ok snap) (h : graph host snap = .ok g) :
    GraphOf host t g := by
  simp only [graph, bind_ok, pure_ok] at h
  obtain ⟨classes, hclasses, rfl⟩ := h
  have hfile : ∀ name q, classes.get name = some q ↔ ClassFile host t name q := by
    intro name q
    rw [declare_get hclasses, ← mem_declared hsnap, Entries.get_nil]
    simp
  constructor
  case autoload => exact autoloads_read hsnap
  case own =>
    intro p refs hget
    obtain ⟨⟨path, text⟩, htext, heq⟩ := List.mem_map.mp (Entries.mem_of_get hget)
    cases heq
    obtain ⟨bytes, hbytes, _⟩ := (mem_ownTexts_iff hsnap).mp htext
    exact ⟨bytes, hbytes⟩
  case read =>
    intro p bytes hbytes
    have hmem : (p, host.lossy bytes) ∈ ownTexts snap := (mem_ownTexts_iff hsnap).mpr ⟨bytes, hbytes, rfl⟩
    have hkey : p ∈ ((ownTexts snap).map (fun t => (t.1, references host.word classes t.2))).map Prod.fst :=
      List.mem_map.mpr ⟨_, List.mem_map_of_mem hmem, rfl⟩
    obtain ⟨refs, hrefs⟩ := Option.isSome_iff_exists.mp (Entries.get_isSome.mpr hkey)
    refine ⟨refs, hrefs, fun q => ?_⟩
    obtain ⟨⟨path, text⟩, htext, heq⟩ := List.mem_map.mp (Entries.mem_of_get hrefs)
    cases heq
    obtain ⟨bytes', ⟨_, hcontent', _⟩, rfl⟩ := (mem_ownTexts_iff hsnap).mp htext
    have hsame : bytes' = bytes := Option.some.inj (hcontent'.symm.trans hbytes.2.1)
    subst hsame
    rw [references, List.mem_append, List.mem_filterMap]
    exact or_congr_right (exists_congr (fun name => and_congr_right (fun _ => hfile name q)))
  case excluded =>
    intro p hp hx
    rw [List.map_append, List.mem_append, List.map_map]
    refine .inl (List.mem_map.mpr ⟨p, ?_, rfl⟩)
    rw [snapshot_files hsnap]
    exact List.mem_filter.mpr ⟨hp, hx⟩
  case missing =>
    intro p bytes q hbytes hq hout
    have hmem : (p, host.lossy bytes) ∈ ownTexts snap := (mem_ownTexts_iff hsnap).mpr ⟨bytes, hbytes, rfl⟩
    have hmissing : (resourcesOf (host.lossy bytes)).filter (fun r => decide (r ∉ snap.files)) ≠ [] := by
      apply List.ne_nil_of_mem (a := q)
      rw [List.mem_filter, snapshot_files hsnap]
      exact ⟨hq, decide_eq_true hout⟩
    rw [List.map_append, List.mem_append, List.map_flatMap]
    refine .inr (List.mem_flatMap.mpr ⟨_, hmem, ?_⟩)
    rw [List.map_map]
    refine List.mem_map.mpr ⟨"unresolved resource: " ++
      reprTexts ((resourcesOf (host.lossy bytes)).filter (fun r => decide (r ∉ snap.files))), ?_, rfl⟩
    simp only [unknowns, List.mem_append, if_neg hmissing, List.mem_singleton, true_or, or_true]

end AItelier.Scope
