import AItelier.Lib.Table
import AItelier.Scope.Partition
import AItelier.Scope.Reached

namespace AItelier.Scope

open AItelier.Lib Relation

variable {host : Host} {base head : Tree} {baseGraph headGraph : Graph} {p q scene : String} {bytes : Bytes}

theorem content_file {t t' : Tree} (h : t.content host p = t'.content host p) (hp : p ∈ t.files host) :
    p ∈ t'.files host := by
  obtain ⟨bytes, hbytes⟩ := mem_files.mp hp
  exact mem_files.mpr ⟨bytes, h ▸ hbytes⟩

/-- A file whose references are read: a text of the parent project. -/
def ReadText (host : Host) (t : Tree) (p : String) : Prop := isText p = true ∧ isExcluded (t.files host) p = false

instance (host : Host) (t : Tree) (p : String) : Decidable (ReadText host t p) := inferInstanceAs (Decidable (_ ∧ _))

/-- From one revision to the other: the autoloads are led to there as well, and no changed file is
led to through a file whose references are not read. -/
structure Sighted (host : Host) (t t' : Tree) (scene : String) : Prop where
  autoload : ∀ a ∈ autoloadsOf host t, a ∈ t.files host → Reached host t' scene a
  through : ∀ p q, Reached host t scene p → ¬ ReadText host t p → ReflTransGen (Refers host t) p q →
    t.content host q = t'.content host q

/-- What is known of the files inside, which the read references of one revision do not leave. -/
structure Walled (host : Host) (t t' : Tree) (scene : String) (inside : String → Prop) : Prop where
  roots : ∀ r ∈ autoloadsOf host t ++ [scene], inside r
  closed : ∀ p q, inside p → ReadText host t p → Refers host t p q → inside q
  unchanged : ∀ p, inside p → t.content host p = t'.content host p
  excluded : ∀ p, isExcluded (t.files host) p = isExcluded (t'.files host) p

variable {inside : String → Prop} {t t' : Tree}

theorem Walled.refers (hw : Walled host t t' scene inside) (h : Refers host t p q)
    (hp : t.content host p = t'.content host p) (hq : t.content host q = t'.content host q) : Refers host t' p q := by
  obtain ⟨bytes, hbytes, hres | ⟨hkind, name, hname, bytes', hbytes', hkind', hown, hclass⟩⟩ := h
  · exact ⟨bytes, hp ▸ hbytes, .inl ⟨hres.1, content_file hq hres.2⟩⟩
  · exact ⟨bytes, hp ▸ hbytes, .inr ⟨hkind, name, hname, bytes', hq ▸ hbytes', hkind', hw.excluded q ▸ hown, hclass⟩⟩

/-- Where nothing is missed, every file that the scene leads to is the same file in the
other revision. -/
theorem reached_unchanged (hw : Walled host t t' scene inside) (hs : Sighted host t t' scene)
    (h : Reached host t scene p) :
    t.content host p = t'.content host p := by
  -- a file is inside, or led to through one whose references are not read
  have hwhere : inside p ∨ ∃ u, Reached host t scene u ∧ ¬ ReadText host t u ∧ ReflTransGen (Refers host t) u p := by
    obtain ⟨r, hroot, hr, hpath⟩ := h
    induction hpath with
    | refl => exact .inl (hw.roots r hroot)
    | @tail a b hpath hab ih =>
      rcases ih with hin | ⟨u, hu, hunread, hua⟩
      · by_cases hread : ReadText host t a
        · exact .inl (hw.closed a b hin hread hab)
        · exact .inr ⟨a, ⟨r, hroot, hr, hpath⟩, hread, .single hab⟩
      · exact .inr ⟨u, hu, hunread, hua.tail hab⟩
  rcases hwhere with hin | ⟨u, hu, hunread, hpath⟩
  · exact hw.unchanged p hin
  · exact hs.through u p hu hunread hpath

/-- And the scene leads to it there. -/
theorem reached_kept (hw : Walled host t t' scene inside) (hs : Sighted host t t' scene) (h : Reached host t scene p) :
    Reached host t' scene p := by
  obtain ⟨r, hroot, hr, hpath⟩ := h
  induction hpath with
  | refl =>
    rcases List.mem_append.mp hroot with hauto | hscene
    · exact hs.autoload r hauto hr
    · exact ⟨r, List.mem_append_right _ hscene, content_file (hw.unchanged r (hw.roots r hroot)) hr, .refl⟩
  | @tail a b hpath hab ih =>
    have ha : Reached host t scene a := ⟨r, hroot, hr, hpath⟩
    exact ih.step (hw.refers hab (reached_unchanged hw hs ha) (reached_unchanged hw hs (ha.step hab)))

theorem boundaries_kept (h : ∀ f ∈ t.files host, t.content host f ≠ t'.content host f →
    isExcluded (t.files host) f = false) :
    boundaries (t.files host) ⊆ boundaries (t'.files host) := by
  intro b hb
  obtain ⟨f, hf, rfl⟩ := List.mem_map.mp hb
  obtain ⟨hfile, hmark⟩ := List.mem_filter.mp hf
  by_cases hsame : t.content host f = t'.content host f
  · exact List.mem_map.mpr ⟨f, List.mem_filter.mpr ⟨content_file hsame hfile, hmark⟩, rfl⟩
  · have hout := h f hfile hsame
    rw [isExcluded, List.any_eq_false] at hout
    exact absurd (List.isPrefixOf_iff_prefix.mpr (List.prefix_refl _)) (hout _ hb)

/-- A file that a scene and the autoloads lead to by the references of both revisions. -/
def Leads (host : Host) (base head : Tree) (scene p : String) : Prop :=
  ∃ r ∈ autoloadsOf host base ++ autoloadsOf host head ++ [scene],
    ReflTransGen (fun a b => Refers host base a b ∨ Refers host head a b) r p

/-- A file that is not listed as changed has the same bytes. -/
theorem changedFiles_content {changed : List String} (h : changedFiles host base head = .ok changed)
    (hp : p ∉ changed) :
    base.content host p = head.content host p := by
  have hsame : ∀ e ∈ base.entries ++ head.entries, host.strict e.path = some p →
      base.entry e.path = head.entry e.path := by
    intro e he hpath
    by_contra hne
    have hmem : e.path ∈ ((base.entries ++ head.entries).map Entry.path).filter
        (fun p => decide (base.entry p ≠ head.entry p)) :=
      List.mem_filter.mpr ⟨List.mem_map_of_mem he, decide_eq_true hne⟩
    obtain ⟨q, hq, hread⟩ := mapM_of_mem h hmem
    rw [orElse_ok, hpath] at hread
    exact hp (Option.some.inj hread ▸ hq)
  have hentry : ∀ (t : Tree) (e : Entry), e ∈ t.entries → t.entry e.path = some e := by
    intro t e he
    exact lookup_of_mem t.distinct he
  have hgive : ∀ t t' : Tree, (∀ e ∈ t.entries, host.strict e.path = some p → t.entry e.path = t'.entry e.path) →
      ∀ bytes, t.content host p = some bytes → t'.content host p = some bytes := by
    intro t t' hall bytes hbytes
    obtain ⟨e, he, hpath, hcontent⟩ := content_iff.mp hbytes
    have hfound : t'.entry e.path = some e := (hall e he hpath) ▸ hentry t e he
    exact content_iff.mpr ⟨e, List.mem_of_find?_eq_some hfound, hpath, hcontent⟩
  cases hbase : base.content host p with
  | some bytes => exact (hgive base head (fun e he => hsame e (List.mem_append_left _ he)) bytes hbase).symm
  | none =>
    cases hhead : head.content host p with
    | none => rfl
    | some bytes =>
      have hback := hgive head base (fun e he hpath => (hsame e (List.mem_append_right _ he) hpath).symm) bytes hhead
      rw [hbase] at hback
      cases hback

/-- A reference that a graph has, from a file that is not in doubt. -/
theorem GraphOf.refers {t : Tree} {g : Graph} (hg : GraphOf host t g) (hcertain : p ∉ g.uncertain.map Prod.fst)
    (h : q ∈ (g.edges.get p).getD []) : Refers host t p q := by
  cases hget : g.edges.get p with
  | none =>
    rw [hget] at h
    cases h
  | some refs =>
    rw [hget, Option.getD_some] at h
    obtain ⟨bytes, hown⟩ := hg.own p refs hget
    obtain ⟨refs', hrefs', hspec⟩ := hg.read p bytes hown
    rw [hget] at hrefs'
    cases hrefs'
    refine ⟨bytes, hown.2.1, ?_⟩
    rcases (hspec q).mp h with hres | hclass
    · refine .inl ⟨hres, ?_⟩
      by_contra hout
      exact hcertain (hg.missing p bytes q hown hres hout)
    · exact .inr ⟨hown.1, hclass⟩

theorem leads_of_deps (hb : GraphOf host base baseGraph) (hh : GraphOf host head headGraph)
    (hcertain : ∀ p ∈ deps baseGraph headGraph scene,
      p ∉ baseGraph.uncertain.map Prod.fst ∧ p ∉ headGraph.uncertain.map Prod.fst)
    (hp : p ∈ deps baseGraph headGraph scene) : Leads host base head scene p := by
  obtain ⟨r, hr, hpath⟩ := mem_closure.mp hp
  refine ⟨r, by rw [← hb.autoload, ← hh.autoload]; exact hr, ?_⟩
  clear hp
  induction hpath with
  | refl => exact .refl
  | @tail a b hra hab ih =>
    obtain ⟨hbase, hhead⟩ := hcertain a (mem_closure.mpr ⟨r, hr, hra⟩)
    refine ih.tail ?_
    rcases List.mem_append.mp hab with hab | hab
    · exact .inl (hb.refers hbase hab)
    · exact .inr (hh.refers hhead hab)

/-- What is known once the graph is read: every scenario is out of doubt, one that is not
affected reaches no change, and an affected one reaches each change. -/
structure Inspected (host : Host) (base head : Tree) (fields : Dict) (scenarios : List Scenario)
    (impacted : List String)
    (changed : List String) (baseGraph headGraph : Graph) : Prop where
  ofBase : GraphOf host base baseGraph
  ofHead : GraphOf host head headGraph
  unchanged : ∀ p ∉ changed, base.content host p = head.content host p
  certain : ∀ s ∈ scenarios, ∃ scene, sceneRoot fields s = some scene ∧ ∀ p ∈ deps baseGraph headGraph scene,
    p ∉ baseGraph.uncertain.map Prod.fst ∧ p ∉ headGraph.uncertain.map Prod.fst
  apart : ∀ s ∈ scenarios, s.1 ∉ impacted → ∀ scene, sceneRoot fields s = some scene →
    ∀ p ∈ deps baseGraph headGraph scene, p ∉ changed
  accounted : ∀ p ∈ changed, ∃ s ∈ scenarios, s.1 ∈ impacted ∧ ∃ scene, sceneRoot fields s = some scene ∧
    p ∈ deps baseGraph headGraph scene

theorem dependencies_ok {headFiles changed : List String} {fields : Dict} {s : Scenario} {r : String × List String}
    (h : dependencies baseGraph headGraph headFiles changed fields s = .ok r) :
    ∃ scene, sceneRoot fields s = some scene ∧
      (∀ p ∈ deps baseGraph headGraph scene,
        p ∉ baseGraph.uncertain.map Prod.fst ∧ p ∉ headGraph.uncertain.map Prod.fst) ∧
      r = (s.1, (deps baseGraph headGraph scene).filter (fun p => decide (p ∈ changed))) := by
  simp only [dependencies, bind_ok, orElse_ok, ensure_ok, pure_ok] at h
  obtain ⟨scene, hscene, _, _, _, _, _, hcertain, rfl⟩ := h
  refine ⟨scene, hscene, fun p hp => ?_, rfl⟩
  have hout := hcertain p hp
  rw [List.map_append, List.mem_append, not_or] at hout
  exact hout

theorem impact_inspected {fields : Dict} {scenarios : List Scenario} {impacted : List String}
    (h : impact host base head fields scenarios = .ok impacted) :
    ∃ changed baseGraph headGraph, changedFiles host base head = .ok changed ∧
      Inspected host base head fields scenarios impacted changed baseGraph headGraph := by
  simp only [impact, bind_ok, ensure_ok, pure_ok] at h
  obtain ⟨changed, hchanged, baseSnap, hbaseSnap, headSnap, hheadSnap, baseGraph, hbaseGraph, headGraph, hheadGraph,
    rounds, hrounds, _, houtside, rfl⟩ := h
  refine ⟨changed, baseGraph, headGraph, hchanged, ?_⟩
  constructor
  case ofBase => exact graphOf_graph hbaseSnap hbaseGraph
  case ofHead => exact graphOf_graph hheadSnap hheadGraph
  case unchanged => exact fun p hp => changedFiles_content hchanged hp
  case certain =>
    intro s hs
    obtain ⟨r, _, hround⟩ := mapM_of_mem hrounds hs
    obtain ⟨scene, hscene, hcertain, _⟩ := dependencies_ok hround
    exact ⟨scene, hscene, hcertain⟩
  case apart =>
    intro s hs hout scene hscene p hp hpc
    obtain ⟨r, hr, hround⟩ := mapM_of_mem hrounds hs
    obtain ⟨scene', hscene', _, rfl⟩ := dependencies_ok hround
    rw [hscene] at hscene'
    cases hscene'
    refine hout (List.mem_map.mpr ⟨_, List.mem_filter.mpr ⟨hr, decide_eq_true ?_⟩, rfl⟩)
    exact List.ne_nil_of_mem (List.mem_filter.mpr ⟨hp, decide_eq_true hpc⟩)
  case accounted =>
    intro p hp
    have hin : ∃ r ∈ rounds, p ∈ r.2 := by
      by_contra hno
      have hmem : p ∈ changed.filter (fun p => decide (∀ r ∈ rounds, p ∉ r.2)) :=
        List.mem_filter.mpr ⟨hp, decide_eq_true (fun r hr hpr => hno ⟨r, hr, hpr⟩)⟩
      rw [houtside] at hmem
      cases hmem
    obtain ⟨r, hr, hpr⟩ := hin
    obtain ⟨s, hs, hround⟩ := mapM_mem hrounds hr
    obtain ⟨scene, hscene, _, rfl⟩ := dependencies_ok hround
    refine ⟨s, hs, List.mem_map.mpr ⟨_, List.mem_filter.mpr ⟨hr, decide_eq_true ?_⟩, rfl⟩, scene, hscene, ?_⟩
    · exact List.ne_nil_of_mem hpr
    · exact List.mem_of_mem_filter hpr

/-- A changed file is in no nested project: it would be in doubt. -/
theorem Inspected.excluded {fields : Dict} {scenarios : List Scenario} {impacted changed : List String}
    (h : Inspected host base head fields scenarios impacted changed baseGraph headGraph) (p : String) :
    isExcluded (base.files host) p = isExcluded (head.files host) p := by
  have hcertain (f : String) (hf : base.content host f ≠ head.content host f) :
      f ∉ baseGraph.uncertain.map Prod.fst ∧ f ∉ headGraph.uncertain.map Prod.fst := by
    obtain ⟨s, hs, -, scene, hscene, hin⟩ := h.accounted f (not_not.mp (fun hout => hf (h.unchanged f hout)))
    obtain ⟨scene', hscene', hcertain⟩ := h.certain s hs
    cases hscene.symm.trans hscene'
    exact hcertain f hin
  have hforth : boundaries (base.files host) ⊆ boundaries (head.files host) := by
    refine boundaries_kept (fun f hf hne => ?_)
    rw [← Bool.not_eq_true]
    exact fun hx => (hcertain f hne).1 (h.ofBase.excluded f hf hx)
  have hback : boundaries (head.files host) ⊆ boundaries (base.files host) := by
    refine boundaries_kept (fun f hf hne => ?_)
    rw [← Bool.not_eq_true]
    exact fun hx => (hcertain f hne.symm).2 (h.ofHead.excluded f hf hx)
  rw [isExcluded, isExcluded, Bool.eq_iff_iff, List.any_eq_true, List.any_eq_true]
  constructor
  · rintro ⟨b, hb, hp⟩
    exact ⟨b, hforth hb, hp⟩
  · rintro ⟨b, hb, hp⟩
    exact ⟨b, hback hb, hp⟩

/-- The references that are read of a text are followed. -/
theorem GraphOf.follows {g : Graph} (hg : GraphOf host t g) (hread : ReadText host t p) (h : Refers host t p q) :
    q ∈ (g.edges.get p).getD [] := by
  obtain ⟨bytes, hbytes, hcases⟩ := h
  obtain ⟨refs, hrefs, hspec⟩ := hg.read p bytes ⟨hread.1, hbytes, hread.2⟩
  rw [hrefs, Option.getD_some, hspec]
  rcases hcases with hres | ⟨-, hclass⟩
  · exact .inl hres.1
  · exact .inr hclass

end AItelier.Scope
