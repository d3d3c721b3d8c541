import AItelier.Scope.Skipped

namespace AItelier.Scope

open AItelier.Lib

variable {host : Host} {base head : Tree} {fields : Dict} {scenarios : List Scenario} {scene : String}

/-- A scene leads to the same files in both revisions, with the same bytes. -/
structure Unaffected (host : Host) (base head : Tree) (scene : String) : Prop where
  same : ∀ p, Reached host base scene p ↔ Reached host head scene p
  identical : ∀ p, Reached host base scene p → base.content host p = head.content host p

/-- Nothing is missed from either revision to the other. -/
def Traced (host : Host) (base head : Tree) (scene : String) : Prop :=
  Sighted host base head scene ∧ Sighted host head base scene

theorem Unaffected.sighted (h : Unaffected host base head scene) : Sighted host base head scene where
  autoload := fun a ha hfile => (h.same a).mp ⟨a, List.mem_append_left _ ha, hfile, .refl⟩
  through := by
    rintro p q ⟨r, hroot, hr, hpath⟩ - hq
    exact h.identical q ⟨r, hroot, hr, hpath.trans hq⟩

theorem Unaffected.symm (h : Unaffected host base head scene) : Unaffected host head base scene where
  same := fun p => (h.same p).symm
  identical := fun p hp => (h.identical p ((h.same p).mpr hp)).symm

/-- A scenario that is not selected for a change is unaffected exactly when nothing is missed. -/
theorem unaffected_iff {impacted changed : List String} {baseGraph headGraph : Graph}
    (h : Inspected host base head fields scenarios impacted changed baseGraph headGraph) {s : Scenario}
    (hs : s ∈ scenarios) (hout : s.1 ∉ impacted) (hscene : sceneRoot fields s = some scene) :
    Unaffected host base head scene ↔ Traced host base head scene := by
  have hclosed (p q : String) (hp : p ∈ deps baseGraph headGraph scene) (hq : q ∈ follow baseGraph headGraph p) :
      q ∈ deps baseGraph headGraph scene := by
    obtain ⟨r, hr, hpath⟩ := mem_closure.mp hp
    exact mem_closure.mpr ⟨r, hr, hpath.tail hq⟩
  have hroot (r : String) (hr : r ∈ autoloadsOf host base ++ autoloadsOf host head ++ [scene]) :
      r ∈ deps baseGraph headGraph scene := by
    rw [← h.ofBase.autoload, ← h.ofHead.autoload] at hr
    exact mem_closure.mpr ⟨r, hr, .refl⟩
  have hunchanged (p : String) (hp : p ∈ deps baseGraph headGraph scene) : base.content host p = head.content host p :=
    h.unchanged p (h.apart s hs hout scene hscene p hp)
  have hbase : Walled host base head scene (fun p => p ∈ deps baseGraph headGraph scene) := by
    constructor
    case roots =>
      intro r hr
      refine hroot r ?_
      rcases List.mem_append.mp hr with hr | hr
      · exact List.mem_append_left _ (List.mem_append_left _ hr)
      · exact List.mem_append_right _ hr
    case closed => exact fun p q hp hread hpq => hclosed p q hp (List.mem_append_left _ (h.ofBase.follows hread hpq))
    case unchanged => exact hunchanged
    case excluded => exact h.excluded
  have hhead : Walled host head base scene (fun p => p ∈ deps baseGraph headGraph scene) := by
    constructor
    case roots =>
      intro r hr
      refine hroot r ?_
      rcases List.mem_append.mp hr with hr | hr
      · exact List.mem_append_left _ (List.mem_append_right _ hr)
      · exact List.mem_append_right _ hr
    case closed => exact fun p q hp hread hpq => hclosed p q hp (List.mem_append_right _ (h.ofHead.follows hread hpq))
    case unchanged => exact fun p hp => (hunchanged p hp).symm
    case excluded => exact fun p => (h.excluded p).symm
  constructor
  · exact fun hu => ⟨hu.sighted, hu.symm.sighted⟩
  · rintro ⟨hforth, hback⟩
    constructor
    · exact fun p => ⟨fun hp => reached_kept hbase hforth hp, fun hp => reached_kept hhead hback hp⟩
    · exact fun p hp => reached_unchanged hbase hforth hp

/-- What every plan promises: it is valid, selects something, is full after a fallback, and as a subset
accounts for every change. -/
structure SoundPlan (host : Host) (repo : Repository) (spec : Value) (plan : Plan) : Prop where
  valid : State.isHexOf 40 plan.selectionBasis.headSha = true → validateCoverage plan.document = none
  some : plan.selectedScenarios ≠ []
  full : plan.fallbackFull = true → plan.coverage = .full
  accounted : plan.coverage = .subset → ∀ fields scenarios changed, inventory spec = .ok (fields, scenarios) →
    changedFiles host (repo.tree plan.selectionBasis.baseSha) (repo.tree plan.selectionBasis.headSha) = .ok changed →
    ∀ p ∈ changed, ∃ s ∈ scenarios, s.1 ∈ plan.selectedScenarios ∧ ∃ scene, sceneRoot fields s = Option.some scene ∧
      Leads host (repo.tree plan.selectionBasis.baseSha) (repo.tree plan.selectionBasis.headSha) scene p

/-- And what a subset promises besides: it leaves out only unaffected scenarios. -/
structure SafePlan (host : Host) (repo : Repository) (spec : Value) (plan : Plan) : Prop
    extends SoundPlan host repo spec plan where
  skipped : plan.coverage = .subset → ∀ fields scenarios, inventory spec = .ok (fields, scenarios) →
    ∀ s ∈ scenarios, s.1 ∈ plan.unselectedScenarios → ∀ scene, sceneRoot fields s = Option.some scene →
      Unaffected host (repo.tree plan.selectionBasis.baseSha) (repo.tree plan.selectionBasis.headSha) scene

theorem select_impact {always : Except Fault (List String)} {selected : List String}
    (h : select host base head fields scenarios always = .ok selected) :
    ∃ impacted l, impact host base head fields scenarios = .ok impacted ∧ selected = impacted ++ l := by
  cases always with
  | error f =>
    simp only [select] at h
    split at h
    · simp only [bind_ok] at h
      obtain ⟨_, _, h⟩ := h
      cases h
    · cases h
  | ok l =>
    simp only [select, bind_ok, pure_ok] at h
    obtain ⟨impacted, himpact, _, _, rfl⟩ := h
    exact ⟨impacted, l, himpact, rfl⟩

/-- A plan is sound; and a scenario that a subset leaves out is unaffected exactly when each revision's
autoloads are led to in the other, and no changed file is led to through one whose references are not
read. -/
theorem selectScope_safe {repo : Repository} {base head : String} {spec : Value}
    {measurement : Measurement} {plan : Plan}
    (h : selectScope host repo base head spec measurement = .ok plan) :
    SoundPlan host repo spec plan ∧
      (plan.coverage = .subset → ∀ fields scenarios, inventory spec = .ok (fields, scenarios) →
        ∀ baseSha headSha, repo.resolve base = .ok baseSha → repo.resolve head = .ok headSha →
        ∀ s ∈ scenarios, s.1 ∈ plan.unselectedScenarios → ∀ scene, sceneRoot fields s = some scene →
          (Unaffected host (repo.tree baseSha) (repo.tree headSha) scene ↔
            Traced host (repo.tree baseSha) (repo.tree headSha) scene)) := by
  have hexplicit := selectScope_explicit h
  obtain ⟨fields, scenarios, hinventory, hcases⟩ := selectScope_cases h
  rcases hcases with ⟨basis, always, f, _, rfl⟩ |
    ⟨baseSha, headSha, always, selected, hbaseSha, hheadSha, _, hselect, hplan⟩
  · refine ⟨⟨fun hhead => validateCoverage_document hexplicit hhead, hexplicit.nonempty,
      fun hf => (hexplicit.fallback hf).1, fun hsubset => ?_⟩, fun hsubset => ?_⟩
    · cases hsubset
    · cases hsubset
  · obtain ⟨impacted, l, himpact, rfl⟩ := select_impact hselect
    obtain ⟨changed, baseGraph, headGraph, hchanged, hinspected⟩ := impact_inspected himpact
    have hbase : plan.selectionBasis.baseSha = baseSha := by rw [hplan]; rfl
    have hhead : plan.selectionBasis.headSha = headSha := by rw [hplan]; rfl
    constructor
    · constructor
      case valid => exact validateCoverage_document hexplicit
      case some => exact hexplicit.nonempty
      case full => exact fun hf => (hexplicit.fallback hf).1
      case accounted =>
        intro _ fields' scenarios' changed' hinventory' hchanged' p hp
        rw [hinventory] at hinventory'
        cases hinventory'
        rw [hbase, hhead, hchanged] at hchanged'
        cases hchanged'
        obtain ⟨s, hs, himpacted, scene, hscene, hreach⟩ := hinspected.accounted p hp
        obtain ⟨scene', hscene', hcertain⟩ := hinspected.certain s hs
        rw [hscene] at hscene'
        cases hscene'
        refine ⟨s, hs, ?_, scene, hscene, ?_⟩
        · rw [hplan]
          exact List.mem_filter.mpr ⟨List.mem_map_of_mem hs, decide_eq_true (List.mem_append_left _ himpacted)⟩
        · rw [hbase, hhead]
          exact leads_of_deps hinspected.ofBase hinspected.ofHead hcertain hreach
    · intro _ fields' scenarios' hinventory' baseSha' headSha' hbaseSha' hheadSha' s hs hun scene hscene
      rw [hinventory] at hinventory'
      cases hinventory'
      cases hbaseSha.symm.trans hbaseSha'
      cases hheadSha.symm.trans hheadSha'
      rw [hplan] at hun
      have hnot := (List.mem_filter.mp hun).2
      rw [Bool.not_eq_true', decide_eq_false_iff_not, List.mem_append, not_or] at hnot
      exact unaffected_iff hinspected hs hnot.1 hscene

def asciiChar (b : Byte) : Char := Char.ofNat b.val

theorem asciiChar_inj : Function.Injective asciiChar := by
  intro a b h
  have hval : ∀ c : Byte, (asciiChar c).toNat = c.val := by decide +kernel
  exact Fin.ext (by rw [← hval a, ← hval b, h])

/-- A host of ASCII texts. -/
def asciiHost : Host where
  strict bytes := if bytes.all (fun b => b < 128) then some (String.ofList (bytes.map asciiChar)) else none
  lossy bytes := String.ofList (bytes.map asciiChar)
  agrees := by
    intro bytes text h
    split at h
    · exact Option.some.inj h
    · cases h
  faithful := by
    intro a b text ha hb
    split at ha
    · split at hb
      · have hsame := String.ofList_injective ((Option.some.inj ha).trans (Option.some.inj hb).symm)
        exact List.map_injective_iff.mpr asciiChar_inj hsame
      · cases hb
    · cases ha
  word c := State.isAlnum c || c == '_'
  digest _ := String.ofList (List.replicate 64 '0')
  hex _ := by decide

def ascii (text : String) : Bytes := text.toList.map (fun c => Fin.ofNat 256 c.toNat)

def file (path content : String) : Entry := ⟨"100644", "blob", ascii path, ascii content⟩

/-- Scene `a` leads to `x.gd` through a table, scene `b` at once. -/
def tableTree (x : String) : Tree where
  entries := [file "a.tscn" "res://t.json", file "b.tscn" "res://x.gd", file "t.json" "res://x.gd",
    ⟨"100644", "blob", ascii "x.gd", ascii x⟩]
  distinct := by
    have h : ([ascii "a.tscn", ascii "b.tscn", ascii "t.json", ascii "x.gd"] : List Bytes).Nodup := by decide
    exact h

def commit (digit : Char) : String := String.ofList (List.replicate 40 digit)

def tableRepo : Repository where
  resolve := .ok
  tree sha := if sha = commit '1' then tableTree "var v = 1" else tableTree "var v = 2"

def noFlags : Measurement where
  read _ _ _ := .ok []
  current _ _ _ _ h n hn := by
    cases h
    cases hn

def sceneSpec (names : List String) : Value :=
  .obj [("scenarios", .arr (names.map (fun n => .obj [("name", .str n), ("scene", .str ("res://" ++ n ++ ".tscn"))])))]

def tablePlan : Plan :=
  ⟨.subset, ["a", "b"], ["b"], ["a"], false, ⟨commit '1', commit '2', String.ofList (List.replicate 64 '0'),
    none, none⟩, []⟩

/-- Only `b` is selected, though `a` leads to the changed file as well. -/
theorem table_change_skipped :
    selectScope asciiHost tableRepo (commit '1') (commit '2') (sceneSpec ["a", "b"]) noFlags = .ok tablePlan ∧
      ¬ SafePlan asciiHost tableRepo (sceneSpec ["a", "b"]) tablePlan := by
  refine ⟨rfl, fun h => ?_⟩
  have hscenario : ∃ fields scenarios s, inventory (sceneSpec ["a", "b"]) = .ok (fields, scenarios) ∧ s ∈ scenarios ∧
      s.1 = "a" ∧ sceneRoot fields s = some "a.tscn" :=
    ⟨_, _, _, rfl, List.mem_cons_self, rfl, rfl⟩
  obtain ⟨fields, scenarios, s, hinventory, hs, hname, hscene⟩ := hscenario
  have hout : s.1 ∈ tablePlan.unselectedScenarios := by
    rw [hname]
    exact List.mem_cons_self
  have hunaffected : Unaffected asciiHost (tableTree "var v = 1") (tableTree "var v = 2") "a.tscn" :=
    h.skipped rfl fields scenarios hinventory s hs hout "a.tscn" hscene
  have hscript : Reached asciiHost (tableTree "var v = 1") "a.tscn" "x.gd" := by
    have hroot : Reached asciiHost (tableTree "var v = 1") "a.tscn" "a.tscn" :=
      ⟨"a.tscn", List.mem_append_right _ List.mem_cons_self, by decide, .refl⟩
    have htable : Refers asciiHost (tableTree "var v = 1") "a.tscn" "t.json" :=
      ⟨ascii "res://t.json", by decide, .inl ⟨by decide, by decide⟩⟩
    have hread : Refers asciiHost (tableTree "var v = 1") "t.json" "x.gd" :=
      ⟨ascii "res://x.gd", by decide, .inl ⟨by decide, by decide⟩⟩
    exact (hroot.step htable).step hread
  exact absurd (hunaffected.identical "x.gd" hscript) (by decide)

/-- The references of a tree, read from all its files. -/
def pairsOf (host : Host) (t : Tree) : List (String × String) :=
  t.entries.flatMap (fun e => (host.strict e.path).toList.flatMap (fun p =>
    (resourcesOf (host.lossy e.content)).map (fun q => (p, q)) ++
      (tokens host.word (host.lossy e.content)).flatMap (fun name =>
        t.entries.flatMap (fun d => if name ∈ classNamesOf host.word (host.lossy d.content) then
          (host.strict d.path).toList.map (fun q => (p, q)) else []))))

theorem refers_pairsOf {t : Tree} {p q : String} (h : Refers host t p q) : (p, q) ∈ pairsOf host t := by
  obtain ⟨bytes, hbytes, hcases⟩ := h
  obtain ⟨e, he, hpath, rfl⟩ := content_iff.mp hbytes
  refine List.mem_flatMap.mpr ⟨e, he, List.mem_flatMap.mpr ⟨p, Option.mem_toList.mpr hpath, ?_⟩⟩
  rcases hcases with ⟨hres, -⟩ | ⟨-, name, hname, bytes', hbytes', -, -, hclass⟩
  · exact List.mem_append_left _ (List.mem_map_of_mem hres)
  · obtain ⟨d, hd, hpath', rfl⟩ := content_iff.mp hbytes'
    refine List.mem_append_right _ (List.mem_flatMap.mpr ⟨name, hname, List.mem_flatMap.mpr ⟨d, hd, ?_⟩⟩)
    rw [if_pos hclass]
    exact List.mem_map_of_mem (Option.mem_toList.mpr hpath')

/-- Scene `a` names a class and a table that leads nowhere, scene `b` the script that changes. -/
def kitTree (x : String) : Tree where
  entries := [file "a.tscn" "res://t.json Kit", file "b.tscn" "res://x.gd", file "k.gd" "class_name Kit",
    file "t.json" "{}",
    ⟨"100644", "blob", ascii "x.gd", ascii x⟩]
  distinct := by
    have h : ([ascii "a.tscn", ascii "b.tscn", ascii "k.gd", ascii "t.json", ascii "x.gd"] : List Bytes).Nodup := by
      decide
    exact h

def kitRepo : Repository where
  resolve := .ok
  tree sha := if sha = commit '1' then kitTree "var v = 1" else kitTree "var v = 2"

def kitFiles : List String := ["a.tscn", "t.json", "k.gd"]

theorem kit_sighted {x y : String} (hpairs : ∀ r ∈ pairsOf asciiHost (kitTree x), r.1 ∈ kitFiles →
    r.1 ≠ "t.json" ∧ r.2 ∈ kitFiles)
    (hautoloads : autoloadsOf asciiHost (kitTree x) = [])
    (hread : ∀ p ∈ kitFiles, p ≠ "t.json" → ReadText asciiHost (kitTree x) p)
    (hsame : (kitTree x).content asciiHost "t.json" = (kitTree y).content asciiHost "t.json") :
    Sighted asciiHost (kitTree x) (kitTree y) "a.tscn" where
  autoload := by
    intro a ha
    rw [hautoloads] at ha
    exact absurd ha List.not_mem_nil
  through := by
    rintro p q ⟨r, hroot, -, hpath⟩ hunread hpq
    have hfile : p ∈ kitFiles := by
      clear hunread hpq
      induction hpath with
      | refl =>
        rw [hautoloads] at hroot
        rw [List.mem_singleton.mp hroot]
        exact List.mem_cons_self
      | tail _ hab ih => exact (hpairs _ (refers_pairsOf hab) ih).2
    obtain rfl : p = "t.json" := by
      by_contra hne
      exact hunread (hread p hfile hne)
    cases hpq.cases_head with
    | inl heq =>
      rw [← heq]
      exact hsame
    | inr hnext =>
      obtain ⟨b, hb, -⟩ := hnext
      exact absurd rfl (hpairs _ (refers_pairsOf hb) hfile).1

def kitPlan : Plan :=
  ⟨.subset, ["a", "b"], ["b"], ["a"], false, ⟨commit '1', commit '2', String.ofList (List.replicate 64 '0'),
    none, none⟩, []⟩

/-- Scene `a` is left out, and leads to the same files. -/
theorem kit_safe :
    selectScope asciiHost kitRepo (commit '1') (commit '2') (sceneSpec ["a", "b"]) noFlags = .ok kitPlan ∧
      Unaffected asciiHost (kitTree "var v = 1") (kitTree "var v = 2") "a.tscn" := by
  have hplan : selectScope asciiHost kitRepo (commit '1') (commit '2') (sceneSpec ["a", "b"]) noFlags =
      .ok kitPlan := rfl
  have hscenario : ∃ fields scenarios s, inventory (sceneSpec ["a", "b"]) = .ok (fields, scenarios) ∧ s ∈ scenarios ∧
      s.1 = "a" ∧ sceneRoot fields s = some "a.tscn" :=
    ⟨_, _, _, rfl, List.mem_cons_self, rfl, rfl⟩
  obtain ⟨fields, scenarios, s, hinventory, hs, hname, hscene⟩ := hscenario
  have hout : s.1 ∈ kitPlan.unselectedScenarios := by
    rw [hname]
    exact List.mem_cons_self
  have htraced : Traced asciiHost (kitTree "var v = 1") (kitTree "var v = 2") "a.tscn" := by
    constructor
    · exact kit_sighted (by decide) (by decide) (by decide) (by decide)
    · exact kit_sighted (by decide) (by decide) (by decide) (by decide)
  exact ⟨hplan, ((selectScope_safe hplan).2 rfl fields scenarios hinventory (commit '1') (commit '2') rfl rfl s hs hout
    "a.tscn" hscene).mpr htraced⟩

end AItelier.Scope
