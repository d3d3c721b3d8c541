import AItelier.State.Impact

namespace AItelier.State

open AItelier.Lib

variable {rows : List DesignRevision} {root pin : DesignRef} {path : List DesignRef}
  {wave : Wave DesignRef} {most : Nat}

/-- The selected design `a` depends on `b`. -/
def Depends (rows : List DesignRevision) (a b : DesignRef) : Prop :=
  ∃ row ∈ rows, row.ref = a ∧ ∃ rel ∈ row.content.relations, rel.type = .dependsOn ∧ rel.target = b

instance (rows : List DesignRevision) (a b : DesignRef) : Decidable (Depends rows a b) :=
  inferInstanceAs (Decidable (∃ row ∈ rows, row.ref = a ∧
    ∃ rel ∈ row.content.relations, rel.type = .dependsOn ∧ rel.target = b))

/-- A chain of `depends_on` relations, from the changed design to one that depends on it. -/
def Leads (rows : List DesignRevision) (root : DesignRef) (path : List DesignRef) (pin : DesignRef) : Prop :=
  path.head? = some root ∧ path.getLast? = some pin ∧ path.IsChain (fun a b => Depends rows b a)

theorem mem_dependentsOf {s t : DesignRef} : s ∈ dependentsOf rows t ↔ Depends rows s t := by
  simp only [dependentsOf, mem_sortPins, List.mem_flatMap, List.mem_map, List.mem_filter, DesignContent.targets,
    decide_eq_true_eq, Depends]
  constructor
  · rintro ⟨row, hrow, _, ⟨⟨rel, hrel, rfl⟩, htarget⟩, href⟩
    exact ⟨row, hrow, href, rel, hrel.1, hrel.2, htarget⟩
  · rintro ⟨row, hrow, href, rel, hrel, htype, htarget⟩
    exact ⟨row, hrow, _, ⟨⟨rel, ⟨hrel, htype⟩, rfl⟩, htarget⟩, href⟩

theorem trail_leads : Trail (dependentsOf rows) root path pin ↔ Leads rows root path pin := by
  simp only [trail_iff, mem_dependentsOf, Leads]

theorem reaches_iff : (∃ path, Trail (dependentsOf rows) root path pin) ↔
    pin = root ∨ Relation.TransGen (Depends rows) pin root := by
  rw [exists_trail_iff]
  simp only [mem_dependentsOf]
  rw [← Relation.reflTransGen_swap, Relation.reflTransGen_iff_eq_or_transGen]
  exact or_congr_left eq_comm

theorem row_of_depends {s t : DesignRef} (h : Depends rows s t) :
    ∃ row, rows.find? (fun row => decide (row.ref = s)) = some row ∧ row.ref = s := by
  obtain ⟨row, hrow, href, -⟩ := h
  obtain ⟨found, hfound⟩ := Option.isSome_iff_exists.mp
    (List.find?_isSome.mpr ⟨row, hrow, decide_eq_true href⟩ : (rows.find? (fun row => decide (row.ref = s))).isSome)
  exact ⟨found, hfound, by simpa using List.find?_some hfound⟩

theorem row_of_trail (h : Trail (dependentsOf rows) root path pin) (hne : pin ≠ root) :
    ∃ row, rows.find? (fun row => decide (row.ref = pin)) = some row ∧ row.ref = pin := by
  cases h with
  | root => exact absurd rfl hne
  | step _ edge => exact row_of_depends (mem_dependentsOf.mp edge)

/-- The designs that are listed are those that were visited, each once, with the way to it. -/
theorem dependentDesigns_refs (h : Searched (dependentsOf rows) root most wave) :
    (dependentDesigns rows root wave most).map Dependent.ref =
      sortPins ((wave.parents.map Prod.fst).filter (fun pin => decide (pin ≠ root))) := by
  have hall : ∀ pin ∈ sortPins ((wave.parents.map Prod.fst).filter (fun pin => decide (pin ≠ root))),
      ∃ row, rows.find? (fun row => decide (row.ref = pin)) = some row ∧ row.ref = pin := by
    intro pin hpin
    obtain ⟨hkey, hne⟩ := List.mem_filter.mp (mem_sortPins.mp hpin)
    exact row_of_trail (h.trail pin hkey).1 (of_decide_eq_true hne)
  unfold dependentDesigns
  generalize sortPins ((wave.parents.map Prod.fst).filter (fun pin => decide (pin ≠ root))) = pins at hall
  induction pins with
  | nil => rfl
  | cons pin pins ih =>
    obtain ⟨row, hrow, href⟩ := hall pin List.mem_cons_self
    rw [List.filterMap_cons, hrow, Option.map_some]
    simp only [List.map_cons, ih (fun pin hpin => hall pin (List.mem_cons_of_mem _ hpin)), dependent, href]

theorem mem_dependentDesigns {d : Dependent} (h : d ∈ dependentDesigns rows root wave most) :
    ∃ row : DesignRevision, d = dependent wave most row ∧ row.ref ∈ wave.parents.map Prod.fst := by
  obtain ⟨pin, hpin, hd⟩ := List.mem_filterMap.mp h
  obtain ⟨row, hrow, rfl⟩ := Option.map_eq_some_iff.mp hd
  have href : row.ref = pin := by simpa using List.find?_some hrow
  exact ⟨row, rfl, href ▸ (List.mem_filter.mp (mem_sortPins.mp hpin)).1⟩

/-- What is told of a way: its length, and the way itself or its two ends. -/
structure Told (d : Dependent) (path : List DesignRef) : Prop where
  length : d.pathLength = path.length
  truncated : d.pathTruncated = true ↔ pathLimit < path.length
  whole : d.pathTruncated = false → d.path = path
  ends : d.pathTruncated = true →
    d.path = path.take (pathLimit / 2) ++ path.drop (path.length - pathLimit / 2)

theorem told_dependent (wave : Wave DesignRef) (most : Nat) (row : DesignRevision) :
    Told (dependent wave most row) (Wave.back wave.parents most row.ref).reverse := by
  refine ⟨rfl, decide_eq_true_iff, fun hwhole => ?_, fun hlong => ?_⟩
  · exact if_pos (Nat.le_of_not_lt (of_decide_eq_false hwhole))
  · exact if_neg (Nat.not_le_of_lt (of_decide_eq_true hlong))

theorem dependent_shortest (h : Searched (dependentsOf rows) root most wave) {d : Dependent}
    (hd : d ∈ dependentDesigns rows root wave most) :
    ∃ path, Leads rows root path d.ref ∧ (∀ other, Leads rows root other d.ref → path.length ≤ other.length) ∧
      Told d path := by
  obtain ⟨row, rfl, hkey⟩ := mem_dependentDesigns hd
  obtain ⟨htrail, hshortest⟩ := h.trail row.ref hkey
  exact ⟨_, trail_leads.mp htrail, fun other hother => hshortest other (trail_leads.mpr hother),
    told_dependent wave most row⟩

theorem mem_refs (h : Searched (dependentsOf rows) root most wave) :
    pin ∈ (dependentDesigns rows root wave most).map Dependent.ref ↔ pin ∈ wave.parents.map Prod.fst ∧ pin ≠ root := by
  rw [dependentDesigns_refs h, mem_sortPins, List.mem_filter, decide_eq_true_iff]

/-- The page that is not marked truncated has every dependent, and one that is marked lacks some. -/
theorem firstPage_exact (h : Searched (dependentsOf rows) root most wave) (limit : Nat) :
    (page (dependentDesigns rows root wave most) limit (!wave.clipped)).truncated = false ↔
      ∀ pin, pin ∈ (page (dependentDesigns rows root wave most) limit (!wave.clipped)).items.map Dependent.ref ↔
        pin ≠ root ∧ Relation.TransGen (Depends rows) pin root := by
  have hsound : ∀ pin, pin ∈ (dependentDesigns rows root wave most).map Dependent.ref →
      pin ≠ root ∧ Relation.TransGen (Depends rows) pin root := by
    intro pin hpin
    obtain ⟨hkey, hne⟩ := (mem_refs h).mp hpin
    exact ⟨hne, (reaches_iff.mp ⟨_, (h.trail pin hkey).1⟩).resolve_left hne⟩
  simp only [page, Bool.not_not, Bool.or_eq_false_iff, decide_eq_false_iff_not, Nat.not_lt]
  constructor
  · rintro ⟨hclipped, hfew⟩ pin
    rw [List.take_of_length_le hfew]
    refine ⟨hsound pin, fun ⟨hne, hdepends⟩ => ?_⟩
    obtain ⟨path, hpath⟩ := reaches_iff.mpr (.inr hdepends)
    exact (mem_refs h).mpr ⟨h.complete hclipped path pin hpath, hne⟩
  · intro hall
    constructor
    · by_contra hclipped
      obtain ⟨path, pin, hpath, hout⟩ := h.clipped (eq_true_of_ne_false hclipped)
      have hne : pin ≠ root := fun he => hout (he ▸ h.begun)
      have hin := (hall pin).mpr ⟨hne, (reaches_iff.mp ⟨path, hpath⟩).resolve_left hne⟩
      rw [List.map_take] at hin
      exact hout ((mem_refs h).mp (List.mem_of_mem_take hin)).1
    · by_contra hmore
      rw [Nat.not_le] at hmore
      have hnodup : ((dependentDesigns rows root wave most).map Dependent.ref).Nodup := by
        rw [dependentDesigns_refs h]
        exact (List.perm_insertionSort _ _).nodup_iff.mpr (h.distinct.filter _)
      have hlonger : limit < ((dependentDesigns rows root wave most).map Dependent.ref).length := by
        rw [List.length_map]
        exact hmore
      -- the first that is left out is a dependent, and is listed once only
      have hleft := List.getElem_mem hlonger
      have hshown := (hall _).mpr (hsound _ hleft)
      rw [List.map_take] at hshown
      obtain ⟨i, hi, hsame⟩ := List.mem_take_iff_getElem.mp hshown
      have := (hnodup.getElem_inj_iff).mp hsame
      omega

/-- The search ends and visits no more designs than it may. Each design that it lists comes with a
shortest chain of relations to it: the chain itself where the path is not marked truncated, else its
two ends and its length. What is not marked truncated is every dependent, and nothing else. -/
theorem impact_exact {db : DB} {p designId : String} {revision : Int} {baselineId : Option String}
    {limit maxVisits : Int}
    {r : Impact} (h : impact db p designId revision baselineId limit maxVisits = .ok r) :
    (traverse (candidateRows db p (r.baseline.selected.map Prod.fst)) r.subject.ref r.maxVisits).queue = [] ∧
    (r.maxVisits : Int) = maxVisits ∧ r.visited ≤ r.maxVisits ∧
    (∀ d ∈ r.dependentDesigns.items,
      ∃ path, Leads (candidateRows db p (r.baseline.selected.map Prod.fst)) r.subject.ref path d.ref ∧
        (∀ other, Leads (candidateRows db p (r.baseline.selected.map Prod.fst)) r.subject.ref other d.ref →
          path.length ≤ other.length) ∧ Told d path) ∧
    (r.dependentDesigns.truncated = false ↔ ∀ pin, pin ∈ r.dependentDesigns.items.map Dependent.ref ↔
      pin ≠ r.subject.ref ∧
        Relation.TransGen (Depends (candidateRows db p (r.baseline.selected.map Prod.fst))) pin r.subject.ref) := by
  simp only [impact, bind_ok, pure_ok] at h
  obtain ⟨limit', -, visits, hvisits, selected, -, baseline, -, pin, -, subject, -, rfl⟩ := h
  simp only [integer, bind_ok, ensure_ok, pure_ok] at hvisits
  obtain ⟨-, ⟨hmost, -⟩, rfl⟩ := hvisits
  have hsearched := searched (dependentsOf (candidateRows db p (baseline.selected.map Prod.fst))) subject.ref
    (by omega : 1 ≤ maxVisits.toNat)
  refine ⟨hsearched.finished, Int.toNat_of_nonneg (by omega), hsearched.few, fun d hd => ?_,
    firstPage_exact hsearched _⟩
  exact dependent_shortest hsearched (List.mem_of_mem_take hd)

namespace Sample

/-- A chain of designs, each depending on the one before it. -/
def link (i : Nat) : DesignRevision where
  projectId := "p"
  designId := "d" ++ toString i
  revision := 1
  content :=
    { title := "t", statement := "s", rationale := "r", openQuestions := [], scope := [("a", "b")]
      lifecycleStatus := .approved, kind := .rule, parentRevision := none
      relations := if i = 0 then [] else [⟨.dependsOn, ⟨"d" ++ toString (i - 1), 1⟩, "r"⟩] }
  contentHash := "h"
  author := "a"
  createdAt := "c"

/-- As many designs as a path shows, and one more. -/
def longChain : DB :=
  { DB.empty with
    projects := [⟨"p", "title", none⟩]
    designRevisions := (List.range 33).map link
    designBaselines := [⟨"p", "b", (List.range 33).map (fun i => (⟨"d" ++ toString i, 1⟩, "h")), "m", "a"⟩]
    designHeads := [⟨"p", "b"⟩] }

end Sample

/-- The path to the last design of a long chain is shown without its middle, which is no chain. -/
theorem impact_path_clipped :
    ∃ r, impact Sample.longChain "p" "d0" 1 none 50 50 = .ok r ∧ r.dependentDesigns.truncated = false ∧
      ∃ d ∈ r.dependentDesigns.items,
        ¬ Leads (candidateRows Sample.longChain "p" (r.baseline.selected.map Prod.fst)) r.subject.ref d.path d.ref := by
  have hrun : (match impact Sample.longChain "p" "d0" 1 none 50 50 with
      | .ok r => decide (r.dependentDesigns.truncated = false ∧ ∃ d ∈ r.dependentDesigns.items,
          ¬ d.path.IsChain (fun a b => Depends (candidateRows Sample.longChain "p"
            (r.baseline.selected.map Prod.fst)) b a))
      | .error _ => false) = true := by decide
  cases himpact : impact Sample.longChain "p" "d0" 1 none 50 50 with
  | error e =>
    rw [himpact] at hrun
    cases hrun
  | ok r =>
    rw [himpact] at hrun
    obtain ⟨hwhole, d, hd, hpath⟩ := of_decide_eq_true hrun
    exact ⟨r, rfl, hwhole, d, hd, fun hleads => hpath hleads.2.2⟩

theorem impact_exact_chain :
    ∃ r, impact Sample.longChain "p" "d0" 1 none 50 50 = .ok r ∧ r.visited ≤ r.maxVisits := by
  have hrun : (impact Sample.longChain "p" "d0" 1 none 50 50).isOk = true := by decide
  cases himpact : impact Sample.longChain "p" "d0" 1 none 50 50 with
  | error e =>
    rw [himpact] at hrun
    cases hrun
  | ok r => exact ⟨r, rfl, (impact_exact himpact).2.2.1⟩

end AItelier.State
