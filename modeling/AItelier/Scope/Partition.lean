import AItelier.Scope.Selection

namespace AItelier.Scope

open AItelier.Lib

variable {host : Host} {spec : Value} {fields : Dict} {scenarios : List Scenario} {p : Plan}

/-- What is explicit in a plan: the parts, the marker and the reason of a fallback. -/
structure Explicit (p : Plan) : Prop where
  named : ∀ n ∈ p.allScenarios, n ≠ ""
  distinct : p.allScenarios.Nodup
  parts : ∃ part : String → Bool, p.selectedScenarios = p.allScenarios.filter part ∧
    p.unselectedScenarios = p.allScenarios.filter (fun n => !part n)
  nonempty : p.selectedScenarios ≠ []
  marker : p.coverage = .full ↔ p.unselectedScenarios = []
  fallback : p.fallbackFull = true → p.coverage = .full ∧
  ∃ text, p.selectionBasis.fallbackReason = some text ∧ text ≠ ""
  digest : State.isHexOf 64 p.selectionBasis.specSha256 = true

theorem scenario?_name {v : Value} {s : Scenario} (h : scenario? v = some s) : s.1 ≠ "" := by
  cases v with
  | obj fields =>
    simp only [scenario?] at h
    split at h
    · split at h
      · cases h
      · next hne =>
        cases h
        exact hne
    · cases h
  | _ => cases h

theorem mapM_scenario?_names {items : List Value} (h : items.mapM scenario? = some scenarios) :
    (items ≠ [] → scenarios ≠ []) ∧ ∀ s ∈ scenarios, s.1 ≠ "" := by
  induction items generalizing scenarios with
  | nil =>
    cases h
    exact ⟨fun h => absurd rfl h, fun _ h => absurd h List.not_mem_nil⟩
  | cons v items ih =>
    rw [List.mapM_cons] at h
    simp only [Option.bind_eq_bind, Option.bind_eq_some_iff] at h
    obtain ⟨s, hs, rest, hrest, heq⟩ := h
    cases heq
    refine ⟨fun _ => List.cons_ne_nil _ _, fun q hq => ?_⟩
    rcases List.mem_cons.mp hq with rfl | hq
    · exact scenario?_name hs
    · exact (ih hrest).2 q hq

theorem inventory_names (h : inventory spec = .ok (fields, scenarios)) :
    scenarios ≠ [] ∧ (scenarios.map Prod.fst).Nodup ∧ ∀ s ∈ scenarios, s.1 ≠ "" := by
  cases spec with
  | obj fields' =>
    simp only [inventory] at h
    split at h
    · split at h
      · cases h
      · next hne =>
        split at h
        · next hitems =>
          split at h
          · next hnodup =>
            cases h
            obtain ⟨hsome, hnames⟩ := mapM_scenario?_names hitems
            exact ⟨hsome hne, hnodup, hnames⟩
          · cases h
        · cases h
    · cases h
  | _ => cases h

theorem fallback_explicit (hnonempty : scenarios ≠ []) (hnodup : (scenarios.map Prod.fst).Nodup)
    (hnames : ∀ s ∈ scenarios, s.1 ≠ "") {basis : Basis} (hdigest : State.isHexOf 64 basis.specSha256 = true)
    (always : List String) (f : Fault) : Explicit (fallback (scenarios.map Prod.fst) basis always f) where
  named := by
    intro n hn
    obtain ⟨s, hs, rfl⟩ := List.mem_map.mp hn
    exact hnames s hs
  distinct := hnodup
  parts := ⟨fun _ => true, by simp [fallback], by simp [fallback]⟩
  nonempty := by simpa [fallback] using hnonempty
  marker := by simp [fallback]
  fallback := by
    intro _
    refine ⟨rfl, f.render, rfl, ?_⟩
    intro hempty
    have hlen := congrArg (fun s => s.toList.length) hempty
    simp [Fault.render] at hlen
  digest := hdigest

/-- A selection of some of the scenarios, by their names. -/
theorem partition_explicit (hnodup : (scenarios.map Prod.fst).Nodup) (hnames : ∀ s ∈ scenarios, s.1 ≠ "")
    {basis : Basis} (hdigest : State.isHexOf 64 basis.specSha256 = true) (always : List String)
    {selected : List String} (hselected : selected ≠ []) (hin : ∀ n ∈ selected, n ∈ scenarios.map Prod.fst) :
    Explicit (partition (scenarios.map Prod.fst) selected basis always) where
  named := by
    intro n hn
    obtain ⟨s, hs, rfl⟩ := List.mem_map.mp hn
    exact hnames s hs
  distinct := hnodup
  parts := ⟨fun n => decide (n ∈ selected), rfl, rfl⟩
  nonempty := by
    obtain ⟨n, hn⟩ := List.exists_mem_of_ne_nil _ hselected
    exact List.ne_nil_of_mem (List.mem_filter.mpr ⟨hin n hn, decide_eq_true hn⟩)
  marker := by
    have hempty : (scenarios.map Prod.fst).filter (fun n => !decide (n ∈ selected)) = [] ↔
        ∀ n ∈ scenarios.map Prod.fst, n ∈ selected := by
      rw [List.filter_eq_nil_iff]
      simp
    simp only [partition]
    rw [hempty]
    split
    · next hall => exact ⟨fun _ => hall.2, fun _ => rfl⟩
    · next hnot => exact ⟨Marker.noConfusion, fun hall => absurd ⟨hin, hall⟩ hnot⟩
  fallback := fun h => nomatch h
  digest := hdigest

theorem dependencies_name {base head : Graph} {headFiles changed : List String} {s : Scenario}
    {r : String × List String}
    (h : dependencies base head headFiles changed fields s = .ok r) : r.1 = s.1 := by
  simp only [dependencies, bind_ok, pure_ok] at h
  obtain ⟨_, _, _, _, _, _, _, _, rfl⟩ := h
  rfl

theorem impact_names {base head : Tree} {impacted : List String}
    (h : impact host base head fields scenarios = .ok impacted) :
    ∀ n ∈ impacted, n ∈ scenarios.map Prod.fst := by
  simp only [impact, bind_ok, pure_ok] at h
  obtain ⟨_, _, _, _, _, _, _, _, _, _, rounds, hrounds, _, _, rfl⟩ := h
  intro n hn
  rw [← mapM_map (g := Prod.fst) (k := Prod.fst) (fun s r => dependencies_name) hrounds]
  exact List.map_subset _ (List.filter_subset_self _) hn

theorem withReplays_names {always : List String} (h : ∀ n ∈ always, n ∈ scenarios.map Prod.fst) :
    ∀ n ∈ withReplays host scenarios always, n ∈ scenarios.map Prod.fst := by
  intro n hn
  rcases List.mem_append.mp hn with hn | hn
  · exact h n hn
  · exact List.map_subset _ (List.filter_subset_self _) hn

theorem select_names {base head : Tree} {always : Except Fault (List String)} {selected : List String}
    (halways : ∀ l, always = .ok l → ∀ n ∈ l, n ∈ scenarios.map Prod.fst)
    (h : select host base head fields scenarios always = .ok selected) :
    selected ≠ [] ∧ ∀ n ∈ selected, n ∈ scenarios.map Prod.fst := by
  cases always with
  | error f =>
    simp only [select] at h
    split at h
    · simp only [bind_ok] at h
      obtain ⟨_, _, h⟩ := h
      cases h
    · cases h
  | ok always =>
    simp only [select, bind_ok, ensure_ok, pure_ok] at h
    obtain ⟨impacted, himpact, _, hne, rfl⟩ := h
    refine ⟨hne, fun n hn => ?_⟩
    rcases List.mem_append.mp hn with hn | hn
    · exact impact_names himpact n hn
    · exact halways always rfl n hn

/-- The two ways in which `select_scope` returns. -/
theorem selectScope_cases {repo : Repository} {base head : String} {measurement : Measurement}
    (h : selectScope host repo base head spec measurement = .ok p) :
    ∃ fields scenarios, inventory spec = .ok (fields, scenarios) ∧
      ((∃ basis always f, basis.specSha256 = host.digest fields ∧
        p = fallback (scenarios.map Prod.fst) basis always f) ∨
      ∃ baseSha headSha always selected, repo.resolve base = .ok baseSha ∧ repo.resolve head = .ok headSha ∧
        always = (measurement.read headSha fields (scenarios.map Prod.fst)).map (withReplays host scenarios) ∧
        select host (repo.tree baseSha) (repo.tree headSha) fields scenarios always = .ok selected ∧
        p = partition (scenarios.map Prod.fst) selected ⟨baseSha, headSha, host.digest fields,
          measurementError always, none⟩
          (alwaysIncluded always)) := by
  simp only [selectScope, bind_ok] at h
  obtain ⟨⟨fields, scenarios⟩, hinventory, h⟩ := h
  refine ⟨fields, scenarios, hinventory, ?_⟩
  dsimp only at h
  split at h
  · rw [pure_ok] at h
    exact .inl ⟨_, _, _, rfl, h.symm⟩
  · rw [pure_ok] at h
    exact .inl ⟨_, _, _, rfl, h.symm⟩
  · next baseSha headSha hbase hhead =>
    split at h
    · rw [pure_ok] at h
      exact .inl ⟨_, _, _, rfl, h.symm⟩
    · next selected hselect =>
      rw [pure_ok] at h
      exact .inr ⟨baseSha, headSha, _, selected, hbase, hhead, rfl, hselect, h.symm⟩

theorem selectScope_explicit {repo : Repository} {base head : String} {measurement : Measurement}
    (h : selectScope host repo base head spec measurement = .ok p) : Explicit p := by
  obtain ⟨fields, scenarios, hinventory, hcases⟩ := selectScope_cases h
  obtain ⟨hnonempty, hnodup, hnames⟩ := inventory_names hinventory
  rcases hcases with ⟨basis, always, f, hdigest, rfl⟩ |
    ⟨baseSha, headSha, always, selected, _, _, halways, hselect, rfl⟩
  · exact fallback_explicit hnonempty hnodup hnames (hdigest ▸ host.hex fields) always f
  · have hin : ∀ l, always = .ok l → ∀ n ∈ l, n ∈ scenarios.map Prod.fst := by
      intro l hl
      rw [halways, map_ok] at hl
      obtain ⟨read, hread, rfl⟩ := hl
      exact withReplays_names (measurement.current headSha fields _ read hread)
    obtain ⟨hne, hsub⟩ := select_names hin hselect
    exact partition_explicit hnodup hnames (host.hex fields) _ hne hsub

theorem mapM_nameText? {names : List String} (h : ∀ n ∈ names, n ≠ "") :
    (names.map Value.str).mapM nameText? = some names := by
  induction names with
  | nil => rfl
  | cons n names ih =>
    have hn : nameText? (.str n) = some n := if_neg (h n List.mem_cons_self)
    rw [List.map_cons, List.mapM_cons, hn, ih (fun m hm => h m (List.mem_cons_of_mem n hm))]
    rfl

theorem names?_textList {scope : Dict} {key : String} {names : List String} (hget : scope.get key = textList names)
    (hnames : ∀ n ∈ names, n ≠ "") (hnodup : names.Nodup) : names? scope key = some names := by
  rw [names?, hget, textList]
  dsimp only
  rw [mapM_nameText? hnames, Option.bind_some, if_pos hnodup]

theorem basisRefusal_document {scope : Dict} (hp : Explicit p)
    (hhead : State.isHexOf 40 p.selectionBasis.headSha = true)
    (hbasis : scope.get "selection_basis" = .obj p.selectionBasis.document)
    (hfallback : scope.get "fallback_full" = .bool p.fallbackFull) : basisRefusal scope = none := by
  have hsha : Dict.get p.selectionBasis.document "head_sha" = .str p.selectionBasis.headSha := rfl
  have hspec : Dict.get p.selectionBasis.document "spec_sha256" = .str p.selectionBasis.specSha256 := rfl
  rw [basisRefusal, hbasis]
  dsimp only
  rw [hsha, hspec, State.isHexText, State.isHexText, hhead, hp.digest, hfallback]
  cases hfull : p.fallbackFull with
  | false => rfl
  | true =>
    obtain ⟨text, htext, hne⟩ := (hp.fallback hfull).2
    have hreason : (Dict.get p.selectionBasis.document "fallback_reason").truthy = true := by
      have hget : Dict.get p.selectionBasis.document "fallback_reason" = .str text := by
        rw [Basis.document, htext]
        cases p.selectionBasis.measurementError <;> rfl
      rw [hget, Value.truthy]
      simpa using hne
    rw [hreason]
    rfl

theorem partitionRefusal_document {scope : Dict} (hp : Explicit p)
    (hhead : State.isHexOf 40 p.selectionBasis.headSha = true)
    (hcoverage : scope.get "coverage" = .str p.coverage.text)
    (hbasis : scope.get "selection_basis" = .obj p.selectionBasis.document)
    (hfallback : scope.get "fallback_full" = .bool p.fallbackFull) :
    partitionRefusal scope p.allScenarios p.selectedScenarios p.unselectedScenarios = none := by
  obtain ⟨part, hselected, hunselected⟩ := hp.parts
  have hsel : ∀ n, n ∈ p.selectedScenarios ↔ n ∈ p.allScenarios ∧ part n = true := by
    intro n
    rw [hselected, List.mem_filter]
  have hunsel : ∀ n, n ∈ p.unselectedScenarios ↔ n ∈ p.allScenarios ∧ part n = false := by
    intro n
    rw [hunselected, List.mem_filter, Bool.not_eq_true']
  have hall : p.allScenarios ≠ [] := by
    obtain ⟨n, hn⟩ := List.exists_mem_of_ne_nil _ hp.nonempty
    exact List.ne_nil_of_mem ((hsel n).mp hn).1
  have hsplit : ¬ (p.allScenarios = [] ∨ p.selectedScenarios = [] ∨
      (∃ n ∈ p.selectedScenarios, n ∈ p.unselectedScenarios) ∨
      ¬ (∀ n ∈ p.allScenarios, n ∈ p.selectedScenarios ∨ n ∈ p.unselectedScenarios) ∨
      ¬ (∀ n ∈ p.selectedScenarios ++ p.unselectedScenarios, n ∈ p.allScenarios)) := by
    rintro (h | h | ⟨n, hn, hn'⟩ | h | h)
    · exact hall h
    · exact hp.nonempty h
    · have hyes := ((hsel n).mp hn).2
      rw [((hunsel n).mp hn').2] at hyes
      cases hyes
    · refine h (fun n hn => ?_)
      cases hpart : part n with
      | true => exact .inl ((hsel n).mpr ⟨hn, hpart⟩)
      | false => exact .inr ((hunsel n).mpr ⟨hn, hpart⟩)
    · refine h (fun n hn => ?_)
      rcases List.mem_append.mp hn with hn | hn
      · exact ((hsel n).mp hn).1
      · exact ((hunsel n).mp hn).1
  have horder : p.selectedScenarios = p.allScenarios.filter (fun n => decide (n ∈ p.selectedScenarios)) := by
    conv_lhs => rw [hselected]
    refine List.filter_congr (fun n hn => ?_)
    rw [Bool.eq_iff_iff, decide_eq_true_eq, hsel n]
    exact ⟨fun h => ⟨hn, h⟩, fun h => h.2⟩
  have horder' : p.unselectedScenarios = p.allScenarios.filter (fun n => decide (n ∈ p.unselectedScenarios)) := by
    conv_lhs => rw [hunselected]
    refine List.filter_congr (fun n hn => ?_)
    rw [Bool.eq_iff_iff, decide_eq_true_eq, hunsel n, Bool.not_eq_true']
    exact ⟨fun h => ⟨hn, h⟩, fun h => h.2⟩
  have hmarker : (scope.get "coverage").isText "full" = decide (p.unselectedScenarios = []) := by
    rw [hcoverage, Bool.eq_iff_iff, decide_eq_true_eq, ← hp.marker]
    cases p.coverage <;> simp [Value.isText, Marker.text]
  rw [partitionRefusal, if_neg hsplit, if_neg (fun h => h horder), if_neg (fun h => h horder'),
    if_neg (fun h => h hmarker), hfallback]
  dsimp only
  rw [basisRefusal_document hp hhead hbasis hfallback]
  split
  · next hrefused =>
    rw [Bool.and_eq_true, Bool.not_eq_true', hcoverage] at hrefused
    rw [(hp.fallback hrefused.1).1] at hrefused
    exact absurd hrefused.2 (by decide)
  · rfl

/-- An explicit plan with a resolved head is accepted. -/
theorem validateCoverage_document (hp : Explicit p) (hhead : State.isHexOf 40 p.selectionBasis.headSha = true) :
    validateCoverage p.document = none := by
  obtain ⟨part, hselected, hunselected⟩ := hp.parts
  have hall : names? p.fields "all_scenarios" = some p.allScenarios := names?_textList rfl hp.named hp.distinct
  have hsel : names? p.fields "selected_scenarios" = some p.selectedScenarios := by
    apply names?_textList rfl
    · intro n hn
      rw [hselected] at hn
      exact hp.named n (List.mem_of_mem_filter hn)
    · rw [hselected]
      exact hp.distinct.filter _
  have hunsel : names? p.fields "unselected_scenarios" = some p.unselectedScenarios := by
    apply names?_textList rfl
    · intro n hn
      rw [hunselected] at hn
      exact hp.named n (List.mem_of_mem_filter hn)
    · rw [hunselected]
      exact hp.distinct.filter _
  have hmarker : ((Dict.get p.fields "coverage").isText "full" ||
      (Dict.get p.fields "coverage").isText "subset") = true := by
    have hget : Dict.get p.fields "coverage" = .str p.coverage.text := rfl
    rw [hget]
    cases p.coverage <;> rfl
  rw [Plan.document, validateCoverage, hmarker, hall, hsel, hunsel]
  exact partitionRefusal_document hp hhead rfl rfl rfl

end AItelier.Scope
