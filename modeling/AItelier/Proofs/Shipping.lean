import AItelier.State.Shipping

namespace AItelier.State

open AItelier.Lib Relation

variable {facets : Labels} {graph : Graph} {node s : String}

/-- `s` is a goal that `node` ships the contract of, and does not depend on itself. -/
structure Gap (facets : Labels) (graph : Graph) (node s : String) : Prop where
  shipped : ∃ c, TransGen (fun a b => b ∈ depsIn graph a) node c ∧ labelled facets c "contract" ∧ BelongsTo facets c s
  known : s ∈ facets.map Prod.fst
  built : ¬ labelled facets s "contract"
  other : s ≠ node
  absent : s ∉ depsIn graph node

theorem mem_missing : s ∈ missing facets graph node ↔ Gap facets graph node s := by
  rw [missing, mem_sortKeys, List.mem_dedup, List.mem_map]
  constructor
  · rintro ⟨c, hc, rfl⟩
    obtain ⟨hreach, hforgotten⟩ := List.mem_filter.mp hc
    obtain ⟨hlabel, hknown, hbuilt, hother, habsent⟩ := of_decide_eq_true hforgotten
    exact ⟨⟨c, mem_below.mp hreach, hlabel, facetStem_iff.mp rfl⟩, hknown, hbuilt, hother, habsent⟩
  · intro h
    obtain ⟨c, hreach, hlabel, hstem⟩ := h.shipped
    have hstem := facetStem_iff.mpr hstem
    subst hstem
    have hforgotten : forgotten facets graph node c := ⟨hlabel, h.known, h.built, h.other, h.absent⟩
    exact ⟨c, List.mem_filter.mpr ⟨mem_below.mpr hreach, decide_eq_true hforgotten⟩, rfl⟩

/-- A stem is listed once, after the stems before it in the order of their characters. -/
theorem missing_sorted (facets : Labels) (graph : Graph) (node : String) :
    (missing facets graph node).Pairwise (fun a b => a.toList < b.toList) := by
  have hsorted : (missing facets graph node).Pairwise (fun a b => a.toList ≤ b.toList) :=
    List.pairwise_insertionSort _ _
  have hnodup : (missing facets graph node).Nodup :=
    (List.perm_insertionSort _ _).nodup_iff.mpr (List.nodup_dedup _)
  refine (hsorted.and hnodup).imp (fun hab => lt_of_le_of_ne hab.1 (fun he => hab.2 (String.toList_injective he)))

theorem get_shippingGaps (hkeys : (facets.map Prod.fst).Nodup) (node : String) :
    (shippingGaps facets graph).get node =
      if labelled facets node "integration" ∧ missing facets graph node ≠ [] then some (missing facets graph node)
      else none := by
  have hmap : shippingGaps facets graph = facets.filterMap (fun e =>
      (if e.2 = some "integration" ∧ missing facets graph e.1 ≠ [] then some (missing facets graph e.1) else none).map
        (fun v => (e.1, v))) := by
    refine List.filterMap_congr (fun e _ => ?_)
    split <;> rfl
  rw [hmap, Entries.get_filterMap (fun k label =>
    if label = some "integration" ∧ missing facets graph k ≠ [] then some (missing facets graph k) else none) hkeys]
  by_cases hown : labelled facets node "integration"
  · rw [show facets.get node = some (some "integration") from hown, Option.bind_some]
    simp only [hown, true_and]
  · rw [if_neg (fun h => hown h.1), Option.bind_eq_none_iff]
    intro label hlabel
    refine if_neg (fun h => hown ?_)
    rw [labelled, hlabel, h.1]

/-- On any dependency map an integration node has listed, in order and once each, the goals whose
contracts it reaches and which it does not depend on itself; no other node has a list. -/
theorem shipping_gaps_exact (facets : Labels) (graph : Graph) (hkeys : (facets.map Prod.fst).Nodup) (node : String) :
    (labelled facets node "integration" →
      (∀ s, s ∈ ((shippingGaps facets graph).get node).getD [] ↔ Gap facets graph node s) ∧
        (((shippingGaps facets graph).get node).getD []).Pairwise (fun a b => a.toList < b.toList)) ∧
    (∀ l, (shippingGaps facets graph).get node = some l → labelled facets node "integration" ∧ l ≠ []) := by
  rw [get_shippingGaps hkeys]
  constructor
  · intro hown
    have hlist : (if labelled facets node "integration" ∧ missing facets graph node ≠ [] then
        some (missing facets graph node) else none).getD [] = missing facets graph node := by
      by_cases hm : missing facets graph node = []
      · rw [if_neg (fun h => h.2 hm), hm]
        rfl
      · rw [if_pos ⟨hown, hm⟩]
        rfl
    rw [hlist]
    exact ⟨fun s => mem_missing, missing_sorted facets graph node⟩
  · intro l hl
    split at hl
    · next h =>
      cases hl
      exact h
    · cases hl

/-- A gate that reaches a contract through another one, on a graph with a cycle and an edge to nowhere. -/
def gateFacets : Labels :=
  [("gate", some "integration"), ("a", some "content"), ("a.contract", some "contract"), ("b", none),
    ("b.contract", some "contract")]

def gateEdges : Graph :=
  [("gate", ["a", "a.contract"]), ("a.contract", ["b.contract", "gone"]), ("b.contract", ["a.contract"])]

theorem shipping_gaps_exact_gate :
    (∀ s, s ∈ ((shippingGaps gateFacets gateEdges).get "gate").getD [] ↔ Gap gateFacets gateEdges "gate" s) ∧
      (shippingGaps gateFacets gateEdges).get "gate" = some ["b"] :=
  ⟨((shipping_gaps_exact gateFacets gateEdges (by decide) "gate").1 (by rfl)).1, by decide⟩

end AItelier.State
