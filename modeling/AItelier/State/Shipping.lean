import Mathlib.Data.List.Dedup
import AItelier.Lib.Entries
import AItelier.Lib.Worklist
import AItelier.State.Graph

namespace AItelier.State

open AItelier.Lib

/-- A facet map as the rules about shipping read it: any label, also one that no check lets in. -/
abbrev Labels := Entries String (Option String)

def labelled (facets : Labels) (k label : String) : Prop := facets.get k = some (some label)

instance (facets : Labels) (k label : String) : Decidable (labelled facets k label) :=
  inferInstanceAs (Decidable (facets.get k = some (some label)))

/-- `node_key[:-len(suffix)]`. -/
def cut (s suffix : String) : String := String.ofList (s.toList.take (s.toList.length - suffix.toList.length))

/-- `facet_stem`. -/
def facetStem (facets : Labels) (nodeKey : String) : String :=
  if labelled facets nodeKey "contract" ∧ endsIn nodeKey ".contract" then cut nodeKey ".contract"
  else if labelled facets nodeKey "test" ∧ endsIn nodeKey ".test" then cut nodeKey ".test"
  else nodeKey

/-- Everything below a node. A node is taken off the stack as often as an edge put it there,
so there is a round for each edge. -/
def below (graph : Graph) (node : String) : List String :=
  explore (depsIn graph) ((depsIn graph node).length + owing (depsIn graph) (graph.map Prod.fst).dedup [])
    [] (depsIn graph node)

/-- The condition under which the stem of a contract is left out of what a node depends on. -/
def forgotten (facets : Labels) (graph : Graph) (node c : String) : Prop :=
  labelled facets c "contract" ∧ facetStem facets c ∈ facets.map Prod.fst ∧
    ¬ labelled facets (facetStem facets c) "contract" ∧ facetStem facets c ≠ node ∧
    facetStem facets c ∉ depsIn graph node

instance (facets : Labels) (graph : Graph) (node c : String) : Decidable (forgotten facets graph node c) :=
  inferInstanceAs (Decidable (_ ∧ _ ∧ _ ∧ _ ∧ _))

def missing (facets : Labels) (graph : Graph) (node : String) : List String :=
  sortKeys (((below graph node).filter (fun c => decide (forgotten facets graph node c))).map (facetStem facets)).dedup

/-- `shipping_gaps`. -/
def shippingGaps (facets : Labels) (graph : Graph) : Entries String (List String) :=
  facets.filterMap (fun e =>
    if e.2 = some "integration" ∧ missing facets graph e.1 ≠ [] then some (e.1, missing facets graph e.1) else none)

theorem mem_below {graph : Graph} {node c : String} :
    c ∈ below graph node ↔ Relation.TransGen (fun a b => b ∈ depsIn graph a) node c := by
  have hleaf : ∀ a, a ∉ (graph.map Prod.fst).dedup → depsIn graph a = [] := by
    intro a ha
    have hnone : graph.find? (fun e => decide (e.1 = a)) = none := by
      apply List.find?_eq_none.mpr
      intro e he hea
      exact ha (List.mem_dedup.mpr (List.mem_map.mpr ⟨e, he, of_decide_eq_true hea⟩))
    rw [depsIn, hnone]
    rfl
  rw [Relation.TransGen.head'_iff]
  refine Iff.trans (mem_explore (List.nodup_dedup _) hleaf _ (fun _ h => absurd h List.not_mem_nil) (Nat.le_refl _)) ?_
  simp only [List.not_mem_nil, false_or]

theorem endsIn_iff {s suffix : String} : endsIn s suffix = true ↔ s = cut s suffix ++ suffix := by
  have hsplit : s.toList = (cut s suffix).toList ++ s.toList.drop (s.toList.length - suffix.toList.length) := by
    rw [cut, String.toList_ofList, List.take_append_drop]
  constructor
  · intro h
    apply String.toList_injective
    rw [String.toList_append]
    rw [of_decide_eq_true h] at hsplit
    exact hsplit
  · intro h
    apply decide_eq_true
    have happ : (cut s suffix).toList ++ suffix.toList = s.toList := by
      rw [← String.toList_append, ← h]
    rw [hsplit] at happ
    exact (List.append_cancel_left happ).symm

theorem cut_append (s suffix : String) : cut (s ++ suffix) suffix = s := by
  apply String.toList_injective
  rw [cut, String.toList_ofList, String.toList_append, List.length_append, Nat.add_sub_cancel]
  exact List.take_left

theorem endsIn_append (s suffix : String) : endsIn (s ++ suffix) suffix = true := by
  rw [endsIn_iff, cut_append]

/-- A labelled node belongs to the goal whose name it extends; every other node is its own goal. -/
inductive BelongsTo (facets : Labels) : String → String → Prop
  | contract {s : String} (h : labelled facets (s ++ ".contract") "contract") : BelongsTo facets (s ++ ".contract") s
  | test {s : String} (h : labelled facets (s ++ ".test") "test") : BelongsTo facets (s ++ ".test") s
  | own {s : String} (hc : ¬ (labelled facets s "contract" ∧ endsIn s ".contract"))
      (ht : ¬ (labelled facets s "test" ∧ endsIn s ".test")) : BelongsTo facets s s

theorem labelled_unique {facets : Labels} {k a b : String} (ha : labelled facets k a) (hb : labelled facets k b) :
    a = b := by
  rw [labelled, ha, Option.some.injEq, Option.some.injEq] at hb
  exact hb

theorem facetStem_iff {facets : Labels} {c s : String} : facetStem facets c = s ↔ BelongsTo facets c s := by
  constructor
  · rintro rfl
    unfold facetStem
    split
    · next h =>
      have hc := endsIn_iff.mp h.2
      have hown : labelled facets (cut c ".contract" ++ ".contract") "contract" := hc ▸ h.1
      have := BelongsTo.contract hown
      rwa [← hc] at this
    · next hc =>
      split
      · next h =>
        have ht := endsIn_iff.mp h.2
        have hown : labelled facets (cut c ".test" ++ ".test") "test" := ht ▸ h.1
        have := BelongsTo.test hown
        rwa [← ht] at this
      · next ht => exact .own hc ht
  · intro h
    cases h with
    | contract h => rw [facetStem, if_pos ⟨h, endsIn_append _ _⟩, cut_append]
    | test h =>
      have hc : ¬ (labelled facets (s ++ ".test") "contract" ∧ endsIn (s ++ ".test") ".contract") := fun hl =>
        absurd (labelled_unique h hl.1) (by decide)
      rw [facetStem, if_neg hc, if_pos ⟨h, endsIn_append _ _⟩, cut_append]
    | own hc ht => rw [facetStem, if_neg hc, if_neg ht]

end AItelier.State
