import Mathlib.Algebra.BigOperators.Group.List.Lemmas
import Mathlib.Logic.Relation
import Mathlib.Algebra.GroupWithZero.Nat

namespace AItelier.Lib

open Relation

variable {κ : Type*} [DecidableEq κ] {next : κ → List κ} {visited pending keys : List κ} {a b : κ}

def explore (next : κ → List κ) : Nat → List κ → List κ → List κ
  | 0, visited, _ => visited
  | n + 1, visited, pending =>
    match pending.getLast? with
    | none => visited
    | some a =>
      if a ∈ visited then explore next n visited pending.dropLast
      else explore next n (a :: visited) (pending.dropLast ++ next a)

/-- What the nodes that are not noted may still stack. -/
def owing (next : κ → List κ) (keys visited : List κ) : Nat :=
  ((keys.filter (fun k => decide (k ∉ visited))).map (fun k => (next k).length)).sum

/-- A node that is noted owes nothing more. -/
theorem owing_cons (hkeys : keys.Nodup) (hnext : ∀ a, a ∉ keys → next a = []) (ha : a ∉ visited) :
    owing next keys (a :: visited) + (next a).length = owing next keys visited := by
  have hrest : keys.filter (fun k => decide (k ∉ a :: visited)) =
      (keys.filter (fun k => decide (k ∉ visited))).erase a := by
    rw [(hkeys.filter _).erase_eq_filter, List.filter_filter]
    refine List.filter_congr (fun k _ => ?_)
    by_cases hk : k = a <;> simp [hk]
  unfold owing
  rw [hrest]
  by_cases hin : a ∈ keys
  · have hmem : a ∈ keys.filter (fun k => decide (k ∉ visited)) := List.mem_filter.mpr ⟨hin, decide_eq_true ha⟩
    rw [Nat.add_comm]
    exact List.sum_map_erase (fun k => (next k).length) hmem
  · have hout : a ∉ keys.filter (fun k => decide (k ∉ visited)) := fun h => hin (List.mem_of_mem_filter h)
    rw [List.erase_of_not_mem hout, hnext a hin]
    rfl

omit [DecidableEq κ] in
/-- A path from a noted node ends on one, or goes on from a stacked node. -/
theorem explore_frontier (hclosed : ∀ a ∈ visited, ∀ b ∈ next a, b ∈ visited ∨ b ∈ pending) (ha : a ∈ visited)
    (hr : ReflTransGen (fun a b => b ∈ next a) a b) :
    b ∈ visited ∨ ∃ c ∈ pending, ReflTransGen (fun a b => b ∈ next a) c b := by
  induction hr with
  | refl => exact .inl ha
  | @tail b c _ hbc ih =>
    rcases ih with hb | ⟨d, hd, hdb⟩
    · rcases hclosed b hb c hbc with hc | hc
      · exact .inl hc
      · exact .inr ⟨c, hc, .refl⟩
    · exact .inr ⟨d, hd, hdb.tail hbc⟩

/-- With a round for everything that is stacked or may still be, the search notes what was
noted and what the stacked nodes lead to. -/
theorem mem_explore (hkeys : keys.Nodup) (hnext : ∀ a, a ∉ keys → next a = []) (n : Nat) :
    ∀ {visited pending : List κ}, (∀ a ∈ visited, ∀ b ∈ next a, b ∈ visited ∨ b ∈ pending) →
      pending.length + owing next keys visited ≤ n →
      (b ∈ explore next n visited pending ↔
        b ∈ visited ∨ ∃ a ∈ pending, ReflTransGen (fun a b => b ∈ next a) a b) := by
  induction n with
  | zero =>
    intro visited pending _ hfuel
    have hpending : pending = [] := List.length_eq_zero_iff.mp (by omega)
    subst hpending
    simp [explore]
  | succ n ih =>
    intro visited pending hclosed hfuel
    rcases pending.eq_nil_or_concat with rfl | ⟨rest, s, rfl⟩
    · simp [explore]
    rw [List.concat_eq_append] at hclosed hfuel ⊢
    simp only [explore, List.getLast?_append_of_ne_nil _ (List.cons_ne_nil s []), List.getLast?_singleton,
      List.dropLast_concat]
    rw [List.length_append, List.length_singleton] at hfuel
    split
    · next hs =>
      have hclosed' : ∀ a ∈ visited, ∀ b ∈ next a, b ∈ visited ∨ b ∈ rest := by
        intro a ha b hb
        rcases hclosed a ha b hb with hb | hb
        · exact .inl hb
        · rcases List.mem_append.mp hb with hb | hb
          · exact .inr hb
          · exact .inl (List.mem_singleton.mp hb ▸ hs)
      rw [ih hclosed' (by omega)]
      constructor
      · rintro (hb | ⟨a, ha, hab⟩)
        · exact .inl hb
        · exact .inr ⟨a, List.mem_append_left _ ha, hab⟩
      · rintro (hb | ⟨a, ha, hab⟩)
        · exact .inl hb
        · rcases List.mem_append.mp ha with ha | ha
          · exact .inr ⟨a, ha, hab⟩
          · exact explore_frontier hclosed' (List.mem_singleton.mp ha ▸ hs) hab
    · next hs =>
      have hclosed' : ∀ a ∈ s :: visited, ∀ b ∈ next a, b ∈ s :: visited ∨ b ∈ rest ++ next s := by
        intro a ha b hb
        rcases List.mem_cons.mp ha with rfl | ha
        · exact .inr (List.mem_append_right _ hb)
        · rcases hclosed a ha b hb with hb | hb
          · exact .inl (List.mem_cons_of_mem _ hb)
          · rcases List.mem_append.mp hb with hb | hb
            · exact .inr (List.mem_append_left _ hb)
            · exact .inl (List.mem_singleton.mp hb ▸ List.mem_cons_self)
      have howing := owing_cons hkeys hnext hs
      rw [ih hclosed' (by rw [List.length_append]; omega)]
      constructor
      · rintro (hb | ⟨a, ha, hab⟩)
        · rcases List.mem_cons.mp hb with rfl | hb
          · exact .inr ⟨b, by simp, .refl⟩
          · exact .inl hb
        · rcases List.mem_append.mp ha with ha | ha
          · exact .inr ⟨a, List.mem_append_left _ ha, hab⟩
          · exact .inr ⟨s, by simp, .head ha hab⟩
      · rintro (hb | ⟨a, ha, hab⟩)
        · exact .inl (List.mem_cons_of_mem _ hb)
        · rcases List.mem_append.mp ha with ha | ha
          · exact .inr ⟨a, List.mem_append_left _ ha, hab⟩
          · rw [List.mem_singleton.mp ha] at hab
            exact explore_frontier hclosed' List.mem_cons_self hab

end AItelier.Lib
