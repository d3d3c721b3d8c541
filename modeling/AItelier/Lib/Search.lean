import AItelier.Lib.Closure

namespace AItelier.Lib

open Relation

variable {κ : Type*} [DecidableEq κ] {edges : κ → List κ} {seen pending : List κ} {a b t : κ}

def push (acc : List κ × List κ) (t : κ) : List κ × List κ :=
  if t ∈ acc.1 then acc else (acc.1 ++ [t], acc.2 ++ [t])

/-- The last of the pending nodes is visited next. -/
def search (edges : κ → List κ) : Nat → List κ → List κ → List κ
  | 0, seen, _ => seen
  | n + 1, seen, pending =>
    match pending.getLast? with
    | none => seen
    | some a => search edges n ((edges a).foldl push (seen, pending.dropLast)).1
        ((edges a).foldl push (seen, pending.dropLast)).2

/-- What one visit notes is what it newly stacks. -/
theorem foldl_push (ts : List κ) (acc : List κ × List κ) :
    ∃ new, ts.foldl push acc = (acc.1 ++ new, acc.2 ++ new) ∧ (∀ t, t ∈ new ↔ t ∈ ts ∧ t ∉ acc.1) ∧ new.Nodup := by
  induction ts generalizing acc with
  | nil => exact ⟨[], by simp⟩
  | cons t ts ih =>
    rw [List.foldl_cons]
    by_cases ht : t ∈ acc.1
    · have hpush : push acc t = acc := if_pos ht
      rw [hpush]
      obtain ⟨new, hfold, hnew, hnodup⟩ := ih acc
      refine ⟨new, hfold, fun u => ?_, hnodup⟩
      rw [hnew u, List.mem_cons]
      constructor
      · exact fun h => ⟨.inr h.1, h.2⟩
      · rintro ⟨rfl | hu, hout⟩
        · exact absurd ht hout
        · exact ⟨hu, hout⟩
    · have hpush : push acc t = (acc.1 ++ [t], acc.2 ++ [t]) := if_neg ht
      rw [hpush]
      obtain ⟨new, hfold, hnew, hnodup⟩ := ih (acc.1 ++ [t], acc.2 ++ [t])
      refine ⟨t :: new, by simpa using hfold, fun u => ?_, ?_⟩
      · rw [List.mem_cons, hnew u, List.mem_cons]
        simp only [List.mem_append, List.mem_singleton, not_or]
        constructor
        · rintro (rfl | h)
          · exact ⟨.inl rfl, ht⟩
          · exact ⟨.inr h.1, h.2.1⟩
        · rintro ⟨rfl | hu, hout⟩
          · exact .inl rfl
          · by_cases hut : u = t
            · exact .inl hut
            · exact .inr ⟨hu, hout, hut⟩
      · refine List.nodup_cons.mpr ⟨fun h => ?_, hnodup⟩
        have hout := ((hnew t).mp h).2
        simp at hout

/-- From a node that was noted, a path ends on a noted node or goes on from a
stacked one. -/
theorem reach_frontier (hclosed : ∀ a ∈ seen, a ∉ pending → ∀ b ∈ edges a, b ∈ seen) (ha : a ∈ seen)
    (hr : ReflTransGen (fun a b => b ∈ edges a) a b) :
    b ∈ seen ∨ ∃ c ∈ pending, TransGen (fun a b => b ∈ edges a) c b := by
  induction hr with
  | refl => exact .inl ha
  | @tail b d _ hbd ih =>
    rcases ih with hb | ⟨c, hc, hcb⟩
    · by_cases hp : b ∈ pending
      · exact .inr ⟨b, hp, .single hbd⟩
      · exact .inl (hclosed b hb hp d hbd)
    · exact .inr ⟨c, hc, hcb.tail hbd⟩

theorem search_nil (n : Nat) : search edges n seen [] = seen := by
  cases n <;> rfl

theorem search_append (n : Nat) (a : κ) :
    search edges (n + 1) seen (pending ++ [a]) =
      search edges n ((edges a).foldl push (seen, pending)).1 ((edges a).foldl push (seen, pending)).2 := by
  simp only [search, List.getLast?_append_of_ne_nil _ (List.cons_ne_nil a []), List.getLast?_singleton,
    List.dropLast_concat]

theorem countP_unseen {all new : List κ} (seen : List κ) (hin : ∀ t ∈ new, t ∈ all) (hout : ∀ t ∈ new, t ∉ seen)
    (hnodup : new.Nodup) :
    all.countP (fun t => decide (t ∉ seen ++ new)) + new.length ≤ all.countP (fun t => decide (t ∉ seen)) := by
  induction new generalizing seen with
  | nil => simp
  | cons t new ih =>
    have hfresh : t ∉ seen := hout t List.mem_cons_self
    have hrest := ih (seen ++ [t]) (fun u hu => hin u (List.mem_cons_of_mem t hu)) (by
      intro u hu
      simp only [List.mem_append, List.mem_singleton, not_or]
      exact ⟨hout u (List.mem_cons_of_mem t hu), fun h => (List.nodup_cons.mp hnodup).1 (h ▸ hu)⟩)
      (List.nodup_cons.mp hnodup).2
    have hdrop : all.countP (fun u => decide (u ∉ seen ++ [t])) < all.countP (fun u => decide (u ∉ seen)) := by
      refine countP_lt_countP (hin t List.mem_cons_self) ?_ (by simp) (by simpa using hfresh)
      intro u _ hu
      simp only [List.mem_append, not_or, decide_eq_true_eq] at hu ⊢
      exact hu.1
    rw [List.append_assoc, List.singleton_append] at hrest
    rw [List.length_cons]
    omega

/-- With a round for everything that is stacked or may still be, the search notes
exactly what was noted and what the stacked nodes lead to. -/
theorem mem_search {all : List κ} (hall : ∀ a, ∀ b ∈ edges a, b ∈ all) (n : Nat) :
    ∀ {seen pending : List κ}, (∀ a ∈ seen, a ∉ pending → ∀ b ∈ edges a, b ∈ seen) →
      pending.length + all.countP (fun t => decide (t ∉ seen)) ≤ n →
      (b ∈ search edges n seen pending ↔
        b ∈ seen ∨ ∃ a ∈ pending, TransGen (fun a b => b ∈ edges a) a b) := by
  induction n with
  | zero =>
    intro seen pending _ hfuel
    have hpending : pending = [] := List.length_eq_zero_iff.mp (by omega)
    subst hpending
    simp [search]
  | succ n ih =>
    intro seen pending hclosed hfuel
    rcases pending.eq_nil_or_concat with rfl | ⟨rest, s, rfl⟩
    · simp [search_nil]
    rw [List.concat_eq_append] at hclosed hfuel ⊢
    obtain ⟨new, hfold, hnew, hnodup⟩ := foldl_push (edges s) (seen, rest)
    rw [search_append, hfold]
    simp only at hnew
    have hclosed' : ∀ a ∈ seen ++ new, a ∉ rest ++ new → ∀ b ∈ edges a, b ∈ seen ++ new := by
      intro a ha hout b hb
      simp only [List.mem_append, not_or] at ha hout ⊢
      have haseen : a ∈ seen := ha.resolve_right hout.2
      by_cases has : a = s
      · by_cases hbseen : b ∈ seen
        · exact .inl hbseen
        · exact .inr ((hnew b).mpr ⟨has ▸ hb, hbseen⟩)
      · exact .inl (hclosed a haseen (by simp [hout.1, has]) b hb)
    have hcount := countP_unseen seen
      (fun t ht => hall s t ((hnew t).mp ht).1) (fun t ht => ((hnew t).mp ht).2) hnodup
    rw [ih hclosed' (by
      simp only [List.length_append, List.length_singleton] at hfuel ⊢
      omega)]
    constructor
    · rintro (hb | ⟨a, ha, hab⟩)
      · rcases List.mem_append.mp hb with hb | hb
        · exact .inl hb
        · exact .inr ⟨s, by simp, .single ((hnew b).mp hb).1⟩
      · rcases List.mem_append.mp ha with ha | ha
        · exact .inr ⟨a, by simp [ha], hab⟩
        · exact .inr ⟨s, by simp, TransGen.head ((hnew a).mp ha).1 hab⟩
    · rintro (hb | ⟨a, ha, hab⟩)
      · exact .inl (List.mem_append_left _ hb)
      · rcases List.mem_append.mp ha with ha | ha
        · exact .inr ⟨a, List.mem_append_left _ ha, hab⟩
        · rw [List.mem_singleton.mp ha] at hab
          -- the first edge of `s` leads to a noted node
          obtain ⟨c, hsc, hcb⟩ := TransGen.head'_iff.mp hab
          have hc : c ∈ seen ++ new := by
            by_cases hcseen : c ∈ seen
            · exact List.mem_append_left _ hcseen
            · exact List.mem_append_right _ ((hnew c).mpr ⟨hsc, hcseen⟩)
          exact reach_frontier hclosed' hc hcb

end AItelier.Lib
