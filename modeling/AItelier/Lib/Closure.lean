import Mathlib.Data.List.Basic
import Mathlib.Logic.Function.Iterate
import Mathlib.Logic.Relation

namespace AItelier.Lib

variable {κ : Type*} [DecidableEq κ]

/-- Add one source of an edge that points into `s`, if there is one outside it. -/
def grow (edges : List (κ × κ)) (s : List κ) : List κ :=
  match edges.find? (fun e => decide (e.2 ∈ s ∧ e.1 ∉ s)) with
  | some e => e.1 :: s
  | none => s

/-- The set of keys from which `k` is reached along `edges` (source, target):
the fixed point of `grow`, which every edge changes at most once. -/
def dependentClosure (edges : List (κ × κ)) (k : κ) : List κ :=
  (grow edges)^[edges.length] [k]

/-- A set that an edge cannot leave backwards. -/
def UpClosed (edges : List (κ × κ)) (s : List κ) : Prop :=
  ∀ e ∈ edges, e.2 ∈ s → e.1 ∈ s

theorem subset_grow (edges : List (κ × κ)) (s : List κ) : s ⊆ grow edges s := by
  unfold grow
  split
  · exact List.subset_cons_self _ _
  · exact List.Subset.refl _

theorem subset_iterate_grow (edges : List (κ × κ)) (n : Nat) (s : List κ) :
    s ⊆ (grow edges)^[n] s := by
  induction n generalizing s with
  | zero => exact List.Subset.refl _
  | succ n ih => exact List.Subset.trans (subset_grow edges s) (ih _)

variable {edges : List (κ × κ)} {s : List κ}

theorem grow_eq_self (h : UpClosed edges s) :
    grow edges s = s := by
  unfold grow
  split
  · next e he =>
    have hp := List.find?_some he
    simp only [decide_eq_true_eq] at hp
    exact absurd (h e (List.mem_of_find?_eq_some he) hp.1) hp.2
  · rfl

theorem upClosed_of_grow
    (h : edges.find? (fun e => decide (e.2 ∈ s ∧ e.1 ∉ s)) = none) : UpClosed edges s := by
  intro e he ht
  have hn := List.find?_eq_none.mp h e he
  simp only [decide_eq_true_eq, not_and, not_not] at hn
  exact hn ht

theorem countP_lt_countP {α : Type*} {p q : α → Bool} {l : List α} {a : α} (ha : a ∈ l)
    (hpq : ∀ b ∈ l, p b = true → q b = true) (hp : p a = false) (hq : q a = true) :
    l.countP p < l.countP q := by
  obtain ⟨s, t, rfl⟩ := List.append_of_mem ha
  have hs : s.countP p ≤ s.countP q :=
    List.countP_mono_left (fun b hb => hpq b (List.mem_append_left _ hb))
  have ht : t.countP p ≤ t.countP q :=
    List.countP_mono_left (fun b hb => hpq b (List.mem_append_right _ (List.mem_cons_of_mem _ hb)))
  simp only [List.countP_append, List.countP_cons, hp, hq, Bool.false_eq_true, if_false, if_true]
  omega

/-- Each round either is at the fixed point or uses up an edge whose source was
still outside, so as many rounds as there are such edges reach it. -/
theorem upClosed_iterate (n : Nat) (s : List κ)
    (hn : edges.countP (fun e => decide (e.1 ∉ s)) ≤ n) : UpClosed edges ((grow edges)^[n] s) := by
  induction n generalizing s with
  | zero =>
    intro e he _
    have h0 := List.countP_eq_zero.mp (Nat.le_zero.mp hn) e he
    simpa using h0
  | succ n ih =>
    rw [Function.iterate_succ_apply]
    cases hf : edges.find? (fun e => decide (e.2 ∈ s ∧ e.1 ∉ s)) with
    | none =>
      have hc := upClosed_of_grow hf
      rw [grow_eq_self hc]
      have hfix : (grow edges)^[n] s = s := Function.iterate_fixed (grow_eq_self hc) n
      rwa [hfix]
    | some e =>
      have hg : grow edges s = e.1 :: s := by rw [grow, hf]
      have hp := List.find?_some hf
      simp only [decide_eq_true_eq] at hp
      rw [hg]
      refine ih _ ?_
      have hlt : edges.countP (fun q => decide (q.1 ∉ e.1 :: s)) <
          edges.countP (fun q => decide (q.1 ∉ s)) := by
        refine countP_lt_countP (List.mem_of_find?_eq_some hf) ?_ ?_ ?_
        · intro q _ hq
          simp only [List.mem_cons, not_or, decide_eq_true_eq] at hq ⊢
          exact hq.2
        · simp
        · simpa using hp.2
      omega

theorem mem_dependentClosure_self (edges : List (κ × κ)) (k : κ) :
    k ∈ dependentClosure edges k :=
  subset_iterate_grow edges _ [k] (List.mem_singleton_self k)

theorem upClosed_dependentClosure (edges : List (κ × κ)) (k : κ) :
    UpClosed edges (dependentClosure edges k) :=
  upClosed_iterate _ _ List.countP_le_length

/-- What `grow` adds reaches what was there. -/
theorem reach_of_iterate {targets : List κ} {j : κ} (n : Nat) (s : List κ)
    (hs : ∀ a ∈ s, ∃ k ∈ targets, Relation.ReflTransGen (fun a b => (a, b) ∈ edges) a k)
    (hj : j ∈ (grow edges)^[n] s) :
    ∃ k ∈ targets, Relation.ReflTransGen (fun a b => (a, b) ∈ edges) j k := by
  induction n generalizing s with
  | zero => exact hs j hj
  | succ n ih =>
    rw [Function.iterate_succ_apply] at hj
    refine ih (grow edges s) (fun a ha => ?_) hj
    unfold grow at ha
    split at ha
    · next e he =>
      rcases List.mem_cons.mp ha with rfl | ha
      · have hp := List.find?_some he
        simp only [decide_eq_true_eq] at hp
        obtain ⟨k, hk, hreach⟩ := hs e.2 hp.1
        exact ⟨k, hk, .head (List.mem_of_find?_eq_some he) hreach⟩
      · exact hs a ha
    · exact hs a ha

omit [DecidableEq κ] in
theorem UpClosed.reach {j k : κ} (h : UpClosed edges s)
    (hr : Relation.ReflTransGen (fun a b => (a, b) ∈ edges) j k) (hk : k ∈ s) : j ∈ s := by
  induction hr using Relation.ReflTransGen.head_induction_on with
  | refl => exact hk
  | head hab _ ih => exact h _ hab ih

/-- Growing a set as often as there are edges collects exactly what reaches it. -/
theorem mem_iterate_grow {j : κ} :
    j ∈ (grow edges)^[edges.length] s ↔ ∃ k ∈ s, Relation.ReflTransGen (fun a b => (a, b) ∈ edges) j k := by
  constructor
  · intro hj
    exact reach_of_iterate edges.length s (fun a ha => ⟨a, ha, .refl⟩) hj
  · rintro ⟨k, hk, hreach⟩
    exact (upClosed_iterate _ _ List.countP_le_length).reach hreach (subset_iterate_grow edges _ s hk)

/-- The closure is exactly what reaches `k`. -/
theorem mem_dependentClosure {j k : κ} :
    j ∈ dependentClosure edges k ↔ Relation.ReflTransGen (fun a b => (a, b) ∈ edges) j k := by
  rw [dependentClosure, mem_iterate_grow]
  simp only [List.mem_singleton, exists_eq_left]

end AItelier.Lib
