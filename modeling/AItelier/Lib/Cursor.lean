import Mathlib.Data.List.Basic
import Mathlib.Data.List.Nodup

namespace AItelier.Lib

theorem le_foldl_max {l : List Nat} {m x : Nat} (h : x ∈ l ∨ x ≤ m) : x ≤ l.foldl max m := by
  induction l generalizing m with
  | nil => simpa using h
  | cons y l ih =>
    refine ih ?_
    rcases h with h | h
    · rcases List.mem_cons.mp h with rfl | h
      · exact .inr (Nat.le_max_right ..)
      · exact .inl h
    · exact .inr (Nat.le_trans h (Nat.le_max_left ..))

theorem foldl_max_le {l : List Nat} {m b : Nat} (hm : m ≤ b) (h : ∀ x ∈ l, x ≤ b) : l.foldl max m ≤ b := by
  induction l generalizing m with
  | nil => exact hm
  | cons y l ih =>
    refine ih ?_ (fun x hx => h x (List.mem_cons_of_mem _ hx))
    exact Nat.max_le.mpr ⟨hm, h y (List.mem_cons_self ..)⟩

variable {α : Type*} (key : α → Nat)

/-- The rows of a table in the order of a key that no two of them share. -/
def Ordered (l : List α) : Prop := l.Pairwise (fun x y => key x < key y)

/-- The rows after `a` and up to `c`. -/
def span (a c : Nat) (l : List α) : List α :=
  l.filter (fun x => decide (a < key x ∧ key x ≤ c))

variable {key}

variable {l : List α} {a c : Nat}

theorem mem_span {x : α} : x ∈ span key a c l ↔ x ∈ l ∧ a < key x ∧ key x ≤ c := by
  simp [span]

theorem Ordered.nodup (h : Ordered key l) : (l.map key).Nodup := by
  rw [List.Nodup, List.pairwise_map]
  exact h.imp (fun hlt => Nat.ne_of_lt hlt)

theorem Ordered.filter (h : Ordered key l) (p : α → Bool) : Ordered key (l.filter p) :=
  List.Pairwise.filter p h

/-- A threshold on the key cuts an ordered table in two. -/
theorem Ordered.cut (h : Ordered key l) (b : Nat) :
    l.filter (fun x => decide (key x ≤ b)) ++ l.filter (fun x => decide (b < key x)) = l := by
  induction l with
  | nil => rfl
  | cons x l ih =>
    obtain ⟨hx, hl⟩ := List.pairwise_cons.mp h
    by_cases hle : key x ≤ b
    · have hlt : ¬ b < key x := Nat.not_lt.mpr hle
      simp only [List.filter_cons, hle, hlt, decide_true, decide_false, if_true, if_false, Bool.false_eq_true,
        List.cons_append]
      rw [ih hl]
    · -- every later row is past the threshold too
      have hlt : b < key x := Nat.not_le.mp hle
      have hbefore : (x :: l).filter (fun y => decide (key y ≤ b)) = [] := by
        refine List.filter_eq_nil_iff.mpr (fun y hy => ?_)
        have hxy : key x ≤ key y := by
          rcases List.mem_cons.mp hy with rfl | hy
          · exact Nat.le_refl _
          · exact Nat.le_of_lt (hx y hy)
        simpa using Nat.lt_of_lt_of_le hlt hxy
      have hafter : (x :: l).filter (fun y => decide (b < key y)) = x :: l := by
        refine List.filter_eq_self.mpr (fun y hy => ?_)
        rcases List.mem_cons.mp hy with rfl | hy
        · exact decide_eq_true hlt
        · exact decide_eq_true (Nat.lt_trans hlt (hx y hy))
      rw [hbefore, hafter]
      rfl

/-- In an ordered table, consecutive spans join without a gap or a repetition. -/
theorem span_append (h : Ordered key l) {a b c : Nat} (hab : a ≤ b) (hbc : b ≤ c) :
    span key a b l ++ span key b c l = span key a c l := by
  have h1 : span key a b l = (span key a c l).filter (fun x => decide (key x ≤ b)) := by
    rw [span, span, List.filter_filter]
    refine List.filter_congr (fun x _ => ?_)
    rw [← Bool.decide_and]
    exact decide_eq_decide.mpr (by omega)
  have h2 : span key b c l = (span key a c l).filter (fun x => decide (b < key x)) := by
    rw [span, span, List.filter_filter]
    refine List.filter_congr (fun x _ => ?_)
    rw [← Bool.decide_and]
    exact decide_eq_decide.mpr (by omega)
  rw [h1, h2]
  exact (h.filter _).cut b

theorem span_of_le (h : c ≤ a) (l : List α) : span key a c l = [] :=
  List.filter_eq_nil_iff.mpr (fun x _ => by simp only [decide_eq_true_eq]; omega)

/-- Only the rows inside a span are looked at. -/
theorem span_congr {p q : α → Bool} (h : ∀ x ∈ l, a < key x → key x ≤ c → p x = q x) :
    span key a c (l.filter p) = span key a c (l.filter q) := by
  rw [span, span, List.filter_filter, List.filter_filter]
  refine List.filter_congr (fun x hx => ?_)
  by_cases hin : a < key x ∧ key x ≤ c
  · rw [h x hx hin.1 hin.2]
  · rw [decide_eq_false hin, Bool.false_and, Bool.false_and]

/-- Rows that come later do not enter a span they lie behind. -/
theorem span_append_later {l tail : List α} {p : α → Bool} (h : ∀ x ∈ tail, c < key x) :
    span key a c ((l ++ tail).filter p) = span key a c (l.filter p) := by
  have hout : span key a c (tail.filter p) = [] := by
    refine List.filter_eq_nil_iff.mpr (fun x hx => ?_)
    have hlt := h x (List.mem_of_mem_filter hx)
    simp only [decide_eq_true_eq]
    omega
  rw [List.filter_append, span, List.filter_append]
  exact (congrArg _ hout).trans (List.append_nil _)

/-- The first rows of an ordered table are those up to the last one's key. -/
theorem Ordered.take_eq (h : Ordered key l) {n : Nat} {x : α} (hx : (l.take n).getLast? = some x) :
    l.take n = l.filter (fun y => decide (key y ≤ key x)) := by
  obtain ⟨front, hfront⟩ := List.getLast?_eq_some_iff.mp hx
  have hl : l = front ++ x :: l.drop n := by
    calc l = l.take n ++ l.drop n := (List.take_append_drop n l).symm
      _ = front ++ x :: l.drop n := by rw [hfront, List.append_assoc]; rfl
  rw [Ordered, hl, List.pairwise_append, List.pairwise_cons] at h
  obtain ⟨_, ⟨hafter, _⟩, hbefore⟩ := h
  have hkeep : (front ++ [x]).filter (fun y => decide (key y ≤ key x)) = front ++ [x] := by
    refine List.filter_eq_self.mpr (fun y hy => decide_eq_true ?_)
    rcases List.mem_append.mp hy with hy | hy
    · exact Nat.le_of_lt (hbefore y hy x (List.mem_cons_self ..))
    · exact Nat.le_of_eq (congrArg key (List.mem_singleton.mp hy))
  have hdrop : (l.drop n).filter (fun y => decide (key y ≤ key x)) = [] := by
    refine List.filter_eq_nil_iff.mpr (fun y hy => ?_)
    simpa using hafter y hy
  calc l.take n = (l.take n).filter (fun y => decide (key y ≤ key x)) ++
        (l.drop n).filter (fun y => decide (key y ≤ key x)) := by
        rw [hdrop, hfront, hkeep, List.append_nil]
    _ = l.filter (fun y => decide (key y ≤ key x)) := by
        rw [← List.filter_append, List.take_append_drop]

/-- The cursor of a bounded page: the last row's key while rows are left over, and
otherwise the high-water mark. -/
def pageCursor (key : α → Nat) (limit a high : Nat) (l : List α) : Option Nat :=
  if limit < l.length then (l.take limit).getLast?.map key else some (max a high)

/-- One row more than the page is enough to tell that rows are left over. -/
theorem pageCursor_take (limit a high : Nat) (l : List α) :
    pageCursor key limit a high (l.take (limit + 1)) = pageCursor key limit a high l := by
  have hlen : limit < (l.take (limit + 1)).length ↔ limit < l.length := by
    rw [List.length_take]
    omega
  simp only [pageCursor, hlen, List.take_take, Nat.min_eq_left (Nat.le_succ limit)]

/-- A page of at least one row has a cursor, and it holds exactly the rows between
the cursor it was asked from and the one it hands out. -/
theorem page_exact (h : Ordered key l) {limit a high : Nat} (hlimit : 1 ≤ limit)
    (hl : ∀ x ∈ l, a < key x ∧ key x ≤ high) :
    ∃ c, pageCursor key limit a high l = some c ∧ a ≤ c ∧ l.take limit = span key a c l ∧
      (limit < l.length → a < c ∧ c ≤ high) ∧ (l.length ≤ limit → c = max a high) := by
  unfold pageCursor
  split_ifs with hmore
  · have hne : (l.take limit) ≠ [] := by
      intro hnil
      have := congrArg List.length hnil
      rw [List.length_take] at this
      simp only [List.length_nil] at this
      omega
    obtain ⟨x, hx⟩ := Option.ne_none_iff_exists'.mp (fun hnone => hne (List.getLast?_eq_none_iff.mp hnone))
    have hmem : x ∈ l := List.mem_of_mem_take (List.mem_of_getLast? hx)
    refine ⟨key x, by rw [hx]; rfl, Nat.le_of_lt (hl x hmem).1, ?_, fun _ => hl x hmem, fun hle => by omega⟩
    rw [h.take_eq hx, span]
    refine List.filter_congr (fun y hy => ?_)
    exact decide_eq_decide.mpr ⟨fun hle => ⟨(hl y hy).1, hle⟩, fun hy => hy.2⟩
  · have hle : l.length ≤ limit := Nat.not_lt.mp hmore
    refine ⟨max a high, rfl, Nat.le_max_left _ _, ?_, fun hlt => absurd hlt hmore, fun _ => rfl⟩
    rw [List.take_of_length_le hle, span]
    refine (List.filter_eq_self.mpr (fun y hy => decide_eq_true ⟨(hl y hy).1, ?_⟩)).symm
    exact Nat.le_trans (hl y hy).2 (Nat.le_max_right _ _)

end AItelier.Lib
