import Mathlib.Data.List.Sort

namespace AItelier.Lib

variable {α κ : Type*} [LinearOrder κ] {key : α → κ} {l l' : List α} {bound : Option κ} {x : α}

/-- Rows in the order of a key that no two of them share. -/
def Sorted (key : α → κ) (l : List α) : Prop := l.Pairwise (fun x y => key x < key y)

/-- `ORDER BY key`. -/
def ordered (key : α → κ) (l : List α) : List α := l.insertionSort (fun x y => key x ≤ key y)

/-- The rows beyond a key, or all of them. -/
def beyond (key : α → κ) (bound : Option κ) (l : List α) : List α := l.filter (fun x => bound.all (· < key x))

theorem Sorted.filter (h : Sorted key l) (p : α → Bool) : Sorted key (l.filter p) := List.Pairwise.filter p h

theorem Sorted.nodup (h : Sorted key l) : (l.map key).Nodup := by
  rw [List.Nodup, List.pairwise_map]
  exact h.imp ne_of_lt

theorem mem_ordered : x ∈ ordered key l ↔ x ∈ l := List.mem_insertionSort _

theorem ordered_sorted (h : (l.map key).Nodup) : Sorted key (ordered key l) := by
  have hle : (ordered key l).Pairwise (fun x y => key x ≤ key y) := by
    have : Std.Total (fun x y : α => key x ≤ key y) := ⟨fun x y => le_total _ _⟩
    have : IsTrans α (fun x y => key x ≤ key y) := ⟨fun x y z => le_trans⟩
    exact List.pairwise_insertionSort _ l
  have hne : (ordered key l).Pairwise (fun x y => key x ≠ key y) := by
    rw [← List.pairwise_map (f := key), ← List.Nodup]
    exact ((List.perm_insertionSort _ l).map key).nodup_iff.mpr h
  exact (hle.and hne).imp fun h => lt_of_le_of_ne h.1 h.2

theorem mem_beyond : x ∈ beyond key bound l ↔ x ∈ l ∧ ∀ b, bound = some b → b < key x := by
  cases bound <;> simp [beyond]

/-- Sorted rows are told apart by their members alone. -/
theorem Sorted.ext (h : Sorted key l) (h' : Sorted key l') (hmem : ∀ x, x ∈ l ↔ x ∈ l') : l = l' := by
  have hperm : l.Perm l' := by
    rw [List.perm_ext_iff_of_nodup (List.Nodup.of_map key h.nodup) (List.Nodup.of_map key h'.nodup)]
    exact hmem
  refine List.Perm.eq_of_pairwise ?_ h h' hperm
  exact fun x y _ _ hxy hyx => absurd hxy (lt_asymm hyx)

/-- The first rows of a sorted list are those up to the last one's key. -/
theorem mem_take_sorted (h : Sorted key l) {n : Nat} {c : α} (hc : (l.take n).getLast? = some c) :
    x ∈ l.take n ↔ x ∈ l ∧ key x ≤ key c := by
  obtain ⟨front, hfront⟩ := List.getLast?_eq_some_iff.mp hc
  have hl : l = front ++ c :: l.drop n := by
    conv_lhs => rw [← List.take_append_drop n l, hfront, List.append_assoc]
    rfl
  have hsorted := h
  rw [Sorted, hl, List.pairwise_append, List.pairwise_cons] at hsorted
  obtain ⟨-, ⟨hafter, -⟩, hbefore⟩ := hsorted
  constructor
  · intro hx
    refine ⟨List.mem_of_mem_take hx, ?_⟩
    rw [hfront, List.mem_append, List.mem_singleton] at hx
    rcases hx with hx | rfl
    · exact le_of_lt (hbefore x hx c List.mem_cons_self)
    · exact le_refl _
  · rintro ⟨hx, hle⟩
    rw [hl, List.mem_append, List.mem_cons] at hx
    rw [hfront, List.mem_append, List.mem_singleton]
    rcases hx with hx | rfl | hx
    · exact .inl hx
    · exact .inr rfl
    · exact absurd hle (not_le_of_gt (hafter x hx))

/-- A walk by the last key read: at each page, the table as it is then and the
limit that is asked for. The walk is over when a page leaves no rows. -/
def walk (key : α → κ) : Option κ → List (List α × Nat) → List α × Bool
  | _, [] => ([], false)
  | bound, (table, limit) :: rest =>
    let rows := beyond key bound (ordered key table)
    if limit < rows.length then
      (rows.take limit ++ (walk key ((rows.take limit).getLast?.map key) rest).1,
        (walk key ((rows.take limit).getLast?.map key) rest).2)
    else (rows, true)

/-- Tables with one row for each key that still hold the first rows, asked for at
least one row at a time. -/
structure Fetches (key : α → κ) (first : List α) (pages : List (List α × Nat)) : Prop where
  keyed : ∀ p ∈ pages, (p.1.map key).Nodup
  kept : ∀ p ∈ pages, ∀ x ∈ first, x ∈ p.1
  some : ∀ p ∈ pages, 1 ≤ p.2

variable {pages : List (List α × Nat)} {first : List α}

omit [LinearOrder κ] in
theorem Fetches.tail {p : List α × Nat}
    (h : Fetches key first (p :: pages)) : Fetches key first pages :=
  ⟨fun q hq => h.keyed q (List.mem_cons_of_mem p hq), fun q hq => h.kept q (List.mem_cons_of_mem p hq),
    fun q hq => h.some q (List.mem_cons_of_mem p hq)⟩

theorem exists_last {n : Nat} (hn : 1 ≤ n) (h : n < l.length) : ∃ c, (l.take n).getLast? = some c := by
  cases hlast : (l.take n).getLast? with
  | some c => exact ⟨c, rfl⟩
  | none =>
    have hlength := congrArg List.length (List.getLast?_eq_none_iff.mp hlast)
    rw [List.length_take, List.length_nil] at hlength
    omega

/-- What a walk returns is in order, each row once, beyond where it began. -/
theorem walk_sorted (h : Fetches key first pages) (bound : Option κ) :
    Sorted key (walk key bound pages).1 ∧ ∀ x ∈ (walk key bound pages).1, ∀ b, bound = some b → b < key x := by
  induction pages generalizing bound with
  | nil => exact ⟨List.Pairwise.nil, fun x hx => absurd hx List.not_mem_nil⟩
  | cons p pages ih =>
    obtain ⟨table, limit⟩ := p
    have hrows : Sorted key (beyond key bound (ordered key table)) :=
      (ordered_sorted (h.keyed _ List.mem_cons_self)).filter _
    unfold walk
    simp only
    split
    · next hmore =>
      obtain ⟨c, hc⟩ := exists_last (h.some _ List.mem_cons_self) hmore
      obtain ⟨hsorted, hbeyond⟩ := ih h.tail (some (key c))
      rw [hc, Option.map_some]
      constructor
      · refine List.pairwise_append.mpr ⟨hrows.take, hsorted, fun x hx y hy => ?_⟩
        exact lt_of_le_of_lt ((mem_take_sorted hrows hc).mp hx).2 (hbeyond y hy _ rfl)
      · intro x hx b hb
        rcases List.mem_append.mp hx with hx | hx
        · exact (mem_beyond.mp (List.mem_of_mem_take hx)).2 b hb
        · have hcb : b < key c := (mem_beyond.mp (List.mem_of_mem_take (List.mem_of_getLast? hc))).2 b hb
          exact lt_trans hcb (hbeyond x hx _ rfl)
    · exact ⟨hrows, fun x hx => (mem_beyond.mp hx).2⟩

theorem mem_walk (h : Fetches key first pages)
    (hx : x ∈ (walk key bound pages).1) : ∃ p ∈ pages, x ∈ p.1 := by
  induction pages generalizing bound with
  | nil => exact absurd hx List.not_mem_nil
  | cons p pages ih =>
    obtain ⟨table, limit⟩ := p
    unfold walk at hx
    simp only at hx
    split at hx
    · rcases List.mem_append.mp hx with hx | hx
      · exact ⟨_, List.mem_cons_self, mem_ordered.mp (mem_beyond.mp (List.mem_of_mem_take hx)).1⟩
      · obtain ⟨q, hq, hx⟩ := ih h.tail hx
        exact ⟨q, List.mem_cons_of_mem _ hq, hx⟩
    · exact ⟨_, List.mem_cons_self, mem_ordered.mp (mem_beyond.mp hx).1⟩

/-- A walk that is over has returned, in order and each once, all of the first rows
that lay before it. -/
theorem walk_complete {old : α → Bool} (hfirst : (first.map key).Nodup)
    (h : Fetches key first pages) (hold : ∀ p ∈ pages, ∀ x ∈ p.1, old x = true ↔ x ∈ first)
    (hover : (walk key bound pages).2 = true) :
    (walk key bound pages).1.filter old = beyond key bound (ordered key first) := by
  have hstart : Sorted key (beyond key bound (ordered key first)) := (ordered_sorted hfirst).filter _
  refine Sorted.ext ((walk_sorted h bound).1.filter _) hstart fun x => ?_
  have hin : x ∈ (walk key bound pages).1 ∧ old x = true ↔ x ∈ (walk key bound pages).1 ∧ x ∈ first := by
    refine and_congr_right fun hx => ?_
    obtain ⟨p, hp, hx⟩ := mem_walk h hx
    exact hold p hp x hx
  rw [List.mem_filter, hin, mem_beyond, mem_ordered]
  clear hstart hin hold
  induction pages generalizing bound with
  | nil => cases hover
  | cons p pages ih =>
    obtain ⟨table, limit⟩ := p
    have hrows : Sorted key (beyond key bound (ordered key table)) :=
      (ordered_sorted (h.keyed _ List.mem_cons_self)).filter _
    have hkept : x ∈ first → x ∈ table := h.kept _ List.mem_cons_self x
    unfold walk at hover ⊢
    simp only at hover ⊢
    split at hover
    · next hmore =>
      obtain ⟨c, hc⟩ := exists_last (h.some _ List.mem_cons_self) hmore
      rw [hc, Option.map_some] at hover
      have hrest := ih h.tail hover
      rw [if_pos hmore, hc, Option.map_some, List.mem_append, mem_take_sorted hrows hc, mem_beyond, mem_ordered]
      have hcb : ∀ b, bound = some b → b < key c :=
        (mem_beyond.mp (List.mem_of_mem_take (List.mem_of_getLast? hc))).2
      simp only [Option.some.injEq, forall_eq'] at hrest
      constructor
      · rintro ⟨⟨⟨-, hb⟩, -⟩ | hx, hin⟩
        · exact ⟨hin, hb⟩
        · exact ⟨hin, fun b hb => lt_trans (hcb b hb) (hrest.mp ⟨hx, hin⟩).2⟩
      · rintro ⟨hin, hb⟩
        refine ⟨?_, hin⟩
        rcases le_or_gt (key x) (key c) with hle | hlt
        · exact .inl ⟨⟨hkept hin, hb⟩, hle⟩
        · exact .inr (hrest.mpr ⟨hin, hlt⟩).1
    · next hmore =>
      rw [if_neg hmore, mem_beyond, mem_ordered]
      constructor
      · rintro ⟨⟨-, hb⟩, hin⟩
        exact ⟨hin, hb⟩
      · rintro ⟨hin, hb⟩
        exact ⟨⟨hkept hin, hb⟩, hin⟩

/-- A walk that is not over has returned a row for each page at the least. -/
theorem walk_length (h : Fetches key first pages)
    (hopen : (walk key bound pages).2 = false) : pages.length ≤ (walk key bound pages).1.length := by
  induction pages generalizing bound with
  | nil => exact Nat.zero_le _
  | cons p pages ih =>
    obtain ⟨table, limit⟩ := p
    have hlimit : 1 ≤ limit := h.some _ List.mem_cons_self
    unfold walk at hopen ⊢
    simp only at hopen ⊢
    split at hopen
    · next hmore =>
      rw [if_pos hmore, List.length_append, List.length_take, List.length_cons]
      have hrest := ih h.tail hopen
      omega
    · cases hopen

/-- With a page for every row there ever is, and one more, the walk is over. -/
theorem walk_over {first last : List α} (h : Fetches key first pages)
    (hlast : ∀ p ∈ pages, ∀ x ∈ p.1, x ∈ last) (hpages : last.length < pages.length) :
    (walk key bound pages).2 = true := by
  cases hover : (walk key bound pages).2 with
  | true => rfl
  | false =>
    have hnodup : (walk key bound pages).1.Nodup := List.Nodup.of_map key (walk_sorted h bound).1.nodup
    have hle : (walk key bound pages).1.length ≤ last.length := by
      refine List.Nodup.length_le_of_subset hnodup fun x hx => ?_
      obtain ⟨p, hp, hx⟩ := mem_walk h hx
      exact hlast p hp x hx
    have hlength := walk_length h hover
    omega

end AItelier.Lib
