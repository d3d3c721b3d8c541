import Mathlib.Data.List.Infix
import Mathlib.Data.List.Nodup

namespace AItelier.Lib

variable {α : Type*} {κ : Type*}

section Lookup
variable [DecidableEq κ]

/-- The row stored under `k`. A table is a list in insertion order; where the
key is unique, the first matching row is the only one. -/
def lookup (key : α → κ) (t : List α) (k : κ) : Option α :=
  t.find? (fun r => decide (key r = k))

theorem lookup_key {key : α → κ} {t : List α} {k : κ} {r : α} (h : lookup key t k = some r) :
    key r = k := by
  simpa using List.find?_some h

theorem lookup_mem {key : α → κ} {t : List α} {k : κ} {r : α} (h : lookup key t k = some r) :
    r ∈ t :=
  List.mem_of_find?_eq_some h

@[simp] theorem lookup_nil (key : α → κ) (k : κ) : lookup key [] k = none := rfl

theorem lookup_append (key : α → κ) (t u : List α) (k : κ) :
    lookup key (t ++ u) k = (lookup key t k).or (lookup key u k) := by
  simp [lookup, List.find?_append]

theorem lookup_singleton (key : α → κ) (r : α) (k : κ) :
    lookup key [r] k = if key r = k then some r else none := by
  by_cases h : key r = k <;> simp [lookup, h]

theorem lookup_cons (key : α → κ) (r : α) (t : List α) (k : κ) :
    lookup key (r :: t) k = if key r = k then some r else lookup key t k := by
  by_cases h : key r = k <;> simp [lookup, h]

theorem lookup_map {key : α → κ} {f : α → α} (hf : ∀ r, key (f r) = key r) (t : List α) (k : κ) :
    lookup key (t.map f) k = (lookup key t k).map f := by
  induction t with
  | nil => rfl
  | cons r t ih =>
    by_cases h : key r = k
    · simp [lookup, hf, h]
    · simpa [lookup, List.find?_cons, hf, h] using ih

theorem lookup_isSome_of_mem {key : α → κ} {t : List α} {r : α} (h : r ∈ t) :
    (lookup key t (key r)).isSome := by
  rw [lookup, List.find?_isSome]
  exact ⟨r, h, by simp⟩

theorem lookup_eq_none {key : α → κ} {t : List α} {k : κ} :
    lookup key t k = none ↔ ∀ r ∈ t, key r ≠ k := by
  simp [lookup, List.find?_eq_none]

/-- In a table whose key is unique, membership and lookup agree. -/
theorem lookup_of_mem {key : α → κ} {t : List α} {r : α} (hn : (t.map key).Nodup) (h : r ∈ t) :
    lookup key t (key r) = some r := by
  obtain ⟨q, hq⟩ := Option.isSome_iff_exists.mp (@lookup_isSome_of_mem _ _ _ key _ _ h)
  have he := List.inj_on_of_nodup_map hn (lookup_mem hq) h (lookup_key hq)
  rw [hq, he]

/-- A key selects the one row that has it. -/
theorem filter_of_mem {key : α → κ} {t : List α} {r : α} (hn : (t.map key).Nodup) (h : r ∈ t) :
    t.filter (fun q => decide (key q = key r)) = [r] := by
  induction t with
  | nil => cases h
  | cons q t ih =>
    rw [List.map_cons, List.nodup_cons] at hn
    rcases List.mem_cons.mp h with rfl | h
    · have hrest : t.filter (fun q => decide (key q = key r)) = [] := by
        rw [List.filter_eq_nil_iff]
        intro x hx hk
        exact hn.1 (List.mem_map.mpr ⟨x, hx, of_decide_eq_true hk⟩)
      rw [List.filter_cons_of_pos (by simp), hrest]
    · have hne : key q ≠ key r := fun he => hn.1 (List.mem_map.mpr ⟨r, h, he.symm⟩)
      rw [List.filter_cons_of_neg (by simpa using hne), ih hn.2 h]

end Lookup

/-- `UPDATE ... WHERE p`: every matching row is rewritten in place. -/
def modifyWhere (p : α → Bool) (f : α → α) (t : List α) : List α :=
  t.map (fun r => if p r then f r else r)

theorem mem_modifyWhere {p : α → Bool} {f : α → α} {t : List α} {r : α} :
    r ∈ modifyWhere p f t ↔ ∃ q ∈ t, r = if p q then f q else q := by
  simp only [modifyWhere, List.mem_map]
  exact exists_congr (fun q => and_congr_right (fun _ => eq_comm))

theorem map_modifyWhere {β : Type*} {g : α → β} {p : α → Bool} {f : α → α}
    (hg : ∀ r, p r = true → g (f r) = g r) (t : List α) : (modifyWhere p f t).map g = t.map g := by
  simp only [modifyWhere, List.map_map]
  apply List.map_congr_left
  intro r _
  by_cases h : p r = true <;> simp [h, hg]

theorem lookup_modifyWhere [DecidableEq κ] {key : α → κ} {p : α → Bool} {f : α → α}
    (hf : ∀ r, key (f r) = key r) (t : List α) (k : κ) :
    lookup key (modifyWhere p f t) k = (lookup key t k).map (fun r => if p r then f r else r) := by
  refine lookup_map (fun r => ?_) t k
  by_cases h : p r = true <;> simp [h, hf]

/-- Among rows of distinct keys, the part that only one key's row makes. -/
theorem flatMap_of_key {β κ : Type*} {key : α → κ} {f : α → List β} {t : List α} {r : α}
    (hd : (t.map key).Nodup) (hr : r ∈ t) (hf : ∀ q ∈ t, key q ≠ key r → f q = []) : t.flatMap f = f r := by
  induction t with
  | nil => cases hr
  | cons q t ih =>
    rw [List.map_cons, List.nodup_cons] at hd
    rcases List.mem_cons.mp hr with rfl | hr
    · have hrest : t.flatMap f = [] := by
        rw [List.flatMap_eq_nil_iff]
        intro q hq
        exact hf q (List.mem_cons_of_mem _ hq) (fun he => hd.1 (he ▸ List.mem_map_of_mem hq))
      rw [List.flatMap_cons, hrest, List.append_nil]
    · have hq : f q = [] := hf q List.mem_cons_self (fun he => hd.1 (he ▸ List.mem_map_of_mem hr))
      rw [List.flatMap_cons, hq, List.nil_append]
      exact ih hd.2 hr (fun q hq => hf q (List.mem_cons_of_mem _ hq))

theorem filter_modifyWhere {p q : α → Bool} {f : α → α} (hf : ∀ r, p (f r) = p r) (t : List α) :
    (modifyWhere q f t).filter p = modifyWhere q f (t.filter p) := by
  have hc : (p ∘ fun r => if q r = true then f r else r) = p := by
    funext r
    by_cases h : q r = true <;> simp [h, hf]
  rw [modifyWhere, List.filter_map, hc, modifyWhere]

theorem modifyWhere_of_none {p : α → Bool} {f : α → α} {t : List α} (h : ∀ r ∈ t, p r = false) :
    modifyWhere p f t = t := by
  refine (List.map_congr_left (fun r hr => ?_)).trans (List.map_id t)
  simp [h r hr]

/-- Rows of two kinds, where none is of both. -/
theorem countP_either {p q : α → Bool} {t : List α} (h : ∀ r ∈ t, p r = true → q r = false) :
    t.countP (fun r => p r || q r) = t.countP p + t.countP q := by
  induction t with
  | nil => rfl
  | cons r t ih =>
    have hrest := ih (fun x hx => h x (List.mem_cons_of_mem _ hx))
    rw [List.countP_cons, List.countP_cons, List.countP_cons, hrest]
    cases hp : p r with
    | true =>
      rw [h r List.mem_cons_self hp]
      simp only [Bool.true_or, if_true, Bool.false_eq_true, if_false]
      omega
    | false =>
      simp only [Bool.false_or, Bool.false_eq_true, if_false]
      omega

/-- The one row of its kind. -/
theorem countP_only [DecidableEq α] {p : α → Bool} {t : List α} {r : α} (hn : t.Nodup) (hr : r ∈ t) (hp : p r = true)
    (h : ∀ q ∈ t, p q = true → q = r) : t.countP p = 1 := by
  rw [← List.count_eq_one_of_mem hn hr, List.count]
  apply List.countP_congr
  intro q hq
  rw [beq_iff_eq]
  exact ⟨h q hq, fun he => he ▸ hp⟩

/-- Rewriting the row of each of some keys in turn rewrites each row under its key once. -/
theorem foldl_modifyWhere [DecidableEq κ] {β : Type*} {key : α → κ} {g : β → κ} {f : β → α → α}
    (hf : ∀ b q, key (f b q) = key q) {l : List β} (hl : (l.map g).Nodup) (t : List α) :
    l.foldl (fun u b => modifyWhere (fun q => decide (key q = g b)) (f b) u) t =
      t.map (fun q => (lookup g l (key q)).elim q (fun b => f b q)) := by
  induction l generalizing t with
  | nil => exact (List.map_id t).symm
  | cons b l ih =>
    rw [List.map_cons, List.nodup_cons] at hl
    rw [List.foldl_cons, ih hl.2, modifyWhere, List.map_map]
    apply List.map_congr_left
    intro q _
    by_cases hq : key q = g b
    · have hnone : lookup g l (g b) = none :=
        lookup_eq_none.mpr (fun x hx he => hl.1 (List.mem_map.mpr ⟨x, hx, he⟩))
      simp [lookup_cons, hq, hf, hnone]
    · simp [lookup_cons, hq, Ne.symm hq]

/-- `INSERT ... ON CONFLICT(key) DO UPDATE`. -/
def upsert [DecidableEq κ] (key : α → κ) (t : List α) (r : α) : List α :=
  if (lookup key t (key r)).isSome then modifyWhere (fun q => decide (key q = key r)) (fun _ => r) t
  else t ++ [r]

/-- After an upsert the row is the one stored under its key, and every other key
keeps its row. -/
theorem lookup_upsert [DecidableEq κ] (key : α → κ) (t : List α) (r : α) (k : κ) :
    lookup key (upsert key t r) k = if key r = k then some r else lookup key t k := by
  unfold upsert
  split
  case isTrue hsome =>
    obtain ⟨q, hq⟩ := Option.isSome_iff_exists.mp hsome
    have hrow : ∀ x, key (if key x = key r then r else x) = key x := by
      intro x
      split
      case isTrue h => exact h.symm
      case isFalse h => rfl
    have hmap := lookup_map hrow t k
    have hsame : modifyWhere (fun q => decide (key q = key r)) (fun _ => r) t =
        t.map (fun x => if key x = key r then r else x) := by
      simp [modifyWhere]
    rw [hsame, hmap]
    by_cases hk : key r = k
    · subst hk
      simp [hq, lookup_key hq]
    · rw [if_neg hk]
      cases hl : lookup key t k with
      | none => rfl
      | some x =>
        have hx : key x ≠ key r := fun he => hk (he.symm.trans (lookup_key hl))
        simp [hx]
  case isFalse hnone =>
    rw [Bool.not_eq_true, Option.isSome_eq_false_iff, Option.isNone_iff_eq_none] at hnone
    rw [lookup_append, lookup_singleton]
    by_cases hk : key r = k
    · subst hk
      simp [hnone]
    · simp [hk]

/-- The last matching row, the one `ORDER BY seq DESC LIMIT 1` returns. -/
def latest (p : α → Bool) (t : List α) : Option α :=
  (t.filter p).getLast?

theorem latest_append_singleton (p : α → Bool) (t : List α) (r : α) :
    latest p (t ++ [r]) = if p r then some r else latest p t := by
  by_cases h : p r = true <;> simp [latest, List.filter_append, h]

theorem latest_mem {p : α → Bool} {t : List α} {r : α} (h : latest p t = some r) :
    r ∈ t ∧ p r = true :=
  List.mem_filter.mp (List.mem_of_getLast? h)

theorem latest_map {p : α → Bool} {f : α → α} (hf : ∀ r, p (f r) = p r) (t : List α) :
    latest p (t.map f) = (latest p t).map f := by
  have hc : p ∘ f = p := funext hf
  simp [latest, List.filter_map, hc, List.getLast?_map]

end AItelier.Lib
