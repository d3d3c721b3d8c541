import Mathlib.Data.List.Basic

namespace AItelier.Lib

/-- A dictionary, in the order in which its keys were put in. -/
abbrev Entries (κ ν : Type*) := List (κ × ν)

namespace Entries

variable {κ ν : Type*} [DecidableEq κ]

def get (d : Entries κ ν) (k : κ) : Option ν := (d.find? (fun e => decide (e.1 = k))).map Prod.snd

/-- `d[k] = v`: a key that is there keeps its place. -/
def set : Entries κ ν → κ → ν → Entries κ ν
  | [], k, v => [(k, v)]
  | e :: d, k, v => if e.1 = k then (k, v) :: d else e :: set d k v

/-- `d.pop(k, None)`. -/
def del (d : Entries κ ν) (k : κ) : Entries κ ν := d.filter (fun e => !decide (e.1 = k))

variable {d : Entries κ ν} {k k' : κ} {v : ν}

@[simp] theorem get_nil (k : κ) : get ([] : Entries κ ν) k = none := rfl

theorem get_cons (e : κ × ν) (d : Entries κ ν) (k : κ) : get (e :: d) k = if e.1 = k then some e.2 else get d k := by
  by_cases h : e.1 = k
  · rw [get, List.find?_cons, decide_eq_true h, if_pos h]
    rfl
  · rw [get, List.find?_cons, decide_eq_false h, if_neg h]
    rfl

theorem get_set (d : Entries κ ν) (k k' : κ) (v : ν) : get (set d k v) k' = if k = k' then some v else get d k' := by
  induction d with
  | nil => exact get_cons (k, v) [] k'
  | cons e d ih =>
    rw [set]
    split
    · next he =>
      rw [get_cons, get_cons, he]
      split <;> rfl
    · next he =>
      rw [get_cons, get_cons, ih]
      by_cases hk : e.1 = k'
      · rw [if_pos hk, if_pos hk, if_neg (fun h => he (hk.trans h.symm))]
      · rw [if_neg hk, if_neg hk]

theorem get_set_same (d : Entries κ ν) (k : κ) (v : ν) : get (set d k v) k = some v := by
  rw [get_set, if_pos rfl]

theorem get_set_other (h : k ≠ k') : get (set d k v) k' = get d k' := by
  rw [get_set, if_neg h]

/-- A new key goes to the end. -/
theorem set_new (h : k ∉ d.map Prod.fst) (v : ν) : set d k v = d ++ [(k, v)] := by
  induction d with
  | nil => rfl
  | cons e d ih =>
    rw [List.map_cons, List.mem_cons, not_or] at h
    rw [set, if_neg (Ne.symm h.1), ih h.2]
    rfl

theorem keys_set_old (h : k ∈ d.map Prod.fst) (v : ν) : (set d k v).map Prod.fst = d.map Prod.fst := by
  induction d with
  | nil => exact absurd h List.not_mem_nil
  | cons e d ih =>
    rw [set]
    split
    · next he => rw [List.map_cons, List.map_cons, he]
    · next he =>
      rw [List.map_cons, List.mem_cons] at h
      rw [List.map_cons, List.map_cons, ih (h.resolve_left (Ne.symm he))]

theorem get_filter (p : κ → Bool) (d : Entries κ ν) (k : κ) :
    get (d.filter (fun e => p e.1)) k = if p k then get d k else none := by
  induction d with
  | nil => cases p k <;> rfl
  | cons e d ih =>
    rw [List.filter_cons]
    split
    · next hp =>
      rw [get_cons, get_cons, ih]
      by_cases hk : e.1 = k
      · rw [if_pos hk, if_pos hk, if_pos (hk ▸ hp)]
      · rw [if_neg hk, if_neg hk]
    · next hp =>
      rw [ih, get_cons]
      by_cases hk : e.1 = k
      · rw [if_neg (hk ▸ hp), if_neg (hk ▸ hp)]
      · rw [if_neg hk]

theorem get_del (d : Entries κ ν) (k k' : κ) : get (del d k) k' = if k = k' then none else get d k' := by
  have h := get_filter (fun x => !decide (x = k)) d k'
  rw [del, h]
  by_cases hk : k = k'
  · rw [if_pos hk, decide_eq_true hk.symm]
    rfl
  · rw [if_neg hk, decide_eq_false (Ne.symm hk)]
    rfl

theorem get_del_same (d : Entries κ ν) (k : κ) : get (del d k) k = none := by
  rw [get_del, if_pos rfl]

theorem get_del_other (h : k ≠ k') : get (del d k) k' = get d k' := by
  rw [get_del, if_neg h]

theorem get_map {μ : Type*} (f : ν → μ) (d : Entries κ ν) (k : κ) :
    get (d.map (fun e => (e.1, f e.2)) : Entries κ μ) k = (get d k).map f := by
  induction d with
  | nil => rfl
  | cons e d ih =>
    rw [List.map_cons, get_cons, get_cons, ih]
    split <;> rfl

theorem mem_of_get (h : get d k = some v) : (k, v) ∈ d := by
  obtain ⟨e, he, rfl⟩ := Option.map_eq_some_iff.mp h
  have hkey : e.1 = k := by simpa using List.find?_some he
  exact hkey ▸ List.mem_of_find?_eq_some he

theorem get_append (d d' : Entries κ ν) (k : κ) : get (d ++ d') k = (get d k).or (get d' k) := by
  rw [get, List.find?_append, Option.map_or]
  rfl

theorem get_isSome : (get d k).isSome ↔ k ∈ d.map Prod.fst := by
  rw [get, Option.isSome_map, List.find?_isSome, List.mem_map]
  constructor
  · exact fun ⟨e, he, hk⟩ => ⟨e, he, of_decide_eq_true hk⟩
  · exact fun ⟨e, he, hk⟩ => ⟨e, he, decide_eq_true hk⟩

/-- With distinct keys, every entry is what its key gets. -/
theorem get_of_mem (hd : (d.map Prod.fst).Nodup) (h : (k, v) ∈ d) : get d k = some v := by
  induction d with
  | nil => exact absurd h List.not_mem_nil
  | cons e d ih =>
    obtain ⟨hnew, hd⟩ := List.nodup_cons.mp hd
    rw [get_cons]
    rcases List.mem_cons.mp h with rfl | h
    · exact if_pos rfl
    · have hne : e.1 ≠ k := fun he => hnew (List.mem_map.mpr ⟨(k, v), h, he.symm⟩)
      rw [if_neg hne]
      exact ih hd h

/-- A dictionary made of the entries that keep a value. -/
theorem get_filterMap {μ : Type*} (f : κ → ν → Option μ) (hd : (d.map Prod.fst).Nodup) (k : κ) :
    get (d.filterMap (fun e => (f e.1 e.2).map (fun v => (e.1, v))) : Entries κ μ) k = (get d k).bind (f k) := by
  induction d with
  | nil => rfl
  | cons e d ih =>
    obtain ⟨hnew, hd⟩ := List.nodup_cons.mp hd
    rw [get_cons]
    by_cases hk : e.1 = k
    · subst hk
      rw [if_pos rfl, Option.bind_some]
      cases hf : f e.1 e.2 with
      | some v =>
        rw [List.filterMap_cons, hf]
        exact (get_cons _ _ _).trans (if_pos rfl)
      | none =>
        rw [List.filterMap_cons, hf]
        have hnone : get d e.1 = none := by
          rw [← Option.not_isSome_iff_eq_none, get_isSome]
          exact hnew
        exact (ih hd).trans (by rw [hnone]; rfl)
    · rw [if_neg hk, ← ih hd, List.filterMap_cons]
      cases f e.1 e.2 with
      | some v => exact (get_cons _ _ _).trans (if_neg hk)
      | none => rfl

/-- Putting in what is held for each key of a list, or taking the key out where nothing is held. -/
def restore (held : κ → Option ν) (d : Entries κ ν) (ks : List κ) : Entries κ ν :=
  ks.foldl (fun d k => match held k with
    | some v => set d k v
    | none => del d k) d

theorem get_restore (held : κ → Option ν) (d : Entries κ ν) (ks : List κ) (k : κ) :
    get (restore held d ks) k = if k ∈ ks then held k else get d k := by
  induction ks generalizing d with
  | nil => rw [if_neg List.not_mem_nil]; rfl
  | cons k' ks ih =>
    have hstep : restore held d (k' :: ks) = restore held (match held k' with
      | some v => set d k' v
      | none => del d k') ks := rfl
    rw [hstep, ih]
    by_cases hin : k ∈ ks
    · rw [if_pos hin, if_pos (List.mem_cons_of_mem _ hin)]
    · rw [if_neg hin]
      by_cases hk : k' = k
      · subst hk
        rw [if_pos List.mem_cons_self]
        cases hheld : held k' with
        | some v => exact get_set_same d k' v
        | none => exact get_del_same d k'
      · rw [if_neg (fun h => (List.mem_cons.mp h).elim (fun he => hk he.symm) hin)]
        cases held k' with
        | some v => exact get_set_other hk
        | none => exact get_del_other hk

/-- `d == d'`. -/
def Agree (d d' : Entries κ ν) : Prop := ∀ k ∈ d.map Prod.fst ++ d'.map Prod.fst, get d k = get d' k

instance [DecidableEq ν] (d d' : Entries κ ν) : Decidable (Agree d d') :=
  inferInstanceAs (Decidable (∀ k ∈ d.map Prod.fst ++ d'.map Prod.fst, get d k = get d' k))

theorem get_eq_none (h : k ∉ d.map Prod.fst) : get d k = none := by
  rw [← Option.not_isSome_iff_eq_none, get_isSome]
  exact h

theorem agree_iff {d d' : Entries κ ν} : Agree d d' ↔ ∀ k, get d k = get d' k := by
  refine ⟨fun h k => ?_, fun h k _ => h k⟩
  by_cases hk : k ∈ d.map Prod.fst ++ d'.map Prod.fst
  · exact h k hk
  · rw [List.mem_append, not_or] at hk
    rw [get_eq_none hk.1, get_eq_none hk.2]

end Entries

end AItelier.Lib
