import AItelier.Lib.Entries

namespace AItelier.Lib

structure Folder (ν γ : Type*) where
  names : Entries ν Nat
  files : List γ
  single : (names.map Prod.fst).Nodup
  held : ∀ e ∈ names, e.2 < files.length

namespace Entries

variable {κ ν : Type*} [DecidableEq κ] {d : Entries κ ν} {k : κ} {v : ν}

theorem keys_set (d : Entries κ ν) (k : κ) (v : ν) :
    (set d k v).map Prod.fst = if k ∈ d.map Prod.fst then d.map Prod.fst else d.map Prod.fst ++ [k] := by
  induction d with
  | nil => simp [set]
  | cons e d ih =>
    rw [set]
    split
    · next he => simp [he]
    · next he =>
      rw [List.map_cons, ih, List.map_cons]
      by_cases hk : k ∈ d.map Prod.fst
      · rw [if_pos hk, if_pos (List.mem_cons_of_mem _ hk)]
      · rw [if_neg hk, if_neg (by simp [Ne.symm he, hk]), List.cons_append]

theorem nodup_set (h : (d.map Prod.fst).Nodup) (k : κ) (v : ν) : ((set d k v).map Prod.fst).Nodup := by
  rw [keys_set]
  split
  · exact h
  · next hk =>
    refine List.nodup_append.mpr ⟨h, List.pairwise_singleton _ k, fun a ha b hb => ?_⟩
    rw [List.mem_singleton.mp hb]
    exact fun hab => hk (hab ▸ ha)

theorem mem_set {e : κ × ν} (h : e ∈ set d k v) : e = (k, v) ∨ e ∈ d := by
  induction d with
  | nil => exact .inl (List.mem_singleton.mp h)
  | cons g d ih =>
    rw [set] at h
    split at h
    · rcases List.mem_cons.mp h with rfl | h
      · exact .inl rfl
      · exact .inr (List.mem_cons_of_mem _ h)
    · rcases List.mem_cons.mp h with rfl | h
      · exact .inr List.mem_cons_self
      · exact (ih h).imp_right (List.mem_cons_of_mem _)

/-- Whether a value there is one of a kind, as a number. -/
def weigh (p : ν → Bool) : Option ν → Nat
  | none => 0
  | some v => if p v then 1 else 0

omit [DecidableEq κ] in
theorem countP_cons (p : ν → Bool) (e : κ × ν) (d : Entries κ ν) :
    (e :: d).countP (fun e => p e.2) = d.countP (fun e => p e.2) + weigh p (some e.2) :=
  List.countP_cons

/-- How many entries of a kind there are, once a key holds another value. -/
theorem countP_set (p : ν → Bool) (d : Entries κ ν) (k : κ) (v : ν) :
    (set d k v).countP (fun e => p e.2) + weigh p (get d k) = d.countP (fun e => p e.2) + weigh p (some v) := by
  induction d with
  | nil => exact Nat.add_right_cancel_iff.mpr (countP_cons p (k, v) [])
  | cons e d ih =>
    rw [set, get_cons]
    split
    · rw [countP_cons, countP_cons]
      dsimp only
      omega
    · rw [countP_cons, countP_cons]
      omega

theorem countP_del (p : ν → Bool) (hd : (d.map Prod.fst).Nodup) (k : κ) :
    (del d k).countP (fun e => p e.2) + weigh p (get d k) = d.countP (fun e => p e.2) := by
  induction d with
  | nil => rfl
  | cons e d ih =>
    rw [List.map_cons, List.nodup_cons] at hd
    have hih := ih hd.2
    rw [get_cons]
    by_cases he : e.1 = k
    · subst he
      have hsame : del (e :: d) e.1 = del d e.1 := by simp [del]
      rw [if_pos rfl, hsame, countP_cons]
      rw [get_eq_none hd.1] at hih
      change _ + 0 = _ at hih
      omega
    · have hkept : del (e :: d) k = e :: del d k := by simp [del, he]
      rw [if_neg he, hkept, countP_cons, countP_cons]
      omega

end Entries

namespace Folder

variable {ν γ : Type*} [DecidableEq ν]

/-- The file a name leads to. -/
def inode (f : Folder ν γ) (n : ν) : Option Nat := f.names.get n

def read (f : Folder ν γ) (n : ν) : Option γ := (f.inode n).bind (fun i => f.files[i]?)

/-- `st_nlink`. -/
def links (f : Folder ν γ) (i : Nat) : Nat := f.names.countP (fun e => e.2 == i)

/-- A file made under a free name and moved to `n`: what stood there is let go of. -/
def put (f : Folder ν γ) (n : ν) (c : γ) : Folder ν γ where
  names := f.names.set n f.files.length
  files := f.files ++ [c]
  single := Entries.nodup_set f.single n _
  held := by
    intro e he
    rw [List.length_append]
    rcases Entries.mem_set he with rfl | he
    · exact Nat.lt_succ_self _
    · exact Nat.lt_of_lt_of_le (f.held e he) (Nat.le_add_right _ _)

/-- The name is the only one its file has. -/
def Sole (f : Folder ν γ) (n : ν) : Prop := ∃ i, f.inode n = some i ∧ f.links i = 1

variable {f : Folder ν γ} {n m a b : ν} {c : γ} {i : Nat}

theorem inode_put (f : Folder ν γ) (n m : ν) (c : γ) :
    (f.put n c).inode m = if n = m then some f.files.length else f.inode m :=
  Entries.get_set f.names n m f.files.length

theorem inode_lt (h : f.inode n = some i) : i < f.files.length := f.held (n, i) (Entries.mem_of_get h)

theorem read_put (f : Folder ν γ) (n m : ν) (c : γ) : (f.put n c).read m = if n = m then some c else f.read m := by
  rw [read, inode_put]
  split
  · exact List.getElem?_concat_length
  · rw [read]
    cases h : f.inode m with
    | none => rfl
    | some i => exact List.getElem?_append_left (inode_lt h)

@[simp] theorem read_put_same : (f.put n c).read n = some c := by rw [read_put, if_pos rfl]

theorem read_put_other (h : n ≠ m) : (f.put n c).read m = f.read m := by rw [read_put, if_neg h]

omit [DecidableEq ν] in
theorem links_unheld (f : Folder ν γ) : f.links f.files.length = 0 := by
  rw [links, List.countP_eq_zero]
  intro e he
  have hlt := f.held e he
  rw [beq_iff_eq]
  omega

theorem weigh_same (i : Nat) : Entries.weigh (fun j => j == i) (some i) = 1 := if_pos (beq_self_eq_true i)

theorem weigh_other {i : Nat} {o : Option Nat} (h : o ≠ some i) : Entries.weigh (fun j => j == i) o = 0 := by
  cases o with
  | none => rfl
  | some j => exact if_neg (fun hj => h (congrArg some (beq_iff_eq.mp hj)))

/-- A file with one link has one name. -/
theorem Sole.only (h : f.Sole n) (hm : f.inode m = f.inode n) : m = n := by
  obtain ⟨i, hi, hlinks⟩ := h
  by_contra hne
  have hcount := Entries.countP_del (fun j => j == i) f.single n
  rw [show f.names.get n = some i from hi, weigh_same] at hcount
  have hleft : 0 < (f.names.del n).countP (fun e => e.2 == i) := by
    apply List.countP_pos_iff.mpr
    have hmem : (f.names.del n).get m = some i := (Entries.get_del_other (Ne.symm hne)).trans (hm.trans hi)
    exact ⟨(m, i), Entries.mem_of_get hmem, beq_self_eq_true i⟩
  rw [links] at hlinks
  omega

theorem sole_put_self (f : Folder ν γ) (n : ν) (c : γ) : (f.put n c).Sole n := by
  refine ⟨f.files.length, by rw [inode_put, if_pos rfl], ?_⟩
  have hcount := Entries.countP_set (fun j => j == f.files.length) f.names n f.files.length
  have hzero : f.names.countP (fun e => e.2 == f.files.length) = 0 := f.links_unheld
  have hold : f.names.get n ≠ some f.files.length := fun h => absurd (inode_lt h) (Nat.lt_irrefl _)
  rw [hzero, weigh_other hold, weigh_same] at hcount
  exact hcount

theorem Sole.put_other (h : f.Sole m) (hne : n ≠ m) : (f.put n c).Sole m := by
  have hself := h
  obtain ⟨i, hi, hlinks⟩ := h
  refine ⟨i, by rw [inode_put, if_neg hne]; exact hi, ?_⟩
  have hcount := Entries.countP_set (fun j => j == i) f.names n f.files.length
  have hfresh : some f.files.length ≠ some i := by
    have hlt := inode_lt hi
    intro heq
    cases heq
    omega
  have hold : f.names.get n ≠ some i := fun hn => hne (hself.only (hn.trans hi.symm))
  rw [weigh_other hold, weigh_other hfresh] at hcount
  exact hcount.trans hlinks

end Folder

end AItelier.Lib
