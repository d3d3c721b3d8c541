import Mathlib.Data.List.Infix
import Mathlib.Data.List.Dedup
import AItelier.Lib.Bytes
import AItelier.Lib.Entries

namespace AItelier.Lib.FileTree

/-- A path from the root, name by name. A name above the entry may be a link to a directory;
it then stands for that directory. -/
abbrev Path := List String

inductive Node
  | file (data : Bytes) (mode : Nat)
  | link (text : String)
  | dir (mode : Nat)
  /-- a pipe, a socket or a device -/
  | special (mode : Nat)
  deriving DecidableEq, Repr

abbrev Files := Entries Path Node

/-- The paths inside a directory at `p`. -/
def below (fs : Files) (p : Path) : List Path :=
  ((fs.map Prod.fst).filter (fun q => decide (p <+: q ∧ q ≠ p))).dedup

/-- The directories that a path goes through, from the outside in. -/
def ancestors (p : Path) : List Path := p.inits.tail.dropLast

/-- What a process may do in a directory, by its mode, the mode of the directories it makes,
and the order in which the entries inside a directory are come to when it is removed. -/
structure Process where
  lists : Nat → Bool
  changes : Nat → Bool
  newDir : Nat
  order : Files → Path → List Path
  newDir_changes : changes newDir = true
  order_perm : ∀ fs p, (order fs p).Perm (below fs p)
  order_inner : ∀ fs p, (order fs p).Pairwise (fun a b => ¬ a <+: b)

section Calls

variable (proc : Process)

/-- The directory around `p` lets entries be made and removed. -/
def enters (fs : Files) (p : Path) : Bool :=
  match p.dropLast with
  | [] => true
  | parent =>
    match fs.get parent with
    | some (.dir mode) => proc.changes mode
    | _ => false

def put (p : Path) (n : Node) (fs : Files) : Files × Bool :=
  if enters proc fs p then (fs.set p n, true) else (fs, false)

def unlink (p : Path) (fs : Files) : Files × Bool :=
  if enters proc fs p then (fs.del p, true) else (fs, false)

def mkdirEach : List Path → Files → Files × Bool
  | [], fs => (fs, true)
  | q :: qs, fs =>
    match fs.get q with
    | some (.dir _) => mkdirEach qs fs
    | some _ => (fs, false)
    | none => if enters proc fs q then mkdirEach qs (fs.set q (.dir proc.newDir)) else (fs, false)

/-- `p.parent.mkdir(parents=True, exist_ok=True)`. -/
def mkParents (p : Path) (fs : Files) : Files × Bool := mkdirEach proc (ancestors p) fs

/-- The entry at `q` is found in its directory and can be taken out of it. -/
def leaves (fs : Files) (q : Path) : Bool :=
  match fs.get q.dropLast with
  | some (.dir mode) =>
    proc.lists mode && proc.changes mode &&
      match fs.get q with
      | some (.dir own) => proc.lists own
      | _ => true
  | _ => false

def removeEach : List Path → Files → Files × Bool
  | [], fs => (fs, true)
  | q :: qs, fs => if leaves proc fs q then removeEach qs (fs.del q) else (fs, false)

/-- `shutil.rmtree`. -/
def rmtree (p : Path) (fs : Files) : Files × Bool :=
  match fs.get p with
  | some (.dir mode) =>
    if proc.lists mode then
      let emptied := removeEach proc (proc.order fs p) fs
      if emptied.2 then unlink proc p emptied.1 else emptied
    else (fs, false)
  | _ => (fs, false)

end Calls

section Paths

variable {p q : Path}

theorem ancestors_concat (p : Path) (c : String) :
    ancestors (p ++ [c]) = if p = [] then [] else ancestors p ++ [p] := by
  have hinits : ∀ (s : Path) (d : String), (s ++ [d]).inits.tail = s.inits.tail ++ [s ++ [d]] := by
    intro s d
    rw [List.inits_append]
    cases s <;> rfl
  rw [ancestors, hinits, List.dropLast_concat]
  cases p using List.reverseRecOn with
  | nil => rfl
  | append_singleton s d => rw [if_neg (by simp), hinits, ancestors, hinits, List.dropLast_concat]

theorem mem_ancestors : q ∈ ancestors p ↔ q ≠ [] ∧ q <+: p ∧ q ≠ p := by
  induction p using List.reverseRecOn with
  | nil =>
    constructor
    · exact fun h => absurd h List.not_mem_nil
    · exact fun ⟨hne, hpre, _⟩ => absurd (List.prefix_nil.mp hpre) hne
  | append_singleton p c ih =>
    rw [ancestors_concat, List.prefix_concat_iff]
    by_cases hp : p = []
    · rw [if_pos hp]
      constructor
      · exact fun h => absurd h List.not_mem_nil
      · rintro ⟨hne, heq | hpre, hother⟩
        · exact absurd heq hother
        · exact absurd (List.prefix_nil.mp (hp ▸ hpre)) hne
    · rw [if_neg hp, List.mem_append, List.mem_singleton, ih]
      constructor
      · rintro (⟨hne, hpre, -⟩ | rfl)
        · refine ⟨hne, .inr hpre, ?_⟩
          intro heq
          have hlen := hpre.length_le
          rw [heq, List.length_append, List.length_singleton] at hlen
          omega
        · exact ⟨hp, .inr (List.prefix_refl _), by simp⟩
      · rintro ⟨hne, heq | hpre, hother⟩
        · exact absurd heq hother
        · by_cases heq : q = p
          · exact .inr heq
          · exact .inl ⟨hne, hpre, heq⟩

theorem dropLast_prefix_ne (h : q ≠ []) : q.dropLast ≠ q := by
  intro he
  have hlen := congrArg List.length he
  rw [List.length_dropLast] at hlen
  have hpos := List.length_pos_iff.mpr h
  omega

/-- Strictly inside `p` means that what it lies in is `p` or inside it. -/
theorem prefix_dropLast (h : p <+: q) (hne : q ≠ p) : p <+: q.dropLast := by
  obtain ⟨t, rfl⟩ := h
  have ht : t ≠ [] := fun he => hne (by rw [he, List.append_nil])
  rw [List.dropLast_append_of_ne_nil ht]
  exact List.prefix_append _ _

theorem mem_below {fs : Files} : q ∈ below fs p ↔ p <+: q ∧ q ≠ p ∧ (fs.get q).isSome := by
  rw [below, List.mem_dedup, List.mem_filter, decide_eq_true_eq, Entries.get_isSome]
  constructor
  · exact fun ⟨hin, hpre, hne⟩ => ⟨hpre, hne, hin⟩
  · exact fun ⟨hpre, hne, hin⟩ => ⟨hin, hpre, hne⟩

end Paths

section Superuser

def deepestFirst (fs : Files) (p : Path) : List Path :=
  (below fs p).mergeSort (fun a b => decide (b.length ≤ a.length))

/-- A process that no mode stops. -/
def superuser : Process where
  lists := fun _ => true
  changes := fun _ => true
  newDir := 0o755
  order := deepestFirst
  newDir_changes := rfl
  order_perm := fun fs p => List.mergeSort_perm (below fs p) _
  order_inner := by
    intro fs p
    have hsorted : (deepestFirst fs p).Pairwise (fun a b => decide (b.length ≤ a.length) = true) := by
      apply List.pairwise_mergeSort
      · intro a b c hab hbc
        exact decide_eq_true (Nat.le_trans (of_decide_eq_true hbc) (of_decide_eq_true hab))
      · intro a b
        rw [Bool.or_eq_true, decide_eq_true_eq, decide_eq_true_eq]
        exact Nat.le_total b.length a.length
    have hnodup : (deepestFirst fs p).Nodup := (List.mergeSort_perm _ _).nodup_iff.mpr (List.nodup_dedup _)
    apply List.Pairwise.imp₂ _ hsorted hnodup
    intro a b hlen hne hpre
    exact hne (hpre.eq_of_length (Nat.le_antisymm hpre.length_le (of_decide_eq_true hlen)))

end Superuser

section Rules

variable {proc : Process} {fs : Files} {p q : Path}

/-- A directory in which entries can be made and removed. -/
def Usable (proc : Process) (fs : Files) (q : Path) : Prop :=
  ∃ mode, fs.get q = some (.dir mode) ∧ proc.changes mode = true

theorem enters_of_usable (h : p.dropLast ≠ [] → Usable proc fs p.dropLast) : enters proc fs p = true := by
  unfold enters
  split
  · rfl
  · next parent hne =>
    obtain ⟨mode, hget, hmode⟩ := h (fun he => hne he)
    rw [hget]
    exact hmode

theorem put_of_usable (n : Node) (h : p.dropLast ≠ [] → Usable proc fs p.dropLast) :
    put proc p n fs = (fs.set p n, true) := by
  rw [put, if_pos (enters_of_usable h)]

theorem mkdirEach_append (qs rs : List Path) (fs : Files) :
    mkdirEach proc (qs ++ rs) fs =
      if (mkdirEach proc qs fs).2 then mkdirEach proc rs (mkdirEach proc qs fs).1 else mkdirEach proc qs fs := by
  induction qs generalizing fs with
  | nil => rfl
  | cons q qs ih =>
    rw [List.cons_append, mkdirEach, mkdirEach]
    split
    · exact ih fs
    · rfl
    · split
      · exact ih _
      · rfl

/-- The missing directories above a path are made, and nothing else changes. -/
theorem mkParents_through (h : ∀ q ∈ ancestors p, fs.get q = none ∨ Usable proc fs q) :
    (mkParents proc p fs).2 = true ∧ (∀ q ∈ ancestors p, Usable proc (mkParents proc p fs).1 q) ∧
      ∀ q, q ∉ ancestors p ∨ (fs.get q).isSome → (mkParents proc p fs).1.get q = fs.get q := by
  induction p using List.reverseRecOn with
  | nil => exact ⟨rfl, fun q hq => absurd hq List.not_mem_nil, fun _ _ => rfl⟩
  | append_singleton p c ih =>
    rw [ancestors_concat] at h
    rw [mkParents, ancestors_concat]
    by_cases hp : p = []
    · rw [if_pos hp]
      exact ⟨rfl, fun q hq => absurd hq List.not_mem_nil, fun _ _ => rfl⟩
    · rw [if_neg hp] at h ⊢
      obtain ⟨hthrough, husable, hsame⟩ := ih (fun q hq => h q (List.mem_append_left _ hq))
      have hself : p ∉ ancestors p := fun hin => (mem_ancestors.mp hin).2.2 rfl
      have hget := hsame p (.inl hself)
      have hparent : p.dropLast ≠ [] → Usable proc (mkParents proc p fs).1 p.dropLast := by
        intro hne
        exact husable _ (mem_ancestors.mpr ⟨hne, List.dropLast_prefix p, dropLast_prefix_ne hp⟩)
      rw [mkdirEach_append, ← mkParents, if_pos hthrough, mkdirEach]
      rcases h p (List.mem_append_right _ (List.mem_singleton.mpr rfl)) with hnone | ⟨mode, hdir, hmode⟩
      · rw [hget, hnone]
        dsimp only
        rw [if_pos (enters_of_usable hparent), mkdirEach]
        refine ⟨rfl, ?_, ?_⟩
        · intro q hq
          by_cases hqp : p = q
          · subst hqp
            exact ⟨proc.newDir, Entries.get_set_same _ _ _, proc.newDir_changes⟩
          · rcases List.mem_append.mp hq with hq | hq
            · obtain ⟨mode, hget, hmode⟩ := husable q hq
              exact ⟨mode, (Entries.get_set_other hqp).trans hget, hmode⟩
            · exact absurd (List.mem_singleton.mp hq).symm hqp
        · intro q hq
          by_cases hqp : p = q
          · subst hqp
            rcases hq with hq | hq
            · exact absurd (List.mem_append_right _ (List.mem_singleton.mpr rfl)) hq
            · rw [hnone] at hq
              exact absurd hq Bool.false_ne_true
          · rw [Entries.get_set_other hqp]
            exact hsame q (hq.imp_left (fun hout hin => hout (List.mem_append_left _ hin)))
      · rw [hget, hdir]
        dsimp only
        rw [mkdirEach]
        refine ⟨rfl, ?_, ?_⟩
        · intro q hq
          rcases List.mem_append.mp hq with hq | hq
          · exact husable q hq
          · rw [List.mem_singleton.mp hq]
            exact ⟨mode, hget.trans hdir, hmode⟩
        · intro q hq
          exact hsame q (hq.imp_left (fun hout hin => hout (List.mem_append_left _ hin)))

theorem leaves_of {mode : Nat} (hdir : fs.get q.dropLast = some (.dir mode)) (hlists : proc.lists mode = true)
    (hchanges : proc.changes mode = true) (hown : ∀ own, fs.get q = some (.dir own) → proc.lists own = true) :
    leaves proc fs q = true := by
  rw [leaves, hdir]
  dsimp only
  rw [hlists, hchanges, Bool.and_self, Bool.true_and]
  split
  · next own hget => exact hown own hget
  · rfl

/-- Entries are removed one by one, each before the directory it lies in. -/
theorem removeEach_through (qs : List Path) (hinner : qs.Pairwise (fun a b => ¬ a <+: b))
    (hdirs : ∀ q ∈ qs, ∃ mode, fs.get q.dropLast = some (.dir mode) ∧ proc.lists mode = true ∧ proc.changes mode = true)
    (hown : ∀ q ∈ qs, ∀ own, fs.get q = some (.dir own) → proc.lists own = true) :
    (removeEach proc qs fs).2 = true ∧
      ∀ q, (removeEach proc qs fs).1.get q = if q ∈ qs then none else fs.get q := by
  induction qs generalizing fs with
  | nil => exact ⟨rfl, fun q => (if_neg List.not_mem_nil).symm⟩
  | cons r qs ih =>
    obtain ⟨hfirst, hinner⟩ := List.pairwise_cons.mp hinner
    obtain ⟨⟨mode, hdir, hlists, hchanges⟩, hdirs⟩ := List.forall_mem_cons.mp hdirs
    obtain ⟨hself, hown⟩ := List.forall_mem_cons.mp hown
    have hstep : ∀ q, q ∈ qs → r ≠ q ∧ r ≠ q.dropLast := by
      intro q hq
      constructor
      · exact fun he => hfirst q hq (he ▸ List.prefix_refl _)
      · exact fun he => hfirst q hq (he ▸ List.dropLast_prefix q)
    rw [removeEach, if_pos (leaves_of hdir hlists hchanges hself)]
    have hdirs' : ∀ q ∈ qs, ∃ mode, (fs.del r).get q.dropLast = some (.dir mode) ∧ proc.lists mode = true ∧
        proc.changes mode = true := by
      intro q hq
      obtain ⟨mode, hget, hmode⟩ := hdirs q hq
      exact ⟨mode, (Entries.get_del_other (hstep q hq).2).trans hget, hmode⟩
    have hown' : ∀ q ∈ qs, ∀ own, (fs.del r).get q = some (.dir own) → proc.lists own = true := by
      intro q hq own hget
      exact hown q hq own ((Entries.get_del_other (hstep q hq).1).symm.trans hget)
    obtain ⟨hthrough, hget⟩ := ih hinner hdirs' hown'
    refine ⟨hthrough, fun q => ?_⟩
    rw [hget, Entries.get_del]
    by_cases hin : q ∈ qs
    · rw [if_pos hin, if_pos (List.mem_cons_of_mem _ hin)]
    · rw [if_neg hin]
      by_cases hr : r = q
      · rw [if_pos hr, if_pos (hr ▸ List.mem_cons_self)]
      · rw [if_neg hr, if_neg (fun h => (List.mem_cons.mp h).elim (fun he => hr he.symm) hin)]

/-- What lies inside `p` lies in directories that the process may list and change. -/
def Inside (proc : Process) (fs : Files) (p : Path) : Prop :=
  ∀ q, p <+: q → q ≠ p → (fs.get q).isSome →
    ∃ mode, fs.get q.dropLast = some (.dir mode) ∧ proc.lists mode = true ∧ proc.changes mode = true

/-- The process may also list the directories with nothing inside, and enter the ones above. -/
structure Within (proc : Process) (fs : Files) (p : Path) : Prop where
  inside : Inside proc fs p
  dirs : ∀ q mode, p <+: q → fs.get q = some (.dir mode) → proc.lists mode = true
  above : (fs.get p).isSome → ∀ q ∈ ancestors p, Usable proc fs q

/-- On the way from `p` down to an entry there are only directories. -/
theorem Inside.dir_between {a : Path} (h : Inside proc fs p) (hpa : p <+: a) (haq : a <+: q) (hne : a ≠ q)
    (hq : (fs.get q).isSome) :
    ∃ mode, fs.get a = some (.dir mode) ∧ proc.lists mode = true ∧ proc.changes mode = true := by
  induction hn : q.length generalizing q with
  | zero =>
    rw [List.length_eq_zero_iff.mp hn] at haq hne
    exact absurd (List.prefix_nil.mp haq) hne
  | succ n ih =>
    have hqp : q ≠ p := fun he => hne (haq.eq_of_length (Nat.le_antisymm haq.length_le (he ▸ hpa.length_le)))
    obtain ⟨mode, hget, hmode⟩ := h q (hpa.trans haq) hqp hq
    by_cases hlast : a = q.dropLast
    · exact ⟨mode, hlast ▸ hget, hmode⟩
    · have hlen : q.dropLast.length = n := by
        rw [List.length_dropLast, hn]
        rfl
      exact ih (prefix_dropLast haq (Ne.symm hne)) hlast (by rw [hget]; rfl) hlen

/-- Only a directory has anything inside it. -/
theorem Inside.dir_of_inside (h : Inside proc fs p) (hpre : p <+: q) (hne : q ≠ p) (hq : (fs.get q).isSome) :
    ∃ mode, fs.get p = some (.dir mode) := by
  obtain ⟨mode, hget, -⟩ := h.dir_between (List.prefix_refl p) hpre (Ne.symm hne) hq
  exact ⟨mode, hget⟩

theorem Within.parent (h : Within proc fs p) (hp : (fs.get p).isSome) :
    p.dropLast ≠ [] → Usable proc fs p.dropLast := by
  intro hne
  apply h.above hp
  have hself : p ≠ [] := fun he => hne (by rw [he]; rfl)
  exact mem_ancestors.mpr ⟨hne, List.dropLast_prefix p, dropLast_prefix_ne hself⟩

theorem unlink_through (h : Within proc fs p) (hp : (fs.get p).isSome) (hdir : ∀ mode, fs.get p ≠ some (.dir mode)) :
    (unlink proc p fs).2 = true ∧ ∀ q, (unlink proc p fs).1.get q = if p <+: q then none else fs.get q := by
  rw [unlink, if_pos (enters_of_usable (h.parent hp))]
  refine ⟨rfl, fun q => ?_⟩
  rw [Entries.get_del]
  by_cases hq : p = q
  · rw [if_pos hq, if_pos (hq ▸ List.prefix_refl _)]
  · rw [if_neg hq]
    split
    · next hpre =>
      cases hget : fs.get q with
      | none => rfl
      | some n =>
        obtain ⟨mode, hmode⟩ := h.inside.dir_of_inside hpre (Ne.symm hq) (by rw [hget]; rfl)
        exact absurd hmode (hdir mode)
    · rfl

/-- A tree whose directories the process may list and change is removed whole. -/
theorem rmtree_through (h : Within proc fs p) {mode : Nat} (hp : fs.get p = some (.dir mode)) :
    (rmtree proc p fs).2 = true ∧ ∀ q, (rmtree proc p fs).1.get q = if p <+: q then none else fs.get q := by
  have hmem : ∀ q, q ∈ proc.order fs p ↔ p <+: q ∧ q ≠ p ∧ (fs.get q).isSome := by
    intro q
    rw [(proc.order_perm fs p).mem_iff]
    exact mem_below
  have hlists := h.dirs p mode (List.prefix_refl p) hp
  have hdirs : ∀ q ∈ proc.order fs p, ∃ mode, fs.get q.dropLast = some (.dir mode) ∧ proc.lists mode = true ∧
      proc.changes mode = true := by
    intro q hq
    obtain ⟨hpre, hne, hsome⟩ := (hmem q).mp hq
    exact h.inside q hpre hne hsome
  have hown : ∀ q ∈ proc.order fs p, ∀ own, fs.get q = some (.dir own) → proc.lists own = true :=
    fun q hq own hown => h.dirs q own ((hmem q).mp hq).1 hown
  obtain ⟨hthrough, hget⟩ := removeEach_through _ (proc.order_inner fs p) hdirs hown
  have hsome : (fs.get p).isSome := by rw [hp]; rfl
  have hparent : p.dropLast ≠ [] → Usable proc (removeEach proc (proc.order fs p) fs).1 p.dropLast := by
    intro hne
    obtain ⟨outer, houter, hchanges⟩ := h.parent hsome hne
    refine ⟨outer, ?_, hchanges⟩
    rw [hget, if_neg]
    · exact houter
    · intro hin
      have hlen := ((hmem _).mp hin).1.length_le
      rw [List.length_dropLast] at hlen
      have hself : p ≠ [] := fun he => hne (by rw [he]; rfl)
      have hpos := List.length_pos_iff.mpr hself
      omega
  rw [rmtree, hp]
  dsimp only
  rw [if_pos hlists, if_pos hthrough, unlink, if_pos (enters_of_usable hparent)]
  refine ⟨rfl, fun q => ?_⟩
  rw [Entries.get_del, hget]
  by_cases hq : p = q
  · rw [if_pos hq, if_pos (hq ▸ List.prefix_refl _)]
  · rw [if_neg hq]
    by_cases hpre : p <+: q
    · rw [if_pos hpre]
      split
      · rfl
      · next hout =>
        cases hfound : fs.get q with
        | none => rfl
        | some n => exact absurd ((hmem q).mpr ⟨hpre, Ne.symm hq, by rw [hfound]; rfl⟩) hout
    · rw [if_neg hpre, if_neg (fun hin => hpre ((hmem q).mp hin).1)]

end Rules

end AItelier.Lib.FileTree
