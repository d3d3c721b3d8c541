import AItelier.Registration.Transaction

namespace AItelier.Registration

open AItelier.Lib AItelier.Lib.FileTree

variable {proc : Process} {fs entry : Files} {p q : Path}

section Capture

theorem reached_of_inside (h : Inside proc fs p) (hq : (fs.get q).isSome) : reached proc fs p q = true := by
  rw [reached, List.all_eq_true]
  intro r hr
  obtain ⟨hin, hcond⟩ := List.mem_filter.mp hr
  obtain ⟨hpr, hrq⟩ := of_decide_eq_true hcond
  have hrpre : r <+: q := (List.mem_inits r q).mp hin
  obtain ⟨mode, hget, hlists, -⟩ := h.dir_between hpr hrpre hrq hq
  rw [hget]
  exact hlists

/-- All that is inside a tree that can be listed is kept. -/
theorem mem_captureInside (h : Inside proc fs p) {r : Path} {n : Node} :
    (r, n) ∈ captureInside proc fs p ↔ r ≠ [] ∧ (fs.get (p ++ r)).map keptAs = some n := by
  rw [captureInside, List.mem_filterMap]
  constructor
  · rintro ⟨q, hq, hsome⟩
    obtain ⟨⟨t, rfl⟩, hne, hin⟩ := mem_below.mp hq
    rw [if_pos (reached_of_inside h hin)] at hsome
    obtain ⟨m, hm, heq⟩ := Option.map_eq_some_iff.mp hsome
    rw [List.drop_left] at heq
    obtain ⟨rfl, rfl⟩ := Prod.mk.inj heq
    refine ⟨?_, ?_⟩
    · exact fun he => hne (by rw [he, List.append_nil])
    · rw [hm]
      rfl
  · rintro ⟨hne, hsome⟩
    obtain ⟨m, hm, rfl⟩ := Option.map_eq_some_iff.mp hsome
    have hin : (fs.get (p ++ r)).isSome := by rw [hm]; rfl
    have hother : p ++ r ≠ p := fun he => hne (List.append_right_eq_self.mp he)
    refine ⟨p ++ r, mem_below.mpr ⟨List.prefix_append p r, hother, hin⟩, ?_⟩
    rw [if_pos (reached_of_inside h hin), hm, List.drop_left]
    rfl

theorem captureInside_nodup (h : Inside proc fs p) : ((captureInside proc fs p).map Prod.fst).Nodup := by
  have hkey : (captureInside proc fs p).map Prod.fst = (below fs p).map (List.drop p.length) := by
    rw [captureInside, List.map_filterMap, ← List.filterMap_eq_map]
    apply List.filterMap_congr
    intro q hq
    obtain ⟨-, -, hin⟩ := mem_below.mp hq
    obtain ⟨n, hn⟩ := Option.isSome_iff_exists.mp hin
    rw [if_pos (reached_of_inside h hin), hn]
    rfl
  rw [hkey]
  apply List.Nodup.map_on
  · intro a ha b hb hab
    obtain ⟨⟨s, rfl⟩, -, -⟩ := mem_below.mp ha
    obtain ⟨⟨t, rfl⟩, -, -⟩ := mem_below.mp hb
    rw [List.drop_left, List.drop_left] at hab
    rw [hab]
  · exact List.nodup_dedup _

end Capture

section Place

theorem place_at {n : Node} (h : ∀ q ∈ ancestors p, fs.get q = none ∨ Usable proc fs q) :
    (place proc p n fs).2 = true ∧ (place proc p n fs).1.get p = some n ∧
      (∀ q ∈ ancestors p, Usable proc (place proc p n fs).1 q) ∧
      ∀ q, q ≠ p → q ∉ ancestors p ∨ (fs.get q).isSome → (place proc p n fs).1.get q = fs.get q := by
  obtain ⟨hthrough, husable, hsame⟩ := mkParents_through h
  have hparent : p.dropLast ≠ [] → Usable proc (mkParents proc p fs).1 p.dropLast := by
    intro hne
    have hself : p ≠ [] := fun he => hne (by rw [he]; rfl)
    exact husable _ (mem_ancestors.mpr ⟨hne, List.dropLast_prefix p, dropLast_prefix_ne hself⟩)
  rw [place, if_pos hthrough, put_of_usable n hparent]
  refine ⟨rfl, Entries.get_set_same _ _ _, ?_, ?_⟩
  · intro q hq
    obtain ⟨mode, hget, hmode⟩ := husable q hq
    have hne : p ≠ q := fun he => (mem_ancestors.mp hq).2.2 he.symm
    exact ⟨mode, (Entries.get_set_other hne).trans hget, hmode⟩
  · intro q hne hq
    rw [Entries.get_set_other (Ne.symm hne)]
    exact hsame q hq

/-- Each entry of a list finds the directories above it there already, or before it in the list. -/
def Founded (proc : Process) (p : Path) (l : List (Path × Node)) (fs : Files) : Prop :=
  ∀ e ∈ l, ∀ q ∈ ancestors (p ++ e.1), Usable proc fs q ∨
    ∃ r mode, q = p ++ r ∧ (r, Node.dir mode) ∈ l ∧ proc.changes mode = true

theorem placeEach_through (l : List (Path × Node)) (hfounded : Founded proc p l fs)
    (hsorted : l.Pairwise (fun a b => a.1.length ≤ b.1.length)) (hnodup : (l.map Prod.fst).Nodup)
    (hnew : ∀ e ∈ l, fs.get (p ++ e.1) = none) :
    (placeEach proc p l fs).2 = true ∧ (∀ e ∈ l, (placeEach proc p l fs).1.get (p ++ e.1) = some e.2) ∧
      ∀ q, (∀ e ∈ l, q ≠ p ++ e.1) → (placeEach proc p l fs).1.get q = fs.get q := by
  induction l generalizing fs with
  | nil => exact ⟨rfl, fun e he => absurd he List.not_mem_nil, fun _ _ => rfl⟩
  | cons e l ih =>
    obtain ⟨hshort, hsorted⟩ := List.pairwise_cons.mp hsorted
    obtain ⟨hfresh, hnodup⟩ := List.nodup_cons.mp hnodup
    obtain ⟨habsent, hnew⟩ := List.forall_mem_cons.mp hnew
    have hkey : ∀ x ∈ l, p ++ x.1 ≠ p ++ e.1 := by
      intro x hx he
      exact hfresh (List.mem_map.mpr ⟨x, hx, List.append_cancel_left he⟩)
    -- nothing left is shorter than `e`, so what it lies in is all there
    have hready : ∀ q ∈ ancestors (p ++ e.1), Usable proc fs q := by
      intro q hq
      rcases hfounded e List.mem_cons_self q hq with husable | ⟨r, mode, rfl, hin, -⟩
      · exact husable
      · obtain ⟨-, hpre, hne⟩ := mem_ancestors.mp hq
        have hlt : r.length < e.1.length := by
          have hle := hpre.length_le
          rw [List.length_append, List.length_append] at hle
          have hlen : r.length ≠ e.1.length := by
            intro heq
            exact hne (hpre.eq_of_length (by rw [List.length_append, List.length_append, heq]))
          omega
        rcases List.mem_cons.mp hin with he | hin
        · rw [← he] at hlt
          exact absurd hlt (Nat.lt_irrefl _)
        · exact absurd (hshort _ hin) (Nat.not_le.mpr hlt)
    obtain ⟨hthrough, hself, -, hsame⟩ := @place_at proc fs (p ++ e.1) e.2 (fun q hq => .inr (hready q hq))
    have hkept : ∀ q, q ≠ p ++ e.1 → (place proc (p ++ e.1) e.2 fs).1.get q = fs.get q := by
      intro q hne
      by_cases hq : q ∈ ancestors (p ++ e.1)
      · obtain ⟨mode, hget, -⟩ := hready q hq
        exact hsame q hne (.inr (by rw [hget]; rfl))
      · exact hsame q hne (.inl hq)
    have hnext : Founded proc p l (place proc (p ++ e.1) e.2 fs).1 := by
      intro x hx q hq
      rcases hfounded x (List.mem_cons_of_mem _ hx) q hq with ⟨mode, hget, hmode⟩ | ⟨r, mode, rfl, hin, hmode⟩
      · refine .inl ⟨mode, (hkept q ?_).trans hget, hmode⟩
        intro he
        rw [he, habsent] at hget
        exact absurd hget (Option.some_ne_none _).symm
      · rcases List.mem_cons.mp hin with he | hin
        · refine .inl ⟨mode, ?_, hmode⟩
          rw [← he] at hself
          rw [← he]
          exact hself
        · exact .inr ⟨r, mode, rfl, hin, hmode⟩
    have hstill : ∀ x ∈ l, (place proc (p ++ e.1) e.2 fs).1.get (p ++ x.1) = none :=
      fun x hx => (hkept _ (hkey x hx)).trans (hnew x hx)
    obtain ⟨hrest, hplaced, hothers⟩ := ih hnext hsorted hnodup hstill
    rw [placeEach, if_pos hthrough]
    refine ⟨hrest, ?_, ?_⟩
    · intro x hx
      rcases List.mem_cons.mp hx with rfl | hx
      · rw [hothers _ (fun y hy => Ne.symm (hkey y hy))]
        exact hself
      · exact hplaced x hx
    · intro q hq
      obtain ⟨hne, hq⟩ := List.forall_mem_cons.mp hq
      rw [hothers q hq, hkept q hne]

end Place

section Restore

theorem restoreOrder_sorted (l : List (Path × Node)) :
    (l.mergeSort restoreOrder).Pairwise (fun a b => a.1.length ≤ b.1.length) := by
  have hsorted : (l.mergeSort restoreOrder).Pairwise (fun a b => restoreOrder a b = true) := by
    apply List.pairwise_mergeSort
    · intro a b c hab hbc
      simp only [restoreOrder, Bool.or_eq_true, Bool.and_eq_true, decide_eq_true_eq] at hab hbc ⊢
      rcases hab with hab | ⟨hab, hle⟩
      · rcases hbc with hbc | ⟨hbc, -⟩
        · exact .inl (hab.trans hbc)
        · exact .inl (hbc ▸ hab)
      · rcases hbc with hbc | ⟨hbc, hle'⟩
        · exact .inl (hab ▸ hbc)
        · exact .inr ⟨hab.trans hbc, hle.trans hle'⟩
    · intro a b
      simp only [restoreOrder, Bool.or_eq_true, Bool.and_eq_true, decide_eq_true_eq]
      rcases Nat.lt_trichotomy a.1.length b.1.length with hlt | heq | hlt
      · exact .inl (.inl hlt)
      · rcases le_total (String.intercalate "/" a.1) (String.intercalate "/" b.1) with hle | hle
        · exact .inl (.inr ⟨heq, hle⟩)
        · exact .inr (.inr ⟨heq.symm, hle⟩)
      · exact .inr (.inl hlt)
  apply hsorted.imp
  intro a b hab
  simp only [restoreOrder, Bool.or_eq_true, Bool.and_eq_true, decide_eq_true_eq] at hab
  omega

theorem remove_through (h : Within proc fs p) (hplain : ∀ mode, fs.get p ≠ some (.special mode)) :
    (remove proc p fs).2 = true ∧ ∀ q, (remove proc p fs).1.get q = if p <+: q then none else fs.get q := by
  cases hp : fs.get p with
  | none =>
    rw [remove, hp]
    dsimp only
    refine ⟨rfl, fun q => ?_⟩
    split
    · next hpre =>
      by_cases hq : q = p
      · rw [hq]
        exact hp
      · by_contra hne
        obtain ⟨mode, hdir⟩ := h.inside.dir_of_inside hpre hq (Option.isSome_iff_ne_none.mpr hne)
        rw [hp] at hdir
        exact absurd hdir (Option.some_ne_none _).symm
    · rfl
  | some n =>
    have hsome : (fs.get p).isSome := by rw [hp]; rfl
    cases n with
    | file data mode =>
      rw [remove, hp]
      exact unlink_through h hsome (fun mode => by rw [hp]; simp)
    | link text =>
      rw [remove, hp]
      exact unlink_through h hsome (fun mode => by rw [hp]; simp)
    | dir mode =>
      rw [remove, hp]
      exact rmtree_through h hp
    | special mode => exact absurd hp (hplain mode)

/-- What a rollback of one path leaves of the rest of the file system. -/
structure Spares (proc : Process) (p : Path) (fs fs' : Files) : Prop where
  same : ∀ q, ¬ p <+: q → q ∉ ancestors p ∨ (fs.get q).isSome → fs'.get q = fs.get q
  made : ∀ q ∈ ancestors p, fs'.get q = none ∨ Usable proc fs' q

theorem not_prefix_of_ancestor (h : q ∈ ancestors p) : ¬ p <+: q := by
  obtain ⟨-, hpre, hne⟩ := mem_ancestors.mp h
  exact fun hback => hne (hpre.eq_of_length (Nat.le_antisymm hpre.length_le hback.length_le))

/-- The entry is put back at `p` as it was, pipes and devices apart. -/
theorem restore_through (hentry : Inside proc entry p) (h : Within proc fs p)
    (habove : ∀ q ∈ ancestors p, fs.get q = none ∨ Usable proc fs q)
    (hplain : ∀ mode, fs.get p ≠ some (.special mode)) :
    (∀ q, p <+: q → (restore proc p (capture proc entry p) fs).1.get q = (entry.get q).map keptAs) ∧
      Spares proc p fs (restore proc p (capture proc entry p) fs).1 := by
  obtain ⟨hremoved, hcleared⟩ := remove_through h hplain
  have hnone : ∀ q, p <+: q → q ≠ p → (∀ mode, entry.get p ≠ some (.dir mode)) → entry.get q = none := by
    intro q hpre hne hdir
    by_contra hsome
    obtain ⟨mode, hmode⟩ := hentry.dir_of_inside hpre hne (Option.isSome_iff_ne_none.mpr hsome)
    exact hdir mode hmode
  have hstill : ∀ q ∈ ancestors p, (remove proc p fs).1.get q = none ∨ Usable proc (remove proc p fs).1 q := by
    intro q hq
    have hget := hcleared q
    rw [if_neg (not_prefix_of_ancestor hq)] at hget
    rcases habove q hq with hnone | ⟨mode, hdir, hmode⟩
    · exact .inl (hget.trans hnone)
    · exact .inr ⟨mode, hget.trans hdir, hmode⟩
  have hgone : ∀ q, p <+: q → (remove proc p fs).1.get q = none := fun q hpre => (hcleared q).trans (if_pos hpre)
  have hrest : ∀ q, ¬ p <+: q → (remove proc p fs).1.get q = fs.get q := fun q hpre => (hcleared q).trans (if_neg hpre)
  cases hcap : capture proc entry p with
  | none =>
    have htop : entry.get p = none := by
      unfold capture at hcap
      split at hcap
      · next he => exact he
      all_goals cases hcap
    rw [restore, if_pos hremoved]
    refine ⟨fun q hpre => ?_, fun q hpre _ => hrest q hpre, hstill⟩
    rw [hgone q hpre]
    by_cases hq : q = p
    · rw [hq, htop]
      rfl
    · rw [hnone q hpre hq (fun mode => by rw [htop]; simp)]
      rfl
  | some saved =>
    obtain ⟨hthrough, hself, husable, hsame⟩ := @place_at proc (remove proc p fs).1 p saved.top hstill
    have hplaced : ∀ q, p <+: q → q ≠ p → (place proc p saved.top (remove proc p fs).1).1.get q = none := by
      intro q hpre hne
      rw [hsame q hne (.inl (fun hin => not_prefix_of_ancestor hin hpre))]
      exact hgone q hpre
    have hspares : Spares proc p fs (place proc p saved.top (remove proc p fs).1).1 := by
      refine ⟨fun q hpre hq => ?_, fun q hq => .inr (husable q hq)⟩
      have hne : q ≠ p := fun he => hpre (he ▸ List.prefix_refl _)
      rw [hsame q hne (hq.imp_right (fun hsome => by rw [hrest q hpre]; exact hsome))]
      exact hrest q hpre
    rw [restore, if_pos hremoved]
    dsimp only
    rw [if_pos hthrough]
    -- what is kept of the top, and of what is inside it
    have hkept : (entry.get p).map keptAs = some saved.top ∧
        ((∃ mode, saved.top = .dir mode) ∧ saved.inside = captureInside proc entry p ∨
          (∀ mode, entry.get p ≠ some (.dir mode)) ∧ saved.inside = []) := by
      unfold capture at hcap
      split at hcap
      · cases hcap
      · next text he =>
        cases hcap
        exact ⟨by rw [he]; rfl, .inr ⟨fun mode => by rw [he]; simp, rfl⟩⟩
      · next data mode he =>
        cases hcap
        exact ⟨by rw [he]; rfl, .inr ⟨fun mode => by rw [he]; simp, rfl⟩⟩
      · next n hlink hfile he =>
        cases hcap
        refine ⟨by rw [he]; rfl, .inl ⟨?_, rfl⟩⟩
        cases n with
        | file data mode => exact (hfile data mode rfl).elim
        | link text => exact (hlink text rfl).elim
        | dir mode => exact ⟨mode, rfl⟩
        | special mode => exact ⟨mode, rfl⟩
    obtain ⟨htop, ⟨⟨mode, hmode⟩, hinside⟩ | ⟨hdir, hinside⟩⟩ := hkept
    · have hmem : ∀ e, e ∈ saved.inside.mergeSort restoreOrder ↔
        e.1 ≠ [] ∧ (entry.get (p ++ e.1)).map keptAs = some e.2 := by
        intro e
        rw [List.mem_mergeSort, hinside]
        exact mem_captureInside hentry
      have hnodup : ((saved.inside.mergeSort restoreOrder).map Prod.fst).Nodup := by
        rw [((List.mergeSort_perm saved.inside restoreOrder).map Prod.fst).nodup_iff, hinside]
        exact captureInside_nodup hentry
      have hnew : ∀ e ∈ saved.inside.mergeSort restoreOrder,
          (place proc p saved.top (remove proc p fs).1).1.get (p ++ e.1) = none := by
        intro e he
        apply hplaced _ (List.prefix_append p _)
        exact fun h => ((hmem e).mp he).1 (List.append_right_eq_self.mp h)
      have hfounded : Founded proc p (saved.inside.mergeSort restoreOrder)
          (place proc p saved.top (remove proc p fs).1).1 := by
        intro e he q hq
        obtain ⟨hne, hsome⟩ := (hmem e).mp he
        obtain ⟨hqne, hpre, hother⟩ := mem_ancestors.mp hq
        rcases List.prefix_or_prefix_of_prefix hpre (List.prefix_append p e.1) with hqp | hpq
        · by_cases hqself : q = p
          · obtain ⟨m, hdir, -, hchanges⟩ := hentry.dir_between (List.prefix_refl p) (List.prefix_append p e.1)
              (fun h => hne (List.append_right_eq_self.mp h.symm)) (by rw [← Option.isSome_map, hsome]; rfl)
            rw [hdir] at htop
            refine .inl ⟨m, ?_, hchanges⟩
            rw [hqself, hself, ← htop]
            rfl
          · exact .inl (husable q (mem_ancestors.mpr ⟨hqne, hqp, hqself⟩))
        · obtain ⟨m, hdir, -, hchanges⟩ := hentry.dir_between hpq hpre hother (by rw [← Option.isSome_map, hsome]; rfl)
          obtain ⟨r, rfl⟩ := hpq
          by_cases hr : r = []
          · rw [hr, List.append_nil] at hdir ⊢
            rw [hdir] at htop
            refine .inl ⟨m, ?_, hchanges⟩
            rw [hself, ← htop]
            rfl
          · refine .inr ⟨r, m, rfl, (hmem _).mpr ⟨hr, ?_⟩, hchanges⟩
            rw [hdir]
            rfl
      obtain ⟨-, hputs, hothers⟩ := placeEach_through _ hfounded (restoreOrder_sorted _) hnodup hnew
      have hoff : ∀ q, ¬ p <+: q → ∀ e ∈ saved.inside.mergeSort restoreOrder, q ≠ p ++ e.1 :=
        fun q hpre e _ he => hpre (he ▸ List.prefix_append p e.1)
      refine ⟨?_, fun q hpre hq => ?_, fun q hq => ?_⟩
      · rintro q ⟨r, rfl⟩
        by_cases hr : r = []
        · rw [hr, List.append_nil, hothers p, hself, htop]
          exact fun e he h => ((hmem e).mp he).1 (List.append_right_eq_self.mp h.symm)
        · cases hget : entry.get (p ++ r) with
          | none =>
            rw [hothers]
            · exact hplaced _ (List.prefix_append p r) (fun h => hr (List.append_right_eq_self.mp h))
            · intro e he heq
              have hsome := ((hmem e).mp he).2
              rw [← heq, hget] at hsome
              cases hsome
          | some n => exact hputs (r, keptAs n) ((hmem _).mpr ⟨hr, by rw [hget]; rfl⟩)
      · rw [hothers q (hoff q hpre)]
        exact hspares.same q hpre hq
      · obtain ⟨m, hget, hm⟩ := husable q hq
        exact .inr ⟨m, (hothers q (hoff q (not_prefix_of_ancestor hq))).trans hget, hm⟩
    · rw [hinside, List.mergeSort_nil]
      refine ⟨fun q hpre => ?_, hspares⟩
      by_cases hq : q = p
      · rw [hq, htop]
        exact hself
      · rw [hnone q hpre hq hdir]
        exact hplaced q hpre hq

end Restore

end AItelier.Registration
