import Mathlib.Data.List.Basic

namespace AItelier.Lib

variable {α : Type*} [DecidableEq α] {sep dot : α}

def Kept (dot : α) (part : List α) : Prop := part ≠ [] ∧ part ≠ [dot]

instance (dot : α) (part : List α) : Decidable (Kept dot part) := inferInstanceAs (Decidable (_ ∧ _))

def parts (sep dot : α) (s : List α) : List (List α) := (s.splitOn sep).filter (fun part => decide (Kept dot part))

/-- A text all of whose components are kept. -/
def Solid (sep dot : α) (s : List α) : Prop := ∀ part ∈ s.splitOn sep, Kept dot part

/-- What the characters stand for: themselves, or a text that is solid. -/
def Filling (sep dot : α) (fill : α → List α) : Prop :=
  ∀ c, fill c = [c] ∨ (Solid sep dot (fill c) ∧ c ≠ sep ∧ c ≠ dot)

/-- Two lists of components with the last of one and the first of the other made one. -/
def glue (a b : List (List α)) : List (List α) := a.dropLast ++ (a.getLast?.getD [] ++ b.head?.getD []) :: b.tail

variable {s t part : List α} {a b : List (List α)} {fill : α → List α} {c : α}

omit [DecidableEq α] in
theorem glue_cons (h : a ≠ []) : glue (part :: a) b = part :: glue a b := by
  obtain ⟨x, a, rfl⟩ := List.exists_cons_of_ne_nil h
  rw [glue, List.dropLast_cons_cons, List.getLast?_cons_cons]
  rfl

omit [DecidableEq α] in
theorem glue_append {d : List (List α)} (h : b ≠ []) : glue a (b ++ d) = glue a b ++ d := by
  obtain ⟨x, b, rfl⟩ := List.exists_cons_of_ne_nil h
  simp only [glue, List.cons_append, List.head?_cons, List.tail_cons, List.append_assoc]

theorem splitOn_append (s t : List α) : (s ++ t).splitOn sep = glue (s.splitOn sep) (t.splitOn sep) := by
  induction s with
  | nil =>
    obtain ⟨x, b, hb⟩ := List.exists_cons_of_ne_nil (List.splitOn_ne_nil sep t)
    rw [List.nil_append, List.splitOn_nil, hb]
    rfl
  | cons c s ih =>
    obtain ⟨x, a, ha⟩ := List.exists_cons_of_ne_nil (List.splitOn_ne_nil sep s)
    rw [List.cons_append, List.splitOn_cons_eq_if_modifyHead, List.splitOn_cons_eq_if_modifyHead, ih, ha]
    split
    · rw [glue_cons (List.cons_ne_nil x a)]
    · cases a with
      | nil => rfl
      | cons y a =>
        rw [glue_cons (List.cons_ne_nil y a), List.modifyHead_cons, List.modifyHead_cons,
          glue_cons (List.cons_ne_nil y a)]

theorem not_mem_of_mem_splitOn (h : part ∈ s.splitOn sep) : sep ∉ part := by
  induction s generalizing part with
  | nil =>
    rw [List.splitOn_nil] at h
    rw [List.mem_singleton.mp h]
    exact List.not_mem_nil
  | cons c s ih =>
    obtain ⟨x, a, ha⟩ := List.exists_cons_of_ne_nil (List.splitOn_ne_nil sep s)
    rw [List.splitOn_cons_eq_if_modifyHead, ha] at h
    split at h
    · rcases List.mem_cons.mp h with rfl | h
      · exact List.not_mem_nil
      · exact ih (ha ▸ h)
    · next hc =>
      rw [List.modifyHead_cons] at h
      rcases List.mem_cons.mp h with rfl | h
      · intro hin
        rcases List.mem_cons.mp hin with rfl | hin
        · exact hc (beq_self_eq_true sep)
        · exact ih (ha ▸ List.mem_cons_self) hin
      · exact ih (ha ▸ List.mem_cons_of_mem x h)

omit [DecidableEq α] in
theorem kept_append_left (h : Kept dot s) (t : List α) : Kept dot (s ++ t) := by
  refine ⟨fun hnil => h.1 (List.append_eq_nil_iff.mp hnil).1, fun hdot => ?_⟩
  rcases List.append_eq_singleton_iff.mp hdot with ⟨hs, -⟩ | ⟨hs, -⟩
  · exact h.1 hs
  · exact h.2 hs

omit [DecidableEq α] in
theorem kept_append_right (h : Kept dot t) (s : List α) : Kept dot (s ++ t) := by
  refine ⟨fun hnil => h.1 (List.append_eq_nil_iff.mp hnil).2, fun hdot => ?_⟩
  rcases List.append_eq_singleton_iff.mp hdot with ⟨-, ht⟩ | ⟨-, ht⟩
  · exact h.2 ht
  · exact h.1 ht

theorem Solid.append_of_tail (h : Solid sep dot s) (ht : ∀ part ∈ (t.splitOn sep).tail, Kept dot part) :
    Solid sep dot (s ++ t) := by
  intro part hpart
  rw [splitOn_append, glue] at hpart
  have hne := List.splitOn_ne_nil sep s
  rcases List.mem_append.mp hpart with hpart | hpart
  · exact h part (List.dropLast_subset _ hpart)
  · rcases List.mem_cons.mp hpart with rfl | hpart
    · rw [List.getLast?_eq_some_getLast hne]
      exact kept_append_left (h _ (List.getLast_mem hne)) _
    · exact ht part hpart

theorem Solid.prepend_of_dropLast (h : Solid sep dot t) (hs : ∀ part ∈ (s.splitOn sep).dropLast, Kept dot part) :
    Solid sep dot (s ++ t) := by
  intro part hpart
  rw [splitOn_append, glue] at hpart
  obtain ⟨x, b, hb⟩ := List.exists_cons_of_ne_nil (List.splitOn_ne_nil sep t)
  rcases List.mem_append.mp hpart with hpart | hpart
  · exact hs part hpart
  · rcases List.mem_cons.mp hpart with rfl | hpart
    · rw [hb]
      exact kept_append_right (h x (hb ▸ List.mem_cons_self)) _
    · exact h part (List.mem_of_mem_tail hpart)

theorem splitOn_singleton (h : c ≠ sep) : [c].splitOn sep = [[c]] :=
  List.splitOn_eq_singleton (fun hmem => h (List.mem_singleton.mp hmem).symm)

theorem Filling.at_sep (h : Filling sep dot fill) : fill sep = [sep] := (h sep).resolve_right (fun hc => hc.2.1 rfl)

theorem Filling.at_dot (h : Filling sep dot fill) : fill dot = [dot] := (h dot).resolve_right (fun hc => hc.2.2 rfl)

/-- Whatever a character stands for, it adds no component to be dropped beside another. -/
theorem Filling.around (h : Filling sep dot fill) (hc : c ≠ sep) :
    (∀ part ∈ ((fill c).splitOn sep).tail, Kept dot part) ∧ ∀ part ∈ ((fill c).splitOn sep).dropLast,
    Kept dot part := by
  rcases h c with hfixed | ⟨hsolid, -⟩
  · rw [hfixed, splitOn_singleton hc]
    exact ⟨fun part hpart => absurd hpart List.not_mem_nil, fun part hpart => absurd hpart List.not_mem_nil⟩
  · exact ⟨fun part hpart => hsolid part (List.mem_of_mem_tail hpart),
      fun part hpart => hsolid part (List.dropLast_subset _ hpart)⟩

theorem Solid.append_fill (hfill : Filling sep dot fill) (h : Solid sep dot s) (ht : sep ∉ t) :
    Solid sep dot (s ++ t.flatMap fill) := by
  induction t generalizing s with
  | nil => rwa [List.flatMap_nil, List.append_nil]
  | cons c t ih =>
    obtain ⟨hc, ht⟩ := not_or.mp (fun hmem => ht (List.mem_cons.mpr hmem))
    rw [List.flatMap_cons, ← List.append_assoc]
    exact ih (h.append_of_tail (hfill.around (Ne.symm hc)).1) ht

theorem Solid.prepend_fill (hfill : Filling sep dot fill) (h : Solid sep dot s) (ht : sep ∉ t) :
    Solid sep dot (t.flatMap fill ++ s) := by
  induction t with
  | nil => exact h
  | cons c t ih =>
    obtain ⟨hc, ht⟩ := not_or.mp (fun hmem => ht (List.mem_cons.mpr hmem))
    rw [List.flatMap_cons, List.append_assoc]
    exact (ih ht).prepend_of_dropLast (hfill.around (Ne.symm hc)).2

/-- A component that is kept stands for a text that is solid. -/
theorem Filling.solid (hfill : Filling sep dot fill) (hsep : sep ∉ part) (hkept : Kept dot part) :
    Solid sep dot (part.flatMap fill) := by
  by_cases hdots : ∀ c ∈ part, c = dot
  · have hsame : part.flatMap fill = part := by
      have hmap : part.flatMap fill = part.flatMap (fun c => [c]) :=
        List.flatMap_congr (fun c hc => by rw [hdots c hc, hfill.at_dot])
      rw [hmap, List.flatMap_singleton']
    rw [hsame, Solid, List.splitOn_eq_singleton hsep]
    intro p hp
    rwa [List.mem_singleton.mp hp]
  · push Not at hdots
    obtain ⟨c, hc, hne⟩ := hdots
    obtain ⟨l, r, rfl⟩ := List.append_of_mem hc
    have hcsep : c ≠ sep := fun he => hsep (he ▸ hc)
    have hsolid : Solid sep dot (fill c) := by
      rcases hfill c with hfixed | ⟨hsolid, -⟩
      · rw [hfixed, Solid, splitOn_singleton hcsep]
        intro p hp
        rw [List.mem_singleton.mp hp]
        exact ⟨List.cons_ne_nil c [], fun he => hne (List.cons.inj he).1⟩
      · exact hsolid
    rw [List.mem_append, List.mem_cons, not_or, not_or] at hsep
    rw [List.flatMap_append, List.flatMap_cons]
    exact (hsolid.append_fill hfill hsep.2.2).prepend_fill hfill hsep.1

theorem splitOn_flatMap (hfill : Filling sep dot fill) (s : List α) :
    (s.flatMap fill).splitOn sep = (s.splitOn sep).flatMap (fun part => (part.flatMap fill).splitOn sep) := by
  induction s with
  | nil => rfl
  | cons c s ih =>
    obtain ⟨x, a, ha⟩ := List.exists_cons_of_ne_nil (List.splitOn_ne_nil sep s)
    rw [List.flatMap_cons, List.splitOn_cons_eq_if_modifyHead]
    by_cases hc : c = sep
    · subst hc
      rw [hfill.at_sep, List.singleton_append, List.splitOn_cons_eq_if_modifyHead, if_pos (beq_self_eq_true c),
        if_pos (beq_self_eq_true c), ih]
      rfl
    · rw [if_neg (fun he => hc (eq_of_beq he)), splitOn_append, ih, ha, List.modifyHead_cons, List.flatMap_cons,
        List.flatMap_cons, List.flatMap_cons, glue_append (List.splitOn_ne_nil sep _), splitOn_append]

theorem flatMap_filter_parts (hfill : Filling sep dot fill) {p : List (List α)} (hp : ∀ part ∈ p, sep ∉ part) :
    (p.flatMap (fun part => (part.flatMap fill).splitOn sep)).filter (fun part => decide (Kept dot part)) =
      (p.filter (fun part => decide (Kept dot part))).flatMap (fun part => (part.flatMap fill).splitOn sep) := by
  induction p with
  | nil => rfl
  | cons part p ih =>
    obtain ⟨hpart, hrest⟩ := List.forall_mem_cons.mp hp
    rw [List.flatMap_cons, List.filter_append, ih hrest, List.filter_cons]
    split
    · next hkept =>
      have hsolid := hfill.solid hpart (of_decide_eq_true hkept)
      rw [List.flatMap_cons, List.filter_eq_self.mpr (fun q hq => decide_eq_true (hsolid q hq))]
    · next hdropped =>
      have hsame : (part.flatMap fill).splitOn sep = [part] := by
        have hnot : ¬ Kept dot part := fun h => hdropped (decide_eq_true h)
        have hcases : part = [] ∨ part = [dot] := by
          by_contra hneither
          rw [not_or] at hneither
          exact hnot hneither
        rcases hcases with rfl | rfl
        · rfl
        · rw [List.flatMap_singleton, hfill.at_dot, List.splitOn_eq_singleton hpart]
      rw [hsame, List.filter_cons, if_neg hdropped, List.filter_nil, List.nil_append]

theorem parts_flatMap (hfill : Filling sep dot fill) (s : List α) :
    parts sep dot (s.flatMap fill) = (parts sep dot s).flatMap (fun part => (part.flatMap fill).splitOn sep) := by
  rw [parts, splitOn_flatMap hfill, flatMap_filter_parts hfill (fun part hpart => not_mem_of_mem_splitOn hpart), parts]

theorem parts_append_sep (s t : List α) : parts sep dot (s ++ sep :: t) = parts sep dot s ++ parts sep dot t := by
  rw [parts, List.splitOn_append_cons_self, List.filter_append, parts, parts]

omit [DecidableEq α] in
theorem intercalate_append {a b : List (List α)} (ha : a ≠ []) (hb : b ≠ []) :
    [sep].intercalate (a ++ b) = [sep].intercalate a ++ sep :: [sep].intercalate b := by
  induction a with
  | nil => exact absurd rfl ha
  | cons x a ih =>
    rw [List.cons_append]
    cases a with
    | nil =>
      rw [List.nil_append, List.intercalate_cons_of_ne_nil hb, List.intercalate_singleton, List.append_assoc]
      rfl
    | cons y a =>
      rw [List.intercalate_cons_of_ne_nil (List.append_ne_nil_of_left_ne_nil (List.cons_ne_nil y a) b),
        List.intercalate_cons_of_ne_nil (List.cons_ne_nil y a), ih (List.cons_ne_nil y a), List.append_assoc,
        List.append_assoc, List.append_assoc]

omit [DecidableEq α] in
theorem intercalate_cons_eq (x : List α) (p : List (List α)) :
    [sep].intercalate (x :: p) = x ++ p.flatMap (fun part => sep :: part) := by
  induction p generalizing x with
  | nil => rw [List.intercalate_singleton, List.flatMap_nil, List.append_nil]
  | cons y p ih =>
    rw [List.intercalate_cons_of_ne_nil (List.cons_ne_nil y p), ih, List.flatMap_cons, List.append_assoc]
    rfl

theorem intercalate_flatMap_splitOn {g : List α → List α} (p : List (List α)) :
    [sep].intercalate (p.flatMap (fun part => (g part).splitOn sep)) = [sep].intercalate (p.map g) := by
  induction p with
  | nil => rfl
  | cons part p ih =>
    rw [List.flatMap_cons, List.map_cons]
    cases p with
    | nil => rw [List.flatMap_nil, List.append_nil, List.intercalate_splitOn, List.map_nil, List.intercalate_singleton]
    | cons q p =>
      have hrest : (q :: p).flatMap (fun part => (g part).splitOn sep) ≠ [] := by
        rw [List.flatMap_cons]
        exact List.append_ne_nil_of_left_ne_nil (List.splitOn_ne_nil sep (g q)) _
      rw [intercalate_append (List.splitOn_ne_nil sep (g part)) hrest, List.intercalate_splitOn, ih, List.map_cons,
        List.intercalate_cons_of_ne_nil (List.cons_ne_nil (g q) (p.map g)), List.append_assoc]
      rfl

omit [DecidableEq α] in
theorem flatMap_intercalate (hsep : fill sep = [sep]) (p : List (List α)) :
    ([sep].intercalate p).flatMap fill = [sep].intercalate (p.map (fun part => part.flatMap fill)) := by
  induction p with
  | nil => rfl
  | cons part p ih =>
    cases p with
    | nil => rw [List.map_cons, List.map_nil, List.intercalate_singleton, List.intercalate_singleton]
    | cons q p =>
      rw [List.intercalate_cons_of_ne_nil (List.cons_ne_nil q p), List.flatMap_append, List.flatMap_append, ih,
        List.map_cons (a := part), List.intercalate_cons_of_ne_nil (List.map_eq_nil_iff.not.mpr (List.cons_ne_nil q p)),
        List.flatMap_singleton, hsep]

/-- The normalised path of a path that was filled in is the normalised path, filled in. -/
theorem join_parts_flatMap (hfill : Filling sep dot fill) (s : List α) :
    [sep].intercalate (parts sep dot (s.flatMap fill)) = ([sep].intercalate (parts sep dot s)).flatMap fill := by
  rw [parts_flatMap hfill, intercalate_flatMap_splitOn, flatMap_intercalate hfill.at_sep]

theorem Filling.parts_eq_nil (hfill : Filling sep dot fill) (s : List α) :
    parts sep dot (s.flatMap fill) = [] ↔ parts sep dot s = [] := by
  rw [parts_flatMap hfill, List.flatMap_eq_nil_iff]
  constructor
  · intro h
    by_contra hne
    obtain ⟨part, p, hp⟩ := List.exists_cons_of_ne_nil hne
    exact List.splitOn_ne_nil sep _ (h part (hp ▸ List.mem_cons_self))
  · intro h part hpart
    rw [h] at hpart
    exact absurd hpart List.not_mem_nil

omit [DecidableEq α] in
theorem mem_intercalate {p : List (List α)} (hsep : c ≠ sep) : c ∈ [sep].intercalate p ↔ ∃ part ∈ p, c ∈ part := by
  induction p with
  | nil =>
    rw [List.intercalate_nil]
    simp only [List.not_mem_nil, false_and, exists_false]
  | cons part p ih =>
    cases p with
    | nil =>
      rw [List.intercalate_singleton]
      simp only [List.mem_singleton, exists_eq_left]
    | cons q p =>
      rw [List.intercalate_cons_of_ne_nil (List.cons_ne_nil q p), List.mem_append, List.mem_append, ih,
        List.mem_singleton,
        or_iff_left hsep, List.exists_mem_cons_iff (a := part)]

/-- A character that is neither separator nor dot is in a component that is kept. -/
theorem mem_parts (hc : c ∈ s) (hsep : c ≠ sep) (hdot : c ≠ dot) : ∃ part ∈ parts sep dot s, c ∈ part := by
  have hjoin : [sep].intercalate (s.splitOn sep) = s := List.intercalate_splitOn sep
  rw [← hjoin] at hc
  obtain ⟨part, hpart, hin⟩ := (mem_intercalate hsep).mp hc
  refine ⟨part, List.mem_filter.mpr ⟨hpart, decide_eq_true ⟨List.ne_nil_of_mem hin, fun he => ?_⟩⟩, hin⟩
  rw [he] at hin
  exact hdot (List.mem_singleton.mp hin)

end AItelier.Lib
