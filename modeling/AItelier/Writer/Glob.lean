import Mathlib.Data.List.TakeWhile
import AItelier.Lib.TextFile
import AItelier.Writer.Declares

namespace AItelier.Writer

open AItelier.Lib

/-- One step of a translated pattern: `.*`, `.`, or a character of a set. -/
inductive Piece
  | star
  | dot
  | one (p : Char → Bool)

def literal (c : Char) : Piece := .one (fun x => decide (x = c))

/-- What stands between the brackets of a class: one that closes at once belongs to it. -/
def classText (s : Text) : Option Text :=
  let (first, s) := match s with
    | '!' :: ']' :: rest => (['!', ']'], rest)
    | '!' :: rest => (['!'], rest)
    | ']' :: rest => ([']'], rest)
    | s => ([], s)
  if ']' ∈ s then some (first ++ s.takeWhile (fun c => decide (c ≠ ']'))) else none

/-- A class between its hyphens, none of which is among the first characters. With fuel for each
character. -/
def chunks : Nat → Nat → Text → List Text
  | 0, _, stuff => [stuff]
  | n + 1, first, stuff =>
    match (stuff.drop first).span (fun c => decide (c ≠ '-')) with
    | (_, []) => [stuff]
    | (more, [_]) => [stuff.take first ++ more ++ ['-']]
    | (more, _ :: rest) => (stuff.take first ++ more) :: chunks n 2 rest

/-- Without the ranges that are empty. -/
def withoutEmpty : List Text → List Text
  | [] => []
  | chunk :: more =>
    match withoutEmpty more with
    | [] => [chunk]
    | next :: more =>
      match chunk.getLast?, next.head? with
      | some a, some b => if b < a then (chunk.dropLast ++ next.tail) :: more else chunk :: next :: more
      | _, _ => chunk :: next :: more

/-- The characters of a class, and `none` for a hyphen between two chunks. -/
def classMarks (stuff : Text) : List (Option Char) :=
  if '-' ∈ stuff then
    [none].intercalate ((withoutEmpty (chunks stuff.length (if stuff.head? = some '!' then 2 else 1) stuff)).map
      (List.map some))
  else stuff.map some

def classRanges : List (Option Char) → List (Char × Char)
  | some a :: none :: some b :: rest => (a, b) :: classRanges rest
  | some a :: rest => (a, a) :: classRanges rest
  | none :: rest => ('-', '-') :: classRanges rest
  | [] => []

def within (ranges : List (Char × Char)) (c : Char) : Bool := ranges.any (fun r => decide (r.1 ≤ c ∧ c ≤ r.2))

def classPiece (stuff : Text) : Piece :=
  match classMarks stuff with
  | [some '!'] => .dot
  | some '!' :: marks => .one (fun c => !within (classRanges marks) c)
  | marks => .one (within (classRanges marks))

/-- `fnmatch.translate`, past the characters that a class took. -/
def translate : Nat → Text → List Piece
  | _, [] => []
  | n + 1, _ :: rest => translate n rest
  | 0, c :: rest =>
    if c = '*' then if rest.head? = some '*' then translate 0 rest else .star :: translate 0 rest
    else if c = '?' then .dot :: translate 0 rest
    else if c = '[' then
      match classText rest with
      | some stuff => classPiece stuff :: translate (stuff.length + 1) rest
      | none => literal '[' :: translate 0 rest
    else literal c :: translate 0 rest

/-- The pieces before the first star, and those after each. -/
def fixedPieces (dot : Char → Bool) : List Piece → List (Char → Bool) × List (List (Char → Bool))
  | [] => ([], [])
  | .star :: ps => ([], (fixedPieces dot ps).1 :: (fixedPieces dot ps).2)
  | .dot :: ps => (dot :: (fixedPieces dot ps).1, (fixedPieces dot ps).2)
  | .one p :: ps => (p :: (fixedPieces dot ps).1, (fixedPieces dot ps).2)

def takeFixed : List (Char → Bool) → Text → Option Text
  | [], s => some s
  | _ :: _, [] => none
  | p :: ps, c :: s => if p c then takeFixed ps s else none

/-- `(?>.*?fixed)`: only the first place is tried. -/
def hop (dot : Char → Bool) (fixed : List (Char → Bool)) : Text → Option Text
  | [] => takeFixed fixed []
  | c :: s => (takeFixed fixed (c :: s)).or (if dot c then hop dot fixed s else none)

/-- `.*fixed`: every place is tried. -/
def lastHops (dot : Char → Bool) (fixed : List (Char → Bool)) : Text → List Text
  | [] => (takeFixed fixed []).toList
  | c :: s => (takeFixed fixed (c :: s)).toList ++ if dot c then lastHops dot fixed s else []

def hops (dot : Char → Bool) : List (List (Char → Bool)) → Text → List Text
  | [], s => [s]
  | [fixed], s => lastHops dot fixed s
  | fixed :: next :: more, s => (hop dot fixed s).toList.flatMap (hops dot (next :: more))

/-- What a translated pattern can leave of a text. -/
def leaves (dot : Char → Bool) (ps : List Piece) (s : Text) : List Text :=
  (takeFixed (fixedPieces dot ps).1 s).toList.flatMap (hops dot (fixedPieces dot ps).2)

/-- A text that a pattern describes. -/
inductive Fits (dot : Char → Bool) : List Piece → Text → Prop
  | nil : Fits dot [] []
  | star {ps : List Piece} {skip s : Text} (hskip : ∀ c ∈ skip, dot c = true) (h : Fits dot ps s) :
      Fits dot (.star :: ps) (skip ++ s)
  | dot {ps : List Piece} {c : Char} {s : Text} (hc : dot c = true) (h : Fits dot ps s) : Fits dot (.dot :: ps) (c :: s)
  | one {ps : List Piece} {p : Char → Bool} {c : Char} {s : Text} (hc : p c = true) (h : Fits dot ps s) :
      Fits dot (.one p :: ps) (c :: s)

/-- `fnmatch` of a name: `*` stands for any characters, and `?` for any one. -/
def Named (pattern name : Text) : Prop := Fits (fun _ => true) (translate 0 pattern) name

/-- Each component by its own pattern. -/
def Componentwise (ps names : List Text) : Prop := List.Forall₂ Named ps names

/-- `_SWAP_SEP_AND_NEWLINE`. -/
def swapped (c : Char) : Char := if c = '/' then '\n' else if c = '\n' then '/' else c

/-- `_lines`: a component on each line. -/
def linesOf (names : List Text) : Text := ['\n'].intercalate (names.map (List.map swapped))

/-- `splitlines(keepends=True)`. -/
def keepLines : Text → List Text
  | [] => []
  | '\r' :: '\n' :: rest => ['\r', '\n'] :: keepLines rest
  | c :: rest =>
    if isLineEnd c then [c] :: keepLines rest
    else match keepLines rest with
      | [] => [[c]]
      | line :: more => (c :: line) :: more

/-- One line of `_compile_pattern_lines`. -/
def linePieces (line : Text) : List Piece :=
  if line = ['*', '\n'] then [.dot, .star, literal '\n']
  else if line = ['*'] then [.dot, .star]
  else translate 0 line

/-- Without `re.DOTALL`. -/
def inLine (c : Char) : Bool := decide (c ≠ '\n')

def lineLeaves : List (List Piece) → Text → List Text
  | [], s => [s]
  | ps :: more, s => (leaves inLine ps s).flatMap (lineLeaves more)

/-- `_compile_pattern_lines`, from the start of a line to the end of the path. -/
def matchLines (pattern names : List Text) : Bool :=
  (lineLeaves ((keepLines (linesOf pattern)).map linePieces) (linesOf names)).contains []

/-- From each component on, and from the start. -/
def places (names : List Text) : List Nat := List.range (max 1 names.length)

/-- `PurePosixPath(path).match(pattern)` for a relative path: a relative pattern is searched for at
the start of every component, and must reach the end of the path. -/
def pathMatch (path pattern : Text) : Bool :=
  decide (pattern.head? ≠ some '/') &&
    (places (parts '/' '.' path)).any (fun k => matchLines (parts '/' '.' pattern) ((parts '/' '.' path).drop k))

example : pathMatch "a/b".toList "a[!x]b".toList = true := by decide

example : pathMatch "a/c/b".toList "a*b".toList = false := by decide

/-- A pattern without classes and line ends. -/
def Plain (pattern : Text) : Prop := ∀ c ∈ pattern, c ≠ '[' ∧ isLineEnd c = false

instance (pattern : Text) : Decidable (Plain pattern) := inferInstanceAs (Decidable (∀ _ ∈ _, _))

/-- A piece that takes neither a separator nor what stands for a newline, or any but those. -/
def Piece.Simple : Piece → Prop
  | .one p => ∃ c, p = (fun x => decide (x = c)) ∧ c ≠ '/' ∧ c ≠ '\n'
  | _ => True

variable {dot : Char → Bool} {fixed : List (Char → Bool)} {ps qs : List Piece} {s t u x name pattern : Text}
  {names : List Text}

theorem hop_some (h : hop dot fixed s = some u) :
    ∃ skip rest, s = skip ++ rest ∧ (∀ c ∈ skip, dot c = true) ∧ takeFixed fixed rest = some u := by
  induction s with
  | nil => exact ⟨[], [], rfl, fun _ hc => absurd hc List.not_mem_nil, h⟩
  | cons c s ih =>
    rw [hop, Option.or_eq_some_iff] at h
    rcases h with h | ⟨-, h⟩
    · exact ⟨[], c :: s, rfl, fun _ hc => absurd hc List.not_mem_nil, h⟩
    · split at h
      · next hdot =>
        obtain ⟨skip, rest, rfl, hskip, hfixed⟩ := ih h
        exact ⟨c :: skip, rest, rfl, List.forall_mem_cons.mpr ⟨hdot, hskip⟩, hfixed⟩
      · cases h

theorem mem_lastHops (h : u ∈ lastHops dot fixed s) :
    ∃ skip rest, s = skip ++ rest ∧ (∀ c ∈ skip, dot c = true) ∧ takeFixed fixed rest = some u := by
  induction s with
  | nil => exact ⟨[], [], rfl, fun _ hc => absurd hc List.not_mem_nil, Option.mem_toList.mp h⟩
  | cons c s ih =>
    rw [lastHops, List.mem_append] at h
    rcases h with h | h
    · exact ⟨[], c :: s, rfl, fun _ hc => absurd hc List.not_mem_nil, Option.mem_toList.mp h⟩
    · split at h
      · next hdot =>
        obtain ⟨skip, rest, rfl, hskip, hfixed⟩ := ih h
        exact ⟨c :: skip, rest, rfl, List.forall_mem_cons.mpr ⟨hdot, hskip⟩, hfixed⟩
      · exact absurd h List.not_mem_nil

theorem mem_leaves : u ∈ leaves dot ps s ↔
    ∃ r, takeFixed (fixedPieces dot ps).1 s = some r ∧ u ∈ hops dot (fixedPieces dot ps).2 r := by
  rw [leaves, List.mem_flatMap]
  simp only [Option.mem_toList]

/-- A pattern leaves what follows a text that it describes. -/
theorem fits_of_leaves (h : u ∈ leaves dot ps s) : ∃ t, s = t ++ u ∧ Fits dot ps t := by
  induction ps generalizing s with
  | nil =>
    obtain ⟨r, hr, hu⟩ := mem_leaves.mp h
    cases hr
    cases List.mem_singleton.mp hu
    exact ⟨[], rfl, .nil⟩
  | cons piece ps ih =>
    obtain ⟨r, hr, hu⟩ := mem_leaves.mp h
    cases piece with
    | star =>
      cases hr
      -- the first hop stands where the rest of the pattern begins
      obtain ⟨skip, rest, rfl, hskip, hrest⟩ : ∃ skip rest, s = skip ++ rest ∧ (∀ c ∈ skip, dot c = true) ∧
          u ∈ leaves dot ps rest := by
        change u ∈ hops dot ((fixedPieces dot ps).1 :: (fixedPieces dot ps).2) s at hu
        simp only [mem_leaves]
        generalize (fixedPieces dot ps).1 = first at hu
        cases hmore : (fixedPieces dot ps).2 with
        | nil =>
          rw [hmore] at hu
          obtain ⟨skip, rest, hs, hskip, hfixed⟩ := mem_lastHops hu
          exact ⟨skip, rest, hs, hskip, u, hfixed, List.mem_singleton_self u⟩
        | cons next more =>
          rw [hmore, hops, List.mem_flatMap] at hu
          obtain ⟨r, hr, hu⟩ := hu
          obtain ⟨skip, rest, hs, hskip, hfixed⟩ := hop_some (Option.mem_toList.mp hr)
          exact ⟨skip, rest, hs, hskip, r, hfixed, hu⟩
      obtain ⟨t, rfl, ht⟩ := ih hrest
      exact ⟨skip ++ t, (List.append_assoc _ _ _).symm, .star hskip ht⟩
    | dot =>
      cases s with
      | nil => cases hr
      | cons c s =>
        rw [fixedPieces, takeFixed] at hr
        split at hr
        · next hc =>
          obtain ⟨t, rfl, ht⟩ := ih (mem_leaves.mpr ⟨r, hr, hu⟩)
          exact ⟨c :: t, rfl, .dot hc ht⟩
        · cases hr
    | one p =>
      cases s with
      | nil => cases hr
      | cons c s =>
        rw [fixedPieces, takeFixed] at hr
        split at hr
        · next hc =>
          obtain ⟨t, rfl, ht⟩ := ih (mem_leaves.mpr ⟨r, hr, hu⟩)
          exact ⟨c :: t, rfl, .one hc ht⟩
        · cases hr

theorem Fits.split (h : Fits dot (ps ++ qs) t) : ∃ x y, t = x ++ y ∧ Fits dot ps x ∧ Fits dot qs y := by
  induction ps generalizing t with
  | nil => exact ⟨[], t, rfl, .nil, h⟩
  | cons piece ps ih =>
    cases h with
    | star hskip h =>
      obtain ⟨x, y, rfl, hx, hy⟩ := ih h
      exact ⟨_, y, (List.append_assoc _ _ _).symm, .star hskip hx, hy⟩
    | dot hc h =>
      obtain ⟨x, y, rfl, hx, hy⟩ := ih h
      exact ⟨_, y, rfl, .dot hc hx, hy⟩
    | one hc h =>
      obtain ⟨x, y, rfl, hx, hy⟩ := ih h
      exact ⟨_, y, rfl, .one hc hx, hy⟩

theorem Fits.inLine (h : Fits inLine ps t) (hsimple : ∀ q ∈ ps, q.Simple) : '\n' ∉ t := by
  induction h with
  | nil => exact List.not_mem_nil
  | star hskip _ ih =>
    rw [List.mem_append, not_or]
    exact ⟨fun hin => absurd (hskip _ hin) (by decide), ih (List.forall_mem_cons.mp hsimple).2⟩
  | dot hc _ ih =>
    refine List.not_mem_cons_of_ne_of_not_mem ?_ (ih (List.forall_mem_cons.mp hsimple).2)
    exact fun heq => of_decide_eq_true hc heq.symm
  | one hc _ ih =>
    obtain ⟨⟨d, rfl, -, hd⟩, hrest⟩ := List.forall_mem_cons.mp hsimple
    refine List.not_mem_cons_of_ne_of_not_mem ?_ (ih hrest)
    exact fun heq => hd ((of_decide_eq_true hc).symm.trans heq.symm)

theorem swapped_eq {c d : Char} (hslash : c ≠ '/') (hnewline : c ≠ '\n') (h : swapped d = c) : d = c := by
  unfold swapped at h
  split at h
  · exact absurd h.symm hnewline
  · split at h
    · exact absurd h.symm hslash
    · exact h

/-- The separators and the newlines are read back. -/
theorem Fits.unswap (h : Fits dot ps (name.map swapped)) (hsimple : ∀ q ∈ ps, q.Simple) :
    Fits (fun _ => true) ps name := by
  induction ps generalizing name with
  | nil =>
    generalize hname : name.map swapped = t at h
    cases h
    rw [List.map_eq_nil_iff.mp hname]
    exact .nil
  | cons piece ps ih =>
    generalize hname : name.map swapped = t at h
    have hrest := (List.forall_mem_cons.mp hsimple).2
    cases h with
    | star hskip h =>
      obtain ⟨x, y, rfl, rfl, rfl⟩ := List.map_eq_append_iff.mp hname
      exact .star (fun _ _ => rfl) (ih h hrest)
    | dot hc h =>
      obtain ⟨c, y, rfl, rfl, rfl⟩ := List.map_eq_cons_iff.mp hname
      exact .dot rfl (ih h hrest)
    | one hc h =>
      obtain ⟨c, y, rfl, rfl, rfl⟩ := List.map_eq_cons_iff.mp hname
      obtain ⟨d, rfl, hslash, hnewline⟩ := (List.forall_mem_cons.mp hsimple).1
      exact .one (decide_eq_true (swapped_eq hslash hnewline (of_decide_eq_true hc))) (ih h hrest)

theorem translate_simple (h : ∀ c ∈ pattern, c ≠ '[' ∧ c ≠ '/' ∧ c ≠ '\n') : ∀ q ∈ translate 0 pattern, q.Simple := by
  induction pattern with
  | nil => exact fun q hq => absurd hq List.not_mem_nil
  | cons c pattern ih =>
    obtain ⟨⟨hclass, hslash, hnewline⟩, hrest⟩ := List.forall_mem_cons.mp h
    rw [translate, if_neg hclass]
    split_ifs
    · exact ih hrest
    · exact List.forall_mem_cons.mpr ⟨trivial, ih hrest⟩
    · exact List.forall_mem_cons.mpr ⟨trivial, ih hrest⟩
    · exact List.forall_mem_cons.mpr ⟨⟨c, rfl, hslash, hnewline⟩, ih hrest⟩

theorem translate_newline (h : '[' ∉ pattern) :
    translate 0 (pattern ++ ['\n']) = translate 0 pattern ++ [literal '\n'] := by
  induction pattern with
  | nil => rfl
  | cons c pattern ih =>
    obtain ⟨hclass, hrest⟩ := not_or.mp (fun hmem => h (List.mem_cons.mpr hmem))
    have hhead : (pattern ++ ['\n']).head? = some '*' ↔ pattern.head? = some '*' := by
      cases pattern with
      | nil => exact iff_of_false (by decide) (by decide)
      | cons d pattern => exact Iff.rfl
    rw [List.cons_append, translate, translate, ih hrest, if_neg (Ne.symm hclass), if_neg (Ne.symm hclass)]
    simp only [hhead]
    split_ifs <;> rfl

theorem keepLines_plain (h : ∀ c ∈ pattern, isLineEnd c = false) (hne : pattern ≠ []) :
    keepLines pattern = [pattern] := by
  induction pattern with
  | nil => exact absurd rfl hne
  | cons c pattern ih =>
    obtain ⟨hc, hrest⟩ := List.forall_mem_cons.mp h
    have hreturn : c ≠ '\r' := fun heq => absurd (heq ▸ hc) (by decide)
    cases pattern with
    | nil => simp [keepLines, hc]
    | cons d pattern => simp [keepLines, hc, hreturn, ih hrest]

theorem keepLines_newline (h : ∀ c ∈ pattern, isLineEnd c = false) :
    keepLines (pattern ++ '\n' :: s) = (pattern ++ ['\n']) :: keepLines s := by
  induction pattern with
  | nil => simp [keepLines, show isLineEnd '\n' = true by decide]
  | cons c pattern ih =>
    obtain ⟨hc, hrest⟩ := List.forall_mem_cons.mp h
    have hreturn : c ≠ '\r' := fun heq => absurd (heq ▸ hc) (by decide)
    rw [List.cons_append, keepLines, if_neg (by rw [hc]; exact Bool.false_ne_true), ih hrest]
    · rfl
    · rintro rest rfl
      exact absurd rfl hreturn

theorem cut_newline (hx : '\n' ∉ x) (ht : '\n' ∉ t) (h : x ++ '\n' :: u = t ++ '\n' :: s) : x = t ∧ u = s := by
  induction x generalizing t with
  | nil =>
    cases t with
    | nil => exact ⟨rfl, (List.cons.inj h).2⟩
    | cons c t => exact absurd ((List.cons.inj h).1 ▸ List.mem_cons_self) ht
  | cons c x ih =>
    cases t with
    | nil => exact absurd ((List.cons.inj h).1 ▸ List.mem_cons_self) hx
    | cons d t =>
      obtain ⟨hhead, htail⟩ := List.cons.inj h
      have hcut := ih (fun hin => hx (List.mem_cons_of_mem c hin)) (fun hin => ht (List.mem_cons_of_mem d hin)) htail
      exact ⟨congrArg₂ List.cons hhead hcut.1, hcut.2⟩

theorem newline_not_mem_swapped (h : '/' ∉ name) : '\n' ∉ name.map swapped := by
  rw [List.mem_map]
  rintro ⟨c, hc, heq⟩
  unfold swapped at heq
  split at heq
  · next hslash => exact h (hslash ▸ hc)
  · split at heq
    · exact absurd heq (by decide)
    · next hnewline => exact hnewline heq

theorem linesOf_cons (h : names ≠ []) : linesOf (name :: names) = name.map swapped ++ '\n' :: linesOf names := by
  rw [linesOf, List.map_cons, List.intercalate_cons_of_ne_nil (List.map_eq_nil_iff.not.mpr h), List.append_assoc]
  rfl

theorem map_swapped (h : ∀ c ∈ pattern, c ≠ '/' ∧ c ≠ '\n') : pattern.map swapped = pattern := by
  conv_rhs => rw [← List.map_id pattern]
  refine List.map_congr_left (fun c hc => ?_)
  rw [swapped, if_neg (h c hc).1, if_neg (h c hc).2, id]

theorem linePieces_newline (hclass : '[' ∉ pattern) (hnewline : '\n' ∉ pattern) :
    linePieces (pattern ++ ['\n']) = linePieces pattern ++ [literal '\n'] := by
  by_cases hstar : pattern = ['*']
  · rw [hstar]
    rfl
  · have hstars : pattern ++ ['\n'] ≠ ['*', '\n'] :=
      fun heq => hstar (List.append_cancel_right (heq : _ = ['*'] ++ ['\n']))
    have hends : pattern ++ ['\n'] ≠ ['*'] := by
      intro heq
      have hin : '\n' ∈ ['*'] := heq ▸ List.mem_append_right pattern (List.mem_singleton_self _)
      exact absurd hin (by decide)
    have hin : pattern ≠ ['*', '\n'] := fun heq => hnewline (heq ▸ by decide)
    rw [linePieces, if_neg hstars, if_neg hends, translate_newline hclass, linePieces, if_neg hin, if_neg hstar]

theorem linePieces_simple (h : ∀ c ∈ pattern, c ≠ '[' ∧ c ≠ '/' ∧ c ≠ '\n') : ∀ q ∈ linePieces pattern, q.Simple := by
  have hin : pattern ≠ ['*', '\n'] := fun heq => (h '\n' (heq ▸ by decide)).2.2 rfl
  rw [linePieces, if_neg hin]
  split
  · exact List.forall_mem_cons.mpr ⟨trivial, List.forall_mem_singleton.mpr trivial⟩
  · exact translate_simple h

theorem named_of_fits (hnewline : '\n' ∉ pattern) (h : Fits (fun _ => true) (linePieces pattern) name) :
    Named pattern name := by
  have hin : pattern ≠ ['*', '\n'] := fun heq => hnewline (heq ▸ by decide)
  rw [linePieces, if_neg hin] at h
  split at h
  · next hstar =>
    rw [Named, hstar, ← List.append_nil name]
    exact .star (fun _ _ => rfl) .nil
  · exact h

/-- Without classes and line ends, a pattern that matches from the start of a path matches it
component by component. -/
theorem componentwise_of_lines {pattern : List Text}
    (hpattern : ∀ p ∈ pattern, p ≠ [] ∧ ∀ c ∈ p, c ≠ '[' ∧ c ≠ '/' ∧ isLineEnd c = false)
      (hnames : ∀ name ∈ names, '/' ∉ name)
    (hp : pattern ≠ []) (hn : names ≠ []) (h : matchLines pattern names = true) : Componentwise pattern names := by
  have hempty : [] ∈ lineLeaves ((keepLines (linesOf pattern)).map linePieces) (linesOf names) := List.elem_iff.mp h
  clear h
  induction pattern generalizing names with
  | nil => exact absurd rfl hp
  | cons p rest ih =>
    obtain ⟨⟨hne, hplain⟩, hpatterns⟩ := List.forall_mem_cons.mp hpattern
    have hsafe : ∀ c ∈ p, c ≠ '[' ∧ c ≠ '/' ∧ c ≠ '\n' := by
      refine fun c hc => ⟨(hplain c hc).1, (hplain c hc).2.1, fun heq => ?_⟩
      have hend := (hplain c hc).2.2
      rw [heq] at hend
      exact absurd hend (by decide)
    have hends : ∀ c ∈ p, isLineEnd c = false := fun c hc => (hplain c hc).2.2
    have hswapped : p.map swapped = p := map_swapped (fun c hc => (hsafe c hc).2)
    have hnewline : '\n' ∉ p := fun hin => (hsafe _ hin).2.2 rfl
    obtain ⟨name, others, rfl⟩ := List.exists_cons_of_ne_nil hn
    obtain ⟨hname, hothers⟩ := List.forall_mem_cons.mp hnames
    cases rest with
    | nil =>
      have hlines : keepLines (linesOf [p]) = [p] := by
        rw [linesOf, List.map_singleton, List.intercalate_singleton, hswapped, keepLines_plain hends hne]
      rw [hlines, List.map_singleton, lineLeaves, List.mem_flatMap] at hempty
      obtain ⟨u, hu, hnil⟩ := hempty
      cases List.mem_singleton.mp hnil
      obtain ⟨t, ht, hfits⟩ := fits_of_leaves hu
      rw [List.append_nil] at ht
      have hone := hfits.inLine (linePieces_simple hsafe)
      cases others with
      | cons other others =>
        rw [← ht, linesOf_cons (List.cons_ne_nil _ _)] at hone
        exact absurd (List.mem_append_right _ List.mem_cons_self) hone
      | nil =>
        rw [linesOf, List.map_singleton, List.intercalate_singleton] at ht
        rw [← ht] at hfits
        exact .cons (named_of_fits hnewline (hfits.unswap (linePieces_simple hsafe))) .nil
    | cons q rest =>
      rw [linesOf_cons (List.cons_ne_nil q rest), hswapped, keepLines_newline hends, List.map_cons,
        linePieces_newline (fun hin => (hsafe _ hin).1 rfl) hnewline, lineLeaves, List.mem_flatMap] at hempty
      obtain ⟨u, hu, hempty⟩ := hempty
      obtain ⟨t, ht, hfits⟩ := fits_of_leaves hu
      obtain ⟨x, y, rfl, hx, hy⟩ := hfits.split
      obtain rfl : y = ['\n'] := by
        cases hy with
        | one hc h =>
          cases h
          rw [of_decide_eq_true hc]
      rw [List.append_assoc, List.singleton_append] at ht
      have hfirst := hx.inLine (linePieces_simple hsafe)
      have hmore : others ≠ [] := by
        rintro rfl
        rw [linesOf, List.map_singleton, List.intercalate_singleton] at ht
        exact newline_not_mem_swapped hname (ht ▸ List.mem_append_right x List.mem_cons_self)
      rw [linesOf_cons hmore] at ht
      obtain ⟨rfl, rfl⟩ := cut_newline hfirst (newline_not_mem_swapped hname) ht.symm
      exact .cons (named_of_fits hnewline (hx.unswap (linePieces_simple hsafe)))
        (ih hpatterns hothers (List.cons_ne_nil q rest) hmore hempty)

end AItelier.Writer
