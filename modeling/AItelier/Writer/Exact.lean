import AItelier.Writer.Declares

namespace AItelier.Writer

open AItelier.Lib

variable {raw pattern ident id s t : Text} {c : Char} {fill : Char → Text}

theorem head_flatMap (hfill : Filling '/' '.' fill) (s : Text) :
    (s.flatMap fill).head? = some '/' ↔ s.head? = some '/' := by
  cases s with
  | nil => exact Iff.rfl
  | cons c s =>
    rw [List.flatMap_cons, List.head?_cons, Option.some.injEq]
    rcases hfill c with hfixed | ⟨hsolid, hc, -⟩
    · rw [hfixed, List.singleton_append, List.head?_cons, Option.some.injEq]
    · refine ⟨fun h => ?_, fun h => absurd h hc⟩
      cases hv : fill c with
      | nil =>
        have hnil := hsolid [] (by rw [hv]; exact List.mem_cons_self)
        exact absurd rfl hnil.1
      | cons d v =>
        rw [hv, List.cons_append, List.head?_cons, Option.some.injEq] at h
        have hnil := hsolid [] (by
          rw [hv, h, List.splitOn_cons_eq_if_modifyHead, if_pos (beq_self_eq_true '/')]
          exact List.mem_cons_self)
        exact absurd rfl hnil.1

theorem publishedText_flatMap (hfill : Filling '/' '.' fill) (raw : Text) :
    publishedText (raw.flatMap fill) = (publishedText raw).map (fun p => p.flatMap fill) := by
  unfold publishedText
  simp only [head_flatMap hfill, hfill.parts_eq_nil, join_parts_flatMap hfill]
  split
  · rfl
  · rfl

theorem mem_published {p : Text} (h : publishedText raw = some p) (hc : c ∈ raw) (hslash : c ≠ '/') (hdot : c ≠ '.') :
    c ∈ p := by
  unfold publishedText at h
  split at h
  · cases h
  · cases h
    exact (mem_intercalate hslash).mpr (mem_parts hc hslash hdot)

theorem replaceStar_cons (c : Char) (pattern ident : Text) :
    replaceStar (c :: pattern) ident = (if c = '*' then ident else [c]) ++ replaceStar pattern ident :=
      List.flatMap_cons

theorem mem_replaceStar (hstar : '*' ∈ pattern) (hc : c ∈ ident) : c ∈ replaceStar pattern ident :=
  List.mem_flatMap.mpr ⟨'*', hstar, by rw [if_pos rfl]; exact hc⟩

theorem mem_replaceStar_of_pattern (hc : c ∈ pattern) (hne : c ≠ '*') : c ∈ replaceStar pattern ident :=
  List.mem_flatMap.mpr ⟨c, hc, by rw [if_neg hne]; exact List.mem_singleton_self c⟩

variable {σ : Char → Text} {ms : List Text}

/-- Filling an id in and then putting it for the stars is filling the path in, for a pattern that has no
pieces of its own. -/
theorem replaceStar_flatMap (hpattern : ∀ c ∈ pattern, idPiece c = none) (ident : Text) :
    replaceStar pattern (ident.flatMap (fillOf σ)) = (replaceStar pattern ident).flatMap (fillOf σ) := by
  induction pattern with
  | nil => rfl
  | cons c pattern ih =>
    obtain ⟨hc, hrest⟩ := List.forall_mem_cons.mp hpattern
    rw [replaceStar_cons, replaceStar_cons, List.flatMap_append, ih hrest]
    split
    · rfl
    · rw [List.flatMap_singleton, fillOf, hc]
      rfl

/-- Two ids that no surrounding path tells apart. -/
def Same (s t : Text) : Prop :=
  ∀ l r, parts '/' '.' (l ++ s ++ r) = parts '/' '.' (l ++ t ++ r) ∧
    ((l ++ s ++ r).head? = some '/' ↔ (l ++ t ++ r).head? = some '/')

theorem Same.replaceStar (h : Same s t) (pattern l : Text) :
    parts '/' '.' (l ++ replaceStar pattern s) = parts '/' '.' (l ++ replaceStar pattern t) ∧
      ((l ++ replaceStar pattern s).head? = some '/' ↔ (l ++ replaceStar pattern t).head? = some '/') := by
  induction pattern generalizing l with
  | nil => exact ⟨rfl, Iff.rfl⟩
  | cons c pattern ih =>
    rw [replaceStar_cons, replaceStar_cons]
    split
    · obtain ⟨hparts, hhead⟩ := h l (Writer.replaceStar pattern s)
      obtain ⟨hrest, hhead'⟩ := ih (l ++ t)
      rw [← List.append_assoc, ← List.append_assoc]
      exact ⟨hparts.trans hrest, hhead.trans hhead'⟩
    · rw [← List.append_assoc, ← List.append_assoc]
      exact ih (l ++ [c])

theorem Same.published (h : Same s t) (pattern : Text) :
    publishedText (Writer.replaceStar pattern s) = publishedText (Writer.replaceStar pattern t) := by
  obtain ⟨hparts, hhead⟩ := h.replaceStar pattern []
  rw [List.nil_append, List.nil_append] at hparts hhead
  unfold publishedText
  simp only [hparts, hhead]

theorem parts_middle {last r : Text} (hms : ∀ m ∈ ms, '/' ∉ m) :
    parts '/' '.' (['/'].intercalate (ms ++ [last]) ++ r) =
      ms.filter (fun m => decide (Kept '.' m)) ++ parts '/' '.' (last ++ r) := by
  induction ms with
  | nil => rw [List.nil_append, List.intercalate_singleton, List.filter_nil, List.nil_append]
  | cons m ms ih =>
    obtain ⟨hm, hrest⟩ := List.forall_mem_cons.mp hms
    have hone : parts '/' '.' m = [m].filter (fun m => decide (Kept '.' m)) := by
      rw [parts, List.splitOn_eq_singleton hm]
    rw [List.cons_append, List.intercalate_cons_of_ne_nil
      (List.append_ne_nil_of_right_ne_nil ms (List.cons_ne_nil last [])),
      List.append_assoc, List.append_assoc, List.singleton_append, parts_append_sep, ih hrest, hone,
      ← List.append_assoc,
      ← List.filter_append, List.singleton_append]

theorem same_middle {first last : Text} (hms : ∀ m ∈ ms, '/' ∉ m) :
    Same (first ++ '/' :: ['/'].intercalate (ms ++ [last]))
      (first ++ '/' :: ['/'].intercalate (ms.filter (fun m => decide (Kept '.' m)) ++ [last])) := by
  intro l r
  constructor
  · have hkept : ∀ m ∈ ms.filter (fun m => decide (Kept '.' m)), '/' ∉ m :=
      fun m hm => hms m (List.mem_of_mem_filter hm)
    rw [← List.append_assoc, ← List.append_assoc, List.append_assoc _ _ r, List.append_assoc _ _ r, List.cons_append,
      List.cons_append, parts_append_sep, parts_append_sep, parts_middle hms, parts_middle hkept, List.filter_filter]
    simp only [Bool.and_self]
  · rw [← List.append_assoc, ← List.append_assoc, List.append_assoc _ _ r, List.append_assoc _ _ r]
    cases hl : l ++ first with
    | nil => exact Iff.rfl
    | cons x xs => exact Iff.rfl

/-- An end of an id, with a piece for what is kept of it. -/
def endOf (piece : Char) (part : Text) : Text := if Kept '.' part then [piece] else part

/-- What the piece of an end stands for, where there is one. -/
def endFill (part : Text) : Text := if Kept '.' part then part else ['x']

theorem endFill_kept (part : Text) : Kept '.' (endFill part) := by
  unfold endFill
  split
  · assumption
  · decide

theorem not_mem_endFill (h : '/' ∉ t) : '/' ∉ endFill t := by
  unfold endFill
  split
  · exact h
  · decide

theorem endOf_mem (piece : Char) (h : '/' ∉ t) : endOf piece t ∈ [[], ['.'], [piece]] := by
  unfold endOf
  split
  · simp only [List.mem_cons, true_or, or_true]
  · next hdropped =>
    have hcases : t = [] ∨ t = ['.'] := by
      by_contra hneither
      rw [not_or] at hneither
      exact hdropped hneither
    rcases hcases with rfl | rfl
    · exact List.mem_cons_self
    · exact List.mem_cons_of_mem _ List.mem_cons_self

theorem endOf_flatMap {piece : Char} (hpiece : (idPiece piece).isSome) (hσ : σ piece = endFill t)
    (h : '/' ∉ t) : (endOf piece t).flatMap (fillOf σ) = t := by
  by_cases hkept : Kept '.' t
  · rw [endOf, if_pos hkept, List.flatMap_singleton, fillOf, if_pos hpiece, hσ, endFill, if_pos hkept]
  · have hmem := endOf_mem piece h
    rw [endOf, if_neg hkept] at hmem ⊢
    rcases List.mem_cons.mp hmem with rfl | hmem
    · rfl
    rcases List.mem_cons.mp hmem with rfl | hmem
    · rfl
    · rw [List.mem_singleton.mp hmem] at hkept h ⊢
      refine absurd ⟨List.cons_ne_nil _ _, fun he => ?_⟩ hkept
      rw [(List.cons.inj he).1] at hpiece
      exact absurd hpiece (by decide)

/-- The pieces of an id that is in three parts. -/
def threeParts (first mid last : Text) (c : Char) : Text :=
  if c = opening then endFill first else if c = middle then mid else endFill last

theorem threeParts_text {first mid last : Text} (hfirst : '/' ∉ first) (hmid : Solid '/' '.' mid) (hlast : '/' ∉ last)
    (c : Char) : PieceText c (threeParts first mid last c) := by
  unfold threeParts
  split
  · exact ⟨(solid_iff_kept (not_mem_endFill hfirst)).mpr (endFill_kept first), fun _ => not_mem_endFill hfirst⟩
  · split
    · next hc => exact ⟨hmid, fun hne => absurd hc hne⟩
    · exact ⟨(solid_iff_kept (not_mem_endFill hlast)).mpr (endFill_kept last), fun _ => not_mem_endFill hlast⟩

theorem Same.refl (s : Text) : Same s s := fun _ _ => ⟨rfl, Iff.rfl⟩

theorem solid_intercalate (hne : ms ≠ []) (hms : ∀ m ∈ ms, '/' ∉ m) (hkept : ∀ m ∈ ms, Kept '.' m) :
    Solid '/' '.' (['/'].intercalate ms) := by
  intro part hpart
  rw [List.splitOn_intercalate '/' hms hne] at hpart
  exact hkept part hpart

/-- The components between the ends of an id, as its shape has them. -/
def midOf (ms : List Text) : Text := if ms = [] then [] else [middle, '/']

def midFill (ms : List Text) : Text := if ms = [] then ['x'] else ['/'].intercalate ms

theorem midOf_flatMap (hσ : σ middle = midFill ms) (last : Text) :
    (midOf ms).flatMap (fillOf σ) ++ last = ['/'].intercalate (ms ++ [last]) := by
  unfold midOf
  split
  · next hnone =>
    rw [hnone, List.flatMap_nil, List.nil_append, List.nil_append, List.intercalate_singleton]
  · next hsome =>
    have hmiddle : fillOf σ middle = ['/'].intercalate ms := by
      rw [fillOf, if_pos (by decide), hσ, midFill, if_neg hsome]
    have hslash : fillOf σ '/' = ['/'] := by
      rw [fillOf, if_neg (by decide)]
    rw [List.flatMap_cons, List.flatMap_singleton, hmiddle, hslash,
      intercalate_append hsome (List.cons_ne_nil last []), List.intercalate_singleton, List.append_assoc,
      List.singleton_append]

theorem midFill_solid (hms : ∀ m ∈ ms, '/' ∉ m) (hkept : ∀ m ∈ ms, Kept '.' m) :
    Solid '/' '.' (midFill ms) := by
  unfold midFill
  split
  · exact (solid_iff_kept (by decide)).mpr (by decide)
  · next hsome => exact solid_intercalate hsome hms hkept

theorem mem_idents {first mid last : Text} (hfirst : first ∈ ends) (hmid : mid ∈ [[], [middle, '/']])
    (hlast : last ∈ [[], ['.'], [closing]]) : first ++ '/' :: (mid ++ last) ∈ idents := by
  have hends : ends.map (fun e => e.map (fun c => if c = opening then closing else c)) = [[], ['.'], [closing]] := by
    decide
  refine List.mem_append_right _ (List.mem_flatMap.mpr ⟨first, hfirst, List.mem_flatMap.mpr ⟨last, ?_, ?_⟩⟩)
  · rw [hends]
    exact hlast
  · exact List.mem_map.mpr ⟨mid, hmid, rfl⟩

/-- Every id publishes as one of the shapes does with its pieces filled in. -/
theorem exists_shape (id : Text) :
    ∃ ident ∈ idents, ∃ σ, (∀ c, PieceText c (σ c)) ∧ Same id (ident.flatMap (fillOf σ)) := by
  have hsolid : Solid '/' '.' ['x'] := (solid_iff_kept (by decide)).mpr (by decide)
  have hopening : (idPiece opening).isSome := by decide
  have hclosing : (idPiece closing).isSome := by decide
  by_cases hslash : '/' ∈ id
  · obtain ⟨first, rest, hsplit⟩ := List.exists_cons_of_ne_nil (List.splitOn_ne_nil '/' id)
    have hjoin : ['/'].intercalate (id.splitOn '/') = id := List.intercalate_splitOn '/'
    have hrest : rest ≠ [] := by
      rintro rfl
      rw [hsplit, List.intercalate_singleton] at hjoin
      exact not_mem_of_mem_splitOn (hsplit ▸ List.mem_cons_self) (hjoin ▸ hslash)
    obtain ⟨ms, last, rfl⟩ : ∃ ms last, rest = ms ++ [last] :=
      ⟨rest.dropLast, rest.getLast hrest, (List.dropLast_append_getLast hrest).symm⟩
    have hnot : ∀ part ∈ first :: (ms ++ [last]), '/' ∉ part :=
      fun part hpart => not_mem_of_mem_splitOn (hsplit ▸ hpart)
    obtain ⟨hfirst, hnot⟩ := List.forall_mem_cons.mp hnot
    have hms : ∀ m ∈ ms, '/' ∉ m := fun m hm => hnot m (List.mem_append_left _ hm)
    have hlast : '/' ∉ last := hnot last (List.mem_append_right _ (List.mem_singleton_self last))
    have hid : id = first ++ '/' :: ['/'].intercalate (ms ++ [last]) := by
      rw [← hjoin, hsplit, List.intercalate_cons_of_ne_nil hrest, List.append_assoc, List.singleton_append]
    generalize hM : ms.filter (fun m => decide (Kept '.' m)) = M
    have hmem : ∀ m ∈ M, m ∈ ms ∧ Kept '.' m := by
      intro m hm
      rw [← hM, List.mem_filter, decide_eq_true_eq] at hm
      exact hm
    have hM' : ∀ m ∈ M, '/' ∉ m := fun m hm => hms m (hmem m hm).1
    have hkept : ∀ m ∈ M, Kept '.' m := fun m hm => (hmem m hm).2
    refine ⟨endOf opening first ++ '/' :: (midOf M ++ endOf closing last), ?_,
      threeParts first (midFill M) last, ?_, ?_⟩
    · refine mem_idents (endOf_mem opening hfirst) ?_ (endOf_mem closing hlast)
      unfold midOf
      split
      · exact List.mem_cons_self
      · exact List.mem_cons_of_mem _ (List.mem_singleton_self _)
    · exact threeParts_text hfirst (midFill_solid hM' hkept) hlast
    · have hsep : fillOf (threeParts first (midFill M) last) '/' = ['/'] := if_neg (by decide)
      have hsame : Same _ (first ++ '/' :: ['/'].intercalate (_ ++ [last])) := same_middle hms
      rw [hM] at hsame
      rw [hid, List.flatMap_append, List.flatMap_cons, List.flatMap_append, hsep, List.singleton_append,
        endOf_flatMap hopening (if_pos rfl) hfirst, endOf_flatMap hclosing rfl hlast, midOf_flatMap rfl]
      exact hsame
  · refine ⟨endOf opening id, ?_, threeParts id ['x'] [], ?_, ?_⟩
    · exact List.mem_append_left _ (endOf_mem opening hslash)
    · exact threeParts_text hslash hsolid List.not_mem_nil
    · rw [endOf_flatMap hopening (by rw [threeParts, if_pos rfl]) hslash]
      exact Same.refl id

/-- The pieces as they were captured, for those that are in a path. -/
def captured (path : Text) (caps : Regex.Captures Char Char) (c : Char) : Text :=
  if c ∈ path then (Entries.get caps c).getD [] else ['x']

theorem recovered_eq {path : Text} {caps : Regex.Captures Char Char} (h : ∀ c ∈ s, (idPiece c).isSome → c ∈ path) :
    recovered caps s = s.flatMap (fillOf (captured path caps)) := by
  refine List.flatMap_congr (fun c hc => ?_)
  unfold fillOf
  split
  · next hpiece => rw [captured, if_pos (h c hc hpiece)]
  · rfl

theorem captured_text {path : Text} {caps : Regex.Captures Char Char}
    (h : ∀ c ∈ path, (idPiece c).isSome → ∃ v, Entries.get caps c = some v ∧ PieceText c v) (c : Char)
    (hc : (idPiece c).isSome) : PieceText c (captured path caps c) := by
  unfold captured
  split
  · next hin =>
    obtain ⟨v, hv, htext⟩ := h c hin hc
    rw [hv]
    exact htext
  · exact ⟨(solid_iff_kept (by decide)).mpr (by decide), fun _ => by decide⟩

theorem piece_ne (h : (idPiece c).isSome) : c ≠ '*' ∧ c ≠ '/' ∧ c ≠ '.' := by
  refine ⟨?_, ?_, ?_⟩
  · rintro rfl
    exact absurd h (by decide)
  · rintro rfl
    exact absurd h (by decide)
  · rintro rfl
    exact absurd h (by decide)

/-- Where an id publishes the file, the shape of the id admits it. -/
theorem admits_of_published {f : Text} (hplain : ∀ c ∈ f, idPiece c = none) (hstar : '*' ∈ pattern)
    (h : publishedText (replaceStar pattern id) = some f) :
    ∃ ident ∈ idents, ∃ path, publishedText (replaceStar pattern ident) = some path ∧
      admits f pattern (ident, expression path []) = true := by
  have hpattern : ∀ c ∈ pattern, idPiece c = none := by
    intro c hc
    by_contra hpiece
    obtain ⟨hne, hslash, hdot⟩ := piece_ne (Option.isSome_iff_ne_none.mpr hpiece)
    exact hpiece (hplain c (mem_published h (mem_replaceStar_of_pattern hc hne) hslash hdot))
  obtain ⟨ident, hident, σ, hσ, hsame⟩ := exists_shape id
  have hfill : Filling '/' '.' (fillOf σ) := fill_filling (fun c _ => hσ c)
  rw [hsame.published, replaceStar_flatMap hpattern, publishedText_flatMap hfill] at h
  obtain ⟨path, hpath, hf⟩ := Option.map_eq_some_iff.mp h
  have hpieces : ∀ c ∈ ident, (idPiece c).isSome → c ∈ path := by
    intro c hc hpiece
    obtain ⟨-, hslash, hdot⟩ := piece_ne hpiece
    exact mem_published hpath (mem_replaceStar hstar hc) hslash hdot
  -- The expression matches in some way, though perhaps with other texts for the pieces than those of the id.
  have hmatch : ∃ out, Regex.Matches (expression path []) [] (path.flatMap (fillOf σ)) out :=
    expression_matches (fun c _ => hσ c) (fun c hc => absurd hc List.not_mem_nil)
  rw [hf] at hmatch
  obtain ⟨out, hmatch⟩ := hmatch
  obtain ⟨caps, hcaps⟩ := Option.isSome_iff_exists.mp (Regex.fullmatch_isSome hmatch)
  obtain ⟨hrecovered, -, hall⟩ :=
    matches_expression (Regex.matches_of_fullmatch hcaps) (fun c hc => absurd hc List.not_mem_nil)
  have hfill' : Filling '/' '.' (fillOf (captured path caps)) := fill_filling (captured_text hall)
  refine ⟨ident, hident, path, hpath, ?_⟩
  unfold admits
  rw [hcaps]
  refine decide_eq_true ?_
  rw [recovered_eq hpieces, replaceStar_flatMap hpattern, publishedText_flatMap hfill', hpath, Option.map_some,
    ← recovered_eq (fun c hc _ => hc), ← hrecovered]

theorem published_string {f : String} (raw : Text) :
    writerPublished (String.ofList raw) = some f ↔ publishedText raw = some f.toList := by
  rw [writerPublished, String.toList_ofList, Option.map_eq_some_iff]
  constructor
  · rintro ⟨p, hp, rfl⟩
    rw [hp, String.toList_ofList]
  · intro h
    exact ⟨f.toList, h, String.ofList_toList⟩

theorem replaceStar_of_not_mem (h : '*' ∉ pattern) (id : Text) : replaceStar pattern id = pattern := by
  have hsame : replaceStar pattern id = pattern.flatMap (fun c => [c]) := by
    refine List.flatMap_congr (fun c hc => if_neg ?_)
    rintro rfl
    exact h hc
  rw [hsame, List.flatMap_singleton']

/-- A file is declared exactly where one id, put for every star of the pattern, publishes it. -/
theorem writer_declares_exact {filename : String} (hplain : ∀ c ∈ filename.toList, idPiece c = none) (pattern : Value) :
    writerDeclares filename pattern = true ↔
      ∃ p id : String, pattern = .str p ∧
        writerPublished (String.ofList (replaceStar p.toList id.toList)) = some filename := by
  cases pattern with
  | str p =>
    rw [writerDeclares]
    split
    · next hstar =>
      rw [decide_eq_true_eq]
      constructor
      · intro h
        refine ⟨p, "", rfl, ?_⟩
        rwa [replaceStar_of_not_mem hstar, String.ofList_toList]
      · rintro ⟨q, id, hq, h⟩
        cases hq
        rwa [replaceStar_of_not_mem hstar, String.ofList_toList] at h
    · next hstar =>
      rw [not_not] at hstar
      constructor
      · intro h
        obtain ⟨⟨ident, r⟩, hshape, hadmits⟩ := List.any_eq_true.mp h
        unfold admits at hadmits
        split at hadmits
        · next caps hcaps =>
          refine ⟨p, String.ofList (recovered caps ident), rfl, ?_⟩
          rw [published_string, String.toList_ofList]
          exact of_decide_eq_true hadmits
        · cases hadmits
      · rintro ⟨q, id, hq, h⟩
        cases hq
        obtain ⟨ident, hident, path, hpath, hadmits⟩ :=
          admits_of_published hplain hstar (published_string _ |>.mp h)
        refine List.any_eq_true.mpr ⟨_, List.mem_filterMap.mpr ⟨ident, hident, ?_⟩, hadmits⟩
        rw [hpath, Option.map_some]
  | _ =>
    refine ⟨fun h => absurd h Bool.noConfusion, ?_⟩
    rintro ⟨q, id, hq, -⟩
    cases hq

/-- One id with a slash in it is put for both stars. -/
theorem writer_declares_exact_slash :
    (∀ c ∈ "deep/a/b-a/b.md".toList, idPiece c = none) ∧ writerDeclares "deep/a/b-a/b.md" (.str "deep/*-*.md") = true :=
  have hplain : ∀ c ∈ "deep/a/b-a/b.md".toList, idPiece c = none := fun c hc =>
    of_decide_eq_true (List.all_eq_true.mp (rfl : "deep/a/b-a/b.md".toList.all
      (fun c => decide (idPiece c = none)) = true) c hc)
  ⟨hplain, (writer_declares_exact hplain (.str "deep/*-*.md")).mpr ⟨"deep/*-*.md", "a/b", rfl, by decide⟩⟩

end AItelier.Writer
