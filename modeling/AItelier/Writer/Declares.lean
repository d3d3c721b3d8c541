import AItelier.Lib.Components
import AItelier.Lib.Regex
import AItelier.Lib.Value

namespace AItelier.Writer

open AItelier.Lib

abbrev Text := List Char

/-- What `Path(output_dir) / raw` adds to the directory, by `PurePosixPath`: empty and `.`
components are dropped. An absolute path leaves the directory. -/
def publishedText (raw : Text) : Option Text :=
  if raw.head? = some '/' ∨ parts '/' '.' raw = [] then none else some (['/'].intercalate (parts '/' '.' raw))

/-- `pattern.replace("*", ident)`. -/
def replaceStar (pattern ident : Text) : Text := pattern.flatMap (fun c => if c = '*' then ident else [c])

/-- The first component of an id, where it is neither empty nor a dot. -/
def opening : Char := '\x00'

/-- The components between the first and the last. -/
def middle : Char := '\x01'

/-- The last component, where it is neither empty nor a dot. -/
def closing : Char := '\x02'

def notSlash : Regex Char Char := .one (fun c => decide (c ≠ '/'))

/-- `_ID_FRAGMENT`. -/
def idFragment : Regex Char Char :=
  .alt (.seq (.one (fun c => decide (c ≠ '/' ∧ c ≠ '.'))) (.star notSlash)) (.seq (.lit '.') (.plus notSlash))

def idFragments : Regex Char Char := .seq idFragment (.star (.seq (.lit '/') idFragment))

/-- `_ID_PIECES`. -/
def idPiece (c : Char) : Option (Regex Char Char) :=
  if c = opening ∨ c = closing then some idFragment else if c = middle then some idFragments else none

def ends : List Text := [[], ['.'], [opening]]

/-- The ids by their first and last component, and whether they have others. -/
def idents : List Text :=
  ends ++ ends.flatMap (fun c₀ => (ends.map (fun e => e.map (fun c => if c = opening then closing else c))).flatMap
    (fun cₖ => [[], [middle, '/']].map (fun mid => c₀ ++ '/' :: (mid ++ cₖ))))

/-- A published path as an expression: the first occurrence of a piece captures it, and later
ones must repeat it. -/
def expression : Text → List Char → Regex Char Char
  | [], _ => .empty
  | c :: s, seen =>
    match idPiece c with
    | some piece => .seq (if c ∈ seen then .ref c else .group c piece) (expression s (c :: seen))
    | none => .seq (.lit c) (expression s seen)

/-- `_writer_shapes`. -/
def writerShapes (pattern : Text) : List (Text × Regex Char Char) :=
  idents.filterMap (fun ident => (publishedText (replaceStar pattern ident)).map (fun p => (ident, expression p [])))

/-- An id with its pieces as they were captured. -/
def recovered (caps : Regex.Captures Char Char) (ident : Text) : Text :=
  ident.flatMap (fun c => if (idPiece c).isSome then (Entries.get caps c).getD [] else [c])

/-- One shape admits a file, when the id that it finds publishes the file. -/
def admits (filename pattern : Text) (shape : Text × Regex Char Char) : Bool :=
  match shape.2.fullmatch filename with
  | some caps => publishedText (replaceStar pattern (recovered caps shape.1)) = some filename
  | none => false

/-- `_writer_published`. -/
def writerPublished (raw : String) : Option String := (publishedText raw.toList).map String.ofList

/-- `_writer_declares`. -/
def writerDeclares (filename : String) (pattern : Value) : Bool :=
  match pattern with
  | .str p =>
    if '*' ∉ p.toList then writerPublished p = some filename
    else (writerShapes p.toList).any (admits filename.toList p.toList)
  | _ => false

end AItelier.Writer

namespace AItelier.Writer

open AItelier.Lib

variable {raw pattern filename ident id s t : Text} {c : Char} {caps out : Regex.Captures Char Char}

/-- What a piece may be: components that are kept, and one only at the ends of an id. -/
def PieceText (c : Char) (v : Text) : Prop := Solid '/' '.' v ∧ (c ≠ middle → '/' ∉ v)

def fillOf (σ : Char → Text) (c : Char) : Text := if (idPiece c).isSome then σ c else [c]

theorem fill_filling {σ : Char → Text} (h : ∀ c, (idPiece c).isSome → PieceText c (σ c)) :
    Filling '/' '.' (fillOf σ) := by
  intro c
  unfold fillOf
  split
  · next hc =>
    refine .inr ⟨(h c hc).1, ?_, ?_⟩
    · rintro rfl
      exact absurd hc (by decide)
    · rintro rfl
      exact absurd hc (by decide)
  · exact .inl rfl

theorem solid_iff_kept (h : '/' ∉ t) : Solid '/' '.' t ↔ Kept '.' t := by
  rw [Solid, List.splitOn_eq_singleton h]
  simp only [List.mem_singleton, forall_eq]

theorem matches_idFragment :
    Regex.Matches idFragment caps t out ↔ out = caps ∧ Kept '.' t ∧ '/' ∉ t := by
  constructor
  · intro h
    cases h with
    | left h =>
      cases h with
      | seq ha hb =>
        cases ha with
        | one hp =>
          obtain ⟨hslash, hdot⟩ := of_decide_eq_true hp
          obtain ⟨hout, hall⟩ := Regex.matches_star_one.mp hb
          refine ⟨hout, ⟨List.cons_ne_nil _ _, fun he => hdot (List.cons.inj he).1⟩, fun hin => ?_⟩
          rcases List.mem_cons.mp hin with hin | hin
          · exact hslash hin.symm
          · exact of_decide_eq_true (hall _ hin) rfl
    | right h =>
      cases h with
      | seq ha hb =>
        cases ha with
        | one hp =>
          have hdot := of_decide_eq_true hp
          subst hdot
          cases hb with
          | seq hb hc =>
            cases hb with
            | one hq =>
              obtain ⟨hout, hall⟩ := Regex.matches_star_one.mp hc
              refine ⟨hout, ⟨List.cons_ne_nil _ _, fun he => ?_⟩, fun hin => ?_⟩
              · exact List.cons_ne_nil _ _ (List.cons.inj he).2
              · rcases List.mem_cons.mp hin with hin | hin
                · exact absurd hin (by decide)
                · rcases List.mem_cons.mp hin with hin | hin
                  · exact of_decide_eq_true hq hin.symm
                  · exact of_decide_eq_true (hall _ hin) rfl
  · rintro ⟨rfl, hkept, hslash⟩
    have hstar (u : Text) (hu : '/' ∉ u) : Regex.Matches (.star notSlash) out u out :=
      Regex.matches_star_one.mpr ⟨rfl, fun c hc => decide_eq_true (fun he => hu (he ▸ hc))⟩
    cases t with
    | nil => exact absurd rfl hkept.1
    | cons c t =>
      obtain ⟨hc, ht⟩ := not_or.mp (fun hmem => hslash (List.mem_cons.mpr hmem))
      by_cases hdot : c = '.'
      · subst hdot
        cases t with
        | nil => exact absurd rfl hkept.2
        | cons d t =>
          obtain ⟨hd, ht⟩ := not_or.mp (fun hmem => ht (List.mem_cons.mpr hmem))
          have hnext : Regex.Matches notSlash out [d] out := .one (decide_eq_true (Ne.symm hd))
          have hdotted : Regex.Matches (.lit '.') out ['.'] out := .one (by rfl)
          exact .right (hdotted.seq (hnext.seq (hstar t ht)))
      · have hfirst : Regex.Matches (.one (fun c => decide (c ≠ '/' ∧ c ≠ '.'))) out [c] out :=
          .one (decide_eq_true ⟨Ne.symm hc, hdot⟩)
        exact .left (hfirst.seq (hstar t ht))

/-- More fragments keep a text solid. -/
theorem solid_fragments (hs : Solid '/' '.' s)
    (h : Regex.Matches (.star (.seq (.lit '/') idFragment)) caps t out) : out = caps ∧ Solid '/' '.' (s ++ t) := by
  generalize hr : Regex.star (Regex.seq (Regex.lit '/') idFragment) = r at h
  induction h generalizing s with
  | stop =>
    rw [List.append_nil]
    exact ⟨rfl, hs⟩
  | more ha _ _ _ ihrest =>
    cases hr
    cases ha with
    | seq hl hf =>
      cases hl with
      | one hp =>
        have hslash := of_decide_eq_true hp
        subst hslash
        obtain ⟨rfl, hkept, hnot⟩ := matches_idFragment.mp hf
        obtain ⟨hout, hsolid⟩ := ihrest ((solid_iff_kept hnot).mpr hkept) rfl
        refine ⟨hout, fun part hpart => ?_⟩
        rw [List.singleton_append, List.cons_append, List.splitOn_append_cons_self] at hpart
        rcases List.mem_append.mp hpart with hpart | hpart
        · exact hs part hpart
        · exact hsolid part hpart
  | _ => cases hr

theorem matches_fragments {p : List Text} (h : ∀ part ∈ p, Kept '.' part ∧ '/' ∉ part) :
    Regex.Matches (.star (.seq (.lit '/') idFragment)) caps (p.flatMap (fun part => '/' :: part)) caps := by
  induction p with
  | nil => exact .stop
  | cons x p ih =>
    obtain ⟨hx, hrest⟩ := List.forall_mem_cons.mp h
    have hslash : Regex.Matches (.lit '/') caps ['/'] caps := .one (by rfl)
    exact (hslash.seq (matches_idFragment.mpr ⟨rfl, hx⟩)).more (List.cons_ne_nil _ _) (ih hrest)

theorem matches_idFragments : Regex.Matches idFragments caps t out ↔ out = caps ∧ Solid '/' '.' t := by
  constructor
  · intro h
    cases h with
    | seq ha hb =>
      obtain ⟨rfl, hkept, hnot⟩ := matches_idFragment.mp ha
      exact solid_fragments ((solid_iff_kept hnot).mpr hkept) hb
  · rintro ⟨rfl, hsolid⟩
    have hjoin : ['/'].intercalate (t.splitOn '/') = t := List.intercalate_splitOn '/'
    obtain ⟨x, p, hp⟩ := List.exists_cons_of_ne_nil (List.splitOn_ne_nil '/' t)
    have hall : ∀ part ∈ x :: p, Kept '.' part ∧ '/' ∉ part :=
      fun part hpart => ⟨hsolid part (hp ▸ hpart), not_mem_of_mem_splitOn (hp ▸ hpart)⟩
    obtain ⟨hx, hrest⟩ := List.forall_mem_cons.mp hall
    rw [← hjoin, hp, intercalate_cons_eq]
    exact (matches_idFragment.mpr ⟨rfl, hx⟩).seq (matches_fragments hrest)

theorem matches_piece {r : Regex Char Char} (h : idPiece c = some r) :
    Regex.Matches r caps t out ↔ out = caps ∧ PieceText c t := by
  unfold idPiece at h
  split at h
  · next hc =>
    cases h
    have hnot : c ≠ middle := by
      rintro rfl
      exact absurd hc (by decide)
    rw [matches_idFragment, PieceText]
    refine and_congr_right (fun _ => ⟨fun h => ⟨(solid_iff_kept h.2).mpr h.1, fun _ => h.2⟩, fun h => ?_⟩)
    exact ⟨(solid_iff_kept (h.2 hnot)).mp h.1, h.2 hnot⟩
  · split at h
    · next hm =>
      cases h
      rw [matches_idFragments, PieceText]
      exact and_congr_right (fun _ => ⟨fun h => ⟨h, fun hne => absurd hm hne⟩, fun h => h.1⟩)
    · cases h

theorem recovered_cons (caps : Regex.Captures Char Char) (c : Char) (s : Text) :
    recovered caps (c :: s) = (if (idPiece c).isSome then (Entries.get caps c).getD [] else [c]) ++ recovered caps s :=
  List.flatMap_cons

/-- A match captures a text for every piece, and matches the path with its pieces so. -/
theorem matches_expression {seen : List Char} (h : Regex.Matches (expression s seen) caps t out)
    (hseen : ∀ c ∈ seen, ∃ v, Entries.get caps c = some v ∧ PieceText c v) :
    t = recovered out s ∧ (∀ c ∈ seen, Entries.get out c = Entries.get caps c) ∧
      ∀ c ∈ s, (idPiece c).isSome → ∃ v, Entries.get out c = some v ∧ PieceText c v := by
  induction s generalizing seen caps t with
  | nil =>
    cases h
    exact ⟨rfl, fun c _ => rfl, fun c hc => absurd hc List.not_mem_nil⟩
  | cons c s ih =>
    rw [expression] at h
    cases hpiece : idPiece c with
    | none =>
      rw [hpiece] at h
      cases h with
      | seq ha hb =>
        cases ha with
        | one hp =>
          have hsame := of_decide_eq_true hp
          subst hsame
          obtain ⟨rfl, hkeep, hall⟩ := ih hb hseen
          refine ⟨?_, hkeep, ?_⟩
          · rw [recovered_cons, hpiece]
            rfl
          · intro d hd hpd
            rcases List.mem_cons.mp hd with rfl | hd
            · rw [hpiece] at hpd
              exact absurd hpd Bool.noConfusion
            · exact hall d hd hpd
    | some piece =>
      rw [hpiece] at h
      cases h with
      | @seq _ _ u w _ mid _ ha hb =>
        have hfirst : Entries.get mid c = some u ∧ PieceText c u ∧
            ∀ d ∈ seen, Entries.get mid d = Entries.get caps d := by
          split at ha
          · next hc =>
            cases ha with
            | ref hcaptured =>
              obtain ⟨v, hv, htext⟩ := hseen c hc
              rw [hcaptured] at hv
              cases hv
              exact ⟨hcaptured, htext, fun d _ => rfl⟩
          · next hc =>
            cases ha with
            | group ha =>
              obtain ⟨rfl, htext⟩ := (matches_piece hpiece).mp ha
              refine ⟨Entries.get_set_same _ _ _, htext, fun d hd => ?_⟩
              exact Entries.get_set_other (fun he => hc (he ▸ hd))
        obtain ⟨hcaptured, htext, hbefore⟩ := hfirst
        have hseen' : ∀ d ∈ c :: seen, ∃ v, Entries.get mid d = some v ∧ PieceText d v := by
          refine List.forall_mem_cons.mpr ⟨⟨u, hcaptured, htext⟩, fun d hd => ?_⟩
          rw [hbefore d hd]
          exact hseen d hd
        obtain ⟨rfl, hkeep, hall⟩ := ih hb hseen'
        have hout : Entries.get out c = some u := (hkeep c List.mem_cons_self).trans hcaptured
        refine ⟨?_, ?_, ?_⟩
        · rw [recovered_cons, hpiece, hout]
          rfl
        · exact fun d hd => (hkeep d (List.mem_cons_of_mem c hd)).trans (hbefore d hd)
        · intro d hd hpd
          rcases List.mem_cons.mp hd with rfl | hd
          · exact ⟨u, hout, htext⟩
          · exact hall d hd hpd

/-- A path with its pieces filled in is matched. -/
theorem expression_matches {σ : Char → Text} (hσ : ∀ c, (idPiece c).isSome → PieceText c (σ c)) {seen : List Char}
    (hseen : ∀ c ∈ seen, Entries.get caps c = some (σ c)) :
    ∃ out, Regex.Matches (expression s seen) caps (s.flatMap (fillOf σ)) out := by
  induction s generalizing seen caps with
  | nil => exact ⟨caps, .empty⟩
  | cons c s ih =>
    rw [expression, List.flatMap_cons, fillOf]
    cases hpiece : idPiece c with
    | none =>
      obtain ⟨out, hrest⟩ := ih hseen
      have hfirst : Regex.Matches (.lit c) caps [c] caps := .one (decide_eq_true rfl)
      exact ⟨out, hfirst.seq hrest⟩
    | some piece =>
      have htext : PieceText c (σ c) := hσ c (by rw [hpiece]; rfl)
      by_cases hc : c ∈ seen
      · obtain ⟨out, hrest⟩ := ih (List.forall_mem_cons.mpr ⟨hseen c hc, hseen⟩ : ∀ d ∈ c :: seen, _)
        have hfirst : Regex.Matches (.ref c) caps (σ c) caps := .ref (hseen c hc)
        simp only [if_pos hc, Option.isSome_some, if_true]
        exact ⟨out, hfirst.seq hrest⟩
      · have hseen' : ∀ d ∈ c :: seen, Entries.get (Entries.set caps c (σ c)) d = some (σ d) := by
          refine List.forall_mem_cons.mpr ⟨Entries.get_set_same _ _ _, fun d hd => ?_⟩
          have hne : c ≠ d := fun he => hc (he ▸ hd)
          rw [Entries.get_set_other hne]
          exact hseen d hd
        obtain ⟨out, hrest⟩ := ih hseen'
        have hfirst : Regex.Matches (.group c piece) caps (σ c) (Entries.set caps c (σ c)) :=
          .group ((matches_piece hpiece).mpr ⟨rfl, htext⟩)
        simp only [if_neg hc, Option.isSome_some, if_true]
        exact ⟨out, hfirst.seq hrest⟩

end AItelier.Writer
