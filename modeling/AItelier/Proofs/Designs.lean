import AItelier.Refine.Designs
import AItelier.Proofs.Closure

namespace AItelier.State

open AItelier.Lib Relation

variable {db db' : DB} {host : Host} {rows : List DesignRevision} {row : DesignRevision} {p : String}
  {a b : DesignRef} {refs : List DesignRef}

/-- A selection a baseline may pin: closed under what its items need, and without
an item that another one, or two of them, replace. -/
structure Accepted (rows : List DesignRevision) (p : String) (refs : List DesignRef) : Prop where
  dependencies : ∀ a ∈ refs, ∀ b, ReflTransGen (Points rows p .dependsOn) a b → b ∈ refs
  references : ∀ a ∈ refs, ∀ b, Points rows p .references a b → b ∈ refs
  approved : ∀ a ∈ refs, Approved rows p a → ∀ b, Points rows p .dependsOn a b → Approved rows p b
  superseded : ∀ a ∈ refs, ∀ b, TransGen (Points rows p .supersedes) a b → b ∉ refs
  replaced : ∀ a ∈ refs, ∀ a' ∈ refs, a ≠ a' → ∀ b, TransGen (Points rows p .supersedes) a b →
    ¬TransGen (Points rows p .supersedes) a' b

def Known (rows : List DesignRevision) (p : String) (refs : List DesignRef) : Prop :=
  ∀ a ∈ refs, (p, a) ∈ rows.map DesignRevision.pin

/-- A later row changes nothing for a selection of rows that were there. -/
theorem Accepted.append (h : Accepted rows p refs) (hgrown : Grown rows)
    (hfresh : row.pin ∉ rows.map DesignRevision.pin) (hknown : Known rows p refs) :
    Accepted (rows ++ [row]) p refs where
  dependencies := fun a ha b hab => h.dependencies a ha b (reach_append hgrown hfresh (hknown a ha) hab).1
  references := fun a ha b hab => h.references a ha b ((points_append hfresh (hknown a ha)).mp hab)
  approved := by
    intro a ha happroved b hab
    have hold := (points_append hfresh (hknown a ha)).mp hab
    rw [approved_append hfresh (hknown a ha)] at happroved
    rw [approved_append hfresh (hold.target hgrown)]
    exact h.approved a ha happroved b hold
  superseded := fun a ha b hab => h.superseded a ha b ((transGen_append hgrown hfresh (hknown a ha)).mp hab)
  replaced := by
    intro a ha a' ha' hne b hab hab'
    rw [transGen_append hgrown hfresh (hknown a ha)] at hab
    rw [transGen_append hgrown hfresh (hknown a' ha')] at hab'
    exact h.replaced a ha a' ha' hne b hab hab'

theorem Accepted.approved_reach (h : Accepted rows p refs) (ha : a ∈ refs) (happroved : Approved rows p a)
    (hab : ReflTransGen (Points rows p .dependsOn) a b) : Approved rows p b := by
  induction hab with
  | refl => exact happroved
  | tail hac hcb ih => exact h.approved _ (h.dependencies a ha _ hac) ih _ hcb

theorem selectedRelation_ok {selected : List DesignRef} {source target : DesignRevision} {rel : DesignRelation} :
    selectedRelation selected source rel target = .ok () ↔
      (rel.type = .dependsOn ∨ rel.type = .references → rel.target ∈ selected ∧
        ¬(rel.type = .dependsOn ∧ source.content.lifecycleStatus = .approved ∧
          target.content.lifecycleStatus ≠ .approved)) := by
  simp only [selectedRelation, whenever_ok, bind_ok, ensure_ok, exists_const]

theorem approved_iff (hgrown : Grown rows) (hrow : row ∈ rows) (hpin : row.pin = (p, a)) :
    Approved rows p a ↔ row.content.lifecycleStatus = .approved := by
  constructor
  · rintro ⟨other, hother, hsame, hstatus⟩
    rwa [hgrown.unique hrow hother (hpin.trans hsame.symm)]
  · exact fun h => ⟨row, hrow, hpin, h⟩

/-- What an item's own relations need of the selection, in terms of the rows. -/
theorem chosen_iff (hgrown : Grown db.designRevisions) (hrow : row ∈ db.designRevisions) (hpin : row.pin = (p, a)) :
    (∀ rel ∈ row.content.relations, Chosen db p refs row rel) ↔
      (∀ b, Points db.designRevisions p .dependsOn a b → b ∈ refs) ∧
      (∀ b, Points db.designRevisions p .references a b → b ∈ refs) ∧
      (Approved db.designRevisions p a → ∀ b, Points db.designRevisions p .dependsOn a b →
        Approved db.designRevisions p b) := by
  have hproject : row.projectId = p := congrArg Prod.fst hpin
  have hpoints (type : RelationType) (b : DesignRef) : Points db.designRevisions p type a b ↔
      ∃ rel ∈ row.content.relations, rel.type = type ∧ rel.target = b := by
    rw [← mem_relationEdges hgrown, relationEdges_row hgrown hrow hpin, mem_targets]
  have hchosen (rel : DesignRelation) (hrel : rel ∈ row.content.relations) : Chosen db p refs row rel ↔
      (rel.type = .dependsOn ∨ rel.type = .references → rel.target ∈ refs ∧
        (rel.type = .dependsOn → Approved db.designRevisions p a → Approved db.designRevisions p rel.target)) := by
    obtain ⟨target, htarget, htpin, hread⟩ := designRevision_known hgrown (hproject ▸ hgrown.known hrow hrel)
    have hone : Chosen db p refs row rel ↔ selectedRelation refs row rel target = .ok () := by
      constructor
      · exact fun h => h target hread
      · intro h other hother
        rw [hread] at hother
        exact Except.ok.inj hother ▸ h
    rw [hone, selectedRelation_ok, approved_iff hgrown hrow hpin, approved_iff hgrown htarget htpin]
    simp only [not_and, not_not]
  constructor
  · intro h
    refine ⟨?_, ?_, ?_⟩
    · intro b hb
      obtain ⟨rel, hrel, htype, rfl⟩ := (hpoints _ b).mp hb
      exact ((hchosen rel hrel).mp (h rel hrel) (.inl htype)).1
    · intro b hb
      obtain ⟨rel, hrel, htype, rfl⟩ := (hpoints _ b).mp hb
      exact ((hchosen rel hrel).mp (h rel hrel) (.inr htype)).1
    · intro happroved b hb
      obtain ⟨rel, hrel, htype, rfl⟩ := (hpoints _ b).mp hb
      exact ((hchosen rel hrel).mp (h rel hrel) (.inl htype)).2 htype happroved
  · rintro ⟨hdepends, hrefers, happroves⟩ rel hrel
    rw [hchosen rel hrel]
    intro htype
    refine ⟨?_, fun hd happroved => happroves happroved _ ((hpoints _ _).mpr ⟨rel, hrel, hd, rfl⟩)⟩
    rcases htype with htype | htype
    · exact hdepends _ ((hpoints _ _).mpr ⟨rel, hrel, htype, rfl⟩)
    · exact hrefers _ ((hpoints _ _).mpr ⟨rel, hrel, htype, rfl⟩)

/-- One round over a selected item: its relations are judged, and what it
supersedes is neither selected nor replaced already. -/
def replaceRound (db : DB) (p : String) (refs : List DesignRef) (replaced : List DesignRef) (rev : DesignRevision) :
    Result (List DesignRef) := do
  let ancestors ← supersededItems db p refs (db.designRevisions.length + 1) true [] [rev]
  ensure (¬ ancestors.any (fun a => decide (a ∈ refs ∨ a ∈ replaced)))
    (.conflict "conflicting full-item supersession in baseline")
  return replaced ++ ancestors

theorem replaceRound_ok (hgrown : Grown db.designRevisions) {replaced out : List DesignRef}
    (hrow : row ∈ db.designRevisions) (hpin : row.pin = (p, a)) :
    replaceRound db p refs replaced row = .ok out ↔
      (∀ rel ∈ row.content.relations, Chosen db p refs row rel) ∧
        (∀ b ∈ supersessions db.designRevisions p a, b ∉ refs ∧ b ∉ replaced) ∧
        out = replaced ++ supersessions db.designRevisions p a := by
  unfold replaceRound
  simp only [bind_ok, pure_ok, ensure_ok, supersededItems_root hgrown hrow hpin, exists_const, List.any_eq_true,
    decide_eq_true_eq, not_exists, not_and, not_or]
  constructor
  · rintro ⟨ancestors, ⟨hchosen, rfl⟩, hclear, rfl⟩
    exact ⟨hchosen, hclear, rfl⟩
  · rintro ⟨hchosen, hclear, rfl⟩
    exact ⟨_, ⟨hchosen, rfl⟩, hclear, rfl⟩

variable {revisions : List DesignRevision}

/-- All rounds: every item is judged, and no two of them replace the same one. -/
theorem replaceRounds_ok (hgrown : Grown db.designRevisions) :
    ∀ (replaced : List DesignRef), Stacked db.designRevisions p revisions →
      ((∃ out, revisions.foldlM (replaceRound db p refs) replaced = .ok out) ↔
        (∀ rev ∈ revisions, ∀ rel ∈ rev.content.relations, Chosen db p refs rev rel) ∧
        (∀ rev ∈ revisions, ∀ b ∈ supersessions db.designRevisions p rev.ref, b ∉ refs ∧ b ∉ replaced) ∧
        revisions.Pairwise (fun x y => ∀ b ∈ supersessions db.designRevisions p y.ref,
          b ∉ supersessions db.designRevisions p x.ref)) := by
  induction revisions with
  | nil =>
    intro replaced _
    exact ⟨fun _ => by simp, fun _ => ⟨replaced, rfl⟩⟩
  | cons rev rest ih =>
    intro replaced hstacked
    obtain ⟨hrev, hproject⟩ := hstacked rev List.mem_cons_self
    have hpin : rev.pin = (p, rev.ref) := Prod.ext hproject rfl
    have hrest : Stacked db.designRevisions p rest := fun r hr => hstacked r (List.mem_cons_of_mem rev hr)
    simp only [List.foldlM_cons, bind_ok, replaceRound_ok hgrown hrev hpin, List.forall_mem_cons, List.pairwise_cons]
    constructor
    · rintro ⟨out, _, ⟨hchosen, hclear, rfl⟩, hfold⟩
      obtain ⟨hchosens, hclears, hpairs⟩ := (ih _ hrest).mp ⟨out, hfold⟩
      refine ⟨⟨hchosen, hchosens⟩, ⟨hclear, fun r hr b hb => ?_⟩, fun r hr b hb => ?_, hpairs⟩
      · obtain ⟨hout, hnot⟩ := hclears r hr b hb
        exact ⟨hout, fun h => hnot (List.mem_append_left _ h)⟩
      · exact fun h => (hclears r hr b hb).2 (List.mem_append_right _ h)
    · rintro ⟨⟨hchosen, hchosens⟩, ⟨hclear, hclears⟩, hpair, hpairs⟩
      obtain ⟨out, hfold⟩ := (ih (replaced ++ supersessions db.designRevisions p rev.ref) hrest).mpr
        ⟨hchosens, fun r hr b hb => ⟨(hclears r hr b hb).1, fun h => by
          rcases List.mem_append.mp h with h | h
          · exact (hclears r hr b hb).2 h
          · exact hpair r hr b hb h⟩, hpairs⟩
      exact ⟨out, _, ⟨hchosen, hclear, rfl⟩, hfold⟩

/-- What a baseline asks of its call, beside the selection itself. -/
structure Addressed (db : DB) (p baselineId : String) (expected : Option String) (selected : List (String × Int))
    (refs : List DesignRef) : Prop where
  named : isKey baselineId ∧ ∀ e, expected = some e → isKey e
  count : 1 ≤ selected.length ∧ selected.length ≤ 1000
  parsed : selected.mapM (fun r => refOf r.1 r.2) = .ok refs
  one_each : (refs.map DesignRef.designId).Nodup
  project : ∃ q, projectOf db p = .ok q
  unused : ∀ b ∈ db.designBaselines, ¬(b.projectId = p ∧ b.baselineId = baselineId)
  head : designHead db p = expected
  known : Known db.designRevisions p refs

theorem key_ok {s label out : String} : key s label = .ok out ↔ isKey s ∧ out = s := by
  simp only [key, bind_ok, ensure_ok, pure_ok, exists_const, eq_comm (a := out)]

theorem revisions_ok (hgrown : Grown db.designRevisions) :
    refs.mapM (designRevision db p) = .ok revisions ↔
      revisions.map DesignRevision.ref = refs ∧ Stacked db.designRevisions p revisions := by
  induction refs generalizing revisions with
  | nil =>
    rw [List.mapM_nil, pure_ok, List.map_eq_nil_iff]
    constructor
    · rintro rfl
      exact ⟨rfl, fun r hr => absurd hr List.not_mem_nil⟩
    · exact fun h => h.1.symm
  | cons a refs ih =>
    simp only [List.mapM_cons, bind_ok, pure_ok]
    constructor
    · rintro ⟨row, hread, rest, hrest, rfl⟩
      obtain ⟨hrow, hpin⟩ := designRevision_ok hread
      obtain ⟨hrefs, hstacked⟩ := ih.mp hrest
      refine ⟨by rw [List.map_cons, hrefs, show row.ref = a from congrArg Prod.snd hpin], ?_⟩
      intro r hr
      rcases List.mem_cons.mp hr with rfl | hr
      · exact ⟨hrow, congrArg Prod.fst hpin⟩
      · exact hstacked r hr
    · rintro ⟨hrefs, hstacked⟩
      cases revisions with
      | nil => exact absurd hrefs.symm (List.cons_ne_nil a refs)
      | cons row rest =>
        rw [List.map_cons, List.cons.injEq] at hrefs
        obtain ⟨hrow, hproject⟩ := hstacked row List.mem_cons_self
        exact ⟨row, designRevision_of_mem hgrown hrow (Prod.ext hproject hrefs.1), rest,
          ih.mpr ⟨hrefs.2, fun r hr => hstacked r (List.mem_cons_of_mem row hr)⟩, rfl⟩

/-- The judged rows of a selection, as a property of the selection. -/
theorem rounds_accepted (hgrown : Grown db.designRevisions)
    (hstacked : Stacked db.designRevisions p revisions) (hnodup : (revisions.map DesignRevision.ref).Nodup)
    (hmem : ∀ a, a ∈ revisions.map DesignRevision.ref ↔ a ∈ refs) :
    (∃ out, revisions.foldlM (replaceRound db p refs) [] = .ok out) ↔ Accepted db.designRevisions p refs := by
  rw [replaceRounds_ok hgrown _ hstacked]
  have hrow (a : DesignRef) (ha : a ∈ refs) : ∃ rev ∈ revisions, rev.ref = a ∧ rev ∈ db.designRevisions ∧
      rev.pin = (p, a) := by
    obtain ⟨rev, hrev, rfl⟩ := List.mem_map.mp ((hmem a).mpr ha)
    exact ⟨rev, hrev, rfl, (hstacked rev hrev).1, Prod.ext (hstacked rev hrev).2 rfl⟩
  have hin (rev : DesignRevision) (hrev : rev ∈ revisions) : rev.ref ∈ refs ∧ rev ∈ db.designRevisions ∧
      rev.pin = (p, rev.ref) :=
    ⟨(hmem _).mp (List.mem_map_of_mem hrev), (hstacked rev hrev).1, Prod.ext (hstacked rev hrev).2 rfl⟩
  constructor
  · rintro ⟨hchosen, hclear, hpairs⟩
    have hone (a : DesignRef) (ha : a ∈ refs) :
        (∀ b, Points db.designRevisions p .dependsOn a b → b ∈ refs) ∧
        (∀ b, Points db.designRevisions p .references a b → b ∈ refs) ∧
        (Approved db.designRevisions p a → ∀ b, Points db.designRevisions p .dependsOn a b →
          Approved db.designRevisions p b) := by
      obtain ⟨rev, hrev, -, hstored, hpin⟩ := hrow a ha
      exact (chosen_iff hgrown hstored hpin).mp (hchosen rev hrev)
    refine ⟨?_, fun a ha => (hone a ha).2.1, fun a ha => (hone a ha).2.2, ?_, ?_⟩
    · intro a ha b hab
      induction hab with
      | refl => exact ha
      | tail _ hcb ih => exact (hone _ ih).1 _ hcb
    · intro a ha b hab
      obtain ⟨rev, hrev, rfl, -, -⟩ := hrow a ha
      exact (hclear rev hrev b ((mem_supersessions hgrown).mpr hab)).1
    · intro a ha a' ha' hne b hab hab'
      obtain ⟨rev, hrev, rfl, -, -⟩ := hrow a ha
      obtain ⟨rev', hrev', rfl, -, -⟩ := hrow a' ha'
      have hne' : rev ≠ rev' := fun h => hne (congrArg DesignRevision.ref h)
      have hsymm : Std.Symm (fun x y : DesignRevision => ∀ b ∈ supersessions db.designRevisions p y.ref,
          b ∉ supersessions db.designRevisions p x.ref) := ⟨fun x y h b hb hb' => h b hb' hb⟩
      exact hpairs.forall hrev hrev' hne' b ((mem_supersessions hgrown).mpr hab')
        ((mem_supersessions hgrown).mpr hab)
  · intro h
    refine ⟨?_, ?_, ?_⟩
    · intro rev hrev
      obtain ⟨ha, hstored, hpin⟩ := hin rev hrev
      exact (chosen_iff hgrown hstored hpin).mpr
        ⟨fun b hb => h.dependencies _ ha b (.single hb), h.references _ ha, h.approved _ ha⟩
    · intro rev hrev b hb
      exact ⟨h.superseded _ (hin rev hrev).1 b ((mem_supersessions hgrown).mp hb), List.not_mem_nil⟩
    · have hdistinct : revisions.Pairwise (fun x y => x.ref ≠ y.ref) := List.pairwise_map.mp hnodup
      refine hdistinct.imp_of_mem ?_
      intro x y hx hy hne b hb hb'
      exact h.replaced _ (hin x hx).1 _ (hin y hy).1 hne b ((mem_supersessions hgrown).mp hb')
        ((mem_supersessions hgrown).mp hb)

/-- A selection in the order of its design ids, as the manifest stores it. -/
def inOrder (refs : List DesignRef) : List DesignRef :=
  refs.insertionSort (fun a b => a.designId.toList ≤ b.designId.toList)

theorem inOrder_perm (refs : List DesignRef) : (inOrder refs).Perm refs := List.perm_insertionSort _ refs

theorem Accepted.congr {refs' : List DesignRef} (h : Accepted rows p refs) (hmem : ∀ a, a ∈ refs' ↔ a ∈ refs) :
    Accepted rows p refs' := by
  refine ⟨?_, ?_, ?_, ?_, ?_⟩
  · exact fun a ha b hab => (hmem b).mpr (h.dependencies a ((hmem a).mp ha) b hab)
  · exact fun a ha b hab => (hmem b).mpr (h.references a ((hmem a).mp ha) b hab)
  · exact fun a ha => h.approved a ((hmem a).mp ha)
  · exact fun a ha b hab hb => h.superseded a ((hmem a).mp ha) b hab ((hmem b).mp hb)
  · exact fun a ha a' ha' => h.replaced a ((hmem a).mp ha) a' ((hmem a').mp ha')

variable {actor baselineId : String} {expected : Option String} {selected : List (String × Int)}

theorem createBaseline_selects (hgrown : Grown db.designRevisions) {out : DesignBaseline}
    (h : createBaseline db p host actor baselineId selected expected = .ok (out, db')) :
    ∃ refs, Addressed db p baselineId expected selected refs ∧ Accepted db.designRevisions p refs ∧
      out.projectId = p ∧ out.selected.map Prod.fst = inOrder refs := by
  simp only [createBaseline, bind_ok, pure_ok, ensure_ok, key_ok, optionMapM_ok, Prod.mk.injEq] at h
  obtain ⟨_, ⟨hnamed, -⟩, _, hexpected, _, hcount, refs, hparsed, _, hone, q, hproject, _, hunused, _, hhead, revisions,
    hrevisions, replaced, hrounds, rfl, -⟩ := h
  obtain ⟨hrefs, hstacked⟩ := (revisions_ok hgrown).mp hrevisions
  have hmem (a : DesignRef) : a ∈ revisions.map DesignRevision.ref ↔ a ∈ inOrder refs := by
    rw [hrefs]
    rfl
  have hdesigns : ((inOrder refs).map DesignRef.designId).Nodup := hone
  have hnodup : (revisions.map DesignRevision.ref).Nodup := by
    rw [hrefs]
    exact hdesigns.of_map
  have haccepted : Accepted db.designRevisions p (inOrder refs) :=
    (rounds_accepted hgrown hstacked hnodup hmem).mp ⟨replaced, hrounds⟩
  refine ⟨refs, ⟨⟨hnamed, ?_⟩, hcount, hparsed, ?_, ⟨q, hproject⟩, ?_, hhead, ?_⟩,
    haccepted.congr (fun a => (inOrder_perm refs).mem_iff.symm), rfl, ?_⟩
  · intro e he
    rcases hexpected with ⟨hnone, -⟩ | ⟨c, b, hsome, ⟨hkey, -⟩, -⟩
    · rw [hnone] at he
      cases he
    · rw [hsome] at he
      exact Option.some.inj he ▸ hkey
  · exact ((inOrder_perm refs).map DesignRef.designId).nodup_iff.mp hdesigns
  · intro b hb hsame
    apply hunused
    exact List.any_eq_true.mpr ⟨b, hb, decide_eq_true hsame⟩
  · intro a ha
    obtain ⟨rev, hrev, rfl⟩ := List.mem_map.mp ((hmem a).mpr ((inOrder_perm refs).mem_iff.mpr ha))
    exact List.mem_map.mpr ⟨rev, (hstacked rev hrev).1, Prod.ext (hstacked rev hrev).2 rfl⟩
  · rw [List.map_map]
    exact hrefs

/-- A baseline is accepted exactly where its call is in order and its selection is
one a baseline may pin. -/
theorem createBaseline_accepts (hgrown : Grown db.designRevisions) :
    (∃ out, createBaseline db p host actor baselineId selected expected = .ok out) ↔
      ∃ refs, Addressed db p baselineId expected selected refs ∧ Accepted db.designRevisions p refs := by
  constructor
  · rintro ⟨⟨out, db'⟩, h⟩
    obtain ⟨refs, haddressed, haccepted, -⟩ := createBaseline_selects hgrown h
    exact ⟨refs, haddressed, haccepted⟩
  · rintro ⟨refs, haddressed, haccepted⟩
    have hordered (a : DesignRef) : a ∈ inOrder refs ↔ a ∈ refs := (inOrder_perm refs).mem_iff
    obtain ⟨revisions, hrefs, hstacked⟩ : ∃ revisions : List DesignRevision,
        revisions.map DesignRevision.ref = inOrder refs ∧ Stacked db.designRevisions p revisions := by
      have hall : ∀ l : List DesignRef, (∀ a ∈ l, a ∈ refs) → ∃ revisions : List DesignRevision,
          revisions.map DesignRevision.ref = l ∧ Stacked db.designRevisions p revisions := by
        intro l
        induction l with
        | nil => exact fun _ => ⟨[], rfl, fun r hr => absurd hr List.not_mem_nil⟩
        | cons a l ih =>
          intro hl
          obtain ⟨revisions, hrefs, hstacked⟩ := ih (fun b hb => hl b (List.mem_cons_of_mem a hb))
          obtain ⟨row, hrow, hpin⟩ := List.mem_map.mp (haddressed.known a (hl a List.mem_cons_self))
          refine ⟨row :: revisions, by rw [List.map_cons, hrefs, show row.ref = a from congrArg Prod.snd hpin], ?_⟩
          intro r hr
          rcases List.mem_cons.mp hr with rfl | hr
          · exact ⟨hrow, congrArg Prod.fst hpin⟩
          · exact hstacked r hr
      exact hall (inOrder refs) (fun a ha => (hordered a).mp ha)
    have hone : ((inOrder refs).map DesignRef.designId).Nodup :=
      ((inOrder_perm refs).map DesignRef.designId).nodup_iff.mpr haddressed.one_each
    have hnodup : (revisions.map DesignRevision.ref).Nodup := by
      rw [hrefs]
      exact hone.of_map
    have hmem (a : DesignRef) : a ∈ revisions.map DesignRevision.ref ↔ a ∈ inOrder refs := by rw [hrefs]
    obtain ⟨replaced, hrounds⟩ := (rounds_accepted hgrown hstacked hnodup hmem).mpr (haccepted.congr hordered)
    have hread := (revisions_ok hgrown).mpr ⟨hrefs, hstacked⟩
    obtain ⟨q, hproject⟩ := haddressed.project
    have hfresh : ¬(db.designBaselines.any (fun b => decide (b.projectId = p ∧ b.baselineId = baselineId))) = true := by
      intro hany
      obtain ⟨b, hb, hsame⟩ := List.any_eq_true.mp hany
      exact haddressed.unused b hb (of_decide_eq_true hsame)
    have hexpected : ∃ out, expected.mapM (fun b => key b "expected baseline id") = .ok out := by
      simp only [optionMapM_ok, key_ok]
      cases he : expected with
      | none => exact ⟨none, .inl ⟨rfl, rfl⟩⟩
      | some e => exact ⟨some e, .inr ⟨e, e, rfl, ⟨haddressed.named.2 e he, rfl⟩, rfl⟩⟩
    obtain ⟨e, hexpected⟩ := hexpected
    simp only [createBaseline, bind_ok, pure_ok, ensure_ok, key_ok]
    exact ⟨_, _, ⟨haddressed.named.1, rfl⟩, e, hexpected, (), haddressed.count, refs, haddressed.parsed, (), hone, q,
      hproject, (), hfresh, (), haddressed.head, revisions, hread, replaced, hrounds, rfl⟩

/-- A new row takes the next revision of its item, and its targets are stored. -/
theorem createRevision_grows {createdAt : String} {spec : DesignSpec} {actor : String}
    (hgrown : Grown db.designRevisions)
    (h : createRevision db p host actor createdAt spec = .ok (row, db')) :
    row.pin ∉ db.designRevisions.map DesignRevision.pin ∧ Grown (db.designRevisions ++ [row]) := by
  simp only [createRevision, bind_ok, pure_ok, ensure_ok, forM_ok, Prod.mk.injEq] at h
  obtain ⟨content, -, _, -, _, -, _, hrelations, _, -, rfl, -⟩ := h
  have hfresh : (⟨p, spec.designId, latestDesign db p spec.designId + 1, content, host.digest content.toJson, actor,
      createdAt⟩ : DesignRevision).pin ∉ db.designRevisions.map DesignRevision.pin := by
    intro hin
    obtain ⟨old, hold, hpin⟩ := List.mem_map.mp hin
    simp only [DesignRevision.pin, DesignRevision.ref, Prod.mk.injEq, DesignRef.mk.injEq] at hpin
    have hlatest : old.revision ≤ latestDesign db p spec.designId := by
      refine le_foldl_max (.inl (List.mem_map_of_mem (List.mem_filter.mpr ⟨hold, ?_⟩)))
      exact decide_eq_true ⟨hpin.1, hpin.2.1⟩
    omega
  refine ⟨hfresh, .snoc hgrown hfresh ?_⟩
  intro rel hrel
  obtain ⟨_, -, target, hread, -⟩ := hrelations rel hrel
  obtain ⟨hmem, hpin⟩ := designRevision_ok hread
  exact List.mem_map.mpr ⟨target, hmem, hpin⟩

/-- What a frozen binding snapshot holds: the bound items with exactly what they
depend on, every one of them pinned by the named baseline. -/
structure Frozen (rows : List DesignRevision) (p : String) (snapshot : Json) (baseline : DesignBaseline)
    (bound : List PreparedBinding) (found : List DesignRevision) : Prop where
  snapshot : snapshot = bindingJson baseline bound found
  project : baseline.projectId = p
  stored : Stacked rows p (bound.map PreparedBinding.design ++ found)
  exact_refs : ∀ b ∈ bound, b.design.ref = b.ref
  closure : ∀ r, r ∈ bound.map PreparedBinding.ref ++ found.map DesignRevision.ref ↔
    ∃ a ∈ bound.map PreparedBinding.ref, ReflTransGen (Points rows p .dependsOn) a r
  selected : ∀ r ∈ bound.map PreparedBinding.ref ++ found.map DesignRevision.ref,
    r ∈ baseline.selected.map Prod.fst
  approved : ∀ b ∈ bound, b.purpose ≠ "context" → ∀ r, ReflTransGen (Points rows p .dependsOn) b.ref r →
    Approved rows p r

variable {snapshot : Json} {baseline : DesignBaseline} {bound : List PreparedBinding} {found : List DesignRevision}

theorem Frozen.known (h : Frozen rows p snapshot baseline bound found) {r : DesignRef}
    (hr : r ∈ bound.map PreparedBinding.ref ++ found.map DesignRevision.ref) :
    (p, r) ∈ rows.map DesignRevision.pin := by
  have hstored (d : DesignRevision) (hd : d ∈ bound.map PreparedBinding.design ++ found) (hdr : d.ref = r) :
      (p, r) ∈ rows.map DesignRevision.pin := by
    obtain ⟨hrow, hproject⟩ := h.stored d hd
    exact List.mem_map.mpr ⟨d, hrow, Prod.ext hproject hdr⟩
  rcases List.mem_append.mp hr with hr | hr
  · obtain ⟨b, hb, rfl⟩ := List.mem_map.mp hr
    exact hstored b.design (List.mem_append_left _ (List.mem_map_of_mem hb)) (h.exact_refs b hb)
  · obtain ⟨d, hd, hdr⟩ := List.mem_map.mp hr
    exact hstored d (List.mem_append_right _ hd) hdr

theorem Frozen.append (h : Frozen rows p snapshot baseline bound found) (hgrown : Grown rows)
    (hfresh : row.pin ∉ rows.map DesignRevision.pin) : Frozen (rows ++ [row]) p snapshot baseline bound found := by
  have hold (a r : DesignRef) (ha : a ∈ bound.map PreparedBinding.ref)
      (hr : ReflTransGen (Points (rows ++ [row]) p .dependsOn) a r) :
      ReflTransGen (Points rows p .dependsOn) a r ∧ (p, r) ∈ rows.map DesignRevision.pin :=
    reach_append hgrown hfresh (h.known (List.mem_append_left _ ha)) hr
  refine ⟨h.snapshot, h.project, fun d hd => ?_, h.exact_refs, fun r => ?_, h.selected, ?_⟩
  · exact ⟨List.mem_append_left _ (h.stored d hd).1, (h.stored d hd).2⟩
  · rw [h.closure r]
    constructor
    · rintro ⟨a, ha, hr⟩
      have hle : ∀ x y, Points rows p .dependsOn x y → Points (rows ++ [row]) p .dependsOn x y :=
        fun x y hxy => (points_append hfresh hxy.source).mpr hxy
      exact ⟨a, ha, ReflTransGen.mono hle a r hr⟩
    · rintro ⟨a, ha, hr⟩
      exact ⟨a, ha, (hold a r ha hr).1⟩
  · intro b hb hpurpose r hr
    obtain ⟨hr, hknown⟩ := hold b.ref r (List.mem_map_of_mem hb) hr
    exact (approved_append hfresh hknown).mpr (h.approved b hb hpurpose r hr)

theorem prepareBinding_ok {selected : List (DesignRef × String)} {spec : BindingSpec} {b : PreparedBinding}
    (h : prepareBinding db p selected spec = .ok b) :
    b.ref ∈ selected.map Prod.fst ∧ designRevision db p b.ref = .ok b.design ∧
      (b.purpose ≠ "context" → b.design.content.lifecycleStatus = .approved) := by
  simp only [prepareBinding, bind_ok, pure_ok, ensure_ok] at h
  obtain ⟨r, -, _, -, _, hselected, revision, hread, coverage, -, _, -, _, hstatus, rfl⟩ := h
  exact ⟨hselected, hread, hstatus.resolve_left⟩

theorem designBaseline_ok {baselineId : String} (h : designBaseline db p baselineId = .ok baseline) :
    baseline ∈ db.designBaselines ∧ baseline.projectId = p := by
  simp only [designBaseline, bind_ok, orElse_ok] at h
  obtain ⟨b, -, hfind⟩ := h
  have hsame := List.find?_some hfind
  simp only [decide_eq_true_eq] at hsame
  exact ⟨List.mem_of_find?_eq_some hfind, hsame.1⟩

/-- The stored design facts. -/
structure Designs (db : DB) : Prop where
  grown : Grown db.designRevisions
  known : ∀ b ∈ db.designBaselines, Known db.designRevisions b.projectId (b.selected.map Prod.fst)
  accepted : ∀ b ∈ db.designBaselines, Accepted db.designRevisions b.projectId (b.selected.map Prod.fst)
  frozen : ∀ row ∈ db.designBindings, ∃ baseline ∈ db.designBaselines, ∃ bound found,
    Frozen db.designRevisions row.projectId row.snapshot baseline bound found

/-- A binding freezes what its call selected from the baseline it named. -/
theorem bindNode_freezes {actor nodeKey baselineId reason : String} {revision : Int} {bindings : List BindingSpec}
    {c : NodeChange} (h : bindNode db p host actor nodeKey revision baselineId bindings reason = .ok (c, db'))
    (hdesigns : Designs db) :
    ∃ db₁ binding e, revise host db p nodeKey revision reason none none none = .ok (c, db₁) ∧
      db' = { db₁ with designBindings := db₁.designBindings ++ [binding], events := db₁.events ++ [e] } ∧
      ∃ baseline ∈ db.designBaselines, ∃ bound found,
        Frozen db.designRevisions binding.projectId binding.snapshot baseline bound found := by
  simp only [bindNode, bind_ok, pure_ok, Prod.mk.injEq] at h
  obtain ⟨_, -, _, -, baseline, hbaseline, prepared, hprepared, _, -, found, hfound, ⟨c', db₁⟩, hrevise, _, -, rfl,
    rfl⟩ := h
  obtain ⟨hstored, hproject⟩ := designBaseline_ok hbaseline
  refine ⟨db₁, _, _, hrevise, rfl, baseline, hstored, sortCanonical PreparedBinding.toJson prepared, found, ?_⟩
  change Frozen db.designRevisions p (bindingJson baseline (sortCanonical PreparedBinding.toJson prepared) found)
    baseline (sortCanonical PreparedBinding.toJson prepared) found
  have hperm : (sortCanonical PreparedBinding.toJson prepared).Perm prepared := List.perm_insertionSort _ prepared
  generalize sortCanonical PreparedBinding.toJson prepared = bound at hfound hperm ⊢
  have hbound (b : PreparedBinding) (hb : b ∈ bound) : b.ref ∈ baseline.selected.map Prod.fst ∧
      (b.design ∈ db.designRevisions ∧ b.design.pin = (p, b.ref)) ∧
      (b.purpose ≠ "context" → b.design.content.lifecycleStatus = .approved) := by
    obtain ⟨spec, -, hspec⟩ := mapM_mem hprepared (hperm.mem_iff.mp hb)
    obtain ⟨hin, hread, hstatus⟩ := prepareBinding_ok hspec
    exact ⟨hin, designRevision_ok hread, hstatus⟩
  have hrefs : bound.map PreparedBinding.ref = (bound.map PreparedBinding.design).map DesignRevision.ref := by
    rw [List.map_map]
    exact List.map_congr_left (fun b hb => (congrArg Prod.snd (hbound b hb).2.1.2).symm)
  have hstacked : Stacked db.designRevisions p (bound.map PreparedBinding.design) := by
    intro d hd
    obtain ⟨b, hb, rfl⟩ := List.mem_map.mp hd
    exact ⟨(hbound b hb).2.1.1, congrArg Prod.fst (hbound b hb).2.1.2⟩
  obtain ⟨reached, hreached, hreachedStacked, hclosure⟩ := designDependencies_reach hdesigns.grown hstacked
  rw [List.length_map, ← hrefs, hfound] at hreached
  obtain rfl := Except.ok.inj hreached
  rw [← hrefs] at hclosure
  have haccepted : Accepted db.designRevisions p (baseline.selected.map Prod.fst) :=
    hproject ▸ hdesigns.accepted baseline hstored
  refine ⟨rfl, hproject, ?_, fun b hb => congrArg Prod.snd (hbound b hb).2.1.2, hclosure, ?_, ?_⟩
  · intro d hd
    rcases List.mem_append.mp hd with hd | hd
    · exact hstacked d hd
    · exact hreachedStacked d hd
  · intro r hr
    obtain ⟨a, ha, har⟩ := (hclosure r).mp hr
    obtain ⟨b, hb, rfl⟩ := List.mem_map.mp ha
    exact haccepted.dependencies _ (hbound b hb).1 r har
  · intro b hb hpurpose r hr
    obtain ⟨hin, ⟨hrow, hpin⟩, hstatus⟩ := hbound b hb
    exact haccepted.approved_reach hin ⟨b.design, hrow, hpin, hstatus hpurpose⟩ hr

theorem Designs.of_eq (h : Designs db) (heq : db'.design = db.design) : Designs db' := by
  have hrows : db'.designRevisions = db.designRevisions := congrArg Prod.fst heq
  have hbaselines : db'.designBaselines = db.designBaselines := congrArg (fun d => d.2.1) heq
  have hbindings : db'.designBindings = db.designBindings := congrArg (fun d => d.2.2) heq
  refine ⟨?_, ?_, ?_, ?_⟩
  · rw [hrows]
    exact h.grown
  · rw [hrows, hbaselines]
    exact h.known
  · rw [hrows, hbaselines]
    exact h.accepted
  · rw [hrows, hbaselines, hbindings]
    exact h.frozen

theorem createRevision_designs {actor createdAt : String} {spec : DesignSpec} (hdesigns : Designs db)
    (h : createRevision db p host actor createdAt spec = .ok (row, db')) : Designs db' := by
  obtain ⟨hfresh, hgrown⟩ := createRevision_grows hdesigns.grown h
  obtain ⟨e, rfl⟩ := createRevision_ok h
  refine ⟨hgrown, ?_, ?_, ?_⟩
  · intro b hb a ha
    rw [List.map_append]
    exact List.mem_append_left _ (hdesigns.known b hb a ha)
  · exact fun b hb => (hdesigns.accepted b hb).append hdesigns.grown hfresh (hdesigns.known b hb)
  · intro binding hbinding
    obtain ⟨baseline, hbaseline, bound, found, hfrozen⟩ := hdesigns.frozen binding hbinding
    exact ⟨baseline, hbaseline, bound, found, hfrozen.append hdesigns.grown hfresh⟩

theorem createBaseline_designs {out : DesignBaseline} (hdesigns : Designs db)
    (h : createBaseline db p host actor baselineId selected expected = .ok (out, db')) : Designs db' := by
  obtain ⟨refs, haddressed, haccepted, rfl, hselected⟩ := createBaseline_selects hdesigns.grown h
  obtain ⟨heads, e, rfl⟩ := createBaseline_ok h
  have hmem (a : DesignRef) : a ∈ out.selected.map Prod.fst ↔ a ∈ refs := by
    rw [hselected]
    exact (inOrder_perm refs).mem_iff
  refine ⟨hdesigns.grown, ?_, ?_, ?_⟩
  · intro b hb a ha
    rcases List.mem_append.mp hb with hb | hb
    · exact hdesigns.known b hb a ha
    · rw [List.mem_singleton.mp hb] at ha ⊢
      exact haddressed.known a ((hmem a).mp ha)
  · intro b hb
    rcases List.mem_append.mp hb with hb | hb
    · exact hdesigns.accepted b hb
    · rw [List.mem_singleton.mp hb]
      exact haccepted.congr hmem
  · intro binding hbinding
    obtain ⟨baseline, hbaseline, hfrozen⟩ := hdesigns.frozen binding hbinding
    exact ⟨baseline, List.mem_append_left _ hbaseline, hfrozen⟩

theorem bindNode_designs {nodeKey reason : String} {revision : Int} {bindings : List BindingSpec} {c : NodeChange}
    (hdesigns : Designs db)
    (h : bindNode db p host actor nodeKey revision baselineId bindings reason = .ok (c, db')) : Designs db' := by
  obtain ⟨db₁, binding, e, hrevise, rfl, baseline, hbaseline, hfrozen⟩ := bindNode_freezes h hdesigns
  have hsame : db₁.design = db.design := (revise_leaves hrevise).design (by simp)
  have hmoved : Designs db₁ := hdesigns.of_eq hsame
  have hrows : db₁.designRevisions = db.designRevisions := congrArg Prod.fst hsame
  have hbaselines : db₁.designBaselines = db.designBaselines := congrArg (fun d => d.2.1) hsame
  refine ⟨hmoved.grown, hmoved.known, hmoved.accepted, ?_⟩
  intro row hrow
  rcases List.mem_append.mp hrow with hrow | hrow
  · exact hmoved.frozen row hrow
  · rw [List.mem_singleton.mp hrow]
    change ∃ baseline ∈ db₁.designBaselines, ∃ bound found,
      Frozen db₁.designRevisions binding.projectId binding.snapshot baseline bound found
    rw [hrows, hbaselines]
    exact ⟨baseline, hbaseline, hfrozen⟩

theorem Request.designs {r : Request} {reply : Reply} (hdesigns : Designs db)
    (h : r.run host db = .ok (reply, db')) : Designs db' := by
  by_cases hwrites : Part.design ∈ r.writes
  · cases r with
    | createRevision q actor createdAt spec =>
      obtain ⟨_, h⟩ := answer_ok h
      exact createRevision_designs hdesigns h
    | createBaseline q actor baselineId selected expected =>
      obtain ⟨_, h⟩ := answer_ok h
      exact createBaseline_designs hdesigns h
    | bindNode q actor k revision baselineId bindings reason =>
      obtain ⟨_, h⟩ := answer_ok h
      exact bindNode_designs hdesigns h
    | _ => simp [Request.writes] at hwrites
  · exact hdesigns.of_eq ((Request.leaves h).design hwrites)

theorem next_designs (s : Sys) (op : Op) (hdesigns : Designs s.db) : Designs (next host s op).db := by
  rcases next_cases host s op with he | ⟨r, reply, -, h⟩ | ⟨call, now, reply, -, h⟩
  · rw [he]
    exact hdesigns
  · exact Request.designs hdesigns h
  · refine hdesigns.of_eq ((Call.leaves h).design ?_)
    cases call <;> simp [Call.writes]

theorem run_designs (s : Sys) (ops : List Op) (hdesigns : Designs s.db) : Designs (run (next host) s ops).db := by
  induction ops generalizing s with
  | nil => exact hdesigns
  | cons op ops ih => exact ih _ (next_designs s op hdesigns)

theorem Designs.empty : Designs DB.empty where
  grown := .nil
  known := fun _ hb => absurd hb List.not_mem_nil
  accepted := fun _ hb => absurd hb List.not_mem_nil
  frozen := fun _ hb => absurd hb List.not_mem_nil

/-- In every state that a run of the store reaches, no design revision depends on
itself; a baseline is accepted exactly where its call is in order and its
selection may be pinned; every stored baseline still pins such a selection; and
every frozen binding holds what its bound items depend on, all of it selected
and, under an approved item, all of it approved. -/
theorem designs_closed (host : Host) (ops : List Op) :
    let db := (run (next host) Sys.init ops).db
    (∀ p, Acyclic (Points db.designRevisions p .dependsOn)) ∧
    (∀ p actor baselineId selected expected,
      (∃ out, createBaseline db p host actor baselineId selected expected = .ok out) ↔
        ∃ refs, Addressed db p baselineId expected selected refs ∧ Accepted db.designRevisions p refs) ∧
    (∀ b ∈ db.designBaselines, Accepted db.designRevisions b.projectId (b.selected.map Prod.fst)) ∧
    ∀ row ∈ db.designBindings, ∃ baseline ∈ db.designBaselines, ∃ bound found,
      Frozen db.designRevisions row.projectId row.snapshot baseline bound found := by
  intro db
  have hdesigns : Designs db := run_designs Sys.init ops Designs.empty
  refine ⟨fun p => hdesigns.grown.acyclic p .dependsOn, ?_, hdesigns.accepted, hdesigns.frozen⟩
  exact fun p actor baselineId selected expected => createBaseline_accepts hdesigns.grown

/-- A draft rule that only refers to a glossary. -/
def glossaryOps : List Op :=
  let spec := fun designId relations => (⟨designId, 0, "Title", "Statement", "Rationale", [], [("area", "core")],
    "draft", "rule", relations⟩ : DesignSpec)
  [.request (.createProject "p" "Project" none),
    .request (.createRevision "p" "ann" "t1" (spec "glossary" [])),
    .request (.createRevision "p" "ann" "t2" (spec "rule" [⟨"references", "glossary", 1, "its terms"⟩]))]

/-- The rule alone is closed under `depends_on` and supersedes nothing, and is no
baseline. -/
theorem references_refused : ¬∀ (host : Host) (ops : List Op) (p actor baselineId : String) (expected : Option String)
    (selected : List (String × Int)) (refs : List DesignRef),
    let db := (run (next host) Sys.init ops).db
    Addressed db p baselineId expected selected refs →
      ((∃ out, createBaseline db p host actor baselineId selected expected = .ok out) ↔
        (∀ a ∈ refs, ∀ b, ReflTransGen (Points db.designRevisions p .dependsOn) a b → b ∈ refs) ∧
          ∀ a ∈ refs, ∀ b ∈ refs, ¬Points db.designRevisions p .supersedes a b) := by
  intro h
  have hrelations : ∀ row ∈ (run (next Sample.machine) Sys.init glossaryOps).db.designRevisions,
      ∀ rel ∈ row.content.relations, rel.type = .references := by decide
  have hnone (type : RelationType) (htype : type ≠ .references) (a b : DesignRef) :
      ¬Points (run (next Sample.machine) Sys.init glossaryOps).db.designRevisions "p" type a b := by
    rintro ⟨row, hrow, -, rel, hrel, rfl, -⟩
    exact htype (hrelations row hrow rel hrel)
  have haddressed : Addressed (run (next Sample.machine) Sys.init glossaryOps).db "p" "b1" none [("rule", 1)]
      [⟨"rule", 1⟩] := by
    refine ⟨⟨by decide, fun _ he => by cases he⟩, by decide, rfl, by decide, ⟨_, rfl⟩, by decide, by decide, ?_⟩
    unfold Known
    decide
  obtain ⟨out, hout⟩ := (h Sample.machine glossaryOps "p" "ann" "b1" none [("rule", 1)] [⟨"rule", 1⟩]
    haddressed).mpr (by
    refine ⟨fun a ha b hab => ?_, fun a _ b _ => hnone _ (by decide) a b⟩
    rcases ReflTransGen.cases_head hab with rfl | ⟨c, hac, -⟩
    · exact ha
    · exact absurd hac (hnone _ (by decide) a c))
  have hrefused : (match createBaseline (run (next Sample.machine) Sys.init glossaryOps).db
      "p" Sample.machine "ann" "b1"
      [("rule", 1)] none with
      | .ok _ => true
      | .error _ => false) = false := by decide
  rw [hout] at hrefused
  cases hrefused

end AItelier.State
