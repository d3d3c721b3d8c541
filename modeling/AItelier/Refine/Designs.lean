import AItelier.Lib.Acyclic
import AItelier.Lib.Search
import AItelier.Refine.Parts

namespace AItelier.State

open AItelier.Lib Relation

variable {db : DB} {rows : List DesignRevision} {p : String} {a b : DesignRef} {type : RelationType}

def DesignRevision.pin (r : DesignRevision) : String × DesignRef := (r.projectId, r.ref)

/-- Design rows in the order they came: each under a pin of its own, related only to
rows before it. -/
inductive Grown : List DesignRevision → Prop
  | nil : Grown []
  | snoc {rows : List DesignRevision} {row : DesignRevision} (before : Grown rows)
      (fresh : row.pin ∉ rows.map DesignRevision.pin)
      (known : ∀ rel ∈ row.content.relations, (row.projectId, rel.target) ∈ rows.map DesignRevision.pin) :
      Grown (rows ++ [row])

/-- A relation that the exact revision `a` declares. -/
def Points (rows : List DesignRevision) (p : String) (type : RelationType) (a b : DesignRef) : Prop :=
  ∃ row ∈ rows, row.pin = (p, a) ∧ ∃ rel ∈ row.content.relations, rel.type = type ∧ rel.target = b

/-- The exact revision `a` is an approved one. -/
def Approved (rows : List DesignRevision) (p : String) (a : DesignRef) : Prop :=
  ∃ row ∈ rows, row.pin = (p, a) ∧ row.content.lifecycleStatus = .approved

theorem Grown.nodup (h : Grown rows) : (rows.map DesignRevision.pin).Nodup := by
  induction h with
  | nil => exact List.nodup_nil
  | snoc _ fresh _ ih =>
    rw [List.map_append, List.map_singleton, List.nodup_append]
    refine ⟨ih, List.nodup_singleton _, ?_⟩
    intro x hx y hy hxy
    rw [List.mem_singleton.mp hy] at hxy
    exact fresh (hxy ▸ hx)

variable {rel : DesignRelation}

theorem Grown.known (h : Grown rows) {row : DesignRevision} (hrow : row ∈ rows)
    (hrel : rel ∈ row.content.relations) : (row.projectId, rel.target) ∈ rows.map DesignRevision.pin := by
  induction h with
  | nil => exact absurd hrow List.not_mem_nil
  | snoc _ _ known ih =>
    rw [List.map_append]
    rcases List.mem_append.mp hrow with hrow | hrow
    · exact List.mem_append_left _ (ih hrow)
    · rw [List.mem_singleton.mp hrow] at hrel ⊢
      exact List.mem_append_left _ (known rel hrel)

theorem Grown.unique (h : Grown rows) {row row' : DesignRevision} (hrow : row ∈ rows) (hrow' : row' ∈ rows)
    (hpin : row.pin = row'.pin) : row = row' :=
  List.inj_on_of_nodup_map h.nodup hrow hrow' hpin

theorem Points.target (h : Grown rows) (hab : Points rows p type a b) : (p, b) ∈ rows.map DesignRevision.pin := by
  obtain ⟨row, hrow, hpin, rel, hrel, -, rfl⟩ := hab
  have hp : row.projectId = p := congrArg Prod.fst hpin
  exact hp ▸ h.known hrow hrel

theorem Points.source (hab : Points rows p type a b) : (p, a) ∈ rows.map DesignRevision.pin := by
  obtain ⟨row, hrow, hpin, -⟩ := hab
  exact List.mem_map.mpr ⟨row, hrow, hpin⟩

variable {row : DesignRevision}

theorem points_append (hfresh : row.pin ∉ rows.map DesignRevision.pin) (ha : (p, a) ∈ rows.map DesignRevision.pin) :
    Points (rows ++ [row]) p type a b ↔ Points rows p type a b := by
  constructor
  · rintro ⟨r, hr, hpin, hrel⟩
    rcases List.mem_append.mp hr with hr | hr
    · exact ⟨r, hr, hpin, hrel⟩
    · rw [List.mem_singleton.mp hr] at hpin
      exact absurd (hpin ▸ ha) hfresh
  · rintro ⟨r, hr, hpin, hrel⟩
    exact ⟨r, List.mem_append_left _ hr, hpin, hrel⟩

theorem approved_append (hfresh : row.pin ∉ rows.map DesignRevision.pin) (ha : (p, a) ∈ rows.map DesignRevision.pin) :
    Approved (rows ++ [row]) p a ↔ Approved rows p a := by
  constructor
  · rintro ⟨r, hr, hpin, hstatus⟩
    rcases List.mem_append.mp hr with hr | hr
    · exact ⟨r, hr, hpin, hstatus⟩
    · rw [List.mem_singleton.mp hr] at hpin
      exact absurd (hpin ▸ ha) hfresh
  · rintro ⟨r, hr, hpin, hstatus⟩
    exact ⟨r, List.mem_append_left _ hr, hpin, hstatus⟩

theorem reach_append (h : Grown rows) (hfresh : row.pin ∉ rows.map DesignRevision.pin)
    (ha : (p, a) ∈ rows.map DesignRevision.pin) (hr : ReflTransGen (Points (rows ++ [row]) p type) a b) :
    ReflTransGen (Points rows p type) a b ∧ (p, b) ∈ rows.map DesignRevision.pin := by
  induction hr with
  | refl => exact ⟨.refl, ha⟩
  | tail _ hbc ih =>
    have hold := (points_append hfresh ih.2).mp hbc
    exact ⟨ih.1.tail hold, hold.target h⟩

theorem transGen_append (h : Grown rows) (hfresh : row.pin ∉ rows.map DesignRevision.pin)
    (ha : (p, a) ∈ rows.map DesignRevision.pin) :
    TransGen (Points (rows ++ [row]) p type) a b ↔ TransGen (Points rows p type) a b := by
  constructor
  · intro hr
    obtain ⟨c, hac, hcb⟩ := TransGen.head'_iff.mp hr
    have hold := (points_append hfresh ha).mp hac
    exact TransGen.head' hold (reach_append h hfresh (hold.target h) hcb).1
  · intro hr
    have hle : ∀ x y, Points rows p type x y → Points (rows ++ [row]) p type x y :=
      fun x y hxy => (points_append hfresh hxy.source).mpr hxy
    exact TransGen.mono hle a b hr

/-- The place of a row in the order bounds every relation. -/
theorem Grown.rank (h : Grown rows) (p : String) :
    ∃ rank : DesignRef → Nat, (∀ r, rank r ≤ rows.length) ∧
      ∀ type a b, Points rows p type a b → rank b < rank a := by
  induction h with
  | nil => exact ⟨fun _ => 0, fun _ => Nat.le_refl 0, fun _ _ _ hab => by simp [Points] at hab⟩
  | @snoc rows row before fresh known ih =>
    obtain ⟨rank, hbound, hrank⟩ := ih
    have hother (r : DesignRef) (hr : (p, r) ∈ rows.map DesignRevision.pin) : ¬(p, r) = row.pin :=
      fun heq => fresh (heq ▸ hr)
    refine ⟨fun r => if (p, r) = row.pin then rows.length + 1 else rank r, ?_, ?_⟩
    · intro r
      rw [List.length_append, List.length_singleton]
      dsimp only
      split
      · exact Nat.le_refl _
      · exact Nat.le_succ_of_le (hbound r)
    · rintro type a b ⟨r, hr, hpin, rel, hrel, htype, rfl⟩
      dsimp only
      rcases List.mem_append.mp hr with hr | hr
      · have hab : Points rows p type a rel.target := ⟨r, hr, hpin, rel, hrel, htype, rfl⟩
        rw [if_neg (hother _ hab.source), if_neg (hother _ (hab.target before))]
        exact hrank type a _ hab
      · rw [List.mem_singleton.mp hr] at hpin hrel
        have hp : row.projectId = p := congrArg Prod.fst hpin
        rw [if_pos hpin.symm, if_neg (hother _ (hp ▸ known rel hrel))]
        exact Nat.lt_succ_of_le (hbound _)

/-- No exact revision reaches itself, whatever the relation. -/
theorem Grown.acyclic (h : Grown rows) (p : String) (type : RelationType) : Acyclic (Points rows p type) := by
  obtain ⟨rank, -, hrank⟩ := h.rank p
  have hdown : ∀ a b, TransGen (Points rows p type) a b → rank b < rank a := by
    intro a b hab
    induction hab with
    | single hab => exact hrank type _ _ hab
    | tail _ hbc ih => exact (hrank type _ _ hbc).trans ih
  exact fun a ha => absurd (hdown a a ha) (Nat.lt_irrefl _)

theorem designRevision_ok {row : DesignRevision} (h : designRevision db p a = .ok row) :
    row ∈ db.designRevisions ∧ row.pin = (p, a) := by
  unfold designRevision at h
  rw [orElse_ok] at h
  have hpin := List.find?_some h
  simp only [decide_eq_true_eq] at hpin
  exact ⟨List.mem_of_find?_eq_some h, Prod.ext hpin.1 hpin.2⟩

theorem designRevision_of_mem (h : Grown db.designRevisions) {row : DesignRevision} (hrow : row ∈ db.designRevisions)
    (hpin : row.pin = (p, a)) : designRevision db p a = .ok row := by
  cases hread : designRevision db p a with
  | ok other =>
    obtain ⟨hother, hsame⟩ := designRevision_ok hread
    rw [h.unique hrow hother (hpin.trans hsame.symm)]
  | error e =>
    unfold designRevision at hread
    rw [orElse_error] at hread
    have hnone := List.find?_eq_none.mp hread.1 row hrow
    simp only [decide_eq_true_eq] at hnone
    exact absurd ⟨congrArg Prod.fst hpin, congrArg Prod.snd hpin⟩ hnone

theorem designRevision_known (h : Grown db.designRevisions) (ha : (p, a) ∈ db.designRevisions.map DesignRevision.pin) :
    ∃ row ∈ db.designRevisions, row.pin = (p, a) ∧ designRevision db p a = .ok row := by
  obtain ⟨row, hrow, hpin⟩ := List.mem_map.mp ha
  exact ⟨row, hrow, hpin, designRevision_of_mem h hrow hpin⟩

/-- The targets of a row's relations of one type, in their stored order. -/
def targets (type : RelationType) (rels : List DesignRelation) : List DesignRef :=
  (rels.filter (fun rel => decide (rel.type = type))).map DesignRelation.target

def relationEdges (rows : List DesignRevision) (p : String) (type : RelationType) (a : DesignRef) : List DesignRef :=
  match rows.find? (fun r => decide (r.pin = (p, a))) with
  | some row => targets type row.content.relations
  | none => []

theorem relationEdges_row (h : Grown rows) {row : DesignRevision} (hrow : row ∈ rows) (hpin : row.pin = (p, a)) :
    relationEdges rows p type a = targets type row.content.relations := by
  unfold relationEdges
  cases hfind : rows.find? (fun r => decide (r.pin = (p, a))) with
  | some other =>
    have hother := List.find?_some hfind
    simp only [decide_eq_true_eq] at hother
    rw [h.unique hrow (List.mem_of_find?_eq_some hfind) (hpin.trans hother.symm)]
  | none =>
    have hnone := List.find?_eq_none.mp hfind row hrow
    simp only [decide_eq_true_eq] at hnone
    exact absurd hpin hnone

theorem mem_targets {rels : List DesignRelation} :
    b ∈ targets type rels ↔ ∃ rel ∈ rels, rel.type = type ∧ rel.target = b := by
  simp only [targets, List.mem_map, List.mem_filter, decide_eq_true_eq, and_assoc]

theorem mem_relationEdges (h : Grown rows) : b ∈ relationEdges rows p type a ↔ Points rows p type a b := by
  constructor
  · intro hb
    unfold relationEdges at hb
    split at hb
    case h_1 row hfind =>
      have hpin := List.find?_some hfind
      simp only [decide_eq_true_eq] at hpin
      exact ⟨row, List.mem_of_find?_eq_some hfind, hpin, mem_targets.mp hb⟩
    case h_2 => exact absurd hb List.not_mem_nil
  · rintro ⟨row, hrow, hpin, hrel⟩
    rw [relationEdges_row h hrow hpin]
    exact mem_targets.mpr hrel

theorem edges_points (h : Grown rows) : (fun a b => b ∈ relationEdges rows p type a) = Points rows p type := by
  funext a b
  exact propext (mem_relationEdges h)

/-- Stacked rows are rows of the project. -/
def Stacked (rows : List DesignRevision) (p : String) (pending : List DesignRevision) : Prop :=
  ∀ r ∈ pending, r ∈ rows ∧ r.projectId = p

theorem Stacked.snoc {pending : List DesignRevision} {row : DesignRevision} (h : Stacked rows p pending)
    (hrow : row ∈ rows) (hpin : row.pin = (p, a)) : Stacked rows p (pending ++ [row]) := by
  intro r hr
  rcases List.mem_append.mp hr with hr | hr
  · exact h r hr
  · rw [List.mem_singleton.mp hr]
    exact ⟨hrow, congrArg Prod.fst hpin⟩

variable {selected ancestors : List DesignRef} {source : DesignRevision} {pending : List DesignRevision}
  {rels : List DesignRelation}

theorem targets_cons (rel : DesignRelation) (rels : List DesignRelation) :
    targets type (rel :: rels) = if rel.type = type then rel.target :: targets type rels else targets type rels := by
  by_cases h : rel.type = type <;> simp [targets, h]

variable (selected ancestors source) in
theorem visitRelation_push (h : Grown db.designRevisions) (hstacked : Stacked db.designRevisions p pending)
    (hknown : (p, rel.target) ∈ db.designRevisions.map DesignRevision.pin) :
    ∃ pending', visitRelation db p selected false source (ancestors, pending) rel =
        .ok ((if rel.type = .supersedes then push (ancestors, pending.map DesignRevision.ref) rel.target
          else (ancestors, pending.map DesignRevision.ref)).1, pending') ∧
      pending'.map DesignRevision.ref = (if rel.type = .supersedes then
        push (ancestors, pending.map DesignRevision.ref) rel.target
          else (ancestors, pending.map DesignRevision.ref)).2 ∧
      Stacked db.designRevisions p pending' := by
  obtain ⟨row, hrow, hpin, hread⟩ := designRevision_known h hknown
  have href : row.ref = rel.target := congrArg Prod.snd hpin
  by_cases htype : rel.type = .supersedes
  · by_cases hin : rel.target ∈ ancestors
    · refine ⟨pending, ?_, ?_, hstacked⟩ <;> simp [visitRelation, hread, htype, hin, push, whenever, bind, Except.bind,
        pure, Except.pure]
    · refine ⟨pending ++ [row], ?_, ?_, hstacked.snoc hrow hpin⟩ <;>
        simp [visitRelation, hread, htype, hin, push, whenever, bind, Except.bind, pure, Except.pure, href]
  · refine ⟨pending, ?_, ?_, hstacked⟩ <;> simp [visitRelation, hread, htype, whenever, bind, Except.bind, pure,
      Except.pure]

variable (selected source) in
theorem visitRelations_push (h : Grown db.designRevisions)
    (hknown : ∀ rel ∈ rels, (p, rel.target) ∈ db.designRevisions.map DesignRevision.pin) :
    ∀ (ancestors : List DesignRef) {pending : List DesignRevision}, Stacked db.designRevisions p pending →
      ∃ pending', rels.foldlM (visitRelation db p selected false source) (ancestors, pending) =
          .ok (((targets .supersedes rels).foldl push (ancestors, pending.map DesignRevision.ref)).1, pending') ∧
        pending'.map DesignRevision.ref =
          ((targets .supersedes rels).foldl push (ancestors, pending.map DesignRevision.ref)).2 ∧
        Stacked db.designRevisions p pending' := by
  induction rels with
  | nil =>
    intro ancestors pending hstacked
    exact ⟨pending, rfl, rfl, hstacked⟩
  | cons rel rels ih =>
    intro ancestors pending hstacked
    obtain ⟨next, hvisit, hnext, hstacked'⟩ :=
      visitRelation_push selected ancestors source h hstacked
        (hknown rel List.mem_cons_self)
    obtain ⟨last, hfold, hlast, hstacked''⟩ := ih (fun r hr => hknown r (List.mem_cons_of_mem rel hr)) _ hstacked'
    refine ⟨last, ?_, ?_, hstacked''⟩
    · rw [List.foldlM_cons, bind_ok]
      refine ⟨_, hvisit, ?_⟩
      rw [hfold, hnext, targets_cons]
      by_cases htype : rel.type = .supersedes <;> simp [htype]
    · rw [hlast, hnext, targets_cons]
      by_cases htype : rel.type = .supersedes <;> simp [htype]

theorem supersededItems_search (h : Grown db.designRevisions) (n : Nat) :
    ∀ {ancestors : List DesignRef} {pending : List DesignRevision}, Stacked db.designRevisions p pending →
      supersededItems db p selected n false ancestors pending =
        .ok (search (relationEdges db.designRevisions p .supersedes) n ancestors (pending.map DesignRevision.ref)) := by
  induction n with
  | zero => intro _ _ _; rfl
  | succ n ih =>
    intro ancestors pending hstacked
    rcases pending.eq_nil_or_concat with rfl | ⟨rest, row, rfl⟩
    · rfl
    rw [List.concat_eq_append] at hstacked ⊢
    obtain ⟨hrow, hproject⟩ := hstacked row (by simp)
    have hpin : row.pin = (p, row.ref) := Prod.ext hproject rfl
    obtain ⟨next, hfold, hnext, hstacked'⟩ := visitRelations_push selected row h
      (fun rel hrel => hproject ▸ h.known hrow hrel) ancestors (fun r hr => hstacked r (List.mem_append_left _ hr))
    rw [List.map_append, List.map_singleton, search_append, relationEdges_row h hrow hpin, ← hnext]
    unfold supersededItems
    simp only [List.getLast?_append_of_ne_nil _ (List.cons_ne_nil row []), List.getLast?_singleton,
      List.dropLast_concat, hfold]
    exact ih hstacked'

/-- What a selected item's own relation needs of the selection. -/
def Chosen (db : DB) (p : String) (selected : List DesignRef) (source : DesignRevision) (rel : DesignRelation) :
    Prop :=
  ∀ target, designRevision db p rel.target = .ok target → selectedRelation selected source rel target = .ok ()

theorem visitRelation_root (h : Grown db.designRevisions)
    (hknown : (p, rel.target) ∈ db.designRevisions.map DesignRevision.pin)
    {acc out : List DesignRef × List DesignRevision} :
    visitRelation db p selected true source acc rel = .ok out ↔
      Chosen db p selected source rel ∧ visitRelation db p selected false source acc rel = .ok out := by
  obtain ⟨row, -, -, hread⟩ := designRevision_known h hknown
  have hchosen : Chosen db p selected source rel ↔ selectedRelation selected source rel row = .ok () := by
    constructor
    · exact fun hc => hc row hread
    · intro hc target ht
      rw [hread] at ht
      exact Except.ok.inj ht ▸ hc
  rw [hchosen]
  unfold visitRelation
  simp only [hread, bind_ok, whenever_ok, Except.ok.injEq, exists_eq_left', forall_const, Bool.false_eq_true,
    false_implies, exists_const, true_and]

theorem visitRelations_root (h : Grown db.designRevisions)
    (hknown : ∀ rel ∈ rels, (p, rel.target) ∈ db.designRevisions.map DesignRevision.pin)
    {acc out : List DesignRef × List DesignRevision} :
    rels.foldlM (visitRelation db p selected true source) acc = .ok out ↔
      (∀ rel ∈ rels, Chosen db p selected source rel) ∧
        rels.foldlM (visitRelation db p selected false source) acc = .ok out := by
  induction rels generalizing acc with
  | nil => simp
  | cons rel rels ih =>
    have hrest := fun r hr => hknown r (List.mem_cons_of_mem rel hr)
    simp only [List.foldlM_cons, bind_ok, visitRelation_root h (hknown rel List.mem_cons_self), ih hrest,
      List.forall_mem_cons]
    constructor
    · rintro ⟨acc', ⟨hrel, hvisit⟩, hrels, hfold⟩
      exact ⟨⟨hrel, hrels⟩, acc', hvisit, hfold⟩
    · rintro ⟨⟨hrel, hrels⟩, acc', hvisit, hfold⟩
      exact ⟨acc', ⟨hrel, hvisit⟩, hrels, hfold⟩

/-- Everything an exact revision supersedes, directly or not. -/
def supersessions (rows : List DesignRevision) (p : String) (a : DesignRef) : List DesignRef :=
  search (relationEdges rows p .supersedes) (rows.length + 1) [] [a]

theorem edges_known (h : Grown rows) (a b : DesignRef) (hb : b ∈ relationEdges rows p type a) :
    b ∈ rows.map DesignRevision.ref := by
  obtain ⟨row, hrow, hpin⟩ := List.mem_map.mp (((mem_relationEdges h).mp hb).target h)
  exact List.mem_map.mpr ⟨row, hrow, congrArg Prod.snd hpin⟩

theorem mem_supersessions (h : Grown rows) :
    b ∈ supersessions rows p a ↔ TransGen (Points rows p .supersedes) a b := by
  unfold supersessions
  have hcount : (rows.map DesignRevision.ref).countP (fun t => decide (t ∉ ([] : List DesignRef))) ≤ rows.length :=
    List.countP_le_length.trans (by simp)
  have hfuel : [a].length + (rows.map DesignRevision.ref).countP (fun t => decide (t ∉ ([] : List DesignRef))) ≤
      rows.length + 1 := by
    rw [List.length_singleton]
    omega
  rw [mem_search (edges_known h) _ (fun c hc => absurd hc List.not_mem_nil) hfuel, edges_points h]
  simp

theorem supersededItems_root (h : Grown db.designRevisions) {rev : DesignRevision} {out : List DesignRef}
    (hrev : rev ∈ db.designRevisions) (hpin : rev.pin = (p, a)) :
    supersededItems db p selected (db.designRevisions.length + 1) true [] [rev] = .ok out ↔
      (∀ rel ∈ rev.content.relations, Chosen db p selected rev rel) ∧
        out = supersessions db.designRevisions p a := by
  have hproject : rev.projectId = p := congrArg Prod.fst hpin
  have hknown : ∀ rel ∈ rev.content.relations, (p, rel.target) ∈ db.designRevisions.map DesignRevision.pin :=
    fun rel hrel => hproject ▸ h.known hrev hrel
  have hstacked : Stacked db.designRevisions p [] := fun r hr => absurd hr List.not_mem_nil
  obtain ⟨next, hfold, hnext, hstacked'⟩ := visitRelations_push selected rev h hknown [] hstacked
  have hvisit : supersededItems db p selected (db.designRevisions.length + 1) true [] [rev] =
      (rev.content.relations.foldlM (visitRelation db p selected true rev) ([], [])).bind
        (fun acc => supersededItems db p selected db.designRevisions.length false acc.1 acc.2) := rfl
  have hsearch : supersessions db.designRevisions p a = search (relationEdges db.designRevisions p .supersedes)
      db.designRevisions.length ((targets .supersedes rev.content.relations).foldl push ([], [])).1
        (next.map DesignRevision.ref) := by
    rw [hnext]
    unfold supersessions
    rw [← List.nil_append [a], search_append, relationEdges_row h hrev hpin]
    rfl
  rw [hvisit, hsearch]
  change (rev.content.relations.foldlM (visitRelation db p selected true rev) ([], []) >>= _) = _ ↔ _
  simp only [bind_ok, visitRelations_root h hknown]
  constructor
  · rintro ⟨acc, ⟨hchosen, hacc⟩, hrest⟩
    rw [hfold, Except.ok.injEq] at hacc
    rw [← hacc, supersededItems_search h _ hstacked'] at hrest
    exact ⟨hchosen, (Except.ok.inj hrest).symm⟩
  · rintro ⟨hchosen, rfl⟩
    exact ⟨_, ⟨hchosen, hfold⟩, supersededItems_search h _ hstacked'⟩

theorem followDependency_push (h : Grown db.designRevisions) (base : List DesignRef) {found : List DesignRevision}
    (hfound : Stacked db.designRevisions p found) (hstacked : Stacked db.designRevisions p pending)
      (hknown : (p, rel.target) ∈ db.designRevisions.map DesignRevision.pin) :
    ∃ found' pending', followDependency db p (base ++ found.map DesignRevision.ref, found, pending) rel =
        .ok (base ++ found'.map DesignRevision.ref, found', pending') ∧
      (base ++ found'.map DesignRevision.ref, pending'.map DesignRevision.ref) =
        (if rel.type = .dependsOn then
          push (base ++ found.map DesignRevision.ref, pending.map DesignRevision.ref) rel.target
        else (base ++ found.map DesignRevision.ref, pending.map DesignRevision.ref)) ∧
      Stacked db.designRevisions p found' ∧ Stacked db.designRevisions p pending' := by
  obtain ⟨row, hrow, hpin, hread⟩ := designRevision_known h hknown
  have href : row.ref = rel.target := congrArg Prod.snd hpin
  by_cases hnew : rel.type = .dependsOn ∧ rel.target ∉ base ++ found.map DesignRevision.ref
  · refine ⟨found ++ [row], pending ++ [row], ?_, ?_, hfound.snoc hrow hpin, hstacked.snoc hrow hpin⟩
    · simp [followDependency, hnew, hread, bind, Except.bind, pure, Except.pure, href]
    · simp [hnew.1, push, hnew.2, href]
  · refine ⟨found, pending, ?_, ?_, hfound, hstacked⟩
    · simp only [followDependency, hnew, ↓reduceIte]
      rfl
    · by_cases htype : rel.type = .dependsOn
      · have hin : rel.target ∈ base ++ found.map DesignRevision.ref := by
          by_contra hout
          exact hnew ⟨htype, hout⟩
        simp only [htype, push, hin, ↓reduceIte]
      · simp only [htype, ↓reduceIte]

theorem followDependencies_push (h : Grown db.designRevisions) (base : List DesignRef)
    (hknown : ∀ rel ∈ rels, (p, rel.target) ∈ db.designRevisions.map DesignRevision.pin) :
    ∀ {found pending : List DesignRevision}, Stacked db.designRevisions p found → Stacked db.designRevisions p pending →
      ∃ found' pending', rels.foldlM (followDependency db p) (base ++ found.map DesignRevision.ref, found, pending) =
          .ok (base ++ found'.map DesignRevision.ref, found', pending') ∧
        (base ++ found'.map DesignRevision.ref, pending'.map DesignRevision.ref) =
          (targets .dependsOn rels).foldl push (base ++ found.map DesignRevision.ref, pending.map DesignRevision.ref) ∧
        Stacked db.designRevisions p found' ∧ Stacked db.designRevisions p pending' := by
  induction rels with
  | nil =>
    intro found pending hfound hstacked
    exact ⟨found, pending, rfl, rfl, hfound, hstacked⟩
  | cons rel rels ih =>
    intro found pending hfound hstacked
    obtain ⟨found₁, pending₁, hvisit, hpush, hfound₁, hstacked₁⟩ :=
      followDependency_push h base hfound hstacked (hknown rel List.mem_cons_self)
    obtain ⟨found₂, pending₂, hfold, hpushes, hfound₂, hstacked₂⟩ :=
      ih (fun r hr => hknown r (List.mem_cons_of_mem rel hr)) hfound₁ hstacked₁
    refine ⟨found₂, pending₂, ?_, ?_, hfound₂, hstacked₂⟩
    · rw [List.foldlM_cons, bind_ok]
      exact ⟨_, hvisit, hfold⟩
    · rw [hpushes, hpush, targets_cons]
      by_cases htype : rel.type = .dependsOn <;> simp [htype]

theorem designDependencies_search (h : Grown db.designRevisions) (base : List DesignRef) (n : Nat) :
    ∀ {found pending : List DesignRevision}, Stacked db.designRevisions p found → Stacked db.designRevisions p pending →
      ∃ found', designDependencies db p n (base ++ found.map DesignRevision.ref) found pending = .ok found' ∧
        base ++ found'.map DesignRevision.ref = search (relationEdges db.designRevisions p .dependsOn) n
          (base ++ found.map DesignRevision.ref) (pending.map DesignRevision.ref) ∧
        Stacked db.designRevisions p found' := by
  induction n with
  | zero =>
    intro found pending hfound _
    exact ⟨found, rfl, rfl, hfound⟩
  | succ n ih =>
    intro found pending hfound hstacked
    rcases pending.eq_nil_or_concat with rfl | ⟨rest, row, rfl⟩
    · exact ⟨found, rfl, rfl, hfound⟩
    rw [List.concat_eq_append] at hstacked ⊢
    obtain ⟨hrow, hproject⟩ := hstacked row (by simp)
    have hpin : row.pin = (p, row.ref) := Prod.ext hproject rfl
    obtain ⟨found₁, pending₁, hfold, hpush, hfound₁, hstacked₁⟩ := followDependencies_push h base
      (fun rel hrel => hproject ▸ h.known hrow hrel) hfound (fun r hr => hstacked r (List.mem_append_left _ hr))
    obtain ⟨found₂, hrest, hsearch, hfound₂⟩ := ih hfound₁ hstacked₁
    refine ⟨found₂, ?_, ?_, hfound₂⟩
    · unfold designDependencies
      simp only [List.getLast?_append_of_ne_nil _ (List.cons_ne_nil row []), List.getLast?_singleton,
        List.dropLast_concat, hfold]
      exact hrest
    · rw [hsearch, List.map_append, List.map_singleton, search_append, relationEdges_row h hrow hpin, ← hpush]

/-- The rows found and those bound are what the bound ones reach. -/
theorem designDependencies_reach (h : Grown db.designRevisions) {bound : List DesignRevision}
    (hbound : Stacked db.designRevisions p bound) :
    ∃ found, designDependencies db p (bound.length + db.designRevisions.length) (bound.map DesignRevision.ref) []
        bound = .ok found ∧ Stacked db.designRevisions p found ∧
      ∀ b, b ∈ bound.map DesignRevision.ref ++ found.map DesignRevision.ref ↔
        ∃ a ∈ bound.map DesignRevision.ref, ReflTransGen (Points db.designRevisions p .dependsOn) a b := by
  have hnone : Stacked db.designRevisions p [] := fun r hr => absurd hr List.not_mem_nil
  obtain ⟨found, hfound, hsearch, hstacked⟩ := designDependencies_search h (bound.map DesignRevision.ref)
    (bound.length + db.designRevisions.length) hnone hbound
  rw [List.map_nil, List.append_nil] at hfound hsearch
  refine ⟨found, hfound, hstacked, fun b => ?_⟩
  have hcount : (db.designRevisions.map DesignRevision.ref).countP
      (fun t => decide (t ∉ bound.map DesignRevision.ref)) ≤ db.designRevisions.length :=
    List.countP_le_length.trans (by simp)
  have hfuel : (bound.map DesignRevision.ref).length + (db.designRevisions.map DesignRevision.ref).countP
      (fun t => decide (t ∉ bound.map DesignRevision.ref)) ≤ bound.length + db.designRevisions.length := by
    rw [List.length_map]
    omega
  rw [hsearch, mem_search (edges_known h) _ (fun a ha hout => absurd ha hout) hfuel, edges_points h]
  constructor
  · rintro (hb | ⟨a, ha, hab⟩)
    · exact ⟨b, hb, .refl⟩
    · exact ⟨a, ha, hab.to_reflTransGen⟩
  · rintro ⟨a, ha, hab⟩
    rcases reflTransGen_iff_eq_or_transGen.mp hab with rfl | hab
    · exact .inl ha
    · exact .inr ⟨a, ha, hab⟩

end AItelier.State
