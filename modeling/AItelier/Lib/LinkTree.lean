import AItelier.Lib.Table

namespace AItelier.Lib.LinkTree

variable {ν : Type*} [DecidableEq ν]

/-- A component of a path. -/
inductive Step (ν : Type*)
  | stay | up | down (name : ν)
  deriving DecidableEq, Repr

/-- The directories below the root and the links, each at its place. -/
structure Tree (ν : Type*) where
  dirs : List (List ν)
  links : List (List ν × List (Step ν))

def Tree.isDir (t : Tree ν) (p : List ν) : Prop := p = [] ∨ p ∈ t.dirs

instance (t : Tree ν) (p : List ν) : Decidable (t.isDir p) := inferInstanceAs (Decidable (p = [] ∨ p ∈ t.dirs))

def Tree.link? (t : Tree ν) (p : List ν) : Option (List (Step ν)) := (lookup Prod.fst t.links p).map Prod.snd

/-- Every entry is in a directory, and no two are at one place. -/
structure Tree.Formed (t : Tree ν) : Prop where
  closed : ∀ p ∈ t.dirs, t.isDir p.dropLast
  placed : ∀ l ∈ t.links, l.1 ≠ [] ∧ t.isDir l.1.dropLast ∧ l.1 ∉ t.dirs
  single : (t.links.map Prod.fst).Nodup

/-- How a walk ends: in a directory, at a file or at nothing, without an end, above the
root, or in a directory of a forbidden name. -/
inductive Outcome (ν : Type*)
  | reached (p : List ν) | ended | looped | outside | forbidden
  deriving DecidableEq, Repr

/-- A walk of at most so many components. -/
def walk (t : Tree ν) (bad : ν → Bool) : Nat → List ν → List (Step ν) → Outcome ν
  | 0, _, _ => .looped
  | _ + 1, p, [] => .reached p
  | n + 1, p, .stay :: rest => walk t bad n p rest
  | n + 1, p, .up :: rest => if p = [] then .outside else walk t bad n p.dropLast rest
  | n + 1, p, .down c :: rest =>
    match t.link? (p ++ [c]) with
    | some text => walk t bad n p (text ++ rest)
    | none =>
      if p ++ [c] ∈ t.dirs then if bad c then .forbidden else walk t bad n (p ++ [c]) rest
      else .ended

def Outcome.kept : Outcome ν → Prop
  | .outside | .forbidden => False
  | _ => True

/-- No walk of names leaves the tree or enters a forbidden directory. -/
def Tree.Safe (t : Tree ν) (bad : ν → Bool) : Prop :=
  ∀ n (names : List ν), (∀ c ∈ names, bad c = false) → (walk t bad n [] (names.map .down)).kept

section Lexical

variable {t : Tree ν} {bad : ν → Bool} {p q place : List ν} {steps more : List (Step ν)}

/-- The components that go from one directory to another by directories only. -/
inductive Through (t : Tree ν) (bad : ν → Bool) : List ν → List (Step ν) → List ν → Prop
  | nil (p : List ν) : Through t bad p [] p
  | stay {p q : List ν} {rest : List (Step ν)} (h : Through t bad p rest q) : Through t bad p (.stay :: rest) q
  | up {p q : List ν} {rest : List (Step ν)} (hp : p ≠ []) (h : Through t bad p.dropLast rest q) :
      Through t bad p (.up :: rest) q
  | down {p q : List ν} {rest : List (Step ν)} (c : ν) (hdir : p ++ [c] ∈ t.dirs) (hlink : t.link? (p ++ [c]) = none)
      (hbad : bad c = false) (h : Through t bad (p ++ [c]) rest q) : Through t bad p (.down c :: rest) q

theorem Through.walk (h : Through t bad p steps q) (n : Nat) (more : List (Step ν)) :
    walk t bad (n + steps.length) p (steps ++ more) = LinkTree.walk t bad n q more := by
  induction h with
  | nil p => rfl
  | stay h ih => exact ih
  | up hp h ih =>
    rw [List.length_cons, List.cons_append, ← Nat.add_assoc, LinkTree.walk, if_neg hp]
    exact ih
  | down c hdir hlink hbad h ih =>
    rw [List.length_cons, List.cons_append, ← Nat.add_assoc, LinkTree.walk, hlink]
    simp only [hdir, if_true, hbad, Bool.false_eq_true, if_false]
    exact ih

theorem Through.looped (h : Through t bad p steps q) {n : Nat} (hn : n ≤ steps.length) (more : List (Step ν)) :
    LinkTree.walk t bad n p (steps ++ more) = .looped := by
  induction h generalizing n with
  | nil p =>
    rw [List.length_nil, Nat.le_zero] at hn
    subst hn
    rfl
  | stay h ih =>
    cases n with
    | zero => rfl
    | succ n => exact ih (Nat.le_of_succ_le_succ hn)
  | up hp h ih =>
    cases n with
    | zero => rfl
    | succ n =>
      rw [List.cons_append, LinkTree.walk, if_neg hp]
      exact ih (Nat.le_of_succ_le_succ hn)
  | down c hdir hlink hbad h ih =>
    cases n with
    | zero => rfl
    | succ n =>
      rw [List.cons_append, LinkTree.walk, hlink]
      simp only [hdir, if_true, hbad, Bool.false_eq_true, if_false]
      exact ih (Nat.le_of_succ_le_succ hn)

theorem Through.append (h : Through t bad p steps q) {r : List ν} (h' : Through t bad q more r) :
    Through t bad p (steps ++ more) r := by
  induction h with
  | nil p => exact h'
  | stay h ih => exact .stay (ih h')
  | up hp h ih => exact .up hp (ih h')
  | down c hdir hlink hbad h ih => exact .down c hdir hlink hbad (ih h')

/-- What follows directories only is kept if what comes after it is, with less to
walk. -/
theorem Through.kept (h : Through t bad p steps q) {n : Nat}
    (hmore : ∀ k, k ≤ n → (LinkTree.walk t bad k q more).kept) :
    (LinkTree.walk t bad n p (steps ++ more)).kept := by
  rcases Nat.le_total n steps.length with hle | hle
  · rw [h.looped hle]
    trivial
  · obtain ⟨k, rfl⟩ := Nat.exists_eq_add_of_le' hle
    rw [h.walk]
    exact hmore k (Nat.le_add_right _ _)

/-- Components that never go above the root when names are only appended and taken
off. -/
def Within : List ν → List (Step ν) → Prop
  | _, [] => True
  | p, .stay :: rest => Within p rest
  | p, .up :: rest => p ≠ [] ∧ Within p.dropLast rest
  | p, .down c :: rest => Within (p ++ [c]) rest

/-- Components of the link at a place in which every `..` climbs from a directory that
the link itself lies in, up to where the link names itself. -/
def Climbs (bad : ν → Bool) (place : List ν) : List ν → List (Step ν) → Prop
  | _, [] => True
  | p, .stay :: rest => Climbs bad place p rest
  | p, .up :: rest => p <+: place.dropLast ∧ Climbs bad place p.dropLast rest
  | p, .down c :: rest => bad c = false ∧ (p ++ [c] = place ∨ Climbs bad place (p ++ [c]) rest)

/-- Names that are not forbidden, and no `..`. -/
def Plain (bad : ν → Bool) (steps : List (Step ν)) : Prop := ∀ s ∈ steps, s ≠ .up ∧ ∀ c, s = .down c → bad c = false

omit [DecidableEq ν] in
theorem Plain.tail {s : Step ν} (h : Plain bad (s :: steps)) : Plain bad steps :=
  fun x hx => h x (List.mem_cons_of_mem s hx)

omit [DecidableEq ν] in
theorem Plain.down {c : ν} (hc : bad c = false) (h : Plain bad steps) : Plain bad (.down c :: steps) := by
  refine List.forall_mem_cons.mpr ⟨⟨by simp, ?_⟩, h⟩
  intro d he
  cases he
  exact hc

omit [DecidableEq ν] in
theorem Plain.stay (h : Plain bad steps) : Plain bad (.stay :: steps) :=
  List.forall_mem_cons.mpr ⟨by simp, h⟩

omit [DecidableEq ν] in
theorem Plain.append (h : Plain bad steps) (h' : Plain bad more) : Plain bad (steps ++ more) := by
  intro s hs
  rcases List.mem_append.mp hs with hs | hs
  · exact h s hs
  · exact h' s hs

omit [DecidableEq ν] in
theorem dropLast_prefix_of_ne {p : List ν} (h : p <+: place) (hne : p ≠ place) : p <+: place.dropLast := by
  obtain ⟨rest, rfl⟩ := h
  have hrest : rest ≠ [] := fun he => hne (by rw [he, List.append_nil])
  rw [List.dropLast_append_of_ne_nil hrest]
  exact List.prefix_append _ _

omit [DecidableEq ν] in
/-- Off the link's own path no `..` may come. -/
theorem Climbs.plain (h : Climbs bad place p steps) (hp : ¬ p <+: place) : Plain bad steps := by
  induction steps generalizing p with
  | nil => exact fun _ hs => absurd hs List.not_mem_nil
  | cons s rest ih =>
    cases s with
    | stay => exact (ih h hp).stay
    | up => exact absurd (h.1.trans (List.dropLast_prefix place)) hp
    | down c =>
      have hoff : ¬ p ++ [c] <+: place := fun he => hp ((List.prefix_append p [c]).trans he)
      have hne : p ++ [c] ≠ place := fun he => hoff (he ▸ List.prefix_refl _)
      exact (ih (h.2.resolve_left hne) hoff).down h.1

end Lexical

section Safe

variable {t : Tree ν} {bad : ν → Bool} {p q place : List ν} {steps rest : List (Step ν)}

omit [DecidableEq ν] in
theorem isDir_above (hf : t.Formed) (hq : t.isDir q) (hp : p <+: q) : t.isDir p := by
  obtain ⟨more, rfl⟩ := hp
  induction more using List.reverseRecOn with
  | nil => rwa [List.append_nil] at hq
  | append_singleton more c ih =>
    apply ih
    rcases hq with hq | hq
    · exact absurd hq (by simp)
    · have hparent := hf.closed _ hq
      rw [← List.append_assoc, List.dropLast_concat] at hparent
      exact hparent

theorem link?_of_mem (hf : t.Formed) {l : List ν × List (Step ν)} (hl : l ∈ t.links) : t.link? l.1 = some l.2 := by
  rw [Tree.link?, lookup_of_mem hf.single hl, Option.map_some]

theorem mem_of_link? (h : t.link? p = some steps) : (p, steps) ∈ t.links := by
  obtain ⟨l, hl, rfl⟩ := Option.map_eq_some_iff.mp h
  rw [← lookup_key hl]
  exact lookup_mem hl

theorem link?_dir (hf : t.Formed) (hp : p ∈ t.dirs) : t.link? p = none := by
  cases h : t.link? p with
  | none => rfl
  | some text => exact absurd hp (hf.placed _ (mem_of_link? h)).2.2

/-- A link's text goes by the directories that the link lies in until it ends, until it
names the link, or until it turns off with nothing but names left. -/
theorem Climbs.cases (hf : t.Formed) (hplace : t.isDir place.dropLast) (hp : p <+: place.dropLast)
    (hwithin : Within p steps) (h : Climbs bad place p steps) :
    (∃ q, Through t bad p steps q) ∨
    (∃ pre c post, steps = pre ++ .down c :: post ∧ Through t bad p pre place.dropLast ∧
      place.dropLast ++ [c] = place) ∨
    ∃ pre c post q, steps = pre ++ .down c :: post ∧ Through t bad p pre q ∧ Plain bad (.down c :: post) := by
  induction steps generalizing p with
  | nil => exact .inl ⟨p, .nil p⟩
  | cons s rest ih =>
    cases s with
    | stay =>
      rcases ih hp hwithin h with ⟨q, hq⟩ | ⟨pre, c, post, rfl, hpre, hc⟩ | ⟨pre, c, post, q, rfl, hpre, hplain⟩
      · exact .inl ⟨q, .stay hq⟩
      · exact .inr (.inl ⟨.stay :: pre, c, post, rfl, .stay hpre, hc⟩)
      · exact .inr (.inr ⟨.stay :: pre, c, post, q, rfl, .stay hpre, hplain⟩)
    | up =>
      have hparent : p.dropLast <+: place.dropLast := (List.dropLast_prefix p).trans hp
      rcases ih hparent hwithin.2 h.2 with ⟨q, hq⟩ | ⟨pre, c, post, rfl, hpre, hc⟩ |
        ⟨pre, c, post, q, rfl, hpre, hplain⟩
      · exact .inl ⟨q, .up hwithin.1 hq⟩
      · exact .inr (.inl ⟨.up :: pre, c, post, rfl, .up hwithin.1 hpre, hc⟩)
      · exact .inr (.inr ⟨.up :: pre, c, post, q, rfl, .up hwithin.1 hpre, hplain⟩)
    | down c =>
      by_cases hself : p ++ [c] = place
      · have hdrop : place.dropLast = p := by rw [← hself, List.dropLast_concat]
        rw [hdrop]
        exact .inr (.inl ⟨[], c, rest, rfl, .nil p, hself⟩)
      · have hclimbs := h.2.resolve_left hself
        by_cases hon : p ++ [c] <+: place
        · have hdir := dropLast_prefix_of_ne hon hself
          have hmem : p ++ [c] ∈ t.dirs := (isDir_above hf hplace hdir).resolve_left (by simp)
          have hlink := link?_dir hf hmem
          rcases ih hdir hwithin hclimbs with
            ⟨q, hq⟩ | ⟨pre, d, post, rfl, hpre, hd⟩ | ⟨pre, d, post, q, rfl, hpre, hplain⟩
          · exact .inl ⟨q, .down c hmem hlink h.1 hq⟩
          · exact .inr (.inl ⟨.down c :: pre, d, post, rfl, .down c hmem hlink h.1 hpre, hd⟩)
          · exact .inr (.inr ⟨.down c :: pre, d, post, q, rfl, .down c hmem hlink h.1 hpre, hplain⟩)
        · exact .inr (.inr ⟨[], c, rest, p, rfl, .nil p, (hclimbs.plain hon).down h.1⟩)

/-- A link that comes to itself by directories is walked without an end. -/
theorem self_kept {pre post text : List (Step ν)} {c : ν} (hlink : t.link? place = some text)
    (htext : text = pre ++ .down c :: post) (hpre : Through t bad place.dropLast pre place.dropLast)
    (hc : place.dropLast ++ [c] = place) (n : Nat) (more : List (Step ν)) :
    (walk t bad n place.dropLast (text ++ more)).kept := by
  induction n using Nat.strong_induction_on generalizing more with
  | _ n ih =>
    rw [htext, List.append_assoc]
    -- the fuel is less each time the link's own name is met
    rcases Nat.le_total n pre.length with hle | hle
    · rw [hpre.looped hle]
      trivial
    · obtain ⟨k, rfl⟩ := Nat.exists_eq_add_of_le' hle
      rw [hpre.walk]
      cases k with
      | zero => trivial
      | succ k =>
        rw [List.cons_append, walk, hc, hlink]
        exact ih k (by omega) _

/-- Where every link climbs from its own directories only, no walk leaves. -/
theorem safe_of_climbs (hf : t.Formed)
    (hlinks : ∀ l ∈ t.links, Within l.1.dropLast l.2 ∧ Climbs bad l.1 l.1.dropLast l.2) : t.Safe bad := by
  have hplain : ∀ n p (steps : List (Step ν)), Plain bad steps → (walk t bad n p steps).kept := by
    intro n
    induction n using Nat.strong_induction_on with
    | _ n ih =>
      intro p steps hsteps
      cases n with
      | zero => trivial
      | succ n =>
        cases steps with
        | nil => trivial
        | cons s rest =>
          cases s with
          | stay => exact ih n (Nat.lt_succ_self n) p rest hsteps.tail
          | up => exact absurd rfl (hsteps _ List.mem_cons_self).1
          | down c =>
            have hrest := hsteps.tail
            unfold walk
            split
            · next text hlink =>
              have hmem := mem_of_link? hlink
              obtain ⟨hwithin, hclimbs⟩ := hlinks _ hmem
              obtain ⟨-, hdir, -⟩ := hf.placed _ hmem
              have hdrop : (p ++ [c]).dropLast = p := List.dropLast_concat
              rcases hclimbs.cases hf hdir (List.prefix_refl _) hwithin with
                ⟨q, hq⟩ | ⟨pre, d, post, htext, hpre, hd⟩ | ⟨pre, d, post, q, htext, hpre, hpost⟩
              · rw [hdrop] at hq
                exact hq.kept fun k hk => ih k (by omega) q rest hrest
              · have hself := self_kept hlink htext hpre hd n rest
                rwa [hdrop] at hself
              · simp only at htext hpre
                rw [hdrop] at hpre
                rw [htext, List.append_assoc]
                exact hpre.kept fun k hk => ih k (by omega) q _ (hpost.append hrest)
            · split
              · split
                · next hbad =>
                  rw [(hsteps _ List.mem_cons_self).2 c rfl] at hbad
                  cases hbad
                · exact ih n (Nat.lt_succ_self n) _ rest hrest
              · trivial
  intro n names hnames
  apply hplain
  induction names with
  | nil => exact fun _ hs => absurd hs List.not_mem_nil
  | cons c names ih =>
    obtain ⟨hc, hnames⟩ := List.forall_mem_cons.mp hnames
    exact (ih hnames).down hc

end Safe

section Unsafe

variable {t : Tree ν} {bad : ν → Bool} {p q place : List ν} {steps : List (Step ν)}

/-- Components walked by appending and taking off names, without meeting the link, every
`..` from a directory that the link lies in. -/
inductive Lexical (bad : ν → Bool) (place : List ν) : List ν → List (Step ν) → List ν → Prop
  | nil (p : List ν) : Lexical bad place p [] p
  | stay {p q : List ν} {rest : List (Step ν)} (h : Lexical bad place p rest q) : Lexical bad place p (.stay :: rest) q
  | up {p q : List ν} {rest : List (Step ν)} (hon : p <+: place.dropLast) (hne : p ≠ [])
      (h : Lexical bad place p.dropLast rest q) : Lexical bad place p (.up :: rest) q
  | down {p q : List ν} {rest : List (Step ν)} (c : ν) (hbad : bad c = false) (hself : p ++ [c] ≠ place)
      (h : Lexical bad place (p ++ [c]) rest q) : Lexical bad place p (.down c :: rest) q

omit [DecidableEq ν] in
/-- Where a link does not climb as it should: at a `..` off its own path, or at a
forbidden name. -/
theorem not_climbs (hwithin : Within p steps) (h : ¬ Climbs bad place p steps) :
    ∃ pre s post q, steps = pre ++ s :: post ∧ Lexical bad place p pre q ∧
      ((s = .up ∧ ¬ q <+: place.dropLast) ∨ ∃ c, s = .down c ∧ bad c = true) := by
  induction steps generalizing p with
  | nil => exact absurd trivial h
  | cons s rest ih =>
    cases s with
    | stay =>
      obtain ⟨pre, s, post, q, rfl, hpre, hs⟩ := ih hwithin h
      exact ⟨.stay :: pre, s, post, q, rfl, .stay hpre, hs⟩
    | up =>
      by_cases hon : p <+: place.dropLast
      · obtain ⟨pre, s, post, q, rfl, hpre, hs⟩ := ih hwithin.2 fun hc => h ⟨hon, hc⟩
        exact ⟨.up :: pre, s, post, q, rfl, .up hon hwithin.1 hpre, hs⟩
      · exact ⟨[], .up, rest, p, rfl, .nil p, .inl ⟨rfl, hon⟩⟩
    | down c =>
      cases hbad : bad c with
      | true => exact ⟨[], .down c, rest, p, rfl, .nil p, .inr ⟨c, rfl, hbad⟩⟩
      | false =>
        have hself : p ++ [c] ≠ place := fun he => h ⟨hbad, .inl he⟩
        obtain ⟨pre, s, post, q, rfl, hpre, hs⟩ := ih hwithin fun hc => h ⟨hbad, .inr hc⟩
        exact ⟨.down c :: pre, s, post, q, rfl, .down c hbad hself hpre, hs⟩

omit [DecidableEq ν] in
theorem Lexical.off (h : Lexical bad place p steps q) (hoff : ¬ p <+: place.dropLast) : p <+: q := by
  induction h with
  | nil p => exact List.prefix_refl p
  | stay h ih => exact ih hoff
  | up hon hne h ih => exact absurd hon hoff
  | down c hbad hself h ih =>
    have hnext := ih fun he => hoff ((List.prefix_append _ [c]).trans he)
    exact (List.prefix_append _ [c]).trans hnext

omit [DecidableEq ν] in
/-- The link's place is never passed. -/
theorem Lexical.beside (h : Lexical bad place p steps q) (hp : ¬ place <+: p) : ¬ place <+: q := by
  induction h with
  | nil p => exact hp
  | stay h ih => exact ih hp
  | up hon hne h ih => exact ih fun he => hp (he.trans (List.dropLast_prefix _))
  | down c hbad hself h ih =>
    apply ih
    intro he
    rcases List.prefix_concat_iff.mp he with he | he
    · exact hself he.symm
    · exact hp he

omit [DecidableEq ν] in
theorem Lexical.names (h : Lexical bad place p steps q) {c : ν} (hc : c ∈ q) :
    c ∈ p ∨ (Step.down c ∈ steps ∧ bad c = false) := by
  induction h with
  | nil p => exact .inl hc
  | stay h ih => exact (ih hc).imp_right (And.imp_left (List.mem_cons_of_mem _))
  | up hon hne h ih =>
    exact (ih hc).imp (fun he => List.mem_of_mem_dropLast he) (And.imp_left (List.mem_cons_of_mem _))
  | down d hbad hself h ih =>
    rcases ih hc with he | he
    · rcases List.mem_append.mp he with he | he
      · exact .inl he
      · rw [List.mem_singleton] at he
        subst he
        exact .inr ⟨List.mem_cons_self, hbad⟩
    · exact .inr ⟨List.mem_cons_of_mem _ he.1, he.2⟩

omit [DecidableEq ν] in
/-- The last name before the place that was come to. -/
theorem Lexical.last (h : Lexical bad place p steps q) (hoff : ¬ q <+: place.dropLast) :
    (p = q ∧ ∀ s ∈ steps, s = .stay) ∨
    ∃ pre c dots r, steps = pre ++ .down c :: dots ∧ Lexical bad place p pre r ∧ q = r ++ [c] ∧ bad c = false ∧
      ∀ s ∈ dots, s = Step.stay := by
  induction h with
  | nil p => exact .inl ⟨rfl, by simp⟩
  | stay h ih =>
    rcases ih hoff with ⟨he, hstay⟩ | ⟨pre, c, dots, r, rfl, hpre, hq, hbad, hstay⟩
    · exact .inl ⟨he, List.forall_mem_cons.mpr ⟨rfl, hstay⟩⟩
    · exact .inr ⟨.stay :: pre, c, dots, r, rfl, .stay hpre, hq, hbad, hstay⟩
  | up hon hne h ih =>
    rcases ih hoff with ⟨he, -⟩ | ⟨pre, c, dots, r, rfl, hpre, hq, hbad, hstay⟩
    · exact absurd (he ▸ (List.dropLast_prefix _).trans hon) hoff
    · exact .inr ⟨.up :: pre, c, dots, r, rfl, .up hon hne hpre, hq, hbad, hstay⟩
  | down c hbad hself h ih =>
    rcases ih hoff with ⟨he, hstay⟩ | ⟨pre, d, dots, r, rfl, hpre, hq, hbad', hstay⟩
    · exact .inr ⟨[], c, _, _, rfl, .nil _, he.symm, hbad, hstay⟩
    · exact .inr ⟨.down c :: pre, d, dots, r, rfl, .down c hbad hself hpre, hq, hbad', hstay⟩

/-- In a tree that has the directories on the way, the walk by names is the real one. -/
theorem Lexical.through (h : Lexical bad place p steps q)
    (hdirs : ∀ r, r ≠ [] → (r <+: place.dropLast ∨ r <+: q) → r ∈ t.dirs ∧ t.link? r = none) :
    Through t bad p steps q := by
  induction h with
  | nil p => exact .nil p
  | stay h ih => exact .stay (ih hdirs)
  | up hon hne h ih => exact .up hne (ih hdirs)
  | @down p q rest c hbad hself h ih =>
    have hway : p ++ [c] <+: place.dropLast ∨ p ++ [c] <+: q := by
      by_cases hon : p ++ [c] <+: place.dropLast
      · exact .inl hon
      · exact .inr (h.off hon)
    obtain ⟨hdir, hlink⟩ := hdirs _ (by simp) hway
    exact .down c hdir hlink hbad (ih hdirs)

/-- The text that leads from a link back to the root. -/
def back (q : List ν) : List (Step ν) := .stay :: List.replicate (q.length - 1) .up

omit [DecidableEq ν] in
theorem back_climbs (bad : ν → Bool) (q : List ν) : Within q.dropLast (back q) ∧ Climbs bad q q.dropLast (back q) := by
  have hups : ∀ (p : List ν), p <+: q.dropLast →
      Within p (List.replicate p.length .up) ∧ Climbs bad q p (List.replicate p.length .up) := by
    intro p hp
    induction p using List.reverseRecOn with
    | nil => exact ⟨trivial, trivial⟩
    | append_singleton p c ih =>
      obtain ⟨hwithin, hclimbs⟩ := ih ((List.prefix_append p [c]).trans hp)
      rw [List.length_append, List.length_singleton, List.replicate_succ]
      refine ⟨⟨by simp, ?_⟩, ⟨hp, ?_⟩⟩
      · rw [List.dropLast_concat]
        exact hwithin
      · rw [List.dropLast_concat]
        exact hclimbs
  have hq := hups q.dropLast (List.prefix_refl _)
  rw [List.length_dropLast] at hq
  exact hq

theorem back_through (t : Tree ν) (bad : ν → Bool) (q : List ν) : Through t bad q.dropLast (back q) [] := by
  have hups : ∀ p : List ν, Through t bad p (List.replicate p.length .up) [] := by
    intro p
    induction p using List.reverseRecOn with
    | nil => exact .nil []
    | append_singleton p c ih =>
      rw [List.length_append, List.length_singleton, List.replicate_succ]
      refine .up (by simp) ?_
      rw [List.dropLast_concat]
      exact ih
  have hq := hups q.dropLast
  rw [List.length_dropLast] at hq
  exact .stay hq

theorem stays_through (t : Tree ν) (bad : ν → Bool) (p : List ν) (h : ∀ s ∈ steps, s = .stay) :
    Through t bad p steps p := by
  induction steps with
  | nil => exact .nil p
  | cons s rest ih =>
    obtain ⟨rfl, hrest⟩ := List.forall_mem_cons.mp h
    exact .stay (ih hrest)

/-- The directories on the way to two places. -/
def ways (p q : List ν) : List (List ν) := (p.inits ++ q.inits).filter (fun r => decide (r ≠ []))

omit [DecidableEq ν] in
theorem mem_ways {r : List ν} : r ∈ ways p q ↔ (r <+: p ∨ r <+: q) ∧ r ≠ [] := by
  simp [ways, List.mem_inits, or_and_right]

omit [DecidableEq ν] in
theorem ways_closed {r : List ν} (h : r ∈ ways p q) : r.dropLast = [] ∨ r.dropLast ∈ ways p q := by
  by_cases hne : r.dropLast = []
  · exact .inl hne
  · rw [mem_ways] at h ⊢
    refine .inr ⟨h.1.imp (List.dropLast_prefix r).trans (List.dropLast_prefix r).trans, hne⟩

/-- Names walked by directories. -/
theorem names_through (hf : t.Formed) (hp : t.isDir p) (hnames : ∀ c ∈ p, bad c = false) :
    Through t bad [] (p.map .down) p := by
  induction p using List.reverseRecOn with
  | nil => exact .nil []
  | append_singleton p c ih =>
    have hdir := hp.resolve_left (by simp)
    have hprefix := ih (isDir_above hf hp (List.prefix_append p [c])) fun d hd => hnames d (List.mem_append_left _ hd)
    rw [List.map_append]
    refine hprefix.append (.down c hdir (link?_dir hf hdir) ?_ (.nil _))
    exact hnames c (List.mem_append_right _ List.mem_cons_self)

/-- The walk of a link's own path comes to the link's text. -/
theorem walk_place (hf : t.Formed) (hl : (place, steps) ∈ t.links) (hnames : ∀ c ∈ place, bad c = false) (n : Nat) :
    walk t bad (n + 1 + place.dropLast.length) [] (place.map .down) = walk t bad n place.dropLast (steps ++ []) := by
  obtain ⟨hne, hdir, -⟩ := hf.placed _ hl
  obtain ⟨front, c, rfl⟩ := List.eq_nil_or_concat place |>.resolve_left hne
  rw [List.concat_eq_append] at hl hdir hnames ⊢
  simp only [List.dropLast_concat] at hdir ⊢
  have hthrough := names_through hf hdir fun d hd => hnames d (List.mem_append_left _ hd)
  have hwalk := hthrough.walk (n + 1) [.down c]
  rw [List.length_map] at hwalk
  rw [List.map_append, List.map_singleton, hwalk, walk, link?_of_mem hf hl]

/-- A link that does not climb as it should is unsafe in some tree, with at most one
more link that leads back to the root. -/
theorem exists_unsafe (hne : place ≠ []) (hnames : ∀ c ∈ place, bad c = false) (hwithin : Within place.dropLast steps)
    (h : ¬ Climbs bad place place.dropLast steps) :
    ∃ t : Tree ν, t.Formed ∧ ¬ t.Safe bad ∧ (∀ p ∈ t.dirs, ∀ c ∈ p, c ∈ place ∨ .down c ∈ steps) ∧
      (t.links = [(place, steps)] ∨ ∃ q, q ≠ [] ∧ t.links = [(place, steps), (q, back q)] ∧
        ∀ c ∈ q, bad c = false ∧ (c ∈ place ∨ .down c ∈ steps)) := by
  have hlonger : ¬ place <+: place.dropLast := by
    intro he
    have hlength := he.length_le
    have hpos := List.length_pos_iff.mpr hne
    rw [List.length_dropLast] at hlength
    omega
  obtain ⟨pre, s, post, q, rfl, hpre, ⟨rfl, hoff⟩ | ⟨c, rfl, hbad⟩⟩ := not_climbs hwithin h
  · rcases hpre.last hoff with ⟨he, -⟩ | ⟨pre, c, dots, r, rfl, hfront, rfl, hc, hdots⟩
    · exact absurd (he ▸ List.prefix_refl _) hoff
    -- the last name before the `..` becomes a link to the root
    · have hbeside := hpre.beside hlonger
      let t : Tree ν := ⟨ways place.dropLast r,
        [(place, pre ++ .down c :: dots ++ .up :: post), (r ++ [c], back (r ++ [c]))]⟩
      have hplace : place ∉ t.dirs := by
        intro hin
        rcases (mem_ways.mp hin).1 with he | he
        · exact hlonger he
        · exact hbeside (he.trans (List.prefix_append _ _))
      have hlink : r ++ [c] ∉ t.dirs := by
        intro hin
        rcases (mem_ways.mp hin).1 with he | he
        · exact hoff he
        · have hlength := he.length_le
          rw [List.length_append, List.length_singleton] at hlength
          omega
      have hdir : ∀ p, p <+: place.dropLast ∨ p <+: r → t.isDir p := by
        intro p hp
        by_cases hnil : p = []
        · exact .inl hnil
        · exact .inr (mem_ways.mpr ⟨hp, hnil⟩)
      have hf : t.Formed := by
        refine ⟨fun p hp => ways_closed hp, ?_, ?_⟩
        · intro l hl
          rcases List.mem_cons.mp hl with rfl | hl
          · exact ⟨hne, hdir _ (.inl (List.prefix_refl _)), hplace⟩
          · rw [List.mem_singleton] at hl
            subst hl
            refine ⟨by simp, ?_, hlink⟩
            rw [List.dropLast_concat]
            exact hdir _ (.inr (List.prefix_refl _))
        · have hdiff : place ≠ r ++ [c] := fun he => hbeside (he ▸ List.prefix_refl _)
          simp [t, hdiff]
      have hthrough : Through t bad place.dropLast pre r := by
        refine hfront.through fun p hp hway => ?_
        have hin : p ∈ t.dirs := mem_ways.mpr ⟨hway, hp⟩
        exact ⟨hin, link?_dir hf hin⟩
      have hback : Through t bad r (back (r ++ [c])) [] := by
        have := back_through t bad (r ++ [c])
        rwa [List.dropLast_concat] at this
      refine ⟨t, hf, ?_, ?_, .inr ⟨r ++ [c], by simp, rfl, ?_⟩⟩
      · intro hsafe
        have hkept := hsafe (1 + (back (r ++ [c]) ++ dots).length + 1 + pre.length + 1 +
            place.dropLast.length) place hnames
        rw [walk_place hf List.mem_cons_self hnames, List.append_nil, List.append_assoc, hthrough.walk,
          List.cons_append,
          walk, link?_of_mem hf (List.mem_cons_of_mem _ List.mem_cons_self)] at hkept
        simp only at hkept
        rw [← List.append_assoc, (hback.append (stays_through t bad [] hdots)).walk, walk, if_pos rfl] at hkept
        exact hkept
      · intro p hp d hd
        rcases (mem_ways.mp hp).1 with he | he
        · exact .inl (List.mem_of_mem_dropLast (he.subset hd))
        · rcases hfront.names (he.subset hd) with hin | hin
          · exact .inl (List.mem_of_mem_dropLast hin)
          · exact .inr (by simp [hin.1])
      · intro d hd
        rcases hpre.names hd with hin | hin
        · exact ⟨hnames d (List.mem_of_mem_dropLast hin), .inl (List.mem_of_mem_dropLast hin)⟩
        · exact ⟨hin.2, .inr (List.mem_append_left _ hin.1)⟩
  -- the forbidden directory is there
  · have hbeside := hpre.beside hlonger
    let t : Tree ν := ⟨ways place.dropLast (q ++ [c]), [(place, pre ++ .down c :: post)]⟩
    have hplace : place ∉ t.dirs := by
      intro hin
      rcases (mem_ways.mp hin).1 with he | he
      · exact hlonger he
      · rcases List.prefix_concat_iff.mp he with he | he
        · have hin := hnames c (he ▸ List.mem_append_right _ List.mem_cons_self)
          rw [hbad] at hin
          cases hin
        · exact hbeside he
    have hf : t.Formed := by
      refine ⟨fun p hp => ways_closed hp, ?_, by simp [t]⟩
      intro l hl
      rw [List.mem_singleton] at hl
      subst hl
      refine ⟨hne, ?_, hplace⟩
      by_cases hnil : place.dropLast = []
      · exact .inl hnil
      · exact .inr (mem_ways.mpr ⟨.inl (List.prefix_refl _), hnil⟩)
    have hthrough : Through t bad place.dropLast pre q := by
      refine hpre.through fun p hp hway => ?_
      have hin : p ∈ t.dirs := mem_ways.mpr ⟨hway.imp_right fun he => he.trans (List.prefix_append _ _), hp⟩
      exact ⟨hin, link?_dir hf hin⟩
    have hin : q ++ [c] ∈ t.dirs := mem_ways.mpr ⟨.inr (List.prefix_refl _), by simp⟩
    refine ⟨t, hf, ?_, ?_, .inl rfl⟩
    · intro hsafe
      have hkept := hsafe (1 + pre.length + 1 + place.dropLast.length) place hnames
      rw [walk_place hf List.mem_cons_self hnames, List.append_nil, hthrough.walk, walk, link?_dir hf hin] at hkept
      simp only [hin, if_true, hbad] at hkept
      exact hkept
    · intro p hp d hd
      have hmem : d ∈ place.dropLast ∨ d ∈ q ++ [c] := (mem_ways.mp hp).1.imp (·.subset hd) (·.subset hd)
      rcases hmem with hmem | hmem
      · exact .inl (List.mem_of_mem_dropLast hmem)
      · rcases List.mem_append.mp hmem with hmem | hmem
        · rcases hpre.names hmem with hin | hin
          · exact .inl (List.mem_of_mem_dropLast hin)
          · exact .inr (by simp [hin.1])
        · exact .inr (by simp [List.mem_singleton.mp hmem])

end Unsafe

end AItelier.Lib.LinkTree
