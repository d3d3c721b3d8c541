import AItelier.Lib.LinkTree
import AItelier.Lib.Outcome

namespace AItelier.Git

open AItelier.Lib AItelier.Lib.LinkTree

section Text

/-- `path.split("/")`. -/
def components (text : String) : List String := (text.toList.splitOn '/').map String.ofList

/-- One component of `posixpath.normpath`, for a path that is not absolute. -/
def normStep (acc : List String) (c : String) : List String :=
  if c = "" ∨ c = "." then acc
  else if c ≠ ".." ∨ acc = [] ∨ acc.getLast? = some ".." then acc ++ [c]
  else acc.dropLast

/-- `posixpath.normpath`, before its components are joined again. -/
def normpath (comps : List String) : List String := comps.foldl normStep []

def lower (s : String) : String := String.ofList (s.toList.map Char.toLower)

def isGit (name : String) : Bool := decide (lower name = ".git")

/-- `link_is_confined`; `rel` is the link's path, component by component. -/
def linkIsConfined (rel : List String) (text : String) : Bool :=
  decide (text ≠ "" ∧ text.toList.head? ≠ some '/' ∧ '\x00' ∉ text.toList) &&
    let joined := normpath (rel.dropLast ++ components text)
    decide (joined.head? ≠ some "..") && !joined.any isGit

/-- What a component of a path says to do. -/
def stepOf (c : String) : Step String :=
  if c = "" ∨ c = "." then .stay else if c = ".." then .up else .down c

def stepsOf (text : String) : List (Step String) := (components text).map stepOf

end Text

section Seed

inductive Kind
  | absent | dir | file | link | other
  deriving DecidableEq, Repr

/-- What `WorkTree.read` found at a path; for a link, its text. -/
structure Captured where
  kind : Kind
  data : String

/-- The check of each path that `seed_working_state` captures. -/
def checkCaptured (entry : List String × Captured) : Except String Unit := do
  let rel := String.intercalate "/" entry.1
  ensure (¬ (entry.2.kind = .link ∧ linkIsConfined entry.1 entry.2.data = false))
    (rel ++ ": symlink leaves the repository; not seeded")
  ensure (entry.2.kind ≠ .other) (rel ++ ": unsupported file type; not seeded")

def checkSeed (captured : List (List String × Captured)) : Except String Unit := captured.forM checkCaptured

end Seed

section Trees

/-- A name that an entry of a directory can have. -/
def Name (c : String) : Prop := c ≠ "" ∧ c ≠ "." ∧ c ≠ ".." ∧ '/' ∉ c.toList

instance (c : String) : Decidable (Name c) :=
  inferInstanceAs (Decidable (c ≠ "" ∧ c ≠ "." ∧ c ≠ ".." ∧ '/' ∉ c.toList))

/-- A path that Git keeps an entry at. -/
structure TreePath (p : List String) : Prop where
  nonempty : p ≠ []
  names : ∀ c ∈ p, Name c
  plain : ∀ c ∈ p, isGit c = false

/-- The directories of a working tree, and its links with their texts. -/
structure LinkedTree where
  dirs : List (List String)
  links : List (List String × String)

def LinkedTree.tree (t : LinkedTree) : LinkTree.Tree String := ⟨t.dirs, t.links.map (fun l => (l.1, stepsOf l.2))⟩

structure LinkedTree.Formed (t : LinkedTree) : Prop where
  tree : t.tree.Formed
  dirs : ∀ p ∈ t.dirs, ∀ c ∈ p, Name c
  links : ∀ l ∈ t.links, TreePath l.1

/-- No path walked in the tree leaves it or enters a `.git` directory. -/
def LinkedTree.Closed (t : LinkedTree) : Prop := t.tree.Safe isGit

/-- In a link's text every `..` climbs from a directory that the link itself lies in, and
no component is `.git`, up to where the text names the link. -/
def ClimbsInside (l : List String × String) : Prop := Climbs isGit l.1 l.1.dropLast (stepsOf l.2)

end Trees

section Confined

variable {p rel comps : List String} {text : String}

theorem name_ne (h : ∀ c ∈ p, Name c) : ".." ∉ p := fun hin => (h _ hin).2.2.1 rfl

theorem normStep_above (rest : List String) (c : String) :
    ∃ rest', normStep (".." :: rest) c = ".." :: rest' := by
  unfold normStep
  split
  · exact ⟨rest, rfl⟩
  · split
    · exact ⟨rest ++ [c], rfl⟩
    · next hpop =>
      cases rest with
      | nil => exact absurd (.inr (.inr rfl)) hpop
      | cons d rest => exact ⟨(d :: rest).dropLast, rfl⟩

theorem normpath_above (rest comps : List String) : (comps.foldl normStep (".." :: rest)).head? = some ".." := by
  induction comps generalizing rest with
  | nil => rfl
  | cons c comps ih =>
    obtain ⟨rest', hstep⟩ := normStep_above rest c
    rw [List.foldl_cons, hstep]
    exact ih rest'

theorem normStep_down {c : String} (hstay : ¬ (c = "" ∨ c = ".")) (hup : c ≠ "..") : normStep p c = p ++ [c] := by
  rw [normStep, if_neg hstay, if_pos (.inl hup)]

theorem normStep_up (hp : ".." ∉ p) (hne : p ≠ []) : normStep p ".." = p.dropLast := by
  have hlast : p.getLast? ≠ some ".." := fun he => hp (List.mem_of_getLast? he)
  rw [normStep, if_neg (by decide), if_neg]
  rintro (h | h | h)
  · exact h rfl
  · exact hne h
  · exact hlast h

/-- The components that normalise to a path inside never go above the root. -/
theorem within_of_normpath (hp : ".." ∉ p) (h : (comps.foldl normStep p).head? ≠ some "..") :
    Within p (comps.map stepOf) := by
  induction comps generalizing p with
  | nil => trivial
  | cons c comps ih =>
    rw [List.foldl_cons] at h
    rw [List.map_cons, stepOf]
    split
    · next hstay =>
      rw [normStep, if_pos hstay] at h
      exact ih hp h
    · next hstay =>
      split
      · next hup =>
        subst hup
        by_cases hne : p = []
        · subst hne
          have habove := normpath_above [] comps
          exact absurd habove h
        · rw [normStep_up hp hne] at h
          exact ⟨hne, ih (fun hin => hp (List.mem_of_mem_dropLast hin)) h⟩
      · next hup =>
        rw [normStep_down hstay hup] at h
        refine ih ?_ h
        rw [List.mem_append, List.mem_singleton]
        rintro (hin | hin)
        · exact hp hin
        · exact hup hin.symm

theorem normpath_names (h : ∀ c ∈ p, Name c) : p.foldl normStep [] = p := by
  have hall : ∀ (q r : List String), (∀ c ∈ q, Name c) → q.foldl normStep r = r ++ q := by
    intro q
    induction q with
    | nil => exact fun r _ => (List.append_nil r).symm
    | cons c q ih =>
      intro r hq
      obtain ⟨⟨hne, hdot, hup, -⟩, hq⟩ := List.forall_mem_cons.mp hq
      rw [List.foldl_cons, normStep_down (by simp [hne, hdot]) hup, ih _ hq, List.append_assoc]
      rfl
  rw [hall p [] h, List.nil_append]

theorem dropLast_names (h : ∀ c ∈ p, Name c) : ∀ c ∈ p.dropLast, Name c :=
  fun c hc => h c (List.mem_of_mem_dropLast hc)

theorem within_of_confined (hrel : ∀ c ∈ rel, Name c) (h : linkIsConfined rel text = true) :
    Within rel.dropLast (stepsOf text) := by
  simp only [linkIsConfined, Bool.and_eq_true, decide_eq_true_eq] at h
  obtain ⟨-, hhead, -⟩ := h
  rw [normpath, List.foldl_append, normpath_names (dropLast_names hrel)] at hhead
  exact within_of_normpath (name_ne (dropLast_names hrel)) hhead

theorem not_mem_splitOn (l : List Char) : ∀ part ∈ l.splitOn '/', '/' ∉ part := by
  induction l with
  | nil => simp
  | cons c l ih =>
    rw [List.splitOn_cons_eq_if_modifyHead]
    split
    · exact List.forall_mem_cons.mpr ⟨List.not_mem_nil, ih⟩
    · next hc =>
      cases hl : l.splitOn '/' with
      | nil => exact absurd hl (List.splitOn_ne_nil _ _)
      | cons part parts =>
        rw [hl] at ih
        obtain ⟨hpart, hparts⟩ := List.forall_mem_cons.mp ih
        refine List.forall_mem_cons.mpr ⟨?_, hparts⟩
        intro hin
        rcases List.mem_cons.mp hin with he | hin
        · exact hc (by simp [← he])
        · exact hpart hin

theorem name_of_step {c : String} (h : Step.down c ∈ stepsOf text) : Name c := by
  obtain ⟨d, hd, he⟩ := List.mem_map.mp h
  obtain ⟨part, hpart, rfl⟩ := List.mem_map.mp hd
  unfold stepOf at he
  split at he
  · cases he
  · next hstay =>
    split at he
    · cases he
    · next hup =>
      cases he
      refine ⟨fun he => hstay (.inl he), fun he => hstay (.inr he), hup, ?_⟩
      rw [String.toList_ofList]
      exact not_mem_splitOn _ part hpart

/-- The text that leads a link back to the root. -/
def backText (q : List String) : String :=
  String.ofList ('.' :: (List.replicate (q.length - 1) ['/', '.', '.']).flatten)

theorem splitOn_ups {part : List Char} (hpart : '/' ∉ part) (k : Nat) :
    (part ++ (List.replicate k ['/', '.', '.']).flatten).splitOn '/' = part :: List.replicate k ['.', '.'] := by
  induction k generalizing part with
  | zero =>
    rw [List.replicate_zero, List.flatten_nil, List.append_nil]
    exact List.splitOn_eq_singleton hpart
  | succ k ih =>
    rw [List.replicate_succ, List.flatten_cons, List.cons_append, List.splitOn_append_cons_self_of_not_mem hpart,
      ih (by simp), ← List.replicate_succ]

theorem components_back (q : List String) : components (backText q) = "." :: List.replicate (q.length - 1) ".." := by
  have hsplit := @splitOn_ups ['.'] (by simp) (q.length - 1)
  rw [List.singleton_append] at hsplit
  rw [components, backText, String.toList_ofList, hsplit, List.map_cons, List.map_replicate]

theorem stepsOf_back (q : List String) : stepsOf (backText q) = back q := by
  rw [stepsOf, components_back, List.map_cons, List.map_replicate]
  rfl

theorem confined_back {q : List String} (hq : TreePath q) : linkIsConfined q (backText q) = true := by
  have hups : ∀ p : List String, ".." ∉ p → (List.replicate p.length "..").foldl normStep p = [] := by
    intro p
    induction p using List.reverseRecOn with
    | nil => exact fun _ => rfl
    | append_singleton p c ih =>
      intro hp
      rw [List.length_append, List.length_singleton, List.replicate_succ, List.foldl_cons, normStep_up hp (by simp),
        List.dropLast_concat]
      exact ih fun hin => hp (List.mem_append_left _ hin)
  have hnorm : normpath (q.dropLast ++ components (backText q)) = [] := by
    rw [normpath, List.foldl_append, normpath_names (dropLast_names hq.names), components_back, List.foldl_cons,
      ← List.length_dropLast]
    exact hups q.dropLast (name_ne (dropLast_names hq.names))
  have htext : (backText q).toList.head? = some '.' ∧ '\x00' ∉ (backText q).toList := by
    rw [backText, String.toList_ofList]
    refine ⟨rfl, fun hin => ?_⟩
    rcases List.mem_cons.mp hin with he | hin
    · exact absurd he (by decide)
    · obtain ⟨part, hpart, hin⟩ := List.mem_flatten.mp hin
      rw [List.eq_of_mem_replicate hpart] at hin
      exact absurd hin (by decide)
  have hne : backText q ≠ "" := by
    intro he
    rw [he] at htext
    cases htext.1
  simp only [linkIsConfined, hnorm, htext.1, Bool.and_eq_true, decide_eq_true_eq]
  exact ⟨⟨hne, by decide, htext.2⟩, by decide, rfl⟩

end Confined

section Judged

variable {t : LinkedTree}

theorem mem_tree_links {l : List String × List (Step String)} :
    l ∈ t.tree.links ↔ ∃ link ∈ t.links, l = (link.1, stepsOf link.2) := by
  simp only [LinkedTree.tree, List.mem_map]
  exact exists_congr fun _ => and_congr_right fun _ => eq_comm

theorem closed_of_climbs (ht : t.Formed) (hconfined : ∀ l ∈ t.links, linkIsConfined l.1 l.2 = true)
    (hclimbs : ∀ l ∈ t.links, ClimbsInside l) : t.Closed := by
  apply safe_of_climbs ht.tree
  intro l hl
  obtain ⟨link, hlink, rfl⟩ := mem_tree_links.mp hl
  exact ⟨within_of_confined (ht.links link hlink).names (hconfined link hlink), hclimbs link hlink⟩

/-- Every link is judged alone. That is enough for the trees whose links are of some
kind, or climb inside, exactly if the accepted links of that kind climb inside. -/
theorem links_closed_iff (kind : Set (List String × String)) :
    (∀ t : LinkedTree, t.Formed → (∀ l ∈ t.links, linkIsConfined l.1 l.2 = true) →
      (∀ l ∈ t.links, l ∈ kind ∨ ClimbsInside l) → t.Closed) ↔
    ∀ l ∈ kind, TreePath l.1 → linkIsConfined l.1 l.2 = true → ClimbsInside l := by
  constructor
  · intro hall l hl hpath hconfined
    by_contra hclimbs
    have hwithin := within_of_confined hpath.names hconfined
    obtain ⟨t, hf, houtside, hdirs, hlinks⟩ := exists_unsafe hpath.nonempty hpath.plain hwithin hclimbs
    have hname : ∀ c, c ∈ l.1 ∨ Step.down c ∈ stepsOf l.2 → Name c := by
      rintro c (hc | hc)
      · exact hpath.names c hc
      · exact name_of_step hc
    rcases hlinks with hlinks | ⟨q, hq, hlinks, hnames⟩
    · let u : LinkedTree := ⟨t.dirs, [l]⟩
      have htree : u.tree = t := by
        rw [LinkedTree.tree, List.map_singleton, ← hlinks]
      refine houtside (htree ▸ hall u ⟨htree ▸ hf, fun p hp c hc => hname c (hdirs p hp c hc), ?_⟩ ?_ ?_)
      all_goals
        intro m hm
        rw [List.mem_singleton.mp hm]
      · exact hpath
      · exact hconfined
      · exact .inl hl
    · have hqpath : TreePath q := ⟨hq, fun c hc => hname c (hnames c hc).2, fun c hc => (hnames c hc).1⟩
      let u : LinkedTree := ⟨t.dirs, [l, (q, backText q)]⟩
      have htree : u.tree = t := by
        rw [LinkedTree.tree, List.map_cons, List.map_singleton, stepsOf_back, ← hlinks]
      refine houtside (htree ▸ hall u ⟨htree ▸ hf, fun p hp c hc => hname c (hdirs p hp c hc), ?_⟩ ?_ ?_)
      all_goals
        refine List.forall_mem_cons.mpr ⟨?_, List.forall_mem_singleton.mpr ?_⟩
      · exact hpath
      · exact hqpath
      · exact hconfined
      · exact confined_back hqpath
      · exact .inl hl
      · refine .inr ?_
        rw [ClimbsInside, stepsOf_back]
        exact (back_climbs isGit q).2
  · intro hkind t ht hconfined hlinks
    apply closed_of_climbs ht hconfined
    intro l hl
    rcases hlinks l hl with hin | hclimbs
    · exact hkind l hin (ht.links l hl) (hconfined l hl)
    · exact hclimbs

/-- Two links in one directory: one to the root, and one that takes `..` from there. -/
def leavingTree : LinkedTree := ⟨[["d"]], [(["d", "top"], ".."), (["d", "out"], "top/../..")]⟩

theorem leavingTree_formed : leavingTree.Formed := by
  refine ⟨⟨?_, ?_, ?_⟩, ?_, ?_⟩
  · decide
  · intro l hl
    obtain ⟨link, hlink, rfl⟩ := mem_tree_links.mp hl
    revert link
    decide
  · decide
  · decide
  · intro l hl
    refine ⟨?_, ?_, ?_⟩
    all_goals
      revert l
      decide

/-- Both links are accepted and seeded, and the path `d/out` leads above the root. -/
theorem seeded_link_leaves :
    leavingTree.Formed ∧ checkSeed (leavingTree.links.map (fun l => (l.1, ⟨.link, l.2⟩))) = .ok () ∧
    (∀ l ∈ leavingTree.links, linkIsConfined l.1 l.2 = true) ∧
    walk leavingTree.tree isGit 8 [] [.down "d", .down "out"] = .outside ∧ ¬ leavingTree.Closed := by
  have hwalk : walk leavingTree.tree isGit 8 [] [.down "d", .down "out"] = .outside := by decide
  have hseed : checkSeed (leavingTree.links.map (fun l => (l.1, ⟨.link, l.2⟩))) = .ok () := by rfl
  refine ⟨leavingTree_formed, hseed, by decide, hwalk, fun hclosed => ?_⟩
  have hkept := hclosed 8 ["d", "out"] (by decide)
  rw [show ["d", "out"].map Step.down = [.down "d", .down "out"] from rfl, hwalk] at hkept
  exact hkept

end Judged

end AItelier.Git
