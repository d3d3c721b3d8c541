import AItelier.State.Text
import AItelier.Writer.Glob

namespace AItelier.Writer

open AItelier.Lib

/-- The text of a path, without blanks around it and with slashes only. -/
def rawPath (value : Value) : Text :=
  (State.strip (value.orElse (.str "")).toText).toList.map (fun c => if c = '\\' then '/' else c)

/-- `as_posix`. -/
def posix (names : List Text) : Text := if names = [] then ['.'] else ['/'].intercalate names

/-- Absolute, with a component `..`, or under `.git`. -/
def Forbidden (raw : Text) : Prop :=
  raw.head? = some '/' ∨ ['.', '.'] ∈ parts '/' '.' raw ∨ (parts '/' '.' raw).head? = some ".git".toList

instance (raw : Text) : Decidable (Forbidden raw) := inferInstanceAs (Decidable (_ ∨ _ ∨ _))

/-- `normalize_path`. -/
def normalizePath (value : Value) : Except String Text :=
  let raw := rawPath value
  if raw = [] ∨ Forbidden raw then .error ("unsafe repo-relative path: " ++ value.repr)
  else .ok (posix (parts '/' '.' raw))

structure WriteScope where
  task : String
  owns : List Text
  sharedHotspots : List Text
  policy : String

def entriesOf (v : Value) : Option (List Value) :=
  match v with
  | .arr entries => some entries
  | _ => none

def ownsOf (card : Value) : Option (List Value) :=
  match card with
  | .obj d => entriesOf (Dict.get d "owns")
  | _ => none

def hotspotsOf (card : Value) : Option (List Value) :=
  match card with
  | .obj d => entriesOf ((Dict.find d "shared_hotspots").getD (.arr []))
  | _ => none

/-- `WriteScope.from_card`. -/
def fromCard (card : Value) (task : String) : Option WriteScope :=
  match ownsOf card, hotspotsOf card with
  | some owns, some hotspots =>
    if owns.isEmpty then none
    else
      match owns.mapM normalizePath, hotspots.mapM normalizePath with
      | .ok owns, .ok hotspots => some ⟨task, owns, hotspots, "task-card"⟩
      | _, _ => none
  | _, _ => none

/-- `WriteScope.deny_all`. -/
def denyAll (task : String) : WriteScope :=
  ⟨if task = "" then "unknown-task" else task, [], [], "missing-task-card-deny"⟩

/-- The scope of a loop item. -/
def scopeOf (card : Value) (task : String) : WriteScope := (fromCard card task).getD (denyAll task)

def isGlob (owned : Text) : Bool := owned.any (fun c => ['*', '?', '['].contains c)

/-- `owned.rstrip("/")`. -/
def withoutSlashes (owned : Text) : Text := (owned.reverse.dropWhile (fun c => decide (c = '/'))).reverse

def ownedBy (requested owned : Text) : Bool :=
  if isGlob owned then pathMatch requested owned
  else requested == owned || (withoutSlashes owned ++ ['/']).isPrefixOf requested

/-- `WriteScope.authorizes`. -/
def WriteScope.authorizes (s : WriteScope) (value : Value) : Bool :=
  match normalizePath value with
  | .error _ => false
  | .ok requested => s.sharedHotspots.contains requested || s.owns.any (ownedBy requested)

/-- A path that a card declares: a hotspot, a literal path or below one, or matched from the
root by a glob. -/
inductive Declared (s : WriteScope) (requested : Text) : Prop
  | hotspot (h : requested ∈ s.sharedHotspots)
  | literal {owned : Text} (h : owned ∈ s.owns) (hliteral : isGlob owned = false)
      (hbelow : parts '/' '.' owned <+: parts '/' '.' requested)
  | glob {owned : Text} (h : owned ∈ s.owns) (hglob : isGlob owned = true)
      (hmatch : Componentwise (parts '/' '.' owned) (parts '/' '.' requested))

def Justified (s : WriteScope) (value : Value) : Prop :=
  ∃ requested, normalizePath value = .ok requested ∧ Declared s requested

/-- A glob of the card that matches a path from a later component on, or is not matched component by
component, for it has a class or a line end, or the path is the root. -/
def Strays (s : WriteScope) (requested : Text) : Prop :=
  ∃ g ∈ s.owns, isGlob g = true ∧ ∃ k ∈ places (parts '/' '.' requested),
    matchLines (parts '/' '.' g) ((parts '/' '.' requested).drop k) = true ∧
      (0 < k ∨ parts '/' '.' requested = [] ∨ ¬ Plain g)

/-- A card with more entries. -/
structure Adds (card card' : Value) : Prop where
  owns : ∃ owns owns', ownsOf card = some owns ∧ ownsOf card' = some owns' ∧ owns ⊆ owns'
  hotspots : ∃ hotspots hotspots', hotspotsOf card = some hotspots ∧ hotspotsOf card' = some hotspots' ∧
  hotspots ⊆ hotspots'

/-- All entries of a card are safe paths. -/
def Safe (card : Value) : Prop :=
  ∀ entries, (ownsOf card = some entries ∨ hotspotsOf card = some entries) →
    ∀ e ∈ entries, ¬(rawPath e = [] ∨ Forbidden (rawPath e))

variable {s : WriteScope} {card card' value : Value} {task : String} {raw path requested owned g : Text}
  {names : List Text}

/-- A relative path as it is written back. -/
def Normal (path : Text) : Prop := path = posix (parts '/' '.' path)

theorem splitOn_parts (h : ∀ name ∈ names, '/' ∉ name ∧ Kept '.' name) (hne : names ≠ []) :
    parts '/' '.' (['/'].intercalate names) = names := by
  rw [parts, List.splitOn_intercalate '/' (fun name hname => (h name hname).1) hne, List.filter_eq_self]
  exact fun name hname => decide_eq_true (h name hname).2

theorem parts_kept {name : Text} (h : name ∈ parts '/' '.' raw) : '/' ∉ name ∧ Kept '.' name := by
  rw [parts, List.mem_filter] at h
  exact ⟨not_mem_of_mem_splitOn h.1, of_decide_eq_true h.2⟩

theorem parts_posix (raw : Text) : parts '/' '.' (posix (parts '/' '.' raw)) = parts '/' '.' raw := by
  unfold posix
  split
  · next hnil =>
    rw [hnil]
    rfl
  · next hne => exact splitOn_parts (fun _ h => parts_kept h) hne

theorem normalizePath_ok : normalizePath value = .ok requested ↔
    ¬(rawPath value = [] ∨ Forbidden (rawPath value)) ∧ requested = posix (parts '/' '.' (rawPath value)) := by
  unfold normalizePath
  simp only
  split
  · next h => exact iff_of_false (fun heq => by cases heq) (fun hand => hand.1 h)
  · next h =>
    rw [Except.ok.injEq]
    exact ⟨fun heq => ⟨h, heq.symm⟩, fun hand => hand.2.symm⟩

theorem normalizePath_normal (h : normalizePath value = .ok requested) : Normal requested := by
  have hrequested := (normalizePath_ok.mp h).2
  have hparts := parts_posix (rawPath value)
  rw [← hrequested] at hparts
  rw [Normal, hparts]
  exact hrequested

theorem Normal.relative (h : Normal path) : path.head? ≠ some '/' := by
  intro hhead
  rw [Normal, posix] at h
  split at h
  · rw [h] at hhead
    exact absurd hhead (by decide)
  · next hne =>
    obtain ⟨name, names, hnames⟩ := List.exists_cons_of_ne_nil hne
    have hname : name ∈ parts '/' '.' path := hnames ▸ List.mem_cons_self
    obtain ⟨hslash, hkept⟩ := parts_kept hname
    obtain ⟨c, rest, rfl⟩ := List.exists_cons_of_ne_nil hkept.1
    rw [hnames, intercalate_cons_eq] at h
    rw [h] at hhead
    have hc : c = '/' := Option.some.inj hhead
    exact hslash (hc ▸ List.mem_cons_self)

theorem parts_only_slashes {tail : Text} (h : ∀ c ∈ tail, c = '/') : parts '/' '.' tail = [] := by
  induction tail with
  | nil => rfl
  | cons c tail ih =>
    obtain ⟨rfl, htail⟩ := List.forall_mem_cons.mp h
    have happend : parts '/' '.' ('/' :: tail) = parts '/' '.' [] ++ parts '/' '.' tail := parts_append_sep [] tail
    rw [happend, ih htail]
    rfl

theorem parts_withoutSlashes (owned : Text) : parts '/' '.' (withoutSlashes owned) = parts '/' '.' owned := by
  have hsplit : withoutSlashes owned ++ (owned.reverse.takeWhile (fun c => decide (c = '/'))).reverse = owned := by
    rw [withoutSlashes, ← List.reverse_append, List.takeWhile_append_dropWhile, List.reverse_reverse]
  have hslashes : ∀ c ∈ (owned.reverse.takeWhile (fun c => decide (c = '/'))).reverse, c = '/' := by
    intro c hc
    have hslash := List.mem_takeWhile_imp (List.mem_reverse.mp hc)
    exact of_decide_eq_true hslash
  conv_rhs => rw [← hsplit]
  cases htail : (owned.reverse.takeWhile (fun c => decide (c = '/'))).reverse with
  | nil => rw [List.append_nil]
  | cons c tail =>
    rw [htail] at hslashes
    obtain ⟨rfl, hrest⟩ := List.forall_mem_cons.mp hslashes
    rw [parts_append_sep, parts_only_slashes hrest, List.append_nil]

theorem ownedBy_literal (hliteral : isGlob owned = false) (h : ownedBy requested owned = true) :
    parts '/' '.' owned <+: parts '/' '.' requested := by
  rw [ownedBy, if_neg (by rw [hliteral]; exact Bool.false_ne_true), Bool.or_eq_true] at h
  rcases h with h | h
  · obtain rfl := eq_of_beq h
    exact List.prefix_refl _
  · obtain ⟨rest, rfl⟩ := List.isPrefixOf_iff_prefix.mp h
    rw [List.append_assoc, List.singleton_append, parts_append_sep, parts_withoutSlashes]
    exact List.prefix_append _ _

theorem ownedBy_glob (hglob : isGlob g = true) : ownedBy requested g = true ↔ g.head? ≠ some '/' ∧
    ∃ k ∈ places (parts '/' '.' requested), matchLines (parts '/' '.' g) ((parts '/' '.' requested).drop k) = true := by
  rw [ownedBy, if_pos hglob, pathMatch, Bool.and_eq_true, decide_eq_true_eq, List.any_eq_true]

theorem authorizes_iff : s.authorizes value = true ↔ ∃ requested, normalizePath value = .ok requested ∧
    (requested ∈ s.sharedHotspots ∨ ∃ owned ∈ s.owns, ownedBy requested owned = true) := by
  unfold WriteScope.authorizes
  cases hpath : normalizePath value with
  | error exc => simp
  | ok requested => simp

theorem refused (h : Forbidden (rawPath value)) : s.authorizes value = false := by
  have herror : normalizePath value = .error ("unsafe repo-relative path: " ++ value.repr) := if_pos (.inr h)
  rw [WriteScope.authorizes, herror]

theorem fromCard_some (h : fromCard card task = some s) : ∃ owns hotspots, ownsOf card = some owns ∧
    hotspotsOf card = some hotspots ∧ owns ≠ [] ∧ owns.mapM normalizePath = .ok s.owns ∧
      hotspots.mapM normalizePath = .ok s.sharedHotspots := by
  unfold fromCard at h
  split at h
  · next owns hotspots howns hhotspots =>
    split at h
    · cases h
    · next hne =>
      split at h
      · next os hs hos hhs =>
        cases h
        exact ⟨owns, hotspots, howns, hhotspots, fun hnil => hne (hnil ▸ rfl), hos, hhs⟩
      · cases h
  · cases h

theorem fromCard_isSome {owns hotspots : List Value} (howns : ownsOf card = some owns)
    (hhotspots : hotspotsOf card = some hotspots) (hne : owns ≠ []) :
    (fromCard card task).isSome ↔ ∀ e ∈ owns ++ hotspots, ∃ path, normalizePath e = .ok path := by
  rw [List.forall_mem_append, ← mapM_total, ← mapM_total]
  have hempty : owns.isEmpty = false := by
    rw [Bool.eq_false_iff]
    exact fun h => hne (List.isEmpty_iff.mp h)
  simp only [fromCard, howns, hhotspots, hempty, Bool.false_eq_true, if_false]
  cases owns.mapM normalizePath <;> cases hotspots.mapM normalizePath <;> simp

theorem fromCard_normal (h : fromCard card task = some s) :
    (∀ p ∈ s.owns, Normal p) ∧ ∀ p ∈ s.sharedHotspots, Normal p := by
  obtain ⟨owns, hotspots, -, -, -, howns, hhotspots⟩ := fromCard_some h
  constructor
  · intro p hp
    obtain ⟨e, -, he⟩ := mapM_mem howns hp
    exact normalizePath_normal he
  · intro p hp
    obtain ⟨e, -, he⟩ := mapM_mem hhotspots hp
    exact normalizePath_normal he

theorem denied (h : fromCard card task = none) (value : Value) : (scopeOf card task).authorizes value = false := by
  rw [scopeOf, h]
  unfold WriteScope.authorizes
  cases normalizePath value <;> rfl

theorem mem_of_parts {c : Char} {name : Text} (hname : name ∈ parts '/' '.' raw) (hc : c ∈ name) : c ∈ raw := by
  have hjoin : ['/'].intercalate (raw.splitOn '/') = raw := List.intercalate_splitOn '/'
  have hslash : c ≠ '/' := fun heq => (parts_kept hname).1 (heq ▸ hc)
  rw [← hjoin]
  exact (mem_intercalate hslash).mpr ⟨name, (List.mem_filter.mp hname).1, hc⟩

theorem componentwise_of_plain (hplain : Plain g) (hglob : parts '/' '.' g ≠ []) (hnames : parts '/' '.' requested ≠ [])
    (h : matchLines (parts '/' '.' g) (parts '/' '.' requested) = true) :
    Componentwise (parts '/' '.' g) (parts '/' '.' requested) := by
  refine componentwise_of_lines (fun p hp => ⟨(parts_kept hp).2.1, fun c hc => ?_⟩)
    (fun _ h => (parts_kept h).1) hglob hnames h
  have hin := hplain c (mem_of_parts hp hc)
  exact ⟨hin.1, fun heq => (parts_kept hp).1 (heq ▸ hc), hin.2⟩

theorem parts_ne_nil_of_glob (hglob : isGlob g = true) : parts '/' '.' g ≠ [] := by
  obtain ⟨c, hc, hmark⟩ := List.any_eq_true.mp hglob
  obtain ⟨part, hpart, -⟩ : ∃ part ∈ parts '/' '.' g, c ∈ part := by
    apply mem_parts hc
    · rintro rfl
      exact absurd hmark (by decide)
    · rintro rfl
      exact absurd hmark (by decide)
  exact List.ne_nil_of_mem hpart

theorem scopeOf_normal (card : Value) (task : String) : ∀ p ∈ (scopeOf card task).owns, Normal p := by
  unfold scopeOf
  cases hcard : fromCard card task with
  | none => exact fun p hp => absurd hp List.not_mem_nil
  | some s => exact (fromCard_normal hcard).1

/-- What a card authorises and does not declare is what a glob strays onto. -/
theorem path_exact (hnormal : ∀ p ∈ s.owns, Normal p) : (s.authorizes value = true → Justified s value) ↔
    ∀ requested, normalizePath value = .ok requested → Strays s requested → Declared s requested := by
  constructor
  · rintro h requested hpath ⟨g, hg, hglob, k, hk, hmatch, -⟩
    have howned := (ownedBy_glob hglob).mpr ⟨(hnormal g hg).relative, k, hk, hmatch⟩
    obtain ⟨requested', hpath', hdeclared⟩ := h (authorizes_iff.mpr ⟨requested, hpath, .inr ⟨g, hg, howned⟩⟩)
    cases hpath.symm.trans hpath'
    exact hdeclared
  · intro h hauthorized
    obtain ⟨requested, hpath, howned⟩ := authorizes_iff.mp hauthorized
    refine ⟨requested, hpath, ?_⟩
    rcases howned with hhotspot | ⟨owned, hin, howned⟩
    · exact .hotspot hhotspot
    by_cases hglob : isGlob owned = true
    · obtain ⟨-, k, hk, hmatch⟩ := (ownedBy_glob hglob).mp howned
      by_cases hstrays : 0 < k ∨ parts '/' '.' requested = [] ∨ ¬ Plain owned
      · exact h requested hpath ⟨owned, hin, hglob, k, hk, hmatch, hstrays⟩
      · rw [not_or, not_or, not_not] at hstrays
        obtain ⟨hroot, hnames, hplain⟩ := hstrays
        rw [Nat.eq_zero_of_not_pos hroot, List.drop_zero] at hmatch
        exact .glob hin hglob (componentwise_of_plain hplain (parts_ne_nil_of_glob hglob) hnames hmatch)
    · rw [Bool.not_eq_true] at hglob
      exact .literal hin hglob (ownedBy_literal hglob howned)

theorem normalizePath_total : (∃ path, normalizePath value = .ok path) ↔
    ¬(rawPath value = [] ∨ Forbidden (rawPath value)) := by
  constructor
  · rintro ⟨path, hpath⟩
    exact (normalizePath_ok.mp hpath).1
  · exact fun h => ⟨_, normalizePath_ok.mpr ⟨h, rfl⟩⟩

theorem mapM_subset {es es' : List Value} {ps ps' : List Text} (h : es.mapM normalizePath = .ok ps)
    (h' : es'.mapM normalizePath = .ok ps') (hsub : es ⊆ es') : ps ⊆ ps' := by
  intro p hp
  obtain ⟨e, he, hpath⟩ := mapM_mem h hp
  obtain ⟨p', hp', hpath'⟩ := mapM_of_mem h' (hsub he)
  cases hpath.symm.trans hpath'
  exact hp'

/-- A card with more entries authorises no less, where they are safe. -/
theorem adds_exact (h : Adds card card') (task : String) :
    (∀ value, (scopeOf card task).authorizes value = true → (scopeOf card' task).authorizes value = true) ↔
      (Safe card' ∨ ∀ value, (scopeOf card task).authorizes value = false) := by
  obtain ⟨⟨owns, owns', howns, howns', hsub⟩, hotspots, hotspots', hhotspots, hhotspots', hsub'⟩ := h
  have hsafe : Safe card' ↔ ∀ e ∈ owns' ++ hotspots', ∃ path, normalizePath e = .ok path := by
    simp only [Safe, howns', hhotspots', Option.some.injEq, List.mem_append, normalizePath_total]
    constructor
    · rintro h e (he | he)
      · exact h owns' (.inl rfl) e he
      · exact h hotspots' (.inr rfl) e he
    · rintro h entries (rfl | rfl) e he
      · exact h e (.inl he)
      · exact h e (.inr he)
  constructor
  · intro hkeeps
    by_contra hnot
    rw [not_or, not_forall] at hnot
    obtain ⟨houtside, value, hvalue⟩ := hnot
    rw [Bool.not_eq_false] at hvalue
    have hafter := hkeeps value hvalue
    cases hcard : fromCard card' task with
    | none =>
      rw [denied hcard] at hafter
      cases hafter
    | some s =>
      obtain ⟨os, hs, hos, hhs, hne, -, -⟩ := fromCard_some hcard
      rw [howns'] at hos
      cases hos
      exact houtside (hsafe.mpr ((fromCard_isSome howns' hhotspots' hne).mp (by rw [hcard]; rfl)))
  · rintro (hall | hnone) value hvalue
    · cases hcard : fromCard card task with
      | none =>
        rw [denied hcard] at hvalue
        cases hvalue
      | some s =>
        obtain ⟨os, hs, hos, hhs, hne, hread, hreadHot⟩ := fromCard_some hcard
        rw [howns] at hos
        rw [hhotspots] at hhs
        cases hos
        cases hhs
        have hne' : owns' ≠ [] := fun hnil => hne (List.subset_nil.mp (hnil ▸ hsub))
        obtain ⟨s', hcard'⟩ := Option.isSome_iff_exists.mp
          ((fromCard_isSome howns' hhotspots' hne').mpr (hsafe.mp hall))
        obtain ⟨os', hs', hos', hhs', -, hread', hreadHot'⟩ := fromCard_some hcard'
        rw [howns'] at hos'
        rw [hhotspots'] at hhs'
        cases hos'
        cases hhs'
        rw [scopeOf, hcard, Option.getD_some] at hvalue
        rw [scopeOf, hcard', Option.getD_some]
        obtain ⟨requested, hpath, howned⟩ := authorizes_iff.mp hvalue
        refine authorizes_iff.mpr ⟨requested, hpath, ?_⟩
        rcases howned with hhot | ⟨owned, hin, howned⟩
        · exact .inl (mapM_subset hreadHot hreadHot' hsub' hhot)
        · exact .inr ⟨owned, mapM_subset hread hread' hsub hin, howned⟩
    · rw [hnone value] at hvalue
      cases hvalue

/-- A card authorises only what it declares exactly where none of its globs strays onto another path;
an unsafe path is never authorised; and more entries take nothing away exactly where they are safe. -/
theorem write_scope_exact (card card' value : Value) (task : String) :
    (((scopeOf card task).authorizes value = true → Justified (scopeOf card task) value) ↔
      ∀ requested, normalizePath value = .ok requested → Strays (scopeOf card task) requested →
        Declared (scopeOf card task) requested) ∧
    (Forbidden (rawPath value) → (scopeOf card task).authorizes value = false) ∧
    (Adds card card' →
      ((∀ value, (scopeOf card task).authorizes value = true → (scopeOf card' task).authorizes value = true) ↔
        (Safe card' ∨ ∀ value, (scopeOf card task).authorizes value = false))) :=
  ⟨path_exact (scopeOf_normal card task), refused, fun h => adds_exact h task⟩

/-- The card of the Python files of `src`. -/
def srcCard : Value := .obj [("owns", .arr [.str "src/*.py"])]

/-- It authorises a file in another tree's `src`. -/
theorem other_tree_authorized : ¬ ((scopeOf srcCard "t").authorizes (.str "other/src/x.py") = true →
    Justified (scopeOf srcCard "t") (.str "other/src/x.py")) := by
  intro h
  obtain ⟨requested, hpath, hdeclared⟩ := h (by decide)
  have hscope : scopeOf srcCard "t" = ⟨"t", ["src/*.py".toList], [], "task-card"⟩ := rfl
  have hrequested : requested = "other/src/x.py".toList := by
    have hread : normalizePath (.str "other/src/x.py") = .ok "other/src/x.py".toList := rfl
    exact Except.ok.inj (hpath.symm.trans hread)
  subst hrequested
  rw [hscope] at hdeclared
  cases hdeclared with
  | hotspot hin => exact absurd hin List.not_mem_nil
  | literal hin hliteral _ =>
    rw [List.mem_singleton.mp hin] at hliteral
    exact absurd hliteral (by decide)
  | glob hin _ hmatch =>
    rw [List.mem_singleton.mp hin] at hmatch
    exact absurd hmatch.length_eq (by decide)

end AItelier.Writer
