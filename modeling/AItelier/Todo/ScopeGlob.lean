import Mathlib.Data.List.Dedup
import AItelier.Lib.Components
import AItelier.Lib.Regex
import AItelier.Lib.TextFile
import AItelier.Todo.Run

namespace AItelier.Todo

open AItelier.Lib

abbrev Text := List Char

/-- The loop over a leading `./`. -/
def withoutDots : Text → Text
  | '.' :: '/' :: c :: rest => withoutDots (c :: rest)
  | pattern => pattern

/-- The pattern that is translated. -/
def normalized (pattern : Text) : Text :=
  let pattern := withoutDots pattern
  let pattern := if pattern = ['.'] ∨ pattern = ['.', '/'] then ['*', '*'] else pattern
  if pattern.getLast? = some '/' then pattern ++ ['*', '*'] else pattern

inductive Token
  | dirs | any | run | one | lit (c : Char)
  deriving DecidableEq, Repr

def tokens : Text → List Token
  | '*' :: '*' :: '/' :: rest => .dirs :: tokens rest
  | '*' :: '*' :: rest => .any :: tokens rest
  | '*' :: rest => .run :: tokens rest
  | '?' :: rest => .one :: tokens rest
  | c :: rest => .lit c :: tokens rest
  | [] => []

/-- `.`, which does not match a newline. -/
def dot : Regex Char Char := .one (fun c => decide (c ≠ '\n'))

def notSlash : Regex Char Char := .one (fun c => decide (c ≠ '/'))

def Token.regex : Token → Regex Char Char
  | dirs => .alt (.seq (.star dot) (.lit '/')) .empty
  | any => .star dot
  | run => .star notSlash
  | one => notSlash
  | lit c => .lit c

/-- `_scope_regex`. -/
def scopeRegex (pattern : Text) : Regex Char Char :=
  (tokens (normalized pattern)).foldr (fun t r => .seq t.regex r) .empty

/-- `_scope_regex(pattern).match(path)`. -/
def scopeMatches (pattern path : Text) : Bool := ((scopeRegex pattern).fullmatch path).isSome

/-- `_safe_rev`. -/
def safeRev (rev : String) : Except Raised String :=
  if rev = "" ∨ rev.toList.head? = some '-' then
    .error ⟨"ValueError", "not a usable revision: " ++ Value.reprText rev⟩
  else .ok rev

def listings (rev : String) : List (List String) :=
  [["diff", "--name-only", "--no-renames", "-z", rev ++ "..HEAD"],
    ["diff", "--name-only", "--no-renames", "-z", "HEAD"],
    ["ls-files", "--others", "--exclude-standard", "-z"]]

/-- The paths of an output in which every path is followed by a NUL. -/
def pathsOf (out : Text) : List Text := (out.splitOn '\x00').filter (fun p => decide (p ≠ []))

/-- `git` as it is called: what it prints, or why that could not be measured; and what is said of bytes that are
no UTF-8. -/
structure Git where
  call : List String → Except String ByteArray
  undecodable : ByteArray → String

/-- `_git`, whose output is read in text mode. -/
def Git.read (git : Git) (args : List String) : Except Raised (Except String Text) :=
  match git.call args with
  | .error absence => .ok (.error absence)
  | .ok out =>
    match String.fromUTF8? out with
    | some text => .ok (.ok (universal text.toList))
    | none => .error ⟨"UnicodeDecodeError", git.undecodable out⟩

/-- The outputs of `git` for every listing, or why the first that cannot be measured cannot. -/
def Git.outputs (git : Git) : List (List String) → Except Raised (Except String (List Text))
  | [] => .ok (.ok [])
  | args :: rest => do
    match ← git.read args with
    | .error absence => return .error absence
    | .ok out =>
      match ← git.outputs rest with
      | .error absence => return .error absence
      | .ok outs => return .ok (out :: outs)

def sorted (paths : List Text) : List String := (paths.map String.ofList).mergeSort (fun a b => decide (a ≤ b))

/-- `changes_within`. -/
def changesWithin (git : Git) (baseSha : String) (scope : List String) :
    Except Raised PredicateResult :=
  if baseSha = "" then .error ⟨"ValueError", "changes_within needs the plan's base_sha"⟩
  else do
    let rev ← safeRev baseSha
    match ← git.outputs (listings rev) with
    | .error absence => return ⟨"changes_within", .absent, absence⟩
    | .ok outs =>
      let changed := (outs.flatMap pathsOf).dedup
      let outside := sorted (changed.filter (fun p => !scope.any (fun g => scopeMatches g.toList p)))
      if outside ≠ [] then
        let more := if outside.length > 5 then " (+" ++ toString (outside.length - 5) ++ " more)" else ""
        return ⟨"changes_within", .fail, toString outside.length ++ " changed path(s) outside scope " ++
          (Value.arr (scope.map Value.str)).repr ++ ": " ++ ", ".intercalate (outside.take 5) ++ more⟩
      else return ⟨"changes_within", .pass, toString changed.length ++ " changed path(s), all inside scope"⟩

/-- What a token stands for. -/
def Token.Means : Token → Text → Prop
  | dirs, s => s = [] ∨ s.getLast? = some '/'
  | any, _ => True
  | run, s => '/' ∉ s
  | one, s => ∃ c, c ≠ '/' ∧ s = [c]
  | lit c, s => s = [c]

/-- A text is made of pieces that the tokens stand for. -/
def Reads (means : Token → Text → Prop) : List Token → Text → Prop
  | [], s => s = []
  | t :: ts, s => ∃ a b, s = a ++ b ∧ means t a ∧ Reads means ts b

/-- The paths a pattern names: `.` and `./` name everything, a leading `./` is ignored, and
a trailing `/` names everything below. -/
def InLanguage : Text → Text → Prop
  | '.' :: '/' :: c :: rest, path => InLanguage (c :: rest) path
  | pattern, path =>
    pattern = ['.'] ∨ pattern = ['.', '/'] ∨
      if pattern.getLast? = some '/' then ∃ dir below, path = dir ++ below ∧ Reads Token.Means (tokens pattern) dir
      else Reads Token.Means (tokens pattern) path

/-- A token that may stand for any character. -/
def Token.Crosses (t : Token) : Prop := t = .any ∨ t = .dirs

/-- What a token stands for where only the others take a newline. -/
def Token.WithinLines (t : Token) (s : Text) : Prop := t.Means s ∧ (t.Crosses → '\n' ∉ s)

/-- The pattern has a reading of the path in which no `**`, `**/` or trailing `/` takes a newline. -/
def ReadsLines (pattern path : Text) : Prop := Reads Token.WithinLines (tokens (normalized pattern)) path

/-- What `git` answers to the three listings. -/
structure Listing where
  committed : ByteArray
  uncommitted : ByteArray
  untracked : ByteArray

def Listing.outs (l : Listing) : List ByteArray := [l.committed, l.uncommitted, l.untracked]

/-- The answers as text, where they are UTF-8. -/
def Listing.texts (l : Listing) : Option (List Text) :=
  l.outs.mapM (fun out => (String.fromUTF8? out).map String.toList)

/-- These are the answers of `git` for a revision. -/
def Git.Answers (git : Git) (baseSha : String) (l : Listing) : Prop :=
  ∃ rev, baseSha ≠ "" ∧ safeRev baseSha = .ok rev ∧ (listings rev).map git.call = l.outs.map .ok

/-- For these answers the predicate passes exactly where the scope names every path. -/
def Exact (l : Listing) (scope : List String) : Prop :=
  ∀ git baseSha, git.Answers baseSha l → ∃ texts r, l.texts = some texts ∧ changesWithin git baseSha scope = .ok r ∧
    (r.outcome = .pass ↔ ∀ path ∈ texts.flatMap pathsOf, ∃ g ∈ scope, InLanguage g.toList path)

variable {t : Token} {ts us : List Token} {pattern path rest s a b : Text} {scope : List String}
  {l : Listing} {c : Char}

theorem reads_append {means : Token → Text → Prop} :
    Reads means (ts ++ us) s ↔ ∃ a b, s = a ++ b ∧ Reads means ts a ∧ Reads means us b := by
  induction ts generalizing s with
  | nil =>
    constructor
    · exact fun h => ⟨[], s, rfl, rfl, h⟩
    · rintro ⟨a, b, rfl, rfl, h⟩
      exact h
  | cons t ts ih =>
    constructor
    · rintro ⟨a, b, rfl, ha, h⟩
      obtain ⟨b, c, rfl, hb, hc⟩ := ih.mp h
      exact ⟨a ++ b, c, (List.append_assoc a b c).symm, ⟨a, b, rfl, ha, hb⟩, hc⟩
    · rintro ⟨_, c, rfl, ⟨a, b, rfl, ha, hb⟩, hc⟩
      exact ⟨a, b ++ c, List.append_assoc a b c, ha, ih.mpr ⟨b, c, rfl, hb, hc⟩⟩

theorem reads_any : Reads Token.Means [.any] s := ⟨s, [], (List.append_nil s).symm, trivial, rfl⟩

/-- A pattern that ends in a slash is translated with one token more. -/
theorem tokens_below (h : s = [] ∨ s.getLast? = some '/') : tokens (s ++ ['*', '*']) = tokens s ++ [.any] := by
  fun_induction tokens s with
  | case1 rest ih =>
    have hrest : rest = [] ∨ rest.getLast? = some '/' := by
      cases rest with
      | nil => exact .inl rfl
      | cons c rest => exact .inr (by simpa using h)
    exact congrArg (List.cons Token.dirs) (ih hrest)
  | case2 rest hne ih =>
    cases rest with
    | nil => simp at h
    | cons c rest =>
      have hc : c ≠ '/' := fun hc => hne rest (hc ▸ rfl)
      have htokens : tokens ('*' :: '*' :: c :: (rest ++ ['*', '*'])) = .any :: tokens (c :: (rest ++ ['*', '*'])) := by
        simp [tokens, hc]
      exact htokens.trans (congrArg (List.cons Token.any) (ih (.inr (by simpa using h))))
  | case3 rest hne hne' ih =>
    cases rest with
    | nil => simp at h
    | cons c rest =>
      have hc : c ≠ '*' := fun hc => hne' rest (hc ▸ rfl)
      have htokens : tokens ('*' :: c :: (rest ++ ['*', '*'])) = .run :: tokens (c :: (rest ++ ['*', '*'])) := by
        simp [tokens, hc]
      exact htokens.trans (congrArg (List.cons Token.run) (ih (.inr (by simpa using h))))
  | case4 rest ih =>
    cases rest with
    | nil => simp at h
    | cons c rest => exact congrArg (List.cons Token.one) (ih (.inr (by simpa using h)))
  | case5 c rest hne hne' hstar hone ih =>
    have hrest : rest = [] ∨ rest.getLast? = some '/' := by
      cases rest with
      | nil => exact .inl rfl
      | cons c rest => exact .inr (by simpa using h)
    have htokens : tokens (c :: (rest ++ ['*', '*'])) = .lit c :: tokens (rest ++ ['*', '*']) := by
      rw [tokens]
      · exact fun _ hc => absurd hc hstar
      · exact fun _ hc => absurd hc hstar
      · exact hstar
      · exact hone
    exact htokens.trans (congrArg (List.cons (Token.lit c)) (ih hrest))
  | case6 => rfl

theorem inLanguage_iff : InLanguage pattern path ↔ Reads Token.Means (tokens (normalized pattern)) path := by
  fun_induction withoutDots pattern with
  | case1 c rest ih =>
    have hnormal : normalized ('.' :: '/' :: c :: rest) = normalized (c :: rest) := by
      rw [normalized, normalized, withoutDots]
    rw [hnormal, ← ih, InLanguage]
  | case2 pattern hdots =>
    have hplain : withoutDots pattern = pattern := by
      rw [withoutDots]
      exact hdots
    rw [InLanguage, normalized, hplain]
    · by_cases hall : pattern = ['.'] ∨ pattern = ['.', '/']
      · rw [if_pos hall, ← or_assoc]
        exact ⟨fun _ => reads_any, fun _ => .inl hall⟩
      · rw [if_neg hall, ← or_assoc, or_iff_right hall]
        split
        · next hslash =>
          rw [tokens_below (.inr hslash), reads_append]
          constructor
          · rintro ⟨dir, below, rfl, hdir⟩
            exact ⟨dir, below, rfl, hdir, reads_any⟩
          · rintro ⟨dir, below, rfl, hdir, -⟩
            exact ⟨dir, below, rfl, hdir⟩
        · exact Iff.rfl
    · exact hdots

/-- What the expression of a token matches. -/
def Token.Matched : Token → Text → Prop
  | dirs, s => s = [] ∨ ∃ a, s = a ++ ['/'] ∧ '\n' ∉ a
  | any, s => '\n' ∉ s
  | t, s => t.Means s

theorem notNewline : (∀ c ∈ s, decide (c ≠ '\n') = true) ↔ '\n' ∉ s :=
  ⟨fun h hin => absurd (h _ hin) (by decide), fun h c hc => decide_eq_true (fun he => h (he ▸ hc))⟩

theorem token_matches (t : Token) (caps out : Regex.Captures Char Char) :
    Regex.Matches t.regex caps s out ↔ out = caps ∧ t.Matched s := by
  cases t with
  | dirs =>
    constructor
    · intro h
      cases h with
      | left h =>
        cases h with
        | seq ha hb =>
          obtain ⟨rfl, hall⟩ := Regex.matches_star_one.mp ha
          cases hb with
          | one hslash => exact ⟨rfl, .inr ⟨_, by rw [of_decide_eq_true hslash], notNewline.mp hall⟩⟩
      | right h =>
        cases h
        exact ⟨rfl, .inl rfl⟩
    · rintro ⟨rfl, rfl | ⟨a, rfl, ha⟩⟩
      · exact .right .empty
      · exact .left (.seq (Regex.matches_star_one.mpr ⟨rfl, notNewline.mpr ha⟩) (.one (decide_eq_true rfl)))
  | any =>
    refine Regex.matches_star_one.trans (and_congr_right fun _ => ?_)
    exact notNewline
  | run =>
    refine Regex.matches_star_one.trans (and_congr_right fun _ => ?_)
    exact ⟨fun h hin => absurd (h _ hin) (by decide), fun h c hc => decide_eq_true (fun he => h (he ▸ hc))⟩
  | one =>
    constructor
    · intro h
      cases h with
      | one hc => exact ⟨rfl, _, of_decide_eq_true hc, rfl⟩
    · rintro ⟨rfl, c, hc, rfl⟩
      exact .one (decide_eq_true hc)
  | lit c =>
    constructor
    · intro h
      cases h with
      | one hc => exact ⟨rfl, by rw [of_decide_eq_true hc]; rfl⟩
    · rintro ⟨rfl, rfl⟩
      exact .one (decide_eq_true rfl)

theorem tokens_match (ts : List Token) (caps out : Regex.Captures Char Char) :
    Regex.Matches (ts.foldr (fun t r => .seq t.regex r) .empty) caps s out ↔ out = caps ∧ Reads Token.Matched ts s := by
  induction ts generalizing s caps with
  | nil =>
    constructor
    · intro h
      cases h
      exact ⟨rfl, rfl⟩
    · rintro ⟨rfl, rfl⟩
      exact .empty
  | cons t ts ih =>
    constructor
    · intro h
      cases h with
      | seq ha hb =>
        obtain ⟨rfl, hmatched⟩ := (token_matches t _ _).mp ha
        obtain ⟨rfl, hreads⟩ := (ih _).mp hb
        exact ⟨rfl, _, _, rfl, hmatched, hreads⟩
    · rintro ⟨rfl, a, b, rfl, ha, hb⟩
      exact .seq ((token_matches t _ _).mpr ⟨rfl, ha⟩) ((ih _).mpr ⟨rfl, hb⟩)

theorem scopeMatches_iff : scopeMatches pattern path = true ↔
    Reads Token.Matched (tokens (normalized pattern)) path := by
  rw [scopeMatches]
  constructor
  · intro h
    obtain ⟨caps, hcaps⟩ := Option.isSome_iff_exists.mp h
    exact ((tokens_match _ _ _).mp (Regex.matches_of_fullmatch hcaps)).2
  · exact fun h => Regex.fullmatch_isSome ((tokens_match _ [] []).mpr ⟨rfl, h⟩)

theorem reads_congr {m m' : Token → Text → Prop} (h : ∀ t ∈ ts, ∀ a, a <:+: s → (m t a ↔ m' t a)) :
    Reads m ts s ↔ Reads m' ts s := by
  induction ts generalizing s with
  | nil => exact Iff.rfl
  | cons t ts ih =>
    have hone {a b : Text} (hs : s = a ++ b) : m t a ↔ m' t a :=
      h t List.mem_cons_self a (hs ▸ (List.prefix_append a b).isInfix)
    have hrest {a b : Text} (hs : s = a ++ b) : Reads m ts b ↔ Reads m' ts b :=
      ih (fun u hu c hc => h u (List.mem_cons_of_mem _ hu) c (hs ▸ hc.trans (List.suffix_append a b).isInfix))
    exact exists_congr fun a => exists_congr fun b => and_congr_right fun hs => and_congr (hone hs) (hrest hs)

theorem matched_iff_withinLines (t : Token) (s : Text) : t.Matched s ↔ t.WithinLines s := by
  cases t with
  | dirs =>
    constructor
    · rintro (rfl | ⟨a, rfl, ha⟩)
      · exact ⟨.inl rfl, fun _ => List.not_mem_nil⟩
      · exact ⟨.inr List.getLast?_concat, fun _ => by simp [ha]⟩
    · rintro ⟨rfl | h, hline⟩
      · exact .inl rfl
      · obtain ⟨a, rfl⟩ := List.getLast?_eq_some_iff.mp h
        exact .inr ⟨a, rfl, fun hin => hline (.inr rfl) (List.mem_append_left _ hin)⟩
  | any => exact ⟨fun h => ⟨trivial, fun _ => h⟩, fun h => h.2 (.inl rfl)⟩
  | _ => exact ⟨fun h => ⟨h, by rintro (hc | hc) <;> cases hc⟩, And.left⟩

/-- The expression of a pattern matches what the pattern reads without giving a newline to `**`. -/
theorem matches_lines : scopeMatches pattern path = true ↔ ReadsLines pattern path := by
  rw [scopeMatches_iff]
  exact reads_congr (fun t _ a _ => matched_iff_withinLines t a)

theorem inLanguage_of_lines (h : ReadsLines pattern path) : InLanguage pattern path := by
  rw [inLanguage_iff]
  unfold ReadsLines at h
  generalize tokens (normalized pattern) = ts at h ⊢
  induction ts generalizing path with
  | nil => exact h
  | cons t ts ih =>
    obtain ⟨a, b, rfl, ha, hb⟩ := h
    exact ⟨a, b, rfl, ha.1, ih hb⟩

/-- Where the path has no newline or the pattern no token that crosses one, a reading is one without. -/
theorem lines_of_plain (h : '\n' ∉ path ∨ ∀ t ∈ tokens (normalized pattern), ¬ t.Crosses) :
    InLanguage pattern path ↔ ReadsLines pattern path := by
  rw [inLanguage_iff]
  refine reads_congr (fun t ht a ha => ⟨fun hmeans => ⟨hmeans, fun hcrosses hin => ?_⟩, And.left⟩)
  rcases h with h | h
  · exact h (ha.subset hin)
  · exact h t ht hcrosses

theorem splitOn_universal (s : Text) : (universal s).splitOn '\x00' = (s.splitOn '\x00').map universal := by
  fun_induction universal s with
  | case1 rest ih =>
    obtain ⟨x, xs, hx⟩ := List.exists_cons_of_ne_nil (List.splitOn_ne_nil '\x00' rest)
    simp [List.splitOn_cons_eq_if_modifyHead, ih, hx, universal]
  | case2 rest hne ih =>
    obtain ⟨x, xs, hx⟩ := List.exists_cons_of_ne_nil (List.splitOn_ne_nil '\x00' rest)
    have hfirst : ∀ x', x = '\n' :: x' → False := by
      rintro x' rfl
      cases rest with
      | nil => simp at hx
      | cons d rest =>
        rw [List.splitOn_cons_eq_if_modifyHead] at hx
        split at hx
        · cases hx
        · obtain ⟨y, ys, hy⟩ := List.exists_cons_of_ne_nil (List.splitOn_ne_nil '\x00' rest)
          rw [hy, List.modifyHead_cons] at hx
          cases hx
          exact hne rest rfl
    have hmode : universal ('\r' :: x) = '\n' :: universal x := by
      rw [universal]
      exact hfirst
    simp [List.splitOn_cons_eq_if_modifyHead, ih, hx, hmode]
  | case3 c rest hpair hreturn ih =>
    obtain ⟨x, xs, hx⟩ := List.exists_cons_of_ne_nil (List.splitOn_ne_nil '\x00' rest)
    have hmode : universal (c :: x) = c :: universal x := by
      rw [universal]
      · exact fun _ hc => absurd hc hreturn
      · exact hreturn
    rw [List.splitOn_cons_eq_if_modifyHead, List.splitOn_cons_eq_if_modifyHead, ih]
    split
    · rfl
    · rw [hx, List.map_cons, List.modifyHead_cons, List.modifyHead_cons, List.map_cons, hmode]
  | case4 => rfl

theorem pathsOf_universal (out : Text) : pathsOf (universal out) = (pathsOf out).map universal := by
  rw [pathsOf, pathsOf, splitOn_universal, List.filter_map]
  congr 2
  funext p
  simp [universal_eq_nil]

theorem mem_sorted {paths : List Text} : sorted paths = [] ↔ paths = [] := by
  rw [sorted, ← List.length_eq_zero_iff, List.length_mergeSort, List.length_map, List.length_eq_zero_iff]

theorem outputs_texts {git : Git} {calls : List (List String)} {outs : List ByteArray}
    (h : calls.map git.call = outs.map .ok) :
    (∀ texts, outs.mapM (fun out => (String.fromUTF8? out).map String.toList) = some texts →
        git.outputs calls = .ok (.ok (texts.map universal))) ∧
      (outs.mapM (fun out => (String.fromUTF8? out).map String.toList) = none →
        ∃ text, git.outputs calls = .error ⟨"UnicodeDecodeError", text⟩) := by
  induction calls generalizing outs with
  | nil =>
    obtain rfl := List.map_eq_nil_iff.mp h.symm
    refine ⟨fun texts htexts => ?_, fun hnone => ?_⟩
    · cases htexts
      rfl
    · cases hnone
  | cons args calls ih =>
    obtain ⟨out, outs, rfl, hout, hrest⟩ := List.map_eq_cons_iff.mp h.symm
    obtain ⟨hall, hnone⟩ := ih hrest.symm
    rw [List.mapM_cons]
    cases htext : String.fromUTF8? out with
    | none =>
      have hread : git.read args = .error ⟨"UnicodeDecodeError", git.undecodable out⟩ := by
        rw [Git.read, ← hout]
        simp only [htext]
      exact ⟨fun texts h => absurd h (Option.some_ne_none texts).symm, fun _ => ⟨_, by rw [Git.outputs, hread]; rfl⟩⟩
    | some text =>
      have hread : git.read args = .ok (.ok (universal text.toList)) := by
        rw [Git.read, ← hout]
        simp only [htext]
      rw [Git.outputs, hread]
      cases htexts : outs.mapM (fun out => (String.fromUTF8? out).map String.toList) with
      | none =>
        obtain ⟨raised, hraised⟩ := hnone htexts
        exact ⟨fun texts h => absurd h (Option.some_ne_none texts).symm, fun _ => ⟨raised, by rw [hraised]; rfl⟩⟩
      | some texts =>
        refine ⟨fun texts' h => ?_, fun h => absurd h (Option.some_ne_none _)⟩
        cases h
        rw [hall texts htexts]
        rfl

theorem changesWithin_pass {git : Git} {baseSha : String} {texts : List Text} (hanswers : git.Answers baseSha l)
    (htexts : l.texts = some texts) : ∃ r, changesWithin git baseSha scope = .ok r ∧ (r.outcome = .pass ↔
      ∀ path ∈ texts.flatMap pathsOf, ∃ g ∈ scope, ReadsLines g.toList (universal path)) := by
  obtain ⟨rev, hbase, hrev, hcalls⟩ := hanswers
  have houts := (outputs_texts hcalls).1 texts htexts
  have hread : (texts.map universal).flatMap pathsOf = (texts.flatMap pathsOf).map universal := by
    simp only [List.flatMap_map, List.map_flatMap, pathsOf_universal]
  have hcovered : sorted (((texts.flatMap pathsOf).map universal).dedup.filter
      (fun p => !scope.any (fun g => scopeMatches g.toList p))) = [] ↔
      ∀ path ∈ texts.flatMap pathsOf, ∃ g ∈ scope, ReadsLines g.toList (universal path) := by
    rw [mem_sorted, List.filter_eq_nil_iff]
    simp only [List.mem_dedup, List.forall_mem_map, Bool.not_eq_true', Bool.not_eq_false,
      List.any_eq_true, matches_lines]
  rw [← hcovered]
  simp only [changesWithin, if_neg hbase, hrev, ok_bind, houts, hread]
  split
  · next hout => exact ⟨_, rfl, iff_of_false (by simp) hout⟩
  · next hout =>
    rw [not_not] at hout
    exact ⟨_, rfl, iff_of_true rfl hout⟩

/-- A `git` with these answers. -/
def answering (l : Listing) : Git where
  call := fun args =>
    if args = ["diff", "--name-only", "--no-renames", "-z", "HEAD"] then .ok l.uncommitted
    else if args = ["ls-files", "--others", "--exclude-standard", "-z"] then .ok l.untracked
    else .ok l.committed
  undecodable := fun _ => "'utf-8' codec can't decode bytes"

theorem answering_answers (l : Listing) : (answering l).Answers "base" l := ⟨"base", by decide, rfl, rfl⟩

theorem listing_exact (l : Listing) (scope : List String) : Exact l scope ↔ ∃ texts, l.texts = some texts ∧
    ((∀ path ∈ texts.flatMap pathsOf, ∃ g ∈ scope, ReadsLines g.toList (universal path)) ↔
      ∀ path ∈ texts.flatMap pathsOf, ∃ g ∈ scope, InLanguage g.toList path) := by
  constructor
  · intro h
    obtain ⟨texts, r, htexts, hr, hpass⟩ := h _ _ (answering_answers l)
    obtain ⟨r', hr', hpass'⟩ : ∃ r, changesWithin (answering l) "base" scope = .ok r ∧ _ :=
      changesWithin_pass (answering_answers l) htexts
    cases hr.symm.trans hr'
    exact ⟨texts, htexts, hpass'.symm.trans hpass⟩
  · rintro ⟨texts, htexts, hiff⟩ git baseSha hanswers
    obtain ⟨r, hr, hpass⟩ : ∃ r, changesWithin git baseSha scope = .ok r ∧ _ := changesWithin_pass hanswers htexts
    exact ⟨texts, r, htexts, hr, hpass.trans hiff⟩

/-- The expression of a pattern matches the paths of its language but for those that it reads only by giving a newline
to a `**`. So the predicate passes as documented exactly where the listings are text and every path has a reading
without, carriage returns taken as newlines, just where every path is named; and text that is no UTF-8 raises. -/
theorem scope_globs (pattern path : Text) (scope : List String) (l : Listing) :
    ((scopeMatches pattern path = true ↔ InLanguage pattern path) ↔
      (InLanguage pattern path → ReadsLines pattern path)) ∧
    ('\n' ∉ path ∨ (∀ t ∈ tokens (normalized pattern), ¬ t.Crosses) →
      (scopeMatches pattern path = true ↔ InLanguage pattern path)) ∧
    (Exact l scope ↔ ∃ texts, l.texts = some texts ∧
      ((∀ path ∈ texts.flatMap pathsOf, ∃ g ∈ scope, ReadsLines g.toList (universal path)) ↔
        ∀ path ∈ texts.flatMap pathsOf, ∃ g ∈ scope, InLanguage g.toList path)) ∧
    (l.texts = none → ∀ git baseSha, git.Answers baseSha l →
      ∃ text, changesWithin git baseSha scope = .error ⟨"UnicodeDecodeError", text⟩) := by
  refine ⟨?_, fun h => matches_lines.trans (lines_of_plain h).symm, listing_exact l scope, ?_⟩
  · rw [matches_lines]
    exact ⟨Iff.mpr, fun h => ⟨inLanguage_of_lines, h⟩⟩
  · rintro hnone git baseSha ⟨rev, hbase, hrev, hcalls⟩
    obtain ⟨text, houts⟩ := (outputs_texts hcalls).2 hnone
    refine ⟨text, ?_⟩
    simp only [changesWithin, if_neg hbase, hrev, ok_bind, houts]
    rfl

/-- The expression of a folder does not match a file of the folder whose name has a newline. -/
theorem newline_unmatched :
    ¬ ∀ pattern path : Text, scopeMatches pattern path = true ↔ InLanguage pattern path := by
  intro h
  have hnamed : InLanguage "docs/".toList "docs/a\nb".toList := by
    refine .inr (.inr ?_)
    rw [if_pos (by decide)]
    refine ⟨"docs/".toList, "a\nb".toList, rfl, ?_⟩
    exact ⟨['d'], _, rfl, rfl, ['o'], _, rfl, rfl, ['c'], _, rfl, rfl, ['s'], _, rfl, rfl, ['/'], [], rfl, rfl, rfl⟩
  exact absurd ((h _ _).mpr hnamed) (by decide)

end AItelier.Todo
